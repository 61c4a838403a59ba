import LS8.Session

/-! Traces: observers that are told what the processor does and may add to the log. -/
namespace LS8

/-- A trace follows a processor. What it cannot do it reports as log records. -/
class Trace (τ : Type) where
  fetched : Cpu → Fetched → τ → τ × List Log.Record
  executed : Instruction → Cpu → τ → τ × List Log.Record

/-- The trace that keeps nothing. -/
instance : Trace Unit where
  fetched _ _ t := (t, [])
  executed _ _ t := (t, [])

/-- A trace and the log that it shares with the machine. -/
structure Journal (τ : Type) where
  trace : τ
  log : Array Log.Record

namespace Journal

variable {τ : Type}

/-- Shows an event to the trace, and logs its answer. What the machine logs is logged as it is. -/
def observe [Trace τ] : Event → Journal τ → Journal τ
  | .fetched cpu bytes, ⟨trace, log⟩ =>
    let (trace, records) := Trace.fetched cpu bytes trace
    ⟨trace, log ++ records⟩
  | .logged record, ⟨trace, log⟩ => ⟨trace, log.push record⟩
  | .executed i cpu, ⟨trace, log⟩ =>
    let (trace, records) := Trace.executed i cpu trace
    ⟨trace, log ++ records⟩

instance [Trace τ] : Observer (Journal τ) where
  observe := observe

end Journal

end LS8
