import LS8.Proofs.Calls
import LS8.Trace.Hexadecimal

/-! Tracing. Main statement: a machine and the log that it keeps of itself are the same under every
trace, although the trace is called back in the middle of each cycle. -/
namespace LS8

/-- An event that a machine may show: what it logs, it logs under its own name. -/
def Event.Native : Event → Prop
  | .logged record => record.target = "ls8_vm"
  | _ => True

namespace Machine

variable {σ : Type} [Sink σ] {m : Machine} {sink : σ} {i : Instruction} {e : Event}

omit [Sink σ] in
theorem native_of_mem_fault {pc : UInt64} {events : List Event} {error : Error}
    (h : ∀ e ∈ events, e.Native) (he : e ∈ (m.fault pc sink events error).events) : e.Native := by
  rcases List.mem_append.mp he with he | he
  · exact h e he
  · rw [List.mem_singleton.mp he]
    rfl

theorem native_of_mem_begun (he : e ∈ m.begun i) : e.Native := by
  simp only [begun, List.mem_cons, List.not_mem_nil, or_false] at he
  rcases he with rfl | rfl
  · trivial
  · rfl

theorem native_of_mem_ended (he : e ∈ m.ended i) : e.Native := by
  unfold ended at he
  rcases List.mem_append.mp he with he | he
  · split_ifs at he
    · rw [List.mem_singleton.mp he]
      rfl
    · exact (List.not_mem_nil he).elim
  · rw [List.mem_singleton.mp he]
    trivial

theorem native_of_mem (he : e ∈ (m.step sink).events) : e.Native := by
  by_cases hr : m.state = .running
  · rw [step_of_running hr] at he
    cases m.course sink with
    | unfetched hp hc =>
      rw [hc] at he
      exact native_of_mem_fault (fun e h => (List.not_mem_nil h).elim) he
    | undecoded error hp hd hc =>
      rw [hc] at he
      refine native_of_mem_fault (fun e h => ?_) he
      rw [List.mem_singleton.mp h]
      trivial
    | failed i error hi hk hc =>
      rw [hc] at he
      exact native_of_mem_fault (fun e => native_of_mem_begun) he
    | refused i cause s hi hk hm hc =>
      rw [hc] at he
      exact native_of_mem_fault (fun e => native_of_mem_begun) he
    | completed i s hi hk hm hc =>
      rw [hc] at he
      rcases List.mem_append.mp he with he | he
      · exact native_of_mem_begun he
      · exact native_of_mem_ended he
  · rw [step_of_stopped hr] at he
    exact (List.not_mem_nil he).elim

end Machine

/-- The work of a cycle on a session, which an error may cut short. -/
abbrev Live (σ ω : Type) := EStateM Error (Session σ ω)

namespace Live

variable {σ ω : Type} [Sink σ] [Observer ω]

/-- Calls the observer. -/
def tell (event : Event) : Live σ ω Unit := fun ⟨machine, sink, observer⟩ =>
  .ok () ⟨machine, sink, Observer.observe event observer⟩

def processor : Live σ ω Cpu := fun s => .ok s.machine.cpu s

def fetch : Live σ ω Fetched := fun s =>
  match s.machine.fetch with
  | .ok bytes => .ok bytes s
  | .error e => .error e s

def decode (bytes : Fetched) : Live σ ω Instruction := fun s =>
  match Instruction.decode bytes with
  | .ok i => .ok i s
  | .error e => .error e s

def execute (i : Instruction) : Live σ ω Advance := fun ⟨machine, sink, observer⟩ =>
  match i.execute ⟨machine.cpu, machine.memory, sink⟩ with
  | .ok target d => .ok target ⟨{ machine with cpu := d.cpu, memory := d.memory }, d.sink, observer⟩
  | .error e d => .error e ⟨{ machine with cpu := d.cpu, memory := d.memory }, d.sink, observer⟩

def advance (size : ℕ) (target : Advance) : Live σ ω Unit := fun ⟨machine, sink, observer⟩ =>
  .ok () ⟨machine.advance size target, sink, observer⟩

/-- A cycle that calls its observer back where each event happens. -/
def cycle : Live σ ω Unit := do
  let cpu ← processor
  let bytes ← fetch
  tell (.fetched cpu bytes)
  let i ← decode bytes
  tell (.logged (.decoded cpu.pc i))
  let target ← execute i
  advance i.opcode.size target
  if target = .halt then tell (.logged (.halted cpu.pc))
  tell (.executed i (← processor))

/-- A fault is logged once the cycle has been cut short. -/
def step (s : Session σ ω) : Session σ ω × Except Error State :=
  if s.machine.state = .running then
    match cycle s with
    | .ok () t => (t, .ok t.machine.state)
    | .error e ⟨machine, sink, observer⟩ =>
      (⟨{ machine with state := .faulted }, sink,
        Observer.observe (.logged (.fault s.machine.cpu.pc e)) observer⟩, .error e)
  else (s, .ok s.machine.state)

/-- Since no observer can answer, showing it all events after the cycle is the same. -/
theorem step_eq (s : Session σ ω) : step s = s.step := by
  obtain ⟨⟨cpu, memory, state⟩, sink, o⟩ := s
  unfold step
  rw [Session.step_eq]
  by_cases hr : state = .running
  · subst hr
    rw [Machine.step_of_running rfl]
    unfold Machine.cycle cycle
    simp only [if_true, bind, EStateM.bind, processor, fetch, decode, tell, execute, advance]
    cases Machine.fetch ⟨cpu, memory, .running⟩ with
    | error e => rfl
    | ok bytes =>
      cases hd : Instruction.decode bytes with
      | error e =>
        simp only [hd]
        rfl
      | ok i =>
        cases hx : i.execute ⟨cpu, memory, sink⟩ with
        | error e d =>
          simp only [hd, hx]
          rfl
        | ok target d =>
          simp only [hd, hx]
          cases target <;> rfl
  · rw [Machine.step_of_stopped hr]
    simp only [hr, if_false]
    rfl

end Live

/-- A map between observers that keeps what a machine shows them. -/
def Observer.Respects {ω ω' : Type} [Observer ω] [Observer ω'] (f : ω → ω') : Prop :=
  ∀ e : Event, e.Native → ∀ o, f (observe e o) = observe e (f o)

theorem Observer.Respects.watch {ω ω' : Type} [Observer ω] [Observer ω'] {f : ω → ω'}
    (hf : Respects f) {events : List Event} (he : ∀ e ∈ events, e.Native) (o : ω) :
    f (Observer.watch events o) = Observer.watch events (f o) := by
  induction events generalizing o with
  | nil => rfl
  | cons e events ih =>
    have h0 : f (observe e o) = observe e (f o) := hf e (he e List.mem_cons_self) o
    change f (Observer.watch events (observe e o)) = Observer.watch events (observe e (f o))
    rw [ih (fun e' h => he e' (List.mem_cons_of_mem e h)), h0]

namespace Session

variable {σ ω ω' : Type} [Sink σ] [Observer ω] [Observer ω'] {f : ω → ω'}

def mapObserver (f : ω → ω') (s : Session σ ω) : Session σ ω' :=
  ⟨s.machine, s.sink, f s.observer⟩

/-- What is left and answered, as it looks to another observer. -/
def seenBy (f : ω → ω') : Session σ ω × Outcome → Session σ ω' × Outcome :=
  Prod.map (mapObserver f) id

theorem step_mapObserver (hf : Observer.Respects f) (s : Session σ ω) :
    (s.mapObserver f).step = (s.step.1.mapObserver f, s.step.2) := by
  have hw : f (Observer.watch (s.machine.step s.sink).events s.observer) =
      Observer.watch (s.machine.step s.sink).events (f s.observer) :=
    hf.watch (fun e => Machine.native_of_mem) s.observer
  rw [step_eq, step_eq, mapObserver, mapObserver, hw]

theorem after_mapObserver (hf : Observer.Respects f) (s : Session σ ω) (n : ℕ) :
    (s.mapObserver f).after n = (s.after n).mapObserver f := by
  induction n with
  | zero => rfl
  | succ n ih => rw [after_succ, after_succ, ih, step_mapObserver hf]

theorem run_mapObserver (hf : Observer.Respects f) (limit : ℕ) (s : Session σ ω) :
    (s.mapObserver f).run limit = seenBy f (s.run limit) := by
  have hs := step_mapObserver hf s
  induction limit generalizing s with
  | zero =>
    rw [run, run, hs]
    change (if s.machine.canFetch then _ else _) = _
    split_ifs <;> rfl
  | succ limit ih =>
    by_cases ha : s.step.2 = .ok .running
    · have hm : (s.mapObserver f).step.2 = .ok .running := by rw [hs, ha]
      rw [run_succ ha, run_succ hm, hs]
      exact ih _ (step_mapObserver hf _)
    · have hm : (s.mapObserver f).step.2 ≠ .ok .running := by rwa [hs]
      rw [run_of_answer ha, run_of_answer hm, hs]
      rfl

theorem respond_mapObserver (hf : Observer.Respects f) (s : Session σ ω) (q : Request) :
    (s.mapObserver f).respond q = seenBy f (s.respond q) := by
  cases q with
  | step =>
    rw [respond, step_mapObserver hf]
    rfl
  | run limit => exact run_mapObserver hf limit s

theorem responses_mapObserver (hf : Observer.Respects f) (s : Session σ ω)
    (qs : List Request) : (s.mapObserver f).responses qs = (s.responses qs).map (seenBy f) := by
  induction qs generalizing s with
  | nil => rfl
  | cons q qs ih =>
    have hq := respond_mapObserver hf s q
    rw [responses, responses, hq, List.map_cons]
    congr 1
    exact ih (s.respond q).1

end Session

/-- A trace and a log that tells of each record whether it is the machine's own. -/
structure Ledger (τ : Type) where
  trace : τ
  log : List (Log.Record × Bool)

namespace Ledger

variable {τ : Type} [Trace τ]

instance : Observer (Ledger τ) where
  observe
    | .fetched cpu bytes, ⟨trace, log⟩ =>
      let (trace, records) := Trace.fetched cpu bytes trace
      ⟨trace, log ++ records.map (·, false)⟩
    | .logged record, ⟨trace, log⟩ => ⟨trace, log ++ [(record, true)]⟩
    | .executed i cpu, ⟨trace, log⟩ =>
      let (trace, records) := Trace.executed i cpu trace
      ⟨trace, log ++ records.map (·, false)⟩

/-- The log that machine and trace share. -/
def journal (l : Ledger τ) : Journal τ := ⟨l.trace, (l.log.map (·.1)).toArray⟩

/-- The log without what the trace has added to it. -/
def own (l : Ledger τ) : Journal Unit := ⟨(), ((l.log.filter (·.2)).map (·.1)).toArray⟩

theorem respects_journal : Observer.Respects (journal (τ := τ)) := by
  intro e _ l
  obtain ⟨t, log⟩ := l
  cases e with
  | fetched cpu bytes => simp [Observer.observe, Journal.observe, journal, Function.comp_def]
  | logged record => simp [Observer.observe, Journal.observe, journal]
  | executed i cpu => simp [Observer.observe, Journal.observe, journal, Function.comp_def]

theorem respects_own : Observer.Respects (own (τ := τ)) := by
  intro e _ l
  obtain ⟨t, log⟩ := l
  cases e with
  | fetched cpu bytes => simp [Observer.observe, Journal.observe, own, Trace.fetched]
  | logged record => simp [Observer.observe, Journal.observe, own]
  | executed i cpu => simp [Observer.observe, Journal.observe, own, Trace.executed]

end Ledger

namespace Trace.Hexadecimal

/-- The records that this trace adds to the log. -/
def isLost (record : Log.Record) : Bool :=
  record.level = .warn ∧ record.target = "ls8::trace"

def unlost (j : Journal Hexadecimal) : Journal Unit := ⟨(), j.log.filter (!isLost ·)⟩

theorem respects_unlost : Observer.Respects unlost := by
  intro e he j
  obtain ⟨⟨w⟩, log⟩ := j
  cases e with
  | fetched cpu bytes =>
    have hl : ∀ cause, isLost (.traceLost cause) = true := fun cause => rfl
    simp only [Observer.observe, Journal.observe, unlost, Trace.fetched, write]
    cases Writer.write (line cpu bytes ++ "\n") w with
    | ok u w' => simp
    | error cause w' => simp [hl]
  | logged record =>
    have ht : record.target = "ls8_vm" := he
    have hl : isLost record = false := by simp [isLost, ht]
    simp [Observer.observe, Journal.observe, unlost, hl]
  | executed i cpu => simp [Observer.observe, Journal.observe, unlost, Trace.executed]

end Trace.Hexadecimal

/-- Calls of the same machine with the traces `t` and `u`, whatever these are and whatever they log.
The last part is about the moment: a trace that is called back in the middle of a cycle is one that is
shown the events of the cycle. -/
theorem Session.tracing_never_interferes {σ τ υ : Type} [Sink σ] [Trace τ] [Trace υ] (m : Machine)
    (sink : σ) (t : τ) (u : υ) (qs : List Request) :
    let a : Session σ (Ledger τ) := ⟨m, sink, ⟨t, []⟩⟩
    let b : Session σ (Ledger υ) := ⟨m, sink, ⟨u, []⟩⟩
    let untraced : Session σ (Journal Unit) := ⟨m, sink, ⟨(), #[]⟩⟩
    (a.responses qs).map (seenBy Ledger.own) = (b.responses qs).map (seenBy Ledger.own) ∧
      (a.responses qs).map (seenBy Ledger.own) = untraced.responses qs ∧
      (a.responses qs).map (seenBy Ledger.journal) =
        (⟨m, sink, ⟨t, #[]⟩⟩ : Session σ (Journal τ)).responses qs ∧
      (∀ w : Writer,
        ((⟨m, sink, ⟨⟨w⟩, #[]⟩⟩ : Session σ (Journal Trace.Hexadecimal)).responses qs).map
          (seenBy Trace.Hexadecimal.unlost) = untraced.responses qs) ∧
      ∀ s : Session σ (Journal τ), Live.step s = s.step := by
  intro a b untraced
  have ha : untraced.responses qs = (a.responses qs).map (seenBy Ledger.own) :=
    responses_mapObserver Ledger.respects_own a qs
  have hb : untraced.responses qs = (b.responses qs).map (seenBy Ledger.own) :=
    responses_mapObserver Ledger.respects_own b qs
  refine ⟨ha.symm.trans hb, ha.symm, ?_, fun w => ?_, Live.step_eq⟩
  · exact (responses_mapObserver Ledger.respects_journal a qs).symm
  · exact (responses_mapObserver Trace.Hexadecimal.respects_unlost ⟨m, sink, ⟨⟨w⟩, #[]⟩⟩ qs).symm

end LS8
