import LS8.Text.Numeral
import LS8.Writer

/-! Sinks: where printed values go. -/
namespace LS8

/-- A sink takes one value at a time. One that refuses a value tells why, and may have changed. -/
class Sink (σ : Type) where
  emit : UInt8 → EStateM String σ Unit

structure Collector where
  values : Array UInt8

namespace Collector

def empty : Collector := ⟨#[]⟩

instance : Sink Collector where
  emit value c := .ok () ⟨c.values.push value⟩

end Collector

/-- Keeps the first values and refuses the others. -/
structure Quota where
  values : Array UInt8
  /-- How many values it still takes. -/
  left : Nat
  refusal : String

namespace Quota

def of (count : Nat) (refusal : String) : Quota := ⟨#[], count, refusal⟩

instance : Sink Quota where
  emit value q :=
    match q.left with
    | 0 => .error q.refusal q
    | n + 1 => .ok () { q with values := q.values.push value, left := n }

end Quota

/-- Writes each value in decimal on a line of its own. -/
structure LinePrinter where
  writer : Writer

namespace LinePrinter

def line (value : UInt8) : String := Text.decimal value.toNat ++ "\n"

instance : Sink LinePrinter where
  emit value p :=
    match Writer.write (line value) p.writer with
    | .ok () w => .ok () ⟨w⟩
    | .error e w => .error e ⟨w⟩

end LinePrinter

end LS8
