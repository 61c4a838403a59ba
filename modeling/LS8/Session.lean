import LS8.Machine

/-! Machines at work: a machine with its sink and with someone who watches. -/
namespace LS8

/-- An observer sees each event and has no way to answer. -/
class Observer (ω : Type) where
  observe : Event → ω → ω

instance : Observer Unit where
  observe _ _ := ()

instance : Observer (Array Event) where
  observe event seen := seen.push event

def Observer.watch {ω : Type} [Observer ω] (events : List Event) (observer : ω) : ω :=
  events.foldl (fun o event => observe event o) observer

structure Session (σ ω : Type) where
  machine : Machine
  sink : σ
  observer : ω

inductive Outcome where
  | stopped (state : State)
  | fault (error : Error)
  /-- It was left after the cycles it was allowed. -/
  | abandoned
  deriving DecidableEq

namespace Outcome

def ofResult : Except Error State → Outcome
  | .ok state => .stopped state
  | .error e => .fault e

end Outcome

namespace Session

variable {σ ω : Type} [Sink σ] [Observer ω]

/-- One step of the machine, whose events the observer sees. -/
def step : Session σ ω → Session σ ω × Except Error State
  | ⟨machine, sink, observer⟩ =>
    let t := machine.step sink
    (⟨t.machine, t.sink, Observer.watch t.events observer⟩, t.result)

/-- Steps until the machine stops. A run that would fetch more than `cycles` instructions is
abandoned right before it does. -/
def run : Nat → Session σ ω → Session σ ω × Outcome
  | 0, s =>
    if s.machine.canFetch then (s, .abandoned)
    else
      let (t, result) := s.step
      (t, .ofResult result)
  | cycles + 1, s =>
    match s.step with
    | (t, .ok .running) => run cycles t
    | (t, result) => (t, .ofResult result)

/-- Steps at most `count` times, and no more once the machine has stopped. Returns the number of
steps and the answer of the last one. -/
def steps (count : Nat) (s : Session σ ω) : Session σ ω × Nat × Option (Except Error State) :=
  go count 0 none s
where
  go : Nat → Nat → Option (Except Error State) → Session σ ω →
      Session σ ω × Nat × Option (Except Error State)
    | 0, made, last, s => (s, made, last)
    | left + 1, made, _, s =>
      match s.step with
      | (t, .ok .running) => go left (made + 1) (some (.ok .running)) t
      | (t, result) => (t, made + 1, some result)

end Session

end LS8
