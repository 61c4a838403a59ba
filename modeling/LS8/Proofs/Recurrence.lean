import LS8.Proofs.Calls
import LS8.Proofs.Emission
import Mathlib.Data.Fintype.BigOperators
import Mathlib.Data.Fintype.Card
import Mathlib.Order.Monotone.Defs

/-! The configurations of a machine. Main statement: what a machine does depends on its
configuration alone, so that a run that stops does so before it has met more configurations than
there are. -/
namespace LS8

namespace Machine

variable {m n : Machine}

/-- A processor and a memory as numbers. -/
abbrev Configuration : Type :=
  Fin UInt64.size × (Fin 8 → Fin UInt8.size) × (Bool × Bool × Bool) × (Fin 256 → Fin UInt8.size)

def configuration (m : Machine) : Configuration :=
  let f := m.cpu.flags
  (m.cpu.pc.toFin, fun i => (m.cpu.registers.cells.get i).toFin, (f.equal, f.greater, f.less),
    fun i => (m.memory.cells.get i).toFin)

/-- How many configurations there are: 64 bits for the program counter, 8 for each register, one for
each flag and 8 for each cell. -/
theorem card_configuration : Fintype.card Configuration = 2 ^ (64 + 8 * 8 + 3 + 256 * 8) := by
  have hc : Fintype.card Configuration =
      2 ^ 64 * ((2 ^ 8) ^ 8 * (2 ^ 3 * (2 ^ 8) ^ 256)) := by
    simp only [Fintype.card_prod, Fintype.card_fun, Fintype.card_fin, Fintype.card_bool]
    rfl
  rw [hc, ← pow_mul, ← pow_mul, ← pow_add, ← pow_add, ← pow_add]

theorem toFin_cells_inj {k : ℕ} {xs ys : Vector UInt8 k}
    (h : (fun i : Fin k => (xs.get i).toFin) = fun i => (ys.get i).toFin) : xs = ys := by
  refine Vector.ext fun i hi => ?_
  exact UInt8.toFin_inj.mp (congrFun h ⟨i, hi⟩)

theorem eq_of_configuration_eq (h : m.configuration = n.configuration) (hs : m.state = n.state) :
    m = n := by
  have hpc : m.cpu.pc = n.cpu.pc := UInt64.toFin_inj.mp (congrArg Prod.fst h)
  have hr : m.cpu.registers.cells = n.cpu.registers.cells :=
    toFin_cells_inj (congrArg (fun c => c.2.1) h)
  have hf : (m.cpu.flags.equal, m.cpu.flags.greater, m.cpu.flags.less) =
      (n.cpu.flags.equal, n.cpu.flags.greater, n.cpu.flags.less) :=
    congrArg (fun c => c.2.2.1) h
  have hm : m.memory.cells = n.memory.cells := toFin_cells_inj (congrArg (fun c => c.2.2.2) h)
  obtain ⟨⟨pc, ⟨registers⟩, ⟨e, g, l⟩⟩, ⟨cells⟩, state⟩ := m
  obtain ⟨⟨pc', ⟨registers'⟩, ⟨e', g', l'⟩⟩, ⟨cells'⟩, state'⟩ := n
  simp only [Prod.mk.injEq] at hf
  obtain ⟨he, hg, hl⟩ := hf
  subst hpc hr he hg hl hm hs
  rfl

end Machine

namespace Session

variable {σ τ ω ω' : Type} [Sink σ] [Sink τ] [Observer ω] [Observer ω']

theorem after_add (s : Session σ ω) (i k : ℕ) : s.after (i + k) = (s.after i).after k := by
  rw [Nat.add_comm]
  exact Function.iterate_add_apply _ k i s

/-- Sinks that take every value do not show in the machine. -/
theorem step_agree (hσ : Sink.NeverFails σ) (hτ : Sink.NeverFails τ) {s : Session σ ω}
    {t : Session τ ω'} (h : s.machine = t.machine) :
    s.step.1.machine = t.step.1.machine ∧ s.step.2 = t.step.2 := by
  obtain ⟨s', hs⟩ := hσ.emitAll s.machine.offered s.sink
  obtain ⟨t', ht⟩ := hτ.emitAll s.machine.offered t.sink
  rw [step_eq, step_eq, Machine.step_of_accepted hs ht, h]
  exact ⟨rfl, rfl⟩

theorem after_agree (hσ : Sink.NeverFails σ) (hτ : Sink.NeverFails τ) {s : Session σ ω}
    {t : Session τ ω'} (h : s.machine = t.machine) (n : ℕ) :
    (s.after n).machine = (t.after n).machine := by
  induction n with
  | zero => exact h
  | succ n ih =>
    rw [after_succ, after_succ]
    exact (step_agree hσ hτ ih).1

variable {s : Session σ ω} {n : ℕ}

/-- From a configuration that comes back the run would go the same way again, and so would not stop
where it does. -/
theorem configuration_ne (hσ : Sink.NeverFails σ) (hw : s.Working n)
    (hn : (s.after n).step.2 ≠ .ok .running) {i j : ℕ} (hij : i < j) (hj : j ≤ n) :
    (s.after i).machine.configuration ≠ (s.after j).machine.configuration := by
  intro h
  have hr : s.machine.state = .running :=
    Machine.running_of_result (hw 0 (Nat.lt_of_lt_of_le (Nat.zero_lt_of_lt hij) hj))
  have hrun : ∀ k ≤ n, (s.after k).machine.state = .running := fun k hk =>
    running_after hr fun l hl => hw l (Nat.lt_of_lt_of_le hl hk)
  have hm : (s.after i).machine = (s.after j).machine :=
    Machine.eq_of_configuration_eq h ((hrun i (by omega)).trans (hrun j hj).symm)
  obtain ⟨k, rfl⟩ := Nat.exists_eq_add_of_le hj
  have hk := after_agree hσ hσ hm k
  rw [← after_add, ← after_add] at hk
  apply hn
  rw [← (step_agree hσ hσ hk).2]
  exact hw (i + k) (by omega)

theorem lt_of_stops (hσ : Sink.NeverFails σ) (hw : s.Working n)
    (hn : (s.after n).step.2 ≠ .ok .running) : n < Fintype.card Machine.Configuration := by
  let f : Fin (n + 1) → Machine.Configuration := fun k => (s.after k).machine.configuration
  have hf : Function.Injective f := .of_lt_imp_ne fun i j hij =>
    configuration_ne hσ hw hn hij (Nat.le_of_lt_succ j.isLt)
  have hc := Fintype.card_le_of_injective f hf
  rw [Fintype.card_fin] at hc
  exact hc

end Session

end LS8
