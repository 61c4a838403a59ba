import LS8.Proofs.Overlay
import LS8.Proofs.Recurrence
import Mathlib.Data.Fintype.Pigeonhole

/-! Runs that never stop. Main statement: a run stops exactly if no processor and memory come back
at the start of one of its cycles, and what has come back once comes back for ever. -/
namespace LS8.Session

variable {σ ω : Type} [Sink σ] [Observer ω] {s : Session σ ω} {i j n : ℕ}

/-- The processor and the memory after `n` steps. -/
def snapshot (s : Session σ ω) (n : ℕ) : Cpu × Memory :=
  ((s.after n).machine.cpu, (s.after n).machine.memory)

/-- The machine is running after `n` steps, so that the next step is a cycle. -/
def Begins (s : Session σ ω) (n : ℕ) : Prop := (s.after n).machine.state = .running

/-- What the step after `n` steps hands to the sink. -/
def printed (s : Session σ ω) (n : ℕ) : List UInt8 := (s.after n).machine.offered

theorem emitAll_printed (hσ : Sink.NeverFails σ) (s : Session σ ω) (n : ℕ) :
    Sink.emitAll (s.printed n) (s.after n).sink = .ok () (s.after (n + 1)).sink := by
  obtain ⟨t, ht⟩ := hσ.emitAll (s.printed n) (s.after n).sink
  have hs := Machine.step_of_accepted ht ht
  have ht' : (s.after (n + 1)).sink = t := by
    rw [after_succ, step_eq, hs]
  rw [ht, ht']

theorem machine_eq_of_snapshot (hi : s.Begins i) (hj : s.Begins j)
    (h : s.snapshot i = s.snapshot j) : (s.after i).machine = (s.after j).machine := by
  obtain ⟨hc, hm⟩ := Prod.mk.inj h
  exact (Machine.mk.injEq ..).mpr ⟨hc, hm, hi.trans hj.symm⟩

/-- A machine that is still running has been running all the time. -/
theorem working_of_begins (h : s.Begins n) : s.Working n := by
  induction n with
  | zero => exact fun k hk => (Nat.not_lt_zero k hk).elim
  | succ n ih =>
    have hst : ((s.after n).machine.step (s.after n).sink).machine.state = .running := by
      rw [← after_succ_machine]
      exact h
    have hn : (s.after n).step.2 = .ok .running := by
      change ((s.after n).machine.step (s.after n).sink).result = _
      cases hr : ((s.after n).machine.step (s.after n).sink).result with
      | error e => exact nomatch hst.symm.trans (Machine.of_error hr).1
      | ok st => rw [← Machine.state_of_result hr, hst]
    intro k hk
    rcases Nat.lt_succ_iff_lt_or_eq.mp hk with hk | rfl
    · exact ih (Machine.running_of_result hn) k hk
    · exact hn

theorem working_or_ends (s : Session σ ω) : (∀ n, s.Working n) ∨ ∃ t r, s.Ends t r := by
  by_cases h : ∀ limit, (s.run limit).2 = .abandoned
  · exact Or.inl (working_of_abandoned h)
  · obtain ⟨limit, hl⟩ := not_forall.mp h
    right
    cases ho : (s.run limit).2 with
    | stopped st => exact ⟨(s.run limit).1, .ok st, limit, Prod.ext rfl ho⟩
    | fault e => exact ⟨(s.run limit).1, .error e, limit, Prod.ext rfl ho⟩
    | abandoned => exact (hl ho).elim

theorem not_ends_of_working (h : ∀ n, s.Working n) : ¬ ∃ t r, s.Ends t r := by
  rintro ⟨t, r, he⟩
  obtain ⟨n, -, hs, hr⟩ := he.exists_working
  have hn : (s.after n).step.2 = .ok .running := h (n + 1) n (Nat.lt_succ_self n)
  rw [hs] at hn
  exact hr hn

/-- If the run stopped, it would stop after its configuration has come back, and could not. -/
theorem working_of_recurrence (hσ : Sink.NeverFails σ) (hij : i < j) (hj : s.Begins j)
    (h : (s.after i).machine = (s.after j).machine) (n : ℕ) : s.Working n := by
  rcases working_or_ends s with hw | ⟨t, r, he⟩
  · exact hw n
  · obtain ⟨k, hw, hs, hr⟩ := he.exists_working
    have hk : (s.after k).step.2 ≠ .ok .running := by rwa [hs]
    have hjk : j ≤ k := by
      by_contra hlt
      exact hk (working_of_begins hj k (Nat.not_le.mp hlt))
    exact (configuration_ne hσ hw hk hij hjk (congrArg Machine.configuration h)).elim

/-- There are more cycles in a run without end than there are configurations. -/
theorem exists_recurrence (h : ∀ n, s.Working n) :
    ∃ i j, i < j ∧ s.Begins i ∧ s.Begins j ∧ s.snapshot i = s.snapshot j := by
  have hb : ∀ n, s.Begins n := fun n =>
    Machine.running_of_result (h (n + 1) n (Nat.lt_succ_self n))
  obtain ⟨i, j, hij, hc⟩ := Finite.exists_ne_map_eq_of_infinite fun n =>
    (s.after n).machine.configuration
  have hm : (s.after i).machine = (s.after j).machine :=
    Machine.eq_of_configuration_eq hc ((hb i).trans (hb j).symm)
  have hs : s.snapshot i = s.snapshot j := by
    unfold snapshot
    rw [hm]
  rcases Nat.lt_or_gt_of_ne hij with hlt | hlt
  · exact ⟨i, j, hlt, hb i, hb j, hs⟩
  · exact ⟨j, i, hlt, hb j, hb i, hs.symm⟩

theorem machine_periodic (hσ : Sink.NeverFails σ) (hij : i < j)
    (h : (s.after i).machine = (s.after j).machine) (hn : i ≤ n) :
    (s.after (n + (j - i))).machine = (s.after n).machine := by
  obtain ⟨k, rfl⟩ := Nat.exists_eq_add_of_le hn
  have hk : i + k + (j - i) = j + k := by omega
  rw [hk, after_add, after_add]
  exact (after_agree hσ hσ h k).symm

/-- A run with a sink that takes every value. The first part is the law, the next two are its
directions with what they say more, and the last one is what `printed` tells of the sink. -/
theorem stops_iff_snapshots_distinct (hσ : Sink.NeverFails σ) (s : Session σ ω) :
    ((∃ t r, s.Ends t r) ↔
      ∀ i j, i < j → s.Begins i → s.Begins j → s.snapshot i ≠ s.snapshot j) ∧
    (∀ i j, i < j → s.Begins i → s.Begins j → s.snapshot i = s.snapshot j →
      (¬ ∃ t r, s.Ends t r) ∧ (∀ n, (s.after n).step.2 = .ok .running) ∧
        ∀ n, i ≤ n → s.snapshot (n + (j - i)) = s.snapshot n ∧
          s.printed (n + (j - i)) = s.printed n) ∧
    ((¬ ∃ t r, s.Ends t r) →
      ∃ i j, i < j ∧ s.Begins i ∧ s.Begins j ∧ s.snapshot i = s.snapshot j) ∧
    ∀ n, Sink.emitAll (s.printed n) (s.after n).sink = .ok () (s.after (n + 1)).sink := by
  have hforever : ∀ i j, i < j → s.Begins i → s.Begins j → s.snapshot i = s.snapshot j →
      ∀ n, s.Working n := fun i j hij hi hj h =>
    working_of_recurrence hσ hij hj (machine_eq_of_snapshot hi hj h)
  have hback : (¬ ∃ t r, s.Ends t r) →
      ∃ i j, i < j ∧ s.Begins i ∧ s.Begins j ∧ s.snapshot i = s.snapshot j := fun hn =>
    exists_recurrence ((working_or_ends s).resolve_right hn)
  refine ⟨⟨fun he i j hij hi hj h => ?_, fun hd => ?_⟩, fun i j hij hi hj h => ?_, hback,
    emitAll_printed hσ s⟩
  · exact not_ends_of_working (hforever i j hij hi hj h) he
  · by_contra hn
    obtain ⟨i, j, hij, hi, hj, h⟩ := hback hn
    exact hd i j hij hi hj h
  · have hw := hforever i j hij hi hj h
    refine ⟨not_ends_of_working hw, fun n => hw (n + 1) n (Nat.lt_succ_self n), fun n hn => ?_⟩
    have hm := machine_periodic hσ hij (machine_eq_of_snapshot hi hj h) hn
    unfold snapshot printed
    rw [hm]
    exact ⟨rfl, rfl⟩

/-- A program that prints `R0` and jumps back to its start. -/
def ticking : Session Collector Unit :=
  ⟨⟨.initial, .ofImage [0x47, 0, 0x54, 0], .running⟩, .empty, ()⟩

theorem stops_iff_snapshots_distinct_ticking : Sink.NeverFails Collector ∧
    ticking.snapshot 0 = ticking.snapshot 2 ∧ (¬ ∃ t r, ticking.Ends t r) ∧
      ∀ n, ticking.printed (n + 2) = ticking.printed n := by
  have hb : ticking.Begins 0 ∧ ticking.Begins 2 := by
    unfold Begins
    decide +kernel
  have hok : ∀ k < 2, (ticking.after k).machine.state = .running ∧
      ((ticking.after k).machine.step (ticking.after k).sink).result.isOk := by decide +kernel
  have hkept : ∀ k < 2, (ticking.after k).machine.store? = none := by decide +kernel
  have hmem : ∀ k < 2, (ticking.after (k + 1)).machine.memory =
      (ticking.after k).machine.memory := by
    intro k hk
    rw [after_succ_machine, (Machine.completes_of_isOk (hok k hk).1 (hok k hk).2).memory_eq,
      hkept k hk]
    rfl
  have hcpu : (ticking.after 0).machine.cpu = (ticking.after 2).machine.cpu := by decide +kernel
  have hs : ticking.snapshot 0 = ticking.snapshot 2 := by
    unfold snapshot
    rw [hcpu, hmem 1 (by decide), hmem 0 (by decide)]
  obtain ⟨-, hloop, -, -⟩ := stops_iff_snapshots_distinct Collector.neverFails ticking
  obtain ⟨hn, -, hp⟩ := hloop 0 2 (by decide) hb.1 hb.2 hs
  exact ⟨Collector.neverFails, hs, hn, fun n => (hp n (Nat.zero_le n)).2⟩

end LS8.Session
