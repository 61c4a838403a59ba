import LS8.Proofs.Layout
import LS8.Proofs.Run
import Mathlib.Order.Basic

/-! Calls of a machine. Main statement: a run is the steps up to the first that does not leave the
machine running, wherever it is split, and a machine that has stopped stays as it is. -/
namespace LS8

namespace Machine

variable {σ : Type} [Sink σ] {m : Machine} {sink : σ} {i : Instruction}

theorem step_of_halt (h : m.state = .running) (hi : m.instruction = .ok i)
    (hop : i.opcode = .hlt) (sink : σ) :
    m.step sink = ⟨{ m with state := .halted }, sink, m.begun i ++ m.ended i, .ok .halted⟩ := by
  obtain ⟨op, a, b⟩ := i
  obtain rfl : op = .hlt := hop
  exact step_of_silent h hi rfl Opcode.noConfusion sink

/-- A step that fails has not come to `HLT`, which checks nothing and prints nothing. -/
theorem of_error {e : Error} (h : (m.step sink).result = .error e) :
    (m.step sink).machine.state = .faulted ∧ ∀ i, m.instruction = .ok i → i.opcode ≠ .hlt := by
  have hr : m.state = .running := by
    by_contra hn
    rw [step_of_stopped hn] at h
    exact nomatch h
  constructor
  · rw [step_of_running hr] at h ⊢
    cases m.course sink with
    | unfetched hp hc => rw [hc]; rfl
    | undecoded e hp hd hc => rw [hc]; rfl
    | failed i e hi hk hc => rw [hc]; rfl
    | refused i cause s hi hk he hc => rw [hc]; rfl
    | completed i s hi hk he hc => rw [hc] at h; exact nomatch h
  · intro i hi hop
    rw [step_of_halt hr hi hop] at h
    exact nomatch h

/-- A step that ends a run halts the machine at `HLT`, which leaves everything else as it is, or
fails. -/
theorem halts_or_fails (h : m.state = .running) (hs : (m.step sink).result ≠ .ok .running) :
    ((∃ i, m.instruction = .ok i ∧ i.opcode = .hlt) ∧ (m.step sink).result = .ok .halted ∧
        (m.step sink).machine = { m with state := .halted }) ∨
      ((∀ i, m.instruction = .ok i → i.opcode ≠ .hlt) ∧ (m.step sink).machine.state = .faulted ∧
        ∃ e, (m.step sink).result = .error e) := by
  cases hr : (m.step sink).result with
  | error e =>
    obtain ⟨hst, hn⟩ := of_error hr
    exact Or.inr ⟨hn, hst, e, rfl⟩
  | ok st =>
    obtain ⟨i, s, hi, -, -, hm⟩ := step_of_ok h hr
    have hop : i.opcode = .hlt := by
      by_contra hop
      apply hs
      rw [hm, after_state, if_neg hop, h]
    have hh := step_of_halt h hi hop sink
    rw [hh] at hr ⊢
    exact Or.inl ⟨⟨i, hi, hop⟩, hr.symm, rfl⟩

theorem state_of_result {st : State} (h : (m.step sink).result = .ok st) :
    (m.step sink).machine.state = st := by
  by_cases hr : m.state = .running
  · obtain ⟨i, s, -, -, -, hm⟩ := step_of_ok hr h
    rw [hm] at h ⊢
    exact Except.ok.inj h
  · rw [step_of_stopped hr] at h ⊢
    exact Except.ok.inj h

/-- The machine has executed `HLT`, at which its program counter stays. -/
structure AtHalt (m : Machine) : Prop where
  state : m.state = .halted
  hlt : ∃ i, m.instruction = .ok i ∧ i.opcode = .hlt

end Machine

namespace Session

variable {σ ω : Type} [Sink σ] [Observer ω] {s t : Session σ ω} {n : ℕ} {r : Except Error State}

/-- The first `n` steps all leave the machine running. -/
def Working (s : Session σ ω) (n : ℕ) : Prop := ∀ k < n, (s.after k).step.2 = .ok .running

/-- A run without a limit ends with the session `t` and the answer `r`. -/
def Ends (s t : Session σ ω) (r : Except Error State) : Prop :=
  ∃ limit, s.run limit = (t, .ofResult r)

theorem after_step (s : Session σ ω) (n : ℕ) : s.step.1.after n = s.after (n + 1) :=
  (Function.iterate_succ_apply _ n s).symm

theorem working_succ_iff :
    s.Working (n + 1) ↔ s.step.2 = .ok .running ∧ s.step.1.Working n := by
  constructor
  · intro h
    constructor
    · exact h 0 (Nat.succ_pos n)
    · intro k hk
      rw [after_step]
      exact h (k + 1) (Nat.succ_lt_succ hk)
  · rintro ⟨h0, h⟩ k hk
    cases k with
    | zero => exact h0
    | succ k =>
      rw [← after_step]
      exact h k (Nat.lt_of_succ_lt_succ hk)

/-- The first step that ends the run. -/
theorem exists_working_of_not_working (h : ¬ s.Working n) :
    ∃ k < n, s.Working k ∧ (s.after k).step.2 ≠ .ok .running := by
  induction n with
  | zero => exact (h fun k hk => (Nat.not_lt_zero k hk).elim).elim
  | succ n ih =>
    by_cases hn : s.Working n
    · refine ⟨n, Nat.lt_succ_self n, hn, fun hs => h fun k hk => ?_⟩
      rcases Nat.lt_succ_iff_lt_or_eq.mp hk with hk | rfl
      · exact hn k hk
      · exact hs
    · obtain ⟨k, hk, hw, hs⟩ := ih hn
      exact ⟨k, Nat.lt_succ_of_lt hk, hw, hs⟩

theorem run_of_working (h : s.Working n) (limit : ℕ) :
    run (n + limit) s = run limit (s.after n) := by
  induction n generalizing s with
  | zero => rw [Nat.zero_add, after_zero]
  | succ n ih =>
    obtain ⟨h0, h⟩ := working_succ_iff.mp h
    rw [Nat.add_right_comm, run_succ h0, ih h, after_step]

theorem canFetch_of_running (h : s.step.2 = .ok .running) : s.machine.canFetch :=
  Machine.canFetch_of_result h

/-- A run that never stops is where its limit has left it. -/
theorem run_of_forever (h : ∀ n, s.Working n) (limit : ℕ) :
    s.run limit = (s.after limit, .abandoned) := by
  have hf : (s.after limit).machine.canFetch :=
    canFetch_of_running (h (limit + 1) limit (Nat.lt_succ_self limit))
  have hr := run_of_working (h limit) 0
  rw [Nat.add_zero] at hr
  rw [hr, run, if_pos hf]

/-- A limit that allows the last step allows any higher one. -/
theorem run_of_working_of_answer (h : s.Working n) (hs : (s.after n).step = (t, r))
    (hr : r ≠ .ok .running) (limit : ℕ) : s.run (n + (limit + 1)) = (t, .ofResult r) := by
  have hn : (s.after n).step.2 ≠ .ok .running := by
    rw [hs]
    exact hr
  rw [run_of_working h, run_of_answer hn, hs]

theorem ofResult_ne_abandoned (r : Except Error State) : Outcome.ofResult r ≠ .abandoned := by
  cases r <;> exact Outcome.noConfusion

/-- Only a run that never stops is abandoned whatever its limit. -/
theorem working_of_abandoned (h : ∀ limit, (s.run limit).2 = .abandoned) (n : ℕ) :
    s.Working n := by
  induction n with
  | zero => exact fun k hk => (Nat.not_lt_zero k hk).elim
  | succ n ih =>
    have hn : (s.after n).step.2 = .ok .running := by
      by_contra hs
      have hr := run_of_working_of_answer ih rfl hs 0
      have ha := h (n + (0 + 1))
      rw [hr] at ha
      exact ofResult_ne_abandoned _ ha
    intro k hk
    rcases Nat.lt_succ_iff_lt_or_eq.mp hk with hk | rfl
    · exact ih k hk
    · exact hn

theorem ofResult_injective : Function.Injective Outcome.ofResult := by
  intro a b h
  cases a <;> cases b <;> simp_all [Outcome.ofResult]

/-- The induction is on the limit of the run: as long as the machine is running, a limit lower by one
is left for the session after the step. -/
theorem Ends.exists_working (h : s.Ends t r) :
    ∃ n, s.Working n ∧ (s.after n).step = (t, r) ∧ r ≠ .ok .running := by
  have hstop : ∀ {s : Session σ ω}, s.step.2 ≠ .ok .running →
      (s.step.1, Outcome.ofResult s.step.2) = (t, .ofResult r) →
      ∃ n, s.Working n ∧ (s.after n).step = (t, r) ∧ r ≠ .ok .running := by
    intro s hs he
    have ht : s.step.1 = t := congrArg Prod.fst he
    have hr : s.step.2 = r := ofResult_injective (congrArg Prod.snd he)
    refine ⟨0, fun k hk => (Nat.not_lt_zero k hk).elim, ?_, hr ▸ hs⟩
    rw [after_zero, ← ht, ← hr]
  obtain ⟨limit, h⟩ := h
  induction limit generalizing s with
  | zero =>
    rw [run] at h
    split_ifs at h with hf
    · exact (ofResult_ne_abandoned r (congrArg Prod.snd h).symm).elim
    · exact hstop (fun hs => hf (canFetch_of_running hs)) h
  | succ limit ih =>
    by_cases hs : s.step.2 = .ok .running
    · rw [run_succ hs] at h
      obtain ⟨n, hw, hn, hr⟩ := ih h
      refine ⟨n + 1, working_succ_iff.mpr ⟨hs, hw⟩, ?_, hr⟩
      rw [← after_step, hn]
    · rw [run_of_answer hs] at h
      exact hstop hs h

theorem ends_iff :
    s.Ends t r ↔ ∃ n, s.Working n ∧ (s.after n).step = (t, r) ∧ r ≠ .ok .running := by
  constructor
  · exact Ends.exists_working
  · rintro ⟨n, hw, hs, hr⟩
    exact ⟨n + 1, run_of_working_of_answer hw hs hr 0⟩

/-- A run may be split anywhere before its last step. -/
theorem ends_after_iff (h : s.Working n) : (s.after n).Ends t r ↔ s.Ends t r := by
  constructor
  · rintro ⟨limit, hl⟩
    refine ⟨n + limit, ?_⟩
    rw [run_of_working h, hl]
  · intro he
    obtain ⟨k, hw, hs, hr⟩ := he.exists_working
    refine ⟨k + 1, ?_⟩
    have hk : s.run (n + (k + 1)) = (t, .ofResult r) := by
      have hl := run_of_working_of_answer hw hs hr n
      rwa [Nat.add_left_comm] at hl
    rw [← hk, run_of_working h]

theorem step_of_stopped (h : s.machine.state ≠ .running) :
    s.step = (s, .ok s.machine.state) := by
  rw [step_eq, Machine.step_of_stopped h]
  rfl

theorem after_succ_of_stopped (h : (s.after n).machine.state ≠ .running) :
    s.after (n + 1) = s.after n := by
  rw [after_succ, step_of_stopped h]

/-- The cycles of a run: the first ones complete, and if it is not over with these, the next one
fails or the machine has stopped. -/
theorem exists_cycles (s : Session σ ω) (n : ℕ) :
    ∃ f, (∀ k < f, (s.after k).machine.state = .running ∧ ∃ st, (s.after k).step.2 = .ok st) ∧
      (f = n ∨
        f < n ∧ (s.after f).machine.state ≠ .running ∧ s.after n = s.after f ∨
        f < n ∧ (s.after f).machine.state = .running ∧ (∃ e, (s.after f).step.2 = .error e) ∧
          s.after n = s.after (f + 1)) := by
  induction n with
  | zero => exact ⟨0, fun k hk => (Nat.not_lt_zero k hk).elim, Or.inl rfl⟩
  | succ n ih =>
    obtain ⟨f, hf, rfl | ⟨hlt, hst, hn⟩ | ⟨hlt, hr, ⟨e, he⟩, hn⟩⟩ := ih
    · -- all cycles so far have completed, and the next one is of any of the three kinds
      by_cases hr : (s.after f).machine.state = .running
      · cases hs : (s.after f).step.2 with
        | error e =>
          exact ⟨f, hf, Or.inr (Or.inr ⟨Nat.lt_succ_self f, hr, ⟨e, hs⟩, rfl⟩)⟩
        | ok st =>
          refine ⟨f + 1, fun k hk => ?_, Or.inl rfl⟩
          rcases Nat.lt_succ_iff_lt_or_eq.mp hk with hk | rfl
          · exact hf k hk
          · exact ⟨hr, st, hs⟩
      · exact ⟨f, hf, Or.inr (Or.inl ⟨Nat.lt_succ_self f, hr, after_succ_of_stopped hr⟩)⟩
    · have hs : (s.after n).machine.state ≠ .running := by rwa [hn]
      refine ⟨f, hf, Or.inr (Or.inl ⟨Nat.lt_succ_of_lt hlt, hst, ?_⟩)⟩
      rw [after_succ_of_stopped hs, hn]
    · have hs : (s.after n).machine.state ≠ .running := by
        have hm : (s.after (f + 1)).machine.state = .faulted := by
          rw [after_succ_machine]
          exact (Machine.of_error he).1
        rw [hn, hm]
        exact State.noConfusion
      refine ⟨f, hf, Or.inr (Or.inr ⟨Nat.lt_succ_of_lt hlt, hr, ⟨e, he⟩, ?_⟩)⟩
      rw [after_succ_of_stopped hs, hn]

/-- What can be asked of a machine: a step, or a run of at most `limit` cycles. -/
inductive Request where
  | step
  | run (limit : ℕ)

def respond (s : Session σ ω) : Request → Session σ ω × Outcome
  | .step => (s.step.1, .ofResult s.step.2)
  | .run limit => s.run limit

/-- What each of the requests leaves and answers, in order. -/
def responses (s : Session σ ω) : List Request → List (Session σ ω × Outcome)
  | [] => []
  | q :: qs => s.respond q :: (s.respond q).1.responses qs

theorem respond_of_stopped (h : s.machine.state ≠ .running) (q : Request) :
    s.respond q = (s, .stopped s.machine.state) := by
  have hs := step_of_stopped h
  have hn : s.step.2 ≠ .ok .running := by
    rw [hs]
    exact fun he => h (Except.ok.inj he)
  cases q with
  | step =>
    rw [respond, hs]
    rfl
  | run limit =>
    cases limit with
    | zero =>
      have hf : ¬ s.machine.canFetch := by
        simp [Machine.canFetch, h]
      rw [respond, run, if_neg hf, hs]
      rfl
    | succ limit =>
      rw [respond, run_of_answer hn, hs]
      rfl

theorem responses_of_stopped (h : s.machine.state ≠ .running) (qs : List Request) :
    s.responses qs = qs.map fun _ => (s, .stopped s.machine.state) := by
  induction qs with
  | nil => rfl
  | cons q qs ih =>
    have hq := respond_of_stopped h q
    rw [responses, hq, ih]
    rfl

/-- Sets the machine back to work and runs it. -/
def rerun (s : Session σ ω) (limit : ℕ) : Session σ ω × Outcome :=
  run limit { s with machine.state := .running }

theorem rerun_of_atHalt (h : s.machine.AtHalt) (limit : ℕ) :
    ∃ u, s.rerun (limit + 1) = (u, .stopped .halted) ∧ u.machine = s.machine ∧
      u.sink = s.sink := by
  obtain ⟨hst, i, hi, hop⟩ := h
  let s' : Session σ ω := { s with machine.state := .running }
  have hs := Machine.step_of_halt (m := s'.machine) rfl hi hop s.sink
  have hn : s'.step.2 ≠ .ok .running := by
    rw [step_eq, hs]
    exact fun he => nomatch he
  have hm : (s'.machine.step s'.sink).machine = s.machine := by
    rw [hs, ← hst]
  refine ⟨s'.step.1, ?_, hm, ?_⟩
  · rw [rerun, run_of_answer hn, step_eq, hs]
    rfl
  · rw [step_eq, hs]

/-- A step from a running machine that halts has executed `HLT`. -/
theorem exists_hlt (h : s.machine.state = .running)
    (hs : Outcome.ofResult s.step.2 = .stopped .halted) :
    ∃ i, s.machine.instruction = .ok i ∧ i.opcode = .hlt := by
  have hr : s.step.2 = .ok .halted := ofResult_injective hs
  have hn : s.step.2 ≠ .ok .running := by
    rw [hr]
    exact fun he => nomatch he
  rcases Machine.halts_or_fails h hn with ⟨hi, -, -⟩ | ⟨-, -, e, he⟩
  · exact hi
  · exact nomatch hr.symm.trans he

/-- Of the machines that are said to have halted, only those at `HLT` halt again within a cycle. -/
theorem rerun_eq_halted_iff (h : s.machine.state = .halted) :
    (s.rerun 1).2 = .stopped .halted ↔ s.machine.AtHalt := by
  constructor
  · intro hr
    let s' : Session σ ω := { s with machine.state := .running }
    change (s'.run 1).2 = _ at hr
    by_cases hs : s'.step.2 = .ok .running
    · -- no second cycle is allowed, and the end of a run without one is no `HLT`
      have hst : s'.step.1.machine.state = .running := Machine.state_of_result hs
      rw [run_succ hs, run] at hr
      split_ifs at hr with hf
      obtain ⟨i, hi, -⟩ := exists_hlt hst hr
      exact (hf (Machine.canFetch_of_instruction hst hi)).elim
    · have hn : (s'.run 1).2 = .ofResult s'.step.2 := congrArg Prod.snd (run_of_answer hs 0)
      exact ⟨h, exists_hlt (s := s') rfl (hn.symm.trans hr)⟩
  · intro hh
    obtain ⟨u, hu, -, -⟩ := rerun_of_atHalt hh 0
    rw [hu]

theorem iterate_rerun_of_atHalt (h : s.machine.AtHalt) (k : ℕ) :
    ((fun u => (u.rerun 1).1)^[k] s).machine = s.machine ∧
      ((fun u => (u.rerun 1).1)^[k] s).sink = s.sink := by
  induction k with
  | zero => exact ⟨rfl, rfl⟩
  | succ k ih =>
    rw [Function.iterate_succ_apply']
    obtain ⟨u, hu, hm, hk⟩ := rerun_of_atHalt (ih.1.symm ▸ h) 0
    rw [hu]
    exact ⟨hm.trans ih.1, hk.trans ih.2⟩

theorem running_after (h : s.machine.state = .running) (hw : s.Working n) :
    (s.after n).machine.state = .running := by
  cases n with
  | zero => exact h
  | succ n =>
    rw [after_succ_machine]
    exact Machine.state_of_result (hw n (Nat.lt_succ_self n))

/-- How a run from a running machine ends: with `HLT` or with an error. -/
theorem Ends.last (h : s.Ends t r) (hr : s.machine.state = .running) :
    ∃ n, s.Working n ∧ t = s.after (n + 1) ∧
      ((∃ i, (s.after n).machine.instruction = .ok i ∧ i.opcode = .hlt) ∧ r = .ok .halted ∧
          t.machine = { (s.after n).machine with state := .halted } ∨
        (∀ i, (s.after n).machine.instruction = .ok i → i.opcode ≠ .hlt) ∧
          t.machine.state = .faulted ∧ ∃ e, r = .error e) := by
  obtain ⟨n, hw, hs, hn⟩ := h.exists_working
  have ht : t = s.after (n + 1) := by
    rw [after_succ, hs]
  have hres : ((s.after n).machine.step (s.after n).sink).result = r := congrArg Prod.snd hs
  refine ⟨n, hw, ht, ?_⟩
  rw [ht, after_succ_machine, ← hres]
  exact Machine.halts_or_fails (running_after hr hw) (hres ▸ hn)

theorem Ends.atHalt (h : s.Ends t (.ok .halted)) (hr : s.machine.state = .running) :
    t.machine.AtHalt := by
  obtain ⟨n, -, -, ⟨hi, -, hm⟩ | ⟨-, -, e, hk⟩⟩ := h.last hr
  · rw [hm]
    exact ⟨rfl, hi⟩
  · exact nomatch hk

/-- A run is its steps, it ends with `HLT` or with an error, what has stopped stays as it is, and a
machine that has come to `HLT` halts again at once, as no other one does. Nothing that an observer
sees is told differently. -/
theorem run_and_stop (s : Session σ ω) :
    (∀ t r, s.Ends t r ↔
      ∃ n, s.Working n ∧ (s.after n).step = (t, r) ∧ r ≠ .ok .running) ∧
    ((∀ n, s.Working n) ↔ ∀ limit, (s.run limit).2 = .abandoned) ∧
    (∀ n, s.Working n → (∀ limit, s.run (n + limit) = (s.after n).run limit) ∧
      ∀ t r, (s.after n).Ends t r ↔ s.Ends t r) ∧
    (s.machine.state = .running → ∀ t r, s.Ends t r →
      (r = .ok .halted ∧ t.machine.state = .halted ∨
        ∃ e, r = .error e ∧ t.machine.state = .faulted) ∧
      ∃ n, s.Working n ∧ t = s.after (n + 1) ∧
        (r = .ok .halted ↔ ∃ i, (s.after n).machine.instruction = .ok i ∧ i.opcode = .hlt)) ∧
    (s.machine.state ≠ .running → ∀ qs, s.responses qs =
      qs.map fun _ => (s, .stopped s.machine.state)) ∧
    (s.machine.state = .running → ∀ t, s.Ends t (.ok .halted) → t.machine.AtHalt) ∧
    (s.machine.AtHalt → ∀ k limit,
      ∃ u, ((fun u => (u.rerun 1).1)^[k] s).rerun (limit + 1) = (u, .stopped .halted) ∧
        u.machine = s.machine ∧ u.sink = s.sink) ∧
    (s.machine.state = .halted → ((s.rerun 1).2 = .stopped .halted ↔ s.machine.AtHalt)) := by
  refine ⟨fun t r => ends_iff, ?_, fun n hw => ⟨run_of_working hw, fun t r => ends_after_iff hw⟩,
    fun hr t r he => ?_, fun hs qs => responses_of_stopped hs qs, fun hr t he => he.atHalt hr,
    fun hh k limit => ?_, rerun_eq_halted_iff⟩
  · constructor
    · intro h limit
      rw [run_of_forever h]
    · exact working_of_abandoned
  · obtain ⟨n, hw, ht, hl⟩ := he.last hr
    constructor
    · rcases hl with ⟨-, hk, hm⟩ | ⟨-, hst, e, hk⟩
      · exact Or.inl ⟨hk, by rw [hm]⟩
      · exact Or.inr ⟨e, hk, hst⟩
    · refine ⟨n, hw, ht, ?_⟩
      rcases hl with ⟨hi, hk, -⟩ | ⟨hn, -, e, hk⟩
      · exact ⟨fun _ => hi, fun _ => hk⟩
      · constructor
        · intro hh
          exact nomatch hk.symm.trans hh
        · rintro ⟨i, hi, hop⟩
          exact (hn i hi hop).elim
  · obtain ⟨hm, hsink⟩ := iterate_rerun_of_atHalt hh k
    obtain ⟨u, hu, hum, hus⟩ := rerun_of_atHalt (hm.symm ▸ hh) limit
    exact ⟨u, hu, hum.trans hm, hus.trans hsink⟩

/-- A value printed before the end. -/
def printing : Session Collector (Array Event) :=
  ⟨⟨.initial, .ofImage [0x47, 7, 0x01], .running⟩, .empty, #[]⟩

theorem run_and_stop_printing :
    printing.machine.state = .running ∧ printing.Working 1 ∧
      ∃ t, (printing.after 1).Ends t (.ok .halted) ∧ t.sink.values = #[0xf4] ∧
        t.responses [.run 3, .step] = [(t, .stopped .halted), (t, .stopped .halted)] ∧
        ∃ u, t.rerun 5 = (u, .stopped .halted) ∧ u.machine = t.machine := by
  have hw : printing.Working 1 := by
    intro k hk
    obtain rfl : k = 0 := Nat.lt_one_iff.mp hk
    decide +kernel
  let t := (printing.after 1).step.1
  have hs : (printing.after 1).step = (t, .ok .halted) := Prod.ext rfl (by decide +kernel)
  obtain ⟨hends, -, hsplit, -, -, hhalt, -⟩ := run_and_stop printing
  have he : printing.Ends t (.ok .halted) :=
    (hends t _).mpr ⟨1, hw, hs, fun h => nomatch h⟩
  have hh : t.machine.AtHalt := hhalt rfl t he
  have hn : t.machine.state ≠ .running := by
    rw [hh.state]
    exact State.noConfusion
  obtain ⟨-, -, -, -, hstop, -, hagain, -⟩ := run_and_stop t
  have hq := hstop hn [.run 3, .step]
  rw [hh.state] at hq
  obtain ⟨u, hu, hm, -⟩ := hagain hh 0 4
  exact ⟨rfl, hw, t, ((hsplit 1 hw).2 t _).mpr he, by decide +kernel, hq, u, hu, hm⟩

/-- A machine that is said to have halted although it has done nothing. -/
def idle : Session Collector (Array Event) :=
  ⟨{ Machine.initial with state := .halted }, .empty, #[]⟩

/-- Set back to work, it comes to a byte that is no instruction. -/
theorem rerun_idle :
    idle.machine.state = .halted ∧ (idle.rerun 1).2 = .fault (.unknownOpcode 0) ∧
      (idle.rerun 1).1.machine.state = .faulted ∧
      ¬ ∀ s : Session Collector (Array Event), s.machine.state = .halted → ∀ k limit,
        ∃ u, ((fun u => (u.rerun 1).1)^[k] s).rerun (limit + 1) = (u, .stopped .halted) ∧
          u.machine = s.machine := by
  have hr : (idle.rerun 1).2 = .fault (.unknownOpcode 0) := by decide +kernel
  refine ⟨rfl, hr, by decide +kernel, fun h => ?_⟩
  obtain ⟨u, hu, -⟩ := h idle rfl 0 0
  rw [Function.iterate_zero_apply] at hu
  rw [hu] at hr
  exact nomatch hr

end Session

end LS8
