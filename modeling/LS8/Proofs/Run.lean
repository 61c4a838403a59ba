import LS8.Proofs.Cycle
import LS8.Session
import Mathlib.Logic.Function.Iterate

/-! Runs: of completed steps, of steps that leave the machine running, and of the steps of a
session. -/
namespace LS8.Machine

/-- A step from `m` to `n` that executes an instruction without a fault, whatever sink it has. -/
def Completes (m n : Machine) : Prop :=
  m.state = .running ∧ ∃ (σ : Type) (_ : Sink σ) (sink : σ) (st : State),
    (m.step sink).result = .ok st ∧ (m.step sink).machine = n

theorem completes_of_isOk {σ : Type} [Sink σ] {m : Machine} {sink : σ} (h : m.state = .running)
    (hs : (m.step sink).result.isOk) : m.Completes (m.step sink).machine := by
  cases hr : (m.step sink).result with
  | error e => rw [hr] at hs; exact nomatch hs
  | ok st => exact ⟨h, σ, inferInstance, sink, st, hr, rfl⟩

theorem Completes.eq_after {m n : Machine} (h : m.Completes n) :
    ∃ i, m.instruction = .ok i ∧ i.fault? m.cpu m.memory = none ∧ n = m.after i := by
  obtain ⟨hr, σ, _, sink, st, hs, hn⟩ := h
  obtain ⟨i, s, hi, hk, _, he⟩ := step_of_ok hr hs
  rw [he] at hn
  exact ⟨i, hi, hk, hn.symm⟩

theorem canFetch_of_instruction {m : Machine} {i : Instruction} (h : m.state = .running)
    (hi : m.instruction = .ok i) : m.canFetch := by
  unfold canFetch
  rw [fetch_of_lt (instruction_eq_ok_iff.mp hi).1, h]
  rfl

theorem running_of_result {σ : Type} [Sink σ] {m : Machine} {sink : σ}
    (h : (m.step sink).result = .ok .running) : m.state = .running := by
  by_contra hn
  rw [step_of_stopped hn] at h
  exact hn (Except.ok.inj h)

theorem canFetch_of_result {σ : Type} [Sink σ] {m : Machine} {sink : σ}
    (h : (m.step sink).result = .ok .running) : m.canFetch := by
  have hr := running_of_result h
  obtain ⟨i, _, hi, _⟩ := step_of_ok hr h
  exact canFetch_of_instruction hr hi

/-- `n` steps, each of which leaves the machine running, from `m` and `sink` to `m'` and `sink'`;
`events` is what can be seen of them. -/
inductive Runs {σ : Type} [Sink σ] : ℕ → Machine → σ → List Event → Machine → σ → Prop
  | refl (m : Machine) (sink : σ) : Runs 0 m sink [] m sink
  | step {n : ℕ} {m m' : Machine} {sink sink' : σ} {events : List Event}
      (first : (m.step sink).result = .ok .running)
      (rest : Runs n (m.step sink).machine (m.step sink).sink events m' sink') :
      Runs (n + 1) m sink ((m.step sink).events ++ events) m' sink'

theorem Runs.trans {σ : Type} [Sink σ] {j k : ℕ} {m n m' : Machine} {sink s sink' : σ}
    {events others : List Event} (h : Runs j m sink events n s)
    (h' : Runs k n s others m' sink') : Runs (k + j) m sink (events ++ others) m' sink' := by
  induction h with
  | refl => exact h'
  | step first rest ih =>
    rw [List.append_assoc]
    exact .step first (ih h')

end LS8.Machine

namespace LS8.Observer

theorem watch_append {ω : Type} [Observer ω] (events later : List Event) (o : ω) :
    watch (events ++ later) o = watch later (watch events o) :=
  List.foldl_append

end LS8.Observer

namespace LS8.Session

variable {σ ω : Type} [Sink σ] [Observer ω]

/-- The session after `n` steps, some of which may find the machine stopped. -/
def after (s : Session σ ω) (n : ℕ) : Session σ ω := (fun t => t.step.1)^[n] s

@[simp] theorem after_zero (s : Session σ ω) : s.after 0 = s := rfl

theorem after_succ (s : Session σ ω) (n : ℕ) : s.after (n + 1) = (s.after n).step.1 :=
  Function.iterate_succ_apply' _ n s

theorem step_eq (s : Session σ ω) : s.step =
    (⟨(s.machine.step s.sink).machine, (s.machine.step s.sink).sink,
      Observer.watch (s.machine.step s.sink).events s.observer⟩, (s.machine.step s.sink).result) :=
  rfl

theorem after_succ_machine (s : Session σ ω) (n : ℕ) : (s.after (n + 1)).machine =
    ((s.after n).machine.step (s.after n).sink).machine := by
  rw [after_succ, step_eq]

/-- An observer has seen the events of all steps, in order of time. -/
theorem observer_after (s : Session σ ω) (n : ℕ) : (s.after n).observer = Observer.watch
    ((List.range n).flatMap fun k => ((s.after k).machine.step (s.after k).sink).events)
    s.observer := by
  induction n with
  | zero => rfl
  | succ n ih =>
    rw [after_succ, step_eq, List.range_succ, List.flatMap_append, List.flatMap_singleton,
      Observer.watch_append, ← ih]

theorem run_succ {s : Session σ ω} (h : s.step.2 = .ok .running) (limit : ℕ) :
    run (limit + 1) s = run limit s.step.1 := by
  have hs : s.step = (s.step.1, .ok .running) := by rw [← h]
  rw [run, hs]

/-- Every answer but that the machine is running is the answer of the run. -/
theorem run_of_answer {s : Session σ ω} (h : s.step.2 ≠ .ok .running) (limit : ℕ) :
    run (limit + 1) s = (s.step.1, .ofResult s.step.2) := by
  rw [run]
  split
  · next t hs =>
    rw [hs] at h
    exact (h rfl).elim
  · next t r hn hs =>
    rw [hs]

/-- A run is a number of steps. -/
theorem exists_run_eq_after (s : Session σ ω) (limit : ℕ) : ∃ n, (s.run limit).1 = s.after n := by
  induction limit generalizing s with
  | zero =>
    rw [run]
    split_ifs
    · exact ⟨0, rfl⟩
    · exact ⟨1, rfl⟩
  | succ limit ih =>
    by_cases hs : s.step.2 = .ok .running
    · obtain ⟨n, hn⟩ := ih s.step.1
      exact ⟨n + 1, by rw [run_succ hs, hn]; rfl⟩
    · exact ⟨1, by rw [run_of_answer hs]; rfl⟩

section Runs

variable {n : ℕ} {m m' : Machine} {sink sink' : σ} {events : List Event}

/-- The cycles that leave the machine running count against the limit of a run. -/
theorem run_of_runs (h : Machine.Runs n m sink events m' sink') (limit : ℕ) (o : ω) :
    run (n + limit) ⟨m, sink, o⟩ = run limit ⟨m', sink', Observer.watch events o⟩ := by
  induction h generalizing o with
  | refl => rw [Nat.zero_add]; rfl
  | step first rest ih =>
    have hs : (step ⟨_, _, o⟩).2 = .ok .running := first
    rw [Nat.add_right_comm, run_succ hs, Observer.watch, List.foldl_append]
    exact ih _

theorem run_of_stopped {st : State} (h : (m.step sink).result = .ok st) (hst : st ≠ .running)
    (limit : ℕ) (o : ω) : run (limit + 1) ⟨m, sink, o⟩ =
      (⟨(m.step sink).machine, (m.step sink).sink, Observer.watch (m.step sink).events o⟩,
        .stopped st) := by
  have hn : (step ⟨m, sink, o⟩).2 ≠ .ok .running := by
    rw [step_eq, h]
    exact fun he => hst (Except.ok.inj he)
  rw [run_of_answer hn, step_eq, h]
  rfl

/-- A run that is allowed no more cycles is abandoned if there is an instruction to fetch. -/
theorem run_of_le (h : Machine.Runs n m sink events m' sink') (hf : m'.canFetch) {limit : ℕ}
    (hl : limit ≤ n) (o : ω) : (run limit ⟨m, sink, o⟩).2 = .abandoned := by
  induction h generalizing limit o with
  | refl =>
    obtain rfl : limit = 0 := Nat.le_zero.mp hl
    simp only [run, hf, if_true]
  | step first rest ih =>
    cases limit with
    | zero => simp only [run, Machine.canFetch_of_result first, if_true]
    | succ limit =>
      have hs : (step ⟨_, _, o⟩).2 = .ok .running := first
      rw [run_succ hs]
      exact ih hf (Nat.le_of_succ_le_succ hl) _

end Runs

end LS8.Session
