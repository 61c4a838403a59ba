import LS8.Proofs.Cycle

/-! Steps and their sinks. Main statements: a step does the same with every sink that takes the
value it prints, and a sink that refuses it leaves the machine as it was, but faulted. -/
namespace LS8

namespace Sink

variable {σ : Type} [Sink σ]

theorem emitAll_cons (v : UInt8) (vs : List UInt8) (s : σ) : emitAll (v :: vs) s =
    match emit v s with
    | .ok _ t => emitAll vs t
    | .error e t => .error e t := by
  change EStateM.bind (emit v) (fun _ => emitAll vs) s = _
  unfold EStateM.bind
  cases emit v s <;> rfl

/-- A sink that takes every value. -/
def NeverFails (σ : Type) [Sink σ] : Prop := ∀ (v : UInt8) (s : σ), ∃ t, emit v s = .ok () t

theorem NeverFails.emitAll (h : NeverFails σ) (vs : List UInt8) (s : σ) :
    ∃ t, Sink.emitAll vs s = .ok () t := by
  induction vs generalizing s with
  | nil => exact ⟨s, rfl⟩
  | cons v vs ih =>
    obtain ⟨t, ht⟩ := h v s
    rw [emitAll_cons, ht]
    exact ih t

theorem emitAll_append {vs : List UInt8} {s t : σ} (h : emitAll vs s = .ok () t)
    (ws : List UInt8) : emitAll (vs ++ ws) s = emitAll ws t := by
  induction vs generalizing s with
  | nil =>
    obtain rfl : s = t := by simpa using h
    rfl
  | cons v vs ih =>
    rw [List.cons_append, emitAll_cons]
    rw [emitAll_cons] at h
    cases he : emit v s with
    | ok u s' =>
      rw [he] at h
      exact ih h
    | error e s' =>
      rw [he] at h
      exact nomatch h

end Sink

theorem Collector.neverFails : Sink.NeverFails Collector := fun _ _ => ⟨_, rfl⟩

theorem Collector.emitAll_eq (vs : List UInt8) (c : Collector) :
    Sink.emitAll vs c = .ok () ⟨c.values ++ vs.toArray⟩ := by
  induction vs generalizing c with
  | nil => simp
  | cons v vs ih =>
    rw [Sink.emitAll_cons]
    change Sink.emitAll vs (⟨c.values.push v⟩ : Collector) = _
    rw [ih]
    simp

namespace Machine

variable {σ τ : Type} [Sink σ] [Sink τ] {m : Machine}

/-- The values that the next step hands to its sink. -/
def offered (m : Machine) : List UInt8 :=
  match m.instruction with
  | .ok i =>
    if m.state = .running ∧ i.fault? m.cpu m.memory = none then i.printed m.cpu else []
  | .error _ => []

theorem offered_of_instruction {i : Instruction} (h : m.state = .running)
    (hi : m.instruction = .ok i) (hk : i.fault? m.cpu m.memory = none) :
    m.offered = i.printed m.cpu := by
  simp only [offered, hi, h, hk, and_self, if_true]

/-- Only a `PRN` that passes its check has something to offer. -/
theorem of_offered_ne_nil (h : m.offered ≠ []) : ∃ i, m.state = .running ∧
    m.instruction = .ok i ∧ i.opcode = .prn ∧ i.fault? m.cpu m.memory = none ∧
      m.offered = [m.cpu.registers.value i.a] := by
  unfold offered Instruction.printed at h
  cases hi : m.instruction with
  | error e => simp [hi] at h
  | ok i =>
    simp only [hi] at h
    split_ifs at h with hk hop
    · refine ⟨i, hk.1, rfl, hop, hk.2, ?_⟩
      rw [offered_of_instruction hk.1 hi hk.2, Instruction.printed, if_pos hop]
    · exact (h rfl).elim
    · exact (h rfl).elim

theorem cycle_of_no_instruction {e : Error} (hi : m.instruction = .error e) :
    ∃ events, ∀ {σ : Type} [Sink σ] (sink : σ),
      m.cycle sink = m.fault m.cpu.pc sink events e := by
  unfold instruction at hi
  cases hf : m.fetch with
  | error e' =>
    rw [hf] at hi
    obtain rfl : e' = e := Except.error.inj hi
    exact ⟨[], fun sink => by simp only [cycle, hf]⟩
  | ok bytes =>
    rw [hf] at hi
    change Instruction.decode bytes = .error e at hi
    exact ⟨[.fetched m.cpu bytes], fun sink => by simp only [cycle, hf, hi]⟩

/-- What a step does, apart from what its sink becomes, is the same for all sinks that take what it
offers. -/
theorem step_of_accepted {sink s : σ} {other t : τ} (hs : Sink.emitAll m.offered sink = .ok () s)
    (ht : Sink.emitAll m.offered other = .ok () t) :
    m.step sink = ⟨(m.step other).machine, s, (m.step other).events, (m.step other).result⟩ := by
  by_cases hr : m.state = .running
  · cases hi : m.instruction with
    | error e =>
      obtain ⟨events, hc⟩ := cycle_of_no_instruction hi
      obtain rfl : sink = s := by simpa [offered, hi] using hs
      simp only [step_of_running hr, hc]
      rfl
    | ok i =>
      cases hk : i.fault? m.cpu m.memory with
      | some e =>
        obtain rfl : sink = s := by simpa [offered, hi, hk] using hs
        simp only [step_of_running hr, cycle_of_fault hi hk]
        rfl
      | none =>
        rw [offered_of_instruction hr hi hk] at hs ht
        simp only [step_of_running hr, cycle_of_emit hi hk hs, cycle_of_emit hi hk ht]
  · have hn : m.offered = [] := by
      unfold offered
      cases m.instruction <;> simp [hr]
    obtain rfl : sink = s := by simpa [hn] using hs
    simp only [step_of_stopped hr]

/-- A refused value stops the machine where it was. -/
theorem step_of_refused {sink s : σ} {cause : String}
    (h : Sink.emitAll m.offered sink = .error cause s) :
    (m.step sink).machine = { m with state := .faulted } ∧ (m.step sink).sink = s ∧
      (m.step sink).result = .error (.output cause) := by
  have ho : m.offered ≠ [] := by
    intro ho
    rw [ho] at h
    exact nomatch h
  obtain ⟨i, hr, hi, -, hk, -⟩ := of_offered_ne_nil ho
  rw [offered_of_instruction hr hi hk] at h
  rw [step_of_running hr, cycle_of_refusal hi hk h]
  exact ⟨rfl, rfl, rfl⟩

end Machine

end LS8
