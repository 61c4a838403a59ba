import LS8.Proofs.Emission
import LS8.Proofs.Run
import Mathlib.Order.Bounds.Basic

/-! Printing to a writer with an end. Main statement: a session whose values are printed is the
session that collects them, up to the first value whose line does not fit, and from then on its
writer holds what did fit. -/
namespace LS8

/-- No number is so short that it would need a leading zero. -/
theorem Text.decimal_eq (n : ℕ) : decimal n = String.ofList (Nat.toDigits 10 n) := by
  have hl : 1 - (Nat.toDigits 10 n).length = 0 := Nat.sub_eq_zero_of_le Nat.length_toDigits_pos
  rw [decimal, digits, List.leftpad, hl]
  rfl

/-- Values in decimal, each with a newline after it. -/
def decimalLines (values : List UInt8) : List Char :=
  values.flatMap fun v => Nat.toDigits 10 v.toNat ++ ['\n']

theorem decimalLines_append (vs ws : List UInt8) :
    decimalLines (vs ++ ws) = decimalLines vs ++ decimalLines ws := List.flatMap_append

/-- All characters are of ASCII, so that a character is a byte. -/
theorem isDigit_of_mem_decimalLines {vs : List UInt8} {c : Char} (h : c ∈ decimalLines vs) :
    c.isDigit ∨ c = '\n' := by
  obtain ⟨v, -, hc⟩ := List.mem_flatMap.mp h
  rcases List.mem_append.mp hc with hd | hn
  · exact Or.inl (Nat.isDigit_of_mem_toDigits (by decide) (by decide) hd)
  · exact Or.inr (List.mem_singleton.mp hn)

theorem length_decimalLines_le {vs ws : List UInt8} (h : vs <+: ws) :
    (decimalLines vs).length ≤ (decimalLines ws).length := by
  obtain ⟨us, rfl⟩ := h
  rw [decimalLines_append, List.length_append]
  exact Nat.le_add_right _ _

theorem take_decimalLines {vs ws : List UInt8} {c : ℕ} (h : vs <+: ws)
    (hc : c ≤ (decimalLines vs).length) : (decimalLines vs).take c = (decimalLines ws).take c := by
  obtain ⟨us, rfl⟩ := h
  rw [decimalLines_append, List.take_append_of_le_length hc]

namespace LinePrinter

theorem line_eq (v : UInt8) : line v = String.ofList (decimalLines [v]) := by
  unfold line decimalLines
  rw [Text.decimal_eq, List.flatMap_singleton, String.ofList_append]

/-- A printer that has written `text` and takes `room` more characters. -/
def holding (text : List Char) (room : ℕ) (refusal : String) : LinePrinter :=
  ⟨⟨String.ofList text, some room, refusal⟩⟩

theorem emit_holding (v : UInt8) (text : List Char) (room : ℕ) (refusal : String) :
    Sink.emit v (holding text room refusal) =
      if (decimalLines [v]).length ≤ room then
        .ok () (holding (text ++ decimalLines [v]) (room - (decimalLines [v]).length) refusal)
      else .error refusal (holding (text ++ (decimalLines [v]).take room) 0 refusal) := by
  unfold Sink.emit instSink Writer.write holding
  simp only [line_eq, String.length_ofList, String.toList_ofList, ← String.ofList_append]
  split_ifs <;> rfl

/-- What fits is a prefix of all lines, so that a refusal may come inside a line. -/
theorem emitAll_holding (vs : List UInt8) (text : List Char) (room : ℕ) (refusal : String) :
    Sink.emitAll vs (holding text room refusal) =
      if (decimalLines vs).length ≤ room then
        .ok () (holding (text ++ decimalLines vs) (room - (decimalLines vs).length) refusal)
      else .error refusal (holding (text ++ (decimalLines vs).take room) 0 refusal) := by
  induction vs generalizing text room with
  | nil => simp [decimalLines]
  | cons v vs ih =>
    have hc : decimalLines (v :: vs) = decimalLines [v] ++ decimalLines vs :=
      decimalLines_append [v] vs
    rw [Sink.emitAll_cons, emit_holding, hc, List.length_append, List.take_append]
    by_cases hv : (decimalLines [v]).length ≤ room
    · rw [if_pos hv]
      simp only [ih, Nat.le_sub_iff_add_le hv, Nat.sub_sub, Nat.add_comm, List.append_assoc,
        List.take_of_length_le hv]
    · have hn : ¬ (decimalLines [v]).length + (decimalLines vs).length ≤ room := by omega
      have hz : room - (decimalLines [v]).length = 0 := by omega
      simp only [if_neg hv, if_neg hn, hz, List.take_zero, List.append_nil]

/-- A printer that takes no more keeps what it has, whatever machine prints to it. -/
theorem step_of_full (m : Machine) (text : List Char) (refusal : String) :
    (m.step (holding text 0 refusal)).sink = holding text 0 refusal := by
  have he := emitAll_holding m.offered text 0 refusal
  by_cases hl : (decimalLines m.offered).length ≤ 0
  · rw [if_pos hl, List.eq_nil_of_length_eq_zero (Nat.le_zero.mp hl), List.append_nil] at he
    rw [Machine.step_of_accepted he (Collector.emitAll_eq m.offered .empty)]
    rfl
  · rw [if_neg hl, List.take_zero, List.append_nil] at he
    exact (Machine.step_of_refused he).2.1

end LinePrinter

namespace Session

variable {ω ω' : Type} [Observer ω] [Observer ω']

/-- The values that a session has emitted. -/
def collected (a : Session Collector ω) : List UInt8 := a.sink.values.toList

theorem step_collector (a : Session Collector ω) :
    a.step.1.collected = a.collected ++ a.machine.offered := by
  have ha := Collector.emitAll_eq a.machine.offered a.sink
  unfold collected
  rw [step_eq, Machine.step_of_accepted ha ha]
  simp

/-- A session that prints has come as far as one that collects. -/
structure Prints (a : Session Collector ω) (capacity : ℕ) (refusal : String)
    (b : Session LinePrinter ω') : Prop where
  machine : b.machine = a.machine
  fits : (decimalLines a.collected).length ≤ capacity
  sink : b.sink = .holding (decimalLines a.collected)
    (capacity - (decimalLines a.collected).length) refusal

section Prints

variable {a : Session Collector ω} {b : Session LinePrinter ω'} {c : ℕ} {refusal : String}

omit [Observer ω'] in
theorem Prints.emitAll (h : Prints a c refusal b) :
    Sink.emitAll b.machine.offered b.sink =
      if (decimalLines a.step.1.collected).length ≤ c then
        .ok () (.holding (decimalLines a.step.1.collected)
          (c - (decimalLines a.step.1.collected).length) refusal)
      else .error refusal (.holding ((decimalLines a.step.1.collected).take c) 0 refusal) := by
  rw [h.sink, h.machine, LinePrinter.emitAll_holding, step_collector, decimalLines_append,
    List.length_append, List.take_append, List.take_of_length_le h.fits, ← Nat.sub_sub]
  simp only [Nat.le_sub_iff_add_le' h.fits]

theorem Prints.step (h : Prints a c refusal b)
    (hf : (decimalLines a.step.1.collected).length ≤ c) :
    Prints a.step.1 c refusal b.step.1 ∧ b.step.2 = a.step.2 := by
  have hb := h.emitAll
  rw [if_pos hf] at hb
  have ha := Collector.emitAll_eq b.machine.offered a.sink
  have hs := Machine.step_of_accepted hb ha
  refine ⟨⟨?_, hf, ?_⟩, ?_⟩
  · rw [step_eq, step_eq, hs, h.machine]
  · rw [step_eq, hs]
  · rw [step_eq, step_eq, hs, h.machine]

/-- The step whose line does not fit. -/
theorem Prints.refused (h : Prints a c refusal b)
    (hf : c < (decimalLines a.step.1.collected).length) :
    b.step.2 = .error (.output refusal) ∧
      b.step.1.machine = { a.machine with state := .faulted } ∧
      b.step.1.sink = .holding ((decimalLines a.step.1.collected).take c) 0 refusal := by
  have hb := h.emitAll
  rw [if_neg (Nat.not_le.mpr hf)] at hb
  obtain ⟨hm, hs, hr⟩ := Machine.step_of_refused hb
  rw [step_eq]
  exact ⟨hr, h.machine ▸ hm, hs⟩

end Prints

/-- The values of a session are never taken back. -/
theorem collected_mono (a : Session Collector ω) {k n : ℕ} (h : k ≤ n) :
    (a.after k).collected <+: (a.after n).collected := by
  induction n, h using Nat.le_induction with
  | base => exact List.prefix_rfl
  | succ n _ ih =>
    rw [after_succ, step_collector]
    exact ih.trans (List.prefix_append _ _)

theorem prints_after {a : Session Collector ω} {b : Session LinePrinter ω'} {c : ℕ}
    {refusal : String} (h : Prints a c refusal b) {n : ℕ}
    (hf : (decimalLines (a.after n).collected).length ≤ c) :
    Prints (a.after n) c refusal (b.after n) := by
  induction n with
  | zero => exact h
  | succ n ih =>
    have hn := (length_decimalLines_le (a.collected_mono (Nat.le_succ n))).trans hf
    rw [after_succ] at hf
    rw [after_succ, after_succ]
    exact ((ih hn).step hf).1

omit [Observer ω] [Observer ω'] in
theorem prints_start (m : Machine) (c : ℕ) (refusal : String) (o : ω) (o' : ω') :
    Prints ⟨m, Collector.empty, o⟩ c refusal ⟨m, ⟨Writer.bounded c refusal⟩, o'⟩ :=
  ⟨rfl, Nat.zero_le c, rfl⟩

/-- As long as the lines fit, neither the machine nor the answers tell the sinks apart. -/
theorem Prints.agree {a : Session Collector ω} {b : Session LinePrinter ω'} {c : ℕ}
    {refusal : String} (h : Prints a c refusal b) {n : ℕ}
    (hf : (decimalLines (a.after n).collected).length ≤ c) :
    (∀ i ≤ n, (b.after i).machine = (a.after i).machine) ∧
      ∀ i < n, (b.after i).step.2 = (a.after i).step.2 := by
  have hle : ∀ i ≤ n, (decimalLines (a.after i).collected).length ≤ c := fun i hi =>
    (length_decimalLines_le (a.collected_mono hi)).trans hf
  refine ⟨fun i hi => (prints_after h (hle i hi)).machine, fun i hi => ?_⟩
  have hs := hle (i + 1) hi
  rw [after_succ] at hs
  exact ((prints_after h (hle i hi.le)).step hs).2

/-- A step after which the lines have become too long has emitted the first value too many. -/
theorem isLeast_of_exceeds {a : Session Collector ω} {c k n : ℕ} (hk : k < n)
    (hc : (decimalLines (a.after k).collected).length ≤ c)
    (hx : c < (decimalLines (a.after (k + 1)).collected).length) :
    let vs := (a.after n).collected
    let j := (a.after (k + 1)).collected.length
    IsLeast {i | c < (decimalLines (vs.take i)).length} j ∧
      (a.after k).collected = vs.take (j - 1) ∧ (a.after (k + 1)).collected = vs.take j ∧
      ∃ i, (a.after k).machine.instruction = .ok i ∧ i.opcode = .prn := by
  intro vs j
  have hs : (a.after (k + 1)).collected = (a.after k).collected ++ (a.after k).machine.offered := by
    rw [after_succ, step_collector]
  have ho : (a.after k).machine.offered ≠ [] := by
    intro ho
    rw [hs, ho, List.append_nil] at hx
    exact Nat.not_lt.mpr hc hx
  obtain ⟨i, -, hi, hop, -, hv⟩ := Machine.of_offered_ne_nil ho
  have hj : j = (a.after k).collected.length + 1 := by
    change (a.after (k + 1)).collected.length = _
    rw [hs, hv, List.length_append]
    rfl
  have hkn : (a.after k).collected = vs.take (j - 1) := by
    rw [hj]
    exact List.prefix_iff_eq_take.mp (a.collected_mono hk.le)
  have hjn : (a.after (k + 1)).collected = vs.take j :=
    List.prefix_iff_eq_take.mp (a.collected_mono hk)
  refine ⟨⟨?_, fun i hi => ?_⟩, hkn, hjn, i, hi, hop⟩
  · change c < (decimalLines (vs.take j)).length
    rw [← hjn]
    exact hx
  · by_contra hij
    have hp : vs.take i <+: vs.take (j - 1) := List.take_prefix_take_left (by omega)
    rw [← hkn] at hp
    have hle := (length_decimalLines_le hp).trans hc
    exact Nat.not_lt.mpr hle hi

/-- What can be asked of the machine of a session: a step, or to be set back to work. -/
inductive Call where
  | step
  | resume

def call (s : Session LinePrinter ω') : Call → Session LinePrinter ω'
  | .step => s.step.1
  | .resume => { s with machine.state := .running }

theorem foldl_call_of_full {b : Session LinePrinter ω'} {text : List Char} {refusal : String}
    (h : b.sink = .holding text 0 refusal) (calls : List Call) :
    (calls.foldl call b).sink = .holding text 0 refusal := by
  induction calls generalizing b with
  | nil => exact h
  | cons x calls ih =>
    refine ih ?_
    cases x with
    | step =>
      change (b.machine.step b.sink).sink = _
      rw [h, LinePrinter.step_of_full]
    | resume => exact h

private theorem exists_last_le {f : ℕ → ℕ} {c n : ℕ} (h0 : f 0 ≤ c) (hn : c < f n) :
    ∃ k < n, f k ≤ c ∧ c < f (k + 1) := by
  induction n with
  | zero => exact (Nat.not_lt.mpr h0 hn).elim
  | succ n ih =>
    by_cases hc : c < f n
    · obtain ⟨k, hk, hf⟩ := ih hc
      exact ⟨k, Nat.lt_succ_of_lt hk, hf⟩
    · exact ⟨n, Nat.lt_succ_self n, Nat.not_lt.mp hc, hn⟩

/-- The sessions from the same machine on a sink that collects all values and on a printer that
takes `c` characters. With `j` the first number of values whose lines do not fit, they go together
until the step `k` that prints the value number `j`. -/
theorem printing_agrees (m : Machine) (c : ℕ) (refusal : String) (o : ω) (o' : ω') (n : ℕ) :
    let a : Session Collector ω := ⟨m, .empty, o⟩
    let b : Session LinePrinter ω' := ⟨m, ⟨.bounded c refusal⟩, o'⟩
    let vs := (a.after n).collected
    (∀ x ∈ decimalLines vs, x.isDigit ∨ x = '\n') ∧
    ((decimalLines vs).length ≤ c →
      (∀ i ≤ n, (b.after i).machine = (a.after i).machine) ∧
        (∀ i < n, (b.after i).step.2 = (a.after i).step.2) ∧
        (b.after n).sink.writer.written.toList = decimalLines vs) ∧
    (c < (decimalLines vs).length →
      ∃ j k, IsLeast {i | c < (decimalLines (vs.take i)).length} j ∧ k < n ∧
        (a.after k).collected = vs.take (j - 1) ∧ (a.after (k + 1)).collected = vs.take j ∧
        (∃ i, (a.after k).machine.instruction = .ok i ∧ i.opcode = .prn) ∧
        (∀ i ≤ k, (b.after i).machine = (a.after i).machine) ∧
        (∀ i < k, (b.after i).step.2 = (a.after i).step.2) ∧
        (b.after k).step.2 = .error (.output refusal) ∧
        (b.after (k + 1)).machine = { (a.after k).machine with state := .faulted } ∧
        ∀ calls : List Call, (calls.foldl call (b.after (k + 1))).sink.writer.written.toList =
          (decimalLines vs).take c) := by
  intro a b vs
  have h : Prints a c refusal b := prints_start m c refusal o o'
  refine ⟨fun x hx => isDigit_of_mem_decimalLines hx, fun hf => ?_, fun hx => ?_⟩
  · obtain ⟨hm, hr⟩ := h.agree (n := n) hf
    refine ⟨hm, hr, ?_⟩
    rw [(prints_after h hf).sink]
    exact String.toList_ofList
  · let f : ℕ → ℕ := fun k => (decimalLines (a.after k).collected).length
    obtain ⟨k, hk, hc, hx'⟩ := exists_last_le (f := f) (Nat.zero_le c) hx
    obtain ⟨hj, hkn, hjn, hi⟩ := isLeast_of_exceeds hk hc hx'
    obtain ⟨hm, hr⟩ := h.agree (n := k) hc
    obtain ⟨hb, hbm, hbs⟩ := (prints_after h hc).refused (by rwa [← after_succ])
    rw [← after_succ] at hbm hbs
    refine ⟨_, k, hj, hk, hkn, hjn, hi, hm, hr, hb, hbm, fun calls => ?_⟩
    rw [foldl_call_of_full hbs calls, ← after_succ,
      ← take_decimalLines (a.collected_mono hk) hx'.le]
    exact String.toList_ofList

end Session

end LS8
