import LS8.Proofs.Blocks

/-! A loop that counts down. Main statement: whatever straight-line body it has, the loop takes as
many rounds as it is to count, and prints what the rounds print one after another. -/
namespace LS8.Countdown

open Machine
open scoped Plain

/-- The instructions before the loop: the counter, the summand that decrements it, the number that
ends it, the address after it and the address of its head. -/
def setup (n : UInt8) (body : List Plain) : List Plain :=
  [.ldi 0 n, .ldi 1 255, .ldi 2 0, .ldi 3 (.ofNat (25 + (Plain.code body).length)), .ldi 4 15]

/-- Out of the loop, to the address after it. -/
def exit : Instruction := ⟨.jeq, Plain.index 3, 0⟩

/-- Back to the head of the loop. -/
def back : Instruction := ⟨.jmp, Plain.index 4, 0⟩

/-- A loop of `n` rounds. Its head is at address 15, and it goes on from there as long as register 0
is not zero. -/
def image (n : UInt8) (body : List Plain) : List UInt8 :=
  Plain.code (setup n body) ++ Plain.code [.cmp 0 2] ++ exit.encode ++
    Plain.code (body ++ [.add 0 1]) ++ back.encode ++ [Opcode.hlt.byte]

/-- The registers at the head of the loop. The last three are those that the body may set. -/
def registers (body : List Plain) (counter : ℕ) (carried : ℕ → ℕ) : ℕ → ℕ
  | 0 => counter
  | 1 => 255
  | 2 => 0
  | 3 => 25 + (Plain.code body).length
  | 4 => 15
  | r => carried r

/-- What the body does in the round of this counter. -/
def round (body : List Plain) (counter : ℕ) (carried : ℕ → ℕ) : Evaluation :=
  Evaluation.run body (registers body counter carried)

/-- What is printed in the rounds from this counter down to 1. -/
def printed (body : List Plain) : ℕ → (ℕ → ℕ) → List ℕ
  | 0, _ => []
  | i + 1, carried =>
    let e := round body (i + 1) carried
    e.printed ++ printed body i e.register

/-- The memory holds the code of the loop. -/
structure Placed (n : UInt8) (body : List Plain) (m : Memory) : Prop where
  start : m.Holds 0 (Plain.code (setup n body))
  test : m.Holds 15 (Plain.code [.cmp 0 2])
  exit : m.Holds 18 exit.encode
  round : m.Holds 20 (Plain.code (body ++ [.add 0 1]))
  back : m.Holds (23 + (Plain.code body).length) back.encode
  stop : m.Holds (25 + (Plain.code body).length) [Opcode.hlt.byte]

variable {n : UInt8} {body : List Plain} {counter : ℕ} {carried : ℕ → ℕ}

theorem length_code_round (body : List Plain) :
    (Plain.code (body ++ [.add 0 1])).length = (Plain.code body).length + 3 := by
  rw [Plain.code_append, List.length_append]
  rfl

theorem length_image (n : UInt8) (body : List Plain) :
    (image n body).length = (Plain.code body).length + 26 := by
  simp only [image, List.length_append, length_code_round]
  change 15 + 3 + 2 + _ + 2 + 1 = _
  omega

theorem placed_ofImage (h : (Plain.code body).length ≤ 228) :
    Placed n body (.ofImage (image n body)) := by
  have hlen : (image n body).length ≤ 256 := by
    rw [length_image]
    omega
  have hh := Memory.holds_ofImage hlen
  have hstop := hh.right
  have hback := hh.left.right
  simp only [List.length_append, length_code_round] at hstop hback
  change Memory.Holds _ (0 + (15 + 3 + 2 + _ + 2)) _ at hstop
  change Memory.Holds _ (0 + (15 + 3 + 2 + _)) _ at hback
  rw [show 0 + (15 + 3 + 2 + ((Plain.code body).length + 3) + 2) = 25 + (Plain.code body).length by
    omega] at hstop
  rw [show 0 + (15 + 3 + 2 + ((Plain.code body).length + 3)) = 23 + (Plain.code body).length by
    omega] at hback
  exact ⟨hh.left.left.left.left.left, hh.left.left.left.left.right, hh.left.left.left.right,
    hh.left.left.right, hback, hstop⟩

/-- The decrement adds 255, and the body has left the first registers as they were. -/
theorem register_round (hb : ∀ p ∈ body, ∀ a ∈ p.target?, 5 ≤ a.val) (hc : counter < 256) :
    ((round body (counter + 1) carried).next (.add 0 1)).register =
      registers body counter (round body (counter + 1) carried).register := by
  let e := round body (counter + 1) carried
  have hkeep : ∀ r < 5, e.register r = registers body (counter + 1) carried r := by
    intro r hr
    refine Evaluation.foldl_next_register_of_ne (fun p hp a ha => ?_) _
    exact Nat.ne_of_gt (Nat.lt_of_lt_of_le hr (hb p hp a ha))
  change Function.update e.register 0 ((e.register 0 + e.register 1) % 256) =
    registers body counter e.register
  funext r
  match r with
  | 0 =>
    rw [Function.update_self, hkeep 0 (by decide), hkeep 1 (by decide)]
    change (counter + 1 + 255) % 256 = counter
    omega
  | 1 | 2 | 3 | 4 =>
    rw [Function.update_of_ne (by decide), hkeep _ (by decide)]
    rfl
  | r + 5 =>
    rw [Function.update_of_ne (Nat.succ_ne_zero _)]
    rfl

theorem register_setup (hl : (Plain.code body).length ≤ 228) :
    ((setup n body).foldl Evaluation.next .powerOn).register =
      registers body n.toNat Evaluation.powerOn.register := by
  have hlen : (UInt8.ofNat (25 + (Plain.code body).length)).toNat =
      25 + (Plain.code body).length := by
    rw [UInt8.toNat_ofNat']
    omega
  funext r
  match r with
  | 0 | 1 | 2 | 4 => rfl
  | 3 => exact hlen
  | r + 5 =>
    have hset : ∀ p ∈ setup n body, ∀ a ∈ p.target?, a.val < 5 := by
      simp only [setup, Plain.target?, List.forall_mem_cons, Option.mem_some_iff, forall_eq']
      exact ⟨by decide, by decide, by decide, by decide, by decide, fun p hp => nomatch hp⟩
    refine Evaluation.foldl_next_register_of_ne (fun p hp a ha => ?_) _
    exact Nat.ne_of_lt (Nat.lt_of_lt_of_le (hset p hp a ha) (Nat.le_add_left 5 r))

/-- A machine at the head of the loop. -/
structure AtHead (n : UInt8) (body : List Plain) (counter : ℕ) (carried : ℕ → ℕ) (m : Machine) :
    Prop where
  state : m.state = .running
  placed : Placed n body m.memory
  pc : m.cpu.pc.toNat = 15
  shows : Table.numbers m.cpu.registers.cells = registers body counter carried

variable {σ : Type} [Sink σ] {m : Machine}

/-- The comparison and the jump out of the loop, which is taken if the counter is zero. -/
theorem AtHead.passes_test (hσ : Sink.NeverFails σ) (h : AtHead n body counter carried m)
    (sink : σ) :
    ∃ m' sink', Passes 2 m sink [] m' sink' ∧ m'.state = .running ∧ m'.memory = m.memory ∧
      m'.cpu.pc.toNat = (if counter = 0 then 25 + (Plain.code body).length else 20) ∧
      Table.numbers m'.cpu.registers.cells = registers body counter carried ∧
      m'.cpu.flags.equal = decide (counter = 0) := by
  obtain ⟨m', s, hcmp, hm'⟩ := passes_code hσ [.cmp 0 2] sink h.state h.shows h.pc
    h.placed.test (by decide)
  have hpc : m'.cpu.pc.toNat = 18 := by
    rw [hm'.pc, h.pc]
    rfl
  have heq : m'.cpu.flags.equal = decide (counter = 0) := by
    rw [hm'.shows.flags]
    rfl
  have hexit : m'.memory.Holds m'.cpu.pc.toNat exit.encode := by
    rw [hm'.memory, hpc]
    exact h.placed.exit
  have hjeq := passes_jeq hm'.state (pc_lt_of_toNat hpc (by decide)) hexit s
  refine ⟨_, s, hcmp.trans hjeq, hm'.state, hm'.memory, ?_, hm'.shows.registers, heq⟩
  have htarget : (m'.cpu.registers.value (Plain.index 3)).toNat =
      25 + (Plain.code body).length := hm'.shows.value 3
  by_cases hc : counter = 0
  · simp only [heq, hc, decide_true, if_true]
    rw [UInt8.toNat_toUInt64, htarget]
  · simp only [heq, hc, decide_false, if_false, Bool.false_eq_true]
    rw [toNat_add_of_lt (pc_lt_of_toNat hpc (by decide)) (by decide), hpc]
    rfl

/-- One round of the loop takes the counter down by one. -/
theorem AtHead.passes_round (hσ : Sink.NeverFails σ) (h : AtHead n body (counter + 1) carried m)
    (hb : ∀ p ∈ body, ∀ a ∈ p.target?, 5 ≤ a.val) (hl : (Plain.code body).length ≤ 228)
    (hc : counter < 256) (sink : σ) :
    let e := round body (counter + 1) carried
    ∃ m' sink', Passes (body.length + 4) m sink e.printed m' sink' ∧
      AtHead n body counter e.register m' := by
  intro e
  obtain ⟨m₁, s₁, htest, hr, hmem, hpc, hregs, -⟩ := h.passes_test hσ sink
  rw [if_neg (Nat.succ_ne_zero counter)] at hpc
  have hh : m₁.memory.Holds 20 (Plain.code (body ++ [.add 0 1])) := by
    rw [hmem]
    exact h.placed.round
  have hend : 20 + (Plain.code (body ++ [.add 0 1])).length ≤ 255 := by
    rw [length_code_round]
    omega
  obtain ⟨m₂, s₂, hbody, hm₂⟩ := passes_code hσ _ s₁ hr hregs hpc hh hend
  have hrun : Evaluation.run (body ++ [.add 0 1])
      (registers body (counter + 1) carried) = e.next (.add 0 1) := List.foldl_append
  have hregs₂ : Table.numbers m₂.cpu.registers.cells =
      registers body counter e.register := by
    rw [hm₂.shows.registers, (Evaluation.foldl_next_eq _ _).1, hrun]
    exact register_round hb hc
  have hpc₂ : m₂.cpu.pc.toNat = 23 + (Plain.code body).length := by
    rw [hm₂.pc, hpc, length_code_round]
    omega
  have hback : m₂.memory.Holds m₂.cpu.pc.toNat back.encode := by
    rw [hm₂.memory, hmem, hpc₂]
    exact h.placed.back
  have hjmp := passes_jmp hm₂.state (pc_lt_of_toNat hpc₂ (by omega)) hback s₂
  have htarget : (m₂.cpu.registers.value (Plain.index 4)).toNat = 15 := congrFun hregs₂ 4
  rw [hrun, List.length_append] at hbody
  have hround := (htest.trans hbody).trans hjmp
  rw [List.append_nil, List.nil_append] at hround
  change Passes (1 + (body.length + 1 + 2)) m sink e.printed _ s₂ at hround
  rw [show 1 + (body.length + 1 + 2) = body.length + 4 by omega] at hround
  refine ⟨_, s₂, hround, hm₂.state, ?_, ?_, hregs₂⟩
  · rw [hm₂.memory, hmem]
    exact h.placed
  · rw [UInt8.toNat_toUInt64, htarget]

/-- The induction is on the counter, which a round takes down by one. -/
theorem AtHead.passes_rounds (hσ : Sink.NeverFails σ) (hb : ∀ p ∈ body, ∀ a ∈ p.target?, 5 ≤ a.val)
    (hl : (Plain.code body).length ≤ 228) (hc : counter < 256)
    (h : AtHead n body counter carried m) (sink : σ) :
    ∃ carried' m' sink', Passes (counter * (body.length + 4)) m sink
        (printed body counter carried) m' sink' ∧
      AtHead n body 0 carried' m' := by
  induction counter generalizing carried m sink with
  | zero =>
    rw [Nat.zero_mul]
    exact ⟨carried, m, sink, .refl m sink, h⟩
  | succ k ih =>
    have hk := Nat.lt_of_succ_lt hc
    obtain ⟨n₁, s₁, hround, h₁⟩ := h.passes_round hσ hb hl hk sink
    obtain ⟨carried', m', s', hrest, h'⟩ := ih hk h₁ s₁
    rw [Nat.succ_mul]
    exact ⟨carried', m', s', hround.trans hrest, h'⟩

theorem passes_setup (hσ : Sink.NeverFails σ) (hl : (Plain.code body).length ≤ 228) (sink : σ) :
    ∃ m' sink',
      Passes 5 ⟨.initial, .ofImage (image n body), .running⟩ sink [] m' sink' ∧
      AtHead n body n.toNat Evaluation.powerOn.register m' := by
  have hp := placed_ofImage (n := n) hl
  obtain ⟨m', s', hrun, hm'⟩ := passes_code hσ (setup n body)
    (m := ⟨.initial, .ofImage (image n body), .running⟩) sink rfl
    shows_powerOn.registers rfl hp.start (by change 15 ≤ 255; decide)
  refine ⟨m', s', hrun, hm'.state, ?_, hm'.pc, ?_⟩
  · rw [hm'.memory]
    exact hp
  · rw [hm'.shows.registers]
    exact register_setup hl

/-- The run of a loop of `n` rounds: its body may have any length that fits, compare and print, and
set the last three registers. -/
theorem run_countdown {σ : Type} [Sink σ] (hσ : Sink.NeverFails σ) (n : UInt8) (body : List Plain)
    (hb : ∀ p ∈ body, ∀ a ∈ p.target?, 5 ≤ a.val) (hl : (Plain.code body).length ≤ 228)
    (sink : σ) :
    ∃ m m' sink' vs, withProgram (image n body) = .ok m ∧
      HaltsAfter (8 + n.toNat * (body.length + 4)) m sink m' sink' ∧
      m'.cpu.pc.toNat = 25 + (Plain.code body).length ∧ m'.cpu.registers.value 0 = 0 ∧
      m'.cpu.flags.equal = true ∧ Sink.emitAll vs sink = .ok () sink' ∧
      vs.map UInt8.toNat = printed body n.toNat Evaluation.powerOn.register := by
  have hlen : (image n body).length ≤ 256 := by
    rw [length_image]
    omega
  obtain ⟨m₁, s₁, hsetup, h₁⟩ := passes_setup (n := n) hσ hl sink
  obtain ⟨carried, m₂, s₂, hrounds, h₂⟩ := h₁.passes_rounds hσ hb hl n.toNat_lt s₁
  obtain ⟨m₃, s₃, htest, hr, hmem, hpc, hregs, hf⟩ := h₂.passes_test hσ s₂
  rw [if_pos rfl] at hpc
  have hstop : m₃.memory.Holds m₃.cpu.pc.toNat [Opcode.hlt.byte] := by
    rw [hmem, hpc]
    exact h₂.placed.stop
  have hall := (hsetup.trans hrounds).trans htest
  have hhalt := hall.haltsAfter hr (pc_lt_of_toNat hpc (by omega)) hstop
  obtain ⟨vs, hem, hvs⟩ := hall.prints
  rw [List.nil_append, List.append_nil] at hvs
  rw [show 2 + (n.toNat * (body.length + 4) + 5) + 1 = 8 + n.toNat * (body.length + 4) by
    omega] at hhalt
  refine ⟨_, _, s₃, vs, withProgram_of_le hlen, hhalt, hpc, ?_, hf, hem, hvs⟩
  exact UInt8.toNat_inj.mp (congrFun hregs 0)

/-- Adds the counter up in register 5, and compares the sum with the stack pointer. -/
def summing : List Plain := [.add 5 0, .prn 5, .cmp 5 7]

theorem run_countdown_summing : Sink.NeverFails Collector ∧
    (∀ p ∈ summing, ∀ a ∈ p.target?, 5 ≤ a.val) ∧ (Plain.code summing).length ≤ 228 ∧
      ∃ m m' t, withProgram (image 3 summing) = .ok m ∧
        HaltsAfter 29 m Collector.empty m' t ∧ m'.cpu.pc.toNat = 33 ∧
        t.values.toList.map UInt8.toNat = [3, 5, 6] := by
  have hb : ∀ p ∈ summing, ∀ a ∈ p.target?, 5 ≤ a.val := by decide
  have hl : (Plain.code summing).length ≤ 228 := by decide
  obtain ⟨m, m', t, vs, hm, hrun, hpc, -, -, hem, hvs⟩ :=
    run_countdown Collector.neverFails 3 summing hb hl .empty
  refine ⟨Collector.neverFails, hb, hl, m, m', t, hm, hrun, hpc, ?_⟩
  rw [Collector.emitAll_eq] at hem
  cases hem
  have hv : (Collector.empty.values ++ vs.toArray).toList = vs := by simp [Collector.empty]
  exact (congrArg (List.map UInt8.toNat) hv).trans hvs

end LS8.Countdown
