import LS8.Proofs.Layout
import LS8.Proofs.Run
import Mathlib.Data.Nat.Init

/-! What is stored in memory. Main statement: the memory after a run is the one before it with the
stores of `PUSH` and `CALL` put over it, so that the code of a program stays as it was loaded while
the stack does not come down to it. -/
namespace LS8

namespace Machine

variable {m n : Machine} {i : Instruction} {x v : UInt8}

/-- The cell and the byte of the next store, if the next instruction is one that stores. -/
def store? (m : Machine) : Option (UInt8 × UInt8) :=
  match m.instruction with
  | .ok i => (i.stored? m.cpu).map fun v => (m.cpu.registers.sp - 1, v)
  | .error _ => none

/-- The next instruction is `PUSH` or `CALL`, with the stack right above the cell `x`. -/
def StoresAt (m : Machine) (x : UInt8) : Prop :=
  m.cpu.registers.sp.toNat = x.toNat + 1 ∧
    ∃ i, m.instruction = .ok i ∧ (i.opcode = .push ∨ i.opcode = .call)

/-- The next instruction stores `v`: `PUSH` the register that it names, read after the stack pointer
has moved, and `CALL` the address after its own two bytes. -/
def Stored (m : Machine) (v : UInt8) : Prop :=
  ∃ i, m.instruction = .ok i ∧
    (i.opcode = .push → (m.cpu.registers.setSp (m.cpu.registers.sp - 1)).get i.a = .ok v) ∧
    (i.opcode = .call → v.toNat = m.cpu.pc.toNat + 2)

theorem store?_of_instruction (hi : m.instruction = .ok i) :
    m.store? = (i.stored? m.cpu).map fun v => (m.cpu.registers.sp - 1, v) := by
  unfold store?
  rw [hi]

/-- A memory with the byte of a store in its cell. -/
def overlay (mem : Memory) (s : UInt8 × UInt8) : Memory := mem.store s.1 s.2

theorem Completes.memory_eq (h : m.Completes n) :
    n.memory = m.store?.toList.foldl overlay m.memory := by
  obtain ⟨i, hi, -, rfl⟩ := h.eq_after
  rw [after_memory, Instruction.memoryAfter, store?_of_instruction hi]
  cases i.stored? m.cpu <;> rfl

theorem memory_eq_foldl {run : ℕ → Machine} {n : ℕ}
    (hrun : ∀ k < n, (run k).Completes (run (k + 1))) :
    (run n).memory =
      ((List.range n).filterMap fun k => (run k).store?).foldl overlay (run 0).memory := by
  induction n with
  | zero => rfl
  | succ n ih =>
    have hn := (hrun n (Nat.lt_succ_self n)).memory_eq
    rw [ih fun k hk => hrun k (Nat.lt_succ_of_lt hk)] at hn
    rw [hn, List.range_succ, List.filterMap_append, List.foldl_append]
    cases hs : (run n).store? <;> simp [hs]

theorem Completes.memory_of_not_store (h : m.Completes n) (hi : m.instruction = .ok i)
    (hpush : i.opcode ≠ .push) (hcall : i.opcode ≠ .call) : n.memory = m.memory := by
  rw [h.memory_eq, store?_of_instruction hi]
  cases hv : i.stored? m.cpu with
  | none => rfl
  | some v =>
    rcases Instruction.stored?_eq_some hv with hop | hop
    · exact (hpush hop).elim
    · exact (hcall hop).elim

theorem Completes.storesAt (h : m.Completes n) (hs : m.store? = some (x, v)) : m.StoresAt x := by
  obtain ⟨i, hi, hk, -⟩ := h.eq_after
  rw [store?_of_instruction hi, Option.map_eq_some_iff] at hs
  obtain ⟨w, hw, he⟩ := hs
  obtain rfl : m.cpu.registers.sp - 1 = x := congrArg Prod.fst he
  have hsp := toNat_sub_one (Instruction.sp_ne_zero_of_stored hw hk)
  exact ⟨hsp.symm, i, hi, Instruction.stored?_eq_some hw⟩

theorem Completes.exists_store (h : m.Completes n) (hx : m.StoresAt x) :
    ∃ v, m.store? = some (x, v) ∧ m.Stored v := by
  obtain ⟨i, hi, hk, -⟩ := h.eq_after
  obtain ⟨hsp, j, hj, hop⟩ := hx
  obtain rfl : i = j := Except.ok.inj (hi.symm.trans hj)
  obtain ⟨v, hv, hpush, hcall⟩ :=
    Instruction.exists_stored hop (instruction_eq_ok_iff.mp hi).1 hk
  have hs := toNat_sub_one (Instruction.sp_ne_zero_of_stored hv hk)
  have hxs : m.cpu.registers.sp - 1 = x := UInt8.toNat_inj.mp (by omega)
  refine ⟨v, ?_, i, hi, hpush, hcall⟩
  rw [store?_of_instruction hi, hv, ← hxs]
  rfl

theorem Completes.cell_of_not_storesAt (h : m.Completes n) (hx : ¬ m.StoresAt x) :
    n.memory.cell x = m.memory.cell x := by
  rw [h.memory_eq]
  cases hs : m.store? with
  | none => rfl
  | some s =>
    have hne : x ≠ s.1 := by
      rintro rfl
      exact hx (h.storesAt hs)
    exact Memory.cell_store_of_ne _ s.2 hne

theorem Completes.stored_of_storesAt (h : m.Completes n) (hx : m.StoresAt x) :
    m.Stored (n.memory.cell x) := by
  obtain ⟨v, hs, hv⟩ := h.exists_store hx
  have hc : n.memory.cell x = v := by
    rw [h.memory_eq, hs]
    exact Memory.cell_store_self _ x v
  rw [hc]
  exact hv

section Run

variable {run : ℕ → Machine} {n : ℕ}

theorem cell_of_no_store {k : ℕ} (hk : k ≤ n)
    (hrun : ∀ j, k ≤ j → j < n → (run j).Completes (run (j + 1)))
    (hx : ∀ j, k ≤ j → j < n → ¬ (run j).StoresAt x) :
    (run n).memory.cell x = (run k).memory.cell x := by
  induction n, hk using Nat.le_induction with
  | base => rfl
  | succ n hkn ih =>
    have hn := Nat.lt_succ_self n
    rw [(hrun n hkn hn).cell_of_not_storesAt (hx n hkn hn)]
    exact ih (fun j hkj hj => hrun j hkj (Nat.lt_succ_of_lt hj))
      fun j hkj hj => hx j hkj (Nat.lt_succ_of_lt hj)

theorem stored_of_last_store {k : ℕ} (hrun : ∀ j < n, (run j).Completes (run (j + 1))) (hk : k < n)
    (hx : (run k).StoresAt x) (hlast : ∀ j, k < j → j < n → ¬ (run j).StoresAt x) :
    (run k).Stored ((run n).memory.cell x) := by
  rw [cell_of_no_store (Nat.succ_le_of_lt hk) (fun j _ hj => hrun j hj) hlast]
  exact (hrun k hk).stored_of_storesAt hx

end Run

/-- A step from `m` to `n`, whatever sink it has and whether it completes or not. -/
def StepsTo (m n : Machine) : Prop :=
  ∃ (σ : Type) (_ : Sink σ) (sink : σ), (m.step sink).machine = n

theorem Completes.stepsTo (h : m.Completes n) : m.StepsTo n := by
  obtain ⟨-, σ, hσ, sink, _, -, hn⟩ := h
  exact ⟨σ, hσ, sink, hn⟩

/-- If the next instruction is `PUSH` or `CALL`, the stack is above the first `size` cells. -/
def StackAbove (m : Machine) (size : ℕ) : Prop :=
  m.state = .running → ∀ i, m.instruction = .ok i → i.opcode = .push ∨ i.opcode = .call →
    size < m.cpu.registers.sp.toNat

theorem ne_sub_one {size : ℕ} (hs : size < m.cpu.registers.sp.toNat) (hx : x.toNat < size) :
    x ≠ m.cpu.registers.sp - 1 := by
  rintro rfl
  have hz : m.cpu.registers.sp ≠ 0 := by
    intro hz
    rw [hz] at hs
    exact Nat.not_lt_zero _ hs
  have := toNat_sub_one hz
  omega

/-- Not even a `CALL` that fails, which has stored its address before, stores below the stack. -/
theorem StepsTo.cell_eq {size : ℕ} (h : m.StepsTo n) (hs : m.StackAbove size)
    (hx : x.toNat < size) : n.memory.cell x = m.memory.cell x := by
  obtain ⟨σ, _, sink, rfl⟩ := h
  by_cases hr : m.state = .running
  · rw [step_of_running hr]
    cases m.course sink with
    | unfetched hp hc => rw [hc]; rfl
    | undecoded e hp hd hc => rw [hc]; rfl
    | refused i cause s hi hk he hc => rw [hc]; rfl
    | failed i e hi hk hc =>
      rw [hc]
      change (i.memoryLeft m.cpu m.memory).cell x = _
      unfold Instruction.memoryLeft
      cases hop : i.opcode with
      | call =>
        split_ifs
        · rfl
        · exact Memory.cell_store_of_ne _ _ (ne_sub_one (hs hr i hi (Or.inr hop)) hx)
      | _ => rfl
    | completed i s hi hk he hc =>
      rw [hc, after_memory]
      unfold Instruction.memoryAfter
      cases hv : i.stored? m.cpu with
      | none => rfl
      | some v =>
        have hop := Instruction.stored?_eq_some hv
        exact Memory.cell_store_of_ne _ v (ne_sub_one (hs hr i hi hop) hx)
  · rw [step_of_stopped hr]

theorem length_le_of_withProgram {image : List UInt8} (h : withProgram image = .ok m) :
    image.length ≤ 256 := by
  by_contra hl
  simp only [withProgram, load, Memory.load, if_neg hl] at h
  cases h

theorem holds_of_run {run : ℕ → Machine} {n : ℕ} {image : List UInt8}
    (h : withProgram image = .ok (run 0)) (hrun : ∀ k < n, (run k).StepsTo (run (k + 1)))
    (hs : ∀ k < n, (run k).StackAbove image.length) : (run n).memory.Holds 0 image := by
  have hl := length_le_of_withProgram h
  induction n with
  | zero =>
    rw [of_withProgram h]
    exact Memory.holds_ofImage hl
  | succ n ih =>
    have hn := Nat.lt_succ_self n
    have hm := ih (fun k hk => hrun k (Nat.lt_succ_of_lt hk)) fun k hk => hs k (Nat.lt_succ_of_lt hk)
    refine hm.of_cells (by omega) fun x _ hx => ?_
    rw [Nat.zero_add] at hx
    exact (hrun n hn).cell_eq (hs n hn) hx

theorem fetch_of_holds {image : List UInt8} (h : m.memory.Holds 0 image) {bytes : Fetched}
    (hf : m.fetch = .ok bytes) :
    let p := m.cpu.pc.toNat
    (p < image.length → image[p]? = some bytes.op) ∧
      (p + 1 < image.length → image[p + 1]? = some bytes.a) ∧
      (p + 2 < image.length → image[p + 2]? = some bytes.b) := by
  intro p
  have hp : m.cpu.pc < 254 := by
    by_contra hn
    rw [fetch_of_not_lt hn] at hf
    exact nomatch hf
  have hp' : p < 254 := UInt64.lt_iff_toNat_lt.mp hp
  obtain rfl : m.window = bytes := Except.ok.inj ((fetch_of_lt hp).symm.trans hf)
  have hc : ∀ k : UInt8, k ≤ 2 → p + k.toNat < image.length →
      image[p + k.toNat]? = some (m.memory.cell (m.cpu.pc.toUInt8 + k)) := by
    intro k hk hlt
    have hk' : k.toNat ≤ 2 := UInt8.le_iff_toNat_le.mp hk
    refine h.cell hlt ?_
    rw [UInt8.toNat_add, UInt64.toNat_toUInt8]
    change (p % 256 + k.toNat) % 256 = 0 + (p + k.toNat)
    omega
  have h0 := hc 0 (by decide)
  rw [UInt8.add_zero] at h0
  exact ⟨h0, hc 1 (by decide), hc 2 (by decide)⟩

/-- The memory after any run of completed steps, and the code of a program that has been loaded after
any steps at all. -/
theorem memory_overlaid (run : ℕ → Machine) (n : ℕ) :
    ((∀ k < n, (run k).Completes (run (k + 1))) →
      (run n).memory =
          ((List.range n).filterMap fun k => (run k).store?).foldl overlay (run 0).memory ∧
        (∀ k < n, ∀ i, (run k).instruction = .ok i → i.opcode ≠ .push → i.opcode ≠ .call →
          (run (k + 1)).memory = (run k).memory) ∧
        ∀ x, ((∀ k < n, ¬ (run k).StoresAt x) →
            (run n).memory.cell x = (run 0).memory.cell x) ∧
          ∀ k < n, (run k).StoresAt x → (∀ j, k < j → j < n → ¬ (run j).StoresAt x) →
            (run k).Stored ((run n).memory.cell x)) ∧
    ∀ image, withProgram image = .ok (run 0) → (∀ k < n, (run k).StepsTo (run (k + 1))) →
      (∀ k < n, (run k).StackAbove image.length) →
      ∀ k ≤ n, (run k).memory.Holds 0 image ∧
        ∀ bytes, (run k).fetch = .ok bytes →
          let p := (run k).cpu.pc.toNat
          (p < image.length → image[p]? = some bytes.op) ∧
            (p + 1 < image.length → image[p + 1]? = some bytes.a) ∧
            (p + 2 < image.length → image[p + 2]? = some bytes.b) := by
  constructor
  · intro hrun
    refine ⟨memory_eq_foldl hrun, fun k hk i hi hpush hcall => ?_, fun x => ⟨fun hx => ?_, ?_⟩⟩
    · exact (hrun k hk).memory_of_not_store hi hpush hcall
    · exact cell_of_no_store (Nat.zero_le n) (fun j _ hj => hrun j hj) fun j _ hj => hx j hj
    · exact fun k hk hx hlast => stored_of_last_store hrun hk hx hlast
  · intro image h hrun hs k hk
    have hm : (run k).memory.Holds 0 image :=
      holds_of_run h (fun j hj => hrun j (Nat.lt_of_lt_of_le hj hk)) fun j hj =>
        hs j (Nat.lt_of_lt_of_le hj hk)
    exact ⟨hm, fun bytes hf => fetch_of_holds hm hf⟩

/-- A program that pushes the stack pointer and calls itself. -/
def pushingCode : List UInt8 := [0x45, 7, 0x50, 0]

def pushingRun (k : ℕ) : Machine :=
  (fun m : Machine => (m.step Collector.empty).machine)^[k]
    ⟨.initial, .ofImage pushingCode, .running⟩

theorem memory_overlaid_pushing :
    withProgram pushingCode = .ok (pushingRun 0) ∧
      (∀ k < 2, (pushingRun k).Completes (pushingRun (k + 1))) ∧
      (pushingRun 2).memory.cell 0xf3 = 0xf3 ∧ (pushingRun 2).memory.cell 0xf2 = 4 ∧
      (pushingRun 2).memory.Holds 0 pushingCode := by
  have hm : withProgram pushingCode = .ok (pushingRun 0) := withProgram_of_le (by decide)
  have hpush : (pushingRun 0).instruction = .ok ⟨.push, 7, 0x50⟩ :=
    instruction_eq_ok_iff.mpr (by decide +kernel)
  have hcall : (pushingRun 1).instruction = .ok ⟨.call, 0, 0⟩ :=
    instruction_eq_ok_iff.mpr (by decide +kernel)
  have hok : ∀ k < 2, (pushingRun k).state = .running ∧
      ((pushingRun k).step Collector.empty).result.isOk := by decide +kernel
  have hrun : ∀ k < 2, (pushingRun k).Completes (pushingRun (k + 1)) := by
    intro k hk
    rw [pushingRun, pushingRun, Function.iterate_succ_apply' _ k]
    exact completes_of_isOk (hok k hk).1 (hok k hk).2
  have hsp : ∀ k < 2, pushingCode.length < (pushingRun k).cpu.registers.sp.toNat := by
    decide +kernel
  obtain ⟨hcells, himage⟩ := memory_overlaid pushingRun 2
  obtain ⟨-, -, hlast⟩ := hcells hrun
  refine ⟨hm, hrun, ?_, ?_, ?_⟩
  · have hx : (pushingRun 0).StoresAt 0xf3 := ⟨by decide +kernel, _, hpush, Or.inl rfl⟩
    obtain ⟨i, hi, hv, -⟩ := (hlast 0xf3).2 0 (by decide) hx fun j hj hjn hs => by
      obtain rfl : j = 1 := by omega
      exact absurd hs.1 (by decide +kernel)
    obtain rfl : _ = i := Except.ok.inj (hpush.symm.trans hi)
    have hg : ((pushingRun 0).cpu.registers.setSp
        ((pushingRun 0).cpu.registers.sp - 1)).get 7 = .ok 0xf3 := by rfl
    exact Except.ok.inj ((hv rfl).symm.trans hg)
  · have hx : (pushingRun 1).StoresAt 0xf2 := ⟨by decide +kernel, _, hcall, Or.inr rfl⟩
    obtain ⟨i, hi, -, hv⟩ := (hlast 0xf2).2 1 (by decide) hx fun j hj hjn => by omega
    obtain rfl : _ = i := Except.ok.inj (hcall.symm.trans hi)
    have hpc : (pushingRun 1).cpu.pc.toNat = 2 := by decide +kernel
    exact UInt8.toNat_inj.mp ((hv rfl).trans (by rw [hpc]; rfl))
  · have hto : ∀ k < 2, (pushingRun k).StepsTo (pushingRun (k + 1)) := fun k hk =>
      (hrun k hk).stepsTo
    exact (himage pushingCode hm hto (fun k hk _ _ _ _ => hsp k hk) 2 (Nat.le_refl 2)).1

end Machine

end LS8
