import LS8.Proofs.Cycle

/-! Bytes and code in memory. Main statements: a loaded image is found in the first cells, and an
instruction whose bytes lie at the program counter is the one decoded there, up to the operands that
it does not use. -/
namespace LS8

theorem Opcode.operandCount_cases (op : Opcode) :
    op.operandCount = 0 ∨ op.operandCount = 1 ∨ op.operandCount = 2 := by
  cases op <;> decide

namespace Memory

/-- The cells from `p` on hold `bytes`. -/
def Holds (m : Memory) (p : ℕ) (bytes : List UInt8) : Prop :=
  ∀ k < bytes.length, m.cells[p + k]? = bytes[k]?

namespace Holds

variable {m : Memory} {p : ℕ} {xs ys : List UInt8}

theorem left (h : m.Holds p (xs ++ ys)) : m.Holds p xs := by
  intro k hk
  rw [h k (by rw [List.length_append]; omega), List.getElem?_append_left hk]

theorem right (h : m.Holds p (xs ++ ys)) : m.Holds (p + xs.length) ys := by
  intro k hk
  have hx := h (xs.length + k) (by rw [List.length_append]; omega)
  rw [List.getElem?_append_right (Nat.le_add_right _ _), Nat.add_sub_cancel_left] at hx
  rw [Nat.add_assoc]
  exact hx

theorem cell {k : ℕ} (h : m.Holds p xs) (hk : k < xs.length) {a : UInt8} (ha : a.toNat = p + k) :
    xs[k]? = some (m.cell a) := by
  rw [← h k hk, ← ha, Vector.getElem?_eq_getElem a.toNat_lt]
  rfl

/-- No other cells matter. -/
theorem of_cells {m' : Memory} (h : m.Holds p xs) (hl : p + xs.length ≤ 256)
    (hc : ∀ x : UInt8, p ≤ x.toNat → x.toNat < p + xs.length → m'.cell x = m.cell x) :
    m'.Holds p xs := by
  intro k hk
  have hlt : p + k < 256 := by omega
  have hx : (p + k).toUInt8.toNat = p + k := UInt8.toNat_ofNat_of_lt' hlt
  have he := hc (p + k).toUInt8 (by omega) (by omega)
  rw [h.cell hk hx, ← he, Vector.getElem?_eq_getElem hlt]
  simp only [Memory.cell, hx]

end Holds

/-- The memory with an image in its first cells and zero in the others. -/
def ofImage (image : List UInt8) : Memory := ⟨.ofFn fun i => image.getD i 0⟩

theorem holds_ofImage {image : List UInt8} (h : image.length ≤ 256) :
    (ofImage image).Holds 0 image := by
  intro k hk
  have hk' : k < 256 := Nat.lt_of_lt_of_le hk h
  simp [ofImage, hk, hk']

end Memory

namespace Machine

variable {m : Machine} {i : Instruction}

theorem withProgram_of_le {image : List UInt8} (h : image.length ≤ 256) :
    withProgram image = .ok ⟨.initial, .ofImage image, .running⟩ := by
  have hz : ∀ k : Fin 256, Memory.zero.cells[k] = 0 := by
    intro k
    simp [Memory.zero]
  simp only [withProgram, load, initial, Memory.load, if_pos h, hz, Memory.ofImage]

theorem withProgram_of_lt {image : List UInt8} (h : 256 < image.length) :
    withProgram image = .error (.programTooLarge image.length) := by
  simp only [withProgram, load, Memory.load, if_neg (Nat.not_le.mpr h)]

theorem of_withProgram {image : List UInt8} (h : withProgram image = .ok m) :
    m = ⟨.initial, .ofImage image, .running⟩ := by
  by_cases hl : image.length ≤ 256
  · exact Except.ok.inj (h.symm.trans (withProgram_of_le hl))
  · exact nomatch h.symm.trans (withProgram_of_lt (Nat.not_le.mp hl))

theorem window_of_holds {bytes : List UInt8} (hp : m.cpu.pc < 254)
    (h : m.memory.Holds m.cpu.pc.toNat bytes) {k : UInt8} (hk : k ≤ 2)
    (hl : k.toNat < bytes.length) :
    bytes[k.toNat]? = some (m.memory.cell (m.cpu.pc.toUInt8 + k)) := by
  have hp' : m.cpu.pc.toNat < 254 := UInt64.lt_iff_toNat_lt.mp hp
  have hk' : k.toNat ≤ 2 := UInt8.le_iff_toNat_le.mp hk
  refine h.cell hl ?_
  rw [UInt8.toNat_add, UInt64.toNat_toUInt8]
  omega

/-- The operands of an instruction that its bytes do not tell are whatever comes after it. -/
theorem instruction_of_holds (hp : m.cpu.pc < 254)
    (h : m.memory.Holds m.cpu.pc.toNat i.encode) :
    ∃ a b, m.instruction = .ok ⟨i.opcode, a, b⟩ ∧
      [a, b].take i.opcode.operandCount = [i.a, i.b].take i.opcode.operandCount := by
  have hw : ∀ k : UInt8, k ≤ 2 → k.toNat < i.encode.length →
      i.encode[k.toNat]? = some (m.memory.cell (m.cpu.pc.toUInt8 + k)) := fun k hk hl =>
    window_of_holds hp h hk hl
  have hl : i.encode.length = 1 + i.opcode.operandCount := i.length_encode
  refine ⟨m.window.a, m.window.b, instruction_eq_ok_iff.mpr ⟨hp, ?_⟩, ?_⟩
  · have h0 := hw 0 (by decide) (by rw [hl]; exact Nat.lt_add_right _ Nat.one_pos)
    rw [UInt8.add_zero] at h0
    have hop : i.opcode.byte = m.memory.cell m.cpu.pc.toUInt8 := Option.some.inj h0
    change m.window = ⟨i.opcode.byte, m.window.a, m.window.b⟩
    rw [hop]
    rfl
  · unfold Instruction.encode at hw hl
    rcases i.opcode.operandCount_cases with hc | hc | hc
    · rw [hc]
      rfl
    · rw [hc] at hw hl ⊢
      have h1 : some i.a = some (m.memory.cell _) := hw 1 (by decide) (by rw [hl]; decide)
      rw [Option.some.inj h1]
      rfl
    · rw [hc] at hw hl ⊢
      have h1 : some i.a = some (m.memory.cell _) := hw 1 (by decide) (by rw [hl]; decide)
      have h2 : some i.b = some (m.memory.cell _) := hw 2 (by decide) (by rw [hl]; decide)
      rw [Option.some.inj h1, Option.some.inj h2]
      rfl

end Machine

end LS8
