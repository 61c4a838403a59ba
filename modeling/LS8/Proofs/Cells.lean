import LS8.Memory
import LS8.Registers

/-! Memory and registers by bytes. An address of one byte always leads to a cell, and an index
below eight to a register, so that both can be read and replaced without an error. -/
namespace LS8

/-- The addresses of the cells of an instruction do not wrap around. -/
theorem toNat_add_of_lt {p k : UInt64} (hp : p < 254) (hk : k ≤ 3) :
    (p + k).toNat = p.toNat + k.toNat := by
  have hp' : p.toNat < 254 := UInt64.lt_iff_toNat_lt.mp hp
  have hk' : k.toNat ≤ 3 := UInt64.le_iff_toNat_le.mp hk
  rw [UInt64.toNat_add]
  exact Nat.mod_eq_of_lt (by omega)

/-- The address that follows a `CALL` is that of a cell. -/
theorem returnAddress_toNat {p : UInt64} (hp : p < 254) : (p + 2).toUInt8.toNat = p.toNat + 2 := by
  have hp' : p.toNat < 254 := UInt64.lt_iff_toNat_lt.mp hp
  rw [UInt64.toNat_toUInt8, toNat_add_of_lt hp (by decide)]
  exact Nat.mod_eq_of_lt (Nat.add_lt_add_right hp' 2)

theorem toNat_sub_one {a : UInt8} (h : a ≠ 0) : (a - 1).toNat + 1 = a.toNat := by
  have hz : a.toNat ≠ 0 := fun hz => h (UInt8.toNat_inj.mp hz)
  have hp : 1 ≤ a := UInt8.le_iff_toNat_le.mpr (Nat.one_le_iff_ne_zero.mpr hz)
  rw [UInt8.toNat_sub_of_le _ _ hp]
  exact Nat.sub_add_cancel (Nat.one_le_iff_ne_zero.mpr hz)

theorem toNat_add_one {a : UInt8} (h : a ≠ 255) : (a + 1).toNat = a.toNat + 1 := by
  have hn : a.toNat ≠ 255 := fun hn => h (UInt8.toNat_inj.mp hn)
  have hl := a.toNat_lt
  rw [UInt8.toNat_add]
  exact Nat.mod_eq_of_lt (by simp only [UInt8.reduceToNat]; omega)

namespace Memory

def cell (m : Memory) (a : UInt8) : UInt8 :=
  have : a.toNat < 256 := a.toNat_lt
  m.cells[a.toNat]

def store (m : Memory) (a v : UInt8) : Memory := ⟨m.cells.set a.toNat v a.toNat_lt⟩

theorem read_eq_cell (m : Memory) {a : UInt64} (h : a.toNat < 256) :
    m.read a = .ok (m.cell a.toUInt8) := by
  have ha : a.toUInt8.toNat = a.toNat := by
    rw [UInt64.toNat_toUInt8]
    omega
  simp only [read_of_lt m h, cell, ha]

private theorem toUInt64_lt (a : UInt8) : a.toUInt64.toNat < 256 := by
  rw [UInt8.toNat_toUInt64]
  exact a.toNat_lt

theorem read_byte (m : Memory) (a : UInt8) : m.read a.toUInt64 = .ok (m.cell a) := by
  rw [read_eq_cell m (toUInt64_lt a), UInt8.toUInt8_toUInt64]

theorem write_byte (m : Memory) (a v : UInt8) : m.write a.toUInt64 v = .ok (m.store a v) := by
  rw [write_of_lt m v (toUInt64_lt a)]
  simp only [store, UInt8.toNat_toUInt64]

theorem cell_store (m : Memory) (a v x : UInt8) :
    (m.store a v).cell x = if x = a then v else m.cell x := by
  unfold cell store
  rw [Vector.getElem_set]
  simp only [UInt8.toNat_inj, eq_comm]

@[simp] theorem cell_store_self (m : Memory) (a v : UInt8) : (m.store a v).cell a = v := by
  rw [cell_store, if_pos rfl]

theorem cell_store_of_ne (m : Memory) {a x : UInt8} (v : UInt8) (h : x ≠ a) :
    (m.store a v).cell x = m.cell x := by
  rw [cell_store, if_neg h]

end Memory

namespace Registers

/-- The value of a register; zero if there is no such register. -/
def value (r : Registers) (i : UInt8) : UInt8 := r.cells[i.toNat]?.getD 0

/-- The registers with one of them replaced, if there is such a register. -/
def put (r : Registers) (i v : UInt8) : Registers :=
  if h : i.toNat < 8 then ⟨r.cells.set i.toNat v⟩ else r

theorem get_of_lt_eight (r : Registers) {i : UInt8} (h : i < 8) : r.get i = .ok (r.value i) := by
  have hi : i.toNat < 8 := UInt8.lt_iff_toNat_lt.mp h
  simp only [get_of_lt r hi, value, Vector.getElem?_eq_getElem hi, Option.getD_some]

theorem set_of_lt_eight (r : Registers) {i : UInt8} (v : UInt8) (h : i < 8) :
    r.set i v = .ok (r.put i v) := by
  have hi : i.toNat < 8 := UInt8.lt_iff_toNat_lt.mp h
  rw [set_of_lt r v hi, put, dif_pos hi]

private theorem le_toNat {i : UInt8} (h : ¬ i < 8) : 8 ≤ i.toNat := by
  rw [UInt8.lt_iff_toNat_lt] at h
  exact Nat.not_lt.mp h

theorem get_of_not_lt (r : Registers) {i : UInt8} (h : ¬ i < 8) :
    r.get i = .error (.registerOutOfRange i) := get_of_le r (le_toNat h)

theorem set_of_not_lt (r : Registers) {i : UInt8} (v : UInt8) (h : ¬ i < 8) :
    r.set i v = .error (.registerOutOfRange i) := set_of_le r v (le_toNat h)

theorem value_put (r : Registers) {i : UInt8} (v : UInt8) (h : i < 8) (j : UInt8) :
    (r.put i v).value j = if j = i then v else r.value j := by
  have hi : i.toNat < 8 := UInt8.lt_iff_toNat_lt.mp h
  unfold value put
  rw [dif_pos hi, Vector.getElem?_set]
  by_cases hj : j = i
  · subst j
    simp
  · have hn : i.toNat ≠ j.toNat := fun he => hj (UInt8.toNat_inj.mp he).symm
    rw [if_neg hn, if_neg hj]

theorem value_seven (r : Registers) : r.value 7 = r.sp := rfl

theorem put_seven (r : Registers) (v : UInt8) : r.put 7 v = r.setSp v := rfl

theorem value_setSp (r : Registers) (v i : UInt8) :
    (r.setSp v).value i = if i = 7 then v else r.value i := by
  rw [← put_seven, value_put r v (by decide)]

theorem sp_put (r : Registers) {i : UInt8} (v : UInt8) (h : i < 8) :
    (r.put i v).sp = if i = 7 then v else r.sp := by
  rw [← value_seven, value_put r v h, value_seven]
  simp only [eq_comm]

end Registers

end LS8
