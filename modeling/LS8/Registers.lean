import LS8.Error

/-! The register file: eight registers of one byte, the last of which is the stack pointer. -/
namespace LS8

structure Registers where
  cells : Vector UInt8 8
  deriving DecidableEq

namespace Registers

def count : Nat := 8

def spIndex : UInt8 := 7

/-- All registers zero, the stack pointer too. -/
def zero : Registers := ⟨.replicate 8 0⟩

def get (r : Registers) (index : UInt8) : Except Error UInt8 :=
  if h : index.toNat < 8 then .ok r.cells[index.toNat] else .error (.registerOutOfRange index)

def set (r : Registers) (index value : UInt8) : Except Error Registers :=
  if h : index.toNat < 8 then .ok ⟨r.cells.set index.toNat value⟩
  else .error (.registerOutOfRange index)

/-- The stack pointer: the address of the top of the stack. -/
def sp (r : Registers) : UInt8 := r.cells[7]

def setSp (r : Registers) (value : UInt8) : Registers := ⟨r.cells.set 7 value⟩

def toList (r : Registers) : List UInt8 := r.cells.toList

theorem get_of_lt (r : Registers) {i : UInt8} (h : i.toNat < 8) :
    r.get i = .ok r.cells[i.toNat] := by
  simp [get, h]

theorem get_of_le (r : Registers) {i : UInt8} (h : 8 ≤ i.toNat) :
    r.get i = .error (.registerOutOfRange i) := by
  simp [get, Nat.not_lt.mpr h]

theorem set_of_lt (r : Registers) {i : UInt8} (v : UInt8) (h : i.toNat < 8) :
    r.set i v = .ok ⟨r.cells.set i.toNat v⟩ := by
  simp [set, h]

theorem set_of_le (r : Registers) {i : UInt8} (v : UInt8) (h : 8 ≤ i.toNat) :
    r.set i v = .error (.registerOutOfRange i) := by
  simp [set, Nat.not_lt.mpr h]

@[simp] theorem sp_setSp (r : Registers) (v : UInt8) : (r.setSp v).sp = v := by
  simp [sp, setSp]

end Registers

end LS8
