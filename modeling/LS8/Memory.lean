import LS8.Error

/-! The memory: 256 cells of one byte, which hold the program and the stack. -/
namespace LS8

/-- Program and stack share the cells; nothing separates the two. -/
structure Memory where
  cells : Vector UInt8 256
  deriving DecidableEq

namespace Memory

def size : Nat := 256

def zero : Memory := ⟨.replicate 256 0⟩

def read (m : Memory) (address : UInt64) : Except Error UInt8 :=
  if h : address.toNat < 256 then .ok m.cells[address.toNat]
  else .error (.addressOutOfRange address.toInt64)

def write (m : Memory) (address : UInt64) (value : UInt8) : Except Error Memory :=
  if h : address.toNat < 256 then .ok ⟨m.cells.set address.toNat value⟩
  else .error (.addressOutOfRange address.toInt64)

/-- Puts an image into the first cells and keeps the others. -/
def load (m : Memory) (image : List UInt8) : Except Error Memory :=
  if image.length ≤ 256 then .ok ⟨.ofFn fun i => image.getD i m.cells[i]⟩
  else .error (.programTooLarge image.length)

def toList (m : Memory) : List UInt8 := m.cells.toList

def nonzeroCount (m : Memory) : Nat := m.toList.countP (· ≠ 0)

/-- The addresses at which two memories differ, with what the second one holds there. -/
def changes (m n : Memory) : List (Nat × UInt8) :=
  (List.finRange 256).filterMap fun i =>
    if m.cells[i] = n.cells[i] then none else some (i.val, n.cells[i])

theorem read_of_lt (m : Memory) {a : UInt64} (h : a.toNat < 256) :
    m.read a = .ok m.cells[a.toNat] := by
  simp [read, h]

theorem read_of_le (m : Memory) {a : UInt64} (h : 256 ≤ a.toNat) :
    m.read a = .error (.addressOutOfRange a.toInt64) := by
  simp [read, Nat.not_lt.mpr h]

theorem write_of_lt (m : Memory) {a : UInt64} (v : UInt8) (h : a.toNat < 256) :
    m.write a v = .ok ⟨m.cells.set a.toNat v⟩ := by
  simp [write, h]

end Memory

end LS8
