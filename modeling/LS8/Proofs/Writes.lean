import LS8.Machine
import Mathlib.Algebra.Group.Int.Defs
import Mathlib.Algebra.Group.Nat.Defs
import Mathlib.Tactic.SplitIfs

/-! Edits of memory from outside of a run. Main statement: each cell holds what the last edit that
succeeded has put there, and an edit that fails changes nothing at all. -/
namespace LS8

/-- A change in place. What it did before an error stays done. -/
abbrev InPlace (σ : Type) := EStateM Error σ

namespace InPlace

variable {σ γ : Type}

/-- Puts the new value, if there is one, in place of the old one. -/
def of (change : σ → Except Error σ) : InPlace σ Unit := fun s =>
  match change s with
  | .ok t => .ok () t
  | .error e => .error e s

/-- Changes made one after the other, whether they fail or not: their answers, and what is left. -/
def all (perform : γ → InPlace σ Unit) : List γ → σ → List (Except Error Unit) × σ
  | [], s => ([], s)
  | c :: cs, s =>
    match perform c s with
    | .ok () t => (.ok () :: (all perform cs t).1, (all perform cs t).2)
    | .error e t => (.error e :: (all perform cs t).1, (all perform cs t).2)

theorem of_eq_ok_iff {change : σ → Except Error σ} {s t : σ} :
    of change s = .ok () t ↔ change s = .ok t := by
  unfold of
  cases change s <;> simp

theorem of_eq_error_iff {change : σ → Except Error σ} {s t : σ} {e : Error} :
    of change s = .error e t ↔ change s = .error e ∧ t = s := by
  unfold of
  cases change s <;> simp [eq_comm]

variable {perform : γ → InPlace σ Unit} {c : γ} {s t : σ}

theorem all_cons_of_ok (h : perform c s = .ok () t) (cs : List γ) :
    all perform (c :: cs) s = (.ok () :: (all perform cs t).1, (all perform cs t).2) := by
  rw [all, h]

theorem all_cons_of_error {e : Error} (h : perform c s = .error e t) (cs : List γ) :
    all perform (c :: cs) s = (.error e :: (all perform cs t).1, (all perform cs t).2) := by
  rw [all, h]

end InPlace

namespace Memory

/-- Copies bytes one by one, the first of them to the cell `k`. -/
def copy : ℕ → List UInt8 → InPlace Memory Unit
  | _, [] => pure ()
  | k, v :: bytes => do
    InPlace.of (·.write k.toUInt64 v)
    copy (k + 1) bytes

/-- The memory with bytes in its cells from `k` on. -/
def withBytes (m : Memory) (k : ℕ) (bytes : List UInt8) : Memory :=
  ⟨.ofFn fun i => if k ≤ i then bytes.getD (i - k) (m.cells.get i) else m.cells.get i⟩

theorem eq_of_cells {m n : Memory} (h : ∀ i, ∀ hi : i < 256, m.cells[i] = n.cells[i]) : m = n := by
  obtain ⟨cells⟩ := m
  obtain ⟨cells'⟩ := n
  exact congrArg Memory.mk (Vector.ext h)

theorem cells_withBytes (m : Memory) (k : ℕ) (bytes : List UInt8) {i : ℕ} (hi : i < 256) :
    (m.withBytes k bytes).cells[i] =
      if k ≤ i then bytes.getD (i - k) m.cells[i] else m.cells[i] := Vector.getElem_ofFn hi

theorem withBytes_nil (m : Memory) (k : ℕ) : m.withBytes k [] = m := by
  apply eq_of_cells
  intro i hi
  rw [cells_withBytes m k [] hi, List.getD_nil, ite_self]

/-- The first of the bytes can be put there before the others. -/
theorem withBytes_cons (m : Memory) (k : ℕ) (v : UInt8) (bytes : List UInt8) :
    m.withBytes k (v :: bytes) = (m.withBytes k [v]).withBytes (k + 1) bytes := by
  apply eq_of_cells
  intro i hi
  rw [cells_withBytes _ _ _ hi, cells_withBytes _ _ _ hi, cells_withBytes _ _ _ hi]
  rcases Nat.lt_trichotomy i k with h | rfl | h
  · rw [if_neg (by omega), if_neg (by omega), if_neg (by omega)]
  · rw [if_pos (Nat.le_refl i), if_neg (Nat.not_succ_le_self i), if_pos (Nat.le_refl i),
      Nat.sub_self]
    rfl
  · obtain ⟨j, rfl⟩ := Nat.exists_eq_add_of_lt h
    have hj : k + j + 1 - k = j + 1 := by omega
    have hj' : k + j + 1 - (k + 1) = j := by omega
    rw [if_pos (by omega), if_pos (by omega), if_pos (by omega), hj, hj']
    rfl

theorem write_eq (m : Memory) {k : ℕ} (h : k < 256) (v : UInt8) :
    m.write k.toUInt64 v = .ok (m.withBytes k [v]) := by
  have hk : k.toUInt64.toNat = k := UInt64.toNat_ofNat_of_lt' (Nat.lt_trans h (by decide))
  rw [write_of_lt m v (by omega)]
  apply congrArg Except.ok
  apply eq_of_cells
  intro i hi
  rw [cells_withBytes m k [v] hi, Vector.getElem_set]
  simp only [hk]
  rcases Nat.lt_trichotomy i k with h | rfl | h
  · rw [if_neg (by omega), if_neg (by omega)]
  · rw [if_pos rfl, if_pos (Nat.le_refl i), Nat.sub_self]
    rfl
  · obtain ⟨j, rfl⟩ := Nat.exists_eq_add_of_lt h
    have hj : k + j + 1 - k = j + 1 := by omega
    rw [if_neg (by omega), if_pos (by omega), hj]
    rfl

/-- No byte is refused on the way as long as the last one still has a cell. -/
theorem copy_eq {bytes : List UInt8} {k : ℕ} (h : k + bytes.length ≤ 256) (m : Memory) :
    copy k bytes m = .ok () (m.withBytes k bytes) := by
  induction bytes generalizing k m with
  | nil =>
    rw [withBytes_nil]
    rfl
  | cons v bytes ih =>
    rw [List.length_cons] at h
    rw [copy, withBytes_cons, ← ih (by omega)]
    change EStateM.bind _ _ _ = _
    unfold EStateM.bind
    rw [InPlace.of_eq_ok_iff.mpr (m.write_eq (by omega) v)]

theorem load_eq (m : Memory) (image : List UInt8) : m.load image =
    if image.length ≤ 256 then .ok (m.withBytes 0 image)
    else .error (.programTooLarge image.length) := by
  have hc : (⟨.ofFn fun i => image.getD i m.cells[i]⟩ : Memory) = m.withBytes 0 image := by
    apply eq_of_cells
    intro i hi
    rw [cells_withBytes m 0 image hi, if_pos (Nat.zero_le i), Vector.getElem_ofFn]
    rfl
  rw [load, hc]

/-- The number that the bits of an address are as a signed one. -/
def signed (a : UInt64) : Int := if a.toNat < 2 ^ 63 then a.toNat else a.toNat - 2 ^ 64

/-- The error of an address without a cell. -/
def NoCell (a : UInt64) (e : Error) : Prop :=
  256 ≤ a.toNat ∧ ∃ s : Int64, s.toInt = signed a ∧ e = .addressOutOfRange s

section Errors

variable {m : Memory} {a b : UInt64} {e : Error}

theorem toInt_toInt64 (a : UInt64) : a.toInt64.toInt = signed a := by
  have ht : a.toInt64.toInt = a.toBitVec.toInt := rfl
  have hn : a.toBitVec.toNat = a.toNat := rfl
  rw [ht, BitVec.toInt_eq_toNat_cond, hn, signed]
  split_ifs <;> omega

theorem noCell_iff : NoCell a e ↔ 256 ≤ a.toNat ∧ e = .addressOutOfRange a.toInt64 := by
  apply and_congr_right
  intro
  rw [← toInt_toInt64]
  constructor
  · rintro ⟨s, hs, rfl⟩
    rw [Int64.toInt_inj.mp hs]
  · rintro rfl
    exact ⟨_, rfl, rfl⟩

/-- No two addresses have the same error, though half of all addresses count as negative. -/
theorem NoCell.unique (ha : NoCell a e) (hb : NoCell b e) : a = b := by
  obtain ⟨-, rfl⟩ := noCell_iff.mp ha
  obtain ⟨-, he⟩ := noCell_iff.mp hb
  injection he with hs
  rw [← a.toUInt64_toInt64, hs, b.toUInt64_toInt64]

theorem read_eq_error_iff : m.read a = .error e ↔ NoCell a e := by
  rw [noCell_iff]
  unfold read
  split_ifs with h
  · simp [Nat.not_le.mpr h]
  · simp [Nat.not_lt.mp h, eq_comm]

theorem write_eq_error_iff {v : UInt8} : m.write a v = .error e ↔ NoCell a e := by
  rw [noCell_iff]
  unfold write
  split_ifs with h
  · simp [Nat.not_le.mpr h]
  · simp [Nat.not_lt.mp h, eq_comm]

theorem load_eq_error_iff {image : List UInt8} :
    m.load image = .error e ↔ 256 < image.length ∧ e = .programTooLarge image.length := by
  unfold load
  split_ifs with h
  · simp [Nat.not_lt.mpr h]
  · simp [Nat.not_le.mp h, eq_comm]

end Errors

/-- An edit of memory. -/
inductive Edit where
  /-- Puts an image into the first cells. -/
  | load (image : List UInt8)
  | write (address : UInt64) (value : UInt8)

namespace Edit

/-- The memory that an edit makes of another one. -/
def result : Edit → Memory → Except Error Memory
  | load image, m => m.load image
  | write address value, m => m.write address value

/-- An edit in place. An image that is too long is refused before the first cell is touched. -/
def perform : Edit → InPlace Memory Unit
  | load image =>
    if image.length ≤ 256 then copy 0 image else throw (.programTooLarge image.length)
  | write address value => InPlace.of (·.write address value)

/-- Why an edit is refused. -/
def Refused (e : Error) : Edit → Prop
  | load image => 256 < image.length ∧ e = .programTooLarge image.length
  | write address _ => NoCell address e

/-- The byte that an edit puts at `x`, if it covers `x`. -/
def byteAt (x : UInt64) : Edit → Option UInt8
  | load image => image[x.toNat]?
  | write address value => if address = x then some value else none

/-- The byte that an edit with this answer has put at `x`. -/
def given (x : UInt64) : Edit × Except Error Unit → Option UInt8
  | (d, .ok ()) => d.byteAt x
  | (_, .error _) => none

variable {d : Edit} {m n : Memory} {x : UInt64}

theorem perform_eq (d : Edit) : d.perform = InPlace.of d.result := by
  funext m
  cases d with
  | write address value => rfl
  | load image =>
    unfold perform InPlace.of result
    simp only [load_eq]
    split_ifs with h
    · rw [copy_eq (by omega)]
    · rfl

theorem perform_eq_ok_iff : d.perform m = .ok () n ↔ d.result m = .ok n := by
  rw [perform_eq, InPlace.of_eq_ok_iff]

theorem perform_eq_error_iff {e : Error} : d.perform m = .error e n ↔ d.Refused e ∧ n = m := by
  rw [perform_eq, InPlace.of_eq_error_iff]
  apply and_congr_left
  intro
  cases d with
  | load image => exact load_eq_error_iff
  | write address value => exact write_eq_error_iff

/-- What one edit leaves: its own bytes in the cells that it covers, and the others as they were. -/
theorem read_of_result (h : d.result m = .ok n) (hx : x.toNat < 256) :
    n.read x = (d.byteAt x).elim (m.read x) .ok := by
  rw [read_of_lt n hx, read_of_lt m hx]
  cases d with
  | load image =>
    change m.load image = .ok n at h
    rw [load_eq] at h
    split_ifs at h
    obtain rfl := Except.ok.inj h
    rw [cells_withBytes m 0 image hx, if_pos (Nat.zero_le _), Nat.sub_zero, byteAt,
      List.getD_eq_getElem?_getD]
    cases image[x.toNat]? <;> rfl
  | write address value =>
    change m.write address value = .ok n at h
    unfold Memory.write at h
    split_ifs at h with ha
    obtain rfl := Except.ok.inj h
    rw [Vector.getElem_set]
    simp only [UInt64.toNat_inj, byteAt]
    split_ifs <;> rfl

end Edit

/-- The bytes that have been put at `x` by edits with these answers, in order. -/
def written (x : UInt64) (edits : List Edit) (answers : List (Except Error Unit)) : List UInt8 :=
  (edits.zip answers).filterMap (Edit.given x)

theorem written_cons (x : UInt64) (d : Edit) (edits : List Edit)
    (answers : List (Except Error Unit)) :
    written x (d :: edits) (.ok () :: answers) =
      (d.byteAt x).toList ++ written x edits answers := by
  unfold written
  rw [List.zip_cons_cons, List.filterMap_cons, Edit.given]
  cases d.byteAt x <;> rfl

/-- The induction is on the edits, the first of which leaves the memory that the others start
from. -/
theorem read_all (edits : List Edit) (m : Memory) {x : UInt64} (hx : x.toNat < 256) :
    (InPlace.all Edit.perform edits m).2.read x =
      (written x edits (InPlace.all Edit.perform edits m).1).getLast?.elim (m.read x) .ok := by
  induction edits generalizing m with
  | nil => rfl
  | cons d edits ih =>
    cases hd : d.perform m with
    | error e n =>
      obtain ⟨-, rfl⟩ := Edit.perform_eq_error_iff.mp hd
      rw [InPlace.all_cons_of_error hd]
      exact ih n
    | ok u n =>
      have hn := Edit.read_of_result (Edit.perform_eq_ok_iff.mp hd) hx
      rw [InPlace.all_cons_of_ok hd, ih, written_cons, hn]
      cases d.byteAt x with
      | none => rfl
      | some v =>
        rw [Option.toList_some, List.singleton_append, List.getLast?_cons]
        cases (written x edits _).getLast? <;> rfl

end Memory

namespace Machine

/-- Does to the memory of a machine what is done to a memory. -/
def inMemory (change : InPlace Memory Unit) : InPlace Machine Unit := fun m =>
  match change m.memory with
  | .ok () memory => .ok () { m with memory }
  | .error e memory => .error e { m with memory }

/-- An edit on a machine, which loads images itself. -/
def edit : Memory.Edit → InPlace Machine Unit
  | .load image => InPlace.of (·.load image)
  | .write address value => inMemory (Memory.Edit.write address value).perform

section Edit

variable {change : InPlace Memory Unit} {m : Machine} {n : Memory}

theorem inMemory_of_ok (h : change m.memory = .ok () n) :
    inMemory change m = .ok () { m with memory := n } := by
  unfold inMemory
  rw [h]

theorem inMemory_of_error {e : Error} (h : change m.memory = .error e n) :
    inMemory change m = .error e { m with memory := n } := by
  unfold inMemory
  rw [h]

/-- It is all the same whether the machine loads an image or its memory does. -/
theorem edit_eq (d : Memory.Edit) : edit d = inMemory d.perform := by
  cases d with
  | write address value => rfl
  | load image =>
    funext m
    rw [Memory.Edit.perform_eq]
    change InPlace.of (·.load image) m = _
    cases h : m.memory.load image with
    | ok n =>
      have hn : InPlace.of (Memory.Edit.load image).result m.memory = .ok () n :=
        InPlace.of_eq_ok_iff.mpr h
      rw [inMemory_of_ok hn, InPlace.of_eq_ok_iff, load, h]
    | error e =>
      have he : InPlace.of (Memory.Edit.load image).result m.memory = .error e m.memory :=
        InPlace.of_eq_error_iff.mpr ⟨h, rfl⟩
      rw [inMemory_of_error he, InPlace.of_eq_error_iff, load, h]
      exact ⟨rfl, rfl⟩

/-- The processor and the state of the machine are not concerned. -/
theorem all_edit (edits : List Memory.Edit) (m : Machine) :
    InPlace.all edit edits m =
      ((InPlace.all Memory.Edit.perform edits m.memory).1,
        { m with memory := (InPlace.all Memory.Edit.perform edits m.memory).2 }) := by
  induction edits generalizing m with
  | nil => rfl
  | cons d edits ih =>
    cases hd : d.perform m.memory with
    | ok u n =>
      have hm : edit d m = .ok () { m with memory := n } := by
        rw [edit_eq, inMemory_of_ok hd]
      rw [InPlace.all_cons_of_ok hd, InPlace.all_cons_of_ok hm, ih]
    | error e n =>
      have hm : edit d m = .error e { m with memory := n } := by
        rw [edit_eq, inMemory_of_error hd]
      rw [InPlace.all_cons_of_error hd, InPlace.all_cons_of_error hm, ih]

end Edit

end Machine

namespace Memory

/-- Any edits of a memory that starts with zeros, those that fail among them. An edit in place makes
the memory that `load` or `write` answers with, and it may as well be one of a machine's memory. -/
theorem holds_last_written (edits : List Edit) :
    let r := InPlace.all Edit.perform edits zero
    (∀ x : UInt64, x.toNat < 256 → r.2.read x = .ok ((written x edits r.1).getLast?.getD 0)) ∧
      (∀ (d : Edit) (m n : Memory), d.perform m = .ok () n ↔ d.result m = .ok n) ∧
      (∀ (d : Edit) (m n : Memory) e, d.perform m = .error e n ↔ d.Refused e ∧ n = m) ∧
      (∀ (m : Memory) a e, m.read a = .error e ↔ NoCell a e) ∧
      (∀ a b e, NoCell a e → NoCell b e → a = b) ∧
      (∀ d, Machine.edit d = Machine.inMemory d.perform) ∧
      ∀ m : Machine,
        let q := InPlace.all Edit.perform edits m.memory
        InPlace.all Machine.edit edits m = (q.1, { m with memory := q.2 }) := by
  intro r
  refine ⟨fun x hx => ?_, fun d m n => Edit.perform_eq_ok_iff,
    fun d m n e => Edit.perform_eq_error_iff, fun m a e => read_eq_error_iff,
    fun a b e => NoCell.unique, Machine.edit_eq, Machine.all_edit edits⟩
  have hz : zero.read x = .ok 0 := by
    rw [read_of_lt zero hx, zero, Vector.getElem_replicate]
  have hr := read_all edits zero hx
  rw [hz] at hr
  rw [hr]
  cases (written x edits r.1).getLast? <;> rfl

/-- A short image over a longer one, an image that is too long, and an address without a cell. -/
def overlapping : List Edit :=
  [.load [1, 2, 3], .write 1 9, .load [7], .load (List.replicate 257 5),
    .write 0x8000000000000000 4]

theorem holds_last_written_overlapping :
    let m := (InPlace.all Edit.perform overlapping zero).2
    (3 : UInt64).toNat < 256 ∧ m.read 0 = .ok 7 ∧ m.read 1 = .ok 9 ∧ m.read 2 = .ok 3 ∧
      m.read 3 = .ok 0 ∧
      m.read 0x8000000000000000 = .error (.addressOutOfRange Int64.minValue) := by
  intro m
  obtain ⟨hread, -, -, herror, -⟩ := holds_last_written overlapping
  refine ⟨by decide, ?_, ?_, ?_, ?_, ?_⟩
  · exact (hread 0 (by decide)).trans (congrArg Except.ok (by decide +kernel))
  · exact (hread 1 (by decide)).trans (congrArg Except.ok (by decide +kernel))
  · exact (hread 2 (by decide)).trans (congrArg Except.ok (by decide +kernel))
  · exact (hread 3 (by decide)).trans (congrArg Except.ok (by decide +kernel))
  · exact (herror m _ _).mpr ⟨by decide, _, by decide, rfl⟩

end Memory

end LS8
