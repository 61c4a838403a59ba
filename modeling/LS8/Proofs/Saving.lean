import LS8.Proofs.Blocks

/-! Registers saved on the stack. Main statement: a block between instructions that push a list of
registers and instructions that pop it in reverse leaves these registers as they were, and everything
else as the block alone would. -/
namespace LS8.Saving

open Machine
open Function (update)
open scoped Plain

def push (r : Fin 8) : Instruction := ⟨.push, Plain.index r, 0⟩

def pop (r : Fin 8) : Instruction := ⟨.pop, Plain.index r, 0⟩

/-- The body, before which the registers are saved and behind which they are restored. -/
def code (rs : List (Fin 8)) (body : List Plain) : List UInt8 :=
  rs.flatMap (fun r => (push r).encode) ++ Plain.code body ++
    rs.reverse.flatMap (fun r => (pop r).encode)

/-- What comes of the body on the registers that saving `rs` leaves. -/
def evaluation (rs : List (Fin 8)) (body : List Plain) (c : Cpu) : Evaluation :=
  body.foldl Evaluation.next
    ⟨update (Table.numbers c.registers.cells) 7 (c.registers.sp.toNat - rs.length), c.flags, []⟩

/-- What saving `rs` around the body makes of `m`. Only the cells of the stack that the saved registers
have taken may have changed. -/
structure Restored (m : Machine) (rs : List (Fin 8)) (body : List Plain) (m' : Machine) : Prop where
  state : m'.state = .running
  pc : m'.cpu.pc.toNat = m.cpu.pc.toNat + 4 * rs.length + (Plain.code body).length
  sp : m'.cpu.registers.sp = m.cpu.registers.sp
  saved : ∀ r ∈ rs,
    m'.cpu.registers.value (Plain.index r) = m.cpu.registers.value (Plain.index r)
  others : ∀ r ∉ rs, r ≠ 7 →
    (m'.cpu.registers.value (Plain.index r)).toNat = (evaluation rs body m.cpu).register r
  flags : m'.cpu.flags = (evaluation rs body m.cpu).flags
  memory : ∀ x : UInt8, x.toNat < m.cpu.registers.sp.toNat - rs.length ∨ m.cpu.registers.sp ≤ x →
    m'.memory.cell x = m.memory.cell x

/-- The code lies in memory at the program counter, where the stack does not come while `rs` is
saved. -/
structure Placed (m : Machine) (rs : List (Fin 8)) (body : List Plain) : Prop where
  holds : m.memory.Holds m.cpu.pc.toNat (code rs body)
  fits : m.cpu.pc.toNat + 4 * rs.length + (Plain.code body).length ≤ 255
  room : rs.length ≤ m.cpu.registers.sp.toNat
  apart : ∀ x, m.cpu.pc.toNat ≤ x →
    x < m.cpu.pc.toNat + 4 * rs.length + (Plain.code body).length →
    x < m.cpu.registers.sp.toNat - rs.length ∨ m.cpu.registers.sp.toNat ≤ x

variable {rs : List (Fin 8)} {r : Fin 8} {body : List Plain} {m : Machine}

theorem code_cons (r : Fin 8) (rs : List (Fin 8)) (body : List Plain) :
    code (r :: rs) body = (push r).encode ++ code rs body ++ (pop r).encode := by
  simp [code]

theorem length_code (rs : List (Fin 8)) (body : List Plain) :
    (code rs body).length = 4 * rs.length + (Plain.code body).length := by
  induction rs with
  | nil => simp [code]
  | cons r rs ih =>
    rw [code_cons, List.length_append, List.length_append, ih, List.length_cons]
    change 2 + _ + 2 = _
    omega

theorem index_inj {a b : Fin 8} : Plain.index a = Plain.index b ↔ a = b := by
  rw [← UInt8.toNat_inj, Plain.toNat_index, Plain.toNat_index, Fin.ext_iff]

theorem index_eq_seven_iff : Plain.index r = 7 ↔ r = 7 := index_inj (b := 7)

/-- The machine after `PUSH r`. -/
def pushed (m : Machine) (r : Fin 8) : Machine :=
  let regs := m.cpu.registers.setSp (m.cpu.registers.sp - 1)
  { m with
    cpu.pc := m.cpu.pc + 2
    cpu.registers := regs
    memory := m.memory.store regs.sp (regs.value (Plain.index r)) }

/-- The machine after `POP r`. -/
def popped (m : Machine) (r : Fin 8) : Machine :=
  let regs := m.cpu.registers.put (Plain.index r) (m.memory.cell m.cpu.registers.sp)
  { m with
    cpu.pc := m.cpu.pc + 2
    cpu.registers := regs.setSp (regs.sp + 1) }

theorem sp_pushed (m : Machine) (r : Fin 8) :
    (pushed m r).cpu.registers.sp = m.cpu.registers.sp - 1 := Registers.sp_setSp _ _

theorem value_pushed (m : Machine) (r : Fin 8) {a : Fin 8} (ha : a ≠ 7) :
    (pushed m r).cpu.registers.value (Plain.index a) = m.cpu.registers.value (Plain.index a) := by
  refine (Registers.value_setSp _ _ _).trans (if_neg ?_)
  rwa [index_eq_seven_iff]

theorem numbers_pushed (m : Machine) (r : Fin 8) : Table.numbers (pushed m r).cpu.registers.cells =
    update (Table.numbers m.cpu.registers.cells) 7 (m.cpu.registers.sp - 1).toNat :=
  Registers.numbers_setSp _ _

theorem evaluation_pushed (h : m.cpu.registers.sp ≠ 0) (r : Fin 8) (rs : List (Fin 8))
    (body : List Plain) :
    evaluation rs body (pushed m r).cpu = evaluation (r :: rs) body m.cpu := by
  have hsp := toNat_sub_one h
  have hk : (m.cpu.registers.sp - 1).toNat - rs.length =
      m.cpu.registers.sp.toNat - (r :: rs).length := by
    rw [List.length_cons]
    omega
  unfold evaluation
  rw [sp_pushed, numbers_pushed, Function.update_idem, hk]
  rfl

namespace Placed

theorem sp_ne_zero (h : Placed m (r :: rs) body) : m.cpu.registers.sp ≠ 0 := by
  intro hz
  have hroom := h.room
  rw [hz, List.length_cons] at hroom
  exact Nat.not_succ_le_zero _ hroom

theorem pc_lt (h : Placed m (r :: rs) body) : m.cpu.pc < 254 := by
  have hfits := h.fits
  rw [List.length_cons] at hfits
  exact pc_lt_of_toNat rfl (by omega)

theorem passes_push {σ : Type} [Sink σ] (h : Placed m (r :: rs) body) (hr : m.state = .running)
    (sink : σ) : Passes 1 m sink [] (pushed m r) sink := by
  have hholds := h.holds
  rw [code_cons] at hholds
  exact Machine.passes_push hr h.pc_lt hholds.left.left h.sp_ne_zero sink

theorem pc_pushed (h : Placed m (r :: rs) body) :
    (pushed m r).cpu.pc.toNat = m.cpu.pc.toNat + 2 := toNat_add_of_lt h.pc_lt (by decide)

/-- The pushed byte does not fall on the code. -/
theorem holds_pushed (h : Placed m (r :: rs) body) :
    (pushed m r).memory.Holds m.cpu.pc.toNat (code (r :: rs) body) := by
  have hsp := toNat_sub_one h.sp_ne_zero
  have hroom := h.room
  have hapart := h.apart (m.cpu.registers.sp - 1).toNat
  rw [List.length_cons] at hroom hapart
  refine h.holds.store _ ?_
  rw [Registers.sp_setSp, length_code, List.length_cons]
  omega

theorem pushed (h : Placed m (r :: rs) body) : Placed (pushed m r) rs body := by
  have hsp := toNat_sub_one h.sp_ne_zero
  have hpc := h.pc_pushed
  have hholds := h.holds_pushed
  obtain ⟨-, hfits, hroom, hapart⟩ := h
  rw [code_cons] at hholds
  rw [List.length_cons] at hfits hroom hapart
  refine ⟨?_, ?_, ?_, fun x hx hlt => ?_⟩
  · rw [hpc]
    exact hholds.left.right
  · rw [hpc]
    omega
  · rw [sp_pushed]
    omega
  · rw [hpc] at hx hlt
    rw [sp_pushed]
    have hx' := hapart x (by omega) (by omega)
    omega

end Placed

namespace Restored

variable {n : Machine}

/-- What was pushed is still on the stack when the others have been restored. -/
theorem cell_top (h : Restored (pushed m r) rs body n) :
    n.cpu.registers.sp = m.cpu.registers.sp - 1 ∧
      n.memory.cell n.cpu.registers.sp = (pushed m r).cpu.registers.value (Plain.index r) := by
  have hsp : n.cpu.registers.sp = m.cpu.registers.sp - 1 := h.sp.trans (sp_pushed m r)
  refine ⟨hsp, ?_⟩
  rw [h.memory n.cpu.registers.sp (Or.inr (UInt8.le_of_eq h.sp.symm)), h.sp]
  exact Memory.cell_store_self _ _ _

/-- Even if it is the stack pointer that is restored, `POP` finds it where it stood. -/
theorem sp_put_top (h : Restored (pushed m r) rs body n) :
    (n.cpu.registers.put (Plain.index r) (n.memory.cell n.cpu.registers.sp)).sp =
      m.cpu.registers.sp - 1 := by
  obtain ⟨hsp, htop⟩ := h.cell_top
  rw [Registers.sp_put _ _ (Plain.index_lt r)]
  split_ifs with hr
  · rw [htop, hr, Registers.value_seven, sp_pushed]
  · exact hsp

theorem sp_popped (h : Restored (pushed m r) rs body n) :
    (popped n r).cpu.registers.sp = m.cpu.registers.sp := by
  refine (Registers.sp_setSp _ _).trans ?_
  rw [h.sp_put_top]
  exact UInt8.sub_add_cancel _ _

theorem value_popped (h : Restored (pushed m r) rs body n) {a : Fin 8} (ha : a ≠ 7) :
    (popped n r).cpu.registers.value (Plain.index a) =
      if a = r then m.cpu.registers.value (Plain.index a)
      else n.cpu.registers.value (Plain.index a) := by
  have h7 : Plain.index a ≠ 7 := index_eq_seven_iff.not.mpr ha
  refine ((Registers.value_setSp _ _ _).trans (if_neg h7)).trans ?_
  rw [Registers.value_put _ _ (Plain.index_lt r), h.cell_top.2]
  simp only [index_inj]
  split_ifs with har
  · rw [← har, value_pushed m a ha]
  · rfl

theorem pc_eq (h : Restored (pushed m r) rs body n) (hp : Placed m (r :: rs) body) :
    n.cpu.pc.toNat = m.cpu.pc.toNat + 2 + (code rs body).length ∧ n.cpu.pc < 254 := by
  have hpc : n.cpu.pc.toNat = m.cpu.pc.toNat + 2 + (code rs body).length := by
    rw [h.pc, hp.pc_pushed, length_code, Nat.add_assoc]
  have hfits := hp.fits
  rw [List.length_cons] at hfits
  refine ⟨hpc, pc_lt_of_toNat hpc ?_⟩
  rw [length_code]
  omega

theorem holds_pop (h : Restored (pushed m r) rs body n) (hp : Placed m (r :: rs) body) :
    n.memory.Holds n.cpu.pc.toNat (pop r).encode := by
  have hsp := toNat_sub_one hp.sp_ne_zero
  have hfits := hp.fits
  have hlen := length_code (r :: rs) body
  have hkeep : n.memory.Holds m.cpu.pc.toNat (code (r :: rs) body) := by
    refine hp.holds_pushed.of_cells (by omega) fun x hx hlt => h.memory x ?_
    rw [sp_pushed, UInt8.le_iff_toNat_le]
    have hapart := hp.apart x.toNat hx (by omega)
    rw [List.length_cons] at hapart
    omega
  rw [code_cons] at hkeep
  have hpop := hkeep.right
  rw [List.length_append, ← Nat.add_assoc] at hpop
  rw [(h.pc_eq hp).1]
  exact hpop

theorem passes_pop {σ : Type} [Sink σ] (h : Restored (pushed m r) rs body n)
    (hp : Placed m (r :: rs) body) (sink : σ) : Passes 1 n sink [] (popped n r) sink := by
  refine Machine.passes_pop h.state (h.pc_eq hp).2 (h.holds_pop hp) ?_ sink
  rw [h.sp_put_top]
  intro hz
  have hsp := toNat_sub_one hp.sp_ne_zero
  have hlt := m.cpu.registers.sp.toNat_lt
  rw [hz] at hsp
  change 255 + 1 = _ at hsp
  omega

theorem memory_popped (h : Restored (pushed m r) rs body n) (hp : Placed m (r :: rs) body)
    {x : UInt8}
    (hx : x.toNat < m.cpu.registers.sp.toNat - (r :: rs).length ∨ m.cpu.registers.sp ≤ x) :
    (popped n r).memory.cell x = m.memory.cell x := by
  have hsp := toNat_sub_one hp.sp_ne_zero
  have hroom := hp.room
  rw [UInt8.le_iff_toNat_le, List.length_cons] at hx
  rw [List.length_cons] at hroom
  have hne : x ≠ m.cpu.registers.sp - 1 := by
    rintro rfl
    omega
  refine (h.memory x ?_).trans (Memory.cell_store_of_ne _ _ ?_)
  · rw [sp_pushed, UInt8.le_iff_toNat_le]
    omega
  · rwa [Registers.sp_setSp]

/-- `POP` restores its own register, and what the other instructions have left in the others
stays. -/
theorem popped (h : Restored (pushed m r) rs body n) (hp : Placed m (r :: rs) body) :
    Restored m (r :: rs) body (popped n r) := by
  have heval := evaluation_pushed hp.sp_ne_zero r rs body
  constructor
  case state => exact h.state
  case pc =>
    obtain ⟨hpc, hlt⟩ := h.pc_eq hp
    refine (toNat_add_of_lt hlt (by decide)).trans ?_
    rw [hpc, length_code, List.length_cons]
    change _ + 2 = _
    omega
  case sp => exact h.sp_popped
  case saved =>
    intro a ha
    by_cases h7 : a = 7
    · rw [h7]
      exact h.sp_popped
    · rw [h.value_popped h7]
      split_ifs with har
      · rfl
      · have hmem : a ∈ rs := List.mem_of_ne_of_mem har ha
        rw [h.saved a hmem, value_pushed m r h7]
  case others =>
    intro a ha h7
    rw [List.mem_cons, not_or] at ha
    rw [h.value_popped h7, if_neg ha.1, h.others a ha.2 h7, heval]
  case flags =>
    rw [← heval]
    exact h.flags
  case memory => exact fun x hx => h.memory_popped hp hx

end Restored

/-- With nothing to save, the body runs on the registers as they are. -/
theorem passes_body {σ : Type} [Sink σ] (hσ : Sink.NeverFails σ) (h : Placed m [] body)
    (hr : m.state = .running) (hb : ∀ q ∈ body, ∀ a ∈ q.target?, a ≠ 7) (sink : σ) :
    ∃ m' sink', Passes body.length m sink (evaluation [] body m.cpu).printed m' sink' ∧
      Restored m [] body m' := by
  let e : Evaluation := ⟨Table.numbers m.cpu.registers.cells, m.cpu.flags, []⟩
  have hregs : update e.register 7 (m.cpu.registers.sp.toNat - 0) = e.register :=
    Function.update_eq_self 7 _
  have heval : evaluation [] body m.cpu = body.foldl Evaluation.next e := by
    rw [evaluation, List.length_nil, hregs]
  have hholds := h.holds
  rw [code, List.flatMap_nil, List.nil_append, List.reverse_nil, List.flatMap_nil,
    List.append_nil] at hholds
  obtain ⟨m', s', hrun, hm'⟩ := passes_code hσ body sink hr rfl rfl hholds h.fits
  refine ⟨m', s', ?_, hm'.state, hm'.pc, ?_, fun a ha => ?_, fun a _ _ => ?_, ?_, fun x _ => ?_⟩
  · rw [heval, (Evaluation.foldl_next_eq body e).2]
    exact hrun
  · have hkeep : (body.foldl Evaluation.next e).register 7 = e.register 7 := by
      refine Evaluation.foldl_next_register_of_ne (fun q hq a ha he => ?_) e
      exact hb q hq a ha (Fin.ext he)
    exact UInt8.toNat_inj.mp ((congrFun hm'.shows.registers 7).trans hkeep)
  · exact (List.not_mem_nil ha).elim
  · rw [heval]
    exact hm'.shows.value a
  · rw [heval]
    exact hm'.shows.flags
  · rw [hm'.memory]

/-- Saving and restoring a list of registers around a body that leaves the stack pointer alone. The
induction is on the list: the first register to be saved is the last to be restored. -/
theorem restores_saved {σ : Type} [Sink σ] (hσ : Sink.NeverFails σ) (rs : List (Fin 8))
    (body : List Plain) (hb : ∀ q ∈ body, ∀ a ∈ q.target?, a ≠ 7) (m : Machine)
    (hr : m.state = .running) (h : Placed m rs body) (sink : σ) :
    ∃ m' sink', Passes (2 * rs.length + body.length) m sink
        (evaluation rs body m.cpu).printed m' sink' ∧ Restored m rs body m' := by
  induction rs generalizing m sink with
  | nil =>
    rw [List.length_nil, Nat.mul_zero, Nat.zero_add]
    exact passes_body hσ h hr hb sink
  | cons r rs ih =>
    have hpush := h.passes_push hr sink
    obtain ⟨n, s, hinner, hn⟩ := ih (pushed m r) hr h.pushed sink
    have hall := (hpush.trans hinner).trans (hn.passes_pop h s)
    rw [List.nil_append, List.append_nil, evaluation_pushed h.sp_ne_zero] at hall
    rw [List.length_cons]
    rw [show 1 + (2 * rs.length + body.length + 1) = 2 * (rs.length + 1) + body.length by omega]
      at hall
    exact ⟨popped n r, s, hall, hn.popped h⟩

/-- Sets registers 0, 2 and 3, the second one to what it finds in the stack pointer. -/
def clobbering : List Plain := [.ldi 0 9, .add 2 7, .add 3 0, .prn 3, .cmp 0 3]

/-- About to save registers 0 and 3, and between them twice the stack pointer. -/
def saver : Machine :=
  ⟨⟨0, (Registers.zero.setSp 0xf4).put 3 5, .none⟩, .ofImage (code [0, 7, 7, 3] clobbering),
    .running⟩

theorem restores_saved_pointer : Sink.NeverFails Collector ∧
    (∀ q ∈ clobbering, ∀ a ∈ q.target?, a ≠ 7) ∧ saver.state = .running ∧
      Placed saver [0, 7, 7, 3] clobbering ∧
      ∃ m' t, Passes 13 saver Collector.empty [14] m' t ∧ m'.cpu.registers.value 0 = 0 ∧
        m'.cpu.registers.value 3 = 5 ∧ m'.cpu.registers.sp = 0xf4 ∧
        m'.cpu.registers.value 2 = 0xf0 ∧ m'.cpu.flags = ⟨false, false, true⟩ := by
  have hb : ∀ q ∈ clobbering, ∀ a ∈ q.target?, a ≠ 7 := by decide
  have hp : Placed saver [0, 7, 7, 3] clobbering := by
    refine ⟨Memory.holds_ofImage (by decide), by decide, by decide, fun x _ hx => Or.inl ?_⟩
    change x < 0 + 16 + 14 at hx
    change x < 244 - 4
    omega
  obtain ⟨m', t, hrun, hm'⟩ :=
    restores_saved Collector.neverFails [0, 7, 7, 3] clobbering hb saver rfl hp .empty
  refine ⟨Collector.neverFails, hb, rfl, hp, m', t, hrun, hm'.saved 0 (by decide),
    hm'.saved 3 (by decide), hm'.sp, ?_, hm'.flags⟩
  exact UInt8.toNat_inj.mp (hm'.others 2 (by decide) (by decide))

end LS8.Saving
