import LS8.Proofs.Run
import LS8.Proofs.Table
import Mathlib.Data.Int.Notation

/-! The machine with guards. Each address is computed in exact numbers, and what would go wrong in
the machine rather than in its program is a hazard of its own. Main statement: the machine with
guards is the machine, so that no run comes to a hazard. -/
namespace LS8

inductive Hazard where
  /-- A sum of addresses that takes more than 64 bits. -/
  | overflow
  /-- A return address that is not that of a cell. -/
  | conversion
  /-- A place on the stack that is not a cell. -/
  | access

/-- The sum of an address and a number, if it takes 64 bits at most. -/
def sum (p : UInt64) (k : ℕ) : Except Hazard UInt64 :=
  if p.toNat + k < UInt64.size then .ok (.ofNat (p.toNat + k)) else .error .overflow

/-- What is added to an address is at most the size of an instruction. -/
theorem add_lt_size {p : UInt64} {k : ℕ} (hp : p.toNat < 256) (hk : k ≤ 3) :
    p.toNat + k < UInt64.size :=
  Nat.lt_trans (Nat.add_lt_add_of_lt_of_le hp hk) (by decide)

theorem sum_eq {p : UInt64} {k : ℕ} (h : p.toNat + k < UInt64.size) :
    sum p k = .ok (p + k.toUInt64) := by
  have hk : k.toUInt64.toNat = k :=
    Nat.mod_eq_of_lt (Nat.lt_of_le_of_lt (Nat.le_add_left k p.toNat) h)
  have hs : UInt64.ofNat (p.toNat + k) = p + k.toUInt64 := by
    apply UInt64.toNat_inj.mp
    rw [UInt64.toNat_add, hk]
    rfl
  rw [sum, if_pos h, hs]

/-- An effect on the datapath that may come to a hazard. -/
abbrev Guarded (σ : Type) := EStateM (Hazard ⊕ Error) (Datapath σ)

namespace Guarded

variable {σ α β : Type}

/-- An effect in which nothing has to be guarded. -/
def lift (x : Effect σ α) : Guarded σ α := fun d =>
  match x d with
  | .ok a d' => .ok a d'
  | .error e d' => .error (.inr e) d'

/-- An effect whose failure is the hazard `z`. -/
def must (z : Hazard) (x : Effect σ α) : Guarded σ α := fun d =>
  match x d with
  | .ok a d' => .ok a d'
  | .error _ d' => .error (.inl z) d'

/-- Moves the stack pointer by `k` and returns it, if the sum of integers is that of a cell. -/
def moveStack (k : ℤ) : Guarded σ UInt8 := fun d =>
  let next : ℤ := d.cpu.registers.sp.toNat + k
  if 0 ≤ next ∧ next ≤ 255 then
    let sp : UInt8 := .ofNat next.toNat
    .ok sp { d with cpu.registers := d.cpu.registers.setSp sp }
  else .error (.inr (.addressOutOfRange (.ofInt next))) d

def returnAddress : Guarded σ UInt8 := fun d =>
  match sum d.cpu.pc 2 with
  | .ok address =>
    if address.toNat < 256 then .ok address.toUInt8 d else .error (.inl .conversion) d
  | .error z => .error (.inl z) d

theorem lift_pure (a : α) : lift (pure a : Effect σ α) = pure a := rfl

theorem lift_bind (x : Effect σ α) (f : α → Effect σ β) :
    lift (x >>= f) = lift x >>= fun a => lift (f a) := by
  funext d
  change lift (EStateM.bind x f) d = EStateM.bind (lift x) (fun a => lift (f a)) d
  unfold lift EStateM.bind
  cases hx : x d <;> simp only [hx]

theorem moveStack_down : moveStack (-1) = lift (Effect.growStack (σ := σ)) := by
  funext d
  unfold moveStack lift Effect.growStack
  by_cases hz : d.cpu.registers.sp = 0
  · rw [hz]
    rfl
  · have hs := toNat_sub_one hz
    have hl := d.cpu.registers.sp.toNat_lt
    have hb : (0 : ℤ) ≤ d.cpu.registers.sp.toNat + -1 ∧
        (d.cpu.registers.sp.toNat : ℤ) + -1 ≤ 255 := by omega
    have hn : ((d.cpu.registers.sp.toNat : ℤ) + -1).toNat = (d.cpu.registers.sp - 1).toNat := by
      omega
    simp only [hb, and_self, if_true, if_neg hz, hn, UInt8.ofNat_toNat]

theorem moveStack_up (k : Guarded σ α) :
    (moveStack 1 >>= fun _ => k) = lift Effect.shrinkStack >>= fun _ => k := by
  funext d
  change EStateM.bind (moveStack 1) (fun _ => k) d =
    EStateM.bind (lift Effect.shrinkStack) (fun _ => k) d
  unfold EStateM.bind moveStack lift Effect.shrinkStack
  by_cases hz : d.cpu.registers.sp = 255
  · have hb : ¬ ((0 : ℤ) ≤ (255 : UInt8).toNat + 1 ∧ ((255 : UInt8).toNat : ℤ) + 1 ≤ 255) := by
      decide
    simp only [hz, if_neg hb, if_true]
    rfl
  · have hs := toNat_add_one hz
    have hl := (d.cpu.registers.sp + 1).toNat_lt
    have hb : (0 : ℤ) ≤ d.cpu.registers.sp.toNat + 1 ∧
        (d.cpu.registers.sp.toNat : ℤ) + 1 ≤ 255 := by omega
    have hn : ((d.cpu.registers.sp.toNat : ℤ) + 1).toNat = (d.cpu.registers.sp + 1).toNat := by
      omega
    simp only [hb, and_self, if_true, if_neg hz, hn, UInt8.ofNat_toNat]

theorem must_cell (z : Hazard) (a : UInt8) :
    must z (Effect.cell (σ := σ) a) = lift (Effect.cell a) := by
  funext d
  unfold must lift Effect.cell
  rw [Memory.read_byte]

theorem must_setCell (z : Hazard) (a v : UInt8) :
    must z (Effect.setCell (σ := σ) a v) = lift (Effect.setCell a v) := by
  funext d
  unfold must lift Effect.setCell
  rw [Memory.write_byte]

theorem returnAddress_eq {d : Datapath σ} (h : d.cpu.pc < 254) :
    returnAddress d = lift Effect.returnAddress d := by
  have hp : d.cpu.pc.toNat < 254 := UInt64.lt_iff_toNat_lt.mp h
  have hs : sum d.cpu.pc 2 = .ok (d.cpu.pc + 2) :=
    sum_eq (add_lt_size (Nat.lt_trans hp (by decide)) (by decide))
  have ha : (d.cpu.pc + 2).toNat < 256 := by
    rw [toNat_add_of_lt h (by decide)]
    exact Nat.add_lt_add_right hp 2
  unfold returnAddress lift Effect.returnAddress
  simp only [hs, if_pos ha]

end Guarded

open Guarded Effect in
/-- The execution of an instruction, with the stack and the return address guarded. -/
def Instruction.guarded {σ : Type} [Sink σ] (i : Instruction) : Guarded σ Advance :=
  match i.opcode with
  | .push => do
    let sp ← moveStack (-1)
    let value ← lift (register i.a)
    must .access (setCell sp value)
    return .next
  | .pop => do
    let sp ← lift stackPointer
    let value ← must .access (cell sp)
    lift (setRegister i.a value)
    let _ ← moveStack 1
    return .next
  | .call => do
    let address ← Guarded.returnAddress
    let sp ← moveStack (-1)
    must .access (setCell sp address)
    let target ← lift (register i.a)
    return .jump target
  | .ret => do
    let sp ← lift stackPointer
    let target ← must .access (cell sp)
    let _ ← moveStack 1
    return .jump target
  | _ => lift i.execute

open Guarded in
theorem Instruction.guarded_eq {σ : Type} [Sink σ] (i : Instruction) {d : Datapath σ}
    (h : d.cpu.pc < 254) : i.guarded d = lift i.execute d := by
  obtain ⟨op, a, b⟩ := i
  unfold guarded execute
  cases op with
  | push => simp only [moveStack_down, must_setCell, lift_bind, lift_pure]
  | pop => simp only [must_cell, moveStack_up, lift_bind, lift_pure]
  | call =>
    simp only [moveStack_down, must_setCell, lift_bind, lift_pure]
    change EStateM.bind Guarded.returnAddress _ d = EStateM.bind (lift Effect.returnAddress) _ d
    unfold EStateM.bind
    rw [returnAddress_eq h]
  | ret => simp only [must_cell, moveStack_up, lift_bind, lift_pure]
  | _ => rfl

/-- An instruction that can be fetched leaves the move of the program counter to the machine. -/
theorem Instruction.pc_of_execute {σ : Type} [Sink σ] {i : Instruction} {d d' : Datapath σ}
    {target : Advance} (h : d.cpu.pc < 254) (hx : i.execute d = .ok target d') :
    d'.cpu.pc = d.cpu.pc := by
  rw [i.execute_eq_outcome h, outcome] at hx
  cases hk : i.fault? d.cpu d.memory with
  | some e => simp only [hk] at hx; exact nomatch hx
  | none =>
    cases he : Sink.emitAll (i.printed d.cpu) d.sink with
    | error cause s => simp only [hk, he] at hx; exact nomatch hx
    | ok u s =>
      simp only [hk, he, EStateM.Result.ok.injEq] at hx
      rw [← hx.2]
      rfl

namespace Machine

variable {σ : Type} [Sink σ] {m : Machine} {sink : σ}

/-- The cell that is `k` cells past the program counter. -/
def guardedRead (m : Machine) (k : ℕ) : Except (Hazard ⊕ Error) UInt8 := do
  let address ← (sum m.cpu.pc k).mapError .inl
  (m.memory.read address).mapError .inr

def guardedFetch (m : Machine) : Except (Hazard ⊕ Error) Fetched := do
  let op ← m.guardedRead 0
  let a ← m.guardedRead 1
  let b ← m.guardedRead 2
  return ⟨op, a, b⟩

def guardedAdvance (m : Machine) (size : ℕ) : Advance → Except Hazard Machine
  | .next => do
    let pc ← sum m.cpu.pc size
    return { m with cpu.pc := pc }
  | .skip => do
    let pc ← sum m.cpu.pc branchNotTaken.toNat
    return { m with cpu.pc := pc }
  | .jump target => return m.advance size (.jump target)
  | .halt => return m.advance size .halt

/-- A cycle that ends with a hazard as soon as it comes to one. -/
def guardedCycle (m : Machine) (sink : σ) : Except Hazard (Step σ) :=
  let pc := m.cpu.pc
  match m.guardedFetch with
  | .error (.inl z) => .error z
  | .error (.inr e) => return m.fault pc sink [] e
  | .ok bytes =>
    let fetched := .fetched m.cpu bytes
    match Instruction.decode bytes with
    | .error e => return m.fault pc sink [fetched] e
    | .ok i =>
      let decoded := .logged (.decoded pc i)
      match i.guarded ⟨m.cpu, m.memory, sink⟩ with
      | .error (.inl z) _ => .error z
      | .error (.inr e) d =>
        return { m with cpu := d.cpu, memory := d.memory }.fault pc d.sink [fetched, decoded] e
      | .ok target d => do
        let m' ← { m with cpu := d.cpu, memory := d.memory }.guardedAdvance i.opcode.size target
        let halted := if target = .halt then [.logged (.halted pc)] else []
        return ⟨m', d.sink, [fetched, decoded] ++ halted ++ [.executed i m'.cpu], .ok m'.state⟩

def guardedStep (m : Machine) (sink : σ) : Except Hazard (Step σ) :=
  if m.state = .running then m.guardedCycle sink else return ⟨m, sink, [], .ok m.state⟩

theorem guardedRead_eq {k : ℕ} (h : m.cpu.pc.toNat + k < UInt64.size) :
    m.guardedRead k = (m.memory.read (m.cpu.pc + k.toUInt64)).mapError .inr := by
  unfold guardedRead
  rw [sum_eq h]
  rfl

/-- The second and the third cell are looked at only after the first, whose address is a byte. -/
theorem guardedFetch_eq (m : Machine) : m.guardedFetch = m.fetch.mapError .inr := by
  have h0 : m.guardedRead 0 = (m.memory.read m.cpu.pc).mapError .inr := by
    rw [guardedRead_eq m.cpu.pc.toNat_lt]
    change (m.memory.read (m.cpu.pc + 0)).mapError _ = _
    rw [UInt64.add_zero]
  unfold guardedFetch fetch
  rw [h0]
  by_cases hp : m.cpu.pc.toNat < 256
  · have h1 : m.guardedRead 1 = (m.memory.read (m.cpu.pc + 1)).mapError .inr :=
      guardedRead_eq (add_lt_size hp (by decide))
    have h2 : m.guardedRead 2 = (m.memory.read (m.cpu.pc + 2)).mapError .inr :=
      guardedRead_eq (add_lt_size hp (by decide))
    rw [h1, h2]
    cases m.memory.read m.cpu.pc with
    | error e => rfl
    | ok op =>
      cases m.memory.read (m.cpu.pc + 1) with
      | error e => rfl
      | ok a => cases m.memory.read (m.cpu.pc + 2) <;> rfl
  · rw [Memory.read_of_le _ (Nat.not_lt.mp hp)]
    rfl

theorem guardedAdvance_eq (h : m.cpu.pc < 254) (op : Opcode) (a : Advance) :
    m.guardedAdvance op.size a = .ok (m.advance op.size a) := by
  have hp : m.cpu.pc.toNat < 256 := Nat.lt_trans (UInt64.lt_iff_toNat_lt.mp h) (by decide)
  have hs : op.size ≤ 3 := by cases op <;> decide
  cases a with
  | next =>
    have hn : sum m.cpu.pc op.size = .ok (m.cpu.pc + op.size.toUInt64) :=
      sum_eq (add_lt_size hp hs)
    simp only [guardedAdvance, hn]
    rfl
  | skip =>
    have hn : sum m.cpu.pc branchNotTaken.toNat = .ok (m.cpu.pc + branchNotTaken) :=
      sum_eq (add_lt_size hp (by decide))
    simp only [guardedAdvance, hn]
    rfl
  | jump target => rfl
  | halt => rfl

theorem guardedCycle_eq (m : Machine) (sink : σ) : m.guardedCycle sink = .ok (m.cycle sink) := by
  unfold guardedCycle cycle
  rw [guardedFetch_eq]
  by_cases hp : m.cpu.pc < 254
  · rw [fetch_of_lt hp]
    cases hd : Instruction.decode m.window with
    | error e => simp only [Except.mapError, hd]; rfl
    | ok i =>
      simp only [Except.mapError, hd, i.guarded_eq (d := ⟨m.cpu, m.memory, sink⟩) hp, Guarded.lift]
      cases hx : i.execute ⟨m.cpu, m.memory, sink⟩ with
      | error e d => rfl
      | ok target d =>
        have hpc : d.cpu.pc < 254 := (Instruction.pc_of_execute hp hx) ▸ hp
        simp only [guardedAdvance_eq (m := { m with cpu := d.cpu, memory := d.memory }) hpc]
        rfl
  · rw [fetch_of_not_lt hp]
    rfl

theorem guardedStep_eq (m : Machine) (sink : σ) : m.guardedStep sink = .ok (m.step sink) := by
  unfold guardedStep step
  split_ifs
  · exact m.guardedCycle_eq sink
  · rfl

theorem le_of_lt_254 {p : UInt64} (h : p < 254) : p ≤ 253 := by
  rw [UInt64.lt_iff_toNat_lt] at h
  exact UInt64.le_iff_toNat_le.mpr (Nat.le_of_lt_succ h)

/-- Only three cells from 253 on lead past the last cell. -/
theorem after_pc_le {i : Instruction} (hi : m.instruction = .ok i) : (m.after i).cpu.pc ≤ 256 ∧
    ((m.after i).cpu.pc = 256 → m.cpu.pc = 253 ∧ i.opcode.size = 3) := by
  have hp : m.cpu.pc.toNat < 254 := UInt64.lt_iff_toNat_lt.mp (instruction_eq_ok_iff.mp hi).1
  have hs : i.opcode.size ≤ 3 := by cases i.opcode <;> decide
  have ha := after_pc_toNat hi
  have hle : ∀ q : UInt64, q ≤ 256 ↔ q.toNat ≤ 256 := fun q => UInt64.le_iff_toNat_le
  have heq : ∀ q r : UInt64, q = r ↔ q.toNat = r.toNat := fun q r => UInt64.toNat_inj.symm
  simp only [hle, heq, UInt64.reduceToNat]
  cases hv : i.advance m.cpu m.memory with
  | next =>
    have hq : (m.after i).cpu.pc.toNat = m.cpu.pc.toNat + i.opcode.size := by rw [ha, hv]
    omega
  | skip =>
    have hq : (m.after i).cpu.pc.toNat = m.cpu.pc.toNat + 2 := by rw [ha, hv]
    omega
  | jump t =>
    have hq : (m.after i).cpu.pc.toNat = t.toNat := by rw [ha, hv]
    have ht := t.toNat_lt
    omega
  | halt =>
    have hq : (m.after i).cpu.pc.toNat = m.cpu.pc.toNat := by rw [ha, hv]
    omega

/-- Where a step that executes an instruction has fetched it, and where it leads. -/
theorem pc_of_ok (h : m.state = .running) {st : State} (hs : (m.step sink).result = .ok st) :
    m.cpu.pc ≤ 253 ∧ (m.step sink).machine.cpu.pc ≤ 256 ∧
      ((m.step sink).machine.cpu.pc = 256 →
        m.cpu.pc = 253 ∧ ∃ i, m.instruction = .ok i ∧ i.opcode.size = 3) := by
  obtain ⟨i, s, hi, -, -, hm⟩ := step_of_ok h hs
  obtain ⟨hle, heq⟩ := after_pc_le hi
  rw [hm]
  refine ⟨le_of_lt_254 (instruction_eq_ok_iff.mp hi).1, hle, fun hp => ?_⟩
  exact ⟨(heq hp).1, i, hi, (heq hp).2⟩

/-- A step after which the machine does not run any more has not moved the program counter. -/
theorem pc_of_not_running (h : (m.step sink).result ≠ .ok .running) :
    (m.step sink).machine.cpu.pc = m.cpu.pc := by
  by_cases hr : m.state = .running
  · cases hs : (m.step sink).result with
    | error e => exact (pc_flags_of_error hs).1
    | ok st =>
      obtain ⟨i, s, hi, -, -, hm⟩ := step_of_ok hr hs
      rw [hm] at h ⊢
      rw [after_state, hr] at h
      by_cases hop : i.opcode = .hlt
      · have ha := (advance_eq_halt_iff i m.cpu m.memory).mpr hop
        simp only [after, ha, advance]
      · rw [if_neg hop] at h
        exact (h rfl).elim
  · rw [step_of_stopped hr]

end Machine

namespace Session

variable {σ ω : Type} [Sink σ] [Observer ω]

def guardedStep (s : Session σ ω) :
    Except Hazard (Session σ ω × Except Error State) := do
  let t ← s.machine.guardedStep s.sink
  return (⟨t.machine, t.sink, Observer.watch t.events s.observer⟩, t.result)

/-- The session after `n` steps, if none of them comes to a hazard. -/
def guardedAfter (s : Session σ ω) : ℕ → Except Hazard (Session σ ω)
  | 0 => return s
  | n + 1 => do
    let t ← s.guardedAfter n
    let u ← t.guardedStep
    return u.1

theorem guardedStep_eq (s : Session σ ω) : s.guardedStep = .ok s.step := by
  unfold guardedStep
  rw [Machine.guardedStep_eq]
  rfl

theorem guardedAfter_eq (s : Session σ ω) (n : ℕ) : s.guardedAfter n = .ok (s.after n) := by
  induction n with
  | zero => rfl
  | succ n ih =>
    rw [guardedAfter, ih, after_succ]
    change (s.after n).guardedStep >>= (fun u => pure u.1) = _
    rw [guardedStep_eq]
    rfl

/-- No step of any session comes to a hazard, and the program counter leaves the addresses of cells
only for 256. -/
theorem addresses_exact (s : Session σ ω) (n : ℕ) :
    s.guardedAfter n = .ok (s.after n) ∧
      let m := (s.after n).machine
      let m' := (s.after (n + 1)).machine
      let r := (s.after n).step.2
      (∀ v, m.memory.read m.cpu.pc = .ok v → m.cpu.pc ≤ 255) ∧
      (m.state = .running → ∀ st, r = .ok st → m.cpu.pc ≤ 253 ∧ m'.cpu.pc ≤ 256 ∧
        (m'.cpu.pc = 256 → m.cpu.pc = 253 ∧ ∃ i, m.instruction = .ok i ∧ i.opcode.size = 3)) ∧
      (r ≠ .ok .running → m'.cpu.pc = m.cpu.pc) := by
  refine ⟨s.guardedAfter_eq n, ?_⟩
  intro m m' r
  have hm : m' = (m.step (s.after n).sink).machine := s.after_succ_machine n
  rw [hm]
  refine ⟨fun v hv => ?_, fun hr st hs => Machine.pc_of_ok hr hs, Machine.pc_of_not_running⟩
  by_contra hp
  rw [Memory.read_of_le] at hv
  · exact nomatch hv
  · rw [UInt64.le_iff_toNat_le] at hp
    exact Nat.lt_of_not_le hp

end Session

end LS8
