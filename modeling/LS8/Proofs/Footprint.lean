import LS8.Proofs.Emission
import LS8.Proofs.Layout
import LS8.Proofs.Run
import Mathlib.Data.List.Forall2
import Mathlib.Data.Set.Basic

/-! The cells that a cycle uses. Main statement: two machines that differ only in cells that the
first one does not use do the same, although each cycle reads three cells whatever it uses. -/
namespace LS8

theorem Opcode.byte_injective : Function.Injective byte := by
  intro op op' h
  have hs : some op = some op' := by rw [← ofByte?_byte, h, ofByte?_byte]
  exact Option.some.inj hs

namespace Instruction

variable {i j : Instruction}

/-- The instruction with zero for each operand that it does not use. -/
def bare (i : Instruction) : Instruction :=
  match i.opcode.operandCount with
  | 0 => ⟨i.opcode, 0, 0⟩
  | 1 => ⟨i.opcode, i.a, 0⟩
  | _ => i

theorem execute_bare {σ : Type} [Sink σ] (i : Instruction) :
    i.bare.execute (σ := σ) = i.execute := by
  obtain ⟨op, a, b⟩ := i
  cases op <;> rfl

theorem text_bare (i : Instruction) : i.bare.text = i.text := by
  obtain ⟨op, a, b⟩ := i
  cases op <;> rfl

/-- What an instruction uses is what is encoded. -/
theorem bare_eq_of_encode_eq (h : i.encode = j.encode) : i.opcode = j.opcode ∧ i.bare = j.bare := by
  obtain ⟨op, a, b⟩ := i
  obtain ⟨op', a', b'⟩ := j
  obtain ⟨hop, hab⟩ := List.cons.inj h
  obtain rfl : op = op' := Opcode.byte_injective hop
  refine ⟨rfl, ?_⟩
  change [a, b].take op.operandCount = [a', b'].take op.operandCount at hab
  unfold bare
  rcases op.operandCount_cases with hc | hc | hc
  · simp only [hc]
  · simp only [hc] at hab ⊢
    rw [(List.cons.inj hab).1]
  · simp only [hc] at hab ⊢
    obtain ⟨ha, hb⟩ := List.cons.inj hab
    rw [ha, (List.cons.inj hb).1]

theorem execute_eq_of_encode_eq {σ : Type} [Sink σ] (h : i.encode = j.encode) :
    i.execute (σ := σ) = j.execute := by
  rw [← execute_bare i, ← execute_bare j, (bare_eq_of_encode_eq h).2]

theorem text_eq_of_encode_eq (h : i.encode = j.encode) : i.text = j.text := by
  rw [← text_bare i, ← text_bare j, (bare_eq_of_encode_eq h).2]

end Instruction

namespace Fetched

/-- The operation code and the operands that it uses. A byte that is no operation code uses none. -/
def used (bytes : Fetched) : List UInt8 :=
  bytes.op :: [bytes.a, bytes.b].take ((Opcode.ofByte? bytes.op).elim 0 Opcode.operandCount)

variable {bytes other : Fetched} {i : Instruction} {e : Error}

theorem used_of_decode (h : Instruction.decode bytes = .ok i) : bytes.used = i.encode := by
  obtain rfl := Machine.decode_eq_ok_iff.mp h
  unfold used
  rw [Opcode.ofByte?_byte]
  rfl

theorem decode_of_used_eq (hu : bytes.used = other.used) (h : Instruction.decode bytes = .ok i) :
    ∃ j, Instruction.decode other = .ok j ∧ i.encode = j.encode := by
  have hi : i.opcode.byte = other.op := by
    rw [← (List.cons.inj hu).1, Machine.decode_eq_ok_iff.mp h]
  let j : Instruction := ⟨i.opcode, other.a, other.b⟩
  have hj : Instruction.decode other = .ok j := by
    rw [Machine.decode_eq_ok_iff, hi]
  refine ⟨j, hj, ?_⟩
  rw [← used_of_decode h, ← used_of_decode hj, hu]

theorem decode_error_of_used_eq (hu : bytes.used = other.used)
    (h : Instruction.decode bytes = .error e) : Instruction.decode other = .error e := by
  have hop : bytes.op = other.op := (List.cons.inj hu).1
  unfold Instruction.decode Opcode.decode at h ⊢
  rw [← hop]
  cases ho : Opcode.ofByte? bytes.op with
  | some op => simp only [ho] at h; exact nomatch h
  | none => simp only [ho] at h ⊢; exact h

end Fetched

/-- Two events that are the same but for bytes that are not used. -/
inductive Event.Alike : Event → Event → Prop
  | fetched (cpu : Cpu) {bytes other : Fetched} (used : bytes.used = other.used) :
      Alike (.fetched cpu bytes) (.fetched cpu other)
  | logged {r r' : Log.Record} (level : r.level = r'.level) (target : r.target = r'.target)
      (message : r.message = r'.message) : Alike (.logged r) (.logged r')
  | executed (cpu : Cpu) {i j : Instruction} (encode : i.encode = j.encode) :
      Alike (.executed i cpu) (.executed j cpu)

theorem Event.Alike.refl (e : Event) : Alike e e := by
  cases e with
  | fetched cpu bytes => exact .fetched cpu rfl
  | logged r => exact .logged rfl rfl rfl
  | executed i cpu => exact .executed cpu rfl

theorem Event.Alike.decoded (pc : UInt64) {i j : Instruction} (h : i.encode = j.encode) :
    Alike (.logged (.decoded pc i)) (.logged (.decoded pc j)) := by
  have hm : (Log.Record.decoded pc i).message = (Log.Record.decoded pc j).message := by
    change Log.address pc ++ ": " ++ i.text = Log.address pc ++ ": " ++ j.text
    rw [Instruction.text_eq_of_encode_eq h]
  exact .logged rfl rfl hm

namespace Memory

variable {D : Set UInt8} {m n : Memory}

/-- Two memories that differ only in the cells in `D`. -/
def AgreesOutside (m : Memory) (D : Set UInt8) (n : Memory) : Prop := ∀ x ∉ D, m.cell x = n.cell x

theorem AgreesOutside.store (h : m.AgreesOutside D n) (a v : UInt8) :
    (m.store a v).AgreesOutside D (n.store a v) := by
  intro x hx
  rw [cell_store, cell_store, h x hx]

end Memory

/-- Two datapaths that differ only in the cells in `D`. -/
structure Datapath.AgreesOutside {σ : Type} (d : Datapath σ) (D : Set UInt8) (d' : Datapath σ) :
    Prop where
  cpu : d.cpu = d'.cpu
  memory : d.memory.AgreesOutside D d'.memory
  sink : d.sink = d'.sink

/-- The same outcome of two effects, on datapaths that differ only in the cells in `D`. -/
inductive Effect.SameOutcome {σ α : Type} (D : Set UInt8) :
    EStateM.Result Error (Datapath σ) α → EStateM.Result Error (Datapath σ) α → Prop
  | ok (a : α) {d d' : Datapath σ} (agree : d.AgreesOutside D d') :
      SameOutcome D (.ok a d) (.ok a d')
  | error (e : Error) {d d' : Datapath σ} (agree : d.AgreesOutside D d') :
      SameOutcome D (.error e d) (.error e d')

namespace Instruction

/-- `POP` and `RET` read the top of the stack. -/
def ReadsTop (i : Instruction) : Prop := i.opcode = .pop ∨ i.opcode = .ret

section

variable {D : Set UInt8} {i : Instruction} {c : Cpu} {m n : Memory}

theorem fault?_of_top (h : i.ReadsTop → m.cell c.registers.sp = n.cell c.registers.sp) :
    i.fault? c m = i.fault? c n := by
  unfold fault?
  cases hop : i.opcode with
  | pop => simp only [h (Or.inl hop)]
  | _ => rfl

theorem registersAfter_of_top (h : i.ReadsTop → m.cell c.registers.sp = n.cell c.registers.sp) :
    i.registersAfter c m = i.registersAfter c n := by
  unfold registersAfter
  cases hop : i.opcode with
  | pop => simp only [h (Or.inl hop)]
  | _ => rfl

theorem registersLeft_of_top (h : i.ReadsTop → m.cell c.registers.sp = n.cell c.registers.sp) :
    i.registersLeft c m = i.registersLeft c n := by
  unfold registersLeft
  cases hop : i.opcode with
  | pop => simp only [h (Or.inl hop)]
  | _ => rfl

theorem advance_of_top (h : i.ReadsTop → m.cell c.registers.sp = n.cell c.registers.sp) :
    i.advance c m = i.advance c n := by
  unfold advance
  cases hop : i.opcode with
  | ret => simp only [h (Or.inr hop)]
  | _ => rfl

theorem memoryAfter_agrees (i : Instruction) (c : Cpu) (h : m.AgreesOutside D n) :
    (i.memoryAfter c m).AgreesOutside D (i.memoryAfter c n) := by
  unfold memoryAfter
  cases i.stored? c with
  | none => exact h
  | some v => exact h.store _ v

theorem memoryLeft_agrees (i : Instruction) (c : Cpu) (h : m.AgreesOutside D n) :
    (i.memoryLeft c m).AgreesOutside D (i.memoryLeft c n) := by
  unfold memoryLeft
  cases i.opcode with
  | call =>
    simp only
    split_ifs
    · exact h
    · exact h.store _ _
  | _ => exact h

end

/-- Execution reads no cell but the top of the stack. -/
theorem execute_agrees {σ : Type} [Sink σ] {D : Set UInt8} {i : Instruction} {d d' : Datapath σ}
    (h : d.AgreesOutside D d') (ht : i.ReadsTop → d.cpu.registers.sp ∉ D) (hp : d.cpu.pc < 254) :
    Effect.SameOutcome D (i.execute d) (i.execute d') := by
  obtain ⟨c, m, sink⟩ := d
  obtain ⟨c', n, sink'⟩ := d'
  obtain ⟨hc, hm, hs⟩ := h
  obtain rfl : c = c' := hc
  obtain rfl : sink = sink' := hs
  have htop : i.ReadsTop → m.cell c.registers.sp = n.cell c.registers.sp := fun hi =>
    hm _ (ht hi)
  rw [execute_eq_outcome i hp, execute_eq_outcome i (d := ⟨c, n, sink⟩) hp]
  unfold outcome
  simp only [← fault?_of_top htop, ← advance_of_top htop]
  cases i.fault? c m with
  | some e =>
    refine .error e ⟨?_, memoryLeft_agrees i c hm, rfl⟩
    simp only [left, registersLeft_of_top htop]
  | none =>
    cases Sink.emitAll (i.printed c) sink with
    | ok u s =>
      refine .ok _ ⟨?_, memoryAfter_agrees i c hm, rfl⟩
      simp only [after, registersAfter_of_top htop]
    | error cause s => exact .error _ ⟨rfl, hm, rfl⟩

end Instruction

namespace Machine

/-- Two machines that differ only in the cells in `D`. -/
structure AgreesOutside (m : Machine) (D : Set UInt8) (n : Machine) : Prop where
  cpu : m.cpu = n.cpu
  memory : m.memory.AgreesOutside D n.memory
  state : m.state = n.state

/-- The next cycle uses the cell `x`: it is the one at the program counter, one of the operands of
the instruction there, or the top of the stack if the instruction reads it. -/
inductive Uses (m : Machine) (x : UInt8) : Prop
  | opcode (place : x.toNat = m.cpu.pc.toNat)
  | operand {byte : UInt8} {op : Opcode} (k : ℕ) (read : m.memory.read m.cpu.pc = .ok byte)
      (decode : Opcode.decode byte = .ok op) (first : 1 ≤ k) (last : k ≤ op.operandCount)
      (place : x.toNat = m.cpu.pc.toNat + k)
  | top {byte : UInt8} {op : Opcode} (read : m.memory.read m.cpu.pc = .ok byte)
      (decode : Opcode.decode byte = .ok op) (reads : op = .pop ∨ op = .ret)
      (place : x = m.cpu.registers.sp)

end Machine

/-- Two steps that differ only in the cells in `D` and in bytes that are not used. -/
structure Step.Alike {σ : Type} (t : Step σ) (D : Set UInt8) (u : Step σ) : Prop where
  machine : t.machine.AgreesOutside D u.machine
  sink : t.sink = u.sink
  events : t.events.Forall₂ Event.Alike u.events
  result : t.result = u.result

namespace Machine

variable {σ : Type} [Sink σ] {D : Set UInt8} {m n : Machine} {i : Instruction}

theorem AgreesOutside.advance (h : m.AgreesOutside D n) (size : ℕ) (a : Advance) :
    (m.advance size a).AgreesOutside D (n.advance size a) := by
  obtain ⟨hc, hm, hs⟩ := h
  cases a with
  | next => exact ⟨by simp only [Machine.advance, hc], hm, hs⟩
  | skip => exact ⟨by simp only [Machine.advance, hc], hm, hs⟩
  | jump t => exact ⟨by simp only [Machine.advance, hc], hm, hs⟩
  | halt => exact ⟨hc, hm, rfl⟩

omit [Sink σ] in
theorem AgreesOutside.fault (h : m.AgreesOutside D n) (pc : UInt64) (sink : σ) (e : Error)
    {events others : List Event} (he : events.Forall₂ Event.Alike others) :
    (m.fault pc sink events e).Alike D (n.fault pc sink others e) :=
  ⟨⟨h.cpu, h.memory, rfl⟩, rfl, List.rel_append he (.cons (.refl _) .nil), rfl⟩

theorem toNat_window {k : UInt8} (hp : m.cpu.pc < 254) (hk : k ≤ 2) :
    (m.cpu.pc.toUInt8 + k).toNat = m.cpu.pc.toNat + k.toNat := by
  have hp' : m.cpu.pc.toNat < 254 := UInt64.lt_iff_toNat_lt.mp hp
  have hk' : k.toNat ≤ 2 := UInt8.le_iff_toNat_le.mp hk
  rw [UInt8.toNat_add, UInt64.toNat_toUInt8]
  omega

theorem read_pc (hp : m.cpu.pc < 254) : m.memory.read m.cpu.pc = .ok m.window.op := by
  have hp' : m.cpu.pc.toNat < 254 := UInt64.lt_iff_toNat_lt.mp hp
  exact Memory.read_eq_cell _ (by omega)

/-- The bytes that count are fetched from cells that are used. -/
theorem AgreesOutside.used_window (h : m.AgreesOutside D n) (hu : ∀ x ∈ D, ¬ m.Uses x)
    (hp : m.cpu.pc < 254) : m.window.used = n.window.used := by
  have hcell : ∀ x, m.Uses x → m.memory.cell x = n.memory.cell x := fun x hx =>
    h.memory x fun hD => hu x hD hx
  have hop : m.window.op = n.window.op := by
    have hx : m.Uses m.cpu.pc.toUInt8 := .opcode (by
      have := toNat_window hp (by decide : (0 : UInt8) ≤ 2)
      rwa [UInt8.add_zero] at this)
    change m.memory.cell _ = n.memory.cell _
    rw [← h.cpu]
    exact hcell _ hx
  unfold Fetched.used
  rw [← hop]
  cases ho : Opcode.ofByte? m.window.op with
  | none => rfl
  | some op =>
    have hd : Opcode.decode m.window.op = .ok op := by rw [Opcode.decode, ho]
    have ha : 1 ≤ op.operandCount → m.window.a = n.window.a := by
      intro hc
      change m.memory.cell _ = n.memory.cell _
      rw [← h.cpu]
      exact hcell _ (.operand 1 (read_pc hp) hd le_rfl hc (toNat_window hp (by decide)))
    have hb : 2 ≤ op.operandCount → m.window.b = n.window.b := by
      intro hc
      change m.memory.cell _ = n.memory.cell _
      rw [← h.cpu]
      exact hcell _ (.operand 2 (read_pc hp) hd (by decide) hc (toNat_window hp (by decide)))
    change m.window.op :: [m.window.a, m.window.b].take op.operandCount =
      m.window.op :: [n.window.a, n.window.b].take op.operandCount
    rcases op.operandCount_cases with hc | hc | hc
    · rw [hc]
      rfl
    · rw [ha (by omega), hc]
      rfl
    · rw [ha (by omega), hb (by omega)]

theorem sp_notMem (hu : ∀ x ∈ D, ¬ m.Uses x) (hp : m.cpu.pc < 254)
    (hd : Instruction.decode m.window = .ok i) (ht : i.ReadsTop) : m.cpu.registers.sp ∉ D := by
  intro hD
  have hw : m.window.op = i.opcode.byte := by rw [decode_eq_ok_iff.mp hd]
  have ho : Opcode.decode m.window.op = .ok i.opcode := by rw [hw, Opcode.decode_byte]
  exact hu _ hD (.top (read_pc hp) ho ht rfl)

/-- After the decoding, the two cycles execute instructions that differ at most in operands that are
not used. -/
theorem AgreesOutside.cycle_of_decode (h : m.AgreesOutside D n) (hu : ∀ x ∈ D, ¬ m.Uses x)
    (hp : m.cpu.pc < 254) (hd : Instruction.decode m.window = .ok i) (sink : σ) :
    (m.cycle sink).Alike D (n.cycle sink) := by
  have hw := h.used_window hu hp
  have hf : n.fetch = .ok n.window := fetch_of_lt (h.cpu ▸ hp)
  obtain ⟨j, hd', hij⟩ := Fetched.decode_of_used_eq hw hd
  obtain ⟨hop, -⟩ := Instruction.bare_eq_of_encode_eq hij
  have hbegun : List.Forall₂ Event.Alike
      [.fetched m.cpu m.window, .logged (.decoded m.cpu.pc i)]
      [.fetched m.cpu n.window, .logged (.decoded m.cpu.pc j)] :=
    .cons (.fetched m.cpu hw) (.cons (.decoded m.cpu.pc hij) .nil)
  have hx : Effect.SameOutcome D (i.execute ⟨m.cpu, m.memory, sink⟩)
      (i.execute ⟨m.cpu, n.memory, sink⟩) :=
    Instruction.execute_agrees ⟨rfl, h.memory, rfl⟩ (sp_notMem hu hp hd) hp
  unfold Machine.cycle
  simp only [fetch_of_lt hp, hf, hd, hd', ← h.cpu, ← Instruction.execute_eq_of_encode_eq hij, ← hop]
  generalize i.execute ⟨m.cpu, m.memory, sink⟩ = outcome at hx ⊢
  generalize i.execute ⟨m.cpu, n.memory, sink⟩ = other at hx ⊢
  cases hx with
  | @error e d d' agree =>
    have hleft : AgreesOutside ⟨d.cpu, d.memory, m.state⟩ D ⟨d'.cpu, d'.memory, n.state⟩ :=
      ⟨agree.cpu, agree.memory, h.state⟩
    simp only [← agree.sink]
    exact hleft.fault _ _ _ hbegun
  | @ok a d d' agree =>
    have hafter : AgreesOutside ⟨d.cpu, d.memory, m.state⟩ D ⟨d'.cpu, d'.memory, n.state⟩ :=
      ⟨agree.cpu, agree.memory, h.state⟩
    have hnext := hafter.advance i.opcode.size a
    have hhalted : ∀ es : List Event, es.Forall₂ Event.Alike es := fun es =>
      List.forall₂_same.mpr fun e _ => .refl e
    simp only [← hnext.cpu]
    exact ⟨hnext, agree.sink, List.rel_append (List.rel_append hbegun (hhalted _))
      (.cons (.executed _ hij) .nil), congrArg Except.ok hnext.state⟩

theorem AgreesOutside.cycle (h : m.AgreesOutside D n) (hu : ∀ x ∈ D, ¬ m.Uses x) (sink : σ) :
    (m.cycle sink).Alike D (n.cycle sink) := by
  by_cases hp : m.cpu.pc < 254
  · cases hd : Instruction.decode m.window with
    | ok i => exact h.cycle_of_decode hu hp hd sink
    | error e =>
      have hw := h.used_window hu hp
      have hf : n.fetch = .ok n.window := fetch_of_lt (h.cpu ▸ hp)
      have hd' := Fetched.decode_error_of_used_eq hw hd
      unfold Machine.cycle
      simp only [fetch_of_lt hp, hf, hd, hd', ← h.cpu]
      exact h.fault _ _ _ (.cons (.fetched _ hw) .nil)
  · have hp' : ¬ n.cpu.pc < 254 := by rwa [← h.cpu]
    unfold Machine.cycle
    rw [fetch_of_not_lt hp, fetch_of_not_lt hp', ← h.cpu]
    exact h.fault _ _ _ .nil

/-- The cells of the instruction, and the top of the stack if it is read. -/
theorem uses_iff (hi : m.instruction = .ok i) {x : UInt8} : m.Uses x ↔
    (m.cpu.pc.toNat ≤ x.toNat ∧ x.toNat < m.cpu.pc.toNat + i.opcode.size) ∨
      i.ReadsTop ∧ x = m.cpu.registers.sp := by
  obtain ⟨hp, hw⟩ := instruction_eq_ok_iff.mp hi
  have hread : m.memory.read m.cpu.pc = .ok i.opcode.byte := by rw [read_pc hp, hw]
  have hd : Opcode.decode i.opcode.byte = .ok i.opcode := Opcode.decode_byte _
  have hop : ∀ {byte op}, m.memory.read m.cpu.pc = .ok byte → Opcode.decode byte = .ok op →
      op = i.opcode := by
    intro byte op hb ho
    obtain rfl : i.opcode.byte = byte := Except.ok.inj (hread.symm.trans hb)
    exact Except.ok.inj (ho.symm.trans hd)
  unfold Opcode.size
  constructor
  · intro hx
    cases hx with
    | opcode place => exact Or.inl (by omega)
    | operand k read decode first last place =>
      obtain rfl := hop read decode
      exact Or.inl (by omega)
    | top read decode reads place =>
      obtain rfl := hop read decode
      exact Or.inr ⟨reads, place⟩
  · rintro (⟨hle, hlt⟩ | ⟨ht, hx⟩)
    · rcases hle.eq_or_lt with he | hl
      · exact .opcode he.symm
      · exact .operand (x.toNat - m.cpu.pc.toNat) hread hd (by omega) (by omega) (by omega)
    · exact .top hread hd ht hx

theorem AgreesOutside.step (h : m.AgreesOutside D n)
    (hu : m.state = .running → ∀ x ∈ D, ¬ m.Uses x) (sink : σ) :
    (m.step sink).Alike D (n.step sink) := by
  by_cases hr : m.state = .running
  · have hr' : n.state = .running := by rwa [← h.state]
    rw [step_of_running hr, step_of_running hr']
    exact h.cycle (hu hr) sink
  · have hr' : n.state ≠ .running := by rwa [← h.state]
    rw [step_of_stopped hr, step_of_stopped hr']
    exact ⟨h, rfl, .nil, congrArg Except.ok h.state⟩

/-- The cells that are fetched with the instruction at the program counter and that it does not
use. -/
def idle (m : Machine) (i : Instruction) : Set UInt8 :=
  {x | m.cpu.pc.toNat + i.opcode.size ≤ x.toNat ∧ x.toNat < m.cpu.pc.toNat + 3 ∧
    ¬ (i.ReadsTop ∧ x = m.cpu.registers.sp)}

theorem AgreesOutside.step_of_idle (hi : m.instruction = .ok i)
    (h : m.AgreesOutside (m.idle i) n) (sink : σ) :
    (m.step sink).Alike (m.idle i) (n.step sink) := by
  refine h.step (fun _ x hx => ?_) sink
  obtain ⟨hle, -, ht⟩ := hx
  rw [uses_iff hi]
  rintro (⟨-, hlt⟩ | htop)
  · omega
  · exact ht htop

theorem offered_eq_collected (m : Machine) :
    m.offered = (m.step Collector.empty).sink.values.toList := by
  have hc := Collector.emitAll_eq m.offered Collector.empty
  rw [step_of_accepted hc hc]
  simp [Collector.empty]

theorem AgreesOutside.offered (h : m.AgreesOutside D n)
    (hu : m.state = .running → ∀ x ∈ D, ¬ m.Uses x) : m.offered = n.offered := by
  rw [offered_eq_collected, offered_eq_collected, (h.step hu _).sink]

end Machine

namespace Session

variable {σ ω ω' : Type} [Sink σ] [Observer ω] [Observer ω'] {D : Set UInt8}
  {a : Session σ ω} {b : Session σ ω'} {n : ℕ}

/-- The cycles of the next `n` steps leave the cells in `D` unused. -/
def Spares (a : Session σ ω) (D : Set UInt8) (n : ℕ) : Prop :=
  ∀ k < n, (a.after k).machine.state = .running → ∀ x ∈ D, ¬ (a.after k).machine.Uses x

theorem agrees_after (hm : a.machine.AgreesOutside D b.machine) (hs : a.sink = b.sink)
    (hu : a.Spares D n) :
    (a.after n).machine.AgreesOutside D (b.after n).machine ∧
      (a.after n).sink = (b.after n).sink := by
  induction n with
  | zero => exact ⟨hm, hs⟩
  | succ n ih =>
    obtain ⟨hmn, hsn⟩ := ih fun k hk => hu k (Nat.lt_succ_of_lt hk)
    have hstep := hmn.step (hu n (Nat.lt_succ_self n)) (a.after n).sink
    rw [after_succ, after_succ, step_eq, step_eq, ← hsn]
    exact ⟨hstep.machine, hstep.sink⟩

/-- Two machines that differ only in cells in `D`, of which the first one uses none: they do the
same for as long, and not even what the sink has taken from them differs. The last two parts are
about the bytes that are fetched without being used, which show in nothing but themselves. -/
theorem depends_on_used (D : Set UInt8) (a : Session σ ω) (b : Session σ ω') (n : ℕ)
    (hm : a.machine.AgreesOutside D b.machine) (hs : a.sink = b.sink) (hu : a.Spares D n) :
    (∀ k ≤ n, (a.after k).machine.AgreesOutside D (b.after k).machine ∧
      (a.after k).sink = (b.after k).sink) ∧
    (∀ k < n, (a.after k).step.2 = (b.after k).step.2 ∧
      (a.after k).machine.offered = (b.after k).machine.offered ∧
      ((a.after k).machine.step (a.after k).sink).events.Forall₂ Event.Alike
        ((b.after k).machine.step (b.after k).sink).events) ∧
    (∀ (m m' : Machine) (sink : σ) (i : Instruction), m.instruction = .ok i →
      m.AgreesOutside (m.idle i) m' → (m.step sink).Alike (m.idle i) (m'.step sink)) ∧
    ∀ i j : Instruction, i.encode = j.encode →
      i.execute (σ := σ) = j.execute ∧ i.text = j.text ∧ i.opcode.size = j.opcode.size := by
  have hk : ∀ k ≤ n, (a.after k).machine.AgreesOutside D (b.after k).machine ∧
      (a.after k).sink = (b.after k).sink := fun k hk =>
    agrees_after hm hs fun l hl => hu l (Nat.lt_of_lt_of_le hl hk)
  refine ⟨hk, fun k hlt => ?_, fun m m' sink i hi hm => hm.step_of_idle hi sink,
    fun i j hij => ?_⟩
  · obtain ⟨hmk, hsk⟩ := hk k hlt.le
    have hstep := hmk.step (hu k hlt) (a.after k).sink
    refine ⟨?_, hmk.offered (hu k hlt), ?_⟩
    · rw [step_eq, step_eq, ← hsk]
      exact hstep.result
    · rw [← hsk]
      exact hstep.events
  · exact ⟨Instruction.execute_eq_of_encode_eq hij, Instruction.text_eq_of_encode_eq hij,
      congrArg Opcode.size (Instruction.bare_eq_of_encode_eq hij).1⟩

/-- A program that prints the stack pointer and halts, with `byte` in the cell after it. -/
def pointing (byte : UInt8) : Session Collector Unit :=
  ⟨⟨.initial, (Memory.ofImage [0x47, 7, 0x01]).store 3 byte, .running⟩, .empty, ()⟩

theorem depends_on_used_pointing :
    (pointing 0).machine.AgreesOutside {3} (pointing 0xff).machine ∧ (pointing 0).Spares {3} 3 ∧
      (pointing 0xff).machine.memory.cell 3 = 0xff ∧
      ((pointing 0xff).after 1).step.2 = .ok .halted ∧
      ((pointing 0xff).after 3).sink.values = #[0xf4] := by
  have hm : (pointing 0).machine.AgreesOutside {3} (pointing 0xff).machine := by
    refine ⟨rfl, fun x hx => ?_, rfl⟩
    have hne : x ≠ 3 := hx
    unfold pointing
    rw [Memory.cell_store_of_ne _ _ hne, Memory.cell_store_of_ne _ _ hne]
  have hprn : (pointing 0).machine.instruction = .ok ⟨.prn, 7, 1⟩ :=
    Machine.instruction_eq_ok_iff.mpr (by decide +kernel)
  have hhlt : ((pointing 0).after 1).machine.instruction = .ok ⟨.hlt, 0, 0⟩ :=
    Machine.instruction_eq_ok_iff.mpr (by decide +kernel)
  have hu : (pointing 0).Spares {3} 3 := by
    intro k hk hr x hx
    obtain rfl : x = 3 := hx
    have hc : k = 0 ∨ k = 1 ∨ k = 2 := by omega
    rcases hc with rfl | rfl | rfl
    · rw [after_zero, Machine.uses_iff hprn]
      unfold Instruction.ReadsTop
      decide +kernel
    · rw [Machine.uses_iff hhlt]
      unfold Instruction.ReadsTop
      decide +kernel
    · exact absurd hr (by decide +kernel)
  obtain ⟨hall, hsteps, -⟩ := depends_on_used {3} (pointing 0) (pointing 0xff) 3 hm rfl hu
  refine ⟨hm, hu, Memory.cell_store_self _ _ _, ?_, ?_⟩
  · rw [← (hsteps 1 (by decide)).1]
    decide +kernel
  · rw [← (hall 3 le_rfl).2]
    decide +kernel

end Session

end LS8
