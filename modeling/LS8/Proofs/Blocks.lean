import LS8.Proofs.StraightLine
import Mathlib.Algebra.GroupWithZero.Nat

/-! Blocks of instructions one after another. Main statements: a straight-line block prints what its
evaluation on the registers prints and sets no register but its targets, each of the instructions
around blocks has one outcome, and a run that comes to `HLT` is over with the next cycle. -/
namespace LS8

/-- A byte stored elsewhere leaves these cells as they are. -/
theorem Memory.Holds.store {m : Memory} {p : ℕ} {bytes : List UInt8} (h : m.Holds p bytes)
    {a : UInt8} (v : UInt8) (ha : a.toNat < p ∨ p + bytes.length ≤ a.toNat) :
    (m.store a v).Holds p bytes := by
  intro k hk
  have hne : a.toNat ≠ p + k := by omega
  rw [← h k hk]
  exact Vector.getElem?_set_ne a.toNat_lt hne

namespace Plain

/-- For the numerals that name registers. -/
scoped instance neZero_eight : NeZero 8 := ⟨by decide⟩

/-- The register that an instruction sets. -/
def target? : Plain → Option (Fin 8)
  | .ldi a _ | .add a _ | .mul a _ => some a
  | .cmp .. | .prn _ => none

end Plain

namespace Evaluation

/-- What comes of instructions with these registers, before which nothing was compared or
printed. -/
def run (ps : List Plain) (register : ℕ → ℕ) : Evaluation := ps.foldl next ⟨register, .none, []⟩

/-- Neither the flags nor what was printed before are of any use to an instruction. -/
theorem next_eq (e : Evaluation) (p : Plain) :
    (e.next p).register = (run [p] e.register).register ∧
      (e.next p).printed = e.printed ++ (run [p] e.register).printed := by
  cases p with
  | prn a => exact ⟨rfl, rfl⟩
  | _ => exact ⟨rfl, (List.append_nil _).symm⟩

theorem foldl_next_eq (ps : List Plain) (e : Evaluation) :
    (ps.foldl next e).register = (run ps e.register).register ∧
      (ps.foldl next e).printed = e.printed ++ (run ps e.register).printed := by
  induction ps generalizing e with
  | nil => exact ⟨rfl, (List.append_nil _).symm⟩
  | cons p ps ih =>
    obtain ⟨hr, hp⟩ := e.next_eq p
    obtain ⟨her, hep⟩ := ih (e.next p)
    obtain ⟨hrr, hrp⟩ := ih (run [p] e.register)
    rw [hr] at her hep
    constructor
    · exact her.trans hrr.symm
    · change (ps.foldl next (e.next p)).printed = e.printed ++ (ps.foldl next (run [p] _)).printed
      rw [hep, hrp, hp, List.append_assoc]

theorem next_register_of_ne {p : Plain} {r : ℕ} (h : ∀ a ∈ p.target?, a.val ≠ r)
    (e : Evaluation) : (e.next p).register r = e.register r := by
  cases p with
  | ldi a v | add a b | mul a b => exact Function.update_of_ne (h a rfl).symm _ _
  | cmp a b | prn a => rfl

/-- Instructions leave a register alone that none of them sets. -/
theorem foldl_next_register_of_ne {ps : List Plain} {r : ℕ}
    (h : ∀ p ∈ ps, ∀ a ∈ p.target?, a.val ≠ r) (e : Evaluation) :
    (ps.foldl next e).register r = e.register r := by
  induction ps generalizing e with
  | nil => rfl
  | cons p ps ih =>
    rw [List.forall_mem_cons] at h
    rw [List.foldl_cons, ih h.2, next_register_of_ne h.1]

end Evaluation

namespace Machine

variable {σ : Type} [Sink σ] {m m' n : Machine} {sink sink' s : σ} {j k : ℕ}
  {values later : List ℕ} {i : Instruction} {a : Fin 8}

/-- `k` steps from `m` to `m'` that leave the machine running, and the values that they print. -/
structure Passes (k : ℕ) (m : Machine) (sink : σ) (values : List ℕ) (m' : Machine) (sink' : σ) :
    Prop where
  runs : ∃ events, Runs k m sink events m' sink'
  prints : ∃ vs, Sink.emitAll vs sink = .ok () sink' ∧ vs.map UInt8.toNat = values

theorem Passes.refl (m : Machine) (sink : σ) : Passes 0 m sink [] m sink :=
  ⟨⟨_, .refl m sink⟩, [], rfl, rfl⟩

theorem Passes.trans (h : Passes j m sink values n s) (h' : Passes k n s later m' sink') :
    Passes (k + j) m sink (values ++ later) m' sink' := by
  obtain ⟨⟨events, hr⟩, vs, hv, rfl⟩ := h
  obtain ⟨⟨others, hr'⟩, ws, hw, rfl⟩ := h'
  exact ⟨⟨_, hr.trans hr'⟩, vs ++ ws, (Sink.emitAll_append hv ws).trans hw, List.map_append⟩

/-- An instruction that neither prints nor halts. -/
theorem passes_of_silent (hr : m.state = .running) (hi : m.instruction = .ok i)
    (hk : i.fault? m.cpu m.memory = none) (hprn : i.opcode ≠ .prn) (hhlt : i.opcode ≠ .hlt)
    (sink : σ) : Passes 1 m sink [] (m.after i) sink := by
  have hs := step_of_silent hr hi hk hprn sink
  have hst : (m.after i).state = .running := by rw [after_state, if_neg hhlt, hr]
  rw [hst] at hs
  have hrest : Runs 0 (m.step sink).machine (m.step sink).sink [] (m.after i) sink := by
    rw [hs]
    exact .refl _ _
  exact ⟨⟨_, .step (congrArg Step.result hs) hrest⟩, [], rfl, rfl⟩

theorem passes_code (hσ : Sink.NeverFails σ) (ps : List Plain) (sink : σ) {register : ℕ → ℕ}
    {p : ℕ} (hr : m.state = .running) (hregs : Table.numbers m.cpu.registers.cells = register)
    (hpc : m.cpu.pc.toNat = p) (hh : m.memory.Holds p (Plain.code ps))
    (hl : p + (Plain.code ps).length ≤ 255) :
    ∃ m' sink', Passes ps.length m sink (Evaluation.run ps register).printed m' sink' ∧
      m.Evaluates ps ⟨register, m.cpu.flags, []⟩ m' := by
  subst hpc
  have he : m.cpu.Shows ⟨register, m.cpu.flags, []⟩ := ⟨hregs, rfl⟩
  obtain ⟨m', sink', events, vs, hrun, hm', -, hem, hpr⟩ := runs_code hσ ps sink hr he hh hl
  rw [(Evaluation.foldl_next_eq ps _).2] at hpr
  exact ⟨m', sink', ⟨⟨events, hrun⟩, vs, hem, (List.append_cancel_left hpr).symm⟩, hm'⟩

theorem passes_jmp (hr : m.state = .running) (hp : m.cpu.pc < 254)
    (hh : m.memory.Holds m.cpu.pc.toNat (Instruction.encode ⟨.jmp, Plain.index a, 0⟩))
    (sink : σ) : Passes 1 m sink []
      { m with cpu.pc := (m.cpu.registers.value (Plain.index a)).toUInt64 } sink := by
  obtain ⟨x, y, hi, ho⟩ := instruction_of_holds hp hh
  cases ho
  exact passes_of_silent hr hi (Registers.missing?_eq_none_iff.mpr (Plain.index_lt a))
    Opcode.noConfusion Opcode.noConfusion sink

theorem passes_jeq (hr : m.state = .running) (hp : m.cpu.pc < 254)
    (hh : m.memory.Holds m.cpu.pc.toNat (Instruction.encode ⟨.jeq, Plain.index a, 0⟩))
    (sink : σ) : Passes 1 m sink [] { m with cpu.pc := if m.cpu.flags.equal then
      (m.cpu.registers.value (Plain.index a)).toUInt64 else m.cpu.pc + branchNotTaken } sink := by
  obtain ⟨x, y, hi, ho⟩ := instruction_of_holds hp hh
  cases ho
  let i : Instruction := ⟨.jeq, Plain.index a, y⟩
  have hk : i.fault? m.cpu m.memory = none := by
    change (if m.cpu.flags.equal then _ else _) = _
    rw [Registers.missing?_eq_none_iff.mpr (Plain.index_lt a), ite_self]
  have hafter := passes_of_silent hr hi hk Opcode.noConfusion Opcode.noConfusion sink
  cases hf : m.cpu.flags.equal with
  | false =>
    have ha : i.advance m.cpu m.memory = .skip := if_neg (Bool.eq_false_iff.mp hf)
    rw [after, ha] at hafter
    exact hafter
  | true =>
    have ha : i.advance m.cpu m.memory = .jump (m.cpu.registers.value (Plain.index a)) := if_pos hf
    rw [after, ha] at hafter
    exact hafter

theorem passes_push (hr : m.state = .running) (hp : m.cpu.pc < 254)
    (hh : m.memory.Holds m.cpu.pc.toNat (Instruction.encode ⟨.push, Plain.index a, 0⟩))
    (hs : m.cpu.registers.sp ≠ 0) (sink : σ) :
    let r := m.cpu.registers.setSp (m.cpu.registers.sp - 1)
    Passes 1 m sink [] { m with
      cpu.pc := m.cpu.pc + 2
      cpu.registers := r
      memory := m.memory.store r.sp (r.value (Plain.index a)) } sink := by
  obtain ⟨x, y, hi, ho⟩ := instruction_of_holds hp hh
  cases ho
  have hk : Instruction.fault? ⟨.push, Plain.index a, y⟩ m.cpu m.memory = none :=
    Option.or_eq_none_iff.mpr ⟨Registers.full?_eq_none_iff.mpr hs,
      Registers.missing?_eq_none_iff.mpr (Plain.index_lt a)⟩
  intro r
  rw [show r.sp = m.cpu.registers.sp - 1 from Registers.sp_setSp _ _]
  exact passes_of_silent hr hi hk Opcode.noConfusion Opcode.noConfusion sink

theorem passes_pop (hr : m.state = .running) (hp : m.cpu.pc < 254)
    (hh : m.memory.Holds m.cpu.pc.toNat (Instruction.encode ⟨.pop, Plain.index a, 0⟩))
    (hs : (m.cpu.registers.put (Plain.index a) (m.memory.cell m.cpu.registers.sp)).sp ≠ 255)
    (sink : σ) :
    let r := m.cpu.registers.put (Plain.index a) (m.memory.cell m.cpu.registers.sp)
    Passes 1 m sink [] { m with
      cpu.pc := m.cpu.pc + 2
      cpu.registers := r.setSp (r.sp + 1) } sink := by
  obtain ⟨x, y, hi, ho⟩ := instruction_of_holds hp hh
  cases ho
  have hk : Instruction.fault? ⟨.pop, Plain.index a, y⟩ m.cpu m.memory = none :=
    Option.or_eq_none_iff.mpr ⟨Registers.missing?_eq_none_iff.mpr (Plain.index_lt a),
      Registers.bare?_eq_none_iff.mpr hs⟩
  exact passes_of_silent hr hi hk Opcode.noConfusion Opcode.noConfusion sink

theorem passes_call (hr : m.state = .running) (hp : m.cpu.pc < 254)
    (hh : m.memory.Holds m.cpu.pc.toNat (Instruction.encode ⟨.call, Plain.index a, 0⟩))
    (hs : m.cpu.registers.sp ≠ 0) (sink : σ) :
    let r := m.cpu.registers.setSp (m.cpu.registers.sp - 1)
    Passes 1 m sink [] { m with
      cpu.pc := (r.value (Plain.index a)).toUInt64
      cpu.registers := r
      memory := m.memory.store r.sp (m.cpu.pc + 2).toUInt8 } sink := by
  obtain ⟨x, y, hi, ho⟩ := instruction_of_holds hp hh
  cases ho
  have hk : Instruction.fault? ⟨.call, Plain.index a, y⟩ m.cpu m.memory = none :=
    Option.or_eq_none_iff.mpr ⟨Registers.full?_eq_none_iff.mpr hs,
      Registers.missing?_eq_none_iff.mpr (Plain.index_lt a)⟩
  intro r
  rw [show r.sp = m.cpu.registers.sp - 1 from Registers.sp_setSp _ _]
  exact passes_of_silent hr hi hk Opcode.noConfusion Opcode.noConfusion sink

theorem passes_ret (hr : m.state = .running) (hp : m.cpu.pc < 254)
    (hh : m.memory.Holds m.cpu.pc.toNat (Instruction.encode ⟨.ret, 0, 0⟩))
    (hs : m.cpu.registers.sp ≠ 255) (sink : σ) :
    Passes 1 m sink [] { m with
      cpu.pc := (m.memory.cell m.cpu.registers.sp).toUInt64
      cpu.registers := m.cpu.registers.setSp (m.cpu.registers.sp + 1) } sink := by
  obtain ⟨x, y, hi, -⟩ := instruction_of_holds hp hh
  exact passes_of_silent hr hi (Registers.bare?_eq_none_iff.mpr hs) Opcode.noConfusion
    Opcode.noConfusion sink

theorem pc_lt_of_toNat (h : m.cpu.pc.toNat = k) (hk : k < 254) : m.cpu.pc < 254 := by
  rw [UInt64.lt_iff_toNat_lt, h]
  exact hk

/-- A run takes `k` cycles exactly, the last of which halts the machine. -/
def HaltsAfter (k : ℕ) (m : Machine) (sink : σ) (m' : Machine) (sink' : σ) : Prop :=
  m'.state = .halted ∧ ∃ events, ∀ (ω : Type) [Observer ω] (o : ω) (limit : ℕ),
    (limit < k → (Session.run limit ⟨m, sink, o⟩).2 = .abandoned) ∧
      (k ≤ limit → Session.run limit ⟨m, sink, o⟩ =
        (⟨m', sink', Observer.watch events o⟩, .stopped .halted))

theorem Passes.haltsAfter (h : Passes k m sink values n sink') (hr : n.state = .running)
    (hp : n.cpu.pc < 254) (hh : n.memory.Holds n.cpu.pc.toNat [Opcode.hlt.byte]) :
    HaltsAfter (k + 1) m sink { n with state := .halted } sink' := by
  obtain ⟨⟨events, hrun⟩, -⟩ := h
  obtain ⟨i, hi, -, hs⟩ := step_of_hlt hr hp hh sink'
  refine ⟨rfl, events ++ (n.begun i ++ n.ended i), fun ω _ o limit =>
    ⟨fun hle => ?_, fun hle => ?_⟩⟩
  · exact Session.run_of_le hrun (canFetch_of_instruction hr hi) (Nat.le_of_lt_succ hle) o
  · obtain ⟨l, rfl⟩ := Nat.exists_eq_add_of_le hle
    rw [Nat.add_assoc, Nat.add_comm 1, Session.run_of_runs hrun,
      Session.run_of_stopped (congrArg Step.result hs) State.noConfusion, hs]
    simp only [Observer.watch, List.foldl_append]

end Machine

end LS8
