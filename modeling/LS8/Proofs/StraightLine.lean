import LS8.Proofs.Emission
import LS8.Proofs.Layout
import LS8.Proofs.Run
import LS8.Proofs.Table

/-! Straight-line programs. Main statement: a program without jumps and without a stack, followed by
`HLT`, runs to its end and leaves what its evaluation on numbers gives. -/
namespace LS8

/-- An instruction that goes on to the next one and leaves the memory as it is. -/
inductive Plain where
  | ldi (a : Fin 8) (value : UInt8)
  | add (a b : Fin 8)
  | mul (a b : Fin 8)
  | cmp (a b : Fin 8)
  | prn (a : Fin 8)

/-- The registers, the flags and what has been printed. -/
structure Evaluation where
  register : ℕ → ℕ
  flags : Flags
  printed : List ℕ

namespace Evaluation

open Function (update)

def powerOn : Evaluation := ⟨update (fun _ => 0) 7 0xf4, .none, []⟩

def next (e : Evaluation) : Plain → Evaluation
  | .ldi a value => { e with register := update e.register a value.toNat }
  | .add a b =>
    { e with register := update e.register a ((e.register a + e.register b) % 256) }
  | .mul a b =>
    { e with register := update e.register a (e.register a * e.register b % 256) }
  | .cmp a b =>
    let x := e.register a
    let y := e.register b
    { e with flags := ⟨x = y, y < x, x < y⟩ }
  | .prn a => { e with printed := e.printed ++ [e.register a] }

end Evaluation

namespace Plain

/-- The byte that names a register. -/
def index (a : Fin 8) : UInt8 := .ofNat a

def instruction : Plain → Instruction
  | .ldi a value => ⟨.ldi, index a, value⟩
  | .add a b => ⟨.add, index a, index b⟩
  | .mul a b => ⟨.mul, index a, index b⟩
  | .cmp a b => ⟨.cmp, index a, index b⟩
  | .prn a => ⟨.prn, index a, 0⟩

/-- The bytes of instructions one after another. -/
def code (ps : List Plain) : List UInt8 := ps.flatMap fun p => p.instruction.encode

theorem toNat_index (a : Fin 8) : (index a).toNat = a := by
  have ha : a.val < 256 := Nat.lt_trans a.isLt (by decide)
  exact Nat.mod_eq_of_lt ha

theorem index_lt (a : Fin 8) : index a < 8 := by
  rw [UInt8.lt_iff_toNat_lt, toNat_index]
  exact a.isLt

theorem two_le_length_encode (p : Plain) : 2 ≤ p.instruction.encode.length := by
  rw [Instruction.length_encode]
  cases p <;> simp [instruction, Opcode.size, Opcode.operandCount]

theorem code_append (ps qs : List Plain) : code (ps ++ qs) = code ps ++ code qs :=
  List.flatMap_append

theorem code_cons (p : Plain) (ps : List Plain) :
    code (p :: ps) = p.instruction.encode ++ code ps := List.flatMap_cons

theorem code_singleton (p : Plain) : code [p] = p.instruction.encode := List.flatMap_singleton _ _

/-- The instruction `p` with any byte for an operand that it does not have. -/
inductive Reads : Plain → Instruction → Prop
  | ldi (a : Fin 8) (value : UInt8) : Reads (.ldi a value) ⟨.ldi, index a, value⟩
  | add (a b : Fin 8) : Reads (.add a b) ⟨.add, index a, index b⟩
  | mul (a b : Fin 8) : Reads (.mul a b) ⟨.mul, index a, index b⟩
  | cmp (a b : Fin 8) : Reads (.cmp a b) ⟨.cmp, index a, index b⟩
  | prn (a : Fin 8) (b : UInt8) : Reads (.prn a) ⟨.prn, index a, b⟩

variable {p : Plain} {i : Instruction}

theorem Reads.encode_eq (h : p.Reads i) : i.encode = p.instruction.encode := by
  cases h <;> rfl

theorem Reads.opcode_ne_hlt (h : p.Reads i) : i.opcode ≠ .hlt := by
  cases h <;> exact Opcode.noConfusion

theorem Reads.fault?_eq_none (h : p.Reads i) (c : Cpu) (m : Memory) : i.fault? c m = none := by
  cases h with
  | ldi a value => exact Registers.missing?_eq_none_iff.mpr (index_lt a)
  | prn a b => exact Registers.missing?_eq_none_iff.mpr (index_lt a)
  | _ a b =>
    exact Option.or_eq_none_iff.mpr ⟨Registers.missing?_eq_none_iff.mpr (index_lt a),
      Registers.missing?_eq_none_iff.mpr (index_lt b)⟩

theorem Reads.advance_eq (h : p.Reads i) (c : Cpu) (m : Memory) : i.advance c m = .next := by
  cases h <;> rfl

theorem Reads.memoryAfter_eq (h : p.Reads i) (c : Cpu) (m : Memory) : i.memoryAfter c m = m := by
  cases h <;> rfl

end Plain

/-- A processor has the registers and the flags of an evaluation. -/
structure Cpu.Shows (c : Cpu) (e : Evaluation) : Prop where
  registers : Table.numbers c.registers.cells = e.register
  flags : c.flags = e.flags

theorem Cpu.Shows.value {c : Cpu} {e : Evaluation} (h : c.Shows e) (a : Fin 8) :
    (c.registers.value (Plain.index a)).toNat = e.register a := by
  rw [← Registers.numbers_value, h.registers, Plain.toNat_index]

/-- One instruction is one step of the evaluation. -/
theorem Plain.Reads.next_eq {p : Plain} {i : Instruction} {c : Cpu} {e : Evaluation}
    (h : p.Reads i) (hc : c.Shows e) (m : Memory) :
    Table.numbers (i.registersAfter c m).cells = (e.next p).register ∧
      i.flagsAfter c = (e.next p).flags ∧
      e.printed ++ (i.printed c).map UInt8.toNat = (e.next p).printed := by
  cases h with
  | ldi a value =>
    refine ⟨?_, hc.flags, List.append_nil _⟩
    change Table.numbers (c.registers.put (index a) value).cells = _
    rw [Registers.numbers_put _ _ (index_lt a), hc.registers, toNat_index]
    rfl
  | add a b =>
    refine ⟨?_, hc.flags, List.append_nil _⟩
    change Table.numbers (c.registers.put (index a) _).cells = _
    rw [Registers.numbers_put _ _ (index_lt a), UInt8.toNat_add, hc.value, hc.value, hc.registers,
      toNat_index]
    rfl
  | mul a b =>
    refine ⟨?_, hc.flags, List.append_nil _⟩
    change Table.numbers (c.registers.put (index a) _).cells = _
    rw [Registers.numbers_put _ _ (index_lt a), UInt8.toNat_mul, hc.value, hc.value, hc.registers,
      toNat_index]
    rfl
  | cmp a b =>
    refine ⟨hc.registers, ?_, List.append_nil _⟩
    change Flags.compare (c.registers.value (index a)) (c.registers.value (index b)) = _
    simp only [Flags.compare, ← UInt8.toNat_inj, UInt8.lt_iff_toNat_lt, hc.value]
    rfl
  | prn a b =>
    refine ⟨hc.registers, hc.flags, ?_⟩
    change e.printed ++ [(c.registers.value (index a)).toNat] = e.printed ++ [e.register a]
    rw [hc.value]

/-- The instruction whose execution an event reports. -/
def Event.executed? : Event → Option Instruction
  | .executed i _ => some i
  | _ => none

namespace Machine

variable {σ : Type} [Sink σ] {m : Machine} {i : Instruction} {p : Plain}

theorem executed?_cycle (m : Machine) (i : Instruction) :
    (m.begun i ++ m.ended i).filterMap Event.executed? = [i] := by
  unfold begun ended
  by_cases hop : i.opcode = .hlt
  · rw [if_pos hop]
    rfl
  · rw [if_neg hop]
    rfl

theorem exists_reads (hp : m.cpu.pc < 254)
    (h : m.memory.Holds m.cpu.pc.toNat p.instruction.encode) :
    ∃ i, m.instruction = .ok i ∧ p.Reads i := by
  obtain ⟨a, b, hi, ho⟩ := instruction_of_holds hp h
  refine ⟨_, hi, ?_⟩
  cases p with
  | ldi r v => cases ho; exact .ldi r v
  | add r s => cases ho; exact .add r s
  | mul r s => cases ho; exact .mul r s
  | cmp r s => cases ho; exact .cmp r s
  | prn r => cases ho; exact .prn r b

theorem step_of_reads (h : p.Reads i) (hr : m.state = .running) (hi : m.instruction = .ok i)
    {sink s : σ} (he : Sink.emitAll (i.printed m.cpu) sink = .ok () s) :
    m.step sink = ⟨m.after i, s, m.begun i ++ m.ended i, .ok .running⟩ := by
  rw [step_of_running hr, cycle_of_emit hi (h.fault?_eq_none _ _) he, after_state,
    if_neg h.opcode_ne_hlt, hr]

/-- What a run of `ps` makes of a machine that shows `e`. -/
structure Evaluates (m : Machine) (ps : List Plain) (e : Evaluation) (m' : Machine) : Prop where
  state : m'.state = .running
  memory : m'.memory = m.memory
  pc : m'.cpu.pc.toNat = m.cpu.pc.toNat + (Plain.code ps).length
  shows : m'.cpu.Shows (ps.foldl Evaluation.next e)

theorem Evaluates.trans {m n m' : Machine} {ps qs : List Plain} {e : Evaluation}
    (h : m.Evaluates ps e n) (h' : n.Evaluates qs (ps.foldl Evaluation.next e) m') :
    m.Evaluates (ps ++ qs) e m' := by
  refine ⟨h'.state, h'.memory.trans h.memory, ?_, ?_⟩
  · rw [h'.pc, h.pc, Plain.code_append, List.length_append, Nat.add_assoc]
  · rw [List.foldl_append]
    exact h'.shows

theorem evaluates_after {e : Evaluation} (h : p.Reads i) (hr : m.state = .running)
    (hi : m.instruction = .ok i) (he : m.cpu.Shows e) : m.Evaluates [p] e (m.after i) := by
  obtain ⟨hregs, hflags, -⟩ := h.next_eq he m.memory
  refine ⟨?_, ?_, ?_, ?_, ?_⟩
  · rw [after_state, if_neg h.opcode_ne_hlt, hr]
  · rw [after_memory, h.memoryAfter_eq]
  · rw [after_pc_toNat hi, h.advance_eq, Plain.code_singleton, ← h.encode_eq,
      Instruction.length_encode]
  · rw [after_registers]
    exact hregs
  · rw [after_flags]
    exact hflags

/-- The induction is on the instructions. Since each takes two cells at least, the last one begins
where it can still be fetched. -/
theorem runs_code (hσ : Sink.NeverFails σ) (ps : List Plain) {m : Machine} {e : Evaluation}
    (sink : σ) (hr : m.state = .running) (he : m.cpu.Shows e)
    (hh : m.memory.Holds m.cpu.pc.toNat (Plain.code ps))
    (hl : m.cpu.pc.toNat + (Plain.code ps).length ≤ 255) :
    ∃ m' sink' events vs, Runs ps.length m sink events m' sink' ∧ m.Evaluates ps e m' ∧
      (events.filterMap Event.executed?).map Instruction.encode =
        ps.map (fun p => p.instruction.encode) ∧
      Sink.emitAll vs sink = .ok () sink' ∧
      (ps.foldl Evaluation.next e).printed = e.printed ++ vs.map UInt8.toNat := by
  induction ps generalizing m e sink with
  | nil =>
    refine ⟨m, sink, [], [], .refl m sink, ⟨hr, rfl, rfl, he⟩, rfl, rfl, ?_⟩
    exact (List.append_nil _).symm
  | cons p ps ih =>
    rw [Plain.code_cons] at hh hl
    rw [List.length_append] at hl
    have hp : m.cpu.pc < 254 := by
      have h2 := p.two_le_length_encode
      rw [UInt64.lt_iff_toNat_lt]
      change m.cpu.pc.toNat < 254
      omega
    obtain ⟨i, hi, hpi⟩ := exists_reads hp hh.left
    obtain ⟨s, hs⟩ := hσ.emitAll (i.printed m.cpu) sink
    have hstep := step_of_reads hpi hr hi hs
    have hn := evaluates_after hpi hr hi he
    have hpc : (m.after i).cpu.pc.toNat = m.cpu.pc.toNat + p.instruction.encode.length := by
      rw [hn.pc, Plain.code_singleton]
    obtain ⟨m', sink', events, vs, hrun, hm', hx, hem, hpr⟩ := ih s hn.state hn.shows
      (by rw [hn.memory, hpc]; exact hh.right) (by rw [hpc]; omega)
    obtain ⟨-, -, hprinted⟩ := hpi.next_eq he m.memory
    refine ⟨m', sink', (m.step sink).events ++ events, i.printed m.cpu ++ vs, ?_, hn.trans hm', ?_,
      (Sink.emitAll_append hs vs).trans hem, ?_⟩
    · exact .step (congrArg Step.result hstep) (hstep ▸ hrun)
    · rw [hstep, List.filterMap_append, executed?_cycle, List.map_append, hx, List.map_singleton,
        hpi.encode_eq]
      rfl
    · rw [List.map_append, ← List.append_assoc, hprinted]
      exact hpr

theorem step_of_hlt (hr : m.state = .running) (hp : m.cpu.pc < 254)
    (hh : m.memory.Holds m.cpu.pc.toNat [Opcode.hlt.byte]) (sink : σ) :
    ∃ i, m.instruction = .ok i ∧ i.encode = [Opcode.hlt.byte] ∧
      m.step sink = ⟨{ m with state := .halted }, sink, m.begun i ++ m.ended i, .ok .halted⟩ := by
  obtain ⟨a, b, hi, -⟩ := instruction_of_holds (i := ⟨.hlt, 0, 0⟩) hp hh
  exact ⟨_, hi, rfl, step_of_silent hr hi rfl Opcode.noConfusion sink⟩

theorem shows_powerOn : Cpu.initial.Shows .powerOn := by
  refine ⟨?_, rfl⟩
  have hz : Table.numbers Registers.zero.cells = fun _ => 0 := by
    funext x
    unfold Table.numbers Registers.zero
    rw [Vector.getElem?_replicate]
    split_ifs <;> rfl
  change Table.numbers (Registers.zero.setSp Cpu.stackBase).cells = _
  rw [Registers.numbers_setSp, hz]
  rfl

/-- The run of a straight-line program that ends with `HLT`: it is over after one cycle for each
instruction, and no limit below that lets it end. -/
theorem run_straightLine {σ : Type} [Sink σ] (hσ : Sink.NeverFails σ) (ps : List Plain)
    (hl : (Plain.code ps).length ≤ 253) (sink : σ) :
    let e := ps.foldl Evaluation.next .powerOn
    ∃ m n t events vs, withProgram (Plain.code ps ++ [Opcode.hlt.byte]) = .ok m ∧
      (∀ (ω : Type) [Observer ω] (o : ω) (limit : ℕ),
        (limit ≤ ps.length → (Session.run limit ⟨m, sink, o⟩).2 = .abandoned) ∧
        (ps.length + 1 ≤ limit → Session.run limit ⟨m, sink, o⟩ =
          (⟨n, t, Observer.watch events o⟩, .stopped .halted))) ∧
      n.cpu.pc.toNat = (Plain.code ps).length ∧ n.memory = m.memory ∧ n.state = .halted ∧
      (events.filterMap Event.executed?).map Instruction.encode =
        ps.map (fun p => p.instruction.encode) ++ [[Opcode.hlt.byte]] ∧
      Table.numbers n.cpu.registers.cells = e.register ∧ n.cpu.flags = e.flags ∧
      Sink.emitAll vs sink = .ok () t ∧ vs.map UInt8.toNat = e.printed := by
  intro e
  have hlen : (Plain.code ps ++ [Opcode.hlt.byte]).length ≤ 256 := by
    rw [List.length_append, List.length_singleton]
    omega
  have hh := Memory.holds_ofImage hlen
  let m : Machine := ⟨.initial, .ofImage (Plain.code ps ++ [Opcode.hlt.byte]), .running⟩
  obtain ⟨n, t, events, vs, hrun, hn, hx, hem, hpr⟩ :=
    runs_code hσ ps (m := m) sink rfl shows_powerOn hh.left (by change 0 + _ ≤ 255; omega)
  have hpc : n.cpu.pc.toNat = (Plain.code ps).length := hn.pc.trans (Nat.zero_add _)
  have hp : n.cpu.pc < 254 := by
    rw [UInt64.lt_iff_toNat_lt, hpc]
    exact Nat.lt_succ_of_le hl
  have hhlt : n.memory.Holds n.cpu.pc.toNat [Opcode.hlt.byte] := by
    rw [hn.memory, hn.pc]
    exact hh.right
  obtain ⟨i, hi, hie, hs⟩ := step_of_hlt hn.state hp hhlt t
  refine ⟨m, { n with state := .halted }, t, events ++ (n.begun i ++ n.ended i), vs,
    withProgram_of_le hlen, fun ω _ o limit => ⟨fun hle => ?_, fun hle => ?_⟩, hpc, hn.memory, rfl,
    ?_, hn.shows.registers, hn.shows.flags, hem, hpr.symm⟩
  · exact Session.run_of_le hrun (canFetch_of_instruction hn.state hi) hle o
  · obtain ⟨k, rfl⟩ := Nat.exists_eq_add_of_le hle
    rw [Nat.add_assoc, Nat.add_comm 1, Session.run_of_runs hrun,
      Session.run_of_stopped (congrArg Step.result hs) State.noConfusion, hs]
    simp only [Observer.watch, List.foldl_append]
  · rw [List.filterMap_append, executed?_cycle, List.map_append, hx, List.map_singleton, hie]

/-- A sum that wraps, and a comparison with the stack pointer. -/
def doubling : List Plain := [.ldi 0 200, .add 0 0, .prn 0, .cmp 0 7, .prn 7]

theorem run_straightLine_doubling : Sink.NeverFails Collector ∧
    (Plain.code doubling).length ≤ 253 ∧
      ∃ m n t, withProgram (Plain.code doubling ++ [Opcode.hlt.byte]) = .ok m ∧
        Session.run 6 ⟨m, Collector.empty, ()⟩ = (⟨n, t, ()⟩, .stopped .halted) ∧
        n.cpu.pc.toNat = 13 ∧ n.cpu.flags = ⟨false, false, true⟩ ∧
        t.values.toList.map UInt8.toNat = [144, 0xf4] := by
  have hl : (Plain.code doubling).length ≤ 253 := by decide
  obtain ⟨m, n, t, events, vs, hm, hrun, hpc, -, -, -, -, hf, hem, hpr⟩ :=
    run_straightLine Collector.neverFails doubling hl .empty
  refine ⟨Collector.neverFails, hl, m, n, t, hm, ?_, hpc, hf, ?_⟩
  · exact (hrun Unit () 6).2 (by decide)
  · rw [Collector.emitAll_eq] at hem
    cases hem
    have hv : (Collector.empty.values ++ vs.toArray).toList = vs := by simp [Collector.empty]
    exact (congrArg (List.map UInt8.toNat) hv).trans hpr

end Machine

end LS8
