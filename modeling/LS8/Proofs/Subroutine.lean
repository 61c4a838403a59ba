import LS8.Proofs.Blocks

/-! A subroutine. Main statement: whatever straight-line body it has, a program that calls it for one
argument after another prints what the calls print, and leaves no trace of them in memory but the
last return address. -/
namespace LS8.Subroutine

open Machine
open Function (update)
open scoped Plain

/-- To the subroutine, whose address is in register 1. -/
def call : Instruction := ⟨.call, Plain.index 1, 0⟩

/-- Back behind the call. -/
def ret : Instruction := ⟨.ret, 0, 0⟩

/-- A call for each argument, which it finds in register 0, and then the end. -/
def calls (vs : List UInt8) : List UInt8 :=
  vs.flatMap (fun v => Plain.code [.ldi 0 v] ++ call.encode) ++ [Opcode.hlt.byte]

def routine (body : List Plain) : List UInt8 := Plain.code body ++ ret.encode

/-- The address of the subroutine. -/
def start (vs : List UInt8) : ℕ := 4 + 5 * vs.length

def image (vs : List UInt8) (body : List Plain) : List UInt8 :=
  Plain.code [.ldi 1 (.ofNat (start vs))] ++ calls vs ++ routine body

/-- The registers in front of a call. What is not fixed there is as the last call has left it. -/
def waiting (entry : ℕ) (carried : ℕ → ℕ) : ℕ → ℕ
  | 1 => entry
  | 7 => 0xf4
  | r => carried r

/-- The registers in which the body of the subroutine begins. -/
def called (entry argument : ℕ) (carried : ℕ → ℕ) : ℕ → ℕ
  | 0 => argument
  | 1 => entry
  | 7 => 0xf3
  | r => carried r

/-- What the body does in the call for this argument. -/
def round (entry : ℕ) (body : List Plain) (argument : ℕ) (carried : ℕ → ℕ) : Evaluation :=
  Evaluation.run body (called entry argument carried)

/-- What is printed in the calls for these arguments. -/
def printed (entry : ℕ) (body : List Plain) : List UInt8 → (ℕ → ℕ) → List ℕ
  | [], _ => []
  | v :: vs, carried =>
    let e := round entry body v.toNat carried
    e.printed ++ printed entry body vs e.register

/-- A machine in front of the calls for these arguments, the first of which is at address `p`. -/
structure Ready (entry : ℕ) (body : List Plain) (vs : List UInt8) (p : ℕ) (carried : ℕ → ℕ)
    (m : Machine) : Prop where
  state : m.state = .running
  pc : m.cpu.pc.toNat = p
  ahead : m.memory.Holds p (calls vs)
  placed : m.memory.Holds entry (routine body)
  shows : Table.numbers m.cpu.registers.cells = waiting entry carried

variable {entry p : ℕ} {body : List Plain} {v : UInt8} {vs : List UInt8} {carried : ℕ → ℕ}

theorem calls_cons (v : UInt8) (vs : List UInt8) :
    calls (v :: vs) = Plain.code [.ldi 0 v] ++ call.encode ++ calls vs :=
  List.append_assoc _ _ _

theorem length_calls (vs : List UInt8) : (calls vs).length = 5 * vs.length + 1 := by
  induction vs with
  | nil => rfl
  | cons v vs ih =>
    rw [calls_cons, List.length_append, ih, List.length_cons]
    change 5 + _ = _
    omega

theorem length_routine (body : List Plain) :
    (routine body).length = (Plain.code body).length + 1 := List.length_append

theorem length_image (vs : List UInt8) (body : List Plain) :
    (image vs body).length = start vs + (Plain.code body).length + 1 := by
  rw [image, List.length_append, List.length_append, length_calls, length_routine, start]
  change 3 + _ + _ = _
  omega

/-- The argument goes into register 0, and the call moves the stack pointer down. -/
theorem update_waiting (entry argument : ℕ) (carried : ℕ → ℕ) :
    update (update (waiting entry carried) 0 argument) 7 0xf3 = called entry argument carried := by
  funext r
  match r with
  | 0 | 1 | 2 | 3 | 4 | 5 | 6 | 7 | r + 8 => rfl

/-- The return moves the stack pointer up again, and the body has left the address of the subroutine
as it was. -/
theorem update_round (hb : ∀ q ∈ body, ∀ a ∈ q.target?, a ≠ 1 ∧ a ≠ 7) (argument : ℕ) :
    let e := round entry body argument carried
    e.register 7 = 0xf3 ∧ update e.register 7 0xf4 = waiting entry e.register := by
  intro e
  have hkeep : ∀ k : Fin 8, (∀ q ∈ body, ∀ a ∈ q.target?, a ≠ k) →
      e.register k = called entry argument carried k := by
    intro k hk
    refine Evaluation.foldl_next_register_of_ne (fun q hq a ha he => ?_) _
    exact hk q hq a ha (Fin.ext he)
  have h1 : e.register 1 = entry := hkeep 1 fun q hq a ha => (hb q hq a ha).1
  have h7 : e.register 7 = 0xf3 := hkeep 7 fun q hq a ha => (hb q hq a ha).2
  refine ⟨h7, ?_⟩
  funext r
  match r with
  | 1 => exact h1
  | 0 | 2 | 3 | 4 | 5 | 6 | 7 | r + 8 => rfl

variable {σ : Type} [Sink σ] {m : Machine}

/-- The two instructions of a call, which leave its return address on the stack. -/
theorem Ready.passes_call (hσ : Sink.NeverFails σ) (h : Ready entry body (v :: vs) p carried m)
    (hp : p + 5 ≤ 242) (sink : σ) :
    ∃ m' sink', Passes 2 m sink [] m' sink' ∧ m'.state = .running ∧ m'.cpu.pc.toNat = entry ∧
      m'.memory = m.memory.store 0xf3 (.ofNat (p + 5)) ∧
      Table.numbers m'.cpu.registers.cells = called entry v.toNat carried := by
  have hahead := h.ahead
  rw [calls_cons] at hahead
  obtain ⟨m₁, s, hldi, hm₁⟩ := passes_code hσ [.ldi 0 v] sink h.state h.shows h.pc
    hahead.left.left (by change p + 3 ≤ 255; omega)
  have hpc : m₁.cpu.pc.toNat = p + 3 := by
    rw [hm₁.pc, h.pc]
    rfl
  have hlt : m₁.cpu.pc < 254 := pc_lt_of_toNat hpc (by omega)
  have hregs : Table.numbers m₁.cpu.registers.cells = update (waiting entry carried) 0 v.toNat :=
    hm₁.shows.registers
  have hsp : m₁.cpu.registers.sp = 0xf4 := UInt8.toNat_inj.mp (congrFun hregs 7)
  have hcall : m₁.memory.Holds m₁.cpu.pc.toNat call.encode := by
    rw [hm₁.memory, hpc]
    exact hahead.left.right
  have hpass := Machine.passes_call hm₁.state hlt hcall (by rw [hsp]; decide) s
  have hregs' : Table.numbers (m₁.cpu.registers.setSp (m₁.cpu.registers.sp - 1)).cells =
      called entry v.toNat carried := by
    rw [Registers.numbers_setSp, hregs, hsp]
    exact update_waiting entry v.toNat carried
  have hret : (m₁.cpu.pc + 2).toUInt8 = .ofNat (p + 5) := by
    apply UInt8.toNat_inj.mp
    rw [returnAddress_toNat hlt, hpc, UInt8.toNat_ofNat']
    omega
  refine ⟨_, s, hldi.trans hpass, hm₁.state, ?_, ?_, hregs'⟩
  · rw [UInt8.toNat_toUInt64]
    exact congrFun hregs' 1
  · simp only [Registers.sp_setSp, hsp, hret, hm₁.memory]
    rfl

/-- The body of the subroutine, and the return to the address on the stack. -/
theorem passes_routine (hσ : Sink.NeverFails σ) (hr : m.state = .running)
    (hpc : m.cpu.pc.toNat = entry) (hh : m.memory.Holds entry (routine body))
    (hregs : Table.numbers m.cpu.registers.cells = called entry v.toNat carried)
    (hb : ∀ q ∈ body, ∀ a ∈ q.target?, a ≠ 1 ∧ a ≠ 7)
    (hl : entry + (Plain.code body).length ≤ 242) (sink : σ) :
    let e := round entry body v.toNat carried
    ∃ m' sink', Passes (body.length + 1) m sink e.printed m' sink' ∧ m'.state = .running ∧
      m'.cpu.pc.toNat = (m.memory.cell 0xf3).toNat ∧ m'.memory = m.memory ∧
      Table.numbers m'.cpu.registers.cells = waiting entry e.register := by
  intro e
  obtain ⟨m₁, s, hbody, hm₁⟩ := passes_code hσ body sink hr hregs hpc hh.left (by omega)
  have hpc₁ : m₁.cpu.pc.toNat = entry + (Plain.code body).length := by rw [hm₁.pc, hpc]
  have hregs₁ : Table.numbers m₁.cpu.registers.cells = e.register := by
    rw [hm₁.shows.registers]
    exact (Evaluation.foldl_next_eq body _).1
  obtain ⟨h7, hwait⟩ := update_round hb v.toNat
  have hsp : m₁.cpu.registers.sp = 0xf3 :=
    UInt8.toNat_inj.mp ((congrFun hregs₁ 7).trans h7)
  have hret : m₁.memory.Holds m₁.cpu.pc.toNat ret.encode := by
    rw [hm₁.memory, hpc₁]
    exact hh.right
  have hpass := passes_ret hm₁.state (pc_lt_of_toNat hpc₁ (by omega)) hret
    (by rw [hsp]; decide) s
  have hall := hbody.trans hpass
  rw [List.append_nil, Nat.add_comm 1] at hall
  refine ⟨_, s, hall, hm₁.state, ?_, hm₁.memory, ?_⟩
  · rw [UInt8.toNat_toUInt64, hsp, hm₁.memory]
  · rw [Registers.numbers_setSp, hregs₁, hsp]
    exact hwait

/-- A call comes back behind itself. -/
theorem Ready.passes_round (hσ : Sink.NeverFails σ) (h : Ready entry body (v :: vs) p carried m)
    (hb : ∀ q ∈ body, ∀ a ∈ q.target?, a ≠ 1 ∧ a ≠ 7) (hp : p + 5 * (v :: vs).length < entry)
    (hl : entry + (Plain.code body).length ≤ 242) (sink : σ) :
    let e := round entry body v.toNat carried
    ∃ m' sink', Passes (body.length + 3) m sink e.printed m' sink' ∧
      Ready entry body vs (p + 5) e.register m' ∧
      m'.memory = m.memory.store 0xf3 (.ofNat (p + 5)) := by
  intro e
  rw [List.length_cons] at hp
  obtain ⟨m₁, s₁, hcall, hr₁, hpc₁, hmem₁, hregs₁⟩ := h.passes_call hσ (by omega) sink
  have hsub : m₁.memory.Holds entry (routine body) := by
    rw [hmem₁]
    refine h.placed.store _ (Or.inr ?_)
    rw [length_routine]
    change entry + ((Plain.code body).length + 1) ≤ 243
    omega
  obtain ⟨m₂, s₂, hround, hr₂, hpc₂, hmem₂, hregs₂⟩ :=
    passes_routine hσ hr₁ hpc₁ hsub hregs₁ hb hl s₁
  refine ⟨m₂, s₂, hcall.trans hround, ⟨hr₂, ?_, ?_, ?_, hregs₂⟩, hmem₂.trans hmem₁⟩
  · rw [hpc₂, hmem₁, Memory.cell_store_self, UInt8.toNat_ofNat']
    omega
  · have hahead := h.ahead
    rw [calls_cons] at hahead
    rw [hmem₂, hmem₁]
    refine hahead.right.store _ (Or.inr ?_)
    rw [length_calls]
    change p + 5 + (5 * vs.length + 1) ≤ 243
    omega
  · rw [hmem₂]
    exact hsub

/-- The induction is on the arguments. Each call stores its return address where the one before has
stored its own. -/
theorem Ready.passes_rounds (hσ : Sink.NeverFails σ) (h : Ready entry body vs p carried m)
    (hb : ∀ q ∈ body, ∀ a ∈ q.target?, a ≠ 1 ∧ a ≠ 7) (hp : p + 5 * vs.length < entry)
    (hl : entry + (Plain.code body).length ≤ 242) (sink : σ) :
    ∃ carried' m' sink', Passes (vs.length * (body.length + 3)) m sink
        (printed entry body vs carried) m' sink' ∧
      Ready entry body [] (p + 5 * vs.length) carried' m' ∧
      (∀ x ≠ 0xf3, m'.memory.cell x = m.memory.cell x) ∧
      m'.memory.cell 0xf3 =
        if vs = [] then m.memory.cell 0xf3 else .ofNat (p + 5 * vs.length) := by
  induction vs generalizing p carried m sink with
  | nil =>
    rw [List.length_nil, Nat.zero_mul]
    exact ⟨carried, m, sink, .refl m sink, h, fun x _ => rfl, (if_pos rfl).symm⟩
  | cons v vs ih =>
    obtain ⟨m₁, s₁, hround, h₁, hmem₁⟩ := h.passes_round hσ hb hp hl sink
    rw [List.length_cons] at hp ⊢
    obtain ⟨carried', m', s', hrest, h', hcell, htop⟩ := ih h₁ (by omega) s₁
    rw [Nat.succ_mul]
    rw [show p + 5 + 5 * vs.length = p + 5 * (vs.length + 1) by omega] at h' htop
    refine ⟨carried', m', s', hround.trans hrest, h', fun x hx => ?_, ?_⟩
    · rw [hcell x hx, hmem₁, Memory.cell_store_of_ne _ _ hx]
    · rw [htop, hmem₁, Memory.cell_store_self, if_neg (List.cons_ne_nil v vs)]
      split_ifs with hvs
      · rw [hvs, List.length_nil]
      · rfl

theorem passes_start (hσ : Sink.NeverFails σ) (vs : List UInt8) (body : List Plain)
    (hl : start vs + (Plain.code body).length ≤ 242) (sink : σ) :
    ∃ m' sink', Passes 1 ⟨.initial, .ofImage (image vs body), .running⟩ sink [] m' sink' ∧
      Ready (start vs) body vs 3 Evaluation.powerOn.register m' ∧
      m'.memory = .ofImage (image vs body) := by
  have hlen : (image vs body).length ≤ 256 := by
    rw [length_image]
    omega
  have hh := Memory.holds_ofImage hlen
  obtain ⟨m', s', hrun, hm'⟩ := passes_code hσ [.ldi 1 (.ofNat (start vs))]
    (m := ⟨.initial, .ofImage (image vs body), .running⟩) sink rfl
    shows_powerOn.registers rfl hh.left.left (by change 3 ≤ 255; decide)
  have hplaced := hh.right
  rw [List.length_append, length_calls] at hplaced
  change Memory.Holds _ (0 + (3 + (5 * vs.length + 1))) _ at hplaced
  rw [show 0 + (3 + (5 * vs.length + 1)) = start vs by unfold start; omega] at hplaced
  refine ⟨m', s', hrun, ⟨hm'.state, hm'.pc, ?_, ?_, ?_⟩, hm'.memory⟩
  · rw [hm'.memory]
    exact hh.left.right
  · rw [hm'.memory]
    exact hplaced
  · have hentry : (UInt8.ofNat (start vs)).toNat = start vs := by
      rw [UInt8.toNat_ofNat']
      omega
    rw [hm'.shows.registers]
    funext r
    match r with
    | 1 => exact hentry
    | 0 | 2 | 3 | 4 | 5 | 6 | 7 | r + 8 => rfl

/-- The run of a program that calls a subroutine for each of `vs`. The subroutine may have any body
that fits below the stack and leaves registers 1 and 7 alone. -/
theorem run_calls {σ : Type} [Sink σ] (hσ : Sink.NeverFails σ) (vs : List UInt8)
    (body : List Plain) (hb : ∀ q ∈ body, ∀ a ∈ q.target?, a ≠ 1 ∧ a ≠ 7)
    (hl : start vs + (Plain.code body).length ≤ 242) (sink : σ) :
    ∃ m m' sink' outs, withProgram (image vs body) = .ok m ∧
      HaltsAfter (2 + vs.length * (body.length + 3)) m sink m' sink' ∧
      m'.cpu.pc.toNat = 3 + 5 * vs.length ∧ m'.cpu.registers.value 7 = 0xf4 ∧
      Sink.emitAll outs sink = .ok () sink' ∧
      outs.map UInt8.toNat = printed (start vs) body vs Evaluation.powerOn.register ∧
      (∀ x ≠ 0xf3, m'.memory.cell x = m.memory.cell x) ∧
      (m'.memory.cell 0xf3).toNat =
        if vs = [] then (m.memory.cell 0xf3).toNat else 3 + 5 * vs.length := by
  have hlen : (image vs body).length ≤ 256 := by
    rw [length_image]
    omega
  obtain ⟨m₁, s₁, hstart, h₁, hmem₁⟩ := passes_start hσ vs body hl sink
  obtain ⟨carried, m₂, s₂, hrounds, h₂, hcell, htop⟩ :=
    h₁.passes_rounds hσ hb (by unfold start; omega) hl s₁
  have hall := hstart.trans hrounds
  have hstop : m₂.memory.Holds m₂.cpu.pc.toNat [Opcode.hlt.byte] := by
    rw [h₂.pc]
    exact h₂.ahead
  unfold start at hl
  have hhalt := hall.haltsAfter h₂.state (pc_lt_of_toNat h₂.pc (by omega)) hstop
  rw [show vs.length * (body.length + 3) + 1 + 1 = 2 + vs.length * (body.length + 3) by
    omega] at hhalt
  obtain ⟨outs, hem, hout⟩ := hall.prints
  rw [hmem₁] at hcell htop
  refine ⟨_, _, s₂, outs, withProgram_of_le hlen, hhalt, h₂.pc, ?_, hem, hout, hcell, ?_⟩
  · exact UInt8.toNat_inj.mp (congrFun h₂.shows 7)
  · change (m₂.memory.cell 0xf3).toNat = _
    rw [htop]
    split_ifs
    · rfl
    · rw [UInt8.toNat_ofNat']
      omega

/-- Multiplies the argument by itself and adds it to what register 2 holds, which it prints. -/
def adding : List Plain := [.mul 0 0, .add 2 0, .prn 2]

theorem run_calls_adding : Sink.NeverFails Collector ∧
    (∀ q ∈ adding, ∀ a ∈ q.target?, a ≠ 1 ∧ a ≠ 7) ∧
      start [3, 4, 10] + (Plain.code adding).length ≤ 242 ∧
      ∃ m m' t, withProgram (image [3, 4, 10] adding) = .ok m ∧
        HaltsAfter 20 m Collector.empty m' t ∧ m'.cpu.pc.toNat = 18 ∧
        t.values.toList.map UInt8.toNat = [9, 25, 125] ∧ (m'.memory.cell 0xf3).toNat = 18 := by
  have hb : ∀ q ∈ adding, ∀ a ∈ q.target?, a ≠ 1 ∧ a ≠ 7 := by decide
  have hl : start [3, 4, 10] + (Plain.code adding).length ≤ 242 := by decide
  obtain ⟨m, m', t, outs, hm, hrun, hpc, -, hem, hout, -, htop⟩ :=
    run_calls Collector.neverFails [3, 4, 10] adding hb hl .empty
  refine ⟨Collector.neverFails, hb, hl, m, m', t, hm, hrun, hpc, ?_, htop⟩
  rw [Collector.emitAll_eq] at hem
  cases hem
  have hv : (Collector.empty.values ++ outs.toArray).toList = outs := by simp [Collector.empty]
  exact (congrArg (List.map UInt8.toNat) hv).trans hout

end LS8.Subroutine
