import LS8.Proofs.Calls
import LS8.Proofs.Printing
import LS8.Trace

/-! What is told of a run. Main statement: the callbacks of a trace, the log and the output agree on
which cycles there were and on what each has done. -/
namespace LS8

inductive Callback where
  | fetched (cpu : Cpu) (bytes : Fetched)
  | executed (instruction : Instruction) (cpu : Cpu)

/-- The trace that keeps all its callbacks. -/
structure Recorder where
  calls : List Callback

instance : Trace Recorder where
  fetched cpu bytes r := (⟨r.calls ++ [.fetched cpu bytes]⟩, [])
  executed i cpu r := (⟨r.calls ++ [.executed i cpu]⟩, [])

namespace Event

def callback? : Event → Option Callback
  | .fetched cpu bytes => some (.fetched cpu bytes)
  | .logged _ => none
  | .executed i cpu => some (.executed i cpu)

def record? : Event → Option Log.Record
  | .logged record => some record
  | _ => none

end Event

theorem Recorder.watch_eq (events : List Event) (j : Journal Recorder) :
    Observer.watch events j = ⟨⟨j.trace.calls ++ events.filterMap Event.callback?⟩,
      j.log ++ events.filterMap Event.record?⟩ := by
  induction events generalizing j with
  | nil => simp [Observer.watch]
  | cons e events ih =>
    change Observer.watch events (Observer.observe e j) = _
    rw [ih]
    obtain ⟨⟨calls⟩, log⟩ := j
    cases e <;>
      simp [Observer.observe, Journal.observe, Trace.fetched, Trace.executed, Event.callback?,
        Event.record?, List.filterMap_cons]

namespace Machine

variable {m : Machine} {i : Instruction} {e : Error} {st : State}

/-- The log of a cycle that begins at `m` and answers `r`. -/
def records (m : Machine) (r : Except Error State) : List Log.Record :=
  (match m.instruction with
    | .ok i => .decoded m.cpu.pc i :: if i.opcode = .hlt then [.halted m.cpu.pc] else []
    | .error _ => []) ++
  match r with
  | .ok _ => []
  | .error e => [.fault m.cpu.pc e]

/-- That log as text. -/
def lines (m : Machine) (r : Except Error State) : List String :=
  let pc := Log.address m.cpu.pc
  (match m.instruction with
    | .ok i => ("TRACE " ++ (pc ++ ": " ++ i.text)) ::
      if i.opcode = .hlt then ["DEBUG " ++ ("halted at " ++ pc)] else []
    | .error _ => []) ++
  match r with
  | .ok _ => []
  | .error e => ["ERROR " ++ ("fault at " ++ pc ++ ": " ++ e.message)]

theorem text_records (m : Machine) (r : Except Error State) :
    (m.records r).map Log.Record.text = m.lines r := by
  unfold records lines
  rw [List.map_append]
  congr 1
  · cases m.instruction with
    | error e => rfl
    | ok i =>
      by_cases hop : i.opcode = .hlt
      · simp only [hop, if_true]
        rfl
      · simp only [hop, if_false]
        rfl
  · cases r <;> rfl

theorem fetch_eq_ok_iff {bytes : Fetched} : m.fetch = .ok bytes ↔
    m.memory.read m.cpu.pc = .ok bytes.op ∧ m.memory.read (m.cpu.pc + 1) = .ok bytes.a ∧
      m.memory.read (m.cpu.pc + 2) = .ok bytes.b := by
  unfold fetch
  cases m.memory.read m.cpu.pc with
  | error e => simp [bind, Except.bind]
  | ok op =>
    cases m.memory.read (m.cpu.pc + 1) with
    | error e => simp [bind, Except.bind]
    | ok a =>
      cases m.memory.read (m.cpu.pc + 2) with
      | error e => simp [bind, Except.bind]
      | ok b =>
        obtain ⟨op', a', b'⟩ := bytes
        simp [bind, Except.bind, pure, Except.pure]

/-- What a trace is told of a cycle that fails: a fetch and no more, if it has come to that. -/
def lone (m : Machine) : Option (Cpu × Fetched) :=
  match m.fetch with
  | .ok bytes => some (m.cpu, bytes)
  | .error _ => none

theorem isSome_lone (m : Machine) : m.lone.isSome = m.fetch.isOk := by
  unfold lone
  cases m.fetch <;> rfl

theorem of_lone_eq_some {g : Cpu × Fetched} (h : m.lone = some g) :
    g.1 = m.cpu ∧ m.fetch = .ok g.2 := by
  unfold lone at h
  split at h
  · next bytes hf =>
    obtain rfl := Option.some.inj h
    exact ⟨rfl, hf⟩
  · exact nomatch h

theorem cpu_of_lone_eq_none {σ : Type} [Sink σ] (h : m.lone = none) (sink : σ) :
    (m.step sink).machine.cpu = m.cpu := by
  unfold lone at h
  split at h
  · exact nomatch h
  · next e hf =>
    by_cases hr : m.state = .running
    · simp only [step_of_running hr, cycle, hf, fault]
    · rw [step_of_stopped hr]

/-- The streams of a cycle that completes. -/
theorem streams_of_ok {σ : Type} [Sink σ] {sink : σ} (h : m.state = .running)
    (hs : (m.step sink).result = .ok st) :
    ∃ i, m.fetch = .ok m.window ∧ Instruction.decode m.window = .ok i ∧
      m.offered = i.printed m.cpu ∧
      (m.step sink).events.filterMap Event.callback? =
        [.fetched m.cpu m.window, .executed i (m.step sink).machine.cpu] ∧
      (m.step sink).events.filterMap Event.record? = m.records (.ok st) := by
  obtain ⟨i, s, hi, hk, -, hm⟩ := step_of_ok h hs
  obtain ⟨hp, hw⟩ := instruction_eq_ok_iff.mp hi
  refine ⟨i, fetch_of_lt hp, decode_eq_ok_iff.mpr hw, offered_of_instruction h hi hk, ?_, ?_⟩
  · rw [hm]
    unfold begun ended
    split_ifs <;> rfl
  · rw [hm]
    unfold begun ended records
    simp only [hi]
    split_ifs <;> rfl

/-- The streams of a cycle that fails, for a sink that takes every value. -/
theorem streams_of_error {sink : Collector} (h : m.state = .running)
    (hs : (m.step sink).result = .error e) :
    m.offered = [] ∧
      (m.step sink).events.filterMap Event.callback? =
        m.lone.toList.map (fun g => .fetched g.1 g.2) ∧
      (m.step sink).events.filterMap Event.record? = m.records (.error e) := by
  rw [step_of_running h] at hs ⊢
  cases m.course sink with
  | unfetched hp hc =>
    have hf : m.fetch = .error (fetchError m.cpu.pc) := fetch_of_not_lt hp
    have hi : m.instruction = .error (fetchError m.cpu.pc) := by
      rw [instruction, hf]
      rfl
    rw [hc] at hs ⊢
    refine ⟨by simp only [offered, hi], ?_, ?_⟩
    · rw [lone, hf]
      rfl
    · rw [← Except.error.inj hs]
      simp only [records, hi]
      rfl
  | undecoded e' hp hd hc =>
    have hf : m.fetch = .ok m.window := fetch_of_lt hp
    have hi : m.instruction = .error e' := by
      rw [instruction, hf]
      exact hd
    rw [hc] at hs ⊢
    refine ⟨by simp only [offered, hi], ?_, ?_⟩
    · rw [lone, hf]
      rfl
    · rw [← Except.error.inj hs]
      simp only [records, hi]
      rfl
  | failed i e' hi hk hc =>
    have hf : m.fetch = .ok m.window := fetch_of_lt (instruction_eq_ok_iff.mp hi).1
    have hop : i.opcode ≠ .hlt := by
      intro hop
      simp only [Instruction.fault?, hop] at hk
      cases hk
    rw [hc] at hs ⊢
    refine ⟨by simp [offered, hi, hk], ?_, ?_⟩
    · rw [lone, hf]
      rfl
    · rw [← Except.error.inj hs]
      simp only [records, hi, if_neg hop]
      rfl
  | refused i cause s hi hk he hc =>
    -- a collector takes every value
    rw [Collector.emitAll_eq] at he
    cases he
  | completed i s hi hk he hc =>
    rw [hc] at hs
    cases hs

end Machine

/-- What is called back in a cycle that completes. -/
structure Turn where
  before : Cpu
  bytes : Fetched
  instruction : Instruction
  after : Cpu

def Turn.calls (u : Turn) : List Callback :=
  [.fetched u.before u.bytes, .executed u.instruction u.after]

/-- The fetches that belong to `turns`, and one of which nothing more has come. -/
def fetches (turns : List Turn) (lone : Option (Cpu × Fetched)) : List (Cpu × Fetched) :=
  turns.map (fun u => (u.before, u.bytes)) ++ lone.toList

/-- A session of which everything is kept. -/
abbrev Chronicle := Session Collector (Journal Recorder)

namespace Session

variable {s : Chronicle} {n : ℕ}

def calls (s : Chronicle) : List Callback := s.observer.trace.calls

def log (s : Chronicle) : List Log.Record := s.observer.log.toList

theorem calls_step (s : Chronicle) : s.step.1.calls =
    s.calls ++ (s.machine.step s.sink).events.filterMap Event.callback? := by
  rw [step_eq, calls, Recorder.watch_eq]
  rfl

theorem log_step (s : Chronicle) : s.step.1.log =
    s.log ++ (s.machine.step s.sink).events.filterMap Event.record? := by
  rw [step_eq, log, Recorder.watch_eq]
  simp [log]

/-- The next step completes, and `u` is what is called back in it. -/
structure Tells (s : Chronicle) (u : Turn) : Prop where
  running : s.machine.state = .running
  completes : ∃ st, s.step.2 = .ok st
  before : u.before = s.machine.cpu
  fetch : s.machine.fetch = .ok u.bytes
  decode : Instruction.decode u.bytes = .ok u.instruction
  after : u.after = s.step.1.machine.cpu

theorem exists_tells {st : State} (h : s.machine.state = .running) (hs : s.step.2 = .ok st) :
    ∃ u, s.Tells u ∧ s.step.1.calls = s.calls ++ u.calls ∧
      s.step.1.log = s.log ++ s.machine.records s.step.2 ∧
      s.step.1.collected = s.collected ++ u.instruction.printed u.before := by
  obtain ⟨i, hf, hd, ho, hc, hr⟩ := Machine.streams_of_ok h hs
  refine ⟨⟨s.machine.cpu, s.machine.window, i, s.step.1.machine.cpu⟩,
    ⟨h, ⟨st, hs⟩, rfl, hf, hd, rfl⟩, ?_, ?_, ?_⟩
  · rw [calls_step, hc]
    rfl
  · rw [log_step, hr, hs]
  · rw [step_collector, ho]

theorem told_of_error {e : Error} (h : s.machine.state = .running) (he : s.step.2 = .error e) :
    s.step.1.machine.state = .faulted ∧
      s.step.1.calls = s.calls ++ s.machine.lone.toList.map (fun g => .fetched g.1 g.2) ∧
      s.step.1.log = s.log ++ s.machine.records s.step.2 ∧
      s.step.1.collected = s.collected := by
  have hs : (s.machine.step s.sink).result = .error e := he
  obtain ⟨ho, hc, hl⟩ := Machine.streams_of_error h hs
  refine ⟨(Machine.of_error hs).1, ?_, ?_, ?_⟩
  · rw [calls_step, hc]
  · rw [log_step, hl, he]
  · rw [step_collector, ho, List.append_nil]

/-- `PRN` prints the register that it names, and leaves it as it is. -/
theorem Tells.printed {u : Turn} (h : s.Tells u) (hop : u.instruction.opcode = .prn) :
    (∃ v, u.instruction.printed u.before = [v] ∧
      u.before.registers.get u.instruction.a = .ok v) ∧
    u.after.registers = u.before.registers := by
  obtain ⟨hr, ⟨st, hs⟩, hb, hf, hd, ha⟩ := h
  have hi : s.machine.instruction = .ok u.instruction := by
    rw [Machine.instruction, hf]
    exact hd
  obtain ⟨i, t, hj, hk, -, hm⟩ := Machine.step_of_ok hr hs
  obtain rfl : u.instruction = i := Except.ok.inj (hi.symm.trans hj)
  have hl : u.instruction.a < 8 := by
    simp only [Instruction.fault?, hop] at hk
    exact Registers.missing?_eq_none_iff.mp hk
  constructor
  · refine ⟨u.before.registers.value u.instruction.a, if_pos hop, ?_⟩
    exact Registers.get_of_lt_eight _ hl
  · rw [ha, hb, step_eq, hm]
    simp only [Machine.after_registers, Instruction.registersAfter, hop]

/-- The first `n` steps complete, and `turns` is what is called back in them. -/
structure Completed (s : Chronicle) (n : ℕ) (turns : List Turn) : Prop where
  length : turns.length = n
  tells : ∀ k u, turns[k]? = some u → (s.after k).Tells u
  calls : (s.after n).calls = s.calls ++ turns.flatMap Turn.calls
  log : (s.after n).log = s.log ++
    (List.range n).flatMap fun k => (s.after k).machine.records (s.after k).step.2
  collected : (s.after n).collected =
    s.collected ++ turns.flatMap fun u => u.instruction.printed u.before

namespace Completed

variable {turns : List Turn} {lone : Option (Cpu × Fetched)}

theorem nil (s : Chronicle) : s.Completed 0 [] := by
  constructor
  · rfl
  · intro k u hu
    rw [List.getElem?_nil] at hu
    exact nomatch hu
  · simp
  · simp
  · simp

theorem concat (h : s.Completed n turns) {u : Turn} (hu : (s.after n).Tells u)
    (hc : (s.after n).step.1.calls = (s.after n).calls ++ u.calls)
    (hl : (s.after n).step.1.log =
      (s.after n).log ++ (s.after n).machine.records (s.after n).step.2)
    (hv : (s.after n).step.1.collected =
      (s.after n).collected ++ u.instruction.printed u.before) :
    s.Completed (n + 1) (turns ++ [u]) := by
  constructor
  · rw [List.length_append, h.length]
    rfl
  · intro k v hv
    rcases Nat.lt_trichotomy k turns.length with hk | rfl | hk
    · rw [List.getElem?_append_left hk] at hv
      exact h.tells k v hv
    · rw [List.getElem?_concat_length] at hv
      obtain rfl := Option.some.inj hv
      rw [h.length]
      exact hu
    · rw [List.getElem?_eq_none (by rw [List.length_append]; exact hk)] at hv
      exact nomatch hv
  · rw [after_succ, hc, h.calls]
    simp
  · rw [after_succ, hl, h.log]
    simp [List.range_succ]
  · rw [after_succ, hv, h.collected]
    simp

theorem exists_of_forall (h : ∀ k < n, (s.after k).machine.state = .running ∧
    ∃ st, (s.after k).step.2 = .ok st) : ∃ turns, s.Completed n turns := by
  induction n with
  | zero => exact ⟨[], nil s⟩
  | succ n ih =>
    obtain ⟨turns, ht⟩ := ih fun k hk => h k (Nat.lt_succ_of_lt hk)
    obtain ⟨hr, st, hs⟩ := h n (Nat.lt_succ_self n)
    obtain ⟨u, hu, hc, hl, hv⟩ := exists_tells hr hs
    exact ⟨turns ++ [u], ht.concat hu hc hl hv⟩

theorem exists_tells_of_mem (h : s.Completed n turns) {u : Turn} (hu : u ∈ turns) :
    ∃ k, (s.after k).Tells u := by
  obtain ⟨k, hk⟩ := List.mem_iff_getElem?.mp hu
  exact ⟨k, h.tells k u hk⟩

theorem values (h : s.Completed n turns) :
    (turns.flatMap fun u => u.instruction.printed u.before).map Except.ok =
      (turns.filter fun u => u.instruction.opcode = .prn).map
        fun u => u.before.registers.get u.instruction.a := by
  have hu : ∀ u ∈ turns, ∃ k, (s.after k).Tells u := fun u hu => h.exists_tells_of_mem hu
  clear h
  induction turns with
  | nil => rfl
  | cons u turns ih =>
    obtain ⟨k, ht⟩ := hu u List.mem_cons_self
    have hi := ih fun u hm => hu u (List.mem_cons_of_mem _ hm)
    rw [List.flatMap_cons, List.map_append, hi]
    by_cases hop : u.instruction.opcode = .prn
    · obtain ⟨⟨v, hv, hb⟩, -⟩ := ht.printed hop
      rw [hv, List.filter_cons, if_pos (decide_eq_true hop), List.map_cons, List.map_cons, hb]
      rfl
    · have hv : u.instruction.printed u.before = [] := if_neg hop
      rw [hv, List.filter_cons, if_neg (by simpa using hop)]
      rfl

theorem fetched (h : s.Completed n turns)
    (hl : ∀ g, lone = some g → g.1 = (s.after n).machine.cpu ∧ (s.after n).machine.fetch = .ok g.2)
    {k : ℕ} {g : Cpu × Fetched} (hg : (fetches turns lone)[k]? = some g) :
    g.1 = (s.after k).machine.cpu ∧ (s.after k).machine.fetch = .ok g.2 := by
  unfold fetches at hg
  by_cases hk : k < turns.length
  · have hm : k < (turns.map fun u => (u.before, u.bytes)).length := by rwa [List.length_map]
    rw [List.getElem?_append_left hm, List.getElem?_map, Option.map_eq_some_iff] at hg
    obtain ⟨u, hu, rfl⟩ := hg
    have ht := h.tells k u hu
    exact ⟨ht.before, ht.fetch⟩
  · have hm : (turns.map fun u => (u.before, u.bytes)).length ≤ k := by
      rw [List.length_map]
      exact Nat.not_lt.mp hk
    rw [List.getElem?_append_right hm, List.length_map] at hg
    -- only the fetch that stands alone comes after those of the turns
    cases lone with
    | none => simp at hg
    | some g' =>
      obtain ⟨h0, he⟩ : k - turns.length = 0 ∧ g' = g := by
        simpa [List.getElem?_singleton] using hg
      have hkn : k = n := by
        have := h.length
        omega
      rw [hkn, ← he]
      exact hl g' rfl

/-- The processor after an instruction is the one that comes to the next fetch, or the last one. -/
theorem executed (h : s.Completed n turns)
    (hl : ∀ g, lone = some g → g.1 = (s.after n).machine.cpu ∧ (s.after n).machine.fetch = .ok g.2)
    {c : Cpu} (hc : lone = none → c = (s.after n).machine.cpu)
    {k : ℕ} {u : Turn} (hu : turns[k]? = some u) :
    u.after = (((fetches turns lone)[k + 1]?).map Prod.fst).getD c := by
  have ha : u.after = (s.after (k + 1)).machine.cpu := by
    rw [after_succ]
    exact (h.tells k u hu).after
  have hk : k < turns.length := (List.getElem?_eq_some_iff.mp hu).1
  cases hg : (fetches turns lone)[k + 1]? with
  | some g =>
    rw [ha]
    exact (h.fetched hl hg).1.symm
  | none =>
    -- `u` is the last turn, and nothing has been fetched after it
    have hlen : (fetches turns lone).length ≤ k + 1 := List.getElem?_eq_none_iff.mp hg
    rw [fetches, List.length_append, List.length_map] at hlen
    have hz : lone.toList.length = 0 := by omega
    have hn : lone = none := by simpa using hz
    have hkn : k + 1 = n := by
      have := h.length
      omega
    rw [ha, hkn, ← hc hn]
    rfl

end Completed

/-- What `n` steps have told, of which the first `c` have found the machine running: a pair of
callbacks for each that has completed, and perhaps a last fetch alone. -/
structure Story (s : Chronicle) (n c : ℕ) (turns : List Turn) (lone : Option (Cpu × Fetched)) :
    Prop where
  le : c ≤ n
  running : ∀ k < c, (s.after k).machine.state = .running
  stopped : c < n → (s.after c).machine.state ≠ .running
  quiet : s.after n = s.after c
  calls : (s.after n).calls =
    turns.flatMap Turn.calls ++ lone.toList.map fun g => .fetched g.1 g.2
  pairs : ∀ k, k < turns.length ↔ k < c ∧ (s.after k).step.2.isOk
  faulted : lone.isSome ↔
    ∃ k, c = k + 1 ∧ (s.after k).machine.fetch.isOk ∧ ¬ (s.after k).step.2.isOk
  fetched : ∀ k g, (fetches turns lone)[k]? = some g → g.1 = (s.after k).machine.cpu ∧
    (s.after k).machine.memory.read g.1.pc = .ok g.2.op ∧
    (s.after k).machine.memory.read (g.1.pc + 1) = .ok g.2.a ∧
    (s.after k).machine.memory.read (g.1.pc + 2) = .ok g.2.b
  decoded : ∀ u ∈ turns, Instruction.decode u.bytes = .ok u.instruction
  executed : ∀ k u, turns[k]? = some u → u.after =
    (((fetches turns lone)[k + 1]?).map Prod.fst).getD (s.after n).machine.cpu
  log : (s.after n).log =
    (List.range c).flatMap fun k => (s.after k).machine.records (s.after k).step.2
  text : (s.after n).log.map Log.Record.text =
    (List.range c).flatMap fun k => (s.after k).machine.lines (s.after k).step.2
  values : (s.after n).collected.map Except.ok =
    (turns.filter fun u => u.instruction.opcode = .prn).map
      fun u => u.before.registers.get u.instruction.a
  kept : ∀ u ∈ turns, u.instruction.opcode = .prn → u.after.registers = u.before.registers

/-- A session that begins with nothing told. -/
def start (m : Machine) : Chronicle := ⟨m, .empty, ⟨⟨[]⟩, #[]⟩⟩

section Story

variable {m : Machine} {f c : ℕ} {turns : List Turn}

@[simp] theorem calls_start (m : Machine) : (start m).calls = [] := rfl

@[simp] theorem log_start (m : Machine) : (start m).log = [] := rfl

@[simp] theorem collected_start (m : Machine) : (start m).collected = [] := rfl

theorem Completed.running (h : s.Completed f turns) {k : ℕ} (hk : k < f) :
    (s.after k).machine.state = .running ∧ (s.after k).step.2.isOk := by
  have hl : k < turns.length := by rwa [h.length]
  have ht := h.tells k _ (List.getElem?_eq_getElem hl)
  obtain ⟨st, hs⟩ := ht.completes
  rw [hs]
  exact ⟨ht.running, rfl⟩

theorem Completed.fetched_read (h : s.Completed f turns) {lone : Option (Cpu × Fetched)}
    (hl : ∀ g, lone = some g → g.1 = (s.after f).machine.cpu ∧ (s.after f).machine.fetch = .ok g.2)
    (k : ℕ) (g : Cpu × Fetched) (hg : (fetches turns lone)[k]? = some g) :
    g.1 = (s.after k).machine.cpu ∧ (s.after k).machine.memory.read g.1.pc = .ok g.2.op ∧
      (s.after k).machine.memory.read (g.1.pc + 1) = .ok g.2.a ∧
      (s.after k).machine.memory.read (g.1.pc + 2) = .ok g.2.b := by
  obtain ⟨hc, hf⟩ := h.fetched hl hg
  rw [hc]
  exact ⟨rfl, Machine.fetch_eq_ok_iff.mp hf⟩

theorem Completed.decode (h : s.Completed f turns) (u : Turn) (hu : u ∈ turns) :
    Instruction.decode u.bytes = .ok u.instruction := by
  obtain ⟨k, ht⟩ := h.exists_tells_of_mem hu
  exact ht.decode

theorem Completed.kept (h : s.Completed f turns) (u : Turn) (hu : u ∈ turns)
    (hop : u.instruction.opcode = .prn) : u.after.registers = u.before.registers := by
  obtain ⟨k, ht⟩ := h.exists_tells_of_mem hu
  exact (ht.printed hop).2

theorem text_of_log (h : (s.after n).log =
      (List.range c).flatMap fun k => (s.after k).machine.records (s.after k).step.2) :
    (s.after n).log.map Log.Record.text =
      (List.range c).flatMap fun k => (s.after k).machine.lines (s.after k).step.2 := by
  rw [h, List.map_flatMap]
  congr 1
  funext k
  exact Machine.text_records _ _

/-- The run has stopped with a step that completes, or has not stopped. -/
theorem Completed.story (h : (start m).Completed c turns) (hle : c ≤ n)
    (hst : c < n → ((start m).after c).machine.state ≠ .running)
    (hq : (start m).after n = (start m).after c) : (start m).Story n c turns none := by
  have hnone : ∀ g, (none : Option (Cpu × Fetched)) = some g →
      g.1 = ((start m).after c).machine.cpu ∧ ((start m).after c).machine.fetch = .ok g.2 :=
    fun g hg => nomatch hg
  have hlog : ((start m).after n).log = (List.range c).flatMap fun k =>
      ((start m).after k).machine.records ((start m).after k).step.2 := by
    rw [hq, h.log]
    simp
  constructor
  case le => exact hle
  case running => exact fun k hk => (h.running hk).1
  case stopped => exact hst
  case quiet => exact hq
  case calls =>
    rw [hq, h.calls]
    simp
  case pairs =>
    intro k
    rw [h.length]
    exact ⟨fun hk => ⟨hk, (h.running hk).2⟩, fun hk => hk.1⟩
  case faulted =>
    constructor
    · intro hn
      exact Bool.noConfusion hn
    · rintro ⟨k, rfl, -, hn⟩
      exact (hn (h.running (Nat.lt_succ_self k)).2).elim
  case fetched => exact h.fetched_read hnone
  case decoded => exact h.decode
  case executed =>
    intro k u hu
    refine h.executed hnone (fun _ => ?_) hu
    rw [hq]
  case log => exact hlog
  case text => exact text_of_log hlog
  case values =>
    rw [hq, h.collected, ← h.values]
    simp
  case kept => exact h.kept

/-- The run has stopped with a step that fails. -/
theorem Completed.story_of_error (h : (start m).Completed f turns) (hlt : f < n)
    (hr : ((start m).after f).machine.state = .running) {e : Error}
    (he : ((start m).after f).step.2 = .error e) (hq : (start m).after n = (start m).after (f + 1)) :
    (start m).Story n (f + 1) turns ((start m).after f).machine.lone := by
  have hno : ((start m).after f).step.2.isOk = false := by
    rw [he]
    rfl
  obtain ⟨hst, hc, hl, hv⟩ := told_of_error hr he
  have hlone : ∀ g, ((start m).after f).machine.lone = some g →
      g.1 = ((start m).after f).machine.cpu ∧ ((start m).after f).machine.fetch = .ok g.2 :=
    fun g hg => Machine.of_lone_eq_some hg
  have hlog : ((start m).after n).log = (List.range (f + 1)).flatMap fun k =>
      ((start m).after k).machine.records ((start m).after k).step.2 := by
    rw [hq, after_succ, hl, h.log, List.range_succ, List.flatMap_append]
    simp
  constructor
  case le => exact hlt
  case running =>
    intro k hk
    rcases Nat.lt_succ_iff_lt_or_eq.mp hk with hk | rfl
    · exact (h.running hk).1
    · exact hr
  case stopped =>
    intro _
    rw [after_succ, hst]
    exact State.noConfusion
  case quiet => exact hq
  case calls =>
    rw [hq, after_succ, hc, h.calls, calls_start, List.nil_append]
  case pairs =>
    intro k
    rw [h.length, Nat.lt_succ_iff_lt_or_eq]
    constructor
    · exact fun hk => ⟨Or.inl hk, (h.running hk).2⟩
    · rintro ⟨hk | rfl, hs⟩
      · exact hk
      · rw [hno] at hs
        exact nomatch hs
  case faulted =>
    rw [Machine.isSome_lone]
    constructor
    · intro hf
      refine ⟨f, rfl, hf, ?_⟩
      rw [hno]
      exact Bool.noConfusion
    · rintro ⟨k, hk, hf, -⟩
      obtain rfl : f = k := Nat.succ.inj hk
      exact hf
  case fetched => exact h.fetched_read hlone
  case decoded => exact h.decode
  case executed =>
    intro k u hu
    refine h.executed hlone (fun hn => ?_) hu
    rw [hq, after_succ_machine]
    exact Machine.cpu_of_lone_eq_none hn _
  case log => exact hlog
  case text => exact text_of_log hlog
  case values =>
    rw [hq, after_succ, hv, h.collected, ← h.values]
    simp
  case kept => exact h.kept

/-- The callbacks of a trace, the log and the output of any number of steps agree. -/
theorem streams_agree (m : Machine) (n : ℕ) : ∃ c turns lone, (start m).Story n c turns lone := by
  obtain ⟨f, hf, hc⟩ := exists_cycles (start m) n
  obtain ⟨turns, ht⟩ := Completed.exists_of_forall hf
  obtain rfl | ⟨hlt, hst, hq⟩ | ⟨hlt, hr, ⟨e, he⟩, hq⟩ := hc
  · exact ⟨f, turns, none, ht.story le_rfl (fun hn => (lt_irrefl f hn).elim) rfl⟩
  · exact ⟨f, turns, none, ht.story hlt.le (fun _ => hst) hq⟩
  · exact ⟨f + 1, turns, _, ht.story_of_error hlt hr he hq⟩

example : ((start ⟨.initial, .ofImage [0x47, 7, 0xff], .running⟩).after 9).log.map
    Log.Record.text =
      ["TRACE 0x00: PRN 7", "ERROR fault at 0x02: unknown instruction 0b11111111"] := by
  decide +kernel

end Story

end Session

end LS8
