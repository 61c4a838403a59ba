import LS8.Proofs.Chronicle
import LS8.Proofs.EndToEnd
import LS8.Proofs.Tracing

/-! What the command tells on standard error. Main statement: the verbosity leaves out records
and nothing else, and the trace adds its lines and nothing else, each before the records of its
cycle. -/
namespace LS8

namespace Session

variable {σ τ ω ω' : Type} [Sink σ] [Sink τ] [Observer ω] [Observer ω'] {n : ℕ}

section Agree

variable {a : Session σ ω} {b : Session τ ω'}

/-- As long as a sink refuses nothing, it is as good as one that never does. -/
theorem step_agree_of_running (hσ : Sink.NeverFails σ) (h : a.machine = b.machine)
    (hb : b.step.2 = .ok .running) : a.step.1.machine = b.step.1.machine ∧ a.step.2 = b.step.2 := by
  have hr := Machine.running_of_result hb
  obtain ⟨i, t, hi, hk, ht, -⟩ := Machine.step_of_ok hr hb
  rw [← Machine.offered_of_instruction hr hi hk] at ht
  obtain ⟨s, hs⟩ := hσ.emitAll b.machine.offered a.sink
  have he := Machine.step_of_accepted hs ht
  rw [step_eq, step_eq, h, he]
  exact ⟨rfl, rfl⟩

theorem after_agree_of_working (hσ : Sink.NeverFails σ) (h : a.machine = b.machine)
    (hb : b.Working n) : (a.after n).machine = (b.after n).machine := by
  induction n with
  | zero => exact h
  | succ n ih =>
    rw [after_succ, after_succ]
    have hm := ih fun k hk => hb k (Nat.lt_succ_of_lt hk)
    exact (step_agree_of_running hσ hm (hb n (Nat.lt_succ_self n))).1

/-- A sink can end a run before its program does, but not make it longer. -/
theorem exists_answer (hσ : Sink.NeverFails σ) (h : a.machine = b.machine) {t : Session σ ω}
    {r : Except Error State} (he : a.Ends t r) :
    ∃ n < Fintype.card Machine.Configuration, b.Working n ∧ (b.after n).step.2 ≠ .ok .running := by
  obtain ⟨n, hw, hs, hr⟩ := he.exists_working
  have hn : (a.after n).step.2 ≠ .ok .running := by rwa [hs]
  have hlt := lt_of_stops hσ hw hn
  by_cases hb : b.Working (n + 1)
  · have hbn := hb n (Nat.lt_succ_self n)
    have hm := after_agree_of_working hσ h fun k hk => hb k (Nat.lt_succ_of_lt hk)
    have heq := (step_agree_of_running hσ hm hbn).2
    exact (hn (heq.trans hbn)).elim
  · obtain ⟨k, hk, hwk, hsk⟩ := exists_working_of_not_working hb
    exact ⟨k, Nat.lt_of_le_of_lt (Nat.le_of_lt_succ hk) hlt, hwk, hsk⟩

end Agree

end Session

namespace Command

/-- Errors and warnings always show. Each of the other levels asks for one `-v` more. -/
def allows (verbosity : ℕ) : Log.Level → Bool
  | .error | .warn => true
  | .info => 1 ≤ verbosity
  | .debug => 2 ≤ verbosity
  | .trace => 3 ≤ verbosity

theorem shows_level (o : Options) (l : Log.Level) :
    o.level.shows l = allows o.verbosity l := by
  obtain ⟨program, traced, verbosity⟩ := o
  unfold Options.level
  match verbosity with
  | 0 => cases l <;> rfl
  | 1 => cases l <;> rfl
  | 2 => cases l <;> rfl
  | v + 3 =>
    have h1 : 1 ≤ v + 3 := by omega
    have h2 : 2 ≤ v + 3 := by omega
    have h3 : 3 ≤ v + 3 := by omega
    cases l <;> simp [allows, Log.Level.shows, Log.Level.rank, h1, h2, h3]

theorem allows_of_le {v w : ℕ} (h : v ≤ w) {l : Log.Level} (hl : allows v l) : allows w l := by
  cases l with
  | error => rfl
  | warn => rfl
  | info | debug | trace =>
    simp only [allows, decide_eq_true_eq] at hl ⊢
    omega

namespace Diagnostic

/-- Whether this is anything but a record that needs a higher verbosity. -/
def allowed (verbosity : ℕ) : Diagnostic → Bool
  | record r => allows verbosity r.level
  | _ => true

def isTrace : Diagnostic → Bool
  | trace .. => true
  | _ => false

/-- Whether a command tells this that has been asked for a trace or not, and for a verbosity. -/
def shown (traced : Bool) (verbosity : ℕ) (d : Diagnostic) : Bool :=
  d.allowed verbosity && (traced || !d.isTrace)

theorem filter_allowed_of_le {v w : ℕ} (h : v ≤ w) (traced : Bool) (ds : List Diagnostic) :
    (ds.filter (shown traced w)).filter (allowed v) = ds.filter (shown traced v) := by
  rw [List.filter_filter]
  refine List.filter_congr fun d _ => ?_
  unfold shown
  cases d with
  | record r =>
    cases hv : allows v r.level with
    | false => simp [allowed, hv]
    | true => simp [allowed, hv, allows_of_le h hv]
  | trace cpu bytes => rfl
  | failure text => rfl

theorem filter_isTrace (v : ℕ) (ds : List Diagnostic) :
    (ds.filter (shown true v)).filter (!·.isTrace) = ds.filter (shown false v) := by
  rw [List.filter_filter]
  refine List.filter_congr fun d _ => ?_
  unfold shown
  cases d.isTrace <;> simp

end Diagnostic

namespace Console

def shows (c : Console) : Diagnostic → Bool
  | .record r => c.level.shows r.level
  | .trace .. => c.traced
  | .failure _ => true

/-- The console once all this has been told to it, of which it keeps what it shows. -/
def hear (c : Console) (ds : List Diagnostic) : Console :=
  { c with lines := c.lines ++ (ds.filter c.shows).toArray }

@[simp] theorem shows_hear (c : Console) (ds : List Diagnostic) : (c.hear ds).shows = c.shows := by
  funext d
  cases d <;> rfl

theorem hear_nil (c : Console) : c.hear [] = c := by
  simp [hear]

theorem hear_append (c : Console) (ds es : List Diagnostic) :
    c.hear (ds ++ es) = (c.hear ds).hear es := by
  rw [hear, hear, shows_hear, List.filter_append, hear]
  simp

theorem hear_singleton (c : Console) (d : Diagnostic) :
    c.hear [d] = if c.shows d then { c with lines := c.lines.push d } else c := by
  unfold hear
  rw [List.filter_singleton]
  cases c.shows d <;> simp

theorem log_eq (c : Console) (r : Log.Record) : c.log r = c.hear [.record r] := by
  rw [hear_singleton]
  rfl

theorem follow_eq (c : Console) (cpu : Cpu) (bytes : Fetched) :
    c.follow cpu bytes = c.hear [.trace cpu bytes] := by
  rw [hear_singleton]
  rfl

theorem fail_eq (c : Console) (text : String) : c.fail text = c.hear [.failure text] := by
  rw [hear_singleton]
  rfl

theorem foldl_log (c : Console) (rs : List Log.Record) :
    rs.foldl log c = c.hear (rs.map .record) := by
  induction rs generalizing c with
  | nil => exact (hear_nil c).symm
  | cons r rs ih =>
    rw [List.foldl_cons, ih, log_eq, ← hear_append]
    rfl

end Console

end Command

/-- What an event is for a console. -/
def Event.diagnostic? : Event → Option Command.Diagnostic
  | .fetched cpu bytes => some (.trace cpu bytes)
  | .logged r => some (.record r)
  | .executed .. => none

theorem Command.Console.watch_eq (events : List Event) (c : Console) :
    Observer.watch events c = c.hear (events.filterMap Event.diagnostic?) := by
  induction events generalizing c with
  | nil => exact (hear_nil c).symm
  | cons e events ih =>
    change Observer.watch events (Observer.observe e c) = _
    rw [ih]
    cases e with
    | fetched cpu bytes =>
      change (c.follow cpu bytes).hear _ = _
      rw [follow_eq, ← hear_append]
      rfl
    | logged r =>
      change (c.log r).hear _ = _
      rw [log_eq, ← hear_append]
      rfl
    | executed i cpu => rfl

namespace Machine

variable {σ : Type} [Sink σ] {m : Machine}

/-- The line of the trace for the next cycle, if its bytes can be fetched. -/
def traceLine (m : Machine) : List Command.Diagnostic :=
  m.lone.toList.map fun g => .trace g.1 g.2

/-- A cycle tells its line of the trace, and then its records. -/
theorem diagnostics_of_step (h : m.state = .running) (sink : σ) :
    (m.step sink).events.filterMap Event.diagnostic? =
      m.traceLine ++ (m.records (m.step sink).result).map .record := by
  rw [step_of_running h]
  cases m.course sink with
  | unfetched hp hc =>
    have hf : m.fetch = .error (fetchError m.cpu.pc) := fetch_of_not_lt hp
    have hi : m.instruction = .error (fetchError m.cpu.pc) := by
      rw [instruction, hf]
      rfl
    rw [hc]
    simp only [traceLine, lone, hf, records, hi, fault]
    rfl
  | undecoded e hp hd hc =>
    have hf : m.fetch = .ok m.window := fetch_of_lt hp
    have hi : m.instruction = .error e := by
      rw [instruction, hf]
      exact hd
    rw [hc]
    simp only [traceLine, lone, hf, records, hi, fault]
    rfl
  | failed i e hi hk hc =>
    have hf : m.fetch = .ok m.window := fetch_of_lt (instruction_eq_ok_iff.mp hi).1
    have hop : i.opcode ≠ .hlt := by
      intro hop
      simp only [Instruction.fault?, hop] at hk
      cases hk
    rw [hc]
    simp only [traceLine, lone, hf, records, hi, fault, if_neg hop]
    rfl
  | refused i cause s hi hk he hc =>
    have hf : m.fetch = .ok m.window := fetch_of_lt (instruction_eq_ok_iff.mp hi).1
    have hop : i.opcode ≠ .hlt := by
      intro hop
      simp only [Instruction.printed, hop] at he
      cases he
    rw [hc]
    simp only [traceLine, lone, hf, records, hi, fault, if_neg hop]
    rfl
  | completed i s hi hk he hc =>
    have hf : m.fetch = .ok m.window := fetch_of_lt (instruction_eq_ok_iff.mp hi).1
    rw [hc]
    simp only [traceLine, lone, hf, records, hi, begun, ended]
    split_ifs <;> rfl

end Machine

namespace Session

variable {σ ω ω' : Type} [Sink σ] [Observer ω] [Observer ω'] {f : ω → ω'} {n : ℕ}

/-- The machine before each of the next `n` steps, and the answer of the step. -/
def cycles (s : Session σ ω) (n : ℕ) : List (Machine × Except Error State) :=
  (List.range n).map fun k => ((s.after k).machine, (s.after k).step.2)

theorem cycles_mapObserver (hf : Observer.Respects f) (s : Session σ ω) (n : ℕ) :
    (s.mapObserver f).cycles n = s.cycles n := by
  refine List.map_congr_left fun k _ => ?_
  rw [after_mapObserver hf, step_mapObserver hf]
  rfl

theorem working_mapObserver (hf : Observer.Respects f) {s : Session σ ω} :
    (s.mapObserver f).Working n ↔ s.Working n := by
  refine forall₂_congr fun k _ => ?_
  rw [after_mapObserver hf, step_mapObserver hf]

end Session

namespace Command

/-- What there is to tell of a file and the run of its program. -/
structure Account where
  /-- The records of the lines that were skipped, and of the loading. -/
  loading : List Log.Record
  /-- The machine at the start of each cycle, and the answer of the cycle. -/
  cycles : List (Machine × Except Error State)
  failure : Option String

namespace Account

/-- Each cycle has its records, after its line of the trace. -/
def told (a : Account) (traced : Bool) (verbosity : ℕ) : List Diagnostic :=
  (a.loading.filter (allows verbosity ·.level)).map .record ++
    a.cycles.flatMap (fun c => (if traced then c.1.traceLine else []) ++
      ((c.1.records c.2).filter (allows verbosity ·.level)).map .record) ++
    a.failure.toList.map .failure

/-- What can be told of cycles. -/
def ofCycles (cycles : List (Machine × Except Error State)) : List Diagnostic :=
  cycles.flatMap fun c => c.1.traceLine ++ (c.1.records c.2).map .record

def whole (a : Account) : List Diagnostic :=
  a.loading.map .record ++ ofCycles a.cycles ++ a.failure.toList.map .failure

theorem filter_records (traced : Bool) (v : ℕ) (rs : List Log.Record) :
    (rs.map Diagnostic.record).filter (Diagnostic.shown traced v) =
      (rs.filter (allows v ·.level)).map .record := by
  rw [List.filter_map]
  congr 1
  refine List.filter_congr fun r _ => ?_
  simp [Diagnostic.shown, Diagnostic.allowed, Diagnostic.isTrace]

theorem filter_traceLine (traced : Bool) (v : ℕ) (m : Machine) :
    m.traceLine.filter (Diagnostic.shown traced v) = if traced then m.traceLine else [] := by
  unfold Machine.traceLine
  cases m.lone <;> cases traced <;> rfl

theorem told_eq_filter (a : Account) (traced : Bool) (v : ℕ) :
    a.told traced v = a.whole.filter (Diagnostic.shown traced v) := by
  have hf : (a.failure.toList.map Diagnostic.failure).filter (Diagnostic.shown traced v) =
      a.failure.toList.map .failure := by
    cases a.failure with
    | none => rfl
    | some text => cases traced <;> rfl
  unfold told whole ofCycles
  simp only [List.filter_append, List.filter_flatMap, filter_records, filter_traceLine, hf]

/-- There is one line of the trace for each fetch that succeeds. -/
theorem countP_isTrace (a : Account) (v : ℕ) :
    (a.told true v).countP Diagnostic.isTrace = a.cycles.countP (·.1.fetch.isOk) := by
  have hr : ∀ rs : List Log.Record, (rs.map Diagnostic.record).countP Diagnostic.isTrace = 0 := by
    intro rs
    rw [List.countP_map, List.countP_eq_zero]
    exact fun r _ => Bool.false_ne_true
  have hl : ∀ m : Machine, m.traceLine.countP Diagnostic.isTrace =
      if m.fetch.isOk then 1 else 0 := by
    intro m
    rw [← m.isSome_lone]
    unfold Machine.traceLine
    cases m.lone <;> rfl
  have hf : (a.failure.toList.map Diagnostic.failure).countP Diagnostic.isTrace = 0 := by
    cases a.failure <;> rfl
  unfold told
  rw [List.countP_append, List.countP_append, hr, hf, Nat.zero_add, Nat.add_zero]
  induction a.cycles with
  | nil => rfl
  | cons c cycles ih =>
    rw [List.flatMap_cons, List.countP_append, List.countP_append, if_pos rfl, hr, hl, ih,
      List.countP_cons, Nat.add_zero, Nat.add_comm]

end Account

/-- The session of a program whose values are written to `out`. -/
def printing (m : Machine) (out : Writer) : Session LinePrinter Unit := ⟨m, ⟨out⟩, ()⟩

/-- The account of a file whose program prints to `out`: it cannot be read, it does not fit in
memory, or its program runs up to the first cycle that does not leave the machine running. -/
inductive Accounts (path : String) (out : Writer) (content : Except ReadError ByteArray) :
    Account → Prop
  | unloaded {e : Image.LoadError} (load : Image.load path content = .error e) :
      Accounts path out content ⟨[], [], some e.chain⟩
  | refused {image : Image.Parsed} {e : Error} (load : Image.load path content = .ok image)
      (fit : Machine.withProgram image.bytes = .error e) :
      Accounts path out content ⟨image.records, [], some e.chain⟩
  | halts {image : Image.Parsed} {m : Machine} {n : ℕ} {st : State}
      (load : Image.load path content = .ok image) (fit : Machine.withProgram image.bytes = .ok m)
      (working : (printing m out).Working n) (last : ((printing m out).after n).step.2 = .ok st)
      (stopped : st ≠ .running) :
      Accounts path out content ⟨image.records, (printing m out).cycles (n + 1), none⟩
  | faults {image : Image.Parsed} {m : Machine} {n : ℕ} {e : Error}
      (load : Image.load path content = .ok image) (fit : Machine.withProgram image.bytes = .ok m)
      (working : (printing m out).Working n) (last : ((printing m out).after n).step.2 = .error e) :
      Accounts path out content ⟨image.records, (printing m out).cycles (n + 1), some e.chain⟩

section

variable {path : String} {content : Except ReadError ByteArray} {out : Writer}
  {image : Image.Parsed} {m : Machine} {n : ℕ}

theorem lines_hear (o : Options) (ds : List Diagnostic) :
    (o.console.hear ds).lines.toList = ds.filter (Diagnostic.shown o.trace o.verbosity) := by
  have hs : o.console.shows = Diagnostic.shown o.trace o.verbosity := by
    funext d
    cases d with
    | record r =>
      change o.level.shows r.level = (allows o.verbosity r.level && (o.trace || true))
      rw [shows_level, Bool.or_true, Bool.and_true]
    | trace cpu bytes => exact (Bool.or_false _).symm
    | failure text => exact (Bool.or_true _).symm
  rw [Console.hear, hs]
  simp [Options.console]

theorem whole_of_halts (records : List Log.Record) (cycles : List (Machine × Except Error State)) :
    Account.whole ⟨records, cycles, none⟩ = records.map .record ++ Account.ofCycles cycles :=
  List.append_nil _

theorem whole_of_faults (records : List Log.Record) (cycles : List (Machine × Except Error State))
    (text : String) : Account.whole ⟨records, cycles, some text⟩ =
      (records.map .record ++ Account.ofCycles cycles) ++ [.failure text] := rfl

theorem told_eq_lines (a : Account) (o : Options) :
    a.told o.trace o.verbosity = (o.console.hear a.whole).lines.toList := by
  rw [lines_hear, Account.told_eq_filter]

theorem exists_text_of_load (h : Image.load path content = .ok image) :
    ∃ text : String, content = .ok text.toUTF8 ∧ image.bytes = (Image.parse text).bytes := by
  cases content with
  | error cause => exact nomatch h
  | ok bytes =>
    by_cases hv : bytes.IsValidUTF8
    · let text : String := ⟨bytes, hv⟩
      obtain ⟨image', hi, hb⟩ := load_of_text text path
      obtain rfl : image' = image := Except.ok.inj (hi.symm.trans h)
      exact ⟨text, rfl, hb⟩
    · rw [load_of_invalid hv] at h
      exact nomatch h

/-- The cycles of a run have all begun with a running machine. -/
theorem observer_of_working {s : Session LinePrinter Console} (hr : s.machine.state = .running)
    (hw : s.Working n) : (s.after (n + 1)).observer =
      s.observer.hear (Account.ofCycles (s.cycles (n + 1))) := by
  rw [Session.observer_after, Console.watch_eq, List.filterMap_flatMap]
  congr 1
  unfold Account.ofCycles Session.cycles
  rw [List.flatMap_map]
  refine List.flatMap_congr fun k hk => ?_
  have hkn : k ≤ n := Nat.le_of_lt_succ (List.mem_range.mp hk)
  exact Machine.diagnostics_of_step
    (Session.running_after hr fun l hl => hw l (Nat.lt_of_lt_of_le hl hkn)) _

theorem runProgram_of_answer {o : Options} {a : Account} {exit : UInt32}
    (load : Image.load o.program content = .ok image)
    (fit : Machine.withProgram image.bytes = .ok m) (hn : n < Fintype.card Machine.Configuration)
    (hw : (printing m out).Working n) (hs : ((printing m out).after n).step.2 ≠ .ok .running)
    (hc : conclude (o.console.hear (image.records.map .record ++
        Account.ofCycles ((printing m out).cycles (n + 1))))
      (.ofResult ((printing m out).after n).step.2) = some (exit, o.console.hear a.whole)) :
    runProgram o content out = some ⟨exit, ((printing m out).after (n + 1)).sink.writer.written,
      a.told o.trace o.verbosity⟩ := by
  let b : Session LinePrinter Console := ⟨m, ⟨out⟩, image.records.foldl Console.log o.console⟩
  have hf : Observer.Respects fun _ : Console => () := fun _ _ _ => rfl
  have hb : b.mapObserver (fun _ => ()) = printing m out := rfl
  have hr : m.state = .running := by rw [Machine.of_withProgram fit]
  have hstep : ((printing m out).after n).step.2 = (b.after n).step.2 := by
    rw [← hb, Session.after_mapObserver hf, Session.step_mapObserver hf]
  have hsink : ((printing m out).after (n + 1)).sink = (b.after (n + 1)).sink := by
    rw [← hb, Session.after_mapObserver hf]
    rfl
  have hcycles : (printing m out).cycles (n + 1) = b.cycles (n + 1) := by
    rw [← hb, Session.cycles_mapObserver hf]
  rw [← hb, Session.working_mapObserver hf] at hw
  rw [hstep] at hs hc
  rw [hcycles] at hc
  rw [hsink, told_eq_lines]
  obtain ⟨limit, hl⟩ := Nat.exists_eq_add_of_lt hn
  have hrun : b.run configurations = ((b.after n).step.1, .ofResult (b.after n).step.2) := by
    rw [configurations_eq, hl]
    exact Session.run_of_working_of_answer hw rfl hs limit
  have hp : prepare o content out = .ok b := by
    simp only [prepare, load, fit, b]
  have ho : (b.after n).step.1.observer = o.console.hear (image.records.map .record ++
      Account.ofCycles (b.cycles (n + 1))) := by
    rw [← Session.after_succ, observer_of_working hr hw, Console.hear_append, ← Console.foldl_log]
  simp only [runProgram, hp, hrun, ho, hc, Session.after_succ]
  rfl

theorem runProgram_of_unready {o : Options} {a : Account}
    (h : prepare o content out = .error (o.console.hear a.whole)) :
    runProgram o content out = some ⟨1, "", a.told o.trace o.verbosity⟩ := by
  rw [told_eq_lines]
  simp only [runProgram, h]

theorem prepare_of_unloaded {e : Image.LoadError} {o : Options}
    (load : Image.load o.program content = .error e) :
    prepare o content out = .error (o.console.hear (Account.whole ⟨[], [], some e.chain⟩)) := by
  simp only [prepare, load, Console.fail_eq]
  rfl

theorem prepare_of_refused {e : Error} {o : Options}
    (load : Image.load o.program content = .ok image)
    (fit : Machine.withProgram image.bytes = .error e) : prepare o content out =
      .error (o.console.hear (Account.whole ⟨image.records, [], some e.chain⟩)) := by
  have hw : Account.ofCycles [] = [] := rfl
  rw [whole_of_faults, hw, List.append_nil, Console.hear_append, ← Console.fail_eq,
    ← Console.foldl_log]
  simp only [prepare, load, fit]

/-- One account serves for all settings: what they ask for is told of it. -/
theorem Stops.exists_account (h : Stops content) (path : String) (out : Writer) :
    ∃ a exit printed, Accounts path out content a ∧ ∀ traced verbosity,
      runProgram ⟨path, traced, verbosity⟩ content out =
        some ⟨exit, printed, a.told traced verbosity⟩ := by
  cases load : Image.load path content with
  | error e =>
    exact ⟨_, _, _, .unloaded load, fun _ _ => runProgram_of_unready (prepare_of_unloaded load)⟩
  | ok image =>
    cases fit : Machine.withProgram image.bytes with
    | error e =>
      exact ⟨_, _, _, .refused load fit,
        fun _ _ => runProgram_of_unready (prepare_of_refused load fit)⟩
    | ok m =>
      obtain ⟨text, hc, hb⟩ := exists_text_of_load load
      obtain ⟨t, r, he⟩ := h text m hc (hb ▸ fit)
      obtain ⟨n, hn, hw, hs⟩ :=
        Session.exists_answer (b := printing m out) Collector.neverFails rfl he
      cases last : ((printing m out).after n).step.2 with
      | ok st =>
        have hst : st ≠ .running := fun hst => hs (last.trans (congrArg Except.ok hst))
        refine ⟨_, 0, _, .halts load fit hw last hst, fun traced v =>
          runProgram_of_answer (o := ⟨path, traced, v⟩) load fit hn hw hs ?_⟩
        rw [last, whole_of_halts]
        rfl
      | error e =>
        refine ⟨_, 1, _, .faults load fit hw last, fun traced v =>
          runProgram_of_answer (o := ⟨path, traced, v⟩) load fit hn hw hs ?_⟩
        rw [last, whole_of_faults, Console.hear_append _ (_ ++ _), ← Console.fail_eq]
        rfl

end

/-- What is told of a file whose program stops, for all settings. A lower verbosity leaves out the
records that it does not allow, and a trace that is not asked for leaves out its lines, of which
there is one for each fetch that succeeds. -/
theorem verbosity_filters_trace_adds (path : String) {content : Except ReadError ByteArray}
    (h : Stops content) (out : Writer) :
    ∃ a exit printed, Accounts path out content a ∧
      (∀ traced verbosity, runProgram ⟨path, traced, verbosity⟩ content out =
        some ⟨exit, printed, a.told traced verbosity⟩) ∧
      (∀ arguments traced verbosity (read : Reader),
        request arguments = .run ⟨path, traced, verbosity⟩ → read path = content →
        report arguments read out = some ⟨exit, printed,
          String.join ((a.told traced verbosity).map Diagnostic.line)⟩) ∧
      (∀ traced v w, v ≤ w → a.told traced v = (a.told traced w).filter (Diagnostic.allowed v)) ∧
      (∀ v, a.told false v = (a.told true v).filter (!·.isTrace)) ∧
      ∀ v, (a.told true v).countP Diagnostic.isTrace = a.cycles.countP (·.1.fetch.isOk) := by
  obtain ⟨a, exit, printed, ha, hr⟩ := h.exists_account path out
  refine ⟨a, exit, printed, ha, hr, ?_, ?_, ?_, a.countP_isTrace⟩
  · intro arguments traced verbosity read hq hc
    rw [report_of_run hq, hc, hr]
    rfl
  · intro traced v w hvw
    rw [a.told_eq_filter, a.told_eq_filter, Diagnostic.filter_allowed_of_le hvw]
  · intro v
    rw [a.told_eq_filter, a.told_eq_filter, Diagnostic.filter_isTrace]

/-- A line that is skipped, and a program that prints the stack pointer and then fails. -/
def strayText : String := "what\n01000111\n00000111\n"

theorem verbosity_filters_trace_adds_stray :
    Stops (.ok strayText.toUTF8) ∧ ∃ exit printed told,
      runProgram ⟨"p.ls8", true, 3⟩ (.ok strayText.toUTF8) .unbounded =
        some ⟨exit, printed, told⟩ ∧
      runProgram ⟨"p.ls8", true, 0⟩ (.ok strayText.toUTF8) .unbounded =
        some ⟨exit, printed, told.filter (Diagnostic.allowed 0)⟩ ∧
      runProgram ⟨"p.ls8", false, 3⟩ (.ok strayText.toUTF8) .unbounded =
        some ⟨exit, printed, told.filter (!·.isTrace)⟩ := by
  let m : Machine := ⟨.initial, .ofImage [0x47, 7], .running⟩
  let t := ((alone m).after 1).step.1
  have hm : Machine.withProgram (Image.parse strayText).bytes = .ok m := by
    have hb : (Image.parse strayText).bytes = [0x47, 7] := by decide +kernel
    rw [hb]
    exact Machine.withProgram_of_le (by decide)
  have he : (alone m).Ends t (.error (.unknownOpcode 0)) := by
    have hw : (alone m).Working 1 := by
      intro k hk
      obtain rfl : k = 0 := Nat.lt_one_iff.mp hk
      decide +kernel
    have hs : ((alone m).after 1).step = (t, .error (.unknownOpcode 0)) :=
      Prod.ext rfl (by decide +kernel)
    exact Session.ends_iff.mpr ⟨1, hw, hs, nofun⟩
  have hstops : Stops (.ok strayText.toUTF8) := by
    intro text m' hc hm'
    obtain rfl := toUTF8_inj (Except.ok.inj hc)
    obtain rfl := Except.ok.inj (hm.symm.trans hm')
    exact ⟨t, _, he⟩
  obtain ⟨a, exit, printed, -, hr, -, hv, ht, -⟩ :=
    verbosity_filters_trace_adds "p.ls8" hstops .unbounded
  refine ⟨hstops, exit, printed, a.told true 3, hr true 3, ?_, ?_⟩
  · rw [← hv true 0 3 (Nat.zero_le 3)]
    exact hr true 0
  · rw [← ht 3]
    exact hr false 3

end Command

end LS8
