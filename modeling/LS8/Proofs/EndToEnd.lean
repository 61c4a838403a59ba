import LS8.Proofs.Invocation
import LS8.Proofs.Overlay
import LS8.Proofs.Printing
import LS8.Proofs.Recurrence

/-! The command from end to end. Main statement: what it prints and how it exits is what a run of the
program in the file says, and neither the trace nor the verbosity shows there. -/
namespace LS8

/-- Errors that no other error stands behind. -/
def Error.Final (e : Error) : Prop := e.chain = e.message

theorem Error.chain_programTooLarge (size : ℕ) : (programTooLarge size).chain =
    "program image of " ++ toString size ++ " bytes does not fit in memory" := by
  change "program image of " ++ Text.decimal size ++ _ = _
  rw [Text.decimal_eq, Nat.toString_eq_ofList_toDigits]

namespace Registers

theorem final_of_missing? {i : UInt8} {e : Error} (h : missing? i = some e) : e.Final := by
  unfold missing? at h
  split_ifs at h
  rw [← Option.some.inj h]
  rfl

theorem final_of_full? {r : Registers} {e : Error} (h : r.full? = some e) : e.Final := by
  unfold full? at h
  split_ifs at h
  rw [← Option.some.inj h]
  rfl

theorem final_of_bare? {r : Registers} {e : Error} (h : r.bare? = some e) : e.Final := by
  unfold bare? at h
  split_ifs at h
  rw [← Option.some.inj h]
  rfl

end Registers

namespace Instruction

open Registers

theorem final_of_fault? {i : Instruction} {c : Cpu} {m : Memory} {e : Error}
    (h : i.fault? c m = some e) : e.Final := by
  unfold fault? at h
  cases hop : i.opcode <;> simp only [hop] at h
  case hlt => exact nomatch h
  case ldi | jmp | prn => exact final_of_missing? h
  case add | mul | cmp =>
    rcases Option.or_eq_some_iff.mp h with h | ⟨-, h⟩ <;> exact final_of_missing? h
  case push | call =>
    rcases Option.or_eq_some_iff.mp h with h | ⟨-, h⟩
    · exact final_of_full? h
    · exact final_of_missing? h
  case pop =>
    rcases Option.or_eq_some_iff.mp h with h | ⟨-, h⟩
    · exact final_of_missing? h
    · exact final_of_bare? h
  case ret => exact final_of_bare? h
  case jeq | jne =>
    split_ifs at h
    exact final_of_missing? h

theorem final_of_decode {bytes : Fetched} {e : Error} (h : decode bytes = .error e) :
    e.Final := by
  unfold decode Opcode.decode at h
  cases ho : Opcode.ofByte? bytes.op with
  | none =>
    simp only [ho, Except.error.injEq] at h
    rw [← h]
    rfl
  | some op =>
    simp only [ho] at h
    exact nomatch h

end Instruction

/-- A step fails with an error of the machine, unless its sink refuses a value. -/
theorem Machine.final_of_error {σ : Type} [Sink σ] (hσ : Sink.NeverFails σ) {m : Machine}
    {sink : σ} {e : Error} (h : (m.step sink).result = .error e) : e.Final := by
  by_cases hr : m.state = .running
  · rw [step_of_running hr] at h
    cases m.course sink with
    | unfetched hp hc =>
      rw [hc] at h
      rw [← Except.error.inj h]
      rfl
    | undecoded e' hp hd hc =>
      rw [hc] at h
      rw [← Except.error.inj h]
      exact Instruction.final_of_decode hd
    | failed i e' hi hk hc =>
      rw [hc] at h
      rw [← Except.error.inj h]
      exact Instruction.final_of_fault? hk
    | refused i cause s hi hk he hc =>
      obtain ⟨t, ht⟩ := hσ.emitAll (i.printed m.cpu) sink
      exact nomatch he.symm.trans ht
    | completed i s hi hk he hc =>
      rw [hc] at h
      exact nomatch h
  · rw [step_of_stopped hr] at h
    exact nomatch h

namespace LinePrinter

/-- A printer that has written `text` and takes all that comes. -/
def endless (text : List Char) : LinePrinter := ⟨⟨String.ofList text, none, ""⟩⟩

theorem emitAll_endless (vs : List UInt8) (text : List Char) :
    Sink.emitAll vs (endless text) = .ok () (endless (text ++ decimalLines vs)) := by
  induction vs generalizing text with
  | nil => rw [decimalLines, List.flatMap_nil, List.append_nil, Sink.emitAll_nil]
  | cons v vs ih =>
    have he : Sink.emit v (endless text) = .ok () (endless (text ++ decimalLines [v])) := by
      simp only [Sink.emit, Writer.write, endless, line_eq, ← String.ofList_append]
    rw [Sink.emitAll_cons, he]
    simp only [ih]
    rw [List.append_assoc, ← decimalLines_append, List.singleton_append]

end LinePrinter

namespace Session

variable {ω ω' : Type} [Observer ω] [Observer ω']

/-- A session that prints has done the same as one that collects. -/
structure Mirrors (a : Session Collector ω) (b : Session LinePrinter ω') : Prop where
  machine : b.machine = a.machine
  sink : b.sink = .endless (decimalLines a.collected)

section

variable {a t : Session Collector ω} {b : Session LinePrinter ω'} {r : Except Error State}

theorem Mirrors.step (h : Mirrors a b) : Mirrors a.step.1 b.step.1 ∧ b.step.2 = a.step.2 := by
  have ha := Collector.emitAll_eq a.machine.offered a.sink
  have hb := LinePrinter.emitAll_endless a.machine.offered (decimalLines a.collected)
  have hs := Machine.step_of_accepted hb ha
  rw [step_eq b, h.machine, h.sink, hs]
  refine ⟨⟨rfl, ?_⟩, rfl⟩
  rw [step_collector, decimalLines_append]

theorem Mirrors.after (h : Mirrors a b) (n : ℕ) : Mirrors (a.after n) (b.after n) := by
  induction n with
  | zero => exact h
  | succ n ih =>
    rw [after_succ, after_succ]
    exact ih.step.1

/-- A limit as high as the number of configurations is as good as none. -/
theorem Mirrors.run_eq (h : Mirrors a b) (he : a.Ends t r) :
    ∃ u, b.run (Fintype.card Machine.Configuration) = (u, .ofResult r) ∧ Mirrors t u := by
  obtain ⟨n, hw, hs, hr⟩ := he.exists_working
  have hlt := lt_of_stops Collector.neverFails hw (by rwa [hs])
  obtain ⟨limit, hl⟩ := Nat.exists_eq_add_of_lt hlt
  have hbw : b.Working n := fun k hk => (h.after k).step.2.trans (hw k hk)
  obtain ⟨hm, hb⟩ := (h.after n).step
  rw [hs] at hm hb
  have hstep : (b.after n).step = ((b.after n).step.1, r) := by
    rw [← (show (b.after n).step.2 = r from hb)]
  refine ⟨(b.after n).step.1, ?_, hm⟩
  rw [hl]
  exact run_of_working_of_answer hbw hstep hr limit

end

theorem Ends.unique {σ : Type} [Sink σ] {s t t' : Session σ ω} {r r' : Except Error State}
    (h : s.Ends t r) (h' : s.Ends t' r') : t = t' ∧ r = r' := by
  obtain ⟨n, hw, hs, hr⟩ := h.exists_working
  obtain ⟨n', hw', hs', hr'⟩ := h'.exists_working
  have hn : n = n' := by
    rcases Nat.lt_trichotomy n n' with hlt | he | hlt
    · exact (hr (by rw [← hw' n hlt, hs])).elim
    · exact he
    · exact (hr' (by rw [← hw n' hlt, hs'])).elim
  subst hn
  exact Prod.mk.inj (hs.symm.trans hs')

end Session

namespace Command

theorem configurations_eq : configurations = Fintype.card Machine.Configuration := by
  refine Eq.trans ?_ Machine.card_configuration.symm
  unfold configurations
  generalize 64 + 8 * 8 + 3 + 256 * 8 = bits
  rfl

/-- The text ends with a line, or with several if the line quotes line ends, that says `last`. -/
def EndsWithLine (text last : String) : Prop :=
  ∃ earlier, text = earlier ++ last ++ "\n" ∧ (earlier = "" ∨ ∃ e, earlier = e ++ "\n")

theorem endsWithLine_report {e : Ending} {earlier : List Diagnostic} {failure : String}
    (h : e.told = earlier ++ [.failure failure]) : EndsWithLine e.report.stderr failure := by
  refine ⟨String.join (earlier.map Diagnostic.line), ?_, ?_⟩
  · change String.join (e.told.map Diagnostic.line) = _
    rw [h, List.map_append, String.join_append, String.append_assoc]
    rfl
  · rcases List.eq_nil_or_concat earlier with rfl | ⟨init, d, rfl⟩
    · exact Or.inl rfl
    · refine Or.inr ⟨String.join (init.map Diagnostic.line) ++ d.text, ?_⟩
      rw [List.concat_eq_append, List.map_append, String.join_append, String.append_assoc]
      rfl

/-- The session of a program that is run on its own. -/
def alone (m : Machine) : Session Collector Unit := ⟨m, .empty, ()⟩

/-- The program in a file, if there is one, comes to an end. -/
def Stops (content : Except ReadError ByteArray) : Prop :=
  ∀ text m, content = .ok text.toUTF8 → Machine.withProgram (Image.parse text).bytes = .ok m →
    ∃ t r, (alone m).Ends t r

def unfound (path cause : String) : String := "couldn't find file " ++ path ++ ": " ++ cause

/-- What comes of a file: the values that its program prints, and the message if there is no program
or the program fails. -/
inductive Performs (path : String) : Except ReadError ByteArray → List UInt8 → Option String → Prop
  | unreadable (cause : ReadError) : Performs path (.error cause) []
      (some (unfound path cause.message))
  | notText {bytes : ByteArray} (invalid : ¬ bytes.IsValidUTF8) : Performs path (.ok bytes) []
      (some (unfound path "stream did not contain valid UTF-8"))
  | tooLarge {text : String} (size : 256 < (Image.parse text).bytes.length) :
      Performs path (.ok text.toUTF8) []
        (some ("program image of " ++ toString (Image.parse text).bytes.length ++
          " bytes does not fit in memory"))
  | halts {text : String} {m : Machine} {t : Session Collector Unit}
      (load : Machine.withProgram (Image.parse text).bytes = .ok m)
      (run : (alone m).Ends t (.ok .halted)) : Performs path (.ok text.toUTF8) t.collected none
  | faults {text : String} {m : Machine} {t : Session Collector Unit} {e : Error}
      (load : Machine.withProgram (Image.parse text).bytes = .ok m)
      (run : (alone m).Ends t (.error e)) :
      Performs path (.ok text.toUTF8) t.collected (some e.message)

section

variable {o : Options} {content : Except ReadError ByteArray} {out : Writer} {text : String}

theorem runProgram_of_unloaded {cause : ReadError} {message : String}
    (h : Image.load o.program content = .error ⟨o.program, cause⟩) (hm : cause.message = message) :
    ∃ earlier, runProgram o content out = some ⟨1, "", earlier ++
      [.failure (unfound o.program message)]⟩ := by
  refine ⟨[], ?_⟩
  rw [← hm]
  simp only [runProgram, prepare, h]
  rfl

theorem load_of_invalid {bytes : ByteArray} (h : ¬ bytes.IsValidUTF8) (path : String) :
    Image.load path (.ok bytes) = .error ⟨path, .notText⟩ := by
  have hd : Image.decodeText bytes = .error .notText := by
    rw [Image.decodeText, String.fromUTF8?, dif_neg h]
  simp only [Image.load, Except.bind, hd]

theorem load_of_text (text path : String) :
    ∃ image, Image.load path (.ok text.toUTF8) = .ok image ∧
      image.bytes = (Image.parse text).bytes := by
  have hd : Image.decodeText text.toUTF8 = .ok text := by
    rw [String.toUTF8_eq_toByteArray, Image.decodeText, String.fromUTF8?,
      dif_pos text.isValidUTF8]
    rfl
  let p := Image.parse text
  refine ⟨⟨p.bytes, p.records ++ [.loaded p.bytes.length path]⟩, ?_, rfl⟩
  simp only [Image.load, Except.bind, hd, p]

theorem runProgram_of_refused {image : Image.Parsed} {e : Error}
    (h : Image.load o.program content = .ok image)
    (hm : Machine.withProgram image.bytes = .error e) :
    ∃ earlier, runProgram o content out = some ⟨1, "", earlier ++ [.failure e.chain]⟩ := by
  refine ⟨(image.records.foldl Console.log o.console).lines.toList, ?_⟩
  simp only [runProgram, prepare, h, hm, Console.fail, Array.toList_push]

/-- The console at the end of a run only matters to what is told. -/
theorem runProgram_of_run {image : Image.Parsed} {m : Machine} {t : Session Collector Unit}
    {r : Except Error State} (h : Image.load o.program content = .ok image)
    (hm : Machine.withProgram image.bytes = .ok m) (he : (alone m).Ends t r) :
    ∃ u : Console, runProgram o content .unbounded =
      (conclude u (.ofResult r)).map fun (exit, console) =>
        ⟨exit, String.ofList (decimalLines t.collected), console.lines.toList⟩ := by
  let b : Session LinePrinter Console :=
    ⟨m, ⟨.unbounded⟩, image.records.foldl Console.log o.console⟩
  have hb : Session.Mirrors (alone m) b := ⟨rfl, rfl⟩
  obtain ⟨u, hu, hmt⟩ := hb.run_eq he
  have hp : prepare o content .unbounded = .ok b := by
    simp only [prepare, h, hm, b]
  have hr : b.run configurations = (u, .ofResult r) := by
    rw [configurations_eq]
    exact hu
  refine ⟨u.observer, ?_⟩
  simp only [runProgram, hp, hr, hmt.sink]
  rfl

end

section Performs

variable {path : String} {content : Except ReadError ByteArray} {values : List UInt8}
  {failure : Option String}

theorem Stops.exists_performs (h : Stops content) (path : String) :
    ∃ values failure, Performs path content values failure := by
  cases content with
  | error cause => exact ⟨_, _, .unreadable cause⟩
  | ok bytes =>
    by_cases hv : bytes.IsValidUTF8
    · let text : String := ⟨bytes, hv⟩
      by_cases hl : (Image.parse text).bytes.length ≤ 256
      · have hm := Machine.withProgram_of_le hl
        obtain ⟨t, r, he⟩ := h text _ rfl hm
        obtain ⟨-, -, -, ⟨-, rfl, -⟩ | ⟨-, -, e, rfl⟩⟩ := he.last rfl
        · exact ⟨_, _, .halts hm he⟩
        · exact ⟨_, _, .faults hm he⟩
      · have hlt : 256 < (Image.parse text).bytes.length := Nat.not_le.mp hl
        exact ⟨_, _, .tooLarge hlt⟩
    · exact ⟨_, _, .notText hv⟩

theorem toUTF8_inj {text text' : String} (h : text.toUTF8 = text'.toUTF8) : text = text' :=
  String.toByteArray_inj.mp h

/-- A file without a message is one whose program halts. -/
theorem Performs.failure_eq_none_iff (h : Performs path content values failure) :
    failure = none ↔ ∃ text m t, content = .ok text.toUTF8 ∧
      (Image.parse text).bytes.length ≤ 256 ∧
      Machine.withProgram (Image.parse text).bytes = .ok m ∧ (alone m).Ends t (.ok .halted) := by
  constructor
  · rintro rfl
    cases h with
    | halts load run => exact ⟨_, _, _, rfl, Machine.length_le_of_withProgram load, load, run⟩
  · rintro ⟨text, m, t, hc, hl, hm, he⟩
    cases h with
    | unreadable cause => exact nomatch hc
    | notText invalid =>
      rw [Except.ok.inj hc] at invalid
      exact (invalid text.isValidUTF8).elim
    | tooLarge size =>
      obtain rfl := toUTF8_inj (Except.ok.inj hc)
      exact (Nat.not_lt.mpr hl size).elim
    | halts load run => rfl
    | faults load run =>
      obtain rfl := toUTF8_inj (Except.ok.inj hc)
      obtain rfl := Except.ok.inj (load.symm.trans hm)
      exact nomatch (run.unique he).2

theorem Performs.runProgram_of_some {o : Options} {text : String}
    (h : Performs o.program content values (some text)) :
    ∃ earlier, runProgram o content .unbounded =
      some ⟨1, String.ofList (decimalLines values), earlier ++ [.failure text]⟩ := by
  have hnil : String.ofList (decimalLines []) = "" := rfl
  cases h with
  | unreadable cause =>
    have hl : Image.load o.program (.error cause) = .error ⟨o.program, cause⟩ := rfl
    rw [hnil]
    exact runProgram_of_unloaded hl rfl
  | notText invalid =>
    have hm : ReadError.notText.message = "stream did not contain valid UTF-8" := rfl
    rw [hnil]
    exact runProgram_of_unloaded (load_of_invalid invalid o.program) hm
  | @tooLarge text size =>
    obtain ⟨image, hi, hb⟩ := load_of_text text o.program
    have hm := Machine.withProgram_of_lt size
    rw [← hb] at hm
    obtain ⟨earlier, hr⟩ := runProgram_of_refused hi hm
    refine ⟨earlier, ?_⟩
    rw [hr, hb, hnil, Error.chain_programTooLarge]
  | @faults text m t e load run =>
    obtain ⟨image, hi, hb⟩ := load_of_text text o.program
    rw [← hb] at load
    obtain ⟨u, hr⟩ := runProgram_of_run hi load run
    obtain ⟨n, -, hs, -⟩ := run.exists_working
    have he : e.Final := Machine.final_of_error Collector.neverFails (congrArg Prod.snd hs)
    refine ⟨u.lines.toList, hr.trans ?_⟩
    rw [← (show e.chain = e.message from he), ← Array.toList_push]
    rfl

theorem Performs.runProgram_of_none {o : Options} (h : Performs o.program content values none) :
    ∃ told, runProgram o content .unbounded =
      some ⟨0, String.ofList (decimalLines values), told⟩ := by
  cases h with
  | @halts text m t load run =>
    obtain ⟨image, hi, hb⟩ := load_of_text text o.program
    rw [← hb] at load
    obtain ⟨u, hr⟩ := runProgram_of_run hi load run
    exact ⟨u.lines.toList, hr⟩

/-- What is told before the end is all that trace and verbosity decide on. -/
theorem Performs.exists_ending (h : Performs path content values failure) (traced : Bool)
    (verbosity : ℕ) :
    ∃ told, runProgram ⟨path, traced, verbosity⟩ content .unbounded =
        some ⟨if failure = none then 0 else 1, String.ofList (decimalLines values), told⟩ ∧
      ∀ text ∈ failure, ∃ earlier, told = earlier ++ [.failure text] := by
  cases failure with
  | none =>
    obtain ⟨told, hr⟩ := h.runProgram_of_none (o := ⟨path, traced, verbosity⟩)
    exact ⟨told, hr, fun text ht => nomatch ht⟩
  | some text =>
    obtain ⟨earlier, hr⟩ := h.runProgram_of_some (o := ⟨path, traced, verbosity⟩)
    refine ⟨_, hr, fun last hl => ⟨earlier, ?_⟩⟩
    rw [Option.some.inj hl]

end Performs

theorem report_of_run {arguments : List String} {o : Options} {read : Reader} {out : Writer}
    (h : request arguments = .run o) :
    report arguments read out = (runProgram o (read o.program) out).map Ending.report := by
  simp only [report, h]

/-- The command on a file whose program stops. The request for it is the same wherever the flags are,
and whatever else they ask for, exit code and output are those of the program alone. -/
theorem report_is_library_run (path : String) {content : Except ReadError ByteArray}
    (h : Stops content) :
    (∃ values failure, Performs path content values failure) ∧
      (∀ arguments traced verbosity, Arguments arguments (some path) traced verbosity →
        request arguments = .run ⟨path, traced, verbosity⟩) ∧
      (∀ arguments traced verbosity (read : Reader),
        request arguments = .run ⟨path, traced, verbosity⟩ → read path = content →
        report arguments read .unbounded =
          (runProgram ⟨path, traced, verbosity⟩ content .unbounded).map Ending.report) ∧
      ∀ values failure, Performs path content values failure →
        (failure = none ↔ ∃ text m t, content = .ok text.toUTF8 ∧
          (Image.parse text).bytes.length ≤ 256 ∧
          Machine.withProgram (Image.parse text).bytes = .ok m ∧
          (alone m).Ends t (.ok .halted)) ∧
        ∀ traced verbosity, ∃ e : Ending,
          runProgram ⟨path, traced, verbosity⟩ content .unbounded = some e ∧
          e.report.exit = (if failure = none then 0 else 1) ∧
          e.report.stdout = String.ofList (decimalLines values) ∧
          ∀ text ∈ failure, e.told.getLast? = some (.failure text) ∧
            EndsWithLine e.report.stderr text := by
  refine ⟨h.exists_performs path, fun arguments traced verbosity ha => ha.request_eq, ?_,
    fun values failure hp => ⟨hp.failure_eq_none_iff, fun traced verbosity => ?_⟩⟩
  · intro arguments traced verbosity read hq hc
    rw [report_of_run hq, hc]
  · obtain ⟨told, hr, hl⟩ := hp.exists_ending traced verbosity
    refine ⟨_, hr, rfl, rfl, fun text ht => ?_⟩
    obtain ⟨earlier, he⟩ := hl text ht
    refine ⟨?_, endsWithLine_report he⟩
    rw [he, List.getLast?_concat]

/-- A program that prints the stack pointer. -/
def pointerText : String := "01000111 # PRN R7\n00000111\n1\n"

theorem report_is_library_run_pointer :
    Stops (.ok pointerText.toUTF8) ∧
      ∃ stderr, report ["-v", "p.ls8", "--trace", "-vv"]
          (Files.empty.put "p.ls8" (.file pointerText.toUTF8)) .unbounded =
        some ⟨0, "244\n", stderr⟩ := by
  let m : Machine := ⟨.initial, .ofImage [0x47, 7, 0x01], .running⟩
  let t := ((alone m).after 1).step.1
  have hm : Machine.withProgram (Image.parse pointerText).bytes = .ok m := by
    have hb : (Image.parse pointerText).bytes = [0x47, 7, 0x01] := by decide +kernel
    rw [hb]
    exact Machine.withProgram_of_le (by decide)
  have he : (alone m).Ends t (.ok .halted) := by
    have hw : (alone m).Working 1 := by
      intro k hk
      obtain rfl : k = 0 := Nat.lt_one_iff.mp hk
      decide +kernel
    have hs : ((alone m).after 1).step = (t, .ok .halted) := Prod.ext rfl (by decide +kernel)
    exact Session.ends_iff.mpr ⟨1, hw, hs, nofun⟩
  have hstops : Stops (.ok pointerText.toUTF8) := by
    intro text m' hc hm'
    obtain rfl := toUTF8_inj (Except.ok.inj hc)
    obtain rfl := Except.ok.inj (hm.symm.trans hm')
    exact ⟨t, _, he⟩
  obtain ⟨-, hq, hreport, hr⟩ := report_is_library_run "p.ls8" hstops
  have ha : Arguments ["-v", "p.ls8", "--trace", "-vv"] (some "p.ls8") true 3 :=
    .letters 1 (.trace (.program (by decide) (.letters 0 .none)))
  obtain ⟨-, hr⟩ := hr _ _ (.halts hm he)
  obtain ⟨e, hrun, hexit, hstdout, -⟩ := hr true 3
  have hv : t.collected = [244] := by decide +kernel
  have hx : e.report.exit = 0 := hexit
  have hp : e.report.stdout = "244\n" := by
    rw [hstdout, hv]
    rfl
  refine ⟨hstops, e.report.stderr, ?_⟩
  rw [hreport _ _ _ (Files.empty.put "p.ls8" (.file pointerText.toUTF8)) (hq _ _ _ ha) rfl, hrun,
    ← hx, ← hp]
  rfl

end Command

end LS8
