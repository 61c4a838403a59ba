import LS8.Command
import Mathlib.Data.List.Basic
import Mathlib.Data.Nat.Notation

/-! Arguments of the command. Main statement: arguments that name one program are a request to run it,
whatever flags stand before and after its name. -/
namespace LS8.Command

/-- A name that is taken for a program without further ado: it does not look like a flag. -/
def Names (path : String) : Prop :=
  path ≠ "" ∧ (path.toList.head? = some '-' → path = "-")

instance (path : String) : Decidable (Names path) := inferInstanceAs (Decidable (_ ∧ (_ → _)))

/-- Arguments in any order: at most one program, `--trace` at most once, and flags that ask for
`verbosity` more levels, each on its own or as letters behind one dash. -/
inductive Arguments : List String → Option String → Bool → ℕ → Prop
  | none : Arguments [] none false 0
  | program {arguments : List String} {traced : Bool} {verbosity : ℕ} {path : String}
      (names : Names path) (before : Arguments arguments .none traced verbosity) :
      Arguments (arguments ++ [path]) (some path) traced verbosity
  | trace {arguments : List String} {program : Option String} {verbosity : ℕ}
      (before : Arguments arguments program false verbosity) :
      Arguments (arguments ++ ["--trace"]) program true verbosity
  | verbose {arguments : List String} {program : Option String} {traced : Bool} {verbosity : ℕ}
      (before : Arguments arguments program traced verbosity) :
      Arguments (arguments ++ ["--verbose"]) program traced (verbosity + 1)
  | letters {arguments : List String} {program : Option String} {traced : Bool} {verbosity : ℕ}
      (more : ℕ) (before : Arguments arguments program traced verbosity) :
      Arguments (arguments ++ [String.ofList ('-' :: 'v' :: List.replicate more 'v')]) program traced
        (verbosity + 1 + more)

namespace Scan

/-- What has been read are such arguments. -/
structure Has (s : Scan) (program : Option String) (traced : Bool) (verbosity : ℕ) : Prop where
  program : s.program = program
  named : s.program ≠ some ""
  traced : .trace ∈ s.given ↔ traced
  verbosity : s.verbosity = verbosity
  literal : s.literal = false

variable {s : Scan} {program : Option String} {traced : Bool} {verbosity : ℕ}

theorem Has.not_literal (h : s.Has program traced verbosity) : ¬ s.literal = true := by
  rw [h.literal]
  exact Bool.false_ne_true

theorem Has.verbose (h : s.Has program traced verbosity) :
    ∃ t, s.flag .verbose = .ok t ∧ t.Has program traced (verbosity + 1) := by
  refine ⟨_, if_neg h.named, h.program, h.named, ?_, congrArg (· + 1) h.verbosity, h.literal⟩
  have hm : Flag.trace ∈ s.given.erase .verbose ++ [.verbose] ↔ Flag.trace ∈ s.given := by
    simp [List.mem_erase_of_ne]
  exact hm.trans h.traced

theorem Has.letters (h : s.Has program traced verbosity) (n : ℕ) :
    ∃ t, (List.replicate n 'v').foldlM letter s = .ok t ∧ t.Has program traced (verbosity + n) := by
  induction n generalizing s verbosity with
  | zero => exact ⟨s, rfl, h⟩
  | succ n ih =>
    obtain ⟨t, ht, hv⟩ := h.verbose
    obtain ⟨u, hu, hn⟩ := ih hv
    refine ⟨u, ?_, by rwa [Nat.add_right_comm] at hn⟩
    have hl : s.letter 'v' = .ok t := ht
    rw [List.replicate_succ, List.foldlM_cons, hl]
    exact hu

theorem Has.argument_trace (h : s.Has program false verbosity) :
    ∃ t, s.argument "--trace" = .ok t ∧ t.Has program true verbosity := by
  have hn : Flag.trace ∉ s.given := fun hm => Bool.false_ne_true (h.traced.mp hm)
  have hf : s.flag .trace = .ok { s with given := s.given ++ [.trace] } := by
    simp only [flag, if_neg h.named, if_neg hn]
  refine ⟨{ s with given := s.given ++ [.trace] }, ?_, h.program, h.named, by simp, h.verbosity,
    h.literal⟩
  rw [argument, if_neg h.not_literal]
  exact hf

theorem Has.argument_verbose (h : s.Has program traced verbosity) :
    ∃ t, s.argument "--verbose" = .ok t ∧ t.Has program traced (verbosity + 1) := by
  obtain ⟨t, ht, hv⟩ := h.verbose
  refine ⟨t, ?_, hv⟩
  rw [argument, if_neg h.not_literal]
  exact ht

theorem Has.argument_letters (h : s.Has program traced verbosity) (n : ℕ) :
    ∃ t, s.argument (String.ofList ('-' :: 'v' :: List.replicate n 'v')) = .ok t ∧
      t.Has program traced (verbosity + 1 + n) := by
  obtain ⟨t, ht, hv⟩ := h.letters (n + 1)
  refine ⟨t, ?_, by rwa [Nat.add_assoc, Nat.add_comm 1]⟩
  rw [argument, if_neg h.not_literal, String.toList_ofList]
  exact ht

theorem Has.argument_program (h : s.Has none traced verbosity) {path : String} (hp : Names path) :
    ∃ t, s.argument path = .ok t ∧ t.Has (some path) traced verbosity := by
  refine ⟨{ s with program := some path }, ?_, rfl, fun he => hp.1 (Option.some.inj he), h.traced,
    h.verbosity, h.literal⟩
  have hs : s.positional path = .ok { s with program := some path } := by
    rw [positional, h.program]
  -- of the texts that start with a dash only the dash itself names a program
  have hd : ∀ c rest, path.toList = '-' :: c :: rest → False := by
    intro c rest hc
    obtain rfl : path = "-" := hp.2 (by rw [hc]; rfl)
    exact nomatch hc
  rw [argument, if_neg h.not_literal]
  split
  · next hc => exact (hd _ _ hc).elim
  · next hc => exact (hd _ _ hc).elim
  · next hc => exact (hd _ _ hc).elim
  · exact hs

end Scan

section

variable {arguments : List String} {program : Option String} {traced : Bool} {verbosity : ℕ}

theorem Arguments.exists_scan (h : Arguments arguments program traced verbosity) :
    ∃ s, arguments.foldlM Scan.argument .start = .ok s ∧ s.Has program traced verbosity := by
  have hadd : ∀ {arguments : List String} {s t : Scan} (argument : String),
      arguments.foldlM Scan.argument .start = .ok s → s.argument argument = .ok t →
        (arguments ++ [argument]).foldlM Scan.argument .start = .ok t := by
    intro arguments s t argument hs ht
    rw [List.foldlM_append, hs]
    change (s.argument argument >>= pure) = _
    rw [ht]
    rfl
  induction h with
  | none => exact ⟨.start, rfl, rfl, nofun, by simp [Scan.start], rfl, rfl⟩
  | program names before ih =>
    obtain ⟨s, hs, hh⟩ := ih
    obtain ⟨t, ht, hh⟩ := hh.argument_program names
    exact ⟨t, hadd _ hs ht, hh⟩
  | trace before ih =>
    obtain ⟨s, hs, hh⟩ := ih
    obtain ⟨t, ht, hh⟩ := hh.argument_trace
    exact ⟨t, hadd _ hs ht, hh⟩
  | verbose before ih =>
    obtain ⟨s, hs, hh⟩ := ih
    obtain ⟨t, ht, hh⟩ := hh.argument_verbose
    exact ⟨t, hadd _ hs ht, hh⟩
  | letters more before ih =>
    obtain ⟨s, hs, hh⟩ := ih
    obtain ⟨t, ht, hh⟩ := hh.argument_letters more
    exact ⟨t, hadd _ hs ht, hh⟩

theorem Arguments.request_eq {path : String}
    (h : Arguments arguments (some path) traced verbosity) :
    request arguments = .run ⟨path, traced, verbosity⟩ := by
  obtain ⟨s, hs, hh⟩ := h.exists_scan
  have hn : path ≠ "" := fun he => hh.named (by rw [hh.program, he])
  have ht : decide (.trace ∈ s.given) = traced := by
    rw [Bool.eq_iff_iff, decide_eq_true_iff]
    exact hh.traced
  simp only [request, hs, Scan.finish, hh.program, hh.verbosity, ht]

end

end LS8.Command
