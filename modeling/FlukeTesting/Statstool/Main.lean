import FlukeTesting.Lib.Getopt
import FlukeTesting.Statstool.Log

/-!
# `main`

The options are read first, wherever they stand on the command line. An option that asks for help or
that is unknown ends the program before any file is read. Otherwise `data_parse` is called on every
operand in turn, with the option bits and the scale that the options leave behind.
-/

namespace FlukeTesting.Statstool

open Imperative Scanf

/-- `getopt(argc, argv, "axhtsSTX:")`. -/
def optionSpec : Getopt.Spec := .ofString "axhtsSTX:".toList

/-- `show_help`. -/
def showHelp (name : Text) : Text :=
  "Usage ".toList ++ name ++
    ": [-h] [-x] [-t] [-a] [-T] [-S] [-s] [-X scale] logfile(s)\n".toList ++
    "\t-h help\n".toList ++
    "\t-x extract per-test results and each to a file.\n".toList ++
    "\t-t dump tabbed columns for importing data into a spreadsheet.\n".toList ++
    "\t-a run stats on all the log, ignore any TAGs.\n".toList ++
    "\t-T Tagged output (for autotest integration).\n".toList ++
    "\t-X Scale values by a given value.\n".toList ++
    "\t-S Statistics summary for all test runs.\n".toList

/-- `atof`. -/
def atof (text : Text) : ℚ := sscanf valueFormat text 0

/-- `opts` and `scale_by`. -/
structure Settings where
  opts : Opts := {}
  scaleBy : ℚ := 1

/-- How the program ends. -/
inductive Exit
  | success
  | failure
  deriving DecidableEq

/-- One turn of the option loop. -/
def Settings.option (s : Settings) : Getopt.Found → Except Exit Settings
  | .option 'h' => .error .success
  | .option 'x' => .ok { s with opts := { s.opts with extractResults := true } }
  | .option 't' => .ok { s with opts := { s.opts with tabbedColumns := true } }
  | .option 'a' => .ok { s with opts := { s.opts with statsAllSamples := true } }
  | .option 'T' => .ok { s with opts := { s.opts with taggedOutput := true } }
  | .argument 'X' text => .ok { s with scaleBy := atof text }
  | .option 's' => .ok { s with opts := { s.opts with statsSummary := true } }
  | .option 'S' => .ok { s with opts := { s.opts with statsPerTest := true } }
  | _ => .error .failure

/-- What the program runs in: the behaviour of `getopt`, the files that can be opened, and by the
number of the call of `data_parse` the environment and what the line buffer holds. -/
structure System (K : Type*) where
  posix : Bool
  fopen : Text → Option Text
  env : ℕ → Env K
  junk : ℕ → Buffer

/-- What the program does: the help that it prints, how it ends, and what the calls of `data_parse`
come to, where a file that cannot be opened comes to nothing. -/
structure Result (K : Type*) where
  help : Option Text
  exit : Exit
  parsed : List (Option (Outcome Fault (State K)))

section

variable {K : Type*} [Field K] [LinearOrder K]

/-- The calls of `data_parse`. There is none behind undefined behaviour. -/
def parseFiles (sys : System K) (s : Settings) :
    ℕ → List Text → List (Option (Outcome Fault (State K)))
  | _, [] => []
  | i, name :: rest =>
    match sys.fopen name with
    | none => none :: parseFiles sys s (i + 1) rest
    | some file =>
      let o := dataParse ⟨s.opts, (s.scaleBy : K), sys.env i⟩ (sys.junk i) file
      some o :: if o.fault?.isSome then [] else parseFiles sys s (i + 1) rest

/-- `main`. -/
def main (sys : System K) (name : Text) (args : List Text) : Result K :=
  let (found, operands) := Getopt.scan optionSpec sys.posix none args
  match found.foldlM Settings.option {} with
  | .error exit => ⟨some (showHelp name), exit, []⟩
  | .ok s => ⟨none, .success, parseFiles sys { s with opts := s.opts.complete } 0 operands⟩

end

/-! ## Command lines -/

/-- The argument of the last `-X`. -/
def lastScale : List Getopt.Found → Option Text
  | [] => none
  | .argument _ text :: rest => some ((lastScale rest).getD text)
  | _ :: rest => lastScale rest

/-- What options mean, whatever their order: each flag is set if its letter occurs, and the scale is
the last one. -/
def Settings.meant (s : Settings) (found : List Getopt.Found) : Settings where
  opts := {
    extractResults := s.opts.extractResults || decide (.option 'x' ∈ found)
    tabbedColumns := s.opts.tabbedColumns || decide (.option 't' ∈ found)
    statsAllSamples := s.opts.statsAllSamples || decide (.option 'a' ∈ found)
    taggedOutput := s.opts.taggedOutput || decide (.option 'T' ∈ found)
    statsSummary := s.opts.statsSummary || decide (.option 's' ∈ found)
    statsPerTest := s.opts.statsPerTest || decide (.option 'S' ∈ found) }
  scaleBy := (lastScale found).elim s.scaleBy atof

/-- An option that `main` knows, other than `-h`. -/
inductive Known : Getopt.Found → Prop
  | extractResults : Known (.option 'x')
  | tabbedColumns : Known (.option 't')
  | statsAllSamples : Known (.option 'a')
  | taggedOutput : Known (.option 'T')
  | statsSummary : Known (.option 's')
  | statsPerTest : Known (.option 'S')
  | scale (text : Text) : Known (.argument 'X' text)

/-- One option that is known sets what it means. -/
theorem Known.option {f : Getopt.Found} (h : Known f) (s : Settings) :
    s.option f = .ok (s.meant [f]) := by
  cases h <;> simp [Settings.option, Settings.meant, lastScale]

/-- More options mean what they add. -/
theorem Settings.meant_cons (s : Settings) (f : Getopt.Found) (found : List Getopt.Found) :
    (s.meant [f]).meant found = s.meant (f :: found) := by
  have hscale : (lastScale found).elim ((lastScale [f]).elim s.scaleBy atof) atof =
      (lastScale (f :: found)).elim s.scaleBy atof := by
    cases f with
    | argument c text => cases h : lastScale found <;> simp [lastScale, h]
    | option | unknown => rfl
  simp only [Settings.meant, hscale, List.mem_cons, List.not_mem_nil, or_false,
    Bool.decide_or, Bool.or_assoc]

/-- The option loop on options that are known. -/
theorem foldlM_option {found : List Getopt.Found} (h : ∀ f ∈ found, Known f) (s : Settings) :
    found.foldlM Settings.option s = .ok (s.meant found) := by
  induction found generalizing s with
  | nil =>
    have hnone : s.meant [] = s := by simp [Settings.meant, lastScale]
    rw [hnone]
    rfl
  | cons f found ih =>
    rw [List.foldlM_cons, (h f (by simp)).option s, ← Settings.meant_cons s f found]
    exact ih (fun g hg => h g (List.mem_cons_of_mem f hg)) (s.meant [f])

/-- The option loop on options of which one asks for help, and the others are known. -/
theorem foldlM_help {found : List Getopt.Found} (h : ∀ f ∈ found, f = .option 'h' ∨ Known f)
    (hhelp : .option 'h' ∈ found) (s : Settings) :
    found.foldlM Settings.option s = .error .success := by
  induction found generalizing s with
  | nil => exact absurd hhelp List.not_mem_nil
  | cons f found ih =>
    rw [List.foldlM_cons]
    rcases h f (by simp) with rfl | hknown
    · rfl
    · have hlater : .option 'h' ∈ found := by
        apply (List.mem_cons.mp hhelp).resolve_left
        rintro rfl
        cases hknown
      rw [hknown.option s]
      exact ih (fun g hg => h g (List.mem_cons_of_mem f hg)) hlater _

/-- What `getopt` is told of the characters. -/
theorem optionSpec_eq (c : Char) : optionSpec c =
    if c ∈ ['a', 'x', 'h', 't', 's', 'S', 'T'] then some false
    else if c = 'X' then some true else none := by
  have hspec : optionSpec = .ofString ['a', 'x', 'h', 't', 's', 'S', 'T', 'X', ':'] := rfl
  by_cases hc : c = ':'
  · subst hc
    rfl
  · simp [hspec, Getopt.Spec.ofString, hc, ← ite_or]

/-- An option that stands alone asks for help or is known. -/
theorem known_option {c : Char} (h : optionSpec c = some false) :
    Getopt.Found.option c = .option 'h' ∨ Known (.option c) := by
  have hmem : c ∈ ['a', 'x', 'h', 't', 's', 'S', 'T'] := by
    rw [optionSpec_eq] at h
    by_contra hno
    rw [if_neg hno] at h
    split at h <;> simp at h
  simp only [List.mem_cons, List.not_mem_nil, or_false] at hmem
  obtain rfl | rfl | rfl | rfl | rfl | rfl | rfl := hmem
  · exact Or.inr .statsAllSamples
  · exact Or.inr .extractResults
  · exact Or.inl rfl
  · exact Or.inr .tabbedColumns
  · exact Or.inr .statsSummary
  · exact Or.inr .statsPerTest
  · exact Or.inr .taggedOutput

/-- An option with an argument is known. -/
theorem known_argument {c : Char} (h : optionSpec c = some true) (text : Text) :
    Known (.argument c text) := by
  have hX : c = 'X' := by
    rw [optionSpec_eq] at h
    by_contra hno
    rw [if_neg hno] at h
    split at h <;> simp at h
  rw [hX]
  exact .scale text

/-- The options of a part of a command line ask for help or are known. -/
theorem known_of_part (p : Getopt.Part optionSpec) :
    ∀ f ∈ p.options, f = .option 'h' ∨ Known f := by
  have hflags (fs : Getopt.Flags optionSpec) :
      ∀ f ∈ fs.chars.map Getopt.Found.option, f = .option 'h' ∨ Known f := by
    intro f hf
    obtain ⟨c, hc, rfl⟩ := List.mem_map.mp hf
    exact known_option (fs.alone c hc)
  intro f hf
  cases p with
  | operand o => exact absurd hf List.not_mem_nil
  | flags fs nonempty => exact hflags fs f hf
  | attached fs c takes text _ | separate fs c takes text =>
    rcases List.mem_append.mp hf with hf | hf
    · exact hflags fs f hf
    · rw [List.mem_singleton.mp hf]
      exact Or.inr (known_argument takes text)

section

variable {K : Type*} [Field K] [LinearOrder K]

/-- However options are put together and wherever they stand between the operands, `main` calls
`data_parse` on the operands in their order with what the options mean, unless one asks for help. -/
theorem main_parts (sys : System K) (hposix : sys.posix = false) (name : Text)
    (parts : List (Getopt.Part optionSpec)) :
    main sys name (parts.flatMap Getopt.Part.words) =
      if .option 'h' ∈ parts.flatMap Getopt.Part.options then ⟨some (showHelp name), .success, []⟩
      else
        let s := ({} : Settings).meant (parts.flatMap Getopt.Part.options)
        ⟨none, .success, parseFiles sys { s with opts := s.opts.complete } 0
          (parts.flatMap Getopt.Part.operands)⟩ := by
  have hknown : ∀ f ∈ parts.flatMap Getopt.Part.options, f = .option 'h' ∨ Known f := by
    intro f hf
    obtain ⟨p, -, hp⟩ := List.mem_flatMap.mp hf
    exact known_of_part p f hp
  have hscan := Getopt.scan_parts (optionSpec_eq '-') parts []
  rw [List.append_nil, Getopt.scan, List.append_nil, List.append_nil] at hscan
  rw [main, hposix, hscan]
  by_cases hhelp : .option 'h' ∈ parts.flatMap Getopt.Part.options
  · rw [if_pos hhelp]
    simp only [foldlM_help hknown hhelp]
  · have hall : ∀ f ∈ parts.flatMap Getopt.Part.options, Known f := fun f hf =>
      (hknown f hf).resolve_left fun h => hhelp (h ▸ hf)
    rw [if_neg hhelp]
    simp only [foldlM_option hall]

/-- Behind options that do not ask for help, a word with an unknown option ends the program with
failure before any file is read. -/
theorem main_unknown (sys : System K) (hposix : sys.posix = false) (name : Text)
    (parts : List (Getopt.Part optionSpec))
    (hparts : .option 'h' ∉ parts.flatMap Getopt.Part.options)
    (flags : Getopt.Flags optionSpec) (hflags : 'h' ∉ flags.chars) {c : Char}
    (hunknown : optionSpec c = none) (cs : List Char) (hdash : flags.chars ++ c :: cs ≠ ['-'])
    (rest : List Text) :
    main sys name (parts.flatMap Getopt.Part.words ++ ('-' :: (flags.chars ++ c :: cs)) :: rest) =
      ⟨some (showHelp name), .failure, []⟩ := by
  have hall : ∀ f ∈ parts.flatMap Getopt.Part.options ++ flags.chars.map .option, Known f := by
    intro f hf
    rcases List.mem_append.mp hf with hf | hf
    · obtain ⟨p, hp, hfp⟩ := List.mem_flatMap.mp hf
      exact (known_of_part p f hfp).resolve_left fun h => hparts (h ▸ hf)
    · obtain ⟨d, hd, rfl⟩ := List.mem_map.mp hf
      exact (known_option (flags.alone d hd)).resolve_left fun h =>
        hflags (Getopt.Found.option.inj h ▸ hd)
  rw [main, hposix, Getopt.scan_parts (optionSpec_eq '-') parts, Getopt.scan_cluster false (by simp)
    hdash, Getopt.cluster_append]
  simp only [Getopt.cluster, hunknown, List.append_assoc, List.cons_append]
  rw [← List.append_assoc, List.foldlM_append, foldlM_option hall]
  rfl

end

/-- A system without files. -/
def emptySystem : System ℚ where
  posix := false
  fopen _ := none
  env _ := plainEnv
  junk _ := zeroBuffer

/-- `-x` has no argument. -/
theorem optionSpec_x : optionSpec 'x' = some false := by decide +kernel

/-- `-xX 2 log -S`. -/
def scaledLine : List (Getopt.Part optionSpec) := [
  .separate ⟨['x'], List.forall_mem_singleton.mpr optionSpec_x⟩ 'X' (by decide +kernel) ['2'],
  .operand ⟨['l', 'o', 'g'], by decide⟩,
  .flags ⟨['S'], List.forall_mem_singleton.mpr (by decide +kernel)⟩ (List.cons_ne_nil _ _)]

/-- The options around an operand are read in front of it. -/
theorem scaledLine_main :
    main emptySystem "statstool".toList (scaledLine.flatMap Getopt.Part.words) =
      if .option 'h' ∈ scaledLine.flatMap Getopt.Part.options then
        ⟨some (showHelp "statstool".toList), .success, []⟩
      else
        let s := ({} : Settings).meant (scaledLine.flatMap Getopt.Part.options)
        ⟨none, .success, parseFiles emptySystem { s with opts := s.opts.complete } 0
          (scaledLine.flatMap Getopt.Part.operands)⟩ :=
  main_parts emptySystem rfl "statstool".toList scaledLine

/-- `--help` is no option. -/
theorem longHelp_main :
    main emptySystem "statstool".toList (scaledLine.flatMap Getopt.Part.words ++
      [['-', '-', 'h', 'e', 'l', 'p']]) = ⟨some (showHelp "statstool".toList), .failure, []⟩ :=
  main_unknown emptySystem rfl "statstool".toList scaledLine (by decide +kernel)
    ⟨[], fun _ h => absurd h List.not_mem_nil⟩ List.not_mem_nil (c := '-') (by decide +kernel)
    ['h', 'e', 'l', 'p'] (by decide) []

end FlukeTesting.Statstool
