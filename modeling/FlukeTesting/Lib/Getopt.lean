import Mathlib.Data.List.Basic
import Mathlib.Tactic.Common

/-!
# `getopt` of the GNU C library

A word of a command line that begins with `-` holds options, one behind the other, and perhaps the
argument of the last one. The argument may also be the next word. The other words are operands, and
a word `--` makes operands of all words behind it. Options may stand behind operands unless the
environment asks for the behaviour of POSIX.

However the options are put together and wherever they stand, what is found is the options in their
order and the operands in theirs.
-/

namespace Getopt

/-- What an option string says of a character: it is no option, an option that stands alone, or one
with an argument. -/
abbrev Spec := Char → Option Bool

/-- The meaning of an option string, in which `:` follows an option with an argument. -/
def Spec.ofString : List Char → Spec
  | [], _ => none
  | d :: rest, c => if c = d && c ≠ ':' then some (rest.head? = some ':') else ofString rest c

/-- What `getopt` returns: an option, one with its argument, or `?`. -/
inductive Found
  | option (c : Char)
  | argument (c : Char) (text : List Char)
  | unknown
  deriving DecidableEq

/-- The options of one word, and an option whose argument is still to come. -/
def cluster (spec : Spec) : List Char → List Found × Option Char
  | [] => ([], none)
  | c :: rest =>
    match spec c with
    | none => (.unknown :: (cluster spec rest).1, (cluster spec rest).2)
    | some false => (.option c :: (cluster spec rest).1, (cluster spec rest).2)
    | some true => if rest = [] then ([], some c) else ([.argument c rest], none)

/-- What is found on a command line, behind an option whose argument is to come, and the
operands. -/
def scan (spec : Spec) (posix : Bool) :
    Option Char → List (List Char) → List Found × List (List Char)
  | none, [] => ([], [])
  | some _, [] => ([.unknown], [])
  | some c, text :: rest =>
    (.argument c text :: (scan spec posix none rest).1, (scan spec posix none rest).2)
  | none, word :: rest =>
    match word with
    | '-' :: c :: cs =>
      if c = '-' && cs = [] then ([], rest)
      else
        let (found, pending) := cluster spec (c :: cs)
        (found ++ (scan spec posix pending rest).1, (scan spec posix pending rest).2)
    | _ =>
      if posix then ([], word :: rest)
      else ((scan spec posix none rest).1, word :: (scan spec posix none rest).2)

/-! ## Command lines -/

/-- Options without arguments. -/
structure Flags (spec : Spec) where
  chars : List Char
  alone : ∀ c ∈ chars, spec c = some false

/-- An operand: a word that does not begin with `-`, or `-` itself. -/
structure Operand where
  text : List Char
  plain : text.head? = some '-' → text = ['-']

/-- A part of a command line: an operand, some options, or some options of which the last has an
argument in the same word or in the next one. -/
inductive Part (spec : Spec)
  | operand (operand : Operand)
  | flags (flags : Flags spec) (nonempty : flags.chars ≠ [])
  | attached (flags : Flags spec) (c : Char) (takes : spec c = some true) (text : List Char)
    (nonempty : text ≠ [])
  | separate (flags : Flags spec) (c : Char) (takes : spec c = some true) (text : List Char)

variable {spec : Spec}

/-- The words of a part. -/
def Part.words : Part spec → List (List Char)
  | operand o => [o.text]
  | flags fs _ => ['-' :: fs.chars]
  | attached fs c _ text _ => ['-' :: (fs.chars ++ c :: text)]
  | separate fs c _ text => ['-' :: (fs.chars ++ [c]), text]

/-- The options of a part. -/
def Part.options : Part spec → List Found
  | operand _ => []
  | flags fs _ => fs.chars.map .option
  | attached fs c _ text _ => fs.chars.map .option ++ [.argument c text]
  | separate fs c _ text => fs.chars.map .option ++ [.argument c text]

/-- The operands of a part. -/
def Part.operands : Part spec → List (List Char)
  | operand o => [o.text]
  | flags _ _ | attached _ _ _ _ _ | separate _ _ _ _ => []

/-- Options without arguments are found one by one. -/
theorem cluster_append (fs : Flags spec) (rest : List Char) :
    cluster spec (fs.chars ++ rest) =
      (fs.chars.map .option ++ (cluster spec rest).1, (cluster spec rest).2) := by
  obtain ⟨chars, alone⟩ := fs
  induction chars with
  | nil => rfl
  | cons c chars ih =>
    have hrest := ih fun d hd => alone d (List.mem_cons_of_mem c hd)
    simp [cluster, alone c (by simp), hrest]

/-- A word of options is read as a cluster unless it is `--`. -/
theorem scan_cluster (posix : Bool) {word : List Char} (hne : word ≠ [])
    (hdash : word ≠ ['-']) (rest : List (List Char)) :
    scan spec posix none (('-' :: word) :: rest) =
      ((cluster spec word).1 ++ (scan spec posix (cluster spec word).2 rest).1,
        (scan spec posix (cluster spec word).2 rest).2) := by
  obtain ⟨c, cs, rfl⟩ := List.exists_cons_of_ne_nil hne
  have hc : ¬ (c = '-' ∧ cs = []) := fun h => hdash (by rw [h.1, h.2])
  simp [scan, hc]

/-- Options in front of an option with an argument are not `-`. -/
theorem Flags.append_ne (hspec : spec '-' = none) (fs : Flags spec) (rest : List Char)
    (hrest : ∀ c ∈ rest.head?, spec c ≠ none) : fs.chars ++ rest ≠ ['-'] := by
  intro hall
  rcases List.append_eq_singleton_iff.mp hall with ⟨-, hrest'⟩ | ⟨hchars, -⟩
  · exact hrest '-' (by simp [hrest']) hspec
  · have halone := fs.alone '-' (by simp [hchars])
    rw [hspec] at halone
    contradiction

/-- The options and the operand of a part are found, and then those of the rest. -/
theorem scan_part (hspec : spec '-' = none) (p : Part spec) (rest : List (List Char)) :
    scan spec false none (p.words ++ rest) =
      (p.options ++ (scan spec false none rest).1,
        p.operands ++ (scan spec false none rest).2) := by
  cases p with
  | operand o =>
    obtain ⟨text, plain⟩ := o
    change scan spec false none (text :: rest) = _
    cases text with
    | nil => rfl
    | cons c text =>
      by_cases hc : c = '-'
      · subst hc
        obtain rfl : text = [] := List.tail_eq_of_cons_eq (plain rfl)
        rfl
      · simp [scan, hc, Part.options, Part.operands]
  | flags fs nonempty =>
    have hcluster := cluster_append fs []
    rw [List.append_nil] at hcluster
    have hdash := fs.append_ne hspec [] (by simp)
    rw [List.append_nil] at hdash
    rw [Part.words, List.singleton_append, scan_cluster false nonempty hdash, hcluster]
    simp [cluster, Part.options, Part.operands]
  | attached fs c takes text nonempty =>
    have hdash := fs.append_ne hspec (c :: text) (by simp [takes])
    rw [Part.words, List.singleton_append, scan_cluster false (by simp) hdash, cluster_append]
    simp [cluster, takes, nonempty, Part.options, Part.operands]
  | separate fs c takes text =>
    have hdash := fs.append_ne hspec [c] (by simp [takes])
    change scan spec false none (('-' :: (fs.chars ++ [c])) :: text :: rest) = _
    rw [scan_cluster false (by simp) hdash, cluster_append]
    simp [cluster, takes, scan, Part.options, Part.operands]

/-- The options and the operands of all parts are found, and then those of the rest. -/
theorem scan_parts (hspec : spec '-' = none) (parts : List (Part spec))
    (rest : List (List Char)) : scan spec false none (parts.flatMap Part.words ++ rest) =
      (parts.flatMap Part.options ++ (scan spec false none rest).1,
        parts.flatMap Part.operands ++ (scan spec false none rest).2) := by
  induction parts with
  | nil => rfl
  | cons p parts ih =>
    rw [List.flatMap_cons, List.append_assoc, scan_part hspec, ih]
    simp

end Getopt
