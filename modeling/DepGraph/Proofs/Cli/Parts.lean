import DepGraph.Cli.Arguments
import Mathlib.Data.List.Basic

/-!
# The parts of a command line

What a command line says, told without levels, errors or anything that was read before: the
words from left to right, each of them an operand, one or more flags, or an option with its
value, which may be in the same word or be the next one (`DepGraph.Cli.parts`). A file that is
named after `-b` or `--batch`, in whatever spelling and wherever it stands, is one of the
values of that option (`DepGraph.Cli.batchesAmong`). There are three options with values, and
they are spelled alike at every level, so that their letters and names are all that has to be
known (`DepGraph.Cli.Level.valuedByLetter?_eq`, `DepGraph.Cli.Level.valuedByName?_eq`).
-/

namespace DepGraph.Cli

/-- A part of a command line. -/
inductive Part
  /-- One or more options that have no values. -/
  | flags
  | value (o : Opt) (text : String)
  | operand (word : String)
deriving DecidableEq

/-! ### Spellings -/

/-- The option with a value that has a letter. -/
def valuedByLetter? : Char → Option Opt
  | 'b' => some .batch
  | 'c' => some .config
  | 'd' => some .depth
  | _ => none

/-- The option with a value that has a name. -/
def valuedByName? : String → Option Opt
  | "batch" => some .batch
  | "config" => some .config
  | "depth" => some .depth
  | _ => none

/-- What can be said in one word. -/
inductive Spelling
  /-- From here on all words are operands. -/
  | separator
  /-- Options that have no values. -/
  | flags
  /-- An option with its value, possibly after some flags. -/
  | attached (o : Opt) (text : String)
  /-- An option whose value is the next word, possibly after some flags. -/
  | awaiting (o : Opt)
  | operand (word : String)
deriving DecidableEq

/-- Letters are at least one. -/
theorem Shape.letters_ne_nil {word : String} {letters : List Char}
    (h : Shape.ofWord word = .letters letters) : letters ≠ [] := by
  rw [ofWord] at h
  split at h
  · cases h
  · dsimp only at h
    split at h <;> cases h
  · obtain rfl := Shape.letters.inj h
    exact List.cons_ne_nil _ _
  · cases h

namespace Spelling

/-- An option with a value, which may be there or not. -/
def ofValued (o : Opt) : Option String → Spelling
  | some text => attached o text
  | none => awaiting o

/-- The value in what follows a letter. It is not the equals sign that it may begin with. -/
def textAfter? : List Char → Option String
  | [] => none
  | '=' :: text => some (String.ofList text)
  | text => some (String.ofList text)

/-- Letters after a dash. What follows the first letter of an option with a value is the
value. -/
def ofLetters : List Char → Spelling
  | [] => flags
  | c :: rest =>
    match valuedByLetter? c with
    | none => ofLetters rest
    | some o => ofValued o (textAfter? rest)

/-- A name after two dashes, and what stands behind an equals sign. -/
def ofLong (name : String) (text : Option String) : Spelling :=
  match valuedByName? name with
  | none => flags
  | some o => ofValued o text

/-- Whether options are what is said. -/
def IsOption : Spelling → Prop
  | separator | operand _ => False
  | flags | attached _ _ | awaiting _ => True

theorem isOption_ofValued (o : Opt) (text : Option String) : (ofValued o text).IsOption := by
  cases text <;> exact trivial

theorem isOption_ofLetters (letters : List Char) : (ofLetters letters).IsOption := by
  induction letters with
  | nil => exact trivial
  | cons c rest ih =>
    rw [ofLetters]
    split
    · exact ih
    · exact isOption_ofValued _ _

theorem isOption_ofLong (name : String) (text : Option String) : (ofLong name text).IsOption := by
  rw [ofLong]
  split
  · exact trivial
  · exact isOption_ofValued _ _

/-- What a word says. -/
def ofWord (word : String) : Spelling :=
  match word.toList with
  | ['-', '-'] => separator
  | '-' :: '-' :: rest =>
    let name := String.ofList (rest.takeWhile (· ≠ '='))
    match rest.dropWhile (· ≠ '=') with
    | [] => ofLong name none
    | _ :: text => ofLong name (some (String.ofList text))
  | '-' :: c :: rest => ofLetters (c :: rest)
  | _ => operand word

/-- The parts that are complete with the word. -/
def parts : Spelling → List Part
  | flags => [.flags]
  | attached o text => [.value o text]
  | operand word => [.operand word]
  | separator | awaiting _ => []

/-- Options are no operands. -/
theorem IsOption.operand_notMem {s : Spelling} (h : s.IsOption) (word : String) :
    .operand word ∉ s.parts := by
  cases s with
  | separator | operand _ => exact False.elim h
  | flags | attached _ _ =>
    intro hmem
    cases List.mem_singleton.mp hmem
  | awaiting _ => exact List.not_mem_nil

/-- The option that awaits its value. -/
def awaits : Spelling → Option Opt
  | awaiting o => some o
  | _ => none

/-- What a word of some shape says. -/
def ofShape (word : String) : Shape → Spelling
  | .separator => separator
  | .long name text => ofLong name text
  | .letters letters => ofLetters letters
  | .plain => operand word

/-- A word says what its shape is understood to say. -/
theorem ofWord_eq_ofShape (word : String) : ofWord word = ofShape word (Shape.ofWord word) := by
  rw [ofWord, Shape.ofWord]
  generalize word.toList = letters
  split
  · rfl
  · next rest _ =>
    rcases htext : rest.dropWhile (fun c => !decide (c = '=')) with _ | ⟨c, text⟩
    · simp [htext, ofShape]
    · -- what is left begins with the equals sign
      have hc := List.head?_dropWhile_not (fun c => !decide (c = '=')) rest
      rw [htext] at hc
      obtain rfl : c = '=' := by simpa using hc
      simp [htext, ofShape]
  · simp [ofShape]
  · simp_all [ofShape]

end Spelling

/-! ### Parts -/

/-- **The parts of a command line**, where the first word may be the value that an option
awaits. -/
def parts : Option Opt → List String → List Part
  | _, [] => []
  | some o, text :: words => .value o text :: parts none words
  | none, word :: words =>
    match Spelling.ofWord word with
    | .separator => words.map .operand
    | s => s.parts ++ parts s.awaits words

theorem parts_of_separator {word : String} (h : Spelling.ofWord word = .separator)
    (words : List String) : parts none (word :: words) = words.map .operand := by
  rw [parts, h]

theorem parts_cons {word : String} (h : Spelling.ofWord word ≠ .separator) (words : List String) :
    parts none (word :: words) =
      (Spelling.ofWord word).parts ++ parts (Spelling.ofWord word).awaits words := by
  rw [parts]
  split
  · next hseparator => exact absurd hseparator h
  · rfl

/-- The batch files that are named, in their order. -/
def batchesAmong (ps : List Part) : List String :=
  ps.filterMap fun
    | .value .batch text => some text
    | _ => none

/-- All the spellings of an option with its value. -/
example :
    batchesAmong (parts none ["-b", "one", "-btwo", "-b=three", "ingest", "--batch", "four",
        "--batch=five", "-vvb", "six"]) =
      ["one", "two", "three", "four", "five", "six"] := by
  decide +kernel

theorem batchesAmong_append (ps qs : List Part) :
    batchesAmong (ps ++ qs) = batchesAmong ps ++ batchesAmong qs :=
  List.filterMap_append

/-- Operands are no batch files. -/
theorem batchesAmong_map_operand (words : List String) :
    batchesAmong (words.map .operand) = [] := by
  rw [batchesAmong, List.filterMap_map]
  exact List.filterMap_eq_nil_iff.mpr fun _ _ => rfl

/-! ### The options of a level -/

/-- Whatever the level, a letter stands for the same option with a value, or for none. -/
theorem Level.valuedByLetter?_eq {l : Level} {c : Char} {o : Opt} (h : l.ofLetter? c = some o) :
    valuedByLetter? c = if o.takesValue then some o else none := by
  have hletter : o.letter? = some c := by simpa using List.find?_some h
  cases o <;> simp only [Opt.letter?, Option.some.injEq, reduceCtorEq] at hletter <;>
    subst hletter <;> rfl

/-- Whatever the level, a name stands for the same option with a value, or for none. -/
theorem Level.valuedByName?_eq {l : Level} {name : String} {o : Opt}
    (h : l.ofLongName? name = some o) :
    valuedByName? name = if o.takesValue then some o else none := by
  have hname : o.longName = name := by simpa using List.find?_some h
  subst hname
  cases o <;> rfl

end DepGraph.Cli
