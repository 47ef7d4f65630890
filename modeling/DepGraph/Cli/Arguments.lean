import DepGraph.Cli.Usage
import DepGraph.Word

/-!
# Understanding the command line

The words are read from left to right, with the ones after the verb read at its level.
An option that takes a value may have it attached – `-bFILE`, `-b=FILE`, `--batch=FILE` –
or take the next word for it. A value of the latter kind is looked at only when the next
thing is dealt with, so mistakes are not always found in the order in which they stand:
what is pending is checked after the word that follows has been recognised, and what is
pending before the verb only after everything behind it.

Common options may be given on both sides of the verb; where they are, those after it
replace those before it. The configuration file may also come from the environment,
which is asked at each level that does not name one.
-/

namespace DepGraph.Cli

/-! ### Words -/

/-- The shapes that a word can have. -/
inductive Shape
  /-- Two dashes: only operands follow. -/
  | separator
  /-- A long option, possibly with a value. -/
  | long (name : String) (value : Option String)
  /-- One or more options by their letters. -/
  | letters (letters : List Char)
  /-- Anything else. -/
  | plain
deriving DecidableEq, Repr

/-- The shape of a word. -/
def Shape.ofWord (word : String) : Shape :=
  match word.toList with
  | ['-', '-'] => separator
  | '-' :: '-' :: rest =>
    let name := String.ofList (rest.takeWhile (· ≠ '='))
    match rest.dropWhile (· ≠ '=') with
    | '=' :: value => long name (some (String.ofList value))
    | _ => long name none
  | '-' :: c :: rest => letters (c :: rest)
  | _ => plain

/-- Whether text after a dash looks like a number: digits with at most one point that is not
the first character, and possibly an exponent, marked by a letter of either case, before
which and after which there is something. -/
def looksNumeric (text : List Char) : Bool :=
  go false false true text
where
  /-- The arguments say whether there was a point or an exponent, and whether this is the
  first character. -/
  go (point exponent first : Bool) : List Char → Bool
    | [] => true
    | c :: rest =>
      if c.isDigit then go point exponent false rest
      else if c = '.' then !first && !point && !exponent && go true exponent false rest
      else (c = 'e' || c = 'E') && !first && !exponent && !rest.isEmpty && go point true false rest

example :
    looksNumeric "2".toList ∧ looksNumeric "1.5e3".toList ∧ looksNumeric "1E5".toList ∧
      looksNumeric "5.".toList ∧
      ¬ looksNumeric ".5".toList ∧ ¬ looksNumeric "1e".toList ∧ ¬ looksNumeric "e1".toList := by
  decide +kernel

/-- The depth that a text stands for: a whole number of sixty-four bits with or without a
sign. -/
def depthOfText? (text : String) : Option Int :=
  let (negative, digits) : Bool × List Char :=
    match text.toList with
    | '-' :: digits => (true, digits)
    | '+' :: digits => (false, digits)
    | digits => (false, digits)
  if digits.isEmpty || !digits.all Char.isDigit then none
  else signedWord? negative (Nat.ofDigitChars 10 digits 0)

/-! ### What has been given -/

/-- What has been given at a level. -/
structure Given where
  batches : List String := []
  config : Option String := none
  json : Bool := false
  verbosity : Option Nat := none
  depth : Option Int := none
  failOnCycles : Bool := false
  operands : List String := []
deriving DecidableEq, Repr

namespace Given

/-- A file name must not be empty. -/
def nonEmpty (value : String) : Except UsageError String :=
  if value.isEmpty then .error .missingValue else .ok value

/-- Take an option with its value. -/
def takeValue (g : Given) (value : String) : Opt → Except UsageError Given
  | .batch => do return { g with batches := g.batches ++ [← nonEmpty value] }
  | .config => do
    if g.config.isSome then throw .repeatedOption
    return { g with config := some (← nonEmpty value) }
  | .depth =>
    if g.depth.isSome then .error .repeatedOption
    else
      match depthOfText? value with
      | some depth => .ok { g with depth := some depth }
      | none => .error .badValue
  | _ => .ok g

/-- Take an option without a value. -/
def takeFlag (g : Given) (level : Level) : Opt → Except UsageError Given
  | .json => if g.json then .error .repeatedOption else .ok { g with json := true }
  | .failOnCycles =>
    if g.failOnCycles then .error .repeatedOption else .ok { g with failOnCycles := true }
  | .verbose => .ok { g with verbosity := some (min 255 (g.verbosity.getD 0 + 1)) }
  | .help => .error .helpWanted
  | .version => .error (.versionWanted level.title)
  | _ => .ok g

end Given

/-! ### Reading words -/

/-- How far reading has come at a level. -/
structure Progress where
  given : Given := {}
  /-- An option that takes a value, and its value if that has been read. -/
  pending : Option (Opt × Option String) := none
  /-- Whether only operands follow. -/
  onlyOperands : Bool := false

namespace Progress

/-- The option whose value is the next word, if there is one. -/
def awaiting (p : Progress) : Option Opt :=
  match p.pending with
  | some (o, none) => some o
  | _ => none

/-- What is given once the pending option is dealt with. -/
def resolved (p : Progress) : Except UsageError Given :=
  match p.pending with
  | none => .ok p.given
  | some (_, none) => .error .missingValue
  | some (o, some value) => p.given.takeValue value o

/-- Deal with the pending option. -/
def resolve (p : Progress) : Except UsageError Progress := do
  return { p with given := ← p.resolved, pending := none }

/-- Read an option that takes a value, which may be attached to it. -/
def readValued (p : Progress) (o : Opt) (value : Option String) : Except UsageError Progress := do
  let p ← p.resolve
  match value with
  | some value => return { p with given := ← p.given.takeValue value o }
  | none => return { p with pending := some (o, none) }

/-- Read an option that takes no value. -/
def readFlag (p : Progress) (level : Level) (o : Opt) : Except UsageError Progress := do
  let p ← p.resolve
  return { p with given := ← p.given.takeFlag level o }

/-- Read a long option. -/
def readLong (p : Progress) (level : Level) (name : String) (value : Option String) :
    Except UsageError Progress :=
  match level.ofLongName? name with
  | none => .error .unknownArgument
  | some o =>
    if o.takesValue then p.readValued o value
    else if value.isSome then .error .surplusValue
    else p.readFlag level o

/-- Read options by their letters. The first that takes a value takes all that is left, or
the next word. -/
def readLetters (level : Level) : Progress → List Char → Except UsageError Progress
  | p, [] => .ok p
  | p, c :: rest =>
    match level.ofLetter? c with
    | none => .error .unknownArgument
    | some o =>
      if o.takesValue then
        p.readValued o
          (match rest with
            | [] => none
            | '=' :: value => some (String.ofList value)
            | value => some (String.ofList value))
      else do readLetters level (← p.readFlag level o) rest

/-- Read an operand. -/
def readOperand (p : Progress) (level : Level) (word : String) : Except UsageError Progress :=
  if p.given.operands.length < level.operands then do
    let p ← p.resolve
    return { p with given := { p.given with operands := p.given.operands ++ [word] } }
  else
    match level with
    | .under _ => .error .unknownArgument
    | .top =>
      if p.onlyOperands && ((Verb.ofName? word).isSome || word = helpWord) then
        .error .unknownArgument
      else .error .unknownVerb

/-- Read the word as the value that is awaited, or else as an operand. -/
def readPlain (p : Progress) (level : Level) (word : String) : Except UsageError Progress :=
  match p.awaiting with
  | some o => .ok { p with pending := some (o, some word) }
  | none => p.readOperand level word

/-- Read a word at a level. A depth may be a negative number. -/
def read (level : Level) (p : Progress) (word : String) : Except UsageError Progress :=
  if p.onlyOperands then p.readOperand level word
  else
    match Shape.ofWord word with
    | .separator => .ok { p with onlyOperands := true }
    | .long name value => p.readLong level name value
    | .letters letters =>
      if p.awaiting = some .depth && looksNumeric letters then p.readPlain level word
      else readLetters level p letters
    | .plain => p.readPlain level word

/-- What is given at a level when all of its words have been read. An empty name for the
configuration file in the environment is an error where it would be used. -/
def finish (p : Progress) (environment : Option String) : Except UsageError Given := do
  let given ← p.resolved
  if given.config.isNone && environment = some "" then throw .missingValue
  return given

end Progress

/-! ### Commands -/

/-- What comes of asking for help about some words: each has to be a verb, and verbs have
no verbs below them. -/
def helpAbout : List String → UsageError
  | [] => .helpWanted
  | [word] => if (Verb.ofName? word).isSome || word = helpWord then .helpWanted else .unknownVerb
  | _ => .unknownVerb

/-- Read words up to a verb, and split the rest off. -/
def readTop : Progress → List String → Except UsageError (Progress × Option (Verb × List String))
  | p, [] => .ok (p, none)
  | p, word :: words =>
    if !p.onlyOperands && p.awaiting.isNone && word = helpWord then .error (helpAbout words)
    else
      match if !p.onlyOperands && p.awaiting.isNone then Verb.ofName? word else none with
      | some verb => .ok (p, some (verb, words))
      | none => do readTop (← p.read .top word) words

/-- The command of a verb with what was given after it. -/
def Verb.command (verb : Verb) (g : Given) : Except UsageError Command :=
  match verb, g.operands with
  | .ingest, _ => .ok .ingest
  | .edges, repo :: _ => .ok (.edges repo)
  | .impact, repo :: file :: _ => .ok (.impact repo file g.depth)
  | .cycles, repo :: _ => .ok (.cycles repo g.failOnCycles)
  | .hotspots, repo :: _ => .ok (.hotspots repo)
  | _, _ => .error .missingOperand

/-- The invocation that was given before and after a verb. -/
def Invocation.ofGiven (outer inner : Given) (environment : Option String) (command : Command) :
    Invocation where
  batches := if inner.batches.isEmpty then outer.batches else inner.batches
  config := (inner.config.or outer.config).or environment
  json := inner.json || outer.json
  verbosity := (inner.verbosity.or outer.verbosity).getD 0
  command := command

/-- **Understand the command line**, given the configuration file that the environment
names, if it names one. -/
def Invocation.ofArguments (words : List String) (environment : Option String) :
    Except UsageError Invocation := do
  let (outer, verb) ← readTop {} words
  match verb with
  | none =>
    let given ← outer.finish environment
    if given = {} && environment.isNone then throw .nothingGiven else throw .missingVerb
  | some (verb, words) =>
    let inner ← (← words.foldlM (Progress.read (.under verb)) {}).finish environment
    let command ← verb.command inner
    return .ofGiven (← outer.finish environment) inner environment command

end DepGraph.Cli
