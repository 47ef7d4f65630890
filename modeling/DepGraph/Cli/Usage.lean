import DepGraph.Cli.Command

/-!
# The words of the command line

The program has a level of its own and one below it for each of its verbs. At each level
there are options, most of them common to all levels; operands there are only below the
verbs. When the words cannot be understood, or ask for help or the version, that is a
`DepGraph.Cli.UsageError`.
-/

namespace DepGraph.Cli

/-! ### Options -/

/-- The options. -/
inductive Opt
  | batch
  | config
  | json
  | verbose
  | depth
  | failOnCycles
  | help
  | version
deriving DecidableEq, Repr

namespace Opt

/-- The long name of an option. -/
def longName : Opt → String
  | batch => "batch"
  | config => "config"
  | json => "json"
  | verbose => "verbose"
  | depth => "depth"
  | failOnCycles => "fail-on-cycles"
  | help => "help"
  | version => "version"

/-- The letter of an option, if it has one. -/
def letter? : Opt → Option Char
  | batch => some 'b'
  | config => some 'c'
  | verbose => some 'v'
  | depth => some 'd'
  | help => some 'h'
  | version => some 'V'
  | json | failOnCycles => none

/-- Whether an option is given together with a value. -/
def takesValue : Opt → Bool
  | batch | config | depth => true
  | _ => false

/-- The options that can be given at every level. -/
def common : List Opt := [batch, config, json, verbose, help, version]

end Opt

/-! ### Verbs -/

/-- What commands begin with. -/
inductive Verb
  | ingest
  | edges
  | impact
  | cycles
  | hotspots
deriving DecidableEq, Repr

namespace Verb

/-- The word for a verb. -/
def name : Verb → String
  | ingest => "ingest"
  | edges => "edges"
  | impact => "impact"
  | cycles => "cycles"
  | hotspots => "hotspots"

/-- All verbs. -/
def all : List Verb := [ingest, edges, impact, cycles, hotspots]

/-- The verb for a word. -/
def ofName? (word : String) : Option Verb := all.find? fun v => v.name = word

/-- The options that only this verb has. -/
def options : Verb → List Opt
  | impact => [.depth]
  | cycles => [.failOnCycles]
  | _ => []

/-- How many operands the verb has; all of them have to be given. -/
def operands : Verb → Nat
  | ingest => 0
  | impact => 2
  | edges | cycles | hotspots => 1

end Verb

/-- The word that asks for help in the place of a verb. -/
def helpWord : String := "help"

/-! ### Levels -/

/-- Where words stand: before the verb or after it. -/
inductive Level
  | top
  | under (verb : Verb)
deriving DecidableEq, Repr

namespace Level

/-- The options of a level. -/
def options : Level → List Opt
  | top => Opt.common
  | under verb => verb.options ++ Opt.common

/-- How many operands there can be. -/
def operands : Level → Nat
  | top => 0
  | under verb => verb.operands

/-- What the level is called when it says its version. -/
def title : Level → String
  | top => programName
  | under verb => programName ++ "-" ++ verb.name

/-- The option with a long name. -/
def ofLongName? (l : Level) (name : String) : Option Opt :=
  l.options.find? fun o => o.longName = name

/-- The option with a letter. -/
def ofLetter? (l : Level) (c : Char) : Option Opt := l.options.find? fun o => o.letter? = some c

end Level

/-! ### Errors -/

/-- Why there is no command to run. -/
inductive UsageError
  /-- Help was asked for. -/
  | helpWanted
  /-- The version was asked for, at a level with this title. -/
  | versionWanted (title : String)
  /-- Nothing was asked for at all. -/
  | nothingGiven
  /-- There is no verb. -/
  | missingVerb
  /-- There is no such verb. -/
  | unknownVerb
  /-- There is no such option, or no place for one more operand. -/
  | unknownArgument
  /-- An operand is missing. -/
  | missingOperand
  /-- A value is missing or empty. -/
  | missingValue
  /-- A value is not of the kind that is needed. -/
  | badValue
  /-- There is a value for an option that takes none. -/
  | surplusValue
  /-- An option that can be given once is given twice. -/
  | repeatedOption
deriving DecidableEq, Repr

namespace UsageError

/-- The exit code of the program. -/
def exitCode : UsageError → Nat
  | helpWanted | versionWanted _ => 0
  | _ => 2

/-- The words that the program takes. -/
def synopsis : String :=
  "Usage: " ++ programName ++ " [-b FILE]... [-c FILE] [--json] [-v]... COMMAND\n\n" ++
    "Commands:\n" ++
    "  ingest\n" ++
    "  edges REPO\n" ++
    "  impact REPO FILE [-d DEPTH]\n" ++
    "  cycles REPO [--fail-on-cycles]\n" ++
    "  hotspots REPO\n"

/-- What the program says. -/
def message : UsageError → String
  | helpWanted => synopsis
  | versionWanted title => title ++ " " ++ programVersion ++ "\n"
  | nothingGiven => synopsis
  | missingVerb => "error: a command is required\n"
  | unknownVerb => "error: there is no such command\n"
  | unknownArgument => "error: unexpected argument\n"
  | missingOperand => "error: a required argument is missing\n"
  | missingValue => "error: a value is required\n"
  | badValue => "error: invalid value\n"
  | surplusValue => "error: unexpected value\n"
  | repeatedOption => "error: the argument cannot be used more than once\n"

end UsageError

end DepGraph.Cli
