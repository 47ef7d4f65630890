import DepGraph.Cli.Command
import DepGraph.Cli.Text
import DepGraph.Config.Text
import DepGraph.Files
import DepGraph.Store
import DepGraph.Wire

/-!
# Running a command

A command starts from nothing. First the configuration is read, then the batch files are
loaded one after the other, and then the report that was asked for is made and written.
The first file that is no good ends it; the batches before that one stay loaded, but
nothing is reported.
-/

namespace DepGraph.Cli

open Json

/-! ### Failures -/

/-- Why the configuration cannot be used. -/
inductive ConfigProblem
  | unreadable (error : FileError)
  | unusable (failure : Config.Failure)
deriving DecidableEq, Repr

/-- Why a batch file cannot be loaded. -/
inductive BatchProblem
  | unreadable (error : FileError)
  | unparsable (category : Category)
  | rejected (error : Error)
deriving DecidableEq, Repr

/-- Why there is no report. -/
inductive Failure
  | config (problem : ConfigProblem)
  | batch (path : String) (problem : BatchProblem)
deriving DecidableEq, Repr

/-- A link in the chain that leads from what went wrong back to its cause. -/
inductive Cause
  /-- What was being done, or what the system says. -/
  | text (message : String)
  | error (e : Error)
  /-- A text that is not the value it should be. -/
  | category (c : Category)
  /-- A configuration that cannot be read. -/
  | unreadable
deriving DecidableEq, Repr

/-- What a link of the chain says. -/
def Cause.message : Cause → String
  | text message => message
  | error e => e.message
  | category .eof => "the text ends too early"
  | category .malformed => "the text is not well formed"
  | category .mismatch => "the text is not a batch"
  | unreadable => "the text is not a configuration"

/-- The chain of a failure, from the outside in. -/
def Failure.chain : Failure → List Cause
  | config problem =>
    .text "Failed to load configuration" ::
      match problem with
      | .unreadable e => [.error (.file e.message), .text e.message]
      | .unusable .unreadable => [.unreadable]
      | .unusable (.unusable e) => [.error e]
  | batch path (.unreadable e) => [.text ("Failed to read batch file " ++ path), .text e.message]
  | batch path (.unparsable c) => [.text ("Failed to parse batch file " ++ path), .category c]
  | batch path (.rejected e) => [.text ("Batch " ++ path ++ " was rejected"), .error e]

/-- What the program says about a failure. -/
def Failure.message (f : Failure) : String := ": ".intercalate (f.chain.map Cause.message)

/-! ### Loading -/

/-- Read the configuration, or take the default one. -/
def loadConfig (files : Files) : Option String → Except ConfigProblem Config
  | none => .ok {}
  | some path =>
    match files.text path with
    | .error e => .error (.unreadable e)
    | .ok text => (Config.ofText text).mapError .unusable

/-- Read a batch file. -/
def readBatch (files : Files) (path : String) : Except BatchProblem Batch :=
  match files.text path with
  | .error e => .error (.unreadable e)
  | .ok text => (Batch.codec.ofText text).mapError .unparsable

/-- Load a batch file. -/
def loadBatch (files : Files) (s : Store) (now : Instant) (path : String) :
    Except BatchProblem (Store × String × IngestReport) := do
  let batch ← readBatch files path
  let (s, report) ← (s.ingest now batch).mapError .rejected
  return (s, batch.repoId, report)

/-- **Load batch files**, up to the first that is no good. The store is what has been loaded
in any case. Every batch is written at a time of its own: `clock n` is what the clock shows when
it is the turn of the file with the index `n`. -/
def loadBatches (files : Files) (clock : Nat → Instant) (s : Store) :
    List String → Store × Except Failure (List (String × IngestReport))
  | [] => (s, .ok [])
  | path :: paths =>
    match loadBatch files s (clock 0) path with
    | .error problem => (s, .error (.batch path problem))
    | .ok (s, loaded) =>
      let (s, rest) := loadBatches files (fun n => clock (n + 1)) s paths
      (s, rest.map (loaded :: ·))

/-! ### Reporting -/

/-- What a command puts out. -/
inductive Output
  /-- What was loaded, by repository. -/
  | loaded (reports : List (String × IngestReport))
  | report (report : Report)

namespace Output

/-- The output as a value. -/
def toValue : Output → Value
  | loaded reports =>
    .array (reports.map fun (repo, r) => .array [.text repo, IngestReport.codec.write r])
  | report r => r.toValue

/-- The output as lines. -/
def lines : Output → List Line
  | loaded reports => ingestLines reports
  | report (.edges listing) => edgeLines listing
  | report (.impact r) => impactLines r
  | report (.cycles r) => cycleReportLines r
  | report (.hotspots r) => hotspotLines r

/-- The output as text. -/
def text (o : Output) (json colours : Bool) : String :=
  if json then o.toValue.pretty ++ "\n" else textOfLines o.lines colours

end Output

/-- Carry out a command on a store. -/
def Command.output (c : Command) (s : Store) (loaded : List (String × IngestReport)) : Output :=
  match c with
  | ingest => .loaded loaded
  | edges repo => .report (s.ask repo .edges)
  | impact repo file depth => .report (s.ask repo (.impact file depth))
  | cycles repo _ => .report (s.ask repo .cycles)
  | hotspots repo => .report (s.ask repo .hotspots)

/-- Whether the program is to fail although there is a report. -/
def Command.fails (c : Command) (o : Output) : Bool :=
  match c, o with
  | cycles _ true, .report (.cycles r) => 0 < r.total
  | _, _ => false

/-- What the program does in the end. -/
structure Outcome where
  /-- Whether the exit code is that of a failure. -/
  failed : Bool
  stdout : String
deriving DecidableEq, Repr

/-- **Run a command.** -/
def Invocation.run (i : Invocation) (files : Files) (clock : Nat → Instant) (colours : Bool) :
    Except Failure Outcome := do
  let config ← (loadConfig files i.config).mapError .config
  let (s, loaded) := loadBatches files clock (.empty config.limits) i.batches
  let output := i.command.output s (← loaded)
  return ⟨i.command.fails output, output.text i.json colours⟩

end DepGraph.Cli
