import DepGraph.Store
import DepGraph.Tools.Params

/-!
# Calling a tool

A tool is called by name with arguments. The arguments have to be readable before
anything happens; then the call is one operation on the store. Its answer is a report,
which goes back as compact text.

Two kinds of error are told apart by their code: the caller's own – an unknown tool,
arguments that cannot be read, a batch that is not well formed – and all others.
-/

namespace DepGraph

open Json

namespace Tools

/-- The tools. -/
inductive Tool
  | ingest
  | listEdges
  | impact
  | cycles
  | hotspots
  | health
deriving DecidableEq, Repr

/-- The name under which a tool is called. -/
def Tool.name : Tool → String
  | ingest => "ingest"
  | listEdges => "list_edges"
  | impact => "impact"
  | cycles => "cycles"
  | hotspots => "hotspots"
  | health => "health"

/-- All tools, in the order of their names. -/
def Tool.all : List Tool := [cycles, health, hotspots, impact, ingest, listEdges]

/-- The tool with a name. -/
def Tool.ofName? (name : String) : Option Tool := Tool.all.find? fun tool => tool.name = name

/-! ### Errors -/

/-- What can go wrong while tools are served. -/
inductive ServiceError
  /-- An error of the library. -/
  | library (e : Error)
  /-- The connection itself fails. -/
  | protocol (reason : String)
deriving DecidableEq, Repr

namespace ServiceError

/-- The text that users see. -/
def message : ServiceError → String
  | library e => e.message
  | protocol reason => "MCP error: " ++ reason

/-- Whether the caller sent something that is not well formed. -/
def isInvalidParams : ServiceError → Bool
  | library e => e.isValidation
  | protocol _ => false

end ServiceError

/-- An error as it goes back to the caller. -/
structure Failure where
  code : Int
  message : String
deriving DecidableEq, Repr

namespace Failure

/-- The code of the caller's own errors. -/
def invalidParams : Int := -32602

/-- The code of all other errors. -/
def internalError : Int := -32603

/-- An error of the service as it goes back to the caller. -/
def ofError (e : ServiceError) : Failure :=
  ⟨if e.isInvalidParams then invalidParams else internalError, e.message⟩

/-- There is no such tool. -/
def unknownTool : Failure := ⟨invalidParams, "tool not found"⟩

/-- The arguments cannot be read. -/
def unreadable : Failure := ⟨invalidParams, "failed to deserialize parameters"⟩

end Failure

/-! ### Answers -/

/-- The answer of a tool. -/
inductive Answer
  | ingested (report : IngestReport)
  | report (report : Report)
  | health (health : Health)

/-- The answer as a value. -/
def Answer.toValue : Answer → Value
  | ingested r => IngestReport.codec.write r
  | report r => r.toValue
  | health h => Health.codec.write h

/-- The answer as the text that goes back. -/
def Answer.toText (a : Answer) : String := a.toValue.compact

/-! ### Calls -/

/-- The name of this service. -/
def serviceName : String := "archlens-mcp"

/-- What `health` answers. -/
def healthOf (s : Store) (now : Instant) : Health :=
  ⟨"healthy", serviceName, now.toText, s.repositoryCount⟩

/-- Read arguments. If there are none, they are an object without members. -/
def readArguments {α : Type} (c : Codec α) (arguments : Option Draft) : Except Failure α :=
  let arguments :=
    match arguments with
    | none | some .null => .object [] .closed
    | some d => d
  match c.read arguments with
  | .ok params => .ok params
  | .error _ => .error .unreadable

/-- Ask a question about a whole repository. -/
def askRepo (s : Store) (arguments : Option Draft) (q : Question) :
    Except Failure (Store × Answer) := do
  let params ← readArguments RepoParams.codec arguments
  return (s, .report (s.ask params.repoId q))

/-- **Run a tool** on a store. -/
def Tool.run (tool : Tool) (s : Store) (now : Instant) (arguments : Option Draft) :
    Except Failure (Store × Answer) :=
  match tool with
  | .ingest => do
    let params ← readArguments IngestParams.codec arguments
    match s.ingest now params.toBatch with
    | .ok (s, report) => return (s, .ingested report)
    | .error e => throw (.ofError (.library e))
  | .impact => do
    let params ← readArguments ImpactParams.codec arguments
    return (s, .report (s.ask params.repoId (.impact params.filePath params.depth)))
  | .listEdges => askRepo s arguments .edges
  | .cycles => askRepo s arguments .cycles
  | .hotspots => askRepo s arguments .hotspots
  | .health => return (s, .health (healthOf s now))

/-- **Call a tool by name.** -/
def call (s : Store) (now : Instant) (name : String) (arguments : Option Draft) :
    Except Failure (Store × Answer) :=
  match Tool.ofName? name with
  | some tool => tool.run s now arguments
  | none => .error .unknownTool

end Tools

end DepGraph
