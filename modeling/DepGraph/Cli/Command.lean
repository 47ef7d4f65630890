/-!
# Commands

What the program can be asked to do on its command line, once the words of the command
line have been understood.
-/

namespace DepGraph.Cli

/-- The name of the program. -/
def programName : String := "archlens"

/-- The version of the program. -/
def programVersion : String := "0.1.0"

/-- A command. -/
inductive Command
  /-- Load the batches and report on that. -/
  | ingest
  /-- List the edges of a repository. -/
  | edges (repo : String)
  /-- Show the files downstream of a file. -/
  | impact (repo file : String) (depth : Option Int)
  /-- Detect circular dependencies, and possibly fail if there are any. -/
  | cycles (repo : String) (failOnCycles : Bool)
  /-- Rank the files of a repository. -/
  | hotspots (repo : String)
deriving DecidableEq, Repr

/-- What the program is asked to do. -/
structure Invocation where
  /-- The batch files to load, in their order. -/
  batches : List String
  /-- The configuration file to use. -/
  config : Option String
  /-- Whether reports are written for machines. -/
  json : Bool
  /-- How much the program is to say about what it does. -/
  verbosity : Nat
  command : Command
deriving DecidableEq, Repr

/-- Which messages a verbosity lets through. -/
def Invocation.logFilter (i : Invocation) : String :=
  programName ++
    match i.verbosity with
    | 0 => "=info"
    | 1 => "=debug"
    | _ => "=trace"

end DepGraph.Cli
