import DepGraph.Cli.Arguments
import DepGraph.Cli.Run

/-!
# The program

Understands its command line, reads the files that are named there, and writes what comes
of it. The times at which the batches are written show in nothing that is put out
(`DepGraph.Cli.Invocation.run_congr_clock`), so the clock is not asked.
-/

namespace DepGraph.Cli

/-- The number of the system's error for reading a directory. -/
def directoryCode : UInt32 := 21

/-- Read a file. -/
def readContent (path : String) : IO (Except FileError ByteArray) := do
  try
    return .ok (← IO.FS.readBinFile path)
  catch e =>
    match e with
    | .noFileOrDirectory .. => return .error .notFound
    | .inappropriateType _ code _ =>
      return .error (if code = directoryCode then .isDirectory else .notDirectory)
    | .invalidArgument .. => return .error .nameTooLong
    | e => return .error (.other e.toString)

/-- Read the files that an invocation names. -/
def readFiles (i : Invocation) : IO Files := do
  let contents ← (i.config.toList ++ i.batches).mapM fun path => do
    return (path, ← readContent path)
  return ⟨fun path => (contents.lookup path).getD (.error .notFound)⟩

/-- Whether to write in colours. -/
def wantsColours : IO Bool := do
  if (← IO.getEnv "NO_COLOR").isSome then return false
  (← IO.getStdout).isTty

end DepGraph.Cli

open DepGraph DepGraph.Cli

/-- Run the program. -/
def main (words : List String) : IO UInt32 := do
  match Invocation.ofArguments words (← IO.getEnv "ARCHLENS_CONFIG") with
  | .error e =>
    if e.exitCode = 0 then IO.print e.message else IO.eprint e.message
    return e.exitCode.toUInt32
  | .ok i =>
    match i.run (← readFiles i) default (← wantsColours) with
    | .error f =>
      IO.eprintln ("Error: " ++ f.message)
      return 1
    | .ok o =>
      IO.print o.stdout
      return if o.failed then 1 else 0
