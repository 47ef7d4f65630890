/-!
# Reading files

What the program sees of the files around it: for each path the content, or why there is
none. A text file has to be in UTF-8. A zero byte ends a path for the system, so that a path
with one in it names no file, whatever files there are.
-/

namespace DepGraph

/-- Why a file cannot be read. -/
inductive FileError
  | notFound
  | isDirectory
  | notDirectory
  | nameTooLong
  /-- There is a zero byte in the path. -/
  | zeroInPath
  | notText
  /-- Any other reason. -/
  | other (reason : String)
deriving DecidableEq, Repr

/-- What the system says about it. -/
def FileError.message : FileError → String
  | notFound => "No such file or directory (os error 2)"
  | isDirectory => "Is a directory (os error 21)"
  | notDirectory => "Not a directory (os error 20)"
  | nameTooLong => "File name too long (os error 36)"
  | zeroInPath => "file name contained an unexpected NUL byte"
  | notText => "stream did not contain valid UTF-8"
  | other reason => reason

/-- The files: what reading a path gives. -/
structure Files where
  content : String → Except FileError ByteArray

/-- Read a file as text. -/
def Files.text (files : Files) (path : String) : Except FileError String := do
  if path.toList.contains '\x00' then throw .zeroInPath
  match String.fromUTF8? (← files.content path) with
  | some text => return text
  | none => throw .notText

end DepGraph
