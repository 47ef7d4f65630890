import DepGraph.Files

/-!
# Files kept in memory

A tree of files and directories that paths can be looked up in. The program stands in
its root. A path is followed name by name; only directories can be gone through, and above
the root there is nothing but directories on the way up. Names and paths have a greatest
length, which is counted in bytes.
-/

namespace DepGraph

/-- What is at a place of a tree. -/
inductive FileEntry
  | file (content : ByteArray)
  | directory

/-- A tree of files: what is there, each with the names on the way to it. The directories on
the way exist, too. -/
structure FileTree where
  entries : List (List String × FileEntry)

namespace FileTree

/-- The greatest length of a name. -/
def nameLimit : Nat := 255

/-- The greatest length of a path. -/
def pathLimit : Nat := 4095

/-- A tree from paths. -/
def ofPaths (entries : List (String × FileEntry)) : FileTree :=
  ⟨entries.map fun (path, entry) => (path.splitOn "/", entry)⟩

/-- What is at the end of some names. -/
def entry? (t : FileTree) (names : List String) : Option FileEntry :=
  match t.entries.lookup names with
  | some e => some e
  | none =>
    if t.entries.any fun (place, _) => names.isPrefixOf place then some .directory else none

/-- Follow names from a directory, which is a number of levels above the root or else at the
end of some names below it. -/
def follow (t : FileTree) :
    (above : Nat) → (here : List String) → List String → Except FileError ByteArray
  | _, _, [] => .error .isDirectory
  | above, here, name :: names =>
    if name = "" || name = "." then t.follow above here names
    else if name = ".." then
      if here.isEmpty then t.follow (above + 1) [] names else t.follow above here.dropLast names
    else if nameLimit < name.utf8ByteSize then .error .nameTooLong
    else if 0 < above then .error .notFound
    else
      match t.entry? (here ++ [name]), names with
      | none, _ => .error .notFound
      | some .directory, names => t.follow above (here ++ [name]) names
      | some (.file content), [] => .ok content
      | some (.file _), _ :: _ => .error .notDirectory

/-- The files of a tree. -/
def files (t : FileTree) : Files where
  content path :=
    if path.isEmpty then .error .notFound
    else if pathLimit < path.utf8ByteSize then .error .nameTooLong
    else if path.startsWith "/" then t.follow 1 [] (path.splitOn "/")
    else t.follow 0 [] (path.splitOn "/")

end FileTree

end DepGraph
