/-!
# What can go wrong

Absence is an answer and not an error: unknown repositories and unknown files have empty
results, and caps cut results off silently. What remains are batches that are not well
formed, configurations that make no sense, and files that cannot be read.
-/

namespace DepGraph

/-- An error of the library. -/
inductive Error
  /-- A field of a batch itself is missing or empty. -/
  | invalidBatch (reason : String)
  /-- An edge descriptor, given by its place in the batch, lacks a required field or has
  an unusable value in it. -/
  | invalidDescriptor (index : Nat) (field : String)
  /-- The configuration is not usable. -/
  | config (reason : String)
  /-- A file cannot be read. -/
  | file (reason : String)
deriving DecidableEq, Repr

namespace Error

/-- The text that users see. -/
def message : Error → String
  | invalidBatch reason => "Invalid batch: " ++ reason
  | invalidDescriptor index field =>
    "Invalid edge descriptor at index " ++ index.repr ++ ": missing or invalid " ++ field
  | config reason => "Configuration error: " ++ reason
  | file reason => "IO error: " ++ reason

/-- Whether the input is to blame. -/
def isValidation : Error → Bool
  | invalidBatch _ => true
  | invalidDescriptor .. => true
  | config _ => false
  | file _ => false

end Error

end DepGraph
