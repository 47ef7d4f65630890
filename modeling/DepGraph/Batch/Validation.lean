import DepGraph.Batch.Basic
import DepGraph.Error
import DepGraph.Text.Blank

/-!
# Checking a batch

A batch is accepted as a whole or not at all. It has to name its repository and its run,
and every descriptor has to name a source, a target and a type – none of them blank – and
may have any weight that is a number. The first thing found missing is reported: the
batch before its descriptors, the descriptors in their order, and in each of them the
fields in theirs. Nothing is trimmed or otherwise changed on the way.
-/

namespace DepGraph

/-- What is wrong with a batch. -/
inductive Offence
  | blankRepoId
  | blankAnalysisId
  /-- A descriptor lacks a field or has an unusable value in it. -/
  | descriptor (index : Nat) (field : String)
deriving DecidableEq, Repr

/-- The error that reports an offence. -/
def Offence.toError : Offence → Error
  | blankRepoId => .invalidBatch "repoId is required"
  | blankAnalysisId => .invalidBatch "analysisId is required"
  | descriptor index field => .invalidDescriptor index field

namespace Descriptor

/-- A field that has to be there and say something. -/
def required (field : String) : Option String → Except String String
  | some value => if isBlank value then .error field else .ok value
  | none => .error field

/-- Check a descriptor; the error is the name of the first offending field. -/
def check (d : Descriptor) : Except String AcceptedEdge := do
  let source ← required "sourcePath" d.sourcePath
  let target ← required "targetPath" d.targetPath
  let type ← required "depType" d.depType
  let weight := d.weight.getD defaultWeight
  if weight.isFinite then return ⟨source, target, type, weight⟩ else throw "weight"

/-- Check descriptors in their order, the first one being number `index`. -/
def checkAll : Nat → List Descriptor → Except Offence (List AcceptedEdge)
  | _, [] => .ok []
  | index, d :: rest =>
    match d.check with
    | .error field => .error (.descriptor index field)
    | .ok edge => (checkAll (index + 1) rest).map (edge :: ·)

end Descriptor

namespace Batch

/-- Check a batch, and report the first offence if there is one. -/
def check (b : Batch) : Except Offence Accepted :=
  if isBlank b.repoId then .error .blankRepoId
  else if isBlank b.analysisId then .error .blankAnalysisId
  else (Descriptor.checkAll 0 b.edges).map fun edges => ⟨b.repoId, b.analysisId, edges⟩

/-- **Check a batch**, with the offence as an error of the library. -/
def validate (b : Batch) : Except Error Accepted := b.check.mapError Offence.toError

end Batch

end DepGraph
