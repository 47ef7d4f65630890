import DepGraph.Wire

/-!
# What tools are called with, and what the health check answers

Tool arguments travel under the same names as batches, so that a batch can be handed to
the `ingest` tool as it is. They differ from batches in what may be left out: a tool call
has to name its repository and its run, while the fields of an edge may all be missing,
so that a missing one is reported with the number of its edge and not as a call that
cannot be read.
-/

namespace DepGraph

open Json

namespace Tools

/-- One dependency in a call of `ingest`. -/
structure EdgeParams where
  sourcePath : Option String
  targetPath : Option String
  depType : Option String
  weight : Option Float

/-- The arguments of `ingest`. -/
structure IngestParams where
  repoId : String
  analysisId : String
  edges : List EdgeParams

/-- The arguments of `impact`. -/
structure ImpactParams where
  repoId : String
  filePath : String
  depth : Option Int
deriving DecidableEq, Repr

/-- The arguments of the tools that ask about a whole repository. -/
structure RepoParams where
  repoId : String
deriving DecidableEq, Repr

/-- The answer of `health`. -/
structure Health where
  status : String
  service : String
  timestamp : String
  /-- How many repositories hold data. -/
  repositories : Nat
deriving DecidableEq, Repr

/-- The dependency as a descriptor. -/
def EdgeParams.toDescriptor (e : EdgeParams) : Descriptor :=
  ⟨e.sourcePath, e.targetPath, e.depType, e.weight⟩

/-- The arguments as a batch. -/
def IngestParams.toBatch (p : IngestParams) : Batch :=
  ⟨p.repoId, p.analysisId, p.edges.map EdgeParams.toDescriptor⟩

/-! ### Wire forms -/

/-- A dependency; every field may be missing or `null`. -/
def EdgeParams.codec : Codec EdgeParams :=
  .map
    (.record <|
      .cons (.optional "sourcePath" .text) <|
      .cons (.optional "targetPath" .text) <|
      .cons (.optional "depType" .text) <|
      .cons (.optional "weight" .real) .nil)
    (fun (source, target, type, weight, ()) => ⟨source, target, type, weight⟩)
    (fun e => (e.sourcePath, e.targetPath, e.depType, e.weight, ()))

/-- The arguments of `ingest`; only the edges may be missing. -/
def IngestParams.codec : Codec IngestParams :=
  .map
    (.record <|
      .cons (.required "repoId" .text) <|
      .cons (.required "analysisId" .text) <|
      .cons (.withDefault "edges" EdgeParams.codec.list []) .nil)
    (fun (repo, run, edges, ()) => ⟨repo, run, edges⟩)
    (fun p => (p.repoId, p.analysisId, p.edges, ()))

/-- The arguments of `impact`; the depth may be missing or `null`. -/
def ImpactParams.codec : Codec ImpactParams :=
  .map
    (.record <|
      .cons (.required "repoId" .text) <|
      .cons (.required "filePath" .text) <|
      .cons (.optional "depth" .integer) .nil)
    (fun (repo, file, depth, ()) => ⟨repo, file, depth⟩)
    (fun p => (p.repoId, p.filePath, p.depth, ()))

/-- The name of a repository. -/
def RepoParams.codec : Codec RepoParams :=
  .map (.record <| .cons (.required "repoId" .text) .nil) (fun (repo, ()) => ⟨repo⟩)
    (fun p => (p.repoId, ()))

/-- The answer of `health`. -/
def Health.codec : Codec Health :=
  .map
    (.record <|
      .cons (.required "status" .text) <|
      .cons (.required "service" .text) <|
      .cons (.required "timestamp" .text) <|
      .cons (.required "repositories" .count) .nil)
    (fun (status, service, timestamp, repositories, ()) =>
      ⟨status, service, timestamp, repositories⟩)
    (fun h => (h.status, h.service, h.timestamp, h.repositories, ()))

end Tools

end DepGraph
