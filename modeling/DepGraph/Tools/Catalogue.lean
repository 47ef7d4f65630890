import DepGraph.Tools.Call

/-!
# The catalogue of tools

Clients learn from the catalogue which tools there are, what they are for and which
arguments they take. The arguments are described by a schema: an object with named
properties, some of which have to be there.
-/

namespace DepGraph

open Json

namespace Tools

/-- A property of an object, as a schema describes it. -/
structure Property where
  name : String
  description : String
  /-- The type of the property. -/
  type : String
  /-- A narrower format of that type. -/
  format : Option String := none
  /-- Whether the property may be `null`. -/
  nullable : Bool := false
  /-- The schema of the items, and the value if there are none, for arrays. -/
  items : Option (String × Value) := none

/-- The schema of a property. -/
def Property.toValue (p : Property) : Value :=
  .object <|
    (match p.items with
      | some (_, default) => [("default", default)]
      | none => []) ++
    [("description", .text p.description)] ++
    (match p.format with
      | some format => [("format", .text format)]
      | none => []) ++
    (match p.items with
      | some (reference, _) => [("items", .object [("$ref", .text reference)])]
      | none => []) ++
    (if p.nullable then [("nullable", .bool true)] else []) ++
    [("type", .text p.type)]

/-- The properties of an object, by name. -/
def properties (ps : List Property) : String × Value :=
  ("properties", .object (ps.map fun p => (p.name, p.toValue)))

/-- A schema for the arguments of a tool. -/
structure Schema where
  title : String
  description : String
  properties : List Property
  /-- The names of the properties that have to be there. -/
  required : List String
  /-- Schemas that properties refer to. -/
  definitions : List (String × Value) := []

/-- The schema as a value. -/
def Schema.toValue (s : Schema) : Value :=
  .object <|
    [("$schema", .text "http://json-schema.org/draft-07/schema#")] ++
    (if s.definitions.isEmpty then [] else [("definitions", .object s.definitions)]) ++
    [("description", .text s.description), Tools.properties s.properties,
     ("required", .array (s.required.map .text)), ("title", .text s.title),
     ("type", .text "object")]

/-- The arguments of `ingest`. -/
def ingestSchema : Schema where
  title := "IngestParams"
  description := "Parameters for the `ingest` tool."
  properties :=
    [{ name := "analysisId", type := "string"
       description := "Identifier of the analysis run that produced the edges." },
     { name := "edges", type := "array"
       description := "Edges to upsert, applied all-or-nothing."
       items := some ("#/definitions/EdgeParams", .array []) },
     { name := "repoId", type := "string"
       description := "Repository the edges belong to." }]
  required := ["repoId", "analysisId"]
  definitions :=
    [("EdgeParams",
      .object
        [("description", .text
          ("One dependency edge in an `ingest` request.\n\nFields are optional in the schema so " ++
            "that a missing field is reported\nagainst its descriptor index rather than as a " ++
            "decoding failure.")),
         properties
          [{ name := "depType", type := "string", nullable := true
             description := "Dependency type, e.g. \"import\" or \"call\"." },
           { name := "sourcePath", type := "string", nullable := true
             description := "Path of the depending file." },
           { name := "targetPath", type := "string", nullable := true
             description := "Path of the file depended upon." },
           { name := "weight", type := "number", format := some "double", nullable := true
             description := "Edge weight (defaults to 1.0)." }],
         ("type", .text "object")])]

/-- The arguments of `impact`. -/
def impactSchema : Schema where
  title := "ImpactParams"
  description := "Parameters for the `impact` tool."
  properties :=
    [{ name := "depth", type := "integer", format := some "int64", nullable := true
       description := "Maximum hop count, clamped to 1..=5 (defaults to 3)." },
     { name := "filePath", type := "string"
       description := "File whose downstream files are wanted." },
     { name := "repoId", type := "string", description := "Repository to query." }]
  required := ["repoId", "filePath"]

/-- The arguments of the tools that ask about a whole repository. -/
def repoSchema : Schema where
  title := "RepoParams"
  description := "Parameters for the repository-scoped query tools."
  properties := [{ name := "repoId", type := "string", description := "Repository to query." }]
  required := ["repoId"]

/-- What a tool is for. -/
def Tool.description : Tool → String
  | ingest =>
    "Upsert a batch of file dependency edges into a repository. Edges are keyed by " ++
      "(sourcePath, targetPath, depType); the whole batch is rejected if any edge is malformed."
  | listEdges => "List a repository's dependency edges (at most 1000)."
  | impact =>
    "Find files reachable from a file by following dependencies, with their shortest hop " ++
      "distance. Depth defaults to 3 and is clamped to 1..5."
  | cycles =>
    "Detect circular dependencies of 2 to 6 files in a repository (at most 50 cycles)."
  | hotspots =>
    "Rank a repository's files by number of distinct dependencies plus dependents (top 20)."
  | health => "Report server liveness and the number of loaded repositories."

/-- Which arguments a tool takes. -/
def Tool.schema : Tool → Value
  | ingest => ingestSchema.toValue
  | impact => impactSchema.toValue
  | listEdges | cycles | hotspots => repoSchema.toValue
  | health => .object [properties [], ("type", .text "object")]

/-- The entry of a tool in the catalogue. -/
def Tool.toValue (tool : Tool) : Value :=
  .object [("description", .text tool.description), ("inputSchema", tool.schema),
    ("name", .text tool.name)]

/-- **The catalogue**: all tools, in the order of their names. -/
def catalogue : Value := .object [("tools", .array (Tool.all.map Tool.toValue))]

/-- What the service says about itself when a client connects. -/
def serviceInfo : Value :=
  .object
    [("capabilities", .object [("tools", .object [])]),
     ("instructions", .text
      ("Archlens dependency graph server. Ingest edges per repository, then query impact, " ++
        "cycles, and hotspots.")),
     ("protocolVersion", .text "2024-11-05"),
     ("serverInfo", .object [("name", .text serviceName), ("version", .text "0.1.0")])]

end Tools

end DepGraph
