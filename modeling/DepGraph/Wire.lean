import DepGraph.Batch.Basic
import DepGraph.Config
import DepGraph.Json.Codec
import DepGraph.Report

/-!
# Wire forms

The names under which batches, edges, reports and limits travel. What comes in from
outside – batches and limits – may leave fields out, which then have their defaults. What
the library itself writes has all of its fields.
-/

namespace DepGraph

open Json

/-! ### What comes in -/

/-- A descriptor; every field may be missing or `null`. -/
def Descriptor.codec : Codec Descriptor :=
  .map
    (.record <|
      .cons (.withDefault "sourcePath" Codec.text.option none) <|
      .cons (.withDefault "targetPath" Codec.text.option none) <|
      .cons (.withDefault "depType" Codec.text.option none) <|
      .cons (.withDefault "weight" Codec.real.option none) .nil)
    (fun (source, target, type, weight, ()) => ⟨source, target, type, weight⟩)
    (fun d => (d.sourcePath, d.targetPath, d.depType, d.weight, ()))

/-- A batch; every field may be missing. -/
def Batch.codec : Codec Batch :=
  .map
    (.record <|
      .cons (.withDefault "repoId" .text "") <|
      .cons (.withDefault "analysisId" .text "") <|
      .cons (.withDefault "edges" Descriptor.codec.list []) .nil)
    (fun (repo, run, edges, ()) => ⟨repo, run, edges⟩)
    (fun b => (b.repoId, b.analysisId, b.edges, ()))

/-- Limits; those that are missing have their defaults. -/
def QueryLimits.codec : Codec QueryLimits :=
  let default : QueryLimits := {}
  .map
    (.record <|
      .cons (.withDefault "max_listed_edges" .count default.maxListedEdges) <|
      .cons (.withDefault "max_cycles" .count default.maxCycles) <|
      .cons (.withDefault "max_hotspots" .count default.maxHotspots) <|
      .cons (.withDefault "default_impact_depth" .count default.defaultImpactDepth) <|
      .cons (.withDefault "max_impact_depth" .count default.maxImpactDepth) .nil)
    (fun (edges, cycles, hotspots, depth, greatest, ()) => ⟨edges, cycles, hotspots, depth, greatest⟩)
    (fun l => (l.maxListedEdges, l.maxCycles, l.maxHotspots, l.defaultImpactDepth,
      l.maxImpactDepth, ()))

/-- A configuration. -/
def Config.codec : Codec Config :=
  .map (.record <| .cons (.withDefault "limits" QueryLimits.codec {}) .nil)
    (fun (limits, ()) => ⟨limits⟩)
    (fun c => (c.limits, ()))

/-! ### What goes out -/

/-- An edge with all of its fields. -/
def Edge.codec : Codec Edge :=
  .map
    (.record <|
      .cons (.required "source" .text) <|
      .cons (.required "target" .text) <|
      .cons (.required "type" .text) <|
      .cons (.required "weight" .real) <|
      .cons (.required "analysisId" .text) <|
      .cons (.required "updatedAt" .instant) .nil)
    (fun (source, target, type, weight, run, time, ()) => ⟨source, target, type, weight, run, time⟩)
    (fun e => (e.source, e.target, e.type, e.weight, e.run, e.updatedAt, ()))

/-- An edge as listings show it. -/
def EdgeSummary.codec : Codec EdgeSummary :=
  .map
    (.record <|
      .cons (.required "source" .text) <|
      .cons (.required "target" .text) <|
      .cons (.required "type" .text) <|
      .cons (.required "weight" .real) .nil)
    (fun (source, target, type, weight, ()) => ⟨source, target, type, weight⟩)
    (fun e => (e.source, e.target, e.type, e.weight, ()))

/-- A listing of edges. -/
def EdgeListing.codec : Codec EdgeListing :=
  .map
    (.record <|
      .cons (.required "edges" EdgeSummary.codec.list) <|
      .cons (.required "total" .count) .nil)
    (fun (edges, total, ()) => ⟨edges, total⟩)
    (fun l => (l.edges, l.total, ()))

/-- The answer to a batch. -/
def IngestReport.codec : Codec IngestReport :=
  .map
    (.record <|
      .cons (.required "message" .text) <|
      .cons (.required "count" .count) .nil)
    (fun (message, count, ()) => ⟨message, count⟩)
    (fun r => (r.message, r.count, ()))

/-- A file in an impact. -/
def AffectedFile.codec : Codec AffectedFile :=
  .map
    (.record <|
      .cons (.required "path" .text) <|
      .cons (.required "distance" .count) .nil)
    (fun (path, distance, ()) => ⟨path, distance⟩)
    (fun f => (f.path, f.distance, ()))

/-- The report on an impact. -/
def ImpactReport.codec : Codec ImpactReport :=
  .map
    (.record <|
      .cons (.required "source" .text) <|
      .cons (.required "affectedFiles" AffectedFile.codec.list) <|
      .cons (.required "totalImpact" .count) <|
      .cons (.required "maxDepth" .count) .nil)
    (fun (source, files, total, depth, ()) => ⟨source, files, total, depth⟩)
    (fun r => (r.source, r.affectedFiles, r.totalImpact, r.maxDepth, ()))

/-- The report on cycles. -/
def CycleReport.codec : Codec CycleReport :=
  .map
    (.record <|
      .cons (.required "cycles" Codec.text.list.list) <|
      .cons (.required "total" .count) .nil)
    (fun (cycles, total, ()) => ⟨cycles, total⟩)
    (fun r => (r.cycles, r.total, ()))

/-- A file with its degrees. -/
def Hotspot.codec : Codec Hotspot :=
  .map
    (.record <|
      .cons (.required "path" .text) <|
      .cons (.required "outDegree" .count) <|
      .cons (.required "inDegree" .count) <|
      .cons (.required "totalDegree" .count) .nil)
    (fun (path, out, into, total, ()) => ⟨path, out, into, total⟩)
    (fun h => (h.path, h.outDegree, h.inDegree, h.totalDegree, ()))

/-- The report on hotspots. -/
def HotspotReport.codec : Codec HotspotReport :=
  .map (.record <| .cons (.required "hotspots" Hotspot.codec.list) .nil)
    (fun (hotspots, ()) => ⟨hotspots⟩)
    (fun r => (r.hotspots, ()))

/-- The answer to a question as a value. -/
def Report.toValue : Report → Value
  | edges listing => EdgeListing.codec.write listing
  | impact report => ImpactReport.codec.write report
  | cycles report => CycleReport.codec.write report
  | hotspots report => HotspotReport.codec.write report

end DepGraph
