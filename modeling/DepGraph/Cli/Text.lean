import DepGraph.Cli.Style
import DepGraph.Decimal.Form
import DepGraph.Report

/-!
# Reports for people

The reports as lines. An impact is grouped by distance: whenever the distance changes from
one file to the next, a header says so
(`DepGraph.Cli.outline`).
-/

namespace DepGraph.Cli

open Piece

/-- The answer to all batches of a command, each with its repository. -/
def ingestLines (loaded : List (String × IngestReport)) : List Line :=
  if loaded.isEmpty then [[dimmed "No batches loaded."]]
  else
    loaded.map fun (repo, report) =>
      [coloured .green "✓", plain " ", coloured .cyan repo,
        plain (": " ++ report.message ++ " (" ++ report.count.repr ++ " edges)")]

/-- The text of a weight. -/
def weightText (weight : Float) : String :=
  String.ofList ((DecimalForm.line.text? (Binary.ofFloat weight)).getD [])

/-- A listing of edges. -/
def edgeLines (listing : EdgeListing) : List Line :=
  if listing.edges.isEmpty then [[dimmed "No edges."]]
  else
    [bold listing.total.repr, plain " edges:"] ::
      listing.edges.map fun e =>
        [plain ("  " ++ e.source ++ " "), dimmed "→", plain (" " ++ e.target ++ " "),
          dimmed ("[" ++ e.type ++ ", " ++ weightText e.weight ++ "]")]

/-! ### Impacts -/

/-- An entry of the outline of an impact. -/
inductive OutlineEntry
  /-- The files that follow are at this distance. -/
  | distance (d : Nat)
  | file (path : String)
deriving DecidableEq, Repr

/-- The outline of the files of an impact, after files at some distance. -/
def outline (current : Nat) : List AffectedFile → List OutlineEntry
  | [] => []
  | f :: files =>
    (if f.distance = current then [] else [.distance f.distance]) ++
      .file f.path :: outline f.distance files

/-- An entry of an outline as a line. -/
def OutlineEntry.line : OutlineEntry → Line
  | distance d => [plain "  ", coloured .yellow "Distance", plain (" " ++ d.repr ++ ":")]
  | file path => [plain "    ", dimmed "•", plain (" " ++ path)]

/-- The report on an impact. -/
def impactLines (report : ImpactReport) : List Line :=
  [bold "Impact of", plain " ", coloured .cyan report.source,
    plain (" (depth " ++ report.maxDepth.repr ++ ")")] ::
    if report.affectedFiles.isEmpty then [[plain "    ", dimmed "No affected files."]]
    else
      (outline 0 report.affectedFiles).map OutlineEntry.line ++
        [[], [plain "Total: ", bold report.totalImpact.repr, plain " affected files"]]

/-! ### Cycles and hotspots -/

/-- The two lines of a cycle with its number. -/
def cycleLines (number : Nat) (cycle : List String) : List Line :=
  [[plain "  ", strong .yellow "Cycle", plain (" " ++ number.repr ++ ":")],
    [plain "    ", dimmed (" → ".intercalate cycle)]]

/-- The report on cycles. -/
def cycleReportLines (report : CycleReport) : List Line :=
  if report.cycles.isEmpty then [[coloured .green "No circular dependencies detected."]]
  else
    [plain "Found ", strong .red report.total.repr, plain " circular dependencies:"] :: [] ::
      (report.cycles.zipIdx 1).flatMap fun (cycle, number) => cycleLines number cycle

/-- The report on hotspots. -/
def hotspotLines (report : HotspotReport) : List Line :=
  if report.hotspots.isEmpty then [[dimmed "No files."]]
  else
    [plain "  ", dimmed (padLeft 5 "total"), plain " ", dimmed (padLeft 5 "out"), plain " ",
      dimmed (padLeft 5 "in"), plain "  ", dimmed "file"] ::
      report.hotspots.map fun h =>
        [plain "  ", bold (padLeft 5 h.totalDegree.repr),
          plain (" " ++ padLeft 5 h.outDegree.repr ++ " " ++ padLeft 5 h.inDegree.repr ++ "  " ++
            h.path)]

end DepGraph.Cli
