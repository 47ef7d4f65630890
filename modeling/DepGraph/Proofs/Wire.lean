import DepGraph.Proofs.Json.Faithful
import DepGraph.Proofs.Time.Rfc3339
import DepGraph.Wire

/-!
# Answers survive as text

What the library writes it can read again, and nothing is lost or changed on the way
(`DepGraph.answers_survive`). Every answer is a record, and records, lists and single values keep
what they hold, so that there is nothing to be said about an answer but what it consists of.

Two things have to be as they should be. Counts have to fit into sixty-four bits. And the decimal
text of a weight has to read back as the same double, because a reader makes one out of it by
scaling, which rounds; this is asked of the weights that are there, one by one.
-/

namespace DepGraph

open Json (Codec Value)

/-! ### Parts of answers -/

theorem EdgeSummary.keeps {e : EdgeSummary} (h : Value.ReadsBack e.weight) :
    EdgeSummary.codec.Keeps e :=
  .of_parts ⟨Codec.keeps_text _, Codec.keeps_text _, Codec.keeps_text _, Codec.keeps_real h,
    trivial⟩ rfl (by decide)

theorem AffectedFile.keeps {f : AffectedFile} (h : f.distance < wordLimit) :
    AffectedFile.codec.Keeps f :=
  .of_parts ⟨Codec.keeps_text _, Codec.keeps_count h, trivial⟩ rfl (by decide)

theorem Hotspot.keeps {h : Hotspot} (hout : h.outDegree < wordLimit)
    (hin : h.inDegree < wordLimit) (htotal : h.totalDegree < wordLimit) :
    Hotspot.codec.Keeps h :=
  .of_parts ⟨Codec.keeps_text _, Codec.keeps_count hout, Codec.keeps_count hin,
    Codec.keeps_count htotal, trivial⟩ rfl (by decide)

/-! ### Answers -/

theorem EdgeListing.keeps {l : EdgeListing} (hedges : ∀ e ∈ l.edges, Value.ReadsBack e.weight)
    (htotal : l.total < wordLimit) : EdgeListing.codec.Keeps l :=
  .of_parts ⟨.list fun e he => EdgeSummary.keeps (hedges e he), Codec.keeps_count htotal, trivial⟩
    rfl (by decide)

theorem IngestReport.keeps {r : IngestReport} (h : r.count < wordLimit) :
    IngestReport.codec.Keeps r :=
  .of_parts ⟨Codec.keeps_text _, Codec.keeps_count h, trivial⟩ rfl (by decide)

theorem ImpactReport.keeps {r : ImpactReport}
    (hfiles : ∀ f ∈ r.affectedFiles, f.distance < wordLimit) (htotal : r.totalImpact < wordLimit)
    (hdepth : r.maxDepth < wordLimit) : ImpactReport.codec.Keeps r :=
  .of_parts ⟨Codec.keeps_text _, .list fun f hf => AffectedFile.keeps (hfiles f hf),
    Codec.keeps_count htotal, Codec.keeps_count hdepth, trivial⟩ rfl (by decide)

theorem CycleReport.keeps {r : CycleReport} (h : r.total < wordLimit) :
    CycleReport.codec.Keeps r :=
  .of_parts ⟨.list fun _ _ => .list fun _ _ => Codec.keeps_text _, Codec.keeps_count h, trivial⟩
    rfl (by decide)

theorem HotspotReport.keeps {r : HotspotReport}
    (h : ∀ spot ∈ r.hotspots, spot.outDegree < wordLimit ∧ spot.inDegree < wordLimit ∧
      spot.totalDegree < wordLimit) : HotspotReport.codec.Keeps r := by
  refine .of_parts ⟨.list fun spot hspot => ?_, trivial⟩ rfl (by decide)
  obtain ⟨hout, hin, htotal⟩ := h spot hspot
  exact Hotspot.keeps hout hin htotal

theorem Edge.keeps {e : Edge} (hweight : Value.ReadsBack e.weight)
    (hyear : 0 ≤ e.updatedAt.year ∧ e.updatedAt.year ≤ 9999)
    (hnanos : e.updatedAt.nanos < Instant.nanosPerSecond) : Edge.codec.Keeps e :=
  .of_parts ⟨Codec.keeps_text _, Codec.keeps_text _, Codec.keeps_text _, Codec.keeps_real hweight,
    Codec.keeps_text _, Codec.keeps_instant (Instant.ofText?_toText hyear hnanos), trivial⟩
    rfl (by decide)

/-- **Answers survive as text.** Whatever texts they hold, and in either layout, answers are read
again as they were written if their counts fit into sixty-four bits and their weights read back
from their decimal text; and so are edges, if their time is in a year of four digits and not in a
leap second. -/
theorem answers_survive :
    (∀ l : EdgeListing, (∀ e ∈ l.edges, Value.ReadsBack e.weight) → l.total < wordLimit →
      EdgeListing.codec.Survives l) ∧
    (∀ r : IngestReport, r.count < wordLimit → IngestReport.codec.Survives r) ∧
    (∀ r : ImpactReport, (∀ f ∈ r.affectedFiles, f.distance < wordLimit) →
      r.totalImpact < wordLimit → r.maxDepth < wordLimit → ImpactReport.codec.Survives r) ∧
    (∀ r : CycleReport, r.total < wordLimit → CycleReport.codec.Survives r) ∧
    (∀ r : HotspotReport, (∀ h ∈ r.hotspots, h.outDegree < wordLimit ∧ h.inDegree < wordLimit ∧
      h.totalDegree < wordLimit) → HotspotReport.codec.Survives r) ∧
    ∀ e : Edge, Value.ReadsBack e.weight →
      0 ≤ e.updatedAt.year ∧ e.updatedAt.year ≤ 9999 →
        e.updatedAt.nanos < Instant.nanosPerSecond → Edge.codec.Survives e :=
  ⟨fun _ hedges htotal => (EdgeListing.keeps hedges htotal).survives,
    fun _ h => (IngestReport.keeps h).survives,
    fun _ hfiles htotal hdepth => (ImpactReport.keeps hfiles htotal hdepth).survives,
    fun _ h => (CycleReport.keeps h).survives,
    fun _ h => (HotspotReport.keeps h).survives,
    fun _ hweight hyear hnanos => (Edge.keeps hweight hyear hnanos).survives⟩

/-- A listing with a path that needs escapes and another one outside of the basic plane, and an
edge that was written half a second after a full one. -/
theorem answers_survive_escaped :
    EdgeListing.codec.Survives ⟨[⟨"a \"b\"\\\n\u0001", "𝒳", "call", 2.5⟩], 1⟩ ∧
      Edge.codec.Survives ⟨"a", "b", "call", 2.5, "run", ⟨1709208000, 500000000⟩⟩ := by
  obtain ⟨hlisting, -, -, -, -, hedge⟩ := answers_survive
  have hweight : Value.ReadsBack 2.5 := by
    have htext : Value.realText 2.5 = ['2', '.', '5'] := by decide +kernel
    have hquotient : Nat.toFloat 25 / Json.Numeral.powerOfTen 1 = 2.5 := by decide +kernel
    refine ⟨⟨false, ['2'], ['5'], none⟩, htext ▸ by decide, ?_⟩
    have hparts : Json.Numeral.parts ⟨false, ['2'], ['5'], none⟩ = (25, -1) := by decide
    rw [Json.Numeral.real?, hparts]
    dsimp only
    rw [Json.Numeral.scale, if_pos (by decide), if_neg (by decide)]
    exact congrArg some hquotient
  refine ⟨hlisting _ ?_ (by decide), hedge _ hweight (by decide) (by decide)⟩
  rw [List.forall_mem_singleton]
  exact hweight

end DepGraph
