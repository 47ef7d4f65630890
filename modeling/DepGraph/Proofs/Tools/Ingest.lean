import DepGraph.Proofs.Batch
import DepGraph.Proofs.Json.Embedding
import DepGraph.Proofs.Store
import DepGraph.Tools.Call

/-!
# Batches as arguments of a tool

The arguments of `ingest` and batches are described by two different records, of which the one for
arguments is the stricter one: it embeds into the other
(`DepGraph.Tools.IngestParams.embeds`). What the stricter one does not take is a batch that does
not name its repository or its run, and such a batch is not accepted anyway, and records that are
written as arrays which end early. So an accepted batch, with all of its records written as
objects, can be handed to the tool as it is
(`DepGraph.Tools.ingest_takes_batches`).
-/

namespace DepGraph

open Json

namespace Tools

/-! ### Arguments are batches -/

theorem EdgeParams.embeds : Codec.Embeds toDescriptor EdgeParams.codec Descriptor.codec :=
  .map
    (.record
      (.cons (.optional ..) <| .cons (.optional ..) <|
        .cons (.optional ..) <| .cons (.optional ..) .nil)
      (by decide))
    fun _ => rfl

/-- **Whatever can be read as arguments can be read as a batch**, and it is the same batch. -/
theorem IngestParams.embeds : Codec.Embeds toBatch IngestParams.codec Batch.codec :=
  .map
    (.record
      (.cons (.required ..) <| .cons (.required ..) <|
        .cons (.withDefault EdgeParams.embeds.list ..) .nil)
      (by decide))
    fun _ => rfl

/-! ### Batches are arguments -/

/-- A draft that is an object. -/
def IsObject (d : Draft) : Prop := ∃ members ending, d = .object members ending

/-- **A batch whose records are objects**: it is one itself, and so are its edges. -/
def InObjects (d : Draft) : Prop :=
  ∃ members ending, d = .object members ending ∧
    ∀ edges ∈ valuesOf "edges" members, ∀ items ending', edges = .array items ending' →
      ∀ item ∈ items, IsObject item

/-- In an object, the fields of an edge are read alike. -/
theorem EdgeParams.exists_of_descriptor {d : Draft} (hd : IsObject d) {x : Descriptor}
    (h : Descriptor.codec.read d = .ok x) :
    ∃ e, EdgeParams.codec.read d = .ok e ∧ e.toDescriptor = x := by
  obtain ⟨members, ending, rfl⟩ := hd
  obtain ⟨values, hvalues, rfl⟩ := map_eq_ok.mp h
  have hreads := (Fields.readObject_eq_ok_iff (by decide)).mp hvalues
  exact ⟨_, map_eq_ok.mpr ⟨values, (Fields.readObject_eq_ok_iff (by decide)).mpr hreads, rfl⟩, rfl⟩

/-- A list whose items are objects can be read as edges of arguments if it can be read as
descriptors. -/
theorem EdgeParams.exists_of_descriptors {d : Draft} {descriptors : List Descriptor}
    (hd : ∀ items ending, d = .array items ending → ∀ item ∈ items, IsObject item)
    (h : Descriptor.codec.list.read d = .ok descriptors) :
    ∃ edges, EdgeParams.codec.list.read d = .ok edges ∧
      edges.map EdgeParams.toDescriptor = descriptors := by
  obtain ⟨items, rfl, hitems⟩ := Codec.read_list_eq_ok_iff.mp h
  have hobjects := hd items .closed rfl
  clear h hd
  suffices hedges : ∃ edges, List.Forall₂ (fun item e => EdgeParams.codec.read item = .ok e)
      items edges ∧ edges.map EdgeParams.toDescriptor = descriptors by
    obtain ⟨edges, hedges, hmap⟩ := hedges
    exact ⟨edges, Codec.read_list_eq_ok_iff.mpr ⟨items, rfl, hedges⟩, hmap⟩
  induction hitems with
  | nil => exact ⟨[], .nil, rfl⟩
  | cons hitem _ ih =>
    rw [List.forall_mem_cons] at hobjects
    obtain ⟨e, he, rfl⟩ := EdgeParams.exists_of_descriptor hobjects.1 hitem
    obtain ⟨edges, hedges, rfl⟩ := ih hobjects.2
    exact ⟨e :: edges, .cons he hedges, rfl⟩

/-- The same for the field that holds the edges, which may be missing. -/
theorem EdgeParams.exists_of_descriptorsField {given : List Draft} {descriptors : List Descriptor}
    (hgiven : ∀ d ∈ given, ∀ items ending, d = .array items ending →
      ∀ item ∈ items, IsObject item)
    (h : (Field.withDefault "edges" Descriptor.codec.list []).ReadsAs given descriptors) :
    ∃ edges, (Field.withDefault "edges" EdgeParams.codec.list []).ReadsAs given edges ∧
      edges.map EdgeParams.toDescriptor = descriptors := by
  match given with
  | [] =>
    cases h
    exact ⟨[], rfl, rfl⟩
  | [value] => exact exists_of_descriptors (hgiven value (List.mem_singleton.mpr rfl)) h
  | _ :: _ :: _ => exact absurd h id

/-- **An accepted batch in objects can be read as arguments**: it has a repository and a run, or
they would be blank. -/
theorem IngestParams.exists_of_batch {d : Draft} (hd : InObjects d) {b : Batch}
    {accepted : Accepted} (h : Batch.codec.read d = .ok b) (hvalid : b.validate = .ok accepted) :
    ∃ p, IngestParams.codec.read d = .ok p ∧ p.toBatch = b := by
  obtain ⟨members, ending, rfl, hedges⟩ := hd
  obtain ⟨⟨repo, run, descriptors, ⟨⟩⟩, hvalues, rfl⟩ := map_eq_ok.mp h
  obtain ⟨hending, haccepts, hrepo, hrun, hdescriptors, -⟩ :=
    (Fields.readObject_eq_ok_iff (by decide)).mp hvalues
  obtain ⟨hrepo', hrun', -⟩ := Batch.validate_eq_ok_iff.mp hvalid
  have hblank : isBlank "" = true := by decide
  obtain ⟨edges, hedges', rfl⟩ := EdgeParams.exists_of_descriptorsField hedges hdescriptors
  refine ⟨⟨repo, run, edges⟩, map_eq_ok.mpr ⟨(repo, run, edges, ()), ?_, rfl⟩, rfl⟩
  refine (Fields.readObject_eq_ok_iff (by decide)).mpr ⟨hending, haccepts, ?_, ?_, hedges', trivial⟩
  · exact hrepo.required fun he => hrepo' (he ▸ hblank)
  · exact hrun.required fun he => hrun' (he ▸ hblank)

/-- **Batches can be handed to the tool as they are.** A text that can be read as arguments of
`ingest` can be read as the same batch. A text that can be read as a batch that is accepted, with
all records written as objects, can be read as arguments for the same batch, and calling the tool
with it does to any store what ingesting the batch does. -/
theorem ingest_takes_batches (text : String) :
    (∀ p, IngestParams.codec.ofText text = .ok p → Batch.codec.ofText text = .ok p.toBatch) ∧
    ∀ b accepted, Batch.codec.ofText text = .ok b → b.validate = .ok accepted →
      InObjects (Document.ofText text).value →
      (∃ p, IngestParams.codec.ofText text = .ok p ∧ p.toBatch = b) ∧
      ∀ s now, ∃ s' report, s.ingest now b = .ok (s', report) ∧
        Tool.ingest.run s now (some (Document.ofText text).value) = .ok (s', .ingested report) := by
  refine ⟨fun p => IngestParams.embeds.ofText, fun b accepted hb hvalid hobjects => ?_⟩
  obtain ⟨hread, htrailing⟩ := Codec.ofText_eq_ok_iff.mp hb
  obtain ⟨p, hp, rfl⟩ := IngestParams.exists_of_batch hobjects hread hvalid
  refine ⟨⟨p, Codec.ofText_eq_ok_iff.mpr ⟨hp, htrailing⟩, rfl⟩, fun s now => ?_⟩
  have hingest : s.ingest now p.toBatch =
      .ok (s.applyBatch now accepted, .ofCount accepted.edges.length) :=
    Store.ingest_of_ok hvalid
  refine ⟨_, _, hingest, ?_⟩
  obtain ⟨members, ending, hobject, -⟩ := hobjects
  rw [hobject] at hp ⊢
  have harguments : readArguments IngestParams.codec (some (.object members ending)) = .ok p := by
    unfold readArguments
    dsimp only
    rw [hp]
  rw [Tool.run, harguments]
  dsimp only [bind, Except.bind]
  rw [hingest]
  rfl

/-- Without the objects this is not so: an edge that is written as an array may end early in a
batch, but not in the arguments. -/
example :
    (Batch.codec.ofText "[\"app\", \"run-1\", [[\"a\", \"b\", \"import\"]]]").toBool = true ∧
      (IngestParams.codec.ofText "[\"app\", \"run-1\", [[\"a\", \"b\", \"import\"]]]").toBool =
        false := by
  decide +kernel

end Tools

end DepGraph
