import DepGraph.Graph.Basic
import Mathlib.Data.List.Induction
import Mathlib.Data.List.Nodup

/-!
# Ledgers: lists of edges in which the last writer wins

A *ledger* is the plainest thing that a dependency graph could be: the list of its edges,
one for each key, in the order in which the keys were first written. A write looks its key
up. If the key is there the edge is rewritten where it stands
(`DepGraph.Edge.rewrittenBy`), otherwise the edge goes to the end
(`DepGraph.Ledger.put`).

What a sequence of writes makes of the empty ledger can be said without going through the
writes one by one: the keys are the distinct keys that were written, in the order of their
first write (`DepGraph.Ledger.keys_ofWrites`), and each edge has the weight and the run of
the *last* write of its key and the greatest of all times at which its key was written
(`DepGraph.Edge.Settles`, `DepGraph.Ledger.settles_of_mem_ofWrites`). The two are carried
along together by induction on the writes.
-/

namespace DepGraph

/-! ### The order of instants -/

namespace Instant

theorem le_iff {a b : Instant} :
    a ≤ b ↔ a.seconds < b.seconds ∨ a.seconds = b.seconds ∧ a.nanos ≤ b.nanos :=
  Iff.rfl

protected theorem le_refl (a : Instant) : a ≤ a := Or.inr ⟨rfl, Nat.le_refl _⟩

protected theorem le_trans {a b c : Instant} (hab : a ≤ b) (hbc : b ≤ c) : a ≤ c := by
  rw [le_iff] at *
  omega

protected theorem le_of_not_le {a b : Instant} (h : ¬a ≤ b) : b ≤ a := by
  rw [le_iff] at *
  omega

theorem le_later_left (a b : Instant) : a ≤ a.later b := by
  rw [later]
  split
  case isTrue h => exact h
  case isFalse => exact a.le_refl

theorem le_later_right (a b : Instant) : b ≤ a.later b := by
  rw [later]
  split
  case isTrue => exact b.le_refl
  case isFalse h => exact Instant.le_of_not_le h

/-- The later of two instants is one of them. -/
theorem later_eq_or (a b : Instant) : a.later b = a ∨ a.later b = b := by
  rw [later]
  split
  · exact Or.inr rfl
  · exact Or.inl rfl

end Instant

/-! ### Writing into a ledger -/

/-- The edge after another write of its key: it has all the fields of the new one, but
its time does not go back. -/
def Edge.rewrittenBy (old new : Edge) : Edge :=
  { new with updatedAt := old.updatedAt.later new.updatedAt }

theorem Edge.key_rewrittenBy (old new : Edge) : (old.rewrittenBy new).key = new.key := rfl

namespace Ledger

/-- The place of a key, if some edge has it. -/
def place? (edges : List Edge) (key : EdgeKey) : Option Nat := edges.findIdx? fun e => e.key = key

/-- **A write**: the edge with this key is rewritten where it stands; if there is none the
new edge goes to the end. -/
def put (edges : List Edge) (e : Edge) : List Edge :=
  match place? edges e.key with
  | some i => edges.modify i fun old => old.rewrittenBy e
  | none => edges ++ [e]

/-- What a write does, and to which place. -/
def outcome (edges : List Edge) (e : Edge) : Outcome :=
  match place? edges e.key with
  | some i => .updated i
  | none => .inserted edges.length

/-- What a sequence of writes makes of the empty ledger. -/
def ofWrites (writes : List Edge) : List Edge := writes.foldl put []

theorem ofWrites_append (before after : List Edge) :
    ofWrites (before ++ after) = after.foldl put (ofWrites before) :=
  List.foldl_append

theorem place?_eq_none_iff {edges : List Edge} {key : EdgeKey} :
    place? edges key = none ↔ key ∉ edges.map Edge.key := by
  simp [place?]

/-- The place that is found is one that has the key. -/
theorem exists_of_place? {edges : List Edge} {key : EdgeKey} {i : Nat}
    (h : place? edges key = some i) : ∃ old, edges[i]? = some old ∧ old.key = key := by
  obtain ⟨hi, hkey, -⟩ := List.findIdx?_eq_some_iff_getElem.mp h
  exact ⟨edges[i], List.getElem?_eq_getElem hi, by simpa using hkey⟩

/-- In a ledger without repeated keys the place of a key is the only one that has it. -/
theorem place?_eq_some_iff {edges : List Edge} (hnodup : (edges.map Edge.key).Nodup)
    {key : EdgeKey} {i : Nat} :
    place? edges key = some i ↔ (edges.map Edge.key)[i]? = some key := by
  constructor
  · intro h
    obtain ⟨old, hold, rfl⟩ := exists_of_place? h
    rw [List.getElem?_map, hold]
    rfl
  · intro h
    have hmem : key ∈ edges.map Edge.key := List.mem_of_getElem? h
    rcases hplace : place? edges key with _ | j
    · exact absurd hmem (place?_eq_none_iff.mp hplace)
    · obtain ⟨old, hold, rfl⟩ := exists_of_place? hplace
      have hj : (edges.map Edge.key)[j]? = some old.key := by
        rw [List.getElem?_map, hold]
        rfl
      have hlt : j < (edges.map Edge.key).length := (List.getElem?_eq_some_iff.mp hj).1
      rw [(List.getElem?_inj hlt hnodup).mp (hj.trans h.symm)]

theorem put_of_place? {edges : List Edge} {e : Edge} {i : Nat} (h : place? edges e.key = some i) :
    put edges e = edges.modify i fun old => old.rewrittenBy e := by
  rw [put, h]

theorem put_of_notMem {edges : List Edge} {e : Edge} (h : e.key ∉ edges.map Edge.key) :
    put edges e = edges ++ [e] := by
  rw [put, place?_eq_none_iff.mpr h]

/-- A write of a key that is there leaves all keys where they are. -/
theorem keys_put_of_mem {edges : List Edge} {e : Edge} (h : e.key ∈ edges.map Edge.key) :
    (put edges e).map Edge.key = edges.map Edge.key := by
  rcases hplace : place? edges e.key with _ | i
  · exact absurd h (place?_eq_none_iff.mp hplace)
  · obtain ⟨old, hold, hkey⟩ := exists_of_place? hplace
    rw [put_of_place? hplace]
    refine List.ext_getElem? fun j => ?_
    simp only [List.getElem?_map, List.getElem?_modify]
    rcases eq_or_ne i j with rfl | hij
    · simp [hold, hkey, Edge.key_rewrittenBy]
    · simp [hij]

theorem keys_put_of_notMem {edges : List Edge} {e : Edge} (h : e.key ∉ edges.map Edge.key) :
    (put edges e).map Edge.key = edges.map Edge.key ++ [e.key] := by
  rw [put_of_notMem h, List.map_append]
  rfl

/-- **What a write leaves**: edges of other keys as they were, and one of its own key –
the edge that was written, or what it made of the one that was there. -/
theorem mem_put {edges : List Edge} (hnodup : (edges.map Edge.key).Nodup) {e x : Edge}
    (h : x ∈ put edges e) :
    x ∈ edges ∧ x.key ≠ e.key ∨ x = e ∧ e.key ∉ edges.map Edge.key ∨
      ∃ old ∈ edges, old.key = e.key ∧ x = old.rewrittenBy e := by
  rcases hplace : place? edges e.key with _ | i
  · have hfresh := place?_eq_none_iff.mp hplace
    rw [put_of_notMem hfresh] at h
    rcases List.mem_append.mp h with hx | hx
    · exact Or.inl ⟨hx, fun hkey => hfresh (hkey ▸ List.mem_map_of_mem hx)⟩
    · exact Or.inr (Or.inl ⟨List.mem_singleton.mp hx, hfresh⟩)
  · obtain ⟨old, hold, hkey⟩ := exists_of_place? hplace
    rw [put_of_place? hplace] at h
    obtain ⟨j, hj⟩ := List.mem_iff_getElem?.mp h
    rw [List.getElem?_modify] at hj
    rcases eq_or_ne i j with rfl | hij
    · refine Or.inr (Or.inr ⟨old, List.mem_of_getElem? hold, hkey, ?_⟩)
      simpa [hold] using hj.symm
    · -- a second edge of the same key would have to stand at the place of the first
      have hx : edges[j]? = some x := by simpa [hij] using hj
      refine Or.inl ⟨List.mem_of_getElem? hx, fun hkeyx => hij ?_⟩
      have hplacex : place? edges e.key = some j := by
        rw [place?_eq_some_iff hnodup, List.getElem?_map, hx, ← hkeyx]
        rfl
      exact Option.some.inj (hplace.symm.trans hplacex)

/-! ### What a sequence of writes leaves -/

/-- What is added to a list is distinct from what it holds, or makes no difference. -/
theorem eraseDups_concat {α : Type} [DecidableEq α] (as : List α) (a : α) :
    (as ++ [a]).eraseDups = if a ∈ as then as.eraseDups else as.eraseDups ++ [a] := by
  rw [List.eraseDups_append]
  by_cases hmem : a ∈ as
  · simp [List.removeAll, hmem]
  · simp [List.removeAll, hmem, List.eraseDups_cons]

/-- **The keys of a ledger** are the distinct keys that were written, in the order of their
first write. -/
theorem keys_ofWrites (writes : List Edge) :
    (ofWrites writes).map Edge.key = (writes.map Edge.key).eraseDups := by
  induction writes using List.reverseRecOn with
  | nil => rfl
  | append_singleton writes e ih =>
    have hmem : e.key ∈ (ofWrites writes).map Edge.key ↔ e.key ∈ writes.map Edge.key := by
      rw [ih, List.mem_eraseDups]
    rw [ofWrites_append, List.foldl_cons, List.foldl_nil, List.map_append, List.map_singleton,
      eraseDups_concat, ← ih]
    split
    case isTrue h => exact keys_put_of_mem (hmem.mpr h)
    case isFalse h => exact keys_put_of_notMem fun hc => h (hmem.mp hc)

theorem mem_keys_ofWrites {writes : List Edge} {key : EdgeKey} :
    key ∈ (ofWrites writes).map Edge.key ↔ key ∈ writes.map Edge.key := by
  rw [keys_ofWrites, List.mem_eraseDups]

theorem nodup_keys_put {edges : List Edge} (hnodup : (edges.map Edge.key).Nodup) (e : Edge) :
    ((put edges e).map Edge.key).Nodup := by
  by_cases hmem : e.key ∈ edges.map Edge.key
  · rwa [keys_put_of_mem hmem]
  · rw [keys_put_of_notMem hmem]
    have hcons : ([e.key] ++ edges.map Edge.key).Nodup := List.nodup_cons.mpr ⟨hmem, hnodup⟩
    exact List.nodup_append_comm.mp hcons

theorem nodup_keys_ofWrites (writes : List Edge) :
    ((ofWrites writes).map Edge.key).Nodup := by
  induction writes using List.reverseRecOn with
  | nil => exact List.nodup_nil
  | append_singleton writes e ih =>
    rw [ofWrites_append]
    exact nodup_keys_put ih e

end Ledger

/-- **An edge settles a sequence of writes** if it says what these writes leave of its key:
the weight and the run of the last write of the key, and the greatest of all times at
which the key was written. -/
structure Edge.Settles (e : Edge) (writes : List Edge) : Prop where
  /-- The weight and the run are those of the last write. -/
  last : ∃ before last after, writes = before ++ last :: after ∧ last.key = e.key ∧
    (∀ w ∈ after, w.key ≠ e.key) ∧ e.weight = last.weight ∧ e.run = last.run
  /-- The time is one at which the key was written. -/
  attained : ∃ w ∈ writes, w.key = e.key ∧ w.updatedAt = e.updatedAt
  /-- The key was never written at a greater time. -/
  latest : ∀ w ∈ writes, w.key = e.key → w.updatedAt ≤ e.updatedAt

namespace Edge.Settles

variable {x e old : Edge} {writes : List Edge}

/-- Writes of other keys do not concern an edge. -/
theorem append_of_ne (h : x.Settles writes) (hne : x.key ≠ e.key) : x.Settles (writes ++ [e]) := by
  obtain ⟨⟨before, last, after, rfl, hkey, hafter, hweight, hrun⟩, ⟨w, hw, hwkey, hwtime⟩,
    hlatest⟩ := h
  refine ⟨⟨before, last, after ++ [e], by simp, hkey, fun w hw => ?_, hweight, hrun⟩,
    ⟨w, List.mem_append_left _ hw, hwkey, hwtime⟩, fun w hw hwkey => ?_⟩
  · rcases List.mem_append.mp hw with hw | hw
    · exact hafter w hw
    · rw [List.mem_singleton.mp hw]
      exact hne.symm
  · rcases List.mem_append.mp hw with hw | hw
    · exact hlatest w hw hwkey
    · exact absurd (List.mem_singleton.mp hw ▸ hwkey).symm hne

/-- The first write of a key settles it. -/
theorem append_of_fresh (hfresh : e.key ∉ writes.map Edge.key) : e.Settles (writes ++ [e]) := by
  refine ⟨⟨writes, e, [], by simp, rfl, by simp, rfl, rfl⟩, ⟨e, by simp, rfl, rfl⟩,
    fun w hw hwkey => ?_⟩
  rcases List.mem_append.mp hw with hw | hw
  · exact absurd (hwkey ▸ List.mem_map_of_mem hw) hfresh
  · rw [List.mem_singleton.mp hw]
    exact e.updatedAt.le_refl

/-- Another write of the key is settled by the rewritten edge. -/
theorem append_rewrittenBy (h : old.Settles writes) (hkey : old.key = e.key) :
    (old.rewrittenBy e).Settles (writes ++ [e]) := by
  refine ⟨⟨writes, e, [], by simp, rfl, by simp, rfl, rfl⟩, ?_, fun w hw hwkey => ?_⟩
  · rcases Instant.later_eq_or old.updatedAt e.updatedAt with hlater | hlater
    · obtain ⟨w, hw, hwkey, hwtime⟩ := h.attained
      exact ⟨w, List.mem_append_left _ hw, hwkey.trans hkey, hwtime.trans hlater.symm⟩
    · exact ⟨e, by simp, rfl, hlater.symm⟩
  · rcases List.mem_append.mp hw with hw | hw
    · exact Instant.le_trans (h.latest w hw (hwkey.trans hkey.symm)) (Instant.le_later_left ..)
    · rw [List.mem_singleton.mp hw]
      exact Instant.le_later_right ..

end Edge.Settles

/-- **Every edge of a ledger settles the writes that made it.** -/
theorem Ledger.settles_of_mem_ofWrites {writes : List Edge} {x : Edge}
    (h : x ∈ Ledger.ofWrites writes) : x.Settles writes := by
  induction writes using List.reverseRecOn generalizing x with
  | nil => exact absurd h List.not_mem_nil
  | append_singleton writes e ih =>
    rw [ofWrites_append] at h
    rcases mem_put (nodup_keys_ofWrites writes) h with ⟨hx, hne⟩ | ⟨rfl, hfresh⟩ |
      ⟨old, hold, hkey, rfl⟩
    · exact (ih hx).append_of_ne hne
    · exact .append_of_fresh fun hmem => hfresh (mem_keys_ofWrites.mpr hmem)
    · exact (ih hold).append_rewrittenBy hkey

end DepGraph
