import DepGraph.Roster
import Mathlib.Data.List.Nodup
import Mathlib.Data.Set.Function

/-!
# Rosters as lists

A roster is read through `DepGraph.Roster.toList`, the list of its entries in the order of
their first appearance: numbers are places in that list
(`DepGraph.Roster.number?_eq_some_iff_getElem?`), no entry is listed twice
(`DepGraph.Roster.nodup_toList`), and entering something appends it unless it is listed
(`DepGraph.Roster.toList_enter`). Whoever reasons about a roster needs neither its array nor
its hash map.
-/

namespace DepGraph

namespace Roster

variable {α : Type} [BEq α] [Hashable α]

/-! ### Numbers are places in the list -/

theorem get?_eq_getElem? (r : Roster α) (i : Nat) : r.get? i = r.toList[i]? := by
  rw [get?, toList, Array.getElem?_toList]

@[simp] theorem length_toList (r : Roster α) : r.toList.length = r.size := rfl

theorem number?_eq_some_iff_getElem? {r : Roster α} {a : α} {i : Nat} :
    r.number? a = some i ↔ r.toList[i]? = some a := by
  rw [number?_eq_some_iff, get?_eq_getElem?]

/-- An entry has a number exactly if it is listed. -/
theorem mem_toList_iff {r : Roster α} {a : α} : a ∈ r.toList ↔ ∃ i, r.number? a = some i := by
  rw [List.mem_iff_getElem?]
  exact exists_congr fun i => number?_eq_some_iff_getElem?.symm

theorem number?_eq_none_iff {r : Roster α} {a : α} : r.number? a = none ↔ a ∉ r.toList := by
  rw [mem_toList_iff, Option.eq_none_iff_forall_ne_some]
  push Not
  rfl

/-- The entry with the number of `a` is `a`. -/
theorem getD_get?_of_number? {r : Roster α} {a : α} {i : Nat} (h : r.number? a = some i)
    (d : α) : (r.get? i).getD d = a := by
  rw [number?_eq_some_iff.mp h]
  rfl

/-- The number of the entry with number `i` is `i`. -/
theorem number?_getD_get? {r : Roster α} {i : Nat} (h : i < r.size) (d : α) :
    r.number? ((r.get? i).getD d) = some i := by
  have hlt : i < r.toList.length := h
  rw [number?_eq_some_iff, get?_eq_getElem?, List.getElem?_eq_getElem hlt]
  rfl

/-- **No entry is listed twice**: both of its places would be its number. -/
theorem nodup_toList (r : Roster α) : r.toList.Nodup := by
  rw [List.nodup_iff_getElem?_ne_getElem?]
  intro i j hij hj heq
  -- an entry at two places would have both of them for its number
  have hi : i < r.toList.length := by omega
  obtain ⟨a, ha⟩ : ∃ a, r.toList[i]? = some a := ⟨_, List.getElem?_eq_getElem hi⟩
  have hni := number?_eq_some_iff_getElem?.mpr ha
  have hnj := number?_eq_some_iff_getElem?.mpr (heq ▸ ha)
  have : i = j := Option.some.inj (hni.symm.trans hnj)
  omega

/-- **Entries and numbers correspond one to one**, and the numbers are those up to the size. -/
theorem bijOn_number? (r : Roster α) :
    Set.BijOn r.number? {a | a ∈ r.toList} {n | ∃ i < r.size, n = some i} := by
  refine ⟨fun a ha => ?_, fun a ha b _ hab => ?_, ?_⟩
  · obtain ⟨i, hi⟩ := mem_toList_iff.mp ha
    exact ⟨i, lt_size_of_number? hi, hi⟩
  · -- both are the entry with their common number
    obtain ⟨i, hi⟩ := mem_toList_iff.mp ha
    have hi' : r.number? b = some i := hab ▸ hi
    rw [number?_eq_some_iff] at hi hi'
    exact Option.some.inj (hi.symm.trans hi')
  · rintro _ ⟨i, hi, rfl⟩
    have hget : r.toList[i]? = some r.toList[i] := List.getElem?_eq_getElem hi
    exact ⟨r.toList[i], List.getElem_mem hi, number?_eq_some_iff_getElem?.mpr hget⟩

variable [LawfulBEq α]

/-! ### Entering -/

/-- **Entering appends** what is not listed yet, and changes nothing otherwise. -/
theorem toList_enter [DecidableEq α] (r : Roster α) (a : α) :
    (r.enter a).1.toList = if a ∈ r.toList then r.toList else r.toList ++ [a] := by
  split
  case isTrue h =>
    obtain ⟨i, hi⟩ := mem_toList_iff.mp h
    rw [enter_of_number? hi]
  case isFalse h => exact (toList_enter_of_fresh (number?_eq_none_iff.mpr h)).1

/-- What was listed stays where it was. -/
theorem toList_prefix_enter (r : Roster α) (a : α) : r.toList <+: (r.enter a).1.toList := by
  classical
  rw [toList_enter]
  split
  · exact List.prefix_rfl
  · exact List.prefix_append _ _

theorem mem_toList_enter {r : Roster α} {a b : α} :
    b ∈ (r.enter a).1.toList ↔ b ∈ r.toList ∨ b = a := by
  classical
  rw [toList_enter]
  split
  case isTrue h => exact ⟨Or.inl, fun hb => hb.elim id (fun hba => hba ▸ h)⟩
  case isFalse => simp

/-- Entering something takes nobody's number away. -/
theorem number?_enter_of_number? {r : Roster α} {b : α} {i : Nat} (a : α)
    (h : r.number? b = some i) : (r.enter a).1.number? b = some i := by
  rw [number?_eq_some_iff_getElem?] at h ⊢
  obtain ⟨added, hadded⟩ := r.toList_prefix_enter a
  rw [← hadded, List.getElem?_append_left (List.getElem?_eq_some_iff.mp h).1, h]

/-! ### The roster of a list -/

/-- Entering new things one after another appends them all. -/
theorem toList_foldl_enter (bs : List α) (r : Roster α) (h : (r.toList ++ bs).Nodup) :
    (bs.foldl (fun r a => (r.enter a).1) r).toList = r.toList ++ bs := by
  classical
  induction bs generalizing r with
  | nil => simp
  | cons b bs ih =>
    have hb : b ∉ r.toList := fun hmem =>
      List.disjoint_of_nodup_append h hmem (List.mem_cons_self ..)
    have hstep : (r.enter b).1.toList = r.toList ++ [b] := by rw [toList_enter, if_neg hb]
    rw [List.foldl_cons, ih _ (by rw [hstep, List.append_assoc]; exact h), hstep,
      List.append_assoc]
    rfl

/-- A list without repetitions is the list of its roster. -/
theorem toList_ofList_of_nodup {as : List α} (h : as.Nodup) : (ofList as).toList = as :=
  toList_foldl_enter as empty h

end Roster

end DepGraph
