import Std.Data.HashMap

/-!
# Rosters: numbering things in the order they first appear

A *roster* gives every entry the number of entries that were there before it and
never takes a number back. It is what keeps a growing graph addressable: files and
edges are known to each other by number, and looking a name up costs one hash
access.

The two directions – from number to entry and from entry to number – are kept in an
array and a hash map. That they are inverse to each other is part of the type
(`DepGraph.Roster.agree`), so nothing that holds a roster has to carry the fact
along.
-/

namespace DepGraph

/-- A numbered collection of distinct entries, in the order of their first
appearance. -/
structure Roster (α : Type) [BEq α] [Hashable α] where
  /-- The entries; the number of an entry is its place here. -/
  entries : Array α
  /-- The number of each entry. -/
  numbers : Std.HashMap α Nat
  /-- Looking up an entry and reading off a place are inverse to each other. -/
  agree : ∀ (a : α) (i : Nat), numbers[a]? = some i ↔ entries[i]? = some a

namespace Roster

variable {α : Type} [BEq α] [Hashable α]

/-- The roster with no entries. -/
def empty : Roster α where
  entries := #[]
  numbers := ∅
  agree := by simp

instance : Inhabited (Roster α) := ⟨empty⟩

/-- How many entries there are; also the number that the next new entry gets. -/
def size (r : Roster α) : Nat := r.entries.size

/-- The number of `a`, if it is an entry. -/
def number? (r : Roster α) (a : α) : Option Nat := r.numbers[a]?

/-- The entry with number `i`, if there are that many. -/
def get? (r : Roster α) (i : Nat) : Option α := r.entries[i]?

/-- Whether `a` is an entry. -/
def contains (r : Roster α) (a : α) : Bool := (r.number? a).isSome

/-- The entries in order of first appearance. -/
def toList (r : Roster α) : List α := r.entries.toList

theorem number?_eq_some_iff {r : Roster α} {a : α} {i : Nat} :
    r.number? a = some i ↔ r.get? i = some a :=
  r.agree a i

theorem lt_size_of_number? {r : Roster α} {a : α} {i : Nat} (h : r.number? a = some i) :
    i < r.size := by
  have := number?_eq_some_iff.mp h
  rw [get?, Array.getElem?_eq_some_iff] at this
  exact this.1

variable [LawfulBEq α]

/-- Appending a fresh entry keeps the two directions inverse to each other. -/
theorem agree_push (r : Roster α) (a : α) (fresh : r.number? a = none) (b : α) (i : Nat) :
    (r.numbers.insert a r.entries.size)[b]? = some i ↔ (r.entries.push a)[i]? = some b := by
  rw [Std.HashMap.getElem?_insert, Array.getElem?_push]
  have key := r.agree b i
  have bound : r.entries[i]? = some b → i < r.entries.size := fun h =>
    (Array.getElem?_eq_some_iff.mp h).1
  by_cases hab : a = b
  · subst hab
    have absent : r.entries[i]? ≠ some a := fun h => by
      have := key.mpr h
      rw [number?] at fresh
      rw [fresh] at this
      exact absurd this (by simp)
    by_cases hi : i = r.entries.size
    · simp [hi]
    · simp [hi, absent]
      omega
  · by_cases hi : i = r.entries.size
    · have : r.entries[i]? = none := by simp [hi]
      simp [hi, hab]
      intro h
      have := bound (key.mp (by rw [hi]; exact h))
      omega
    · simp [hi, hab, key]

/-- Enter `a` unless it is there already, and give its number. -/
def enter (r : Roster α) (a : α) : Roster α × Nat :=
  match fresh : r.number? a with
  | some i => (r, i)
  | none =>
    (⟨r.entries.push a, r.numbers.insert a r.entries.size, r.agree_push a fresh⟩, r.size)

/-- The roster of the distinct members of a list, in the order of their first
appearance. -/
def ofList (as : List α) : Roster α := as.foldl (fun r a => (r.enter a).1) empty

/-- An entry that is there already keeps its number, and nothing changes. -/
theorem enter_of_number? {r : Roster α} {a : α} {i : Nat} (h : r.number? a = some i) :
    r.enter a = (r, i) := by
  unfold enter
  split <;> simp_all

/-- A new entry goes to the end. -/
theorem toList_enter_of_fresh {r : Roster α} {a : α} (h : r.number? a = none) :
    (r.enter a).1.toList = r.toList ++ [a] ∧ (r.enter a).2 = r.size := by
  unfold enter
  split
  · simp_all
  · simp [toList]

/-- Whatever was entered has the number that entering it gave. -/
theorem number?_enter (r : Roster α) (a : α) :
    (r.enter a).1.number? a = some (r.enter a).2 := by
  unfold enter
  split
  · assumption
  · simp [number?, size]

end Roster

end DepGraph
