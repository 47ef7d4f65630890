import Mathlib.Data.List.Forall2

/-!
# When something succeeds that is done in steps

All checking and all reading is done in steps, the first of which that fails is what the whole
fails with. So the whole succeeds if all steps do. What is done for the members of a list fails with
the first member that it fails for (`DepGraph.FirstFailing`), which is to say the one with the least
index.
-/

namespace DepGraph

variable {ε α β : Type}

theorem bind_eq_ok {x : Except ε α} {f : α → Except ε β} {b : β} :
    x >>= f = .ok b ↔ ∃ a, x = .ok a ∧ f a = .ok b := by
  cases x with
  | error e =>
    constructor
    · intro h
      cases h
    · rintro ⟨a, ha, -⟩
      cases ha
  | ok a =>
    constructor
    · exact fun h => ⟨a, rfl, h⟩
    · rintro ⟨a', ha, hb⟩
      rw [Except.ok.inj ha]
      exact hb

theorem map_eq_ok {x : Except ε α} {f : α → β} {b : β} :
    x.map f = .ok b ↔ ∃ a, x = .ok a ∧ f a = b := by
  cases x with
  | error e => exact iff_of_false nofun fun ⟨_, h, _⟩ => nomatch h
  | ok a =>
    constructor
    · intro h
      exact ⟨a, rfl, Except.ok.inj h⟩
    · rintro ⟨a', ha, rfl⟩
      rw [Except.ok.inj ha]
      rfl

theorem map_eq_error {x : Except ε α} {f : α → β} {e : ε} : x.map f = .error e ↔ x = .error e := by
  cases x with
  | error e' =>
    change Except.error e' = .error e ↔ _
    rw [Except.error.injEq, Except.error.injEq]
  | ok a => exact iff_of_false nofun nofun

/-- Doing something for each member of a list succeeds if it does for every member. -/
theorem mapM_eq_ok {f : α → Except ε β} {as : List α} {bs : List β} :
    as.mapM f = .ok bs ↔ List.Forall₂ (fun a b => f a = .ok b) as bs := by
  induction as generalizing bs with
  | nil =>
    rw [List.mapM_nil, List.forall₂_nil_left_iff]
    constructor
    · intro h
      exact (Except.ok.inj h).symm
    · rintro rfl
      rfl
  | cons a as ih =>
    rw [List.mapM_cons, bind_eq_ok, List.forall₂_cons_left_iff]
    constructor
    · rintro ⟨b, hb, h⟩
      obtain ⟨bs', hbs, h⟩ := bind_eq_ok.mp h
      exact ⟨b, bs', hb, ih.mp hbs, (Except.ok.inj h).symm⟩
    · rintro ⟨b, bs', hb, hbs, rfl⟩
      exact ⟨b, hb, bind_eq_ok.mpr ⟨bs', ih.mpr hbs, rfl⟩⟩

/-- What there is for each member of a list there is for the whole list. -/
theorem exists_forall₂ {R : α → β → Prop} {P : β → Prop} {as : List α}
    (h : ∀ a ∈ as, ∃ b, R a b ∧ P b) : ∃ bs, List.Forall₂ R as bs ∧ ∀ b ∈ bs, P b := by
  induction as with
  | nil => exact ⟨[], .nil, List.forall_mem_nil _⟩
  | cons a as ih =>
    rw [List.forall_mem_cons] at h
    obtain ⟨b, hb, hp⟩ := h.1
    obtain ⟨bs, hbs, hps⟩ := ih h.2
    exact ⟨b :: bs, .cons hb hbs, List.forall_mem_cons.mpr ⟨hp, hps⟩⟩

/-! ### The first member that fails -/

/-- **The first member that fails to have a property**, with its index. -/
structure FirstFailing (P : α → Prop) (as : List α) (index : Nat) (a : α) : Prop where
  /-- It is a member. -/
  member : as[index]? = some a
  /-- It does not have the property. -/
  fails : ¬P a
  /-- All members before it do. -/
  least : ∀ earlier < index, ∀ b, as[earlier]? = some b → P b

section FirstFailing

variable {P : α → Prop} {a b : α} {as : List α} {i j : Nat}

theorem FirstFailing.mem (h : FirstFailing P as i a) : a ∈ as := List.mem_of_getElem? h.member

/-- It stands between the members before it, which are as many as its index says, and others. -/
theorem FirstFailing.eq_append (h : FirstFailing P as i a) :
    as = as.take i ++ a :: as.drop (i + 1) := by
  obtain ⟨hlt, rfl⟩ := List.getElem?_eq_some_iff.mp h.member
  rw [List.getElem_cons_drop, List.take_append_drop]

theorem FirstFailing.forall_mem_take (h : FirstFailing P as i a) : ∀ b ∈ as.take i, P b := by
  intro b hb
  obtain ⟨j, hj, rfl⟩ := List.mem_take_iff_getElem.mp hb
  exact h.least j (Nat.lt_of_lt_of_le hj (Nat.min_le_left _ _)) _ (List.getElem?_eq_getElem _)

/-- There is only one that is the first. -/
theorem FirstFailing.unique (h : FirstFailing P as i a) (h' : FirstFailing P as j b) :
    i = j ∧ a = b := by
  have hij : i = j := by
    rcases Nat.lt_trichotomy i j with hlt | heq | hlt
    · exact absurd (h'.least i hlt a h.member) h.fails
    · exact heq
    · exact absurd (h.least j hlt b h'.member) h'.fails
  subst hij
  exact ⟨rfl, Option.some.inj (h.member.symm.trans h'.member)⟩

/-- A member that fails is the first one if it comes first. -/
theorem FirstFailing.head (ha : ¬P a) : FirstFailing P (a :: as) 0 a :=
  ⟨rfl, ha, fun _ h => absurd h (Nat.not_lt_zero _)⟩

/-- A member that does not fail may stand before the others. -/
theorem FirstFailing.cons (ha : P a) (h : FirstFailing P as i b) :
    FirstFailing P (a :: as) (i + 1) b := by
  refine ⟨h.member, h.fails, fun earlier hearlier c hc => ?_⟩
  cases earlier with
  | zero =>
    obtain rfl : a = c := Option.some.inj hc
    exact ha
  | succ earlier => exact h.least earlier (Nat.lt_of_succ_lt_succ hearlier) c hc

/-- If not all members have the property, then there is a first one that fails. -/
theorem exists_firstFailing (h : ¬∀ a ∈ as, P a) : ∃ i a, FirstFailing P as i a := by
  induction as with
  | nil => exact absurd (List.forall_mem_nil P) h
  | cons a as ih =>
    by_cases ha : P a
    · obtain ⟨j, b, hb⟩ := ih fun has => h (List.forall_mem_cons.mpr ⟨ha, has⟩)
      exact ⟨j + 1, b, hb.cons ha⟩
    · exact ⟨0, a, .head ha⟩

end FirstFailing

end DepGraph
