import DepGraph.Json.Codec
import DepGraph.Proofs.Except

/-!
# How records, lists and texts are read

Reading an object goes through its members one by one and fills slots. What comes of it can be
said for each field by itself (`DepGraph.Json.Fields.readObject_eq_ok_iff`): the field is read
from the one member that has its name, and if there is none it has the value that is meant for
this case. Neither the order of the members matters nor what other members there are, as long as
they can be skipped.

The fields have to have different names for that, because a member is always read by the first
field with its name.

In an array the fields are read one after another, from the items in their places
(`DepGraph.Json.Fields.readArray_eq_ok_iff`).
-/

namespace DepGraph

namespace Json

theorem Ending.check_eq_ok_iff {ending : Ending} : ending.check = .ok () ↔ ending = .closed := by
  cases ending with
  | closed => exact iff_of_true rfl rfl
  | cut fault => exact iff_of_false nofun nofun

/-! ### One field -/

/-- The values of the members with a name. -/
def valuesOf (name : String) (members : List (Name × Draft)) : List Draft :=
  members.filterMap fun
    | (.ok given, value) => if given = name then some value else none
    | (.error _, _) => none

theorem valuesOf_singleton (name name' : String) (value : Draft) :
    valuesOf name' [(.ok name, value)] = if name = name' then [value] else [] := by
  rw [valuesOf, List.filterMap_cons, List.filterMap_nil]
  dsimp only
  split <;> split <;> simp_all

theorem valuesOf_append (name : String) (members members' : List (Name × Draft)) :
    valuesOf name (members ++ members') = valuesOf name members ++ valuesOf name members' :=
  List.filterMap_append

theorem valuesOf_cons (name given : String) (value : Draft) (members : List (Name × Draft)) :
    valuesOf name ((.ok given, value) :: members) =
      (if given = name then [value] else []) ++ valuesOf name members := by
  rw [← valuesOf_singleton, ← valuesOf_append]
  rfl

theorem valuesOf_eq_nil {name : String} {members : List (Name × Draft)}
    (h : .ok name ∉ members.map Prod.fst) : valuesOf name members = [] := by
  rw [valuesOf, List.filterMap_eq_nil_iff]
  rintro ⟨given, value⟩ hmember
  rcases given with e | given
  · rfl
  · refine if_neg ?_
    rintro rfl
    exact h (List.mem_map_of_mem (f := Prod.fst) hmember)

namespace Field

variable {α : Type} (field : Field α)

/-- **What becomes of the slot of a field** when values are given for it one after another: only
one can be taken, and only into an empty slot. -/
def Fills : List Draft → Option α → Option α → Prop
  | [], slot, slot' => slot' = slot
  | [value], none, slot' => ∃ v, field.codec.read value = .ok v ∧ slot' = some v
  | _, _, _ => False

/-- **What a field is read as** if these values are given for it. -/
def ReadsAs : List Draft → α → Prop
  | [], v => field.whenAbsent = some v
  | [value], v => field.codec.read value = .ok v
  | _, _ => False

variable {field} {slot slot' : Option α} {v : α}

/-- Values are taken one after another. -/
theorem fills_cons_iff {value : Draft} {given : List Draft} :
    field.Fills (value :: given) slot slot' ↔
      ∃ taken, field.Fills [value] slot taken ∧ field.Fills given taken slot' := by
  cases slot with
  | some u =>
    refine iff_of_false ?_ fun ⟨taken, h, _⟩ => h
    cases given <;> exact id
  | none =>
    cases given with
    | nil =>
      constructor
      · intro h
        exact ⟨slot', h, rfl⟩
      · rintro ⟨taken, h, rfl⟩
        exact h
    | cons second given =>
      refine iff_of_false id ?_
      rintro ⟨taken, ⟨u, -, rfl⟩, h⟩
      cases given <;> exact h

theorem fills_append_iff {first given : List Draft} :
    field.Fills (first ++ given) slot slot' ↔
      ∃ taken, field.Fills first slot taken ∧ field.Fills given taken slot' := by
  match first with
  | [] =>
    constructor
    · intro h
      exact ⟨slot, rfl, h⟩
    · rintro ⟨taken, rfl, h⟩
      exact h
  | [value] => exact fills_cons_iff
  | _ :: _ :: _ => exact iff_of_false id fun ⟨_, h, _⟩ => h

/-- What is in the slot at the end is what the field is read as. -/
theorem exists_fills_iff {given : List Draft} :
    (∃ filled, field.Fills given none filled ∧ filled.or field.whenAbsent = some v) ↔
      field.ReadsAs given v := by
  match given with
  | [] =>
    constructor
    · rintro ⟨filled, rfl, h⟩
      exact h
    · intro h
      exact ⟨none, rfl, h⟩
  | [value] =>
    constructor
    · rintro ⟨filled, ⟨u, hread, rfl⟩, h⟩
      cases h
      exact hread
    · intro h
      exact ⟨some v, ⟨v, h, rfl⟩, rfl⟩
  | _ :: _ :: _ => exact iff_of_false (fun ⟨_, h, _⟩ => h) id

/-- What is not the default was given. -/
theorem ReadsAs.required {name : String} {c : Codec α} {value : α} {given : List Draft}
    (h : (withDefault name c value).ReadsAs given v) (hne : v ≠ value) :
    (Field.required name c).ReadsAs given v := by
  match given with
  | [] => exact absurd (Option.some.inj h).symm hne
  | [_] => exact h
  | _ :: _ :: _ => exact h

end Field

/-! ### All fields -/

namespace Fields

variable {τ : Type}

/-- The names of the fields. -/
def names {τ : Type} : Fields τ → List String
  | nil => []
  | cons field rest => field.name :: rest.names

/-- **What a record is read as**: each of its fields is read from the members with its name. -/
def Reads {τ : Type} : Fields τ → List (Name × Draft) → τ → Prop
  | nil, _, _ => True
  | cons field rest, members, (v, vs) =>
    field.ReadsAs (valuesOf field.name members) v ∧ rest.Reads members vs

/-- Members of other names make no difference to what a record is read as. -/
theorem reads_cons_of_notMem {fields : Fields τ} {name : String} (h : name ∉ fields.names)
    {value : Draft} {members : List (Name × Draft)} {values : τ} :
    fields.Reads ((.ok name, value) :: members) values ↔ fields.Reads members values := by
  induction fields with
  | nil => exact Iff.rfl
  | cons field rest ih =>
    rw [names, List.mem_cons, not_or] at h
    obtain ⟨v, vs⟩ := values
    rw [Reads, Reads, valuesOf_cons, if_neg h.1, List.nil_append, ih h.2]

theorem reads_append_of_notMem {fields : Fields τ} {others members : List (Name × Draft)}
    {values : τ} (h : ∀ member ∈ others, ∃ name, member.1 = .ok name ∧ name ∉ fields.names) :
    fields.Reads (others ++ members) values ↔ fields.Reads members values := by
  induction others with
  | nil => exact Iff.rfl
  | cons member others ih =>
    rw [List.forall_mem_cons] at h
    obtain ⟨name, value⟩ := member
    obtain ⟨⟨name, rfl, hname⟩, hothers⟩ := h
    rw [List.cons_append, reads_cons_of_notMem hname, ih hothers]

/-- **The order of the members** makes no difference either. -/
theorem Reads.perm {fields : Fields τ} {members members' : List (Name × Draft)} {values : τ}
    (h : fields.Reads members values) (hperm : members.Perm members') :
    fields.Reads members' values := by
  induction fields with
  | nil => trivial
  | cons field rest ih =>
    obtain ⟨v, vs⟩ := values
    refine ⟨?_, ih h.2⟩
    have hgiven : (valuesOf field.name members).Perm (valuesOf field.name members') :=
      hperm.filterMap _
    -- at most one value is given for the field
    have hread := h.1
    rcases hvalues : valuesOf field.name members with _ | ⟨value, _ | ⟨_, _⟩⟩ <;>
      rw [hvalues] at hgiven hread
    · rwa [hgiven.symm.eq_nil]
    · rwa [List.perm_singleton.mp hgiven.symm]
    · exact absurd hread id

/-- **A member that can stand in an object**: its name can be decoded, and either it belongs to a
field or it can be skipped. -/
def Accepts (fields : Fields τ) (member : Name × Draft) : Prop :=
  ∃ name, member.1 = .ok name ∧ (name ∈ fields.names ∨ member.2.skipped = none)

section Slots

variable {α : Type} {field : Field α} {rest : Fields τ} {slot slot' : Option α}
  {others others' : rest.Slots} {name : String}

/-- The slot of the first field with the slots of the other ones. -/
def Slots.of (slot : Option α) (others : rest.Slots) : (cons field rest).Slots := (slot, others)

/-- The slot of the first field. -/
def Slots.first (slots : (cons field rest).Slots) : Option α := Prod.fst slots

/-- The slots of the other fields. -/
def Slots.tail (slots : (cons field rest).Slots) : rest.Slots := Prod.snd slots

theorem Slots.exists_eq_of (slots : (cons field rest).Slots) :
    ∃ slot others, slots = Slots.of slot others :=
  ⟨first slots, tail slots, rfl⟩

theorem Slots.of_inj :
    (of slot others : (cons field rest).Slots) = of slot' others' ↔
      slot = slot' ∧ others = others' := by
  constructor
  · intro h
    exact ⟨congrArg Prod.fst h, congrArg Prod.snd h⟩
  · rintro ⟨rfl, rfl⟩
    rfl

/-- What becomes of the slots of all fields when members are read. -/
def Fills {τ : Type} : (fields : Fields τ) → List (Name × Draft) → fields.Slots → fields.Slots →
    Prop
  | nil, _, _, _ => True
  | cons field rest, members, slots, slots' =>
    field.Fills (valuesOf field.name members) (Slots.first slots) (Slots.first slots') ∧
      rest.Fills members (Slots.tail slots) (Slots.tail slots')

theorem fills_of_iff {members : List (Name × Draft)} :
    (cons field rest).Fills members (Slots.of slot others) (Slots.of slot' others') ↔
      field.Fills (valuesOf field.name members) slot slot' ∧ rest.Fills members others others' :=
  Iff.rfl

/-- A member is read by the first field that has its name, unless the slot is taken. -/
theorem put_of_name_eq (h : field.name = name) (value : Draft) (slot : Option α)
    (others : rest.Slots) :
    (cons field rest).put name value (Slots.of slot others) = some
      (match slot with
      | some _ => .error .mismatch
      | none => (field.codec.read value).map fun v => Slots.of (some v) others) :=
  if_pos h

theorem put_of_name_ne (h : field.name ≠ name) (value : Draft) (slot : Option α)
    (others : rest.Slots) :
    (cons field rest).put name value (Slots.of slot others) =
      (rest.put name value others).map (·.map (Slots.of slot)) :=
  if_neg h

end Slots

variable {fields : Fields τ} {slots slots' : fields.Slots}

theorem put_eq_none_iff {name : String} {value : Draft} :
    fields.put name value slots = none ↔ name ∉ fields.names := by
  induction fields with
  | nil => exact iff_of_true rfl List.not_mem_nil
  | cons field rest ih =>
    obtain ⟨slot, others, rfl⟩ := Slots.exists_eq_of slots
    rw [names, List.mem_cons, not_or]
    by_cases h : field.name = name
    · rw [put_of_name_eq h]
      exact iff_of_false nofun fun hne => hne.1 h.symm
    · rw [put_of_name_ne h, Option.map_eq_none_iff, ih]
      exact (and_iff_right (Ne.symm h)).symm

/-- Members of other names leave the slots as they are. -/
theorem fills_of_notMem {members : List (Name × Draft)}
    (h : ∀ name ∈ fields.names, valuesOf name members = []) :
    fields.Fills members slots slots' ↔ slots' = slots := by
  induction fields with
  | nil => exact iff_of_true trivial rfl
  | cons field rest ih =>
    obtain ⟨slot, others, rfl⟩ := Slots.exists_eq_of slots
    obtain ⟨slot', others', rfl⟩ := Slots.exists_eq_of slots'
    rw [names, List.forall_mem_cons] at h
    rw [fills_of_iff, Slots.of_inj, h.1, ih h.2]
    rfl

theorem fills_nil_iff : fields.Fills [] slots slots' ↔ slots' = slots :=
  fills_of_notMem fun _ _ => rfl

/-- Members are read one after another. -/
theorem fills_cons_iff {member : Name × Draft} {members : List (Name × Draft)} :
    fields.Fills (member :: members) slots slots' ↔
      ∃ filled, fields.Fills [member] slots filled ∧ fields.Fills members filled slots' := by
  induction fields with
  | nil => exact iff_of_true trivial ⟨(), trivial, trivial⟩
  | cons field rest ih =>
    obtain ⟨slot, others, rfl⟩ := Slots.exists_eq_of slots
    obtain ⟨slot', others', rfl⟩ := Slots.exists_eq_of slots'
    have hvalues : valuesOf field.name (member :: members) =
        valuesOf field.name [member] ++ valuesOf field.name members :=
      valuesOf_append field.name [member] members
    rw [fills_of_iff, hvalues, Field.fills_append_iff, ih]
    constructor
    · rintro ⟨⟨taken, hfirst, hrest⟩, filled, hfirst', hrest'⟩
      exact ⟨Slots.of taken filled, ⟨hfirst, hfirst'⟩, hrest, hrest'⟩
    · rintro ⟨filled, hfirst, hrest⟩
      obtain ⟨taken, filled, rfl⟩ := Slots.exists_eq_of filled
      exact ⟨⟨taken, hfirst.1, hrest.1⟩, filled, hfirst.2, hrest.2⟩

/-- A member that belongs to no field leaves the slots as they are. -/
theorem fills_singleton_of_notMem {name : String} {value : Draft} (h : name ∉ fields.names) :
    fields.Fills [(.ok name, value)] slots slots' ↔ slots' = slots := by
  refine fills_of_notMem fun name' hname' => ?_
  rw [valuesOf_singleton, if_neg]
  rintro rfl
  exact h hname'

/-- **Reading a member of a field** fills the slot of the field. -/
theorem put_eq_some_iff (hnodup : fields.names.Nodup) {name : String} {value : Draft} :
    fields.put name value slots = some (.ok slots') ↔
      name ∈ fields.names ∧ fields.Fills [(.ok name, value)] slots slots' := by
  induction fields with
  | nil => exact iff_of_false nofun fun h => List.not_mem_nil h.1
  | cons field rest ih =>
    obtain ⟨slot, others, rfl⟩ := Slots.exists_eq_of slots
    obtain ⟨slot', others', rfl⟩ := Slots.exists_eq_of slots'
    rw [names, List.nodup_cons] at hnodup
    rw [fills_of_iff, valuesOf_singleton, names, List.mem_cons]
    by_cases h : field.name = name
    · -- the other fields have other names, so that their slots stay as they are
      rw [put_of_name_eq h, if_pos h.symm, fills_singleton_of_notMem (h ▸ hnodup.1),
        Option.some.injEq, and_iff_right (Or.inl h.symm)]
      rcases slot with _ | u
      · dsimp only
        rw [map_eq_ok]
        constructor
        · rintro ⟨v, hread, heq⟩
          obtain ⟨rfl, rfl⟩ := Slots.of_inj.mp heq
          exact ⟨⟨v, hread, rfl⟩, rfl⟩
        · rintro ⟨⟨v, hread, rfl⟩, rfl⟩
          exact ⟨v, hread, rfl⟩
      · exact iff_of_false nofun And.left
    · rw [put_of_name_ne h, Option.map_eq_some_iff, if_neg (Ne.symm h), or_iff_right (Ne.symm h)]
      constructor
      · rintro ⟨read, hput, hmap⟩
        obtain ⟨filled, rfl, heq⟩ := map_eq_ok.mp hmap
        obtain ⟨rfl, rfl⟩ := Slots.of_inj.mp heq
        obtain ⟨hmem, hfills⟩ := (ih hnodup.2).mp hput
        exact ⟨hmem, rfl, hfills⟩
      · rintro ⟨hmem, hslot, hfills⟩
        obtain rfl : slot' = slot := hslot
        exact ⟨_, (ih hnodup.2).mpr ⟨hmem, hfills⟩, rfl⟩

theorem accepts_ok_iff {name : String} {value : Draft} :
    fields.Accepts (.ok name, value) ↔ name ∈ fields.names ∨ value.skipped = none := by
  constructor
  · rintro ⟨_, hname, h⟩
    cases hname
    exact h
  · exact fun h => ⟨name, rfl, h⟩

theorem readMember_eq_ok_iff (hnodup : fields.names.Nodup) {member : Name × Draft} :
    fields.readMember slots member = .ok slots' ↔
      fields.Accepts member ∧ fields.Fills [member] slots slots' := by
  obtain ⟨name, value⟩ := member
  rcases name with e | name
  · refine iff_of_false nofun ?_
    rintro ⟨⟨name, hname, -⟩, -⟩
    cases hname
  rw [accepts_ok_iff, readMember]
  dsimp only [bind, Except.bind]
  rcases hput : fields.put name value slots with _ | read
  · have hmem : name ∉ fields.names := put_eq_none_iff.mp hput
    rw [fills_singleton_of_notMem hmem, or_iff_right hmem]
    dsimp only
    rcases value.skipped with _ | failure
    · rw [Except.ok.injEq, and_iff_right rfl]
      exact eq_comm
    · exact iff_of_false nofun fun h => nomatch h.1
  · have hmem : name ∈ fields.names := by
      by_contra hmem
      rw [put_eq_none_iff.mpr hmem] at hput
      cases hput
    have hfills : fields.put name value slots = some (.ok slots') ↔
        name ∈ fields.names ∧ fields.Fills [(.ok name, value)] slots slots' :=
      put_eq_some_iff hnodup
    rw [hput, Option.some.injEq, and_iff_right hmem] at hfills
    rw [← hfills, and_iff_right (Or.inl hmem)]

theorem foldlM_readMember_eq_ok_iff (hnodup : fields.names.Nodup)
    {members : List (Name × Draft)} :
    members.foldlM fields.readMember slots = .ok slots' ↔
      (∀ member ∈ members, fields.Accepts member) ∧ fields.Fills members slots slots' := by
  induction members generalizing slots with
  | nil =>
    rw [fills_nil_iff, and_iff_right fun _ h => absurd h List.not_mem_nil]
    change Except.ok slots = .ok slots' ↔ _
    rw [Except.ok.injEq]
    exact eq_comm
  | cons member members ih =>
    rw [List.foldlM_cons, List.forall_mem_cons, fills_cons_iff, bind_eq_ok]
    constructor
    · rintro ⟨filled, hread, h⟩
      obtain ⟨hfirst, hfills⟩ := (readMember_eq_ok_iff hnodup).mp hread
      obtain ⟨hrest, hfills'⟩ := ih.mp h
      exact ⟨⟨hfirst, hrest⟩, filled, hfills, hfills'⟩
    · rintro ⟨⟨hfirst, hrest⟩, filled, hfills, hfills'⟩
      exact ⟨filled, (readMember_eq_ok_iff hnodup).mpr ⟨hfirst, hfills⟩,
        ih.mpr ⟨hrest, hfills'⟩⟩

/-- A field has its value from its slot or otherwise. -/
theorem values_of_eq_ok_iff {α : Type} {field : Field α} {rest : Fields τ} {slot : Option α}
    {others : rest.Slots} {v : α} {vs : τ} :
    (cons field rest).values (Slots.of slot others) = .ok (v, vs) ↔
      slot.or field.whenAbsent = some v ∧ rest.values others = .ok vs := by
  conv_lhs => unfold values
  dsimp only [Slots.of]
  rcases slot.or field.whenAbsent with _ | v'
  · exact iff_of_false nofun fun h => nomatch h.1
  · rw [map_eq_ok, Option.some.injEq]
    constructor
    · rintro ⟨vs', hvs, heq⟩
      obtain ⟨rfl, rfl⟩ := Prod.mk.inj heq
      exact ⟨rfl, hvs⟩
    · rintro ⟨rfl, hvs⟩
      exact ⟨vs, hvs, rfl⟩

/-- When all members have been read, each field is read as it should be. -/
theorem exists_fills_iff {members : List (Name × Draft)} {values : τ} :
    (∃ filled, fields.Fills members fields.noSlots filled ∧ fields.values filled = .ok values) ↔
      fields.Reads members values := by
  induction fields with
  | nil => exact iff_of_true ⟨(), trivial, rfl⟩ trivial
  | cons field rest ih =>
    obtain ⟨v, vs⟩ := values
    change _ ↔ field.ReadsAs (valuesOf field.name members) v ∧ rest.Reads members vs
    have hnone : (cons field rest).noSlots = Slots.of none rest.noSlots := rfl
    rw [← Field.exists_fills_iff, ← ih, hnone]
    constructor
    · rintro ⟨filled, hfills, hvalues⟩
      obtain ⟨slot, others, rfl⟩ := Slots.exists_eq_of filled
      obtain ⟨hv, hvs⟩ := values_of_eq_ok_iff.mp hvalues
      exact ⟨⟨slot, hfills.1, hv⟩, others, hfills.2, hvs⟩
    · rintro ⟨⟨slot, hslot, hv⟩, others, hothers, hvs⟩
      exact ⟨Slots.of slot others, fills_of_iff.mpr ⟨hslot, hothers⟩,
        values_of_eq_ok_iff.mpr ⟨hv, hvs⟩⟩

/-- **Reading an object** succeeds if nothing is wrong with its members and each field can be read
from the members with its name; the record is what the fields are read as. -/
theorem readObject_eq_ok_iff (hnodup : fields.names.Nodup) {members : List (Name × Draft)}
    {ending : Ending} {values : τ} :
    fields.readObject members ending = .ok values ↔
      ending = .closed ∧ (∀ member ∈ members, fields.Accepts member) ∧
        fields.Reads members values := by
  rw [← exists_fills_iff, readObject, bind_eq_ok]
  constructor
  · rintro ⟨filled, hfold, h⟩
    obtain ⟨⟨⟩, hending, hvalues⟩ := bind_eq_ok.mp h
    obtain ⟨haccepts, hfills⟩ := (foldlM_readMember_eq_ok_iff hnodup).mp hfold
    exact ⟨Ending.check_eq_ok_iff.mp hending, haccepts, filled, hfills, hvalues⟩
  · rintro ⟨hending, haccepts, filled, hfills, hvalues⟩
    exact ⟨filled, (foldlM_readMember_eq_ok_iff hnodup).mpr ⟨haccepts, hfills⟩,
      bind_eq_ok.mpr ⟨(), Ending.check_eq_ok_iff.mpr hending, hvalues⟩⟩

/-! ### Arrays -/

/-- **What a record is read as in an array**: each field is read from the item in its place, and
has the value that is meant for this case if the array ends before it. -/
def ReadsInOrder {τ : Type} : Fields τ → List Draft → τ → Prop
  | nil, [], _ => True
  | nil, _ :: _, _ => False
  | cons field rest, [], (v, vs) => field.whenShort = some v ∧ rest.ReadsInOrder [] vs
  | cons field rest, item :: items, (v, vs) =>
    field.codec.read item = .ok v ∧ rest.ReadsInOrder items vs

/-- **Reading a record from an array.** -/
theorem readArray_eq_ok_iff {items : List Draft} {ending : Ending} {values : τ} :
    fields.readArray ending items = .ok values ↔
      ending = .closed ∧ fields.ReadsInOrder items values := by
  induction fields generalizing items with
  | nil =>
    cases items with
    | nil => exact Ending.check_eq_ok_iff.trans (and_iff_left trivial).symm
    | cons item items => exact iff_of_false nofun And.right
  | cons field rest ih =>
    obtain ⟨v, vs⟩ := values
    cases items with
    | nil =>
      rw [readArray, bind_eq_ok, ReadsInOrder]
      constructor
      · rintro ⟨⟨⟩, hending, h⟩
        obtain ⟨v', hv, h⟩ := bind_eq_ok.mp h
        obtain ⟨vs', hvs, heq⟩ := bind_eq_ok.mp h
        obtain ⟨rfl, rfl⟩ := Prod.mk.inj (Except.ok.inj heq)
        refine ⟨Ending.check_eq_ok_iff.mp hending, ?_, (ih.mp hvs).2⟩
        rcases hshort : field.whenShort with _ | u <;> rw [hshort] at hv <;> cases hv
        rfl
      · rintro ⟨hending, hshort, hrest⟩
        refine ⟨(), Ending.check_eq_ok_iff.mpr hending, bind_eq_ok.mpr ⟨v, ?_,
          bind_eq_ok.mpr ⟨vs, ih.mpr ⟨hending, hrest⟩, rfl⟩⟩⟩
        rw [hshort]
        rfl
    | cons item items =>
      rw [readArray, bind_eq_ok, ReadsInOrder]
      constructor
      · rintro ⟨v', hv, h⟩
        obtain ⟨vs', hvs, heq⟩ := bind_eq_ok.mp h
        obtain ⟨rfl, rfl⟩ := Prod.mk.inj (Except.ok.inj heq)
        obtain ⟨hending, hrest⟩ := ih.mp hvs
        exact ⟨hending, hv, hrest⟩
      · rintro ⟨hending, hv, hrest⟩
        exact ⟨v, hv, bind_eq_ok.mpr ⟨vs, ih.mpr ⟨hending, hrest⟩, rfl⟩⟩

end Fields

/-! ### Lists and texts -/

namespace Codec

variable {α : Type} {c : Codec α}

/-- **Reading a list** succeeds if the array is complete and each of its items can be read. -/
theorem read_list_eq_ok_iff {d : Draft} {values : List α} :
    c.list.read d = .ok values ↔
      ∃ items, d = .array items .closed ∧
        List.Forall₂ (fun item value => c.read item = .ok value) items values := by
  constructor
  · intro h
    cases d with
    | array items ending =>
      obtain ⟨values', hitems, h⟩ := bind_eq_ok.mp h
      obtain ⟨⟨⟩, hending, h⟩ := bind_eq_ok.mp h
      cases h
      rw [Ending.check_eq_ok_iff.mp hending]
      exact ⟨items, rfl, mapM_eq_ok.mp hitems⟩
    | null | bool _ | number _ | text _ | object _ _ | broken _ => cases h
  · rintro ⟨items, rfl, hitems⟩
    exact bind_eq_ok.mpr ⟨values, mapM_eq_ok.mpr hitems, rfl⟩

/-- **Reading a text** succeeds if its value can be read and nothing comes after it. -/
theorem ofText_eq_ok_iff {text : String} {a : α} :
    c.ofText text = .ok a ↔
      c.read (Document.ofText text).value = .ok a ∧ (Document.ofText text).trailing = false := by
  rw [ofText, ofDocument, bind_eq_ok]
  constructor
  · rintro ⟨a', hread, h⟩
    split at h
    · cases h
    · next htrailing =>
      cases h
      exact ⟨hread, Bool.eq_false_iff.mpr htrailing⟩
  · rintro ⟨hread, htrailing⟩
    refine ⟨a, hread, ?_⟩
    rw [htrailing]
    rfl

end Codec

end Json

end DepGraph
