import DepGraph.Proofs.Json.Reading

/-!
# Forms that take whatever another form takes

One form *embeds* into another if whatever is read in the first can be read in the second as well,
as the value that a function makes of it (`DepGraph.Json.Codec.Embeds`). Forms that are built alike
from forms that embed, embed again. For records this takes fields of the same names, and it takes
the fields of the second record to be the more lenient ones when something is missing.
-/

namespace DepGraph

namespace Json

variable {α α' β β' τ τ' : Type}

/-- **One form embeds into another.** -/
def Codec.Embeds (f : α → β) (c : Codec α) (c' : Codec β) : Prop :=
  ∀ (d : Draft) (a : α), c.read d = .ok a → c'.read d = .ok (f a)

/-- One field embeds into another: their names are the same, and whatever the first one makes of a
value or of its absence, so does the second. -/
structure Field.Embeds (f : α → β) (field : Field α) (field' : Field β) : Prop where
  name : field'.name = field.name
  codec : Codec.Embeds f field.codec field'.codec
  absent : ∀ a, field.whenAbsent = some a → field'.whenAbsent = some (f a)
  short : ∀ a, field.whenShort = some a → field'.whenShort = some (f a)

/-- Fields embed one by one. -/
inductive Fields.Embeds : {τ τ' : Type} → (τ → τ') → Fields τ → Fields τ' → Prop
  | nil : Embeds id nil nil
  | cons {α β τ τ' : Type} {f : α → β} {g : τ → τ'} {field : Field α} {field' : Field β}
    {fields : Fields τ} {fields' : Fields τ'} (first : field.Embeds f field')
    (rest : Embeds g fields fields') :
    Embeds (Prod.map f g) (.cons field fields) (.cons field' fields')

/-! ### Fields -/

/-- A field that may be missing from an object embeds into one that may always be missing. -/
theorem Field.Embeds.optional (name : String) (c : Codec α) :
    (Field.optional name c).Embeds id (.withDefault name c.option none) where
  name := rfl
  codec _ _ h := h
  absent _ h := h
  short _ h := nomatch h

/-- A field that has to be there embeds into one that need not be there. -/
theorem Field.Embeds.required (name : String) (c : Codec α) (value : α) :
    (Field.required name c).Embeds id (.withDefault name c value) where
  name := rfl
  codec _ _ h := h
  absent _ h := nomatch h
  short _ h := nomatch h

theorem Field.Embeds.withDefault {f : α → β} {c : Codec α} {c' : Codec β}
    (h : Codec.Embeds f c c') (name : String) (value : α) :
    (Field.withDefault name c value).Embeds f (.withDefault name c' (f value)) where
  name := rfl
  codec := h
  absent _ ha := congrArg (fun o => o.map f) ha
  short _ ha := congrArg (fun o => o.map f) ha

/-! ### Records -/

theorem Field.Embeds.readsAs {f : α → β} {field : Field α} {field' : Field β}
    (h : field.Embeds f field') {given : List Draft} {v : α} (hv : field.ReadsAs given v) :
    field'.ReadsAs given (f v) := by
  match given with
  | [] => exact h.absent v hv
  | [value] => exact h.codec value v hv
  | _ :: _ :: _ => exact hv

namespace Fields.Embeds

variable {f : τ → τ'} {fields : Fields τ} {fields' : Fields τ'}

theorem names_eq (h : fields.Embeds f fields') : fields'.names = fields.names := by
  induction h with
  | nil => rfl
  | cons first rest ih => rw [names, names, first.name, ih]

theorem reads (h : fields.Embeds f fields') {members : List (Name × Draft)} {values : τ}
    (hvalues : fields.Reads members values) : fields'.Reads members (f values) := by
  induction h with
  | nil => trivial
  | cons first rest ih =>
    obtain ⟨v, vs⟩ := values
    refine ⟨?_, ih hvalues.2⟩
    rw [first.name]
    exact first.readsAs hvalues.1

theorem readsInOrder (h : fields.Embeds f fields') {items : List Draft} {values : τ}
    (hvalues : fields.ReadsInOrder items values) : fields'.ReadsInOrder items (f values) := by
  induction h generalizing items with
  | nil =>
    cases items with
    | nil => trivial
    | cons item items => exact hvalues
  | cons first rest ih =>
    obtain ⟨v, vs⟩ := values
    cases items with
    | nil => exact ⟨first.short v hvalues.1, ih hvalues.2⟩
    | cons item items => exact ⟨first.codec item v hvalues.1, ih hvalues.2⟩

/-- What can stand in an object of one form can stand in an object of the other. -/
theorem accepts (h : fields.Embeds f fields') {member : Name × Draft}
    (hmember : fields.Accepts member) : fields'.Accepts member := by
  rw [Accepts, h.names_eq]
  exact hmember

end Fields.Embeds

/-! ### Codecs -/

namespace Codec

/-- **Records embed if their fields do.** -/
theorem Embeds.record {f : τ → τ'} {fields : Fields τ} {fields' : Fields τ'}
    (h : fields.Embeds f fields') (hnodup : fields.names.Nodup) :
    Embeds f (record fields) (record fields') := by
  intro d a hread
  have hnodup' : fields'.names.Nodup := h.names_eq ▸ hnodup
  cases d with
  | object members ending =>
    obtain ⟨hending, haccepts, hreads⟩ := (Fields.readObject_eq_ok_iff hnodup).mp hread
    exact (Fields.readObject_eq_ok_iff hnodup').mpr
      ⟨hending, fun member hmember => h.accepts (haccepts member hmember), h.reads hreads⟩
  | array items ending =>
    obtain ⟨hending, hreads⟩ := Fields.readArray_eq_ok_iff.mp hread
    exact Fields.readArray_eq_ok_iff.mpr ⟨hending, h.readsInOrder hreads⟩
  | null | bool _ | number _ | text _ | broken _ => cases hread

theorem Embeds.map {f : α → β} {c : Codec α} {c' : Codec β} (h : Embeds f c c')
    {k : α' → β'} {make : α → α'} {make' : β → β'} {parts : α' → α} {parts' : β' → β}
    (hmake : ∀ a, make' (f a) = k (make a)) :
    Embeds k (c.map make parts) (c'.map make' parts') := by
  intro d _ hread
  obtain ⟨a, ha, rfl⟩ := map_eq_ok.mp hread
  exact map_eq_ok.mpr ⟨f a, h d a ha, hmake a⟩

theorem Embeds.list {f : α → β} {c : Codec α} {c' : Codec β} (h : Embeds f c c') :
    Embeds (List.map f) c.list c'.list := by
  intro d values hread
  obtain ⟨items, rfl, hitems⟩ := read_list_eq_ok_iff.mp hread
  refine read_list_eq_ok_iff.mpr ⟨items, rfl, ?_⟩
  rw [List.forall₂_map_right_iff]
  exact hitems.imp h

theorem Embeds.ofText {f : α → β} {c : Codec α} {c' : Codec β} (h : Embeds f c c')
    {text : String} {a : α} (hread : c.ofText text = .ok a) : c'.ofText text = .ok (f a) := by
  obtain ⟨hread, htrailing⟩ := ofText_eq_ok_iff.mp hread
  exact ofText_eq_ok_iff.mpr ⟨h _ a hread, htrailing⟩

end Codec

end Json

end DepGraph
