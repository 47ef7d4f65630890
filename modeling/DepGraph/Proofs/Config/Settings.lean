import DepGraph.Proofs.Config.Limits
import DepGraph.Proofs.Yaml.Mapping

/-!
# Settings

A configuration text has a line for every setting. A setting is a limit with its value in decimal,
or it is something else, under a name of its own, that does not concern the limits. This file says
what becomes of settings that are written in any order, in any number, and with any indentation.

Settings are members of a mapping of words, so the document of the text is known. Of its members
only those with the name of a limit are looked at, and they are found under this name. So the limits
that are read are the default ones, overridden by those that are set
(`DepGraph.Config.ofText_textOf`). They are then checked as limits are, whether they have been set
or not, and the first thing that is wrong with them is complained about
(`DepGraph.Config.ofText_of_settings`).

There is one thing that prevents the text from being read. A name must not be longer than a key may
be. The names of limits are short, but that of something else can be too long, and then nothing at
all is read (`DepGraph.Config.ofText_of_long`).
-/

namespace DepGraph

open Yaml (IsWord Member Document Node keyLimit)

/-- What a line of a configuration says. -/
inductive Setting
  | limit (f : Limit) (value : Nat)
  /-- Something that is not a limit. -/
  | other (name value : String)
deriving DecidableEq, Repr

namespace Setting

/-- The name of a setting. -/
def name : Setting → String
  | limit f _ => f.name
  | other name _ => name

/-- The text of its value. -/
def value : Setting → String
  | limit _ value => value.repr
  | other _ value => value

/-- The limit that is set, and its value. -/
def limit? : Setting → Option (Limit × Nat)
  | limit f value => some (f, value)
  | other .. => none

/-- The line of a setting. -/
def line (indent gap : Nat) (s : Setting) : String :=
  String.ofList (List.replicate indent ' ') ++ s.name ++ ":" ++
    String.ofList (List.replicate gap ' ') ++ s.value ++ "\n"

/-- A setting that can be written: limits have sixty-four bits, and other things have words as
their names and values and cannot be mistaken for limits. -/
def Writable : Setting → Prop
  | limit _ value => value < wordLimit
  | other name value => IsWord name.toList ∧ IsWord value.toList ∧ ∀ f : Limit, name ≠ f.name

/-- The limits that some settings set. -/
def limits (settings : List Setting) : List (Limit × Nat) := settings.filterMap limit?

theorem mem_limits_iff {settings : List Setting} {w : Limit × Nat} :
    w ∈ limits settings ↔ limit w.1 w.2 ∈ settings := by
  rw [limits, List.mem_filterMap]
  constructor
  · rintro ⟨⟨f, value⟩ | ⟨name, value⟩, hs, heq⟩
    · obtain rfl := Option.some.inj heq
      exact hs
    · cases heq
  · exact fun hs => ⟨_, hs, rfl⟩

/-- The member of a mapping that a setting is. -/
def member (s : Setting) : Member := ⟨s.name.toList, s.value.toList⟩

end Setting

/-- Settings that can stand in one text, because no limit is set twice. -/
structure Setting.Consistent (settings : List Setting) : Prop where
  writable : ∀ s ∈ settings, s.Writable
  once : ((Setting.limits settings).map (·.1)).Nodup

namespace Config

/-- A configuration text with some settings. Everything is indented by one space at least, and a
value has one space at least before it. -/
def textOf (indent gap : Nat) (settings : List Setting) : String :=
  "limits:\n" ++ String.join (settings.map (Setting.line (indent + 1) (gap + 1)))

/-- The default configuration with the limits that are set. -/
def overridden (settings : List Setting) : Config :=
  ⟨QueryLimits.override {} (Setting.limits settings)⟩

end Config

/-! ### Settings are words -/

namespace Setting

theorem isWord_repr (value : Nat) : IsWord value.repr.toList := by
  rw [Nat.toList_repr]
  refine ⟨Nat.toDigits_ne_nil, fun c hc => ?_⟩
  have hdigit : c.isDigit := Nat.isDigit_of_mem_toDigits (by decide) (by decide) hc
  simp [Yaml.isLetter, Char.isAlphanum, hdigit]

theorem isWord_name (f : Limit) : IsWord f.name.toList := by
  cases f <;> decide

theorem Writable.legible {s : Setting} (h : s.Writable) : s.member.Legible := by
  rcases s with ⟨f, value⟩ | ⟨name, value⟩
  · exact ⟨isWord_name f, isWord_repr value⟩
  · exact ⟨h.1, h.2.1⟩

end Setting

namespace Config

theorem textOf_eq (indent gap : Nat) (settings : List Setting) :
    textOf indent gap settings =
      String.ofList (Member.block "limits".toList indent gap (settings.map Setting.member)) := by
  have hline : ∀ s : Setting, (s.line (indent + 1) (gap + 1)).toList =
      s.member.line (indent + 1) gap := by
    intro s
    simp [Setting.line, Setting.member, Member.line, Member.entry]
  rw [textOf, ← String.toList_inj, String.toList_append, String.toList_join, String.toList_ofList,
    Member.block, List.flatMap_map, List.flatMap_map]
  simp only [hline, String.toList_ofList]
  rfl

/-! ### The document of settings -/

/-- The node of a limit. -/
def limitNode (value : Nat) : Node := .scalar none none .plain value.repr.toList

/-- The known names among those of settings are the names of the limits that are set. -/
theorem filter_known {settings : List Setting} (h : ∀ s ∈ settings, s.Writable) :
    (settings.map fun s => (s.name, s.member.nodes.2)).filter
        (fun field => (Limit.all.map Limit.name).contains field.1) =
      (Setting.limits settings).map fun w => (w.1.name, limitNode w.2) := by
  induction settings with
  | nil => rfl
  | cons s settings ih =>
    obtain ⟨hs, hsettings⟩ := List.forall_mem_cons.mp h
    rcases s with ⟨f, value⟩ | ⟨name, value⟩
    · have hknown : (Limit.all.map Limit.name).contains f.name :=
        List.contains_iff_mem.mpr (List.mem_map_of_mem f.mem_all)
      rw [List.map_cons, List.filter_cons_of_pos (by exact hknown), ih hsettings]
      rfl
    · have hunknown : ¬ (Limit.all.map Limit.name).contains name := by
        rw [List.contains_iff_mem, List.mem_map]
        rintro ⟨f, -, hf⟩
        exact hs.2.2 f hf.symm
      rw [List.map_cons, List.filter_cons_of_neg (by exact hunknown), ih hsettings]
      rfl

theorem members?_mapping (d : Document) (members : List Member) :
    d.members? (Member.mapping members) = some (members.map Member.nodes) := by
  cases members <;> rfl

/-- The fields of settings are the limits that are set. -/
theorem fields?_mapping (d : Document) {settings : List Setting} (h : Setting.Consistent settings) :
    d.fields? (Limit.all.map Limit.name) (Member.mapping (settings.map Setting.member)) =
      some ((Setting.limits settings).map fun w => (w.1.name, limitNode w.2)) := by
  have hnamed : ((settings.map Setting.member).map Member.nodes).mapM
      (fun field => (d.text? field.1).bind fun name => pure (name, field.2)) =
        some (settings.map fun s => (s.name, s.member.nodes.2)) := by
    rw [List.map_map, List.mapM_map]
    refine mapM_eq_some fun s _ => ?_
    exact congrArg (fun name => some (name, s.member.nodes.2)) String.ofList_toList
  have hnodup : (((Setting.limits settings).map fun w => (w.1.name, limitNode w.2)).map
      (·.1)).Nodup := by
    have hnames : (((Setting.limits settings).map (·.1)).map Limit.name).Nodup :=
      List.Pairwise.map Limit.name (fun f g hne heq => hne (Limit.name_injective heq)) h.once
    rwa [List.map_map] at hnames ⊢
  rw [Document.fields?, members?_mapping]
  simp only [Option.bind_eq_bind, Option.bind_some]
  rw [hnamed]
  simp only [Option.bind_some, filter_known h.writable, hnodup, if_true]

/-- A limit is found under its name. -/
theorem lookup_limit (f : Limit) (written : List (Limit × Nat)) :
    (written.map fun w => (w.1.name, limitNode w.2)).lookup f.name =
      (written.lookup f).map limitNode := by
  induction written with
  | nil => rfl
  | cons w written ih =>
    rw [List.map_cons, List.lookup_cons, List.lookup_cons, ih]
    have hname : (f.name == w.1.name) = (f == w.1) := by
      rw [Bool.eq_iff_iff, beq_iff_eq, beq_iff_eq]
      exact ⟨Limit.name_injective, congrArg Limit.name⟩
    rw [hname]
    cases f == w.1 <;> rfl

/-- A record is read limit by limit. -/
theorem ofNode?_eq_some {d : Document} {n : Node} {found : List (String × Node)} {l : QueryLimits}
    (hfields : d.fields? (Limit.all.map Limit.name) n = some found)
    (hlimit : ∀ f : Limit, (match found.lookup f.name with
      | some value => limitOfNode? d value
      | none => some (f.get {})) = some (f.get l)) :
    QueryLimits.ofNode? d n = some l := by
  refine Option.bind_eq_some_iff.mpr ⟨found, hfields, ?_⟩
  refine Option.bind_eq_some_iff.mpr ⟨_, hlimit .maxListedEdges, ?_⟩
  refine Option.bind_eq_some_iff.mpr ⟨_, hlimit .maxCycles, ?_⟩
  refine Option.bind_eq_some_iff.mpr ⟨_, hlimit .maxHotspots, ?_⟩
  refine Option.bind_eq_some_iff.mpr ⟨_, hlimit .defaultImpactDepth, ?_⟩
  exact Option.bind_eq_some_iff.mpr ⟨_, hlimit .maxImpactDepth, rfl⟩

/-- **The limits of settings** are the default ones, overridden by those that are set. -/
theorem ofNode?_mapping (d : Document) {settings : List Setting} (h : Setting.Consistent settings) :
    QueryLimits.ofNode? d (Member.mapping (settings.map Setting.member)) =
      some (QueryLimits.override {} (Setting.limits settings)) := by
  refine ofNode?_eq_some (fields?_mapping d h) fun f => ?_
  rw [lookup_limit]
  rcases hlookup : (Setting.limits settings).lookup f with _ | value
  · have hnot : f ∉ (Setting.limits settings).map (·.1) := by
      rintro hmem
      obtain ⟨w, hw, rfl⟩ := List.mem_map.mp hmem
      exact bne_iff_ne.mp (List.lookup_eq_none_iff.mp hlookup w hw) rfl
    exact congrArg some (Limit.get_override_of_notMem hnot _).symm
  · have hmem : (f, value) ∈ Setting.limits settings := by
      obtain ⟨before, after, heq, -⟩ := List.lookup_eq_some_iff.mp hlookup
      rw [heq]
      exact List.mem_append_right _ (List.mem_cons_self ..)
    have hvalue : value < wordLimit := h.writable _ (Setting.mem_limits_iff.mp hmem)
    rw [Limit.get_override_of_mem h.once hmem]
    exact limitOfText?_repr hvalue

/-- The document of settings has the limits under their heading. -/
theorem fields?_block (members : List Member) {root : Node}
    (hroot : (Document.block "limits".toList members).root = some root) :
    (Document.block "limits".toList members).fields? ["limits"] root =
      some [("limits", Member.mapping members)] := by
  obtain rfl := Option.some.inj hroot
  simp [Document.fields?, Document.members?, Document.follow?, Document.text?]

theorem ofDocument?_block {settings : List Setting} (h : Setting.Consistent settings) :
    ofDocument? (Document.block "limits".toList (settings.map Setting.member)) =
      some (overridden settings) := by
  rw [ofDocument?]
  split
  · next hroot => cases hroot
  · next root hroot =>
    rw [fields?_block _ hroot]
    simp only [Option.bind_eq_bind, Option.bind_some, List.lookup_cons_self, ofNode?_mapping _ h]
    rfl

/-! ### Reading settings -/

/-- **Reading settings.** They are unreadable if a name is too long for a key. Otherwise the
configuration is the default one with the limits that are set, and is checked. -/
theorem ofText_textOf {settings : List Setting} (h : Setting.Consistent settings)
    (indent gap : Nat) :
    ofText (textOf indent gap settings) =
      if ∀ s ∈ settings, s.name.utf8ByteSize ≤ keyLimit then
        (overridden settings).validate.mapError .unusable
      else .error .unreadable := by
  have hheading : IsWord "limits".toList := by decide
  have hlegible : ∀ m ∈ settings.map Setting.member, m.Legible :=
    List.forall_mem_map.mpr fun s hs => (h.writable s hs).legible
  have hshort : (∀ m ∈ settings.map Setting.member, String.utf8Len m.name ≤ keyLimit) ↔
      ∀ s ∈ settings, s.name.utf8ByteSize ≤ keyLimit := by
    refine List.forall_mem_map.trans (forall₂_congr fun s _ => ?_)
    rw [← String.utf8ByteSize_ofList, Setting.member, String.ofList_toList]
  rw [ofText, textOf_eq, Document.ofText?_block hheading (by decide) hlegible]
  simp only [hshort]
  split_ifs
  · rw [Option.bind_eq_bind, Option.bind_some, ofDocument?_block h]
  · rfl

/-- **The configuration of settings**, in whatever order they are written. A limit has the value it
is set to, and its default if it is not set. If all limits are positive and the depths do not clash,
these limits are what is read. Otherwise the first limit that is zero is complained about or, if
there is none, the two depths. So what is read always passes the check, and then the default depth
is what a query gets that does not ask for one. -/
theorem ofText_of_settings {settings : List Setting} (h : Setting.Consistent settings)
    (hshort : ∀ s ∈ settings, s.name.utf8ByteSize ≤ keyLimit) (indent gap : Nat) :
    let limits := (overridden settings).limits
    ((∀ f value, Setting.limit f value ∈ settings → f.get limits = value) ∧
      ∀ f, (∀ value, Setting.limit f value ∉ settings) → f.get limits = f.get {}) ∧
    ((∀ f : Limit, 1 ≤ f.get limits) → limits.defaultImpactDepth ≤ limits.maxImpactDepth →
      ofText (textOf indent gap settings) = .ok ⟨limits⟩) ∧
    (∀ f before after, Limit.all = before ++ f :: after → (∀ g ∈ before, 1 ≤ g.get limits) →
      f.get limits = 0 →
        ofText (textOf indent gap settings) =
          .error (.unusable (.config (f.name ++ " must be at least 1")))) ∧
    ((∀ f : Limit, 1 ≤ f.get limits) → limits.maxImpactDepth < limits.defaultImpactDepth →
      ofText (textOf indent gap settings) =
        .error (.unusable (.config
          ("default_impact_depth (" ++ limits.defaultImpactDepth.repr ++
            ") exceeds max_impact_depth (" ++ limits.maxImpactDepth.repr ++ ")")))) ∧
    ∀ text config, ofText text = .ok config →
      config.limits.validate = .ok () ∧
        config.limits.clampDepth none = config.limits.defaultImpactDepth := by
  intro limits
  have hread : ofText (textOf indent gap settings) =
      (overridden settings).validate.mapError .unusable := by
    rw [ofText_textOf h, if_pos hshort]
  refine ⟨⟨fun f value hset => ?_, fun f hunset => ?_⟩, fun hpos hdepth => ?_,
    fun f before after hall hbefore hzero => ?_, fun hpos hclash => ?_, fun text config hok => ?_⟩
  · exact Limit.get_override_of_mem h.once (Setting.mem_limits_iff.mpr hset) {}
  · refine Limit.get_override_of_notMem ?_ {}
    intro hmem
    obtain ⟨w, hw, rfl⟩ := List.mem_map.mp hmem
    exact hunset w.2 (Setting.mem_limits_iff.mp hw)
  · rw [hread, validate, QueryLimits.validate_of_sensible hpos hdepth]
    rfl
  · rw [hread, validate, QueryLimits.validate_of_zero hall hbefore hzero]
    rfl
  · rw [hread, validate, QueryLimits.validate_of_clash hpos hclash]
    rfl
  · have hvalid := ofText_eq_ok hok
    exact ⟨hvalid, QueryLimits.clampDepth_none_of_validate hvalid⟩

/-- A greatest depth that is less than the default one clashes with it, although the default depth
is not mentioned. -/
theorem ofText_of_settings_of_clash :
    Setting.Consistent [.other "note" "x_1", .limit .maxImpactDepth 2] ∧
    (∀ s ∈ [Setting.other "note" "x_1", .limit .maxImpactDepth 2],
      s.name.utf8ByteSize ≤ keyLimit) ∧
    ofText (textOf 1 0 [.other "note" "x_1", .limit .maxImpactDepth 2]) =
      .error (.unusable (.config "default_impact_depth (3) exceeds max_impact_depth (2)")) := by
  have hconsistent : Setting.Consistent [.other "note" "x_1", .limit .maxImpactDepth 2] := by
    refine ⟨List.forall_mem_cons.mpr ⟨⟨by decide, by decide, fun f => ?_⟩,
      List.forall_mem_singleton.mpr ?_⟩, by decide⟩
    · cases f <;> decide
    · change 2 < wordLimit
      decide
  have hshort : ∀ s ∈ [Setting.other "note" "x_1", .limit .maxImpactDepth 2],
      s.name.utf8ByteSize ≤ keyLimit := by
    decide
  have hpos : ∀ f : Limit,
      1 ≤ f.get (overridden [.other "note" "x_1", .limit .maxImpactDepth 2]).limits := by
    intro f
    cases f <;> decide
  exact ⟨hconsistent, hshort, (ofText_of_settings hconsistent hshort 1 0).2.2.2.1 hpos (by decide)⟩

/-- **A name can be too long**, and then nothing is read, although nobody is concerned with it. -/
theorem ofText_of_long {name value : String} (hname : IsWord name.toList)
    (hvalue : IsWord value.toList) (hlong : keyLimit < name.utf8ByteSize) (indent gap : Nat) :
    Setting.Consistent [.other name value] ∧ overridden [.other name value] = {} ∧
      ofText (textOf indent gap [.other name value]) = .error .unreadable := by
  have hlimit : ∀ f : Limit, f.name.utf8ByteSize ≤ keyLimit := by
    intro f
    cases f <;> decide
  have hconsistent : Setting.Consistent [.other name value] := by
    refine ⟨List.forall_mem_singleton.mpr ⟨hname, hvalue, fun f hf => ?_⟩, List.nodup_nil⟩
    rw [hf] at hlong
    exact Nat.not_lt_of_le (hlimit f) hlong
  refine ⟨hconsistent, rfl, ?_⟩
  rw [ofText_textOf hconsistent, if_neg]
  exact fun hshort => Nat.not_lt_of_le (hshort _ (List.mem_cons_self ..)) hlong

/-- It takes 1025 letters for this, with the default limits, which are sensible. -/
theorem ofText_of_long_letters :
    Setting.Consistent [.other (String.ofList (List.replicate 1025 'k')) "1"] ∧
    (overridden [.other (String.ofList (List.replicate 1025 'k')) "1"]).validate = .ok {} ∧
    ofText (textOf 1 0 [.other (String.ofList (List.replicate 1025 'k')) "1"]) =
      .error .unreadable := by
  have hname : IsWord (String.ofList (List.replicate 1025 'k')).toList := by
    rw [String.toList_ofList]
    refine ⟨List.replicate_succ_ne_nil, fun c hc => ?_⟩
    rw [(List.mem_replicate.mp hc).2]
    rfl
  have hlong : keyLimit < (String.ofList (List.replicate 1025 'k')).utf8ByteSize := by
    rw [String.utf8ByteSize_ofList, Yaml.utf8Len_replicate]
    decide
  have hvalue : IsWord "1".toList := by decide
  obtain ⟨hconsistent, hdefault, hread⟩ := ofText_of_long hname hvalue hlong 1 0
  refine ⟨hconsistent, ?_, hread⟩
  rw [hdefault]
  rfl

end Config

end DepGraph
