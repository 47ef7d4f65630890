import DepGraph.Config.Text
import DepGraph.Proofs.Digits

/-!
# Limits

There are five limits, and what holds of one of them holds of all. So they are given names of their
own here (`DepGraph.Limit`), and a record of limits is what these have as values. Setting a limit
changes its value and no other (`DepGraph.Limit.get_set`), so limits that are set one after the
other, each at most once, have the values that they were given
(`DepGraph.Limit.get_override_of_mem`), and all others are as they were.

What is checked of the limits is that none of them is zero, in the order of the record, and then
that the default depth does not exceed the greatest one. Limits that have been checked give a query
that asks for no depth exactly the default one
(`DepGraph.QueryLimits.clampDepth_none_of_validate`).

The decimal text of a limit stands for this limit (`DepGraph.limitOfText?_repr`).
-/

namespace DepGraph

/-! ### Limits by name -/

/-- The limits. -/
inductive Limit
  | maxListedEdges
  | maxCycles
  | maxHotspots
  | defaultImpactDepth
  | maxImpactDepth
deriving DecidableEq, Repr

namespace Limit

/-- The name that a limit is written with. -/
def name : Limit → String
  | maxListedEdges => "max_listed_edges"
  | maxCycles => "max_cycles"
  | maxHotspots => "max_hotspots"
  | defaultImpactDepth => "default_impact_depth"
  | maxImpactDepth => "max_impact_depth"

/-- The value of a limit. -/
def get (l : QueryLimits) : Limit → Nat
  | maxListedEdges => l.maxListedEdges
  | maxCycles => l.maxCycles
  | maxHotspots => l.maxHotspots
  | defaultImpactDepth => l.defaultImpactDepth
  | maxImpactDepth => l.maxImpactDepth

/-- The limits with one of them set to a value. -/
def set (value : Nat) (l : QueryLimits) : Limit → QueryLimits
  | maxListedEdges => { l with maxListedEdges := value }
  | maxCycles => { l with maxCycles := value }
  | maxHotspots => { l with maxHotspots := value }
  | defaultImpactDepth => { l with defaultImpactDepth := value }
  | maxImpactDepth => { l with maxImpactDepth := value }

/-- All limits, in the order of the record. -/
def all : List Limit := [maxListedEdges, maxCycles, maxHotspots, defaultImpactDepth, maxImpactDepth]

theorem mem_all (f : Limit) : f ∈ all := by
  cases f <;> decide

theorem name_injective {f g : Limit} (h : f.name = g.name) : f = g := by
  have hall : ∀ f ∈ all, ∀ g ∈ all, f.name = g.name → f = g := by decide
  exact hall f f.mem_all g g.mem_all h

/-- **Setting a limit** changes its value and no other. -/
theorem get_set (f g : Limit) (value : Nat) (l : QueryLimits) :
    f.get (g.set value l) = if f = g then value else f.get l := by
  cases f <;> cases g <;> rfl

end Limit

namespace QueryLimits

/-- The record lists what the limits have as values. -/
theorem named_eq (l : QueryLimits) : l.named = Limit.all.map fun f => (f.name, f.get l) :=
  rfl

/-- Limits of which some have been set, one after the other. -/
def override (l : QueryLimits) (written : List (Limit × Nat)) : QueryLimits :=
  written.foldl (fun l w => w.1.set w.2 l) l

end QueryLimits

namespace Limit

variable {f : Limit} {written : List (Limit × Nat)}

/-- **Limits that are not set** are as they were. -/
theorem get_override_of_notMem (h : f ∉ written.map (·.1)) (l : QueryLimits) :
    f.get (l.override written) = f.get l := by
  induction written generalizing l with
  | nil => rfl
  | cons w written ih =>
    obtain ⟨hw, hwritten⟩ := not_or.mp (List.mem_cons.not.mp h)
    exact (ih hwritten (w.1.set w.2 l)).trans ((get_set ..).trans (if_neg hw))

/-- **Limits that are set**, each at most once, have the values that they were given. -/
theorem get_override_of_mem (honce : (written.map (·.1)).Nodup) {value : Nat}
    (h : (f, value) ∈ written) (l : QueryLimits) : f.get (l.override written) = value := by
  induction written generalizing l with
  | nil => cases h
  | cons w written ih =>
    obtain ⟨hw, hwritten⟩ := List.nodup_cons.mp honce
    rcases List.mem_cons.mp h with rfl | hmem
    · exact (get_override_of_notMem hw _).trans ((get_set ..).trans (if_pos rfl))
    · exact ih hwritten hmem (w.1.set w.2 l)

end Limit

namespace QueryLimits

variable {l : QueryLimits}

/-! ### What is checked -/

/-- The check looks for the first limit that is zero. -/
theorem find?_named (l : QueryLimits) :
    (l.named.find? fun limit => limit.2 == 0) =
      (Limit.all.find? fun f => f.get l == 0).map fun f => (f.name, f.get l) := by
  rw [named_eq, List.find?_map]
  rfl

/-- **Sensible limits**: no cap is zero, and the default depth does not exceed the greatest. -/
theorem validate_eq_ok (h : l.validate = .ok ()) :
    (∀ limit ∈ l.named, 0 < limit.2) ∧ l.defaultImpactDepth ≤ l.maxImpactDepth := by
  rw [validate] at h
  split at h
  · cases h
  · next hfind =>
    split at h
    · cases h
    · next hdepth =>
      refine ⟨fun limit hlimit => Nat.pos_of_ne_zero ?_, Nat.le_of_not_lt hdepth⟩
      simpa using List.find?_eq_none.mp hfind limit hlimit

/-- The first limit that is zero is complained about. -/
theorem validate_of_zero {f : Limit} {before after : List Limit}
    (hall : Limit.all = before ++ f :: after) (hbefore : ∀ g ∈ before, 0 < g.get l)
    (hf : f.get l = 0) : l.validate = .error (.config (f.name ++ " must be at least 1")) := by
  have hfind : (Limit.all.find? fun f => f.get l == 0) = some f := by
    rw [List.find?_eq_some_iff_append]
    refine ⟨beq_iff_eq.mpr hf, before, after, hall, fun g hg => ?_⟩
    simpa using (hbefore g hg).ne'
  rw [validate, find?_named, hfind]
  rfl

section Positive

variable (h : ∀ f : Limit, 0 < f.get l)

include h

theorem find?_named_eq_none : (l.named.find? fun limit => limit.2 == 0) = none := by
  rw [find?_named, Option.map_eq_none_iff, List.find?_eq_none]
  intro f _
  simpa using (h f).ne'

/-- Depths that clash are complained about. -/
theorem validate_of_clash (hdepth : l.maxImpactDepth < l.defaultImpactDepth) :
    l.validate = .error (.config
      ("default_impact_depth (" ++ l.defaultImpactDepth.repr ++ ") exceeds max_impact_depth (" ++
        l.maxImpactDepth.repr ++ ")")) := by
  rw [validate, find?_named_eq_none h]
  exact if_pos hdepth

theorem validate_of_sensible (hdepth : l.defaultImpactDepth ≤ l.maxImpactDepth) :
    l.validate = .ok () := by
  rw [validate, find?_named_eq_none h]
  exact if_neg (Nat.not_lt_of_le hdepth)

end Positive

/-- **The default depth is what a query gets** that does not ask for one. -/
theorem clampDepth_none_of_validate (h : l.validate = .ok ()) :
    l.clampDepth none = l.defaultImpactDepth := by
  obtain ⟨hpos, hdepth⟩ := validate_eq_ok h
  have hdefault : 0 < l.defaultImpactDepth := hpos ("default_impact_depth", _) (by simp [named])
  simp only [clampDepth]
  omega

end QueryLimits

/-- A configuration that is read from a text has been checked. -/
theorem Config.ofText_eq_ok {text : String} {config : Config} (h : ofText text = .ok config) :
    config.limits.validate = .ok () := by
  rw [ofText] at h
  split at h
  · cases h
  · next read _ =>
    rcases hvalid : read.limits.validate with e | ⟨⟩
    · rw [validate, hvalid] at h
      cases h
    · rw [validate, hvalid] at h
      obtain rfl := Except.ok.inj h
      exact hvalid

/-! ### Limits in decimal -/

/-- If a function has a result for everything in a list, all results are found. -/
theorem mapM_eq_some {α β : Type} {f : α → Option β} {g : α → β} {as : List α}
    (h : ∀ a ∈ as, f a = some (g a)) : as.mapM f = some (as.map g) := by
  induction as with
  | nil => rfl
  | cons a as ih =>
    obtain ⟨ha, has⟩ := List.forall_mem_cons.mp h
    rw [List.mapM_cons, ha, ih has]
    rfl

theorem digitsValue?_toDigits {value : Nat} (h : value < wordLimit) :
    digitsValue? 10 (Nat.toDigits 10 value) = some value := by
  have hdigit : ∀ c ∈ Nat.toDigits 10 value,
      (Yaml.hexValue? c).filter (· < 10) = some (c.toNat - '0'.toNat) := by
    intro c hc
    have hc' : c.isDigit := Nat.isDigit_of_mem_toDigits (by decide) (by decide) hc
    have hlt : c.toNat - '0'.toNat < 10 := by
      simp only [Char.isDigit, Bool.and_eq_true, decide_eq_true_eq, UInt32.le_iff_toNat_le] at hc'
      have hnine : c.toNat ≤ 57 := hc'.2
      change c.toNat - 48 < 10
      omega
    rw [Yaml.hexValue?, if_pos hc', Option.filter_some, if_pos (decide_eq_true hlt)]
  have hvalue : ((Nat.toDigits 10 value).map fun c => c.toNat - '0'.toNat).foldl
      (fun n v => 10 * n + v) 0 = value := by
    rw [List.foldl_map, ← Nat.ofDigitChars_eq_foldl, Nat.ofDigitChars_ten_toDigits]
  rw [digitsValue?, List.isEmpty_eq_false_iff.mpr Nat.toDigits_ne_nil, mapM_eq_some hdigit]
  refine (congrArg word? hvalue).trans (if_pos h)

/-- **The decimal text of a limit** stands for this limit. -/
theorem limitOfText?_repr {value : Nat} (h : value < wordLimit) :
    limitOfText? value.repr.toList = some value := by
  have hdigits : ∀ c ∈ (Nat.toDigits 10 value).head?, c.isDigit := fun c hc =>
    Nat.isDigit_of_mem_toDigits (by decide) (by decide) (List.mem_of_head? hc)
  have hsign : (Nat.toDigits 10 value).head? ≠ some '+' := fun hplus =>
    absurd (hdigits '+' hplus) (by decide)
  rw [limitOfText?, Nat.toList_repr, if_neg hsign]
  by_cases hzero : (Nat.toDigits 10 value).head? = some '0'
  · have hvalue := Nat.ofDigitChars_ten_toDigits (n := value)
    rw [toDigits_eq_of_head? hzero] at hvalue ⊢
    exact congrArg some hvalue
  · -- only texts that begin with a zero are treated in another way
    split
    · next heq => exact absurd (congrArg List.head? heq) hzero
    · next heq => exact absurd (congrArg List.head? heq) hzero
    · next heq => exact absurd (congrArg List.head? heq) hzero
    · next heq => exact absurd (congrArg List.head? heq) hzero
    · next heq => exact absurd (congrArg List.head? heq) hzero
    · exact digitsValue?_toDigits h

end DepGraph
