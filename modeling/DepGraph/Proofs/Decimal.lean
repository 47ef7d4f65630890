import DepGraph.Decimal.Form

/-!
# Which doubles have a text, and what it consists of

A double has a decimal form exactly if it is a number (`DepGraph.DecimalForm.isSome_text?`), and
the form consists of digits and of the four other characters that occur in numbers
(`DepGraph.DecimalForm.isNumeral_of_mem_text?`).
-/

namespace DepGraph

/-! ### Doubles that are numbers -/

namespace Binary

open Float.Model (Format UnpackedFloat)

/-- The eleven bits of the exponent. -/
theorem toNat_unpackExponent (x : Float) :
    (@UnpackedFloat.unpackExponent Format.binary64 x.toModel.toBits.toBitVec).toNat =
      x.toBits.toNat / leastNormal % 0x800 := by
  change (x.toBits.toNat >>> 52) % 2 ^ 11 = _
  rw [Nat.shiftRight_eq_div_pow]
  rfl

/-- The exponent of a double that is not a number has no bit that is not set. -/
theorem isFinite_ofBits (bits : UInt64) :
    (ofBits bits).isFinite = !decide (bits.toNat / leastNormal % 0x800 = 2047) := by
  rw [ofBits]
  split
  · next hspecial =>
    rw [decide_eq_true hspecial]
    split <;> rfl
  · next hspecial =>
    rw [decide_eq_false hspecial]
    split <;> rfl

/-- **A double is a number** exactly if its bits say so. -/
theorem isFinite_ofFloat (x : Float) : (ofFloat x).isFinite = x.isFinite := by
  have hexponent := toNat_unpackExponent x
  rw [ofFloat, isFinite_ofBits, ← hexponent, Float.isFinite, Float.Model.isFinite,
    Float.Model.unpack]
  delta UnpackedFloat.unpack
  dsimp only
  by_cases hspecial :
      @UnpackedFloat.unpackExponent Format.binary64 x.toModel.toBits.toBitVec = -1#11
  · rw [if_pos hspecial, hspecial, apply_ite UnpackedFloat.isFinite]
    exact (ite_self false).symm
  · have hne : (@UnpackedFloat.unpackExponent Format.binary64 x.toModel.toBits.toBitVec).toNat ≠
        2047 := fun h => hspecial (BitVec.eq_of_toNat_eq h)
    rw [if_neg hspecial, decide_eq_false hne, apply_ite UnpackedFloat.isFinite,
      apply_dite UnpackedFloat.isFinite]
    change true = if _ then (if _ : _ then true else true) else true
    rw [dite_eq_ite, ite_self, ite_self]

end Binary

/-! ### The characters of a decimal -/

/-- A character that occurs in a number. -/
def IsNumeral (c : Char) : Prop := c.isDigit = true ∨ c ∈ ['-', '+', '.', 'e']

theorem forall_isNumeral_toDigits (n : Nat) : ∀ c ∈ Nat.toDigits 10 n, IsNumeral c :=
  fun _ h => Or.inl (Nat.isDigit_of_mem_toDigits (by decide) (by decide) h)

namespace DecimalForm

theorem isNumeral_zero : IsNumeral '0' := Or.inl rfl

theorem isNumeral_point : IsNumeral '.' := Or.inr (by decide)

theorem forall_isNumeral_zeros (count : Nat) : ∀ c ∈ zeros count, IsNumeral c := by
  intro c h
  rw [List.eq_of_mem_replicate h]
  exact isNumeral_zero

variable {digits : List Char}

theorem forall_isNumeral_plainText (fraction : Bool) (leading : Int)
    (hdigits : ∀ c ∈ digits, IsNumeral c) :
    ∀ c ∈ plainText fraction digits leading, IsNumeral c := by
  rw [plainText]
  split
  · rw [List.forall_mem_cons, List.forall_mem_cons, List.forall_mem_append]
    exact ⟨isNumeral_zero, isNumeral_point, forall_isNumeral_zeros _, hdigits⟩
  · dsimp only
    split
    · rw [List.forall_mem_append, List.forall_mem_append]
      refine ⟨⟨hdigits, forall_isNumeral_zeros _⟩, ?_⟩
      split
      · rw [List.forall_mem_cons, List.forall_mem_singleton]
        exact ⟨isNumeral_point, isNumeral_zero⟩
      · exact List.forall_mem_nil _
    · rw [List.forall_mem_append, List.forall_mem_cons]
      exact ⟨fun c h => hdigits c (List.mem_of_mem_take h), isNumeral_point,
        fun c h => hdigits c (List.mem_of_mem_drop h)⟩

theorem forall_isNumeral_scientificText (leading : Int) (hdigits : ∀ c ∈ digits, IsNumeral c) :
    ∀ c ∈ scientificText digits leading, IsNumeral c := by
  unfold scientificText
  rw [List.forall_mem_append, List.forall_mem_cons, List.forall_mem_cons]
  refine ⟨?_, Or.inr (by decide), ?_, forall_isNumeral_toDigits _⟩
  · split
    · rw [List.forall_mem_cons] at hdigits ⊢
      rw [List.forall_mem_cons]
      exact ⟨hdigits.1, isNumeral_point, hdigits.2⟩
    · exact hdigits
  · split
    · exact Or.inr (by decide)
    · exact Or.inr (by decide)

theorem forall_isNumeral_positiveText (form : DecimalForm) (d : Decimal) :
    ∀ c ∈ form.positiveText d, IsNumeral c := by
  rw [positiveText]
  split
  · exact forall_isNumeral_plainText _ _ (forall_isNumeral_toDigits _)
  · exact forall_isNumeral_scientificText _ (forall_isNumeral_toDigits _)

/-- **A double has a text exactly if it is a number.** -/
theorem isSome_text? (form : DecimalForm) (x : Float) :
    (form.text? (.ofFloat x)).isSome = x.isFinite := by
  rw [← Binary.isFinite_ofFloat]
  cases Binary.ofFloat x <;> rfl

/-- **The text of a double consists of the characters of numbers.** -/
theorem isNumeral_of_mem_text? {form : DecimalForm} {b : Binary} {text : List Char}
    (h : form.text? b = some text) : ∀ c ∈ text, IsNumeral c := by
  cases b with
  | nan => cases h
  | infinite negative => cases h
  | finite negative significand exponent =>
    obtain rfl := Option.some.inj h
    have hmagnitude : ∀ c ∈ (if significand = 0 then plainText form.fraction ['0'] 0
        else form.positiveText (Decimal.shortest form.tie significand exponent)),
        IsNumeral c := by
      split
      · refine forall_isNumeral_plainText _ _ ?_
        rw [List.forall_mem_singleton]
        exact isNumeral_zero
      · exact forall_isNumeral_positiveText _ _
    split
    · rw [List.forall_mem_cons]
      exact ⟨Or.inr (by decide), hmagnitude⟩
    · exact hmagnitude

end DecimalForm

end DepGraph
