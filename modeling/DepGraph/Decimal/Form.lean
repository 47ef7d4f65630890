import DepGraph.Decimal.Shortest

/-!
# Writing decimals

Two texts are made from the shortest digits of a weight. Records for machines always
show that a weight is not a count (`1.0`) and switch to scientific notation where plain
digits would be mostly zeros. Lines for people are always plain (`1`). Each of the two is
one `DepGraph.DecimalForm`.
-/

namespace DepGraph

/-- How a decimal is laid out. -/
structure DecimalForm where
  /-- The choice between two equally near shortest decimals. -/
  tie : Tie
  /-- The exponents of the leading digit for which the text has no exponent; `none` for
  all of them. -/
  plain : Option (Int × Int)
  /-- Whether plain text always has a digit after the point. -/
  fraction : Bool
deriving Repr

namespace DecimalForm

/-- Weights in records: plain from `0.00001` up to sixteen digits before the point, with
a digit after it; everything else as `1.5e+300`. -/
def record : DecimalForm := ⟨.toEven, some (-5, 15), true⟩

/-- Weights in lines for people: always plain, and whole numbers without a point. -/
def line : DecimalForm := ⟨.away, none, false⟩

/-- `count` zeros. -/
def zeros (count : Nat) : List Char := List.replicate count '0'

/-- Lay digits out without an exponent; `leading` is the exponent of the first one. -/
def plainText (fraction : Bool) (digits : List Char) (leading : Int) : List Char :=
  if leading < 0 then
    '0' :: '.' :: (zeros (-leading - 1).toNat ++ digits)
  else
    let whole := leading.toNat + 1
    if digits.length ≤ whole then
      digits ++ zeros (whole - digits.length) ++ if fraction then ['.', '0'] else []
    else
      digits.take whole ++ '.' :: digits.drop whole

/-- Lay digits out with an exponent: one digit before the point, and the exponent with
its sign and no padding. -/
def scientificText (digits : List Char) (leading : Int) : List Char :=
  let significand :=
    match digits with
    | first :: second :: rest => first :: '.' :: second :: rest
    | short => short
  let sign := if leading < 0 then '-' else '+'
  significand ++ 'e' :: sign :: Nat.toDigits 10 leading.natAbs

/-- Whether text with this leading exponent has no exponent of its own. -/
def isPlain (form : DecimalForm) (leading : Int) : Bool :=
  match form.plain with
  | none => true
  | some (least, greatest) => least ≤ leading && leading ≤ greatest

/-- The text of a positive decimal. -/
def positiveText (form : DecimalForm) (d : Decimal) : List Char :=
  let digits := Nat.toDigits 10 d.digits
  let leading := d.exponent + digits.length - 1
  if form.isPlain leading then plainText form.fraction digits leading
  else scientificText digits leading

/-- The text of a double; `none` if it is not a number. -/
def text? (form : DecimalForm) : Binary → Option (List Char)
  | .finite negative significand exponent =>
    let magnitude :=
      if significand = 0 then plainText form.fraction ['0'] 0
      else form.positiveText (Decimal.shortest form.tie significand exponent)
    some (if negative then '-' :: magnitude else magnitude)
  | _ => none

end DecimalForm

end DepGraph
