import DepGraph.Config
import DepGraph.Word
import DepGraph.Yaml.Document

/-!
# Configuration texts

A configuration is written as a mapping of mappings. Everything may be left out and has
its default then; members with other names are nobody's concern, whatever they hold. A
limit is a whole number of at most sixty-four bits, in decimal and without superfluous
zeros, or with one of the signs `0x`, `0o` and `0b` in another base.
-/

namespace DepGraph

open Yaml

/-- What can be wrong with a configuration text. -/
inductive Config.Failure
  /-- It cannot be read. -/
  | unreadable
  /-- It can be read, but is not usable. -/
  | unusable (error : Error)
deriving DecidableEq, Repr

/-! ### Limits -/

/-- The number that digits stand for, if it has at most sixty-four bits. -/
def digitsValue? (base : Nat) (digits : List Char) : Option Nat := do
  if digits.isEmpty then none
  let values ← digits.mapM fun c => (hexValue? c).filter (· < base)
  word? (values.foldl (fun n v => base * n + v) 0)

/-- The limit that a text stands for. -/
def limitOfText? (text : List Char) : Option Nat :=
  match if text.head? = some '+' then text.tail else text with
  | ['0'] => some 0
  | '0' :: 'x' :: digits => digitsValue? 16 digits
  | '0' :: 'o' :: digits => digitsValue? 8 digits
  | '0' :: 'b' :: digits => digitsValue? 2 digits
  | '0' :: _ => none
  | digits => digitsValue? 10 digits

/-- Zeros in front are superfluous in decimal only, and a sign can only be a plus. -/
example :
    limitOfText? "0".toList = some 0 ∧ limitOfText? "+12".toList = some 12 ∧
      limitOfText? "0x00fF".toList = some 255 ∧ limitOfText? "007".toList = none ∧
      limitOfText? "-1".toList = none ∧ limitOfText? "".toList = none := by
  decide +kernel

/-- The tag of whole numbers. -/
def wholeNumberTag : List UInt8 := octetsOf "tag:yaml.org,2002:int"

/-- The limit that a node stands for: a plain scalar, or a literal one that is tagged as a
whole number. -/
def limitOfNode? (d : Document) (n : Node) : Option Nat := do
  match ← d.follow? n with
  | .scalar _ _ .plain text => limitOfText? text
  | .scalar _ tag .literal text => if tag = some wholeNumberTag then limitOfText? text else none
  | _ => none

/-! ### Records -/

/-- The limits that a node stands for. -/
def QueryLimits.ofNode? (d : Document) (n : Node) : Option QueryLimits := do
  let default : QueryLimits := {}
  let found ← d.fields? (default.named.map (·.1)) n
  let limit (name : String) (default : Nat) : Option Nat :=
    match found.lookup name with
    | some value => limitOfNode? d value
    | none => some default
  return {
    maxListedEdges := ← limit "max_listed_edges" default.maxListedEdges
    maxCycles := ← limit "max_cycles" default.maxCycles
    maxHotspots := ← limit "max_hotspots" default.maxHotspots
    defaultImpactDepth := ← limit "default_impact_depth" default.defaultImpactDepth
    maxImpactDepth := ← limit "max_impact_depth" default.maxImpactDepth }

/-- The configuration that a document stands for. -/
def Config.ofDocument? (d : Document) : Option Config := do
  match d.root with
  | none => return {}
  | some root =>
    match (← d.fields? ["limits"] root).lookup "limits" with
    | none => return {}
    | some limits => return ⟨← QueryLimits.ofNode? d limits⟩

/-- **The configuration of a text.** -/
def Config.ofText (text : String) : Except Config.Failure Config :=
  match Document.ofText? text >>= Config.ofDocument? with
  | none => .error .unreadable
  | some config => config.validate.mapError .unusable

end DepGraph
