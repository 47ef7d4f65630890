import DepGraph.Text.Blank
import DepGraph.Time.Calendar
import DepGraph.Time.Instant

/-!
# Instants as text: RFC 3339

Instants are always written in one way: in universal time with a final `Z`, and with no,
three, six or nine digits of a second, as few as are exact. Years outside `0000`–`9999`
carry a sign.

Reading is more generous. Parts may have fewer digits than they are written with, blanks
may stand before a part and before its separator, a lower-case `t` or a space may stand
for the `T`, and the offset may be given as `Z`, as `UTC`, or as hours and minutes with a
hyphen, a plus or a minus sign. What is read is the same instant in universal time.
-/

namespace DepGraph

namespace Instant

/-! ### Writing -/

/-- A number in decimal, padded with zeros to a width. -/
def padded (width n : Nat) : String :=
  let digits := Nat.toDigits 10 n
  String.ofList (List.replicate (width - digits.length) '0' ++ digits)

/-- The digits of a second that make nanoseconds exact, with their point. -/
def fractionText (nanos : Nat) : String :=
  if nanos = 0 then ""
  else if nanos % 1000000 = 0 then "." ++ padded 3 (nanos / 1000000)
  else if nanos % 1000 = 0 then "." ++ padded 6 (nanos / 1000)
  else "." ++ padded 9 nanos

/-- A year: four digits, or a sign and at least four digits. -/
def yearText (year : Int) : String :=
  if 0 ≤ year ∧ year ≤ 9999 then padded 4 year.toNat
  else (if year < 0 then "-" else "+") ++ padded 4 year.natAbs

/-- **The text of an instant**, in universal time. A leap second is second sixty. -/
def toText (t : Instant) : String :=
  let date := Date.ofDays (t.seconds / 86400)
  let time := (t.seconds % 86400).toNat
  let leap := nanosPerSecond ≤ t.nanos
  let second := time % 60 + if leap then 1 else 0
  let nanos := if leap then t.nanos - nanosPerSecond else t.nanos
  yearText date.year ++ "-" ++ padded 2 date.month ++ "-" ++ padded 2 date.day ++ "T" ++
    padded 2 (time / 3600) ++ ":" ++ padded 2 (time / 60 % 60) ++ ":" ++ padded 2 second ++
    fractionText nanos ++ "Z"

/-! ### Reading -/

/-- A step of reading: it takes some characters from the front of a text, or fails. -/
abbrev Reading (α : Type) := StateT (List Char) Option α

namespace Reading

/-- Skip blanks. -/
def blanks : Reading Unit := modify (·.dropWhile isWhite)

/-- The number that decimal digits make. -/
def ofDigits (digits : List Char) : Nat :=
  digits.foldl (fun n c => 10 * n + (c.toNat - '0'.toNat)) 0

/-- At least one and at most `most` digits, as many as there are. -/
def digits (most : Nat) : Reading (List Char) := do
  let text ← get
  let found := (text.take most).takeWhile Char.isDigit
  if found.isEmpty then failure
  set (text.drop found.length)
  return found

/-- A number of at most `most` digits in a range, blanks skipped before it. -/
def number (most least greatest : Nat) : Reading Nat := do
  blanks
  let n := ofDigits (← digits most)
  if least ≤ n ∧ n ≤ greatest then return n else failure

/-- The next character, which has to be one of `allowed`. -/
def oneOf (allowed : List Char) : Reading Char := do
  match ← get with
  | c :: rest => if allowed.contains c then set rest; return c else failure
  | [] => failure

/-- A separator, blanks skipped before it. -/
def separator (c : Char) : Reading Unit := do
  blanks
  discard <| oneOf [c]

/-- A year: up to four digits, or a sign and any number of digits. -/
def year : Reading Int := do
  blanks
  let text ← get
  match text with
  | '-' :: rest => set rest; return -(ofDigits (← digits rest.length) : Int)
  | '+' :: rest => set rest; return ofDigits (← digits rest.length)
  | _ => return ofDigits (← digits 4)

/-- The digits after a point, as nanoseconds. Digits beyond the ninth are dropped. -/
def fraction : Reading Nat := do
  match ← get with
  | '.' :: rest =>
    set rest
    let found ← digits 9
    modify (·.dropWhile Char.isDigit)
    return ofDigits found * Nat.pow 10 (9 - found.length)
  | _ => return 0

/-- Exactly two digits. -/
def twoDigits : Reading Nat := do
  let found ← digits 2
  if found.length = 2 then return ofDigits found else failure

/-- The offset from universal time, in seconds. -/
def offset : Reading Int := do
  let text ← get
  if (text.take 3).map Char.toLower = ['u', 't', 'c'] then
    set (text.drop 3)
    return 0
  let sign ← oneOf ['Z', 'z', '+', '-', '\u2212']
  if sign = 'Z' ∨ sign = 'z' then return 0
  let hours ← twoDigits
  modify (·.dropWhile fun c => c == ':' || isWhite c)
  let minutes ← twoDigits
  if 60 ≤ minutes then failure
  let seconds : Int := hours * 3600 + minutes * 60
  if 86400 ≤ seconds then failure
  return if sign = '+' then seconds else -seconds

/-- The years that the calendar covers. -/
def knownYear (year : Int) : Bool := -262143 ≤ year && year ≤ 262142

/-- A whole instant. Second sixty is a leap second. -/
def instant : Reading Instant := do
  let y ← year
  separator '-'
  let month ← number 2 1 12
  separator '-'
  let day ← number 2 1 31
  let date : Date := ⟨y, month, day⟩
  if !date.isValid || !knownYear y then failure
  discard <| oneOf ['t', 'T', ' ']
  let hour ← number 2 0 23
  separator ':'
  let minute ← number 2 0 59
  separator ':'
  let second ← number 2 0 60
  let nanos ← fraction
  blanks
  let shift ← offset
  blanks
  let leap := second = 60
  let wall : Int := date.toDays * 86400 + hour * 3600 + minute * 60 + if leap then 59 else second
  let seconds := wall - shift
  if !knownYear (Date.ofDays (seconds / 86400)).year then failure
  return ⟨seconds, nanos + if leap then nanosPerSecond else 0⟩

end Reading

/-- **Read an instant**; `none` if the text is not one, or if anything but blanks follows
it. -/
def ofText? (text : String) : Option Instant :=
  match Reading.instant.run text.toList with
  | some (t, []) => some t
  | _ => none

example : (ofText? "2024-02-29t23:59:60.5+00:00").map toText =
    some "2024-02-29T23:59:60.500Z" := by
  decide +kernel

end Instant

end DepGraph
