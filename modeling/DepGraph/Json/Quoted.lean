import DepGraph.Json.Category

/-!
# Quoted text

Inside quotes every character may stand for itself, except the quote, the backslash and
the control characters below the space. These, and any other, may be written as escapes:
a backslash with a letter, or `\u` with a sixteen-bit unit in four hexadecimal digits.
Characters that do not fit into one unit take two, a high surrogate and a low one.

Text that is only skipped is read by the same rules, except that nobody asks whether
surrogates come in pairs.
-/

namespace DepGraph.Json

namespace Quoted

/-! ### Writing -/

/-- A hexadecimal digit. -/
def hexDigit (n : Nat) : Char := Nat.digitChar n

/-- How a character is written inside quotes. -/
def escape (c : Char) : List Char :=
  if c = '"' then ['\\', '"']
  else if c = '\\' then ['\\', '\\']
  else if c = '\u0008' then ['\\', 'b']
  else if c = '\u000c' then ['\\', 'f']
  else if c = '\n' then ['\\', 'n']
  else if c = '\r' then ['\\', 'r']
  else if c = '\t' then ['\\', 't']
  else if c < ' ' then ['\\', 'u', '0', '0', hexDigit (c.toNat / 16), hexDigit (c.toNat % 16)]
  else [c]

/-- **A text in quotes.** -/
def write (text : String) : List Char := '"' :: (text.toList.flatMap escape ++ ['"'])

/-! ### Reading -/

/-- One step of reading: the end of the text, one more character of it, or a failure. -/
inductive Step
  | done (rest : List Char)
  | char (c : Char) (rest : List Char)
  | failed (c : Category)
deriving DecidableEq, Repr

/-- The value of a hexadecimal digit. -/
def hexValue? (c : Char) : Option Nat :=
  if c.isDigit then some (c.toNat - '0'.toNat)
  else if 'a' ≤ c ∧ c ≤ 'f' then some (c.toNat - 'a'.toNat + 10)
  else if 'A' ≤ c ∧ c ≤ 'F' then some (c.toNat - 'A'.toNat + 10)
  else none

/-- Four hexadecimal digits as a sixteen-bit unit. -/
def unit? (a b c d : Char) : Option Nat := do
  return ((← hexValue? a) * 16 + (← hexValue? b)) * 256 + ((← hexValue? c) * 16 + (← hexValue? d))

/-- Split four hexadecimal digits off a text. Anything else is malformed, unless fewer
than four bytes are left at all. -/
def unit (text : List Char) : Except Category (Nat × List Char) :=
  match text with
  | a :: b :: c :: d :: rest =>
    match unit? a b c d with
    | some n => .ok (n, rest)
    | none => .error .malformed
  | short => .error (if (String.ofList short).utf8ByteSize < 4 then .eof else .malformed)

/-- Whether a unit is the first half of a pair. -/
def isHigh (n : Nat) : Bool := 0xD800 ≤ n && n < 0xDC00

/-- Whether a unit is the second half of a pair. -/
def isLow (n : Nat) : Bool := 0xDC00 ≤ n && n < 0xE000

/-- The character that a pair stands for. -/
def ofPair (high low : Nat) : Char := Char.ofNat (0x10000 + (high - 0xD800) * 0x400 + (low - 0xDC00))

/-- The character that an escape with a single letter stands for. -/
def ofLetter? (c : Char) : Option Char :=
  if c = '"' ∨ c = '\\' ∨ c = '/' then some c
  else if c = 'b' then some '\u0008'
  else if c = 'f' then some '\u000c'
  else if c = 'n' then some '\n'
  else if c = 'r' then some '\r'
  else if c = 't' then some '\t'
  else none

/-- The second half of a pair, after the first one. -/
def lowHalf (high : Nat) (text : List Char) : Step :=
  match text with
  | [] | ['\\'] => .failed .eof
  | '\\' :: 'u' :: rest =>
    match unit rest with
    | .error c => .failed c
    | .ok (low, rest) => if isLow low then .char (ofPair high low) rest else .failed .malformed
  | _ => .failed .malformed

/-- What follows `\u`. Unless surrogates are checked, any unit will do. -/
def unicode (checked : Bool) (text : List Char) : Step :=
  match unit text with
  | .error c => .failed c
  | .ok (n, rest) =>
    if !checked then .char (Char.ofNat n) rest
    else if isLow n then .failed .malformed
    else if isHigh n then lowHalf n rest
    else .char (Char.ofNat n) rest

/-- One step of reading. -/
def step (checked : Bool) (text : List Char) : Step :=
  match text with
  | [] => .failed .eof
  | '"' :: rest => .done rest
  | ['\\'] => .failed .eof
  | '\\' :: 'u' :: rest => unicode checked rest
  | '\\' :: c :: rest =>
    match ofLetter? c with
    | some c => .char c rest
    | none => .failed .malformed
  | c :: rest => if c < ' ' then .failed .malformed else .char c rest

/-! ### Every step takes something -/

theorem length_unit {text rest : List Char} {n : Nat} (h : unit text = .ok (n, rest)) :
    rest.length < text.length := by
  unfold unit at h
  split at h
  · split at h <;> simp_all
    omega
  · simp at h

theorem length_lowHalf {high : Nat} {text rest : List Char} {c : Char}
    (h : lowHalf high text = .char c rest) : rest.length < text.length := by
  unfold lowHalf at h
  split at h
  · simp at h
  · simp at h
  · split at h
    · simp at h
    · rename_i low left found
      have := length_unit found
      split at h <;> simp_all
      omega
  · simp at h

theorem length_unicode {checked : Bool} {text rest : List Char} {c : Char}
    (h : unicode checked text = .char c rest) : rest.length < text.length := by
  unfold unicode at h
  split at h
  · simp at h
  · rename_i n left found
    have := length_unit found
    split at h
    · simp_all
    · split at h
      · simp at h
      · split at h
        · have := length_lowHalf h
          omega
        · simp_all

theorem length_step {checked : Bool} {text rest : List Char} {c : Char}
    (h : step checked text = .char c rest) : rest.length < text.length := by
  unfold step at h
  split at h
  · simp at h
  · simp at h
  · simp at h
  · have := length_unicode h
    simp
    omega
  · split at h
    · grind
    · simp at h
  · split at h <;> simp_all

theorem length_step_done {checked : Bool} {text rest : List Char}
    (h : step checked text = .done rest) : rest.length < text.length := by
  unfold step at h
  split at h
  · simp at h
  · simp_all
  · simp at h
  · unfold unicode lowHalf at h
    split at h
    · simp at h
    · split at h
      · simp at h
      · split at h
        · simp at h
        · split at h
          · split at h
            · simp at h
            · simp at h
            · split at h
              · simp at h
              · split at h <;> simp at h
            · simp at h
          · simp at h
  · split at h <;> simp at h
  · split at h <;> simp at h

/-- Read up to the closing quote; `before` holds the characters read so far, the last one
first. -/
def scan (checked : Bool) (before text : List Char) : Except Category (String × List Char) :=
  match _found : step checked text with
  | .done rest => .ok (String.ofList before.reverse, rest)
  | .char c rest => scan checked (c :: before) rest
  | .failed c => .error c
termination_by text.length
decreasing_by exact length_step _found

/-- What is left after a text that was read is shorter. -/
theorem length_scan {checked : Bool} {before text rest : List Char} {content : String}
    (h : scan checked before text = .ok (content, rest)) : rest.length < text.length := by
  fun_induction scan checked before text with
  | case1 before text left found =>
    simp only [Except.ok.injEq, Prod.mk.injEq] at h
    have := length_step_done found
    simp_all
  | case2 before text c left found ih =>
    have := length_step found
    have := ih h
    omega
  | case3 => simp at h

end Quoted

end DepGraph.Json
