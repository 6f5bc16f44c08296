/-!
Texts, character by character: letter case, columns and lines, looking for one text inside another, numerals,
and characters that a terminal would obey.
-/

namespace CodecBuild.Text

/-! ### Letter case, as far as names made of ASCII characters can depend on it -/

/-- Capitals for the letters a to z; all other characters stay. -/
def capitals (s : String) : String := String.ofList (s.toList.map Char.toUpper)

/-- Equality up to the case of the letters a to z. -/
def sameUpToCase (s t : String) : Bool := capitals s == capitals t

theorem sameUpToCase_iff {s t : String} : sameUpToCase s t = true ↔
    s.toList.map Char.toUpper = t.toList.map Char.toUpper := by
  rw [sameUpToCase, beq_iff_eq, capitals, capitals, String.ofList_inj]

/-- The kelvin sign is the one character outside ASCII whose lower case is an ASCII letter. -/
def lowerChar (c : Char) : Char := if c == '\u212A' then 'k' else c.toLower

/--
Lower case for every character whose lower case is in ASCII. The other characters stay as they are, so
the result equals an ASCII name exactly when the full Unicode lower case does.
-/
def lower (s : String) : String := String.ofList (s.toList.map lowerChar)

/-! ### Columns of a printed table -/

/-- Fills up with spaces on the right, to a width counted in characters. -/
def padRight (width : Nat) (s : String) : String :=
  s ++ String.ofList (List.replicate (width - s.length) ' ')

/-- Fills up with spaces on the left, to a width counted in characters. -/
def padLeft (width : Nat) (s : String) : String :=
  String.ofList (List.replicate (width - s.length) ' ') ++ s

/-- The lines of an output, each with its line end. -/
def unlines (lines : List String) : String := String.join (lines.map (· ++ "\n"))

/-! ### Looking for a text, and cutting at the first place where a character occurs -/

def occursIn (part : List Char) : List Char → Bool
  | [] => part.isEmpty
  | c :: rest => part.isPrefixOf (c :: rest) || occursIn part rest

theorem occursIn_iff {part s : List Char} : occursIn part s = true ↔ part <:+: s := by
  induction s with
  | nil => simp [occursIn]
  | cons c rest ih => simp [occursIn, List.infix_cons_iff, ih]

theorem ne_of_not_mem {x : Char} {front : List Char} (h : x ∉ front) :
    ∀ c ∈ front, decide (c ≠ x) = true := by
  intro c hc
  apply decide_eq_true
  rintro rfl
  exact h hc

theorem takeWhile_ne_append {x : Char} {front : List Char} (h : x ∉ front) (rest : List Char) :
    (front ++ x :: rest).takeWhile (· ≠ x) = front := by
  rw [List.takeWhile_append_of_pos (ne_of_not_mem h)]
  simp

theorem dropWhile_ne_append {x : Char} {front : List Char} (h : x ∉ front) (rest : List Char) :
    (front ++ x :: rest).dropWhile (· ≠ x) = x :: rest := by
  rw [List.dropWhile_append_of_pos (ne_of_not_mem h)]
  simp

/-! ### Numerals: digits up to base 16 and the numbers they stand for -/

def isHexDigit (c : Char) : Bool := c.isDigit || ('a' ≤ c && c ≤ 'f') || ('A' ≤ c && c ≤ 'F')

def digitValue (c : Char) : Nat :=
  if c.isDigit then c.toNat - 48 else if c.isUpper then c.toNat - 55 else c.toNat - 87

/-- The number that digits stand for in a base, the first digit weighing most. -/
def numeral (base : Nat) (digits : List Char) : Nat :=
  digits.foldl (fun n d => n * base + digitValue d) 0

def hexDigit (n : Nat) : Char := Char.ofNat (if n < 10 then 48 + n else 87 + n)

/-- Reads a positive number of 64 bits; a plus sign and zeros may stand in front. -/
def positive? (s : String) : Option Nat :=
  let digits := match s.toList with
    | '+' :: rest => rest
    | cs => cs
  let n := numeral 10 digits
  if !digits.isEmpty && digits.all Char.isDigit && 0 < n && n < Nat.pow 2 64 then some n else none

theorem isHexDigit_hexDigit : ∀ n < 16, isHexDigit (hexDigit n) = true := by decide

theorem digitValue_hexDigit : ∀ n < 16, digitValue (hexDigit n) = n := by decide

/-! ### Control characters by which a text could steer the terminal that it is shown on -/

/-- Bell, backspace, form feed, escape and delete. -/
def isLowControl (c : Char) : Bool := [0x07, 0x08, 0x0C, 0x1B, 0x7F].contains c.toNat

/-- The second block of control characters, each of which stands for an escape and a letter. -/
def isHighControl (c : Char) : Bool := 0x80 ≤ c.toNat && c.toNat < 0xA0

def spellOut (c : Char) : List Char :=
  let digits := [hexDigit (c.toNat / 16), hexDigit (c.toNat % 16)]
  if isLowControl c then '\\' :: 'x' :: digits
  else if isHighControl c then '\\' :: 'u' :: '\x7b' :: (digits ++ ['\x7d'])
  else [c]

/-- A text that a terminal shows and does not obey. -/
def harmless (s : String) : String := String.ofList (s.toList.flatMap spellOut)

end CodecBuild.Text
