import CodecBuild.Json.Value
import CodecBuild.Text.Basic

/-!
Reading JSON texts. A reader takes what it can from the front of a text and returns the rest with its result;
it fails on anything outside the grammar of RFC 8259. Numbers may have any magnitude and nesting any depth.
-/

namespace CodecBuild.Json

def isSpace (c : Char) : Bool := c == ' ' || c == '\t' || c == '\n' || c == '\r'

def skip (s : List Char) : List Char := s.dropWhile isSpace

/-- One element of a string literal: a character, or the number of a `\u` escape. -/
inductive Element where
  | char (c : Char)
  | unit (n : Nat)
  deriving DecidableEq

def simpleEscape? : Char → Option Char
  | '"' => some '"'
  | '\\' => some '\\'
  | '/' => some '/'
  | 'b' => some '\x08'
  | 'f' => some '\x0c'
  | 'n' => some '\n'
  | 'r' => some '\r'
  | 't' => some '\t'
  | _ => none

def elements : List Char → Option (List Element × List Char)
  | [] => none
  | '"' :: rest => some ([], rest)
  | '\\' :: 'u' :: a :: b :: c :: d :: rest =>
    if [a, b, c, d].all Text.isHexDigit then
      (elements rest).map fun (es, rest) => (.unit (Text.numeral 16 [a, b, c, d]) :: es, rest)
    else none
  | '\\' :: e :: rest =>
    match simpleEscape? e with
    | some c => (elements rest).map fun (es, rest) => (.char c :: es, rest)
    | none => none
  | c :: rest =>
    if c.toNat < 0x20 then none else (elements rest).map fun (es, rest) => (.char c :: es, rest)

def isHigh (n : Nat) : Bool := 0xD800 ≤ n && n < 0xDC00

def isLow (n : Nat) : Bool := 0xDC00 ≤ n && n < 0xE000

/-- The text of a literal: a high and a low surrogate make one character, and neither stands alone. -/
def textOf? : List Element → Option (List Char)
  | [] => some []
  | .char c :: es => (textOf? es).map (c :: ·)
  | .unit n :: .unit m :: es =>
    if isHigh n then
      if isLow m then (textOf? es).map (Char.ofNat (0x10000 + (n - 0xD800) * 0x400 + (m - 0xDC00)) :: ·)
      else none
    else if isLow n then none
    else (textOf? (.unit m :: es)).map (Char.ofNat n :: ·)
  | .unit n :: es => if isHigh n || isLow n then none else (textOf? es).map (Char.ofNat n :: ·)

def string (s : List Char) : Option (Option String × List Char) :=
  (elements s).map fun (es, rest) => ((textOf? es).map String.ofList, rest)

def digits (s : List Char) : Option (List Char × List Char) :=
  if (s.takeWhile Char.isDigit).isEmpty then none
  else some (s.takeWhile Char.isDigit, s.dropWhile Char.isDigit)

def sign : List Char → List Char × List Char
  | '-' :: rest => (['-'], rest)
  | s => ([], s)

/-- A zero stands alone; any other whole number starts with another digit. -/
def whole : List Char → Option (List Char × List Char)
  | '0' :: rest => some (['0'], rest)
  | s => digits s

def fraction : List Char → Option (List Char × List Char)
  | '.' :: rest => (digits rest).map fun (ds, rest) => ('.' :: ds, rest)
  | s => some ([], s)

def exponent : List Char → Option (List Char × List Char)
  | e :: rest =>
    if e == 'e' || e == 'E' then
      match rest with
      | '+' :: rest => (digits rest).map fun (ds, rest) => (e :: '+' :: ds, rest)
      | '-' :: rest => (digits rest).map fun (ds, rest) => (e :: '-' :: ds, rest)
      | rest => (digits rest).map fun (ds, rest) => (e :: ds, rest)
    else some ([], e :: rest)
  | [] => some ([], [])

def number (s : List Char) : Option (String × List Char) := do
  let (minus, s) := sign s
  let (i, s) ← whole s
  let (f, s) ← fraction s
  let (e, s) ← exponent s
  return (String.ofList (minus ++ i ++ f ++ e), s)

/-- A member's name with its colon, from the opening quote on. -/
def label (s : List Char) : Option (Option String × List Char) :=
  match s with
  | '"' :: rest => do
    let (k, rest) ← string rest
    match skip rest with
    | ':' :: rest => some (k, skip rest)
    | _ => none
  | _ => none

mutual

/-- A value at the front of a text. The first argument bounds the number of nested calls. -/
def value : Nat → List Char → Option (Json × List Char)
  | 0, _ => none
  | n + 1, s =>
    match s with
    | 'n' :: 'u' :: 'l' :: 'l' :: rest => some (.null, rest)
    | 't' :: 'r' :: 'u' :: 'e' :: rest => some (.bool true, rest)
    | 'f' :: 'a' :: 'l' :: 's' :: 'e' :: rest => some (.bool false, rest)
    | '"' :: rest => (string rest).map fun (t, rest) => (.str t, rest)
    | '[' :: rest =>
      match skip rest with
      | ']' :: rest => some (.arr [], rest)
      | rest => do
        let (x, rest) ← value n rest
        let (xs, rest) ← items n (skip rest)
        return (.arr (x :: xs), rest)
    | '\x7b' :: rest =>
      match skip rest with
      | '\x7d' :: rest => some (.obj [], rest)
      | rest => do
        let (k, rest) ← label rest
        let (x, rest) ← value n rest
        let (ms, rest) ← members n (skip rest)
        return (.obj ((k, x) :: ms), rest)
    | s => (number s).map fun (l, rest) => (.num l, rest)

/-- The items after the first, up to the closing bracket. -/
def items : Nat → List Char → Option (List Json × List Char)
  | n + 1, ',' :: rest => do
    let (x, rest) ← value n (skip rest)
    let (xs, rest) ← items n (skip rest)
    return (x :: xs, rest)
  | _, ']' :: rest => some ([], rest)
  | _, _ => none

/-- The members after the first, up to the closing brace. -/
def members : Nat → List Char → Option (List (Option String × Json) × List Char)
  | n + 1, ',' :: rest => do
    let (k, rest) ← label (skip rest)
    let (x, rest) ← value n rest
    let (ms, rest) ← members n (skip rest)
    return ((k, x) :: ms, rest)
  | _, '\x7d' :: rest => some ([], rest)
  | _, _ => none

end

/-- Each nested call takes a character, so the length of the text bounds their number. -/
def read? (s : String) : Option Json := do
  let (j, rest) ← value (s.toList.length + 1) (skip s.toList)
  if (skip rest).isEmpty then some j else none

end CodecBuild.Json
