import CodecBuild.Json.Value
import CodecBuild.Text.Basic

/-!
The text of a JSON value, on one line or spread over lines with an indentation of two spaces. Strings escape
the quote, the backslash and the control characters below the space, and nothing else.
-/

namespace CodecBuild.Json

/-- What separates the parts of a text: the break in front of an item at a depth, and the blank after a colon. -/
structure Layout where
  lineBreak : Nat → List Char
  afterColon : List Char

def Layout.compact : Layout := ⟨fun _ => [], []⟩

def Layout.pretty : Layout := ⟨fun depth => '\n' :: List.replicate (2 * depth) ' ', [' ']⟩

def escape (c : Char) : List Char :=
  match c with
  | '"' => ['\\', '"']
  | '\\' => ['\\', '\\']
  | '\x08' => ['\\', 'b']
  | '\x0c' => ['\\', 'f']
  | '\n' => ['\\', 'n']
  | '\r' => ['\\', 'r']
  | '\t' => ['\\', 't']
  | c =>
    if c.toNat < 0x20 then ['\\', 'u', '0', '0', Text.hexDigit (c.toNat / 16), Text.hexDigit (c.toNat % 16)]
    else [c]

/-- A string literal; where there is no text, half of a surrogate pair. -/
def literal : Option String → List Char
  | some s => '"' :: (s.toList.flatMap escape ++ ['"'])
  | none => "\"\\ud800\"".toList

mutual

def print (l : Layout) (depth : Nat) : Json → List Char
  | null => "null".toList
  | bool true => "true".toList
  | bool false => "false".toList
  | num s => s.toList
  | str s => literal s
  | arr [] => ['[', ']']
  | arr (x :: xs) =>
    '[' :: (l.lineBreak (depth + 1) ++ print l (depth + 1) x ++ printItems l (depth + 1) xs ++
      l.lineBreak depth ++ [']'])
  | obj [] => ['\x7b', '\x7d']
  | obj ((k, x) :: ms) =>
    '\x7b' :: (l.lineBreak (depth + 1) ++ literal k ++ ':' :: l.afterColon ++ print l (depth + 1) x ++
      printMembers l (depth + 1) ms ++ l.lineBreak depth ++ ['\x7d'])

def printItems (l : Layout) (depth : Nat) : List Json → List Char
  | [] => []
  | x :: xs => ',' :: (l.lineBreak depth ++ print l depth x ++ printItems l depth xs)

def printMembers (l : Layout) (depth : Nat) : List (Option String × Json) → List Char
  | [] => []
  | (k, x) :: ms =>
    ',' :: (l.lineBreak depth ++ literal k ++ ':' :: l.afterColon ++ print l depth x ++
      printMembers l depth ms)

end

def compact (j : Json) : String := String.ofList (print .compact 0 j)

def pretty (j : Json) : String := String.ofList (print .pretty 0 j)

end CodecBuild.Json
