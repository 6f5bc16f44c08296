import CodecBuild.Text.Basic
import CodecBuild.Text.Reader

/-!
TOML values, what stands between the tokens of a document, and its texts.
-/

namespace CodecBuild

/-- A float keeps no value, since nothing here reads one; a date or time keeps its normal form. -/
inductive Toml where
  | text (s : String)
  | integer (n : Int)
  | float
  | bool (b : Bool)
  | dateTime (normalForm : String)
  | array (items : List Toml)
  | table (entries : List (String × Toml))

namespace Toml.Grammar

open Reader Text

/-! ### Blanks, line ends and comments -/

def isBlank (c : Char) : Bool := c == ' ' || c == '\t'

/-- The tab is the only control character that may stand in a comment or a text. -/
def isPrintable (c : Char) : Bool := c == '\t' || (0x20 ≤ c.toNat && c.toNat != 0x7F)

def blanks : Reader Unit := do let _ ← takeWhile isBlank

def newline : Reader Unit := exactly "\n" <|> exactly "\r\n"

def comment : Reader Unit := do
  let _ ← char '#'
  let _ ← takeWhile isPrintable

def lineEnd : Reader Unit := newline <|> atEnd

/-- The rest of a line that holds a header or an assignment. -/
def restOfLine : Reader Unit := do
  blanks
  let _ ← option? comment
  lineEnd

/-- Blanks, line ends and comments between the items of an array. -/
def gap : Reader Unit := do
  let _ ← many (takeWhile1 isBlank *> pure () <|> newline <|> (comment *> newline))

/-! ### Texts: with or without escapes, on one line or on several -/

/-- A character given by its number in so many hexadecimal digits. -/
def codePoint (digits : Nat) : Reader Char := do
  let n := numeral 16 (← times digits isHexDigit)
  if n.isValidChar then return Char.ofNat n else failure

def escape : Reader Char := do
  let _ ← char '\\'
  match ← satisfy fun _ => true with
  | 'b' => return '\x08'
  | 't' => return '\t'
  | 'n' => return '\n'
  | 'f' => return '\x0c'
  | 'r' => return '\r'
  | '"' => return '"'
  | '\\' => return '\\'
  | 'u' => codePoint 4
  | 'U' => codePoint 8
  | _ => failure

def isBasic (c : Char) : Bool := isPrintable c && c != '"' && c != '\\'

def isLiteral (c : Char) : Bool := isPrintable c && c != '\''

def basicText : Reader (List Char) := do
  let _ ← char '"'
  let parts ← many (takeWhile1 isBasic <|> (do return [← escape]))
  let _ ← char '"'
  return parts.flatten

def literalText : Reader (List Char) := do
  let _ ← char '\''
  let s ← takeWhile isLiteral
  let _ ← char '\''
  return s

/-- A backslash at the end of a line takes away all blanks and line ends up to the next text. -/
def joinedLines : Reader (List Char) := do
  let _ ← char '\\'
  blanks
  newline
  let _ ← many (takeWhile1 isBlank *> pure () <|> newline)
  return []

/-- One or two quotes inside a text of several lines. -/
def fewQuotes (quote : Char) : Reader (List Char) := do
  let run ← takeWhile1 (· == quote)
  if run.length < 3 then return run else failure

/-- The closing quotes, in front of which up to two more may belong to the text. -/
def closingQuotes (quote : Char) : Reader (List Char) := do
  let run ← takeWhile1 (· == quote)
  if run.length < 3 then failure
  let inside := min (run.length - 3) 2
  modify (run.drop (inside + 3) ++ ·)
  return run.take inside

/-- A text of several lines, made of parts; a line end right after the opening quotes does not count. -/
def manyLines (quote : Char) (part : Reader (List Char)) : Reader (List Char) := do
  exactly (String.ofList [quote, quote, quote])
  let _ ← option? newline
  let parts ← many (part <|> (do newline; return ['\n']) <|> fewQuotes quote)
  return parts.flatten ++ (← closingQuotes quote)

def text : Reader String := do
  let s ← manyLines '"' (takeWhile1 isBasic <|> joinedLines <|> (do return [← escape])) <|> basicText <|>
    manyLines '\'' (takeWhile1 isLiteral) <|> literalText
  return String.ofList s

end Toml.Grammar
end CodecBuild
