import CodecBuild.Toml.Scalar
import CodecBuild.Toml.Table

/-!
Reading TOML documents. Arrays and inline tables nest less than 80 deep, and so do the parts of a dotted key.
-/

namespace CodecBuild.Toml.Grammar

open Reader

def nestingLimit : Nat := 80

def isBareKey (c : Char) : Bool := c.isAlphanum || c == '_' || c == '-'

def simpleKey : Reader String := do
  match ← peek? with
  | some '"' => return String.ofList (← basicText)
  | some '\'' => return String.ofList (← literalText)
  | _ => return String.ofList (← takeWhile1 isBareKey)

/-- The parts of a dotted key, the last one apart. -/
def key : Reader (List String × String) := do
  let parts ← sepBy1 (do blanks; let k ← simpleKey; blanks; return k) (char '.')
  if parts.length < nestingLimit then return (parts.dropLast, parts.getLastD "") else failure

def pair (value : Reader Toml) : Reader Entries.Pair := do
  let (path, k) ← key
  let _ ← char '='
  blanks
  return ⟨path, k, ← value⟩

/-- An array after its opening bracket. -/
def arrayOf (value : Reader Toml) : Reader Toml := do
  let items ← option? (do
    let items ← sepBy1 (do gap; let v ← value; gap; return v) (char ',')
    let _ ← option? (char ',')
    return items)
  gap
  let _ ← char ']'
  return .array (items.getD [])

/-- An inline table after its opening brace: on one line, and closed for good. -/
def inlineTableOf (value : Reader Toml) : Reader Toml := do
  let pairs ← option? (sepBy1 (do let p ← pair value; blanks; return p) (char ','))
  blanks
  let _ ← char '\x7d'
  match assemble? (pairs.getD []) [] with
  | some t => return t
  | none => failure

def scalar : Reader Toml := do
  match ← peek? with
  | some '"' | some '\'' => return .text (← text)
  | some 't' => exactly "true"; return .bool true
  | some 'f' => exactly "false"; return .bool false
  | _ => dateTime <|> number

/-- A value that nests at most so deep. -/
def value : Nat → Reader Toml
  | 0 => scalar
  | depth + 1 => do
    match ← peek? with
    | some '[' => let _ ← char '['; arrayOf (value depth)
    | some '\x7b' => let _ ← char '\x7b'; inlineTableOf (value depth)
    | _ => scalar

def topPair : Reader Entries.Pair := do
  let p ← pair (value (nestingLimit - 1))
  restOfLine
  return p

def emptyLines : Reader Unit := do
  blanks
  let _ ← many (do newline <|> (comment *> newline); blanks)
  let _ ← option? (comment *> atEnd)

def pairs : Reader (List Entries.Pair) := do
  emptyLines
  many (do let p ← topPair; emptyLines; return p)

def sectionAt : Reader Entries.Section := do
  let _ ← char '['
  let repeated := (← option? (char '[')).isSome
  let (path, k) ← key
  exactly (if repeated then "]]" else "]")
  restOfLine
  return ⟨repeated, path, k, ← pairs⟩

/-- A byte order mark may stand at the very start. -/
def document : Reader Toml := do
  let _ ← option? (char '\uFEFF')
  let top ← pairs
  match assemble? top (← many sectionAt) with
  | some t => return t
  | none => failure

end CodecBuild.Toml.Grammar

namespace CodecBuild.Toml

def read? (s : String) : Option Toml := Grammar.document.readAll? s

end CodecBuild.Toml
