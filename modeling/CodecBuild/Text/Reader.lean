/-!
Readers of texts: each takes what it can use from the front and leaves the rest, or fails and takes nothing.
-/

namespace CodecBuild

abbrev Reader := StateT (List Char) Option

namespace Reader

variable {α : Type}

def satisfy (p : Char → Bool) : Reader Char := fun s =>
  match s with
  | [] => none
  | c :: rest => if p c then some (c, rest) else none

def char (c : Char) : Reader Char := satisfy (· == c)

def oneOf (cs : String) : Reader Char := satisfy cs.toList.contains

def exactly (text : String) : Reader Unit := fun s =>
  if text.toList.isPrefixOf s then some ((), s.drop text.length) else none

def takeWhile (p : Char → Bool) : Reader (List Char) := fun s => some (s.takeWhile p, s.dropWhile p)

def takeWhile1 (p : Char → Bool) : Reader (List Char) := fun s =>
  if (s.takeWhile p).isEmpty then none else some (s.takeWhile p, s.dropWhile p)

/-- As many characters as the number says, all of one class. -/
def times (n : Nat) (p : Char → Bool) : Reader (List Char) := fun s =>
  if (s.take n).length = n ∧ (s.take n).all p then some (s.take n, s.drop n) else none

def peek? : Reader (Option Char) := fun s => some (s.head?, s)

def atEnd : Reader Unit := fun s => if s.isEmpty then some ((), s) else none

def option? (r : Reader α) : Reader (Option α) := some <$> r <|> pure none

def manyAtMost (r : Reader α) : Nat → Reader (List α)
  | 0 => pure []
  | n + 1 => (do return (← r) :: (← manyAtMost r n)) <|> pure []

/-- Repeats a reader that takes at least one character each time. -/
def many (r : Reader α) : Reader (List α) := do manyAtMost r (← get).length

/-- One item or more with separators between them; a separator without an item after it is left. -/
def sepBy1 (r : Reader α) (separator : Reader Char) : Reader (List α) := do
  return (← r) :: (← many (do let _ ← separator; r))

def readAll? (r : Reader α) (s : String) : Option α :=
  ((do let x ← r; atEnd; return x : Reader α) s.toList).map Prod.fst

end Reader
end CodecBuild
