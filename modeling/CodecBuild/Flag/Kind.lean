import CodecBuild.Flag.Value
import CodecBuild.Text.Basic

/-!
Kinds of flags, and which raw values a kind accepts.
-/

namespace CodecBuild

inductive FlagKind where
  | boolean
  | path
  /-- One of the listed spellings. -/
  | choice (spellings : List String)
  | string
  deriving DecidableEq

namespace FlagKind

def name : FlagKind → String
  | boolean => "boolean"
  | path => "path"
  | choice _ => "enum"
  | string => "string"

def cacheType : FlagKind → String
  | boolean => "BOOL"
  | path => "PATH"
  | choice _ | string => "STRING"

def spellings : FlagKind → List String
  | choice spellings => spellings
  | _ => []

def readBool? (s : String) : Option Bool :=
  if Text.capitals s ∈ ["ON", "TRUE", "YES", "Y", "1"] then some true
  else if Text.capitals s ∈ ["OFF", "FALSE", "NO", "N", "0"] then some false
  else none

/-- A choice is stored in the first listed spelling that agrees with the text up to letter case. -/
def coerce? : FlagKind → RawValue → Option FlagValue
  | boolean, .bool b => some (.bool b)
  | boolean, .text s => (readBool? s).map .bool
  | path, .text s => some (.path ⟨s⟩)
  | choice spellings, .text s => (spellings.find? (Text.sameUpToCase · s)).map .choice
  | string, .text s => some (.text s)
  | _, .bool _ => none

theorem coerce?_bool_eq_none {k : FlagKind} (h : k ≠ boolean) (b : Bool) :
    k.coerce? (.bool b) = none := by
  cases k <;> simp_all [coerce?]

end FlagKind
end CodecBuild
