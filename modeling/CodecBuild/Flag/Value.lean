import CodecBuild.Path

/-!
Values of flags. A raw value is what a user or a file supplies; a typed value is what a flag holds once the
raw value has been accepted.
-/

namespace CodecBuild

inductive RawValue where
  | bool (b : Bool)
  | text (s : String)
  deriving DecidableEq

namespace RawValue

def describe : RawValue → String
  | bool b => "boolean `" ++ toString b ++ "`"
  | text s => "`" ++ s ++ "`"

end RawValue

inductive FlagValue where
  | bool (b : Bool)
  | path (p : Path)
  | choice (s : String)
  | text (s : String)
  deriving DecidableEq

namespace FlagValue

/-- Equality of values, where paths count by their components. -/
def same : FlagValue → FlagValue → Bool
  | bool a, bool b => a == b
  | path p, path q => p.same q
  | choice s, choice t => s == t
  | text s, text t => s == t
  | _, _ => false

def bool? : FlagValue → Option Bool
  | bool b => some b
  | _ => none

def path? : FlagValue → Option Path
  | path p => some p
  | _ => none

def text? : FlagValue → Option String
  | choice s | text s => some s
  | _ => none

/-- The value as a cache entry spells it. -/
def render : FlagValue → String
  | bool true => "ON"
  | bool false => "OFF"
  | path p => p.text
  | choice s | text s => s

def toRaw : FlagValue → RawValue
  | bool b => .bool b
  | path p => .text p.text
  | choice s | text s => .text s

theorem same_refl (v : FlagValue) : v.same v = true := by
  cases v <;> simp [same, Path.same_refl]

theorem same_symm {v w : FlagValue} (h : v.same w = true) : w.same v = true := by
  cases v <;> cases w <;> simp_all [same]
  exact Path.same_symm h

theorem same_trans {u v w : FlagValue} (h₁ : u.same v = true) (h₂ : v.same w = true) :
    u.same w = true := by
  cases u <;> cases v <;> cases w <;> simp_all [same]
  exact Path.same_trans h₁ h₂

end FlagValue
end CodecBuild
