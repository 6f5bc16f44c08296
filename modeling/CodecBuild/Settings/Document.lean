import CodecBuild.Settings.Basic
import CodecBuild.Toml.Document

/-!
Settings as TOML documents. What a document holds beyond the known fields is passed over.
-/

namespace CodecBuild.Settings

/-- The name under which a date is filed that stands in the place of a table. -/
def dateKey : String := "$__toml_private_datetime"

/-- The values of a group of fields, given as a table or as an array in the order of `names`. -/
def fields? (names : List String) : Toml → Option (List (Option Toml))
  | .table es => some (names.map fun n => (es.find? (·.1 == n)).map Prod.snd)
  | .array items =>
    some ((items.take names.length).map some ++ List.replicate (names.length - items.length) none)
  | .dateTime _ => some (names.map fun _ => none)
  | _ => none

def field? {α : Type} (read : Toml → Option α) : Option Toml → Option (Option α)
  | none => some none
  | some t => (read t).map some

def text? : Toml → Option String
  | .text s => some s
  | _ => none

def texts? : Toml → Option (List String)
  | .array items => items.mapM text?
  | _ => none

def positive? : Toml → Option Nat
  | .integer n => if 0 < n then some n.toNat else none
  | _ => none

def rawValue? : Toml → Option RawValue
  | .bool b => some (.bool b)
  | .text s => some (.text s)
  | _ => none

def flags? : Toml → Option Overrides
  | .table es => do return .ofList (← es.mapM fun e => (rawValue? e.2).map (e.1, ·))
  | .dateTime s => some (.ofList [(dateKey, .text s)])
  | _ => none

/-- The fields of a group that may be absent as a whole. -/
def group? (names : List String) (t : Option Toml) : Option (List (Option Toml)) :=
  t.elim (some (names.map fun _ => none)) (fields? names)

def ofToml? (t : Toml) : Option Settings := do
  match ← fields? ["defaults", "flags", "build", "install"] t with
  | [defaults, flags, build, install] =>
    match ← group? ["platform", "backend"] defaults, ← group? ["jobs", "generator"] build,
      ← group? ["wrapper"] install with
    | [platform, backend], [jobs, generator], [wrapper] =>
      return ⟨← field? text? platform, ← field? text? backend, ← flags.elim (some .empty) flags?,
        ← field? positive? jobs, ← field? text? generator, ← field? texts? wrapper⟩
    | _, _, _ => none
  | _ => none

def read? (s : String) : Option Settings := (Toml.read? s).bind ofToml?

end CodecBuild.Settings
