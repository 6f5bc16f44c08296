import CodecBuild.Configuration.Resolution
import CodecBuild.Json.Printer
import CodecBuild.Json.Reader
import CodecBuild.Json.Value

/-!
Saved configurations. Of a saved text only the platform, the backend and the flags are taken, and they are
resolved like any other request; a text edited by hand cannot get around the rules.
-/

namespace CodecBuild

structure Document where
  platform : Platform
  backend : Backend
  flags : Overrides
  deriving DecidableEq

namespace Document

def rawValue? : Json → Option RawValue
  | .bool b => some (.bool b)
  | .str s => s.map .text
  | _ => none

/-- An object of raw values; of two values under one name the later counts. -/
def overrides? : Json → Option Overrides
  | .obj ms => do
    let entries ← (← Json.members? ms).mapM fun m => (rawValue? m.2).map (m.1, ·)
    return NameMap.ofList entries
  | _ => none

def ofJson? (j : Json) : Option Document :=
  match Json.fields? ["platform", "backend", "flag_set"] j with
  | some [some p, some b, flags] => do
    return ⟨← (← p.caseName?) |> Platform.ofName?, ← (← b.caseName?) |> Backend.ofName?,
      ← flags.elim (some .empty) overrides?⟩
  | _ => none

def read? (text : String) : Option Document := (Json.read? text).bind ofJson?

def merge (d : Document) (o : Overrides) : Document := { d with flags := d.flags.merge o }

def resolve (d : Document) : Except Violation Resolution := CodecBuild.resolve d.platform d.backend d.flags

def refusal : String := "failed to parse resolved configuration"

end Document
end CodecBuild
