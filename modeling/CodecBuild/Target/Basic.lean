import CodecBuild.Json.Reader
import CodecBuild.Name.Set
import CodecBuild.Path

/-!
The artifacts of a build, each with the names of the artifacts that have to be there first.
-/

namespace CodecBuild

inductive TargetKind where
  | library
  | executable
  | docs
  /-- The run of the conformance tests, which produces nothing. -/
  | test
  deriving DecidableEq

namespace TargetKind

def all : List TargetKind := [library, executable, docs, test]

def name : TargetKind → String
  | library => "library"
  | executable => "executable"
  | docs => "docs"
  | test => "test"

def ofName? (s : String) : Option TargetKind := all.find? (·.name == s)

def isCompiled : TargetKind → Bool
  | library | executable => true
  | docs | test => false

end TargetKind

structure Target where
  name : String
  kind : TargetKind
  enabled : Bool
  dependsOn : NameSet
  /-- Paths outside the build tree that the target reads. -/
  inputs : List Path
  deriving DecidableEq

namespace Target

def ofKind (kind : TargetKind) (name : String) (dependsOn : List String) : Target :=
  ⟨name, kind, true, .ofList dependsOn, []⟩

def library (name : String) : Target := ofKind .library name []

def executable (name links : String) : Target := ofKind .executable name [links]

/-- The inputs are left out when there are none. -/
def toJson (t : Target) : Json :=
  .record [("name", some t.name), ("kind", some t.kind.name), ("enabled", some (.bool t.enabled)),
    ("depends_on", some (.texts t.dependsOn.names)),
    ("external_inputs", if t.inputs.isEmpty then none else some (.texts (t.inputs.map Path.text)))]

def ofJson? (j : Json) : Option Target :=
  match Json.fields? ["name", "kind", "enabled", "depends_on", "external_inputs"] j with
  | some [some name, some kind, some enabled, some dependsOn, inputs] => do
    return ⟨← name.text?, ← (← kind.caseName?) |> TargetKind.ofName?, ← enabled.bool?,
      .ofList (← dependsOn.texts?), (← inputs.elim (some []) Json.texts?).map Path.mk⟩
  | _ => none

def listOfJson? : Json → Option (List Target)
  | .arr items => items.mapM ofJson?
  | _ => none

def readList? (text : String) : Option (List Target) := (Json.read? text).bind listOfJson?

def listToJson (targets : List Target) : Json := .arr (targets.map toJson)

end Target

def hasKind (targets : List Target) (kind : TargetKind) : Bool := targets.any (·.kind == kind)

end CodecBuild
