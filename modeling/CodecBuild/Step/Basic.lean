import CodecBuild.Json.Value
import CodecBuild.Path

/-!
Steps of a build: commands to be run one after the other, and how they are shown.
-/

namespace CodecBuild

inductive StepKind where
  | configure
  | build
  | docsBuild
  | test
  | install
  | clean
  /-- Removes what configuring has made as well. -/
  | distClean
  | uninstall
  deriving DecidableEq

namespace StepKind

def all : List StepKind := [configure, build, docsBuild, test, install, clean, distClean, uninstall]

/-- The name that is shown. -/
def name : StepKind → String
  | configure => "configure"
  | build => "build"
  | docsBuild => "docs-build"
  | test => "test"
  | install => "install"
  | clean => "clean"
  | distClean => "distclean"
  | uninstall => "uninstall"

/-- The name in documents. -/
def tag : StepKind → String
  | docsBuild => "docs_build"
  | distClean => "dist_clean"
  | k => k.name

def ofName? (s : String) : Option StepKind := all.find? (·.name == s)

end StepKind

structure Step where
  kind : StepKind
  command : List String
  requiresElevation : Bool
  deriving DecidableEq

/-- What shapes the steps apart from the configuration. -/
structure RenderOptions where
  sourceDir : Path := ⟨"."⟩
  jobs : Option Nat := none
  escalation : Option (List String) := none
  /-- The generator for CMake; without one the platform decides. -/
  generator : Option String := none
  /-- Whether the make of MinGW is at hand on native Windows. -/
  mingwMake : Bool := false
  deriving DecidableEq

namespace Step

def plain (kind : StepKind) (command : List String) : Step := ⟨kind, command, false⟩

/-- A step that writes outside the build tree: it goes through the escalation, or has to be elevated. -/
def privileged (kind : StepKind) (command : List String) (escalation : Option (List String)) : Step :=
  match escalation with
  | some wrapper => ⟨kind, wrapper ++ command, false⟩
  | none => ⟨kind, command, true⟩

/-- An argument with a space in it is put in quotes. -/
def displayArgument (arg : String) : List Char :=
  if ' ' ∈ arg.toList then '"' :: (arg.toList ++ ['"']) else arg.toList

def displayCommand (s : Step) : String :=
  String.ofList (List.intercalate [' '] (s.command.map displayArgument))

def toJson (s : Step) : Json :=
  .obj [("kind", s.kind.tag), ("command", .texts s.command),
    ("requires_elevation", .bool s.requiresElevation)]

end Step

def makeJobs (jobs : Option Nat) : List String := jobs.toList.map fun n => "-j" ++ toString n

end CodecBuild
