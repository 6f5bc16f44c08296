import CodecBuild.Configuration.Advisory
import CodecBuild.Configuration.Basic
import CodecBuild.Target.Order

/-!
Plans: the targets that a configuration calls for, in an order in which they can be built.
-/

namespace CodecBuild

structure Component where
  /-- A library of its own. -/
  library? : Option String
  executables : List String
  /-- The library that the executables link against. -/
  links : String

namespace Component

def coreLibrary : String := "openjpeg"

def codec : Component := ⟨none, ["image_to_j2k", "j2k_to_image", "j2k_dump"], coreLibrary⟩

def mj2 : Component :=
  ⟨none, ["frames_to_mj2", "mj2_to_frames", "extract_j2k_from_mj2", "wrap_j2k_in_mj2"], coreLibrary⟩

def jpwl : Component :=
  ⟨some "openjpeg_JPWL", ["JPWL_image_to_j2k", "JPWL_j2k_to_image"], "openjpeg_JPWL"⟩

def jp3d : Component := ⟨some "openjp3dvm", ["jp3d_to_volume", "volume_to_jp3d"], "openjp3dvm"⟩

def indexer : Component := ⟨none, ["index_create"], coreLibrary⟩

/-- The parts a backend can build, each with the flag that asks for it. -/
def optional : Backend → List (Flag × Component)
  | .manual => [(.withJPWL, jpwl), (.withJP3D, jp3d)]
  | .autotools | .cmake =>
    [(.buildCodec, codec), (.buildMJ2, mj2), (.buildJPWL, jpwl), (.buildJP3D, jp3d),
      (.buildIndexerJPIP, indexer)]

def targets (c : Component) : List Target :=
  c.library?.toList.map .library ++ c.executables.map (.executable · c.links)

end Component

structure Plan where
  targets : List Target
  advisories : List Advisory
  deriving DecidableEq

namespace Plan

def target? (p : Plan) (name : String) : Option Target := p.targets.find? (·.name == name)

def contains (p : Plan) (name : String) : Bool := (p.target? name).isSome

def names (p : Plan) : List String := p.targets.map Target.name

end Plan

namespace Configuration

def components (c : Configuration) : List Component :=
  ((Component.optional c.backend).filter fun e => c.isOn e.1).map Prod.snd

def compiledTargets (c : Configuration) : List Target :=
  .library Component.coreLibrary :: c.components.flatMap Component.targets

def docsTargets (c : Configuration) (doxygen : Bool) : List Target :=
  if c.isOn .buildDoc && doxygen then [.ofKind .docs "docs" []] else []

/-- The tests need all that is compiled, and the data they are run on. -/
def testTargets (c : Configuration) : List Target :=
  if c.isOn .buildTesting then
    [{ Target.ofKind .test "test" (c.compiledTargets.map Target.name) with
        inputs := c.dataRoot?.toList }]
  else []

def targets (c : Configuration) (doxygen : Bool) : List Target :=
  c.compiledTargets ++ c.docsTargets doxygen ++ c.testTargets

def plan (c : Configuration) (doxygen : Bool) : Except OrderError Plan := do
  let targets ← order (c.targets doxygen)
  return ⟨targets, if c.isOn .buildDoc && !doxygen then [.docsSkipped] else []⟩

end Configuration
end CodecBuild
