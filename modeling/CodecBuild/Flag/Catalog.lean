import CodecBuild.Flag.Kind
import CodecBuild.Text.Basic

/-!
The catalog of flags: names, kinds, defaults, descriptions, and what to suggest for a name that is not in it.
-/

namespace CodecBuild

inductive Flag where
  | buildSharedLibs
  | buildCodec
  | buildMJ2
  | buildJPWL
  | buildJP3D
  | buildIndexerJPIP
  | buildDoc
  | buildTesting
  | cmakeInstallPrefix
  | cmakeOSXArchitectures
  | cmakeBuildType
  | conformanceDataRoot
  | withJPWL
  | withJP3D
  deriving DecidableEq

namespace Flag

def all : List Flag :=
  [buildSharedLibs, buildCodec, buildMJ2, buildJPWL, buildJP3D, buildIndexerJPIP, buildDoc, buildTesting,
    cmakeInstallPrefix, cmakeOSXArchitectures, cmakeBuildType, conformanceDataRoot, withJPWL, withJP3D]

theorem mem_all (f : Flag) : f ∈ all := by cases f <;> decide

theorem all_nodup : all.Nodup := by decide

instance {p : Flag → Prop} [DecidablePred p] : Decidable (∀ f, p f) :=
  decidable_of_iff (∀ f ∈ all, p f) ⟨fun h f => h f (mem_all f), fun h f _ => h f⟩

def name : Flag → String
  | buildSharedLibs => "BUILD_SHARED_LIBS"
  | buildCodec => "BUILD_CODEC"
  | buildMJ2 => "BUILD_MJ2"
  | buildJPWL => "BUILD_JPWL"
  | buildJP3D => "BUILD_JP3D"
  | buildIndexerJPIP => "BUILD_INDEXER_JPIP"
  | buildDoc => "BUILD_DOC"
  | buildTesting => "BUILD_TESTING"
  | cmakeInstallPrefix => "CMAKE_INSTALL_PREFIX"
  | cmakeOSXArchitectures => "CMAKE_OSX_ARCHITECTURES"
  | cmakeBuildType => "CMAKE_BUILD_TYPE"
  | conformanceDataRoot => "JPEG2000_CONFORMANCE_DATA_ROOT"
  | withJPWL => "WITH_JPWL"
  | withJP3D => "WITH_JP3D"

def ofName? (s : String) : Option Flag := all.find? (·.name == s)

def kind : Flag → FlagKind
  | cmakeInstallPrefix | conformanceDataRoot => .path
  | cmakeOSXArchitectures => .string
  | cmakeBuildType => .choice ["Debug", "Release", "RelWithDebInfo", "MinSizeRel"]
  | _ => .boolean

/-- `none` for the flags that are unset unless someone sets them. -/
def default? : Flag → Option FlagValue
  | buildSharedLibs | buildCodec => some (.bool true)
  | buildMJ2 | buildJPWL | buildJP3D | buildIndexerJPIP | buildDoc | buildTesting | withJPWL | withJP3D =>
    some (.bool false)
  | cmakeBuildType => some (.choice "Release")
  | cmakeInstallPrefix | cmakeOSXArchitectures | conformanceDataRoot => none

def description : Flag → String
  | buildSharedLibs => "Build shared libraries and link executables dynamically"
  | buildCodec => "Build the codec executables (image_to_j2k, j2k_to_image, j2k_dump)"
  | buildMJ2 => "Build the Motion JPEG 2000 executables"
  | buildJPWL => "Build the JPWL (wireless) library and executables"
  | buildJP3D => "Build the JP3D (volumetric) library and executables"
  | buildIndexerJPIP => "Build the JPIP indexer (Windows only)"
  | buildDoc => "Generate API documentation with Doxygen"
  | buildTesting => "Build and run the conformance test suite"
  | cmakeInstallPrefix => "Installation prefix"
  | cmakeOSXArchitectures => "Semicolon-separated macOS architectures (CMake on macOS only)"
  | cmakeBuildType => "CMake build configuration"
  | conformanceDataRoot => "Location of the JPEG 2000 conformance data (required for testing)"
  | withJPWL => "Makefile symbol: also build the jpwl subdirectory"
  | withJP3D => "Makefile symbol: also build the jp3d subdirectory"

def skeleton (s : String) : List Char := (s.toList.filter Char.isAlphanum).map Char.toUpper

/-- A flag resembles a name with the same skeleton, or with a skeleton of four or more characters in it. -/
def resembles (f : Flag) (s : String) : Bool :=
  skeleton f.name == skeleton s || (4 ≤ (skeleton s).length && Text.occursIn (skeleton s) (skeleton f.name))

def suggestions (s : String) : List Flag := all.filter (·.resembles s)

theorem name_injective {f g : Flag} (h : f.name = g.name) : f = g := by
  revert h; cases f <;> cases g <;> decide

theorem ofName?_name (f : Flag) : ofName? f.name = some f := by cases f <;> decide

theorem name_of_ofName? {s : String} {f : Flag} (h : ofName? s = some f) : f.name = s := by
  simpa using List.find?_some h

theorem ofName?_eq_some_iff {s : String} {f : Flag} : ofName? s = some f ↔ f.name = s :=
  ⟨name_of_ofName?, fun h => h ▸ ofName?_name f⟩

end Flag
end CodecBuild
