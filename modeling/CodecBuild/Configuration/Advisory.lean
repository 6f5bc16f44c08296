import CodecBuild.Backend
import CodecBuild.Diagnostic
import CodecBuild.Flag.Catalog
import CodecBuild.Json.Value

/-!
Remarks on a request that is legal and yet will not do all that it seems to ask for.
-/

namespace CodecBuild

inductive Advisory where
  /-- The Makefile builds neither of its optional subdirectories. -/
  | manualTargetingRequired
  /-- The flag is set and the Makefile does not read it. -/
  | ignoredUnderManual (flag : Flag)
  /-- A symbol of the Makefile is set and the backend does not read it. -/
  | manualSymbolIgnored (flag : Flag) (backend : Backend)
  /-- Architectures are chosen where only CMake on macOS would read them. -/
  | osxArchitecturesIgnored (platform : Platform) (backend : Backend)
  /-- Documentation is wanted and there is nothing to make it with. -/
  | docsSkipped
  deriving DecidableEq

namespace Advisory

def message : Advisory → String
  | manualTargetingRequired =>
    "neither WITH_JPWL nor WITH_JP3D is set; build the jpwl and jp3d subdirectories separately if needed"
  | ignoredUnderManual flag => "`" ++ flag.name ++ "` is ignored by the manual Makefile"
  | manualSymbolIgnored flag backend =>
    "`" ++ flag.name ++ "` only applies to the manual Makefile, ignored by " ++ backend.name
  | osxArchitecturesIgnored platform backend =>
    "`CMAKE_OSX_ARCHITECTURES` has no effect with " ++ backend.name ++ " on " ++ platform.name
  | docsSkipped => "BUILD_DOC is enabled but Doxygen is not available; skipping documentation"

def remedies : Advisory → List String
  | manualTargetingRequired =>
    ["Set `WITH_JPWL=yes` or `WITH_JP3D=yes`", "Run `make` inside jpwl/ or jp3d/"]
  | ignoredUnderManual _ => ["Use `WITH_JPWL` / `WITH_JP3D` with the manual Makefile"]
  | manualSymbolIgnored _ _ | osxArchitecturesIgnored _ _ => []
  | docsSkipped => ["Install Doxygen or pass `--doxygen` if it is available"]

def diagnostic (a : Advisory) : Diagnostic := ⟨.warning, a.message, [], a.remedies⟩

def toJson : Advisory → Json
  | manualTargetingRequired => .record [("advisory", some "manual_targeting_required")]
  | ignoredUnderManual flag =>
    .record [("advisory", some "ignored_under_manual_makefile"), ("flag", some flag.name)]
  | manualSymbolIgnored flag backend =>
    .record [("advisory", some "manual_symbol_ignored"), ("flag", some flag.name),
      ("backend", some backend.name)]
  | osxArchitecturesIgnored platform backend =>
    .record [("advisory", some "osx_architectures_ignored"), ("platform", some platform.name),
      ("backend", some backend.name)]
  | docsSkipped => .record [("advisory", some "docs_skipped")]

end Advisory
end CodecBuild
