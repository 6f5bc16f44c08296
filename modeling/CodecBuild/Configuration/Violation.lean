import CodecBuild.Backend
import CodecBuild.Diagnostic
import CodecBuild.Flag.Catalog

/-!
The ways in which a request can be illegal, with what is said about each and what is suggested.
-/

namespace CodecBuild

inductive Violation where
  | unknownFlag (name : String) (suggestions : List Flag)
  | typeMismatch (flag : Flag) (found : RawValue)
  /-- The flag is on where only another platform knows it. -/
  | platformFlag (flag : Flag) (platform required : Platform)
  | backendPlatform (backend : Backend) (platform : Platform)
  | missingRequired (flag requiredBy : Flag)
  deriving DecidableEq

namespace Violation

def message : Violation → String
  | unknownFlag name _ => "unknown flag `" ++ name ++ "`"
  | typeMismatch flag found =>
    "flag `" ++ flag.name ++ "` expects a " ++ flag.kind.name ++ " value, found " ++ found.describe
  | platformFlag flag platform required =>
    "flag `" ++ flag.name ++ "` is only available on " ++ required.name ++ ", not " ++ platform.name
  | backendPlatform backend platform =>
    "backend `" ++ backend.name ++ "` cannot be used on " ++ platform.name
  | missingRequired flag requiredBy =>
    "flag `" ++ flag.name ++ "` is required when `" ++ requiredBy.name ++ "` is enabled"

def flagName? : Violation → Option String
  | unknownFlag name _ => some name
  | typeMismatch flag _ | platformFlag flag _ _ | missingRequired flag _ => some flag.name
  | backendPlatform _ _ => none

def rule : Violation → String
  | unknownFlag _ _ => "every flag must be registered"
  | typeMismatch _ _ => "every value must match its flag's kind"
  | platformFlag _ _ _ => "BUILD_INDEXER_JPIP requires native Windows"
  | backendPlatform _ _ => "autotools and the manual Makefile need a Unix or Cygwin environment"
  | missingRequired _ _ => "BUILD_TESTING requires JPEG2000_CONFORMANCE_DATA_ROOT"

def code : Violation → String
  | unknownFlag _ _ => "jp2build::resolve::unknown_flag"
  | typeMismatch _ _ => "jp2build::resolve::type_mismatch"
  | platformFlag _ _ _ => "jp2build::resolve::platform_flag_mismatch"
  | backendPlatform _ _ => "jp2build::resolve::backend_platform_mismatch"
  | missingRequired _ _ => "jp2build::resolve::missing_required_flag"

/-- One sentence of help, for those violations that have a general remedy. -/
def help? : Violation → Option String
  | unknownFlag _ _ => some "Run `jp2build flags` to list recognized options"
  | backendPlatform _ _ => some "Use the cmake backend, or build from a Cygwin shell"
  | _ => none

/-- A line of context that lists texts, unless there are none. -/
def listing (before after : String) : List String → List String
  | [] => []
  | texts => [before ++ String.intercalate ", " texts ++ after]

def context : Violation → List String
  | unknownFlag _ suggestions => listing "did you mean: " "?" (suggestions.map Flag.name)
  | typeMismatch flag _ => listing "allowed values: " "" flag.kind.spellings
  | _ => []

def remedies : Violation → List String
  | unknownFlag _ _ => ["Run `jp2build flags` to list recognized options"]
  | typeMismatch flag _ => ["Pass a valid value, e.g. `--set " ++ flag.name ++ "=...`"]
  | platformFlag flag _ required =>
    ["Remove `" ++ flag.name ++ "` from the overrides",
      "Configure for `--platform " ++ required.name ++ "`"]
  | backendPlatform _ _ =>
    ["Use `--backend cmake`", "Use `--platform win-cygwin` from a Cygwin shell"]
  | missingRequired flag requiredBy =>
    ["Set `" ++ flag.name ++ "=<path>`", "Disable `" ++ requiredBy.name ++ "`"]

def diagnostic (v : Violation) : Diagnostic :=
  ⟨.error, v.message, ("rule: " ++ v.rule) :: v.context, v.remedies⟩

end Violation
end CodecBuild
