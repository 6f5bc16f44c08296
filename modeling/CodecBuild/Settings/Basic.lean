import CodecBuild.Backend
import CodecBuild.Overrides

/-!
Settings: what a user or a project has laid down for all builds. Settings come in layers, and in each field
the uppermost layer that says something decides.
-/

namespace CodecBuild

structure Settings where
  /-- The usual platform, not checked yet. -/
  platform : Option String
  /-- The usual backend, not checked yet. -/
  backend : Option String
  flags : Overrides
  jobs : Option Nat
  generator : Option String
  /-- The command that gives more rights to another. -/
  wrapper : Option (List String)
  deriving DecidableEq

/-- Why something could not be read, as far as that is known. -/
inductive Cause where
  | unknown
  | known (text : String)
  deriving DecidableEq

/-- A message with the cause behind it. -/
def Cause.behind (message : String) : Cause → String
  | unknown => message
  | known text => message ++ ": " ++ text

inductive SettingsError where
  /-- There is no directory to look for settings from. -/
  | noWorkDir (cause : Cause)
  | unreadable (path : String) (cause : Cause)
  | malformed (path : String) (cause : Cause)
  | unknownPlatform (text : String)
  | unknownBackend (text : String)
  deriving DecidableEq

namespace SettingsError

def message : SettingsError → String
  | noWorkDir cause => cause.behind "no current directory"
  | unreadable path cause => cause.behind ("failed to read config file: " ++ path)
  | malformed path cause => cause.behind ("failed to parse config file: " ++ path)
  | unknownPlatform s => "invalid `defaults.platform` in config: " ++ Platform.refusal s
  | unknownBackend s => "invalid `defaults.backend` in config: " ++ Backend.refusal s

end SettingsError

namespace Settings

def empty : Settings := ⟨none, none, .empty, none, none, none⟩

def merge (lower upper : Settings) : Settings where
  platform := upper.platform.or lower.platform
  backend := upper.backend.or lower.backend
  flags := lower.flags.merge upper.flags
  jobs := upper.jobs.or lower.jobs
  generator := upper.generator.or lower.generator
  wrapper := upper.wrapper.or lower.wrapper

def platform? (s : Settings) : Except SettingsError (Option Platform) :=
  match s.platform with
  | none => .ok none
  | some text =>
    match Platform.parse? text with
    | some p => .ok (some p)
    | none => .error (.unknownPlatform text)

def backend? (s : Settings) : Except SettingsError (Option Backend) :=
  match s.backend with
  | none => .ok none
  | some text =>
    match Backend.parse? text with
    | some b => .ok (some b)
    | none => .error (.unknownBackend text)

end Settings
end CodecBuild
