import CodecBuild.Backend
import CodecBuild.Flag.Assignment
import CodecBuild.Json.Value
import CodecBuild.Overrides

/-!
Configurations: a platform, a backend, the values of all flags, and what the rest of a build reads off them.
-/

namespace CodecBuild

inductive LinkMode where
  | shared
  | static
  deriving DecidableEq

def LinkMode.name : LinkMode → String
  | shared => "shared"
  | static => "static"

structure Configuration where
  platform : Platform
  backend : Backend
  flags : Assignment
  installPrefix? : Option Path
  linkMode : LinkMode
  deriving DecidableEq

namespace Configuration

/-- The configuration with these flags, its prefix and link mode taken from them. -/
def ofFlags (platform : Platform) (backend : Backend) (flags : Assignment) : Configuration where
  platform := platform
  backend := backend
  flags := flags
  installPrefix? := flags.path? .cmakeInstallPrefix
  linkMode := if flags.isOn .buildSharedLibs then .shared else .static

def isOn (c : Configuration) (f : Flag) : Bool := c.flags.isOn f

def dataRoot? (c : Configuration) : Option Path := c.flags.path? .conformanceDataRoot

/-- Equality of configurations, where paths count by their components. -/
def same (c d : Configuration) : Bool :=
  c.platform == d.platform && c.backend == d.backend && c.flags.same d.flags &&
    Assignment.agree (c.installPrefix?.map .path) (d.installPrefix?.map .path) &&
    c.linkMode == d.linkMode

def rawValues (a : Assignment) : Overrides :=
  NameMap.ofList (a.entries.map fun e => (e.1.name, e.2.toRaw))

/-- The overrides that set the configuration apart from the defaults. -/
def overrides (c : Configuration) : Overrides := rawValues (c.flags.diff .defaults)

def valueJson : FlagValue → Json
  | .bool b => .bool b
  | .path p => p.text
  | .choice s | .text s => s

def flagsJson (a : Assignment) : Json :=
  .obj (a.entries.map fun e => (some e.1.name, valueJson e.2))

def toJson (c : Configuration) : Json :=
  .obj [("platform", c.platform.name), ("backend", c.backend.name), ("flag_set", flagsJson c.flags),
    ("install_prefix", c.installPrefix?.elim .null fun p => p.text), ("link_mode", c.linkMode.name)]

end Configuration
end CodecBuild
