import CodecBuild.Configuration.Advisory
import CodecBuild.Configuration.Basic
import CodecBuild.Configuration.Violation

/-!
Resolving a request. The overrides are laid over the defaults one by one, in the order of their names; the
result is then held against the rules of legality, also one by one. The first failure of either is the
answer. A legal request comes back as a configuration with the advisories that it calls for.
-/

namespace CodecBuild

def Flag.lookup (name : String) : Except Violation Flag :=
  match Flag.ofName? name with
  | some f => .ok f
  | none => .error (.unknownFlag name (Flag.suggestions name))

def Flag.accept (f : Flag) (raw : RawValue) : Except Violation FlagValue :=
  match f.kind.coerce? raw with
  | some v => .ok v
  | none => .error (.typeMismatch f raw)

def Assignment.isChanged (a : Assignment) (f : Flag) : Bool := a.differs defaults f

/-- Values laid over the defaults, with the flags that were given another value than their default. -/
structure Overlay where
  flags : Assignment
  changed : List Flag

namespace Overlay

def defaults : Overlay := ⟨.defaults, []⟩

def put (a : Overlay) (f : Flag) (v : FlagValue) : Overlay where
  flags := a.flags.insert f v
  changed := if Assignment.agree f.default? (some v) then a.changed else f :: a.changed

def overrideWith (a : Overlay) (entry : String × RawValue) : Except Violation Overlay := do
  let f ← Flag.lookup entry.1
  let v ← f.accept entry.2
  return a.put f v

def ofOverrides (o : Overrides) : Except Violation Overlay := o.entries.foldlM overrideWith defaults

end Overlay

namespace Configuration

/-- The first rule that the configuration breaks. -/
def violation? (c : Configuration) : Option Violation :=
  if !c.backend.supports c.platform then some (.backendPlatform c.backend c.platform)
  else if c.isOn .buildIndexerJPIP && c.platform ≠ .winNative then
    some (.platformFlag .buildIndexerJPIP c.platform .winNative)
  else if c.isOn .buildTesting && c.dataRoot?.isNone then
    some (.missingRequired .conformanceDataRoot .buildTesting)
  else none

/-- The flags that the Makefile has symbols of its own for, or no use. -/
def ignoredUnderManual : List Flag := [.buildCodec, .buildJP3D, .buildJPWL, .buildMJ2]

def manualSymbols : List Flag := [.withJP3D, .withJPWL]

/-- The advisories for a configuration in which the listed flags were changed. -/
def advisories (c : Configuration) (changed : List Flag) : List Advisory :=
  (match c.backend with
    | .manual =>
      (ignoredUnderManual.filter changed.contains).map .ignoredUnderManual ++
        if !c.isOn .withJPWL && !c.isOn .withJP3D then [.manualTargetingRequired] else []
    | .autotools | .cmake =>
      (manualSymbols.filter changed.contains).map (.manualSymbolIgnored · c.backend)) ++
  if c.flags.contains .cmakeOSXArchitectures && !(c.platform == .macOS && c.backend == .cmake) then
    [.osxArchitecturesIgnored c.platform c.backend]
  else []

end Configuration

structure Resolution where
  config : Configuration
  advisories : List Advisory
  deriving DecidableEq

namespace Resolution

/-- Equality of resolutions, where paths count by their components. -/
def same (r s : Resolution) : Bool := r.config.same s.config && r.advisories == s.advisories

end Resolution

def resolve (platform : Platform) (backend : Backend) (o : Overrides) : Except Violation Resolution := do
  let overlay ← Overlay.ofOverrides o
  let config := Configuration.ofFlags platform backend overlay.flags
  match config.violation? with
  | some v => .error v
  | none => .ok ⟨config, config.advisories overlay.changed⟩

end CodecBuild
