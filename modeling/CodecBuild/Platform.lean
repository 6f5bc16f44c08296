import CodecBuild.Text.Basic

/-!
The hosts that a build can be configured for.
-/

namespace CodecBuild

inductive Platform where
  | unix
  | macOS
  /-- Windows with the userland of Cygwin. -/
  | winCygwin
  /-- Windows with its own tools only. -/
  | winNative
  deriving DecidableEq, Inhabited

namespace Platform

def all : List Platform := [unix, macOS, winCygwin, winNative]

/-- The canonical name first, then the other spellings. -/
def spellings : Platform → List String
  | unix => ["unix", "linux"]
  | macOS => ["macos", "osx", "darwin"]
  | winCygwin => ["win-cygwin", "cygwin"]
  | winNative => ["win-native", "windows"]

def name : Platform → String
  | unix => "unix"
  | macOS => "macos"
  | winCygwin => "win-cygwin"
  | winNative => "win-native"

/-- Whether there is a shell, `make` and what a configure script needs. -/
def hasUnixUserland : Platform → Bool
  | winNative => false
  | _ => true

def ofName? (s : String) : Option Platform := all.find? (·.name == s)

def parse? (s : String) : Option Platform := all.find? (·.spellings.contains (Text.lower s))

def refusal (s : String) : String :=
  s!"invalid platform '{s}', valid values: unix, macos, win-cygwin, win-native"

theorem mem_all (p : Platform) : p ∈ all := by cases p <;> decide

theorem name_injective {p q : Platform} (h : p.name = q.name) : p = q := by
  revert h; cases p <;> cases q <;> decide

theorem ofName?_name (p : Platform) : ofName? p.name = some p := by cases p <;> decide

theorem name_of_ofName? {s : String} {p : Platform} (h : ofName? s = some p) : p.name = s := by
  simpa using List.find?_some h

end Platform
end CodecBuild
