import CodecBuild.Platform

/-!
The build systems that can carry out a build, and the platforms each of them runs on.
-/

namespace CodecBuild

inductive Backend where
  | autotools
  | cmake
  /-- The top-level Makefile, configured by editing a header. -/
  | manual
  deriving DecidableEq, Inhabited

namespace Backend

def all : List Backend := [autotools, cmake, manual]

/-- The canonical name first, then the other spellings. -/
def spellings : Backend → List String
  | autotools => ["autotools", "configure"]
  | cmake => ["cmake"]
  | manual => ["manual", "makefile"]

def name : Backend → String
  | autotools => "autotools"
  | cmake => "cmake"
  | manual => "manual"

def supports (b : Backend) (p : Platform) : Bool :=
  match b with
  | cmake => true
  | autotools | manual => p.hasUnixUserland

def ofName? (s : String) : Option Backend := all.find? (·.name == s)

def parse? (s : String) : Option Backend := all.find? (·.spellings.contains (Text.lower s))

def refusal (s : String) : String := s!"invalid backend '{s}', valid values: autotools, cmake, manual"

theorem mem_all (b : Backend) : b ∈ all := by cases b <;> decide

theorem name_injective {b c : Backend} (h : b.name = c.name) : b = c := by
  revert h; cases b <;> cases c <;> decide

theorem ofName?_name (b : Backend) : ofName? b.name = some b := by cases b <;> decide

theorem name_of_ofName? {s : String} {b : Backend} (h : ofName? s = some b) : b.name = s := by
  simpa using List.find?_some h

end Backend
end CodecBuild
