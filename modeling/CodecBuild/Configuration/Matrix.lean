import CodecBuild.Configuration.Resolution

/-!
One set of overrides resolved for every pair of a platform and a backend.
-/

namespace CodecBuild.Matrix

structure Entry where
  platform : Platform
  backend : Backend
  outcome : Except Violation Resolution

def pairs : List (Platform × Backend) := Platform.all.flatMap fun p => Backend.all.map (p, ·)

def entries (o : Overrides) : List Entry := pairs.map fun (p, b) => ⟨p, b, resolve p b o⟩

namespace Entry

def status (e : Entry) : String :=
  match e.outcome with
  | .ok r => if r.advisories.isEmpty then "ok" else "advisory"
  | .error _ => "error"

def error? (e : Entry) : Option String :=
  match e.outcome with
  | .ok _ => none
  | .error v => some v.message

def advisoryMessages (e : Entry) : List String :=
  match e.outcome with
  | .ok r => r.advisories.map Advisory.message
  | .error _ => []

def toJson (e : Entry) : Json :=
  .record [("platform", some e.platform.name), ("backend", some e.backend.name),
    ("status", some e.status), ("error", e.error?.map fun s => s),
    ("advisories", some (.texts e.advisoryMessages))]

end Entry
end CodecBuild.Matrix
