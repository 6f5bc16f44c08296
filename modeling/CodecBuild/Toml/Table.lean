import CodecBuild.Toml.Basic

/-!
Tables under construction. A table comes into being under a header of its own, on the way to the header of
another table, or by a dotted key; where it came from decides what may still be added to it.
-/

namespace CodecBuild.Toml

inductive Origin where
  | header
  /-- Named in the header of a table inside it. -/
  | passage
  | dotted
  deriving DecidableEq

inductive Entry where
  | value (v : Toml)
  | table (origin : Origin) (entries : List (String × Entry))
  /-- Tables under one repeated header. -/
  | tables (elements : List (List (String × Entry)))

abbrev Entries := List (String × Entry)

namespace Entries

def get? (es : Entries) (k : String) : Option Entry := (es.find? (·.1 == k)).map Prod.snd

def put (es : Entries) (k : String) (e : Entry) : Entries := es.filter (·.1 != k) ++ [(k, e)]

/--
Changes the table at the end of a path. Tables that are missing on the way are made with the origin `via`.
A path of dotted keys does not lead through tables that have a header, and of repeated tables the last is meant.
-/
def modifyAt (via : Origin) (change : Origin → Entries → Option Entries) :
    List String → Origin → Entries → Option Entries
  | [], origin, es => change origin es
  | k :: path, _, es =>
    match get? es k with
    | none => do return es.put k (.table via (← modifyAt via change path via []))
    | some (.value _) => none
    | some (.table origin inner) =>
      if via = .dotted ∧ origin = .header then none
      else do return es.put k (.table origin (← modifyAt via change path origin inner))
    | some (.tables elements) =>
      match elements.reverse with
      | [] => none
      | last :: others => do
        return es.put k (.tables (others.reverse ++ [← modifyAt via change path .header last]))

/-- A key and its value. A dotted key ends in a table that dotted keys have made. -/
structure Pair where
  path : List String
  key : String
  value : Toml

/-- Adds a pair to a table; no key is given twice. -/
def addPair (es : Entries) (p : Pair) : Option Entries :=
  modifyAt .dotted (fun origin es =>
    if (p.path.isEmpty || origin = .dotted) && (get? es p.key).isNone then some (es.put p.key (.value p.value))
    else none) p.path .header es

structure Section where
  /-- Whether the header may be repeated. -/
  repeated : Bool
  path : List String
  key : String
  pairs : List Pair

/-- Adds a section. A table gets one header, which may come after the headers of tables inside it. -/
def addSection (es : Entries) (s : Section) : Option Entries :=
  modifyAt .passage (fun _ es =>
    if s.repeated then
      match get? es s.key with
      | none => do return es.put s.key (.tables [← s.pairs.foldlM addPair []])
      | some (.tables elements) => do
        return es.put s.key (.tables (elements ++ [← s.pairs.foldlM addPair []]))
      | some _ => none
    else
      match get? es s.key with
      | none => do return es.put s.key (.table .header (← s.pairs.foldlM addPair []))
      | some (.table .passage inner) => do
        return es.put s.key (.table .header (← s.pairs.foldlM addPair inner))
      | some _ => none) s.path .header es

end Entries

mutual

def Entry.finish : Entry → Toml
  | .value v => v
  | .table _ es => .table (finishEntries es)
  | .tables elements => .array (finishElements elements)

def finishEntries : List (String × Entry) → List (String × Toml)
  | [] => []
  | (k, e) :: es => (k, e.finish) :: finishEntries es

def finishElements : List (List (String × Entry)) → List Toml
  | [] => []
  | es :: rest => .table (finishEntries es) :: finishElements rest

end

def assemble? (pairs : List Entries.Pair) (sections : List Entries.Section) : Option Toml := do
  let es ← pairs.foldlM Entries.addPair []
  let es ← sections.foldlM Entries.addSection es
  return .table (finishEntries es)

end CodecBuild.Toml
