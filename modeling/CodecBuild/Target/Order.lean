import CodecBuild.Target.Basic

/-!
Ordering targets so that each one follows the targets it depends on. Every target waits for a number of
others; one that waits for none is ready. Of the ready targets the one with the least name comes next, which
lets go of those that waited for it. What still waits in the end lies on a cycle or behind one.
-/

namespace CodecBuild

inductive OrderError where
  /-- A dependency is no target's name. -/
  | unknownDependency (target dependency : String)
  /-- Targets that cannot be ordered, by name. -/
  | cycle (targets : List String)
  deriving DecidableEq

def OrderError.message : OrderError → String
  | unknownDependency target dependency =>
    "target `" ++ target ++ "` depends on unknown target `" ++ dependency ++ "`"
  | cycle _ => "cycle detected in target graph"

namespace Order

/-- A target at its place in the list, with the places it depends on and how many of them are to come. -/
structure Node where
  target : Target
  position : Nat
  deps : List Nat
  pending : Nat
  deriving DecidableEq

namespace Node

/-- By name; of two targets with one name the earlier in the list comes first. -/
def before (v w : Node) : Bool :=
  v.target.name < w.target.name ∨ (v.target.name = w.target.name ∧ v.position < w.position)

/-- What a node waits for once the node at `position` is placed. -/
def settle (v : Node) (position : Nat) : Node :=
  if position ∈ v.deps then { v with pending := v.pending - 1 } else v

def least (v : Node) : List Node → Node
  | [] => v
  | w :: rest => least (if w.before v then w else v) rest

end Node

/-- The place of the last target of a name. -/
def place? (name : String) : List Target → Option Nat
  | [] => none
  | t :: rest =>
    match place? name rest with
    | some i => some (i + 1)
    | none => if t.name = name then some 0 else none

def depsOf (targets : List Target) (t : Target) : Except OrderError (List Nat) :=
  t.dependsOn.names.mapM fun d =>
    match place? d targets with
    | some i => .ok i
    | none => .error (.unknownDependency t.name d)

def nodes (targets : List Target) : Except OrderError (List Node) :=
  targets.zipIdx.mapM fun (t, i) => (depsOf targets t).map fun deps => ⟨t, i, deps, deps.length⟩

/-- The nodes that are placed, those that may come next, and those that wait. -/
structure State where
  placed : List Node
  ready : List Node
  waiting : List Node

namespace State

def start (nodes : List Node) : State :=
  ⟨[], nodes.filter (·.pending = 0), nodes.filter (·.pending ≠ 0)⟩

/-- Places the least ready node. -/
def step (s : State) : State :=
  match s.ready with
  | [] => s
  | w :: rest =>
    let v := w.least rest
    let settled := s.waiting.map (·.settle v.position)
    ⟨s.placed ++ [v], s.ready.erase v ++ settled.filter (·.pending = 0),
      settled.filter (·.pending ≠ 0)⟩

def run : Nat → State → State
  | 0, s => s
  | n + 1, s => run n s.step

/-- The order, once no node is ready any more. -/
def result (s : State) : Except OrderError (List Target) :=
  if s.waiting.isEmpty then .ok (s.placed.map Node.target)
  else .error (.cycle ((s.waiting.map (·.target.name)).mergeSort (· ≤ ·)))

end State

end Order

/-- Each step places a node, so there are no more steps than targets. -/
def order (targets : List Target) : Except OrderError (List Target) := do
  let nodes ← Order.nodes targets
  ((Order.State.start nodes).run targets.length).result

end CodecBuild
