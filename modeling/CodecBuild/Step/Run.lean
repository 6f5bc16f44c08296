import CodecBuild.Step.Basic

/-!
Running steps through a toolchain, one after the other, up to the first that fails. A toolchain may remember
what it has done; what it says about a step is passed on and never read.
-/

namespace CodecBuild

structure StepOutcome where
  success : Bool
  diagnostics : String
  deriving DecidableEq

abbrev Toolchain (σ : Type) := σ → Step → StepOutcome × σ

structure RunFailure where
  /-- The place of the step, counted from zero. -/
  index : Nat
  kind : StepKind
  diagnostics : String
  /-- The outcomes of the steps before. -/
  completed : List StepOutcome
  deriving DecidableEq

def RunFailure.message (e : RunFailure) : String :=
  "step " ++ toString e.index ++ " (" ++ e.kind.name ++ ") failed"

/-- Goes on with `steps` after the outcomes `completed`. -/
def runFrom {σ : Type} (toolchain : Toolchain σ) (completed : List StepOutcome) (state : σ) :
    List Step → Except RunFailure (List StepOutcome) × σ
  | [] => (.ok completed, state)
  | step :: rest =>
    let (outcome, state) := toolchain state step
    if outcome.success then runFrom toolchain (completed ++ [outcome]) state rest
    else (.error ⟨completed.length, step.kind, outcome.diagnostics, completed⟩, state)

def runSteps {σ : Type} (toolchain : Toolchain σ) (state : σ) (steps : List Step) :
    Except RunFailure (List StepOutcome) × σ :=
  runFrom toolchain [] state steps

/-- Runs nothing, succeeds always, and remembers the steps. -/
def dryRun : Toolchain (List Step) := fun seen step => (⟨true, ""⟩, seen ++ [step])

/-- Where no step can fail, the run comes to its end. -/
theorem exists_runFrom_ok {σ : Type} {toolchain : Toolchain σ}
    (h : ∀ state step, (toolchain state step).1.success = true) (steps : List Step) :
    ∀ completed state, ∃ outcomes last,
      runFrom toolchain completed state steps = (.ok outcomes, last) := by
  induction steps with
  | nil => exact fun completed state => ⟨completed, state, rfl⟩
  | cons step rest ih =>
      intro completed state
      obtain ⟨outcomes, last, hrest⟩ :=
        ih (completed ++ [(toolchain state step).1]) (toolchain state step).2
      exact ⟨outcomes, last, (if_pos (h state step)).trans hrest⟩

def Step.announcement (s : Step) : String :=
  "[" ++ s.kind.name ++ "] " ++ (if s.requiresElevation then "(elevated) " else "") ++ s.displayCommand

end CodecBuild
