import CodecBuild.Step.Run

/-!
The calls of a run. A toolchain may remember its calls and answer as it likes, so a run is
described by the calls that it makes, in their order, and by what they leave behind. The toolchain
is called on one step after the other. If all calls succeed their outcomes are the answer; if one
fails it is the last, and the answer tells which step it was for, what was said about it, and the
outcomes before.
-/

namespace CodecBuild

variable {σ : Type} {toolchain : Toolchain σ} {state middle last : σ}
variable {steps called : List Step} {outcomes : List StepOutcome}
variable {result : Except RunFailure (List StepOutcome)}

/-- Called once on each of the steps, in their order, the toolchain gives these outcomes and is left
in the last state. -/
inductive Calls (toolchain : Toolchain σ) : σ → List Step → List StepOutcome → σ → Prop where
  | nil {state : σ} : Calls toolchain state [] [] state
  | cons {state last : σ} (step : Step) {steps : List Step} {outcomes : List StepOutcome}
      (rest : Calls toolchain (toolchain state step).2 steps outcomes last) :
      Calls toolchain state (step :: steps) ((toolchain state step).1 :: outcomes) last

/-- What a run comes to: the answer, the steps that the toolchain is called on, and the state that
it is left in. -/
inductive RunsTo (toolchain : Toolchain σ) (state : σ) (steps : List Step) :
    Except RunFailure (List StepOutcome) → List Step → σ → Prop where
  | finished {outcomes : List StepOutcome} {last : σ}
      (calls : Calls toolchain state steps outcomes last)
      (succeeded : ∀ o ∈ outcomes, o.success = true) :
      RunsTo toolchain state steps (.ok outcomes) steps last
  | stopped {before : List Step} (step : Step) (after : List Step)
      {completed : List StepOutcome} {middle : σ}
      (split : steps = before ++ step :: after)
      (calls : Calls toolchain state before completed middle)
      (succeeded : ∀ o ∈ completed, o.success = true)
      (failed : (toolchain middle step).1.success = false) :
      RunsTo toolchain state steps
        (.error ⟨before.length, step.kind, (toolchain middle step).1.diagnostics, completed⟩)
        (before ++ [step]) (toolchain middle step).2

/-- The same toolchain, with a list of the steps that it was called on. -/
def Toolchain.recorded (toolchain : Toolchain σ) : Toolchain (List Step × σ) :=
  fun state step =>
    ((toolchain state.2 step).1, state.1 ++ [step], (toolchain state.2 step).2)

namespace Calls

theorem length_eq (h : Calls toolchain state called outcomes last) :
    outcomes.length = called.length := by
  induction h with
  | nil => rfl
  | cons _ _ ih => exact congrArg (· + 1) ih

theorem snoc (h : Calls toolchain state called outcomes middle) (step : Step) :
    Calls toolchain state (called ++ [step]) (outcomes ++ [(toolchain middle step).1])
      (toolchain middle step).2 := by
  induction h with
  | nil => exact .cons step .nil
  | cons first _ ih => exact .cons first ih

theorem recorded (h : Calls toolchain state called outcomes last) (seen : List Step) :
    Calls toolchain.recorded (seen, state) called outcomes (seen ++ called, last) := by
  induction h generalizing seen with
  | nil => simpa using Calls.nil
  | cons step _ ih =>
      rw [List.append_cons]
      exact .cons step (ih (seen ++ [step]))

theorem runFrom_cons (completed : List StepOutcome) (step : Step) (rest : List Step) :
    runFrom toolchain completed state (step :: rest) =
      if (toolchain state step).1.success then
        runFrom toolchain (completed ++ [(toolchain state step).1]) (toolchain state step).2 rest
      else (.error ⟨completed.length, step.kind, (toolchain state step).1.diagnostics, completed⟩,
        (toolchain state step).2) := rfl

/-- While the calls succeed the run goes on, and holds on to their outcomes. -/
theorem runFrom_append (h : Calls toolchain state called outcomes middle)
    (hsucceeded : ∀ o ∈ outcomes, o.success = true) (completed : List StepOutcome)
    (rest : List Step) : runFrom toolchain completed state (called ++ rest) =
      runFrom toolchain (completed ++ outcomes) middle rest := by
  induction h generalizing completed with
  | nil => simp
  | cons step _ ih =>
      obtain ⟨hfirst, hothers⟩ := List.forall_mem_cons.mp hsucceeded
      rw [List.cons_append, runFrom_cons, if_pos hfirst, ih hothers, List.append_assoc]
      rfl

end Calls

namespace RunsTo

theorem called_prefix (h : RunsTo toolchain state steps result called last) :
    called <+: steps := by
  cases h with
  | finished _ _ => exact List.prefix_refl _
  | stopped step after split => exact ⟨after, by simp [split]⟩

theorem exists_calls (h : RunsTo toolchain state steps result called last) :
    ∃ outcomes, Calls toolchain state called outcomes last ∧
      ((∃ completed, result = .ok completed) ↔ ∀ o ∈ outcomes, o.success = true) := by
  cases h with
  | finished calls succeeded => exact ⟨_, calls, fun _ => succeeded, fun _ => ⟨_, rfl⟩⟩
  | stopped step _ _ calls _ failed =>
      refine ⟨_, calls.snoc step, ?_, ?_⟩
      · intro hok
        obtain ⟨_, hok⟩ := hok
        cases hok
      · intro hall
        simp [hall] at failed

theorem recorded (h : RunsTo toolchain state steps result called last) :
    RunsTo toolchain.recorded ([], state) steps result called (called, last) := by
  cases h with
  | finished calls succeeded => exact .finished (calls.recorded []) succeeded
  | stopped step after split calls succeeded failed =>
      exact .stopped step after split (calls.recorded []) succeeded failed

theorem runSteps_eq (h : RunsTo toolchain state steps result called last) :
    runSteps toolchain state steps = (result, last) := by
  cases h with
  | finished calls succeeded => simpa [runSteps, runFrom] using calls.runFrom_append succeeded [] []
  | stopped step after split calls succeeded failed =>
      rw [runSteps, split, calls.runFrom_append succeeded [] (step :: after), Calls.runFrom_cons]
      simp [failed, calls.length_eq]

/-- Whatever the toolchain does, every run comes to something. -/
theorem exists_of_steps (toolchain : Toolchain σ) (state : σ) (steps : List Step) :
    ∃ result called last, RunsTo toolchain state steps result called last := by
  induction steps generalizing state with
  | nil => exact ⟨_, _, _, .finished .nil (by simp)⟩
  | cons step rest ih =>
      cases hfirst : (toolchain state step).1.success with
      | false => exact ⟨_, _, _, .stopped step rest rfl .nil (by simp) hfirst⟩
      | true =>
          obtain ⟨result, called, last, hrest⟩ := ih (toolchain state step).2
          cases hrest with
          | finished calls succeeded =>
              exact ⟨_, _, _, .finished (.cons step calls)
                (List.forall_mem_cons.mpr ⟨hfirst, succeeded⟩)⟩
          | stopped failing after split calls succeeded failed =>
              exact ⟨_, _, _, .stopped failing after (congrArg (step :: ·) split) (.cons step calls)
                (List.forall_mem_cons.mpr ⟨hfirst, succeeded⟩) failed⟩

end RunsTo

/-- A run is told by the calls that it makes. It calls the toolchain on the first so many steps,
each once and in their order, as if no list were kept, and is granted exactly if no call fails. -/
theorem run_stops_at_first_failure (toolchain : Toolchain σ) (state : σ) (steps : List Step) :
    (∀ result called last,
      runSteps toolchain.recorded ([], state) steps = (result, called, last) ↔
        RunsTo toolchain state steps result called last) ∧
    ∃ result called outcomes last,
      runSteps toolchain.recorded ([], state) steps = (result, called, last) ∧
      runSteps toolchain state steps = (result, last) ∧
      called <+: steps ∧ Calls toolchain state called outcomes last ∧
      ((∃ completed, result = .ok completed) ↔ ∀ o ∈ outcomes, o.success = true) := by
  obtain ⟨result, called, last, hruns⟩ := RunsTo.exists_of_steps toolchain state steps
  have hrecorded := hruns.recorded.runSteps_eq
  constructor
  · intro result' called' last'
    constructor
    · intro hrun
      rw [hrecorded] at hrun
      cases hrun
      exact hruns
    · intro hruns'
      exact hruns'.recorded.runSteps_eq
  · obtain ⟨outcomes, hcalls, hgranted⟩ := hruns.exists_calls
    exact ⟨result, called, outcomes, last, hrecorded, hruns.runSteps_eq, hruns.called_prefix,
      hcalls, hgranted⟩

/-- The third call fails, whichever step it is for. -/
example : runSteps
    (fun calls _ => (⟨calls ≠ 2, if calls = 2 then "disk full" else ""⟩, calls + 1)) 0
    [.plain .configure ["./configure"], .plain .build ["make"], .plain .docsBuild ["make", "doc"],
      .plain .clean ["make", "clean"]] =
    (.error ⟨2, .docsBuild, "disk full", [⟨true, ""⟩, ⟨true, ""⟩]⟩, 3) := rfl

end CodecBuild
