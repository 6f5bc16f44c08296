import CodecBuild.Command.Report
import CodecBuild.Command.Session

/-!
Running a command: what it prints, what it warns of, and how it exits. The warnings come behind everything
else and make the exit code 2; a failure makes it 1.
-/

namespace CodecBuild.Command

open Traced Text

structure Response where
  exit : Nat
  /-- What was printed, one after the other. -/
  output : List Output
  messages : String
  deriving DecidableEq

def printed (format : Format) (lines : List String) (document : Json) : Output :=
  match format with
  | .text => .text (unlines lines)
  | .json => .text (unlines [document.pretty])

namespace Session

def runResolve (s : Session) (r : Request) (format : Format) : Traced Outcome := do
  let resolution ← s.resolve r
  let c := resolution.config
  print (printed format (Report.configuration c) c.toJson)
  conclude resolution.advisories

def runPlan (s : Session) (r : Request) (d : Doxygen) (format : Format) : Traced Outcome := do
  let resolution ← s.resolve r
  let p ← s.plan resolution.config d
  print (printed format (Report.plan p) (Target.listToJson p.targets))
  conclude (resolution.advisories ++ p.advisories)

def runRender (s : Session) (r : Request) (d : Doxygen) (choices : RenderChoices) (format : Format) :
    Traced Outcome := do
  let resolution ← s.resolve r
  let p ← s.plan resolution.config d
  let steps ← s.render resolution.config p choices
  if choices.dryRun then rehearse steps
  else print (printed format (Report.steps steps) (.arr (steps.map Step.toJson)))
  conclude (resolution.advisories ++ p.advisories)

def runFlags (format : Format) : Traced Outcome := do
  print (printed format Report.flags (.arr (Flag.all.map Report.flagJson)))
  return .success

def runMatrix (s : Session) (assignments : List String) (format : Format) : Traced Outcome := do
  let o ← lift .override (Overrides.readAll assignments)
  let entries := Matrix.entries (s.settings.flags.merge o)
  emit (entries.flatMap fun e => (resolveTraced e.platform e.backend (s.settings.flags.merge o)).emitted)
  print (printed format (entries.map Report.matrixEntry) (.arr (entries.map Matrix.Entry.toJson)))
  return .success

def run (s : Session) : Task → Traced Outcome
  | .resolve r format => s.runResolve r format
  | .plan r d format => s.runPlan r d format
  | .render r d choices format => s.runRender r d choices format
  | .flags format => runFlags format
  | .matrix assignments format => s.runMatrix assignments format
  | .completions shell => do
    print (.completions shell)
    return .success

end Session

def exitCode : Except Failure Outcome → Nat
  | .ok .success => 0
  | .error _ => 1
  | .ok .advisory => 2

/-- What is left of a computation: the exit code and what was written to the two streams. -/
def respond (v : View) (t : Traced Outcome) : Response where
  exit := exitCode t.result
  output := t.emitted.filterMap Emission.output?
  messages := String.join (t.emitted.map (Emission.shown v)) ++
    match t.result with
    | .ok _ => ""
    | .error f => f.report v.colored

namespace Invocation

def view (i : Invocation) (h : Host) : View := ⟨i.verbose, !i.noColor && h.colored, h.formats.logged⟩

/-- The settings are read whatever the task is. -/
def traced (i : Invocation) (h : Host) : Traced Outcome := do
  let settings ← lift .settings (h.settings i.settings)
  (⟨settings, h⟩ : Session).run i.task

def run (i : Invocation) (h : Host) : Response := respond (i.view h) (i.traced h)

end Invocation
end CodecBuild.Command
