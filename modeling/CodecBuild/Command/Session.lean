import CodecBuild.Command.Invocation
import CodecBuild.Command.Traced
import CodecBuild.Host

/-!
Requests resolved in a session: with settings and a host at hand, a request leads to a configuration, a plan
and steps.
-/

namespace CodecBuild.Command

structure Session where
  settings : Settings
  host : Host

open Traced

def resolveTraced (p : Platform) (b : Backend) (o : Overrides) : Traced Resolution := do
  tell [.resolving p b]
  let r ← lift .violation (CodecBuild.resolve p b o)
  tell (r.advisories.map .advisory)
  return r

namespace Session

/-- Takes the configuration from the request and, where that is silent, from the settings. -/
def resolveOptions (s : Session) (r : Request) (o : Overrides) : Traced Resolution := do
  let usual ← lift .settings s.settings.platform?
  let p ← need .noPlatform (r.platform.or usual)
  let usual ← lift .settings s.settings.backend?
  let b ← need .noBackend (r.backend.or usual)
  tell [.resolvingFor p b]
  resolveTraced p b (s.settings.flags.merge o)

/-- A backend that is asked for has to be the one that was saved. -/
def agree (requested : Option Backend) (saved : Backend) (path : String) : Traced Unit :=
  match requested with
  | some b => if b = saved then pure () else fail (.documentBackend b saved path)
  | none => pure ()

/-- Takes the configuration from a saved document. The settings do not matter. -/
def resolveDocument (s : Session) (r : Request) (path : String) (o : Overrides) : Traced Resolution := do
  let text ← lift (.documentUnreadable path) (s.host.readText path)
  let d ← need (.documentMalformed path (s.host.formats.documentCause text)) (Document.read? text)
  agree r.backend d.backend path
  tell [.rereading path]
  resolveTraced d.platform d.backend (d.flags.merge o)

def resolve (s : Session) (r : Request) : Traced Resolution := do
  let o ← lift .override (Overrides.readAll r.assignments)
  match r.document with
  | some path => s.resolveDocument r path o
  | none => s.resolveOptions r o

def hasDoxygen (s : Session) : Doxygen → Bool
  | .present => true
  | .missing => false
  | .probed => s.host.hasTool "doxygen"

def plan (s : Session) (c : Configuration) (d : Doxygen) : Traced Plan := do
  let p ← lift .order (c.plan (s.hasDoxygen d))
  tell (p.advisories.map (fun _ => .docsSkipped) ++ [.planned p.targets.length])
  return p

/-- The choices of the line come before the settings. -/
def renderOptions (s : Session) (c : Configuration) (choices : RenderChoices) : RenderOptions where
  sourceDir := choices.sourceDir
  jobs := choices.jobs.or s.settings.jobs
  escalation := (choices.wrapper.map Text.words).or s.settings.wrapper
  generator := choices.generator.or s.settings.generator
  mingwMake := c.platform = .winNative && s.host.hasTool "mingw32-make"

def render (s : Session) (c : Configuration) (p : Plan) (choices : RenderChoices) :
    Traced (List Step) := do
  let steps ← lift .mismatch (c.render c.backend p.targets (s.renderOptions c choices))
  tell [.rendered steps.length c.backend]
  return steps

def rehearse (steps : List Step) : Traced Unit := do
  let (result, seen) := runSteps dryRun [] steps
  tell (seen.map .step)
  let outcomes ← lift .run result
  tell [.stepsDone outcomes.length]

end Session
end CodecBuild.Command
