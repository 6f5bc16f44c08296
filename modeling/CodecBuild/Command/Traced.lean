import CodecBuild.Configuration.Document
import CodecBuild.Overrides
import CodecBuild.Plan
import CodecBuild.Settings.Basic
import CodecBuild.Step.Run
import CodecBuild.Step.Sequence

/-!
What is seen of a command while it runs, how it fails, and computations that do both: events for the log,
what is printed, and warnings come in one sequence with the calls that may fail.
-/

namespace CodecBuild.Command

/-! ### The log -/

inductive Level where
  | debug
  | info
  deriving DecidableEq

namespace Level

def label : Level → String
  | debug => "DEBUG"
  | info => " INFO"

/-- The colour number of a terminal: blue, green. -/
def color : Level → String
  | debug => "34"
  | info => "32"

def shown (l : Level) (colored : Bool) : String :=
  if colored then "\x1b[" ++ l.color ++ "m" ++ l.label ++ "\x1b[0m" else l.label

end Level

/-- How messages are shown to the user. -/
structure View where
  verbose : Bool
  colored : Bool
  /-- A message as the log writes it. -/
  logged : String → String

inductive Event where
  | resolvingFor (platform : Platform) (backend : Backend)
  | rereading (path : String)
  | resolving (platform : Platform) (backend : Backend)
  | advisory (a : Advisory)
  | docsSkipped
  | planned (count : Nat)
  | rendered (count : Nat) (backend : Backend)
  | step (s : Step)
  | stepsDone (count : Nat)

namespace Event

/-- All but the steps of a dry run is for those who ask for details. -/
def level : Event → Level
  | step _ | stepsDone _ => .info
  | _ => .debug

def message : Event → String
  | resolvingFor p b => "resolving for " ++ p.name ++ " with " ++ b.name
  | rereading path => "re-resolving " ++ path
  | resolving p b => "resolving configuration for " ++ p.name ++ " / " ++ b.name
  | advisory a => "advisory: " ++ a.message
  | docsSkipped => "doxygen not available, skipping docs target"
  | planned count => "planned " ++ toString count ++ " target(s)"
  | rendered count b => "rendered " ++ toString count ++ " step(s) for " ++ b.name
  | step s => s.announcement
  | stepsDone count => "dry run finished " ++ toString count ++ " step(s)"

/-- The line of the log, or nothing if the event is a detail that was not asked for. -/
def shown (e : Event) (v : View) : String :=
  if v.verbose || e.level = .info then e.level.shown v.colored ++ " " ++ v.logged e.message ++ "\n" else ""

end Event

/-! ### What is seen of a command -/

inductive Output where
  | text (s : String)
  | completions (shell : String)
  deriving DecidableEq

inductive Emission where
  | event (e : Event)
  | output (o : Output)
  | warning (a : Advisory)

namespace Emission

def output? : Emission → Option Output
  | output o => some o
  | event _ | warning _ => none

/-- What goes to the messages. -/
def shown (v : View) : Emission → String
  | event e => e.shown v
  | output _ => ""
  | warning a => a.diagnostic.format v.colored

end Emission

inductive Failure where
  | settings (e : SettingsError)
  | override (e : OverrideError)
  | documentUnreadable (path : String) (cause : Cause)
  | documentMalformed (path : String) (cause : Cause)
  /-- A backend was asked for, and the saved document has another. -/
  | documentBackend (requested saved : Backend) (path : String)
  | noPlatform
  | noBackend
  | violation (v : Violation)
  | order (e : OrderError)
  | mismatch (e : BackendMismatch)
  | run (e : RunFailure)
  deriving DecidableEq

namespace Failure

def message : Failure → String
  | settings e => e.message
  | override e => e.message
  | documentUnreadable path cause => cause.behind ("failed to read " ++ path)
  | documentMalformed path cause => cause.behind ("failed to load " ++ path ++ ": " ++ Document.refusal)
  | documentBackend requested saved path =>
    "`--backend " ++ requested.name ++ "` does not match backend `" ++ saved.name ++ "` saved in " ++ path
  | noPlatform => "no platform given\nhelp: pass `--platform` or set `defaults.platform` in config"
  | noBackend => "no backend given\nhelp: pass `--backend` or set `defaults.backend` in config"
  | violation v => v.message
  | order e => e.message
  | mismatch e => e.message
  | run e => e.message

/-- A violation has a diagnostic of its own; of any other failure there is only the message. -/
def report (f : Failure) (colored : Bool) : String :=
  match f with
  | violation v => v.diagnostic.format colored
  | f => "error: " ++ f.message ++ "\n"

end Failure

/-- How a command comes to its end, if it does not fail. -/
inductive Outcome where
  | success
  /-- There were warnings. -/
  | advisory
  deriving DecidableEq

def Outcome.ofAdvisories (advisories : List Advisory) : Outcome :=
  if advisories.isEmpty then success else advisory

/-! ### Computations -/

structure Traced (α : Type) where
  emitted : List Emission
  result : Except Failure α

namespace Traced

variable {α β : Type}

/-- Goes on with the result; a failure ends the computation and what was emitted stays emitted. -/
def andThen (t : Traced α) (f : α → Traced β) : Traced β :=
  match t.result with
  | .ok x =>
    let u := f x
    ⟨t.emitted ++ u.emitted, u.result⟩
  | .error e => ⟨t.emitted, .error e⟩

instance : Monad Traced where
  pure x := ⟨[], .ok x⟩
  bind := andThen

def emit (emitted : List Emission) : Traced Unit := ⟨emitted, .ok ()⟩

def tell (events : List Event) : Traced Unit := emit (events.map .event)

def print (o : Output) : Traced Unit := emit [.output o]

/-- Warns of the advisories at the end of a command. -/
def conclude (advisories : List Advisory) : Traced Outcome :=
  ⟨advisories.map .warning, .ok (.ofAdvisories advisories)⟩

def fail (f : Failure) : Traced α := ⟨[], .error f⟩

def lift {ε : Type} (failure : ε → Failure) (x : Except ε α) : Traced α := ⟨[], x.mapError failure⟩

def need (missing : Failure) : Option α → Traced α
  | some x => pure x
  | none => fail missing

theorem bind_of_ok {t : Traced α} {x : α} (h : t.result = .ok x) (f : α → Traced β) :
    t >>= f = ⟨t.emitted ++ (f x).emitted, (f x).result⟩ := by
  simp only [Bind.bind, andThen, h]

theorem bind_of_error {t : Traced α} {e : Failure} (h : t.result = .error e) (f : α → Traced β) :
    t >>= f = ⟨t.emitted, .error e⟩ := by
  simp only [Bind.bind, andThen, h]

theorem result_bind_ok {t : Traced α} {x : α} (h : t.result = .ok x) (f : α → Traced β) :
    (t >>= f).result = (f x).result := by
  rw [bind_of_ok h]

theorem result_bind_error {t : Traced α} {e : Failure} (h : t.result = .error e) (f : α → Traced β) :
    (t >>= f).result = .error e := by
  rw [bind_of_error h]

/-- What comes of two computations comes of both. -/
theorem exists_of_result_bind {t : Traced α} {f : α → Traced β} {y : β}
    (h : (t >>= f).result = .ok y) : ∃ x, t.result = .ok x ∧ (f x).result = .ok y := by
  cases ht : t.result with
  | error e => rw [result_bind_error ht] at h; cases h
  | ok x => exact ⟨x, rfl, result_bind_ok ht f ▸ h⟩

theorem result_need_eq_ok {missing : Failure} {o : Option α} {x : α}
    (h : (need missing o).result = .ok x) : o = some x := by
  cases o with
  | none => cases h
  | some y => exact congrArg some (Except.ok.inj h)

theorem need_some_bind (missing : Failure) (x : α) (f : α → Traced β) :
    need missing (some x) >>= f = f x := rfl

theorem lift_ok_bind {ε : Type} (failure : ε → Failure) (x : α) (f : α → Traced β) :
    lift failure (.ok x) >>= f = f x := rfl

theorem result_lift_eq_ok {ε : Type} {failure : ε → Failure} {x : Except ε α} {y : α}
    (h : (lift failure x).result = .ok y) : x = .ok y := by
  cases x with
  | error e => cases h
  | ok z => exact congrArg Except.ok (Except.ok.inj h)

end Traced
end CodecBuild.Command
