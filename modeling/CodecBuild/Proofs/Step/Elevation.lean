import CodecBuild.Configuration.Resolution
import CodecBuild.Proofs.Step.Commands
import Mathlib.Data.List.Forall2

/-!
Steps that write outside the build tree. Without an escalation they are marked as needing
elevated rights. With one its words come in front of their commands and the mark is gone, while
all other steps stay as they are. That is a safeguard as long as there are words: an empty
escalation takes the mark away and puts nothing in its place.
-/

namespace CodecBuild

/-- Steps of these kinds write outside the build tree. -/
def StepKind.isPrivileged (k : StepKind) : Bool := k = .install ∨ k = .uninstall

namespace Step

/-- What an escalation makes of a step that was written down without one. -/
def escalate (escalation : Option (List String)) (s : Step) : Step :=
  match escalation with
  | some wrapper => if s.kind.isPrivileged then ⟨s.kind, wrapper ++ s.command, false⟩ else s
  | none => s

/-- Against what a step is without an escalation: if it writes outside the build tree, it is marked
or the escalation has put words in front of its command, and otherwise it is not marked and its
command is the same. -/
structure Guarded (escalation : Option (List String)) (bare s : Step) : Prop where
  kind : s.kind = bare.kind
  privileged : s.kind.isPrivileged = true → s.requiresElevation = true ∨
    ∃ wrapper, escalation = some wrapper ∧ wrapper ≠ [] ∧ s.command = wrapper ++ bare.command
  ordinary : s.kind.isPrivileged = false → s.requiresElevation = false ∧ s.command = bare.command

variable {escalation : Option (List String)} {kind : StepKind} {command : List String}

@[simp] theorem requiresElevation_plain : (plain kind command).requiresElevation = false := rfl

@[simp] theorem requiresElevation_privileged :
    (Step.privileged kind command none).requiresElevation = true := rfl

@[simp] theorem escalate_plain (h : kind.isPrivileged = false) :
    (plain kind command).escalate escalation = plain kind command := by
  cases escalation <;> simp [escalate, h]

@[simp] theorem escalate_privileged (h : kind.isPrivileged = true) :
    (Step.privileged kind command none).escalate escalation =
      Step.privileged kind command escalation := by
  cases escalation <;> simp [escalate, Step.privileged, h]

@[simp] theorem map_escalate_ite (b : Bool) (steps : List Step) :
    (if b then steps else []).map (escalate escalation) =
      if b then steps.map (escalate escalation) else [] := by
  cases b <;> rfl

theorem escalate_guarded {s : Step} (hmarked : s.requiresElevation = s.kind.isPrivileged)
    (h : escalation ≠ some []) : Guarded escalation s (s.escalate escalation) := by
  cases escalation with
  | none => constructor <;> simp [escalate, hmarked]
  | some wrapper =>
      have hwrapper : wrapper ≠ [] := fun he => h (congrArg some he)
      cases hs : s.kind.isPrivileged <;> constructor <;> simp [escalate, hs, hmarked, hwrapper]

theorem not_guarded_of_empty {s : Step} (hs : s.kind.isPrivileged = true) :
    ¬Guarded (some []) s (s.escalate (some [])) := by
  have hunmarked : s.escalate (some []) = ⟨s.kind, s.command, false⟩ := if_pos hs
  rw [hunmarked]
  intro h
  obtain hmarked | ⟨wrapper, hwrapper, hne, -⟩ := h.privileged hs
  · cases hmarked
  · exact hne (Option.some.inj hwrapper).symm

end Step

namespace Configuration

variable {c : Configuration} {targets : List Target} {options : RenderOptions}

theorem steps_eq_map_escalate (c : Configuration) (targets : List Target)
    (options : RenderOptions) : c.steps targets options =
      (c.steps targets { options with escalation := none }).map
        (Step.escalate options.escalation) := by
  cases hb : c.backend with
  | autotools => simp [steps, hb, Autotools.steps, makeProgram, StepKind.isPrivileged]
  | cmake => simp [steps, hb, CMake.steps, CMake.generator, StepKind.isPrivileged]
  | manual =>
      simp [steps, hb, Makefile.steps, makeProgram, StepKind.isPrivileged, Function.comp_def]

theorem requiresElevation_of_mem_steps (c : Configuration) (targets : List Target)
    (options : RenderOptions) : ∀ s ∈ c.steps targets { options with escalation := none },
      s.requiresElevation = s.kind.isPrivileged := by
  cases hb : c.backend with
  | autotools => simp [steps, hb, Autotools.steps, StepKind.isPrivileged, or_imp, forall_and]
  | cmake => simp [steps, hb, CMake.steps, StepKind.isPrivileged, or_imp, forall_and]
  | manual =>
      simp only [steps, hb, Makefile.steps, List.forall_mem_append, List.forall_mem_map]
      simp [StepKind.isPrivileged, or_imp, forall_and]

theorem exists_install_step (c : Configuration) (targets : List Target)
    (options : RenderOptions) : ∃ s ∈ c.steps targets options, s.kind = .install := by
  rw [← List.mem_map]
  cases hb : c.backend <;>
    simp [steps, hb, Autotools.steps, CMake.steps, Makefile.steps]

/-- The escalation guards the steps unless it is empty, and then it does not. -/
theorem forall₂_guarded_iff (c : Configuration) (targets : List Target)
    (options : RenderOptions) :
    List.Forall₂ (Step.Guarded options.escalation)
      (c.steps targets { options with escalation := none }) (c.steps targets options) ↔
        options.escalation ≠ some [] := by
  rw [c.steps_eq_map_escalate targets options, List.forall₂_map_right_iff, List.forall₂_same]
  constructor
  · intro hguarded hempty
    obtain ⟨s, hs, hinstall⟩ := c.exists_install_step targets { options with escalation := none }
    have hprivileged : s.kind.isPrivileged = true := by
      rw [hinstall]
      rfl
    exact Step.not_guarded_of_empty hprivileged (hempty ▸ hguarded s hs)
  · intro hnonempty s hs
    exact Step.escalate_guarded (c.requiresElevation_of_mem_steps targets options s hs) hnonempty

end Configuration

/-- Whatever the configuration, the targets and the options, the escalation changes the steps that
write outside the build tree and no others: it takes their mark away and stands in front of their
commands. None of them goes unguarded unless the escalation is empty, and then they do. -/
theorem privileged_steps_guarded_iff {c : Configuration} {requested : Backend}
    {targets : List Target} {options : RenderOptions} {steps : List Step}
    (h : c.render requested targets options = .ok steps) :
    ∃ bare, c.render requested targets { options with escalation := none } = .ok bare ∧
      (∀ s ∈ bare, s.requiresElevation = s.kind.isPrivileged) ∧
      steps = bare.map (Step.escalate options.escalation) ∧
      (List.Forall₂ (Step.Guarded options.escalation) bare steps ↔
        options.escalation ≠ some []) := by
  rw [Configuration.render] at h
  split at h
  next hrequested =>
    cases h
    exact ⟨_, if_pos hrequested, c.requiresElevation_of_mem_steps targets options,
      c.steps_eq_map_escalate targets options, c.forall₂_guarded_iff targets options⟩
  next => cases h

/-- A wrapper of two words, around a command of three. -/
theorem wrapped_install_guarded :
    let o : Overrides := .ofList
      [("CMAKE_INSTALL_PREFIX", .text "/opt/j2k"), ("WITH_JPWL", .text "yes")]
    let targets : List Target := [.ofKind .docs "docs" []]
    let options : RenderOptions := { jobs := some 4, escalation := some ["su", "-c"] }
    ∃ r steps bare, resolve .unix .manual o = .ok r ∧
      r.config.render .manual targets options = .ok steps ∧
      ⟨.install, ["su", "-c", "make", "install", "prefix=/opt/j2k"], false⟩ ∈ steps ∧
      r.config.render .manual targets { options with escalation := none } = .ok bare ∧
      steps = bare.map (Step.escalate options.escalation) ∧
      List.Forall₂ (Step.Guarded options.escalation) bare steps := by
  intro o targets options
  obtain ⟨r, hr⟩ : ∃ r, resolve .unix .manual o = .ok r := ⟨_, rfl⟩
  obtain ⟨steps, hsteps, hinstall⟩ : ∃ steps,
      r.config.render .manual targets options = .ok steps ∧
        ⟨.install, ["su", "-c", "make", "install", "prefix=/opt/j2k"], false⟩ ∈ steps := by
    cases hr
    exact ⟨_, rfl, by decide⟩
  obtain ⟨bare, hbare, -, hescalated, hguarded⟩ := privileged_steps_guarded_iff hsteps
  exact ⟨r, steps, bare, hr, hsteps, hinstall, hbare, hescalated, hguarded.mpr (by decide)⟩

/-- Not every escalation guards the steps that write outside the build tree. -/
theorem empty_wrapper_guards_nothing :
    ¬∀ (p : Platform) (b : Backend) (o : Overrides) (r : Resolution), resolve p b o = .ok r →
      ∀ (requested : Backend) (targets : List Target) (options : RenderOptions) steps bare,
        r.config.render requested targets options = .ok steps →
        r.config.render requested targets { options with escalation := none } = .ok bare →
        List.Forall₂ (Step.Guarded options.escalation) bare steps := by
  intro hall
  obtain ⟨r, hr⟩ : ∃ r, resolve .unix .autotools .empty = .ok r := ⟨_, rfl⟩
  have hguarded := hall .unix .autotools .empty r hr r.config.backend []
    { escalation := some [] } _ _ (r.config.render_backend _ _) (r.config.render_backend _ _)
  exact (r.config.forall₂_guarded_iff [] { escalation := some [] }).mp hguarded rfl

end CodecBuild
