import CodecBuild.Configuration.Resolution
import CodecBuild.Proofs.Step.Commands

/-!
Which steps there are. Every backend has a fixed sequence of kinds, with gaps for what may be left
out: a directory of the Makefile, the documents, the tests. Of the targets nothing else goes into
the steps than whether there are documents and whether there are tests, so the targets need not
even come from a plan of the same configuration.
-/

namespace CodecBuild

variable {c : Configuration} {targets targets' : List Target} {options : RenderOptions}

theorem hasKind_iff {kind : TargetKind} :
    hasKind targets kind = true ↔ ∃ t ∈ targets, t.kind = kind := by
  simp [hasKind]

namespace Configuration

/-- The kinds of the steps, one after the other. -/
def stepKinds (c : Configuration) (targets : List Target) : List StepKind :=
  let docs := if ∃ t ∈ targets, t.kind = .docs then [.docsBuild] else []
  let tests := if ∃ t ∈ targets, t.kind = .test then [.test] else []
  let directories := ([Flag.withJPWL, .withJP3D].filter c.isOn).map fun _ => .build
  match c.backend with
  | .autotools =>
    [.configure, .configure, .build] ++ docs ++ [.install, .clean, .distClean]
  | .cmake => [.configure, .build] ++ docs ++ tests ++ [.install, .clean]
  | .manual => [.configure, .build] ++ directories ++ docs ++ [.install, .clean, .uninstall]

theorem map_kind_steps (c : Configuration) (targets : List Target) (options : RenderOptions) :
    (c.steps targets options).map Step.kind = c.stepKinds targets := by
  cases hb : c.backend with
  | autotools =>
      simp [steps, stepKinds, hb, Autotools.steps, hasKind_iff, apply_ite (List.map Step.kind)]
  | cmake => simp [steps, stepKinds, hb, CMake.steps, hasKind_iff, apply_ite (List.map Step.kind)]
  | manual =>
      have hsymbols : [Flag.withJPWL, .withJP3D] = Makefile.subdirectories.map Prod.fst := rfl
      simp [steps, stepKinds, hb, Makefile.steps, hasKind_iff, apply_ite (List.map Step.kind),
        hsymbols, List.filter_map, Function.comp_def]

theorem render_of_ne {requested : Backend} (h : requested ≠ c.backend) :
    c.render requested targets options = .error ⟨requested, c.backend⟩ :=
  if_neg h

theorem steps_congr_of_kinds (hdocs : hasKind targets .docs = hasKind targets' .docs)
    (htests : hasKind targets .test = hasKind targets' .test) :
    c.steps targets options = c.steps targets' options := by
  cases hb : c.backend <;>
    simp only [steps, hb, Autotools.steps, CMake.steps, Makefile.steps, hdocs, htests]

/-- Every configuration has steps for its own backend and for no other. Their kinds follow a fixed
sequence, and the targets decide no more than whether documents and tests have steps. -/
theorem steps_follow_grammar (c : Configuration) (targets : List Target)
    (options : RenderOptions) :
    (∃ steps, c.render c.backend targets options = .ok steps ∧
      steps.map Step.kind = c.stepKinds targets) ∧
    (∀ requested, requested ≠ c.backend →
      c.render requested targets options = .error ⟨requested, c.backend⟩) ∧
    ∀ targets' : List Target,
      (∀ kind ∈ [TargetKind.docs, .test],
        (∃ t ∈ targets, t.kind = kind) ↔ ∃ t ∈ targets', t.kind = kind) →
      ∀ requested, c.render requested targets options = c.render requested targets' options := by
  refine ⟨⟨_, c.render_backend targets options, c.map_kind_steps targets options⟩,
    fun requested h => render_of_ne h, ?_⟩
  intro targets' hsame requested
  have hkind : ∀ kind ∈ [TargetKind.docs, .test], hasKind targets kind = hasKind targets' kind := by
    intro kind hkind
    rw [Bool.eq_iff_iff, hasKind_iff, hasKind_iff]
    exact hsame kind hkind
  have hsteps : c.steps targets options = c.steps targets' options :=
    steps_congr_of_kinds (hkind .docs (by decide)) (hkind .test (by decide))
  rw [render, render, hsteps]

/-- One directory is gone into. The targets are none that a plan of the configuration has, and count
for as much as two others do. -/
theorem stale_targets_make_no_difference :
    let o : Overrides := .ofList [("WITH_JP3D", .text "on")]
    let stale : List Target :=
      [.executable "viewer" "codec", .ofKind .docs "manual" [], .ofKind .docs "docs" ["manual"]]
    let fresh : List Target := [.ofKind .docs "docs" [], .library "openjpeg"]
    ∃ r steps, resolve .winCygwin .manual o = .ok r ∧
      r.config.render .manual stale { jobs := some 2 } = .ok steps ∧
      steps.map Step.kind =
        [.configure, .build, .build, .docsBuild, .install, .clean, .uninstall] ∧
      r.config.render .cmake stale { jobs := some 2 } = .error ⟨.cmake, .manual⟩ ∧
      r.config.render .manual fresh { jobs := some 2 } = .ok steps := by
  intro o stale fresh
  obtain ⟨r, hr⟩ : ∃ r, resolve .winCygwin .manual o = .ok r := ⟨_, rfl⟩
  obtain ⟨⟨steps, hsteps, hkinds⟩, hother, htargets⟩ :=
    steps_follow_grammar r.config stale { jobs := some 2 }
  have hb : r.config.backend = .manual := by
    cases hr
    rfl
  have hgrammar : r.config.stepKinds stale =
      [.configure, .build, .build, .docsBuild, .install, .clean, .uninstall] := by
    cases hr
    decide
  rw [hb] at hsteps hother
  have hfresh := htargets fresh (by decide) .manual
  exact ⟨r, steps, hr, hsteps, hkinds.trans hgrammar, hother .cmake (by decide),
    hfresh ▸ hsteps⟩

end Configuration
end CodecBuild
