import CodecBuild.Proofs.Resolution.Outcome
import CodecBuild.Proofs.Step.Elevation

/-!
What each option does to the steps. An escalation goes in front of the steps that write outside the
build tree. A number of jobs goes behind the commands that build, in the way of the program that
runs them. The source directory is the last word of the call that configures with CMake. The
generator, the make of MinGW and the source directory mean nothing to the other backends, since
these are never resolved for a platform where `make` could be another program.
-/

namespace CodecBuild

namespace Step

/-- What a step becomes when so many jobs may run at once, by the program that builds. -/
inductive InParallel (n : Nat) : Step → Step → Prop where
  | other {s : Step} (h : s.kind ≠ .build) : InParallel n s s
  | make {program : String} {arguments : List String} (h : program ∈ ["make", "mingw32-make"]) :
      InParallel n (plain .build (program :: arguments))
        (plain .build (program :: arguments ++ ["-j" ++ toString n]))
  | cmake {arguments : List String} :
      InParallel n (plain .build ("cmake" :: "--build" :: arguments))
        (plain .build ("cmake" :: "--build" :: arguments ++ ["--parallel", toString n]))
  | nmake {arguments : List String} :
      InParallel n (plain .build ("nmake" :: arguments)) (plain .build ("nmake" :: arguments))

theorem inParallel_of_others {n : Nat} {steps : List Step} (h : commands .build steps = []) :
    List.Forall₂ (InParallel n) steps steps := by
  have hothers : ∀ s ∈ steps, s.kind ≠ .build := by simpa [commands] using h
  exact List.forall₂_same.mpr fun s hs => .other (hothers s hs)

end Step

open Step (InParallel)

theorem makeProgram_mem (p : Platform) (options : RenderOptions) :
    makeProgram p options ∈ ["make", "mingw32-make"] := by
  rw [makeProgram]
  split <;> decide

/-- Each option on its own, whatever the others are. -/
structure Configuration.OptionsApart (c : Configuration) (targets : List Target) : Prop where
  escalation : ∀ (options : RenderOptions) wrapper,
    c.steps targets { options with escalation := some wrapper } =
      (c.steps targets { options with escalation := none }).map (Step.escalate (some wrapper))
  jobs : ∀ (options : RenderOptions) n,
    List.Forall₂ (InParallel n) (c.steps targets { options with jobs := none })
      (c.steps targets { options with jobs := some n })
  sourceDir : c.backend = .cmake → ∀ options : RenderOptions, ∃ front rest, ∀ directory,
    c.steps targets { options with sourceDir := directory } =
      .plain .configure (front ++ [directory.text]) :: rest
  unread : c.backend ≠ .cmake → ∀ (options : RenderOptions) directory generator mingwMake,
    c.steps targets { options with
      sourceDir := directory, generator := generator, mingwMake := mingwMake } =
        c.steps targets options
  mingwMake : c.backend = .cmake → ∀ options : RenderOptions,
    options.generator ≠ none ∨ c.platform ≠ .winNative → ∀ mingwMake,
      c.steps targets { options with mingwMake := mingwMake } = c.steps targets options

variable {c : Configuration} {targets : List Target} {options : RenderOptions}

theorem Autotools.steps_inParallel {make : String} (hmake : make ∈ ["make", "mingw32-make"])
    (n : Nat) : List.Forall₂ (InParallel n) (steps c targets make { options with jobs := none })
      (steps c targets make { options with jobs := some n }) := by
  let front : List Step := [.plain .configure ["./bootstrap.sh"],
    .plain .configure (configureCommand c (hasKind targets .docs))]
  have hfront : List.Forall₂ (InParallel n) front front :=
    Step.inParallel_of_others (by simp [front])
  exact List.rel_append hfront (.cons (.make hmake) (Step.inParallel_of_others (by simp)))

theorem CMake.build_inParallel (generator : String) (n : Nat) :
    let tool := BuildTool.ofGenerator generator
    InParallel n (.plain .build (tool.program ++ tool.jobs none))
      (.plain .build (tool.program ++ tool.jobs (some n))) := by
  simp only [BuildTool.ofGenerator]
  split_ifs
  · exact .make (by decide)
  · exact .make (by decide)
  · exact .nmake
  · exact .cmake

theorem CMake.steps_inParallel (n : Nat) :
    List.Forall₂ (InParallel n) (steps c targets { options with jobs := none })
      (steps c targets { options with jobs := some n }) :=
  .cons (.other (by simp)) (.cons (build_inParallel _ n) (Step.inParallel_of_others (by simp)))

theorem Makefile.steps_inParallel {make : String} (hmake : make ∈ ["make", "mingw32-make"])
    (n : Nat) : List.Forall₂ (InParallel n) (steps c targets make { options with jobs := none })
      (steps c targets make { options with jobs := some n }) := by
  let directories := subdirectories.filter fun e => c.isOn e.1
  have hdirectories : List.Forall₂ (InParallel n)
      (directories.map fun e => .plain .build ([make, "-C", e.2] ++ makeJobs none))
      (directories.map fun e => .plain .build ([make, "-C", e.2] ++ makeJobs (some n))) := by
    rw [List.forall₂_map_left_iff, List.forall₂_map_right_iff, List.forall₂_same]
    intro e _
    exact .make hmake
  let configure : Step := .plain .configure
    (["edit", "opj_config.h"] ++ subdirectories.map fun e => symbol c e.1)
  have hconfigure : InParallel n configure configure := .other (by simp [configure])
  exact List.rel_append (List.rel_append (.cons hconfigure (.cons (.make hmake) hdirectories))
    (Step.inParallel_of_others (by simp))) (Step.inParallel_of_others (by simp))

namespace Configuration

theorem steps_inParallel (c : Configuration) (targets : List Target) (options : RenderOptions)
    (n : Nat) : List.Forall₂ (InParallel n) (c.steps targets { options with jobs := none })
      (c.steps targets { options with jobs := some n }) := by
  cases hb : c.backend with
  | autotools =>
      rw [steps, steps, hb]
      exact Autotools.steps_inParallel (makeProgram_mem c.platform options) n
  | cmake =>
      rw [steps, steps, hb]
      exact CMake.steps_inParallel n
  | manual =>
      rw [steps, steps, hb]
      exact Makefile.steps_inParallel (makeProgram_mem c.platform options) n

/-- The source directory is the last word of the first step. -/
theorem steps_sourceDir (hb : c.backend = .cmake) (targets : List Target)
    (options : RenderOptions) : ∃ front rest, ∀ directory,
      c.steps targets { options with sourceDir := directory } =
        .plain .configure (front ++ [directory.text]) :: rest := by
  refine ⟨["cmake", "-G", CMake.generator c.platform options] ++
    (CMake.cacheEntries c).map ("-D" ++ ·), (CMake.steps c targets options).tail, ?_⟩
  intro directory
  rw [steps, hb]
  rfl

theorem steps_mingwMake (hb : c.backend = .cmake) {options : RenderOptions}
    (h : options.generator ≠ none ∨ c.platform ≠ .winNative) (mingwMake : Bool) :
    c.steps targets { options with mingwMake := mingwMake } = c.steps targets options := by
  have hgenerator : CMake.generator c.platform { options with mingwMake := mingwMake } =
      CMake.generator c.platform options := by
    cases h with
    | inl hgiven =>
        obtain ⟨generator, hsome⟩ := Option.ne_none_iff_exists'.mp hgiven
        simp [CMake.generator, hsome]
    | inr hplatform => cases hp : c.platform <;> simp_all [CMake.generator, CMake.defaultGenerator]
  simp only [steps, hb, CMake.steps, hgenerator]

/-- Where `make` is the only program, what would choose another is not read. -/
theorem steps_eq_of_make (hb : c.backend ≠ .cmake) {options options' : RenderOptions}
    (hmake : makeProgram c.platform options = makeProgram c.platform options')
    (hjobs : options.jobs = options'.jobs)
    (hescalation : options.escalation = options'.escalation) :
    c.steps targets options = c.steps targets options' := by
  cases hbackend : c.backend with
  | cmake => exact absurd hbackend hb
  | autotools => simp only [steps, hbackend, Autotools.steps, hmake, hjobs, hescalation]
  | manual => simp only [steps, hbackend, Makefile.steps, hmake, hjobs, hescalation]

theorem optionsApart_of_supports (h : c.backend.supports c.platform = true)
    (targets : List Target) : c.OptionsApart targets where
  escalation options wrapper :=
    c.steps_eq_map_escalate targets { options with escalation := some wrapper }
  jobs options n := c.steps_inParallel targets options n
  sourceDir hb options := steps_sourceDir hb targets options
  unread hb options directory generator mingwMake := by
    apply steps_eq_of_make hb
    · rw [makeProgram_of_supports h hb, makeProgram_of_supports h hb]
    · rfl
    · rfl
  mingwMake hb options hread mingwMake := steps_mingwMake hb hread mingwMake

end Configuration

/-- Whatever is granted has steps for all targets and options, and no option reaches into what
another one decides. -/
theorem options_act_apart {p : Platform} {b : Backend} {o : Overrides} {r : Resolution}
    (h : resolve p b o = .ok r) (targets : List Target) :
    (∀ options, r.config.render b targets options = .ok (r.config.steps targets options)) ∧
      r.config.OptionsApart targets := by
  have hr := config_realizes_of_resolve h
  constructor
  · intro options
    exact hr.backend ▸ r.config.render_backend targets options
  · exact Configuration.optionsApart_of_supports hr.supports targets

/-- The make of MinGW is not asked for on Cygwin, nor on native Windows where the generator is
given, and the source directory looks like an entry of the cache. -/
theorem windows_options_act_apart :
    let o : Overrides := .ofList
      [("CMAKE_INSTALL_PREFIX", .text "/opt/j2k"), ("WITH_JP3D", .text "on")]
    let targets : List Target := [.ofKind .docs "docs" []]
    ∃ r r' front rest, resolve .winCygwin .manual o = .ok r ∧ resolve .winNative .cmake o = .ok r' ∧
      r.config.OptionsApart targets ∧ r'.config.OptionsApart targets ∧
      r.config.render .manual targets
          { sourceDir := ⟨"-DBUILD_MJ2:BOOL=ON"⟩, generator := some "Ninja", mingwMake := true } =
        .ok (r.config.steps targets {}) ∧
      r'.config.render .cmake targets
          { sourceDir := ⟨"-DBUILD_MJ2:BOOL=ON"⟩, generator := some "Ninja", mingwMake := true } =
        .ok (.plain .configure (front ++ ["-DBUILD_MJ2:BOOL=ON"]) :: rest) ∧
      r'.config.render .cmake targets { generator := some "Ninja" } =
        .ok (.plain .configure (front ++ ["."]) :: rest) := by
  intro o targets
  obtain ⟨r, hr⟩ : ∃ r, resolve .winCygwin .manual o = .ok r := ⟨_, rfl⟩
  obtain ⟨r', hr'⟩ : ∃ r', resolve .winNative .cmake o = .ok r' := ⟨_, rfl⟩
  obtain ⟨hrender, hapart⟩ := options_act_apart hr targets
  obtain ⟨hrender', hapart'⟩ := options_act_apart hr' targets
  have hmanual : r.config.backend ≠ .cmake := by
    cases hr
    decide
  have hcmake : r'.config.backend = .cmake := by
    cases hr'
    rfl
  obtain ⟨front, rest, hsource⟩ := hapart'.sourceDir hcmake { generator := some "Ninja" }
  have hmingw := hapart'.mingwMake hcmake
    { sourceDir := ⟨"-DBUILD_MJ2:BOOL=ON"⟩, generator := some "Ninja" } (.inl (by simp)) true
  refine ⟨r, r', front, rest, hr, hr', hapart, hapart', ?_, ?_, ?_⟩
  · rw [hrender]
    exact congrArg Except.ok (hapart.unread hmanual {} _ _ _)
  · rw [hrender']
    exact congrArg Except.ok (hmingw.trans (hsource _))
  · rw [hrender']
    exact congrArg Except.ok (hsource ⟨"."⟩)

end CodecBuild
