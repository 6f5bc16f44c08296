import CodecBuild.Proofs.Plan.Members
import CodecBuild.Proofs.Resolution.Outcome
import CodecBuild.Proofs.Step.Commands

/-!
Plans and steps agree. The planner and each backend have tables of their own for the parts that
can be left out. Every part is written down here once more, with its artifacts and with what asks
for it in the commands of each backend. All of its artifacts are planned if the steps ask for it,
and none of them if they do not. Documentation and tests have steps if they are planned, except
that only CMake runs tests.
-/

namespace CodecBuild

structure OptionalPart where
  artifacts : List String
  /-- Asks the configure script for the part. -/
  switch : String
  /-- Asks CMake for the part. -/
  cacheArgument : String
  /-- Asks the Makefile for the part: a symbol, and the directory that is made for it. -/
  symbol? : Option (String × String)

namespace OptionalPart

def jpwl : OptionalPart where
  artifacts := ["openjpeg_JPWL", "JPWL_image_to_j2k", "JPWL_j2k_to_image"]
  switch := "--enable-jpwl"
  cacheArgument := "-DBUILD_JPWL:BOOL=ON"
  symbol? := some ("WITH_JPWL=yes", "jpwl")

def jp3d : OptionalPart where
  artifacts := ["openjp3dvm", "jp3d_to_volume", "volume_to_jp3d"]
  switch := "--enable-jp3d"
  cacheArgument := "-DBUILD_JP3D:BOOL=ON"
  symbol? := some ("WITH_JP3D=yes", "jp3d")

def mj2 : OptionalPart where
  artifacts := ["frames_to_mj2", "mj2_to_frames", "extract_j2k_from_mj2", "wrap_j2k_in_mj2"]
  switch := "--enable-mj2"
  cacheArgument := "-DBUILD_MJ2:BOOL=ON"
  symbol? := none

def all : List OptionalPart := [jpwl, jp3d, mj2]

open Step (commands)

/-- The steps ask for the part, in the way of the backend. -/
def EnabledIn (part : OptionalPart) (steps : List Step) : Backend → Prop
  | .autotools => ∃ arguments,
      "./configure" :: arguments ∈ commands .configure steps ∧ part.switch ∈ arguments
  | .cmake => ∃ generator entries source,
      ["cmake", "-G", generator] ++ entries ++ [source] ∈ commands .configure steps ∧
        part.cacheArgument ∈ entries
  | .manual => ∃ symbol directory, part.symbol? = some (symbol, directory) ∧
      (∃ command ∈ commands .configure steps, symbol ∈ command) ∧
      ∃ jobs, "make" :: "-C" :: directory :: jobs ∈ commands .build steps

end OptionalPart

open OptionalPart Step in
structure Plan.AgreesWith (plan : Plan) (backend : Backend) (steps : List Step) : Prop where
  planned : ∀ part ∈ OptionalPart.all,
    (∀ n ∈ part.artifacts, plan.contains n = true) ↔ part.EnabledIn steps backend
  unplanned : ∀ part ∈ OptionalPart.all,
    ¬part.EnabledIn steps backend → ∀ n ∈ part.artifacts, plan.contains n = false
  manual : backend = .manual → ∀ n ∈ mj2.artifacts, plan.contains n = false
  docs : commands .docsBuild steps ≠ [] ↔ hasKind plan.targets .docs = true
  docsSwitch : backend = .autotools →
    ((∃ arguments, "./configure" :: arguments ∈ commands .configure steps ∧
      "--enable-doc" ∈ arguments) ↔ hasKind plan.targets .docs = true)
  tests : commands .test steps ≠ [] ↔ backend = .cmake ∧ hasKind plan.targets .test = true

namespace OptionalPart

/-- Where the tables of the planner and of the backends have the part: its component, its flag,
and its line in the table of the Makefile if there is one. -/
structure StandsFor (part : OptionalPart) (k : Component) (f : Flag)
    (line? : Option (Flag × String)) : Prop where
  component : k ∈ Component.all
  names : k.names = part.artifacts
  nonempty : part.artifacts ≠ []
  boolean : f.kind = .boolean
  autotools : (f, k) ∈ Component.optional .autotools
  switch : (f, part.switch) ∈ Autotools.features
  cmake : (f, k) ∈ Component.optional .cmake
  cached : ∀ p ∈ Platform.all, CMake.isCached p f = true
  cacheArgument : part.cacheArgument = "-D" ++ CMake.cacheEntry f (.bool true)
  symbol : part.symbol? = line?.map fun line => (line.1.name ++ "=yes", line.2)
  manual : ∀ line ∈ line?,
    line ∈ Makefile.subdirectories ∧ (line.1, k) ∈ Component.optional .manual
  absent : line? = none → ∀ e ∈ Component.optional .manual, e.2 ≠ k

theorem jpwl_standsFor : jpwl.StandsFor .jpwl .buildJPWL (some (.withJPWL, "jpwl")) := by
  constructor <;> decide

theorem jp3d_standsFor : jp3d.StandsFor .jp3d .buildJP3D (some (.withJP3D, "jp3d")) := by
  constructor <;> decide

theorem mj2_standsFor : mj2.StandsFor .mj2 .buildMJ2 none := by
  constructor <;> decide

theorem exists_standsFor {part : OptionalPart} (h : part ∈ all) :
    ∃ k f line?, part.StandsFor k f line? := by
  simp only [all, List.mem_cons, List.not_mem_nil, or_false] at h
  obtain rfl | rfl | rfl := h
  · exact ⟨_, _, _, jpwl_standsFor⟩
  · exact ⟨_, _, _, jp3d_standsFor⟩
  · exact ⟨_, _, _, mj2_standsFor⟩

end OptionalPart

namespace Configuration

variable {c : Configuration} {targets : List Target} {options : RenderOptions}
variable {part : OptionalPart} {k : Component} {f : Flag} {line? : Option (Flag × String)}

theorem isOn_of_render (hfits : ∀ v, c.flags.get? f = some v → f.kind.Fits v)
    (hf : f.kind = .boolean) :
    (∃ v, c.flags.get? f = some v ∧ v.render = (FlagValue.bool true).render) ↔
      c.isOn f = true := by
  rw [isOn, Assignment.isOn_iff]
  constructor
  · intro h
    obtain ⟨v, hv, hrender⟩ := h
    have hshape := hfits v hv
    rw [hf] at hshape
    cases v with
    | bool b =>
        cases b with
        | false => exact absurd hrender (by decide)
        | true => exact hv
    | path _ | choice _ | text _ => exact hshape.elim
  · intro h
    exact ⟨_, h, rfl⟩

/-- The Makefile has a symbol and a directory for the part, and the two go together. -/
theorem enabledIn_manual_iff (h : part.StandsFor k f line?) (hb : c.backend = .manual) :
    part.EnabledIn (Makefile.steps c targets "make" options) .manual ↔ k ∈ c.components := by
  cases hline : line? with
  | none =>
      have hsymbol : part.symbol? = none := by simp [h.symbol, hline]
      constructor
      · intro henabled
        obtain ⟨_, _, hsome, -⟩ := henabled
        rw [hsymbol] at hsome
        cases hsome
      · intro hk
        obtain ⟨g, hg, -⟩ := mem_components.mp hk
        rw [hb] at hg
        exact (h.absent hline _ hg rfl).elim
  | some line =>
      obtain ⟨hdirectory, hpart⟩ := h.manual line hline
      have hsymbol : part.symbol? = some (line.1.name ++ "=yes", line.2) := by
        simp [h.symbol, hline]
      rw [mem_components_iff_isOn (hb ▸ hpart)]
      constructor
      · intro henabled
        obtain ⟨_, _, hsome, -, hbuild⟩ := henabled
        rw [hsymbol] at hsome
        cases hsome
        exact (Makefile.directory_mem_build hdirectory).mp hbuild
      · intro hon
        refine ⟨_, _, hsymbol, ⟨_, ?_, (Makefile.symbol_mem_configure hdirectory).mpr hon⟩,
          (Makefile.directory_mem_build hdirectory).mpr hon⟩
        rw [Makefile.configure_commands]
        exact List.mem_singleton_self _

theorem enabledIn_iff (h : part.StandsFor k f line?)
    (hfits : ∀ f v, c.flags.get? f = some v → f.kind.Fits v)
    (hsupported : c.backend.supports c.platform = true) :
    part.EnabledIn (c.steps targets options) c.backend ↔ k ∈ c.components := by
  cases hb : c.backend with
  | autotools =>
      have hf : (f, k) ∈ Component.optional c.backend := hb ▸ h.autotools
      have hswitch : part.switch ≠ "./configure" := by
        have htable : ∀ e ∈ Autotools.features, e.2 ≠ "./configure" := by decide
        exact htable _ h.switch
      rw [mem_components_iff_isOn hf, steps, hb]
      exact (Autotools.mem_configure_arguments hswitch).trans
        (Autotools.feature_mem_configureCommand h.switch)
  | cmake =>
      have hf : (f, k) ∈ Component.optional c.backend := hb ▸ h.cmake
      rw [mem_components_iff_isOn hf, steps, hb, ← isOn_of_render (hfits f) h.boolean]
      apply CMake.mem_configure_entries.trans
      simp [h.cacheArgument, CMake.cacheEntry_mem_cacheEntries, h.cached, Platform.mem_all]
  | manual =>
      have hmake : makeProgram c.platform options = "make" :=
        makeProgram_of_supports (hb ▸ hsupported) (by decide)
      rw [steps, hb, hmake]
      exact enabledIn_manual_iff h hb

theorem docsBuild_commands_iff :
    Step.commands .docsBuild (c.steps targets options) ≠ [] ↔ hasKind targets .docs = true := by
  cases hb : c.backend <;>
    simp [steps, hb, Autotools.docsBuild_commands, CMake.docsBuild_commands,
      Makefile.docsBuild_commands]

theorem docs_mem_configure_iff (hb : c.backend = .autotools) :
    (∃ arguments, "./configure" :: arguments ∈
      Step.commands .configure (c.steps targets options) ∧ "--enable-doc" ∈ arguments) ↔
      hasKind targets .docs = true := by
  rw [steps, hb]
  exact (Autotools.mem_configure_arguments (by decide)).trans Autotools.docs_mem_configureCommand

theorem test_commands_iff : Step.commands .test (c.steps targets options) ≠ [] ↔
    c.backend = .cmake ∧ hasKind targets .test = true := by
  cases hb : c.backend <;>
    simp [steps, hb, Autotools.test_commands, CMake.test_commands, Makefile.test_commands]

end Configuration

/-- Whatever is built, for any host and with any options, the plan has what the steps ask for. -/
theorem plan_agreesWith_steps {p : Platform} {b : Backend} {o : Overrides} {r : Resolution}
    (h : resolve p b o = .ok r) (doxygen : Bool) (options : RenderOptions) :
    ∃ plan steps, r.config.plan doxygen = .ok plan ∧
      r.config.render b plan.targets options = .ok steps ∧ plan.AgreesWith b steps := by
  have hr := config_realizes_of_resolve h
  obtain ⟨plan, hplan, -⟩ := r.config.exists_plan doxygen
  have hb : r.config.backend = b := hr.backend
  have hsupported : r.config.backend.supports r.config.platform = true := by
    rw [hr.backend, hr.platform]
    exact hr.supported
  subst hb
  refine ⟨plan, _, hplan, if_pos rfl, ?_⟩
  have henabled : ∀ part ∈ OptionalPart.all, ∀ n ∈ part.artifacts,
      plan.contains n = true ↔
        part.EnabledIn (r.config.steps plan.targets options) r.config.backend := by
    intro part hpart n hn
    obtain ⟨k, f, line?, hk⟩ := OptionalPart.exists_standsFor hpart
    rw [Configuration.enabledIn_iff hk hr.fits hsupported]
    exact Configuration.contains_iff_mem_components hplan hk.component (hk.names ▸ hn)
  have hnone : ∀ part ∈ OptionalPart.all,
      ¬part.EnabledIn (r.config.steps plan.targets options) r.config.backend →
        ∀ n ∈ part.artifacts, plan.contains n = false := by
    intro part hpart hno n hn
    exact Bool.eq_false_iff.mpr fun hcontains => hno ((henabled part hpart n hn).mp hcontains)
  exact {
    planned := by
      intro part hpart
      constructor
      · intro hall
        obtain ⟨k, f, line?, hk⟩ := OptionalPart.exists_standsFor hpart
        obtain ⟨n, hn⟩ := List.exists_mem_of_ne_nil _ hk.nonempty
        exact (henabled part hpart n hn).mp (hall n hn)
      · intro hpartOn n hn
        exact (henabled part hpart n hn).mpr hpartOn
    unplanned := hnone
    manual := by
      intro hmanual
      apply hnone _ (by simp [OptionalPart.all])
      rw [hmanual]
      rintro ⟨symbol, directory, hsymbol, -⟩
      cases hsymbol
    docs := Configuration.docsBuild_commands_iff
    docsSwitch := Configuration.docs_mem_configure_iff
    tests := Configuration.test_commands_iff }

/-- A prefix, a generator and a directory that look like requests for parts. -/
theorem lookalike_texts_agree :
    let o : Overrides := .ofList [("BUILD_JPWL", .text "on"), ("BUILD_DOC", .bool true),
      ("CMAKE_INSTALL_PREFIX", .text "-DBUILD_JP3D:BOOL=ON")]
    let options : RenderOptions := {
      generator := some "-DBUILD_JP3D:BOOL=ON"
      sourceDir := ⟨"-DBUILD_MJ2:BOOL=ON"⟩ }
    ∃ r plan steps, resolve .macOS .cmake o = .ok r ∧ r.config.plan true = .ok plan ∧
      r.config.render .cmake plan.targets options = .ok steps ∧ plan.AgreesWith .cmake steps := by
  intro o options
  obtain ⟨r, hr⟩ : ∃ r, resolve .macOS .cmake o = .ok r := ⟨_, rfl⟩
  obtain ⟨plan, steps, hplan, hsteps, hagrees⟩ := plan_agreesWith_steps hr true options
  exact ⟨r, plan, steps, hr, hplan, hsteps, hagrees⟩

end CodecBuild
