import CodecBuild.Proofs.Plan.Members
import CodecBuild.Proofs.Step.Commands

/-!
Which flags a build reads. Two configurations that agree on them have the same plan and the same
steps. The other way round, flags that ask for a part and flags that go into the cache can be read
off the plan and the steps again.
-/

namespace CodecBuild

/-- Whether the flag is read when a build is planned or its steps are written down. -/
def Flag.isRead (f : Flag) (p : Platform) : Backend → Bool
  | .autotools => f ∉ [cmakeOSXArchitectures, cmakeBuildType, withJPWL, withJP3D]
  | .cmake => CMake.isCached p f
  | .manual =>
    f ∈ [withJPWL, withJP3D, buildDoc, buildTesting, conformanceDataRoot, cmakeInstallPrefix]

namespace Assignment

/-- The values of some of the flags. -/
def restrict (a : Assignment) (q : Flag → Bool) : Assignment :=
  ⟨fun f => if q f then a.get? f else none⟩

theorem entries_restrict (a : Assignment) (q : Flag → Bool) :
    (a.restrict q).entries = a.entries.filter fun e => q e.1 := by
  rw [entries, entries, List.filter_filterMap]
  apply List.filterMap_congr
  intro f _
  cases hf : q f <;> cases hv : a.get? f <;> simp [restrict, hf, hv, Option.filter_some]

theorem filter_entries_congr {a a' : Assignment} {q : Flag → Bool}
    (h : ∀ f, q f = true → a.get? f = a'.get? f) :
    a.entries.filter (fun e => q e.1) = a'.entries.filter fun e => q e.1 := by
  have hrestrict : a.restrict q = a'.restrict q := by
    refine Assignment.ext (funext fun f => ?_)
    cases hf : q f with
    | true => simp [restrict, hf, h f hf]
    | false => simp [restrict, hf]
  rw [← entries_restrict, ← entries_restrict, hrestrict]

end Assignment

section Steps

variable {c d : Configuration} {targets : List Target} {options : RenderOptions} {make : String}

theorem Autotools.steps_congr (hinstall : c.installPrefix? = d.installPrefix?)
    (hlink : c.linkMode = d.linkMode) (hon : ∀ e ∈ features, c.isOn e.1 = d.isOn e.1) :
    steps c targets make options = steps d targets make options := by
  have hfeatures := List.filter_congr hon
  simp only [steps, configureCommand, hinstall, hlink, hfeatures]

theorem CMake.steps_congr (hplatform : c.platform = d.platform)
    (hentries : c.flags.entries.filter (fun e => isCached c.platform e.1) =
      d.flags.entries.filter fun e => isCached d.platform e.1) :
    steps c targets options = steps d targets options := by
  simp only [steps, configureCommand, cacheEntries, hentries]
  rw [hplatform]

theorem Makefile.steps_congr (hinstall : c.installPrefix? = d.installPrefix?)
    (hon : ∀ e ∈ subdirectories, c.isOn e.1 = d.isOn e.1) :
    steps c targets make options = steps d targets make options := by
  have hdirectories := List.filter_congr hon
  have hsymbols : (subdirectories.map fun e => symbol c e.1) =
      subdirectories.map fun e => symbol d e.1 := by
    apply List.map_congr_left
    intro e he
    rw [symbol, symbol, hon e he]
  simp only [steps, hinstall, hdirectories, hsymbols]

end Steps

namespace Configuration

/-- The same plans on every host, and the same steps with all options. -/
def BuildsAs (c d : Configuration) : Prop :=
  ∀ doxygen, ∃ plan, c.plan doxygen = .ok plan ∧ d.plan doxygen = .ok plan ∧
    ∀ options, c.render c.backend plan.targets options = d.render d.backend plan.targets options

section Agreement

variable {p : Platform} {b : Backend} {a a' : Assignment}
variable (h : ∀ f : Flag, f.isRead p b = true → a.get? f = a'.get? f)

include h

theorem isOn_congr {f : Flag} (hf : f.isRead p b = true) :
    (ofFlags p b a).isOn f = (ofFlags p b a').isOn f := by
  simp only [isOn, Assignment.isOn, ofFlags, h f hf]

theorem installPrefix?_congr (hf : Flag.cmakeInstallPrefix.isRead p b = true) :
    (ofFlags p b a).installPrefix? = (ofFlags p b a').installPrefix? := by
  simp only [ofFlags, Assignment.path?, h _ hf]

theorem compiledTargets_congr :
    (ofFlags p b a).compiledTargets = (ofFlags p b a').compiledTargets := by
  have hread : ∀ e ∈ Component.optional b, e.1.isRead p b = true := by
    cases b <;> cases p <;> decide
  have hcomponents : (ofFlags p b a).components = (ofFlags p b a').components :=
    congrArg (List.map Prod.snd) (List.filter_congr fun e he => isOn_congr h (hread e he))
  rw [compiledTargets, compiledTargets, hcomponents]

theorem plan_congr (doxygen : Bool) :
    (ofFlags p b a).plan doxygen = (ofFlags p b a').plan doxygen := by
  have hread : ∀ f ∈ [Flag.buildDoc, .buildTesting, .conformanceDataRoot],
      f.isRead p b = true := by
    cases b <;> cases p <;> decide
  have hdoc := isOn_congr h (hread .buildDoc (by decide))
  have htesting := isOn_congr h (hread .buildTesting (by decide))
  have hroot : (ofFlags p b a).dataRoot? = (ofFlags p b a').dataRoot? := by
    simp only [dataRoot?, Assignment.path?, ofFlags, h _ (hread .conformanceDataRoot (by decide))]
  simp only [plan, targets, docsTargets, testTargets, compiledTargets_congr h, hdoc, htesting, hroot]

end Agreement

theorem steps_congr {p : Platform} {b : Backend} {a a' : Assignment}
    (h : ∀ f : Flag, f.isRead p b = true → a.get? f = a'.get? f) (targets : List Target)
    (options : RenderOptions) :
    (ofFlags p b a).steps targets options = (ofFlags p b a').steps targets options := by
  cases b with
  | autotools =>
      have hread : ∀ e ∈ Autotools.features, e.1.isRead p .autotools = true := by
        cases p <;> decide
      have hshared : a.isOn .buildSharedLibs = a'.isOn .buildSharedLibs := isOn_congr h rfl
      have hlink : (ofFlags p .autotools a).linkMode = (ofFlags p .autotools a').linkMode := by
        simp only [ofFlags, hshared]
      exact Autotools.steps_congr (installPrefix?_congr h rfl) hlink fun e he =>
        isOn_congr h (hread e he)
  | cmake => exact CMake.steps_congr rfl (Assignment.filter_entries_congr h)
  | manual =>
      have hread : ∀ e ∈ Makefile.subdirectories, e.1.isRead p .manual = true := by
        cases p <;> decide
      exact Makefile.steps_congr (installPrefix?_congr h rfl) fun e he => isOn_congr h (hread e he)

/-- What a build does depends on the flags that are read and on no others. -/
theorem buildsAs_of_agree {p : Platform} {b : Backend} {a a' : Assignment}
    (h : ∀ f : Flag, f.isRead p b = true → a.get? f = a'.get? f) :
    (ofFlags p b a).BuildsAs (ofFlags p b a') := by
  intro doxygen
  obtain ⟨plan, hplan, -⟩ := (ofFlags p b a).exists_plan doxygen
  refine ⟨plan, hplan, plan_congr h doxygen ▸ hplan, ?_⟩
  intro options
  rw [render, render, steps_congr h]
  rfl

variable {c d : Configuration}

/-- A flag that asks for a part shows in the plan. -/
theorem BuildsAs.isOn_eq (h : c.BuildsAs d) (hb : d.backend = c.backend) {f : Flag} {k : Component}
    (hf : (f, k) ∈ Component.optional c.backend) : c.isOn f = d.isOn f := by
  have hk := Component.mem_all_of_optional hf
  obtain ⟨n, hn⟩ := Component.exists_name hk
  obtain ⟨plan, hc, hd, -⟩ := h true
  rw [Bool.eq_iff_iff, ← mem_components_iff_isOn hf, ← mem_components_iff_isOn (hb ▸ hf),
    ← contains_iff_mem_components hc hk hn, ← contains_iff_mem_components hd hk hn]

/-- A cache entry shows in the steps. -/
theorem BuildsAs.mem_cacheEntries (h : c.BuildsAs d) (hc : c.backend = .cmake)
    (hd : d.backend = .cmake) {entry : String} (hentry : entry ∈ CMake.cacheEntries c) :
    entry ∈ CMake.cacheEntries d := by
  obtain ⟨plan, -, -, hsteps⟩ := h true
  have hsame : CMake.steps c plan.targets {} = CMake.steps d plan.targets {} := by
    simpa [render, steps, hc, hd] using hsteps {}
  have hargument : "-D" ++ entry ∈ (CMake.cacheEntries d).map ("-D" ++ ·) := by
    apply CMake.mem_configure_entries.mp
    rw [← hsame]
    exact CMake.mem_configure_entries.mpr (List.mem_map_of_mem hentry)
  simpa using hargument

end Configuration
end CodecBuild
