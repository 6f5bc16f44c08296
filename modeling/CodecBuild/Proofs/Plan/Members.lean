import CodecBuild.Plan
import CodecBuild.Proofs.Order.Existence

/-!
What a plan is made of. Executables need libraries and the tests need what is compiled, so every
configuration has a plan, and the plan holds the targets that the configuration calls for. The
parts that can be left out have no target names in common, neither with one another nor with what
else is planned, so a single name tells whether a part is planned.
-/

namespace CodecBuild

deriving instance DecidableEq for Component

namespace Component

def all : List Component := [codec, mj2, jpwl, jp3d, indexer]

def names (c : Component) : List String := c.targets.map Target.name

/-- Whatever a configuration may compile. -/
def compilable : List Target := .library coreLibrary :: all.flatMap targets

theorem mem_all_of_optional {b : Backend} {e : Flag × Component} (h : e ∈ optional b) :
    e.2 ∈ all := by
  revert e
  cases b <;> decide

theorem flag_eq_of_optional {b : Backend} {f g : Flag} {c : Component} (hf : (f, c) ∈ optional b)
    (hg : (g, c) ∈ optional b) : f = g := by
  have htable : ∀ b, ∀ e ∈ optional b, ∀ e' ∈ optional b, e.2 = e'.2 → e.1 = e'.1 := by
    intro b
    cases b <;> decide
  exact htable b _ hf _ hg rfl

theorem links_mem {c : Component} (h : c ∈ all) : c.links ∈ coreLibrary :: c.names := by
  revert c
  decide

theorem exists_name {c : Component} (h : c ∈ all) : ∃ n, n ∈ c.names := by
  apply List.exists_mem_of_ne_nil
  revert c
  decide

theorem eq_of_common_name {c : Component} (hc : c ∈ all) {d : Component} (hd : d ∈ all)
    {n : String} (hn : n ∈ c.names) (hn' : n ∈ d.names) : c = d := by
  revert c d n
  decide

theorem not_mem_names {c : Component} (h : c ∈ all) {n : String}
    (hn : n ∈ [coreLibrary, "docs", "test"]) : n ∉ c.names := by
  revert c n
  decide

theorem dependsOn_of_mem_targets {c : Component} {t : Target} (h : t ∈ c.targets) {d : String}
    (hd : d ∈ t.dependsOn) : d = c.links := by
  obtain h | h := List.mem_append.mp h
  · obtain ⟨n, -, rfl⟩ := List.mem_map.mp h
    simp [Target.library, Target.ofKind, NameSet.mem_ofList] at hd
  · obtain ⟨n, -, rfl⟩ := List.mem_map.mp h
    simpa [Target.executable, Target.ofKind, NameSet.mem_ofList] using hd

end Component

/-- Libraries and documents come first, then executables, then the tests. -/
def Target.stage (t : Target) : Nat :=
  match t.kind with
  | .library | .docs => 0
  | .executable => 1
  | .test => 2

namespace Configuration

variable {c : Configuration} {doxygen : Bool}

theorem mem_components {k : Component} :
    k ∈ c.components ↔ ∃ f, (f, k) ∈ Component.optional c.backend ∧ c.isOn f = true := by
  simp [components]

theorem mem_components_iff_isOn {f : Flag} {k : Component}
    (h : (f, k) ∈ Component.optional c.backend) : k ∈ c.components ↔ c.isOn f = true := by
  rw [mem_components]
  constructor
  · intro hk
    obtain ⟨g, hg, hon⟩ := hk
    exact Component.flag_eq_of_optional hg h ▸ hon
  · intro hon
    exact ⟨f, h, hon⟩

theorem mem_all_of_components {k : Component} (h : k ∈ c.components) : k ∈ Component.all := by
  obtain ⟨f, hf, -⟩ := mem_components.mp h
  exact Component.mem_all_of_optional hf

theorem mem_compiledTargets {t : Target} :
    t ∈ c.compiledTargets ↔
      t = .library Component.coreLibrary ∨ ∃ k ∈ c.components, t ∈ k.targets := by
  simp [compiledTargets]

theorem mem_compilable {t : Target} (h : t ∈ c.compiledTargets) : t ∈ Component.compilable := by
  obtain rfl | ⟨k, hk, ht⟩ := mem_compiledTargets.mp h
  · exact List.mem_cons_self
  · exact List.mem_cons_of_mem _ (List.mem_flatMap.mpr ⟨k, mem_all_of_components hk, ht⟩)

theorem mem_docsTargets {t : Target} : t ∈ c.docsTargets doxygen ↔
    (c.isOn .buildDoc = true ∧ doxygen = true) ∧ t = .ofKind .docs "docs" [] := by
  simp [docsTargets]

theorem mem_testTargets {t : Target} : t ∈ c.testTargets ↔ c.isOn .buildTesting = true ∧
    t = { Target.ofKind .test "test" (c.compiledTargets.map Target.name) with
      inputs := c.dataRoot?.toList } := by
  simp [testTargets]

theorem mem_targets {t : Target} : t ∈ c.targets doxygen ↔
    t ∈ c.compiledTargets ∨ t ∈ c.docsTargets doxygen ∨ t ∈ c.testTargets := by
  simp [targets]

/-- A planned target is compiled, or it is one of the two that have a name of their own. -/
theorem mem_targets_cases {t : Target} (h : t ∈ c.targets doxygen) :
    t ∈ c.compiledTargets ∨ (t.name = "docs" ∧ t.kind = .docs ∧ t.dependsOn = .ofList []) ∨
      (t.name = "test" ∧ t.kind = .test ∧
        t.dependsOn = .ofList (c.compiledTargets.map Target.name)) := by
  obtain h | h | h := mem_targets.mp h
  · exact .inl h
  · obtain ⟨-, rfl⟩ := mem_docsTargets.mp h
    exact .inr (.inl ⟨rfl, rfl, rfl⟩)
  · obtain ⟨-, rfl⟩ := mem_testTargets.mp h
    exact .inr (.inr ⟨rfl, rfl, rfl⟩)

theorem mem_targets_of_compiled {t : Target} (h : t ∈ c.compiledTargets) :
    t ∈ c.targets doxygen :=
  List.mem_append_left _ (List.mem_append_left _ h)

theorem known_targets (c : Configuration) (doxygen : Bool) : Order.Known (c.targets doxygen) := by
  intro t ht d hd
  obtain ht | ⟨-, -, hdeps⟩ | ⟨-, -, hdeps⟩ := mem_targets_cases ht
  · obtain rfl | ⟨k, hk, ht⟩ := mem_compiledTargets.mp ht
    · simp [Target.library, Target.ofKind, NameSet.mem_ofList] at hd
    · rw [Component.dependsOn_of_mem_targets ht hd]
      cases List.mem_cons.mp (Component.links_mem (mem_all_of_components hk)) with
      | inl hcore =>
          exact ⟨_, mem_targets_of_compiled (mem_compiledTargets.mpr (.inl rfl)), hcore.symm⟩
      | inr hown =>
          obtain ⟨u, hu, hname⟩ := List.mem_map.mp hown
          exact ⟨u, mem_targets_of_compiled (mem_compiledTargets.mpr (.inr ⟨k, hk, hu⟩)), hname⟩
  · simp [hdeps, NameSet.mem_ofList] at hd
  · rw [hdeps, NameSet.mem_ofList] at hd
    obtain ⟨u, hu, hname⟩ := List.mem_map.mp hd
    exact ⟨u, mem_targets_of_compiled hu, hname⟩

theorem stage_lt {t u : Target} (ht : t ∈ c.targets doxygen) (hu : u ∈ c.targets doxygen)
    (h : u.name ∈ t.dependsOn) : u.stage < t.stage := by
  have hcompilable : ∀ t ∈ Component.compilable, t.stage < 2 ∧ t.name ≠ "test" ∧
      "docs" ∉ t.dependsOn ∧ "test" ∉ t.dependsOn ∧
      ∀ u ∈ Component.compilable, u.name ∈ t.dependsOn → u.stage < t.stage := by decide
  obtain ht | ⟨-, -, hdeps⟩ | ⟨-, hkind, hdeps⟩ := mem_targets_cases ht
  · obtain ⟨-, -, hdocs, htest, hlt⟩ := hcompilable t (mem_compilable ht)
    obtain hu | ⟨hname, -⟩ | ⟨hname, -⟩ := mem_targets_cases hu
    · exact hlt u (mem_compilable hu) h
    · exact (hdocs (hname ▸ h)).elim
    · exact (htest (hname ▸ h)).elim
  · simp [hdeps, NameSet.mem_ofList] at h
  · have htwo : t.stage = 2 := by simp [Target.stage, hkind]
    rw [htwo]
    obtain hu | ⟨-, hdocs, -⟩ | ⟨hname, -⟩ := mem_targets_cases hu
    · exact (hcompilable u (mem_compilable hu)).1
    · simp [Target.stage, hdocs]
    · rw [hdeps, NameSet.mem_ofList, hname] at h
      obtain ⟨w, hw, hwname⟩ := List.mem_map.mp h
      exact ((hcompilable w (mem_compilable hw)).2.1 hwname).elim

theorem exists_plan (c : Configuration) (doxygen : Bool) :
    ∃ plan, c.plan doxygen = .ok plan ∧ plan.targets.Perm (c.targets doxygen) := by
  obtain ⟨out, hout⟩ := Order.exists_order_of_stages Target.stage (c.known_targets doxygen)
    fun t ht u hu => stage_lt ht hu
  refine ⟨⟨out, if c.isOn .buildDoc && !doxygen then [.docsSkipped] else []⟩, ?_,
    Order.perm_of_order hout⟩
  rw [plan, hout]
  rfl

theorem plan_perm {plan : Plan} (h : c.plan doxygen = .ok plan) :
    plan.targets.Perm (c.targets doxygen) := by
  obtain ⟨plan', hplan', hperm⟩ := c.exists_plan doxygen
  rw [h] at hplan'
  exact Except.ok.inj hplan' ▸ hperm

/-- The names of a plan can be had from its configuration alone. -/
theorem names_of_plan {plan : Plan} {names : List String} (h : c.plan doxygen = .ok plan)
    (hnames : (c.plan doxygen).map Plan.names = .ok names) : plan.names = names := by
  rw [h] at hnames
  exact Except.ok.inj hnames

/-- A name of a part that can be left out is planned exactly with the part. -/
theorem contains_iff_mem_components {plan : Plan} (h : c.plan doxygen = .ok plan) {k : Component}
    (hk : k ∈ Component.all) {n : String} (hn : n ∈ k.names) :
    plan.contains n = true ↔ k ∈ c.components := by
  have hcontains : plan.contains n = true ↔ ∃ t ∈ c.targets doxygen, t.name = n := by
    simp [Plan.contains, Plan.target?, (plan_perm h).mem_iff]
  rw [hcontains]
  constructor
  · intro hplanned
    obtain ⟨t, ht, rfl⟩ := hplanned
    obtain ht | ⟨hname, -⟩ | ⟨hname, -⟩ := mem_targets_cases ht
    · obtain rfl | ⟨j, hj, ht⟩ := mem_compiledTargets.mp ht
      · exact (Component.not_mem_names hk (by simp [Target.library, Target.ofKind]) hn).elim
      · have hjk := Component.eq_of_common_name (mem_all_of_components hj) hk
          (List.mem_map_of_mem ht) hn
        exact hjk ▸ hj
    · exact (Component.not_mem_names hk (by simp [hname]) hn).elim
    · exact (Component.not_mem_names hk (by simp [hname]) hn).elim
  · intro hcomponent
    obtain ⟨t, ht, hname⟩ := List.mem_map.mp hn
    exact ⟨t, mem_targets_of_compiled (mem_compiledTargets.mpr (.inr ⟨k, hcomponent, ht⟩)), hname⟩

end Configuration
end CodecBuild
