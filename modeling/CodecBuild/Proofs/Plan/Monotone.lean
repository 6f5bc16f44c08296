import CodecBuild.Proofs.Order.Part
import CodecBuild.Proofs.Plan.WellFormed

/-!
Plans that grow. If whatever is on in one configuration is on in another, the first plan is found
within the second, in the same order. All but the tests knows its dependencies, so it is a part of
either plan, and ordered there as it would be on its own. The tests stand last in both plans, and
what they need in the first they need in the second.
-/

namespace CodecBuild

/-- Nothing can wait for the tests. -/
theorem Target.stage_le_two (t : Target) : t.stage ≤ 2 := by
  rw [stage]
  split <;> decide

theorem Component.kind_of_optional {b : Backend} {e : Flag × Component} (h : e ∈ optional b) :
    e.1.kind = .boolean := by
  revert e
  cases b <;> decide

namespace Configuration

variable {c d : Configuration} {doxygen : Bool} {plan plan' : Plan} {t u : Target}

/-- All that is planned, except for the tests. -/
def untested (c : Configuration) (doxygen : Bool) : List Target :=
  c.compiledTargets ++ c.docsTargets doxygen

theorem untested_sublist_targets (c : Configuration) (doxygen : Bool) :
    (c.untested doxygen).Sublist (c.targets doxygen) :=
  List.sublist_append_left _ _

theorem mem_targets_iff_untested :
    t ∈ c.targets doxygen ↔ t ∈ c.untested doxygen ∨ t ∈ c.testTargets :=
  List.mem_append

theorem kind_ne_of_untested (h : t ∈ c.untested doxygen) : t.kind ≠ .test := by
  intro hkind
  cases List.mem_append.mp h with
  | inl hcompiled => simpa [hkind] using (kind_of_compiled hcompiled).1
  | inr hdocs =>
      obtain ⟨-, rfl⟩ := mem_docsTargets.mp hdocs
      cases hkind

theorem kind_of_test (h : t ∈ c.testTargets) : t.kind = .test := by
  obtain ⟨-, rfl⟩ := mem_testTargets.mp h
  rfl

theorem known_untested (c : Configuration) (doxygen : Bool) :
    Order.Known (c.untested doxygen) := by
  intro t ht n hn
  have hplanned : t ∈ c.targets doxygen := mem_targets_iff_untested.mpr (.inl ht)
  obtain ⟨u, hu, rfl⟩ := c.known_targets doxygen t hplanned n hn
  cases mem_targets_iff_untested.mp hu with
  | inl huntested => exact ⟨u, huntested, rfl⟩
  | inr htest =>
      have hlast : u.stage = 2 := by simp [Target.stage, kind_of_test htest]
      have hbehind := stage_lt hplanned hu hn
      have hle := t.stage_le_two
      omega

theorem untested_of_followed {pre post : List Target} (h : c.plan doxygen = .ok plan)
    (hsplit : plan.targets = pre ++ t :: post) (hpost : post ≠ []) : t ∈ c.untested doxygen := by
  have hplanned : t ∈ c.targets doxygen := (plan_perm h).mem_iff.mp (by simp [hsplit])
  cases mem_targets_iff_untested.mp hplanned with
  | inl huntested => exact huntested
  | inr htest => exact (hpost (tests_come_last h hsplit (kind_of_test htest))).elim

/-- A plan is the plan of the rest, and then the tests if there are any. -/
theorem plan_targets_eq (h : c.plan doxygen = .ok plan) :
    plan.targets = plan.targets.filter (· ∈ c.untested doxygen) ++ c.testTargets := by
  have hmem : ∀ t, t ∈ plan.targets ↔ t ∈ c.untested doxygen ∨ t ∈ c.testTargets :=
    fun t => (plan_perm h).mem_iff.trans mem_targets_iff_untested
  cases htests : c.testTargets with
  | nil =>
      have huntested : ∀ t ∈ plan.targets, t ∈ c.untested doxygen := by
        simp [hmem, htests]
      rw [List.append_nil, List.filter_eq_self.mpr (by simpa using huntested)]
  | cons t rest =>
      have ht : t ∈ c.testTargets := by simp [htests]
      have hone : c.testTargets = [t] := by
        obtain ⟨hon, hshape⟩ := mem_testTargets.mp ht
        rw [testTargets, if_pos hon, hshape]
      obtain ⟨pre, post, hsplit⟩ := List.append_of_mem ((hmem t).mpr (.inr ht))
      obtain rfl := tests_come_last h hsplit (kind_of_test ht)
      have hpre : ∀ u ∈ pre, u ∈ c.untested doxygen := by
        intro u hu
        obtain ⟨front, back, rfl⟩ := List.append_of_mem hu
        exact untested_of_followed h (by simpa using hsplit) (by simp)
      have hlast : t ∉ c.untested doxygen := fun huntested =>
        kind_ne_of_untested huntested (kind_of_test ht)
      rw [← htests, hone, hsplit, List.filter_append, List.filter_eq_self.mpr (by simpa using hpre)]
      simp [hlast]

/-! ### Switching on more -/

section Growth

variable (hb : c.backend = d.backend)
  (hon : ∀ f : Flag, f.kind = .boolean → c.isOn f = true → d.isOn f = true)

include hon

theorem test_names_sublist :
    (c.testTargets.map Target.name).Sublist (d.testTargets.map Target.name) := by
  cases hc : c.isOn .buildTesting with
  | false => simp [testTargets, hc]
  | true => simp [testTargets, hc, hon .buildTesting rfl hc, Target.ofKind]

theorem docsTargets_sublist (doxygen : Bool) :
    (c.docsTargets doxygen).Sublist (d.docsTargets doxygen) := by
  cases hc : c.isOn .buildDoc with
  | false => simp [docsTargets, hc]
  | true => simp [docsTargets, hc, hon .buildDoc rfl hc]

include hb

theorem compiledTargets_sublist : c.compiledTargets.Sublist d.compiledTargets := by
  have hall : (Component.optional c.backend).filter (fun e => c.isOn e.1) =
      ((Component.optional d.backend).filter fun e => d.isOn e.1).filter fun e => c.isOn e.1 := by
    rw [hb, List.filter_filter]
    apply List.filter_congr
    intro e he
    have himp := hon e.1 (Component.kind_of_optional he)
    cases hc : c.isOn e.1 <;> simp_all
  have hcomponents : c.components.Sublist d.components := by
    rw [components, hall]
    exact List.filter_sublist.map Prod.snd
  exact (hcomponents.flatMap Component.targets).cons_cons _

theorem untested_sublist (doxygen : Bool) :
    (c.untested doxygen).Sublist (d.untested doxygen) :=
  (compiledTargets_sublist hb hon).append (docsTargets_sublist hon doxygen)

/-- Within both plans the rest of the first plan is ordered in the same way. -/
theorem filter_untested_eq (hc : c.plan doxygen = .ok plan) (hd : d.plan doxygen = .ok plan') :
    plan.targets.filter (· ∈ c.untested doxygen) =
      plan'.targets.filter (· ∈ c.untested doxygen) := by
  have hnames := (c.nodup_names doxygen).sublist
    ((c.untested_sublist_targets doxygen).map Target.name)
  have hpart := (untested_sublist hb hon doxygen).trans (d.untested_sublist_targets doxygen)
  have hfirst := (byName_of_plan hc).filter (c.nodup_names doxygen) hnames.of_map
    (c.untested_sublist_targets doxygen).subset (c.known_untested doxygen)
  have hsecond := (byName_of_plan hd).filter (d.nodup_names doxygen) hnames.of_map
    hpart.subset (c.known_untested doxygen)
  exact hfirst.unique hnames hsecond

theorem names_sublist (hc : c.plan doxygen = .ok plan) (hd : d.plan doxygen = .ok plan') :
    plan.names.Sublist plan'.names := by
  have hrest : (plan.targets.filter (· ∈ c.untested doxygen)).Sublist
      (plan'.targets.filter (· ∈ d.untested doxygen)) := by
    rw [filter_untested_eq hb hon hc hd]
    apply List.monotone_filter_right
    intro t ht
    simpa using (untested_sublist hb hon doxygen).subset (by simpa using ht)
  rw [Plan.names, Plan.names, plan_targets_eq hc, plan_targets_eq hd, List.map_append,
    List.map_append]
  exact (hrest.map Target.name).append (test_names_sublist hon)

theorem eq_of_common_target (ht : t ∈ c.targets doxygen) (hu : u ∈ d.targets doxygen)
    (hname : t.name = u.name) (htest : t.name ≠ "test") : t = u := by
  have huntested : t ∈ c.untested doxygen := by
    cases mem_targets_iff_untested.mp ht with
    | inl h => exact h
    | inr h =>
        obtain ⟨-, rfl⟩ := mem_testTargets.mp h
        exact (htest rfl).elim
  have hshared : t ∈ d.targets doxygen :=
    mem_targets_iff_untested.mpr (.inl ((untested_sublist hb hon doxygen).subset huntested))
  exact List.inj_on_of_nodup_map (d.nodup_names doxygen) hshared hu hname

theorem exists_test_needing_more (ht : t ∈ c.testTargets) :
    ∃ u ∈ d.testTargets, ∀ n ∈ t.dependsOn, n ∈ u.dependsOn := by
  obtain ⟨hc, rfl⟩ := mem_testTargets.mp ht
  refine ⟨_, mem_testTargets.mpr ⟨hon .buildTesting rfl hc, rfl⟩, ?_⟩
  intro n hn
  have hcompiled := ((compiledTargets_sublist hb hon).map Target.name).subset
  exact NameSet.mem_ofList.mpr (hcompiled (NameSet.mem_ofList.mp hn))

end Growth

/-- If every switch that is on for the one is on for the other, the names planned for the one are
planned for the other in the same order. But for the tests a target of both is the same in both,
and the tests of the other need all that the tests of the one need. -/
theorem plan_grows_with_switches (hb : c.backend = d.backend)
    (hon : ∀ f : Flag, f.kind = .boolean → c.isOn f = true → d.isOn f = true) (doxygen : Bool) :
    ∃ plan plan', c.plan doxygen = .ok plan ∧ d.plan doxygen = .ok plan' ∧
      plan.names.Sublist plan'.names ∧
      (∀ t ∈ plan.targets, ∀ u ∈ plan'.targets, t.name = u.name → t.name ≠ "test" → t = u) ∧
      ∀ t ∈ plan.targets, t.kind = .test →
        ∃ u ∈ plan'.targets, u.kind = .test ∧ ∀ n ∈ t.dependsOn, n ∈ u.dependsOn := by
  obtain ⟨plan, hc, hperm⟩ := c.exists_plan doxygen
  obtain ⟨plan', hd, hperm'⟩ := d.exists_plan doxygen
  refine ⟨plan, plan', hc, hd, names_sublist hb hon hc hd, ?_, ?_⟩
  · intro t ht u hu
    exact eq_of_common_target hb hon (hperm.mem_iff.mp ht) (hperm'.mem_iff.mp hu)
  · intro t ht hkind
    have htest := mem_tests_of_kind (hperm.mem_iff.mp ht) hkind
    obtain ⟨u, hu, hneeds⟩ := exists_test_needing_more hb hon htest
    exact ⟨u, hperm'.mem_iff.mpr (mem_targets_iff_untested.mpr (.inr hu)), kind_of_test hu, hneeds⟩

/-- On another platform and without another prefix, four executables and an indexer come in
between, documents are added, and the tests need more. -/
theorem indexed_plan_contains_tested_plan :
    let o : Overrides := .ofList [("BUILD_JP3D", .text "on"), ("BUILD_TESTING", .text "yes"),
      ("CMAKE_INSTALL_PREFIX", .text "/opt/j2k"), ("JPEG2000_CONFORMANCE_DATA_ROOT", .text "data")]
    let o' : Overrides := .ofList [("BUILD_DOC", .text "on"), ("BUILD_INDEXER_JPIP", .text "on"),
      ("BUILD_JP3D", .text "1"), ("BUILD_MJ2", .text "on"), ("BUILD_TESTING", .bool true),
      ("JPEG2000_CONFORMANCE_DATA_ROOT", .text "elsewhere")]
    ∃ r r' plan plan', resolve .unix .cmake o = .ok r ∧ resolve .winNative .cmake o' = .ok r' ∧
      r.config.plan true = .ok plan ∧ r'.config.plan true = .ok plan' ∧
      plan.names = ["openjp3dvm", "jp3d_to_volume", "openjpeg", "image_to_j2k", "j2k_dump",
        "j2k_to_image", "volume_to_jp3d", "test"] ∧
      plan'.names = ["docs", "openjp3dvm", "jp3d_to_volume", "openjpeg", "extract_j2k_from_mj2",
        "frames_to_mj2", "image_to_j2k", "index_create", "j2k_dump", "j2k_to_image",
        "mj2_to_frames", "volume_to_jp3d", "wrap_j2k_in_mj2", "test"] ∧
      plan.names.Sublist plan'.names ∧
      (∀ t ∈ plan.targets, ∀ u ∈ plan'.targets, t.name = u.name → t.name ≠ "test" → t = u) ∧
      ∀ t ∈ plan.targets, t.kind = .test →
        ∃ u ∈ plan'.targets, u.kind = .test ∧ ∀ n ∈ t.dependsOn, n ∈ u.dependsOn := by
  intro o o'
  obtain ⟨r, hr⟩ : ∃ r, resolve .unix .cmake o = .ok r := ⟨_, rfl⟩
  obtain ⟨r', hr'⟩ : ∃ r', resolve .winNative .cmake o' = .ok r' := ⟨_, rfl⟩
  have hb : r.config.backend = r'.config.backend := by
    cases hr
    cases hr'
    rfl
  have hon : ∀ f : Flag, f.kind = .boolean → r.config.isOn f = true → r'.config.isOn f = true := by
    cases hr
    cases hr'
    decide
  obtain ⟨plan, plan', hplan, hplan', hgrown⟩ := plan_grows_with_switches hb hon true
  refine ⟨r, r', plan, plan', hr, hr', hplan, hplan', names_of_plan hplan ?_,
    names_of_plan hplan' ?_, hgrown⟩
  · cases hr
    decide +kernel
  · cases hr'
    decide +kernel

end Configuration
end CodecBuild
