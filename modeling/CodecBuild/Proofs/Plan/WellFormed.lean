import CodecBuild.Proofs.Order.Least
import CodecBuild.Proofs.Plan.Members
import CodecBuild.Proofs.Resolution.Editing

/-!
Well-formed plans. No two targets of a plan have one name, so the order of the plan is described by
names alone: whatever is needed stands in front, and of what could come next the least name comes.
The tests need all that is compiled, and the documents have the smaller name; so the tests come
last.
-/

namespace CodecBuild

/-- A plan as it should be for a configuration, on a host with Doxygen or without. -/
structure Plan.WellFormed (plan : Plan) (c : Configuration) (doxygen : Bool) : Prop where
  distinct : plan.names.Nodup
  core : "openjpeg" ∈ plan.names
  earlier : ∀ pre t post, plan.targets = pre ++ t :: post →
    ∀ d ∈ t.dependsOn, ∃ u ∈ pre, u.name = d
  linked : ∀ t ∈ plan.targets, t.kind = .executable →
    ∃ u ∈ plan.targets, u.kind = .library ∧ t.dependsOn.names = [u.name]
  enabled : ∀ t ∈ plan.targets, t.enabled = true
  tested : (∃ t ∈ plan.targets, t.kind = .test) ↔ c.flags.get? .buildTesting = some (.bool true)
  testLast : ∀ t ∈ plan.targets, t.kind = .test → plan.targets.getLast? = some t
  testNeeds : ∀ t ∈ plan.targets, t.kind = .test → ∀ d, d ∈ t.dependsOn ↔
    ∃ u ∈ plan.targets, (u.kind = .library ∨ u.kind = .executable) ∧ u.name = d
  testSpares : ∀ t ∈ plan.targets, t.kind = .test →
    ∀ u ∈ plan.targets, u.kind = .docs → u.name ∉ t.dependsOn
  testInputs : ∀ t ∈ plan.targets, t.kind = .test → ∃ q,
    c.flags.get? .conformanceDataRoot = some (.path q) ∧ q.text ≠ "" ∧ t.inputs = [q]
  otherInputs : ∀ t ∈ plan.targets, t.kind ≠ .test → t.inputs = []
  documented : (∃ t ∈ plan.targets, t.kind = .docs) ↔
    c.flags.get? .buildDoc = some (.bool true) ∧ doxygen = true
  skipped : .docsSkipped ∈ plan.advisories ↔
    c.flags.get? .buildDoc = some (.bool true) ∧ doxygen = false

namespace Component

theorem kind_of_compilable {t : Target} (h : t ∈ compilable) :
    (t.kind = .library ∨ t.kind = .executable) ∧ t.enabled = true ∧ t.inputs = [] := by
  revert t
  decide

theorem exists_linked {k : Component} (h : k ∈ all) :
    ∃ u ∈ Target.library coreLibrary :: k.targets, u.kind = .library ∧ u.name = k.links := by
  revert k
  decide

theorem dependsOn_executable {k : Component} {t : Target} (h : t ∈ k.targets)
    (hkind : t.kind = .executable) : t.dependsOn.names = [k.links] := by
  obtain h | h := List.mem_append.mp h
  · obtain ⟨n, -, rfl⟩ := List.mem_map.mp h
    cases hkind
  · obtain ⟨n, -, rfl⟩ := List.mem_map.mp h
    rfl

end Component

namespace Configuration

variable {c : Configuration} {doxygen : Bool} {t : Target}

theorem components_sublist (c : Configuration) : c.components.Sublist Component.all := by
  have htable : ∀ b, ((Component.optional b).map Prod.snd).Sublist Component.all := by
    intro b
    cases b <;> decide
  exact (List.filter_sublist.map Prod.snd).trans (htable c.backend)

theorem nodup_names (c : Configuration) (doxygen : Bool) :
    ((c.targets doxygen).map Target.name).Nodup := by
  have hcompiled : c.compiledTargets.Sublist Component.compilable :=
    (c.components_sublist.flatMap Component.targets).cons_cons _
  have hdocs : ((c.docsTargets doxygen).map Target.name).Sublist ["docs"] := by
    rw [docsTargets]
    split
    · exact .refl _
    · exact List.nil_sublist _
  have htest : (c.testTargets.map Target.name).Sublist ["test"] := by
    rw [testTargets]
    split
    · exact .refl _
    · exact List.nil_sublist _
  have hall : (Component.compilable.map Target.name ++ ["docs"] ++ ["test"]).Nodup := by decide
  rw [targets, List.map_append, List.map_append]
  exact hall.sublist (((hcompiled.map Target.name).append hdocs).append htest)

theorem kind_of_compiled (h : t ∈ c.compiledTargets) :
    (t.kind = .library ∨ t.kind = .executable) ∧ t.enabled = true ∧ t.inputs = [] :=
  Component.kind_of_compilable (mem_compilable h)

/-- The other kinds tell what is planned apart from what is compiled. -/
theorem mem_compiled_iff (h : t ∈ c.targets doxygen) :
    t ∈ c.compiledTargets ↔ t.kind = .library ∨ t.kind = .executable := by
  constructor
  · intro ht
    exact (kind_of_compiled ht).1
  · intro hkind
    obtain ht | ⟨-, hdocs, -⟩ | ⟨-, htest, -⟩ := mem_targets_cases h
    · exact ht
    · simp [hdocs] at hkind
    · simp [htest] at hkind

theorem mem_docs_of_kind (h : t ∈ c.targets doxygen) (hkind : t.kind = .docs) :
    t ∈ c.docsTargets doxygen := by
  obtain ht | ht | ht := mem_targets.mp h
  · have hcompiled := (kind_of_compiled ht).1
    simp [hkind] at hcompiled
  · exact ht
  · obtain ⟨-, rfl⟩ := mem_testTargets.mp ht
    cases hkind

theorem mem_tests_of_kind (h : t ∈ c.targets doxygen) (hkind : t.kind = .test) :
    t ∈ c.testTargets := by
  obtain ht | ht | ht := mem_targets.mp h
  · have hcompiled := (kind_of_compiled ht).1
    simp [hkind] at hcompiled
  · obtain ⟨-, rfl⟩ := mem_docsTargets.mp ht
    cases hkind
  · exact ht

theorem exists_docs_iff : (∃ t ∈ c.targets doxygen, t.kind = .docs) ↔
    c.isOn .buildDoc = true ∧ doxygen = true := by
  constructor
  · rintro ⟨t, ht, hkind⟩
    exact (mem_docsTargets.mp (mem_docs_of_kind ht hkind)).1
  · intro h
    exact ⟨_, mem_targets.mpr (.inr (.inl (mem_docsTargets.mpr ⟨h, rfl⟩))), rfl⟩

theorem exists_test_iff :
    (∃ t ∈ c.targets doxygen, t.kind = .test) ↔ c.isOn .buildTesting = true := by
  constructor
  · rintro ⟨t, ht, hkind⟩
    exact (mem_testTargets.mp (mem_tests_of_kind ht hkind)).1
  · intro h
    exact ⟨_, mem_targets.mpr (.inr (.inr (mem_testTargets.mpr ⟨h, rfl⟩))), rfl⟩

theorem exists_linked (h : t ∈ c.targets doxygen) (hkind : t.kind = .executable) :
    ∃ u ∈ c.targets doxygen, u.kind = .library ∧ t.dependsOn.names = [u.name] := by
  have hcompiled := (mem_compiled_iff h).mpr (.inr hkind)
  obtain rfl | ⟨k, hk, ht⟩ := mem_compiledTargets.mp hcompiled
  · cases hkind
  · obtain ⟨u, hu, hlibrary, hname⟩ := Component.exists_linked (mem_all_of_components hk)
    refine ⟨u, mem_targets_of_compiled (mem_compiledTargets.mpr ?_), hlibrary, ?_⟩
    · obtain hu | hu := List.mem_cons.mp hu
      · exact .inl hu
      · exact .inr ⟨k, hk, hu⟩
    · rw [Component.dependsOn_executable ht hkind, hname]

theorem mem_test_dependsOn_iff (h : t ∈ c.targets doxygen) (hkind : t.kind = .test) {d : String} :
    d ∈ t.dependsOn ↔
      ∃ u ∈ c.targets doxygen, (u.kind = .library ∨ u.kind = .executable) ∧ u.name = d := by
  obtain ⟨-, rfl⟩ := mem_testTargets.mp (mem_tests_of_kind h hkind)
  have hdeps : d ∈ NameSet.ofList (c.compiledTargets.map Target.name) ↔
      ∃ u ∈ c.compiledTargets, u.name = d := by
    rw [NameSet.mem_ofList, List.mem_map]
  refine hdeps.trans ?_
  constructor
  · rintro ⟨u, hu, hname⟩
    exact ⟨u, mem_targets_of_compiled hu, (kind_of_compiled hu).1, hname⟩
  · rintro ⟨u, hu, hcompiled, hname⟩
    exact ⟨u, (mem_compiled_iff hu).mpr hcompiled, hname⟩

variable {plan : Plan}

theorem order_of_plan (h : c.plan doxygen = .ok plan) :
    order (c.targets doxygen) = .ok plan.targets ∧
      plan.advisories = if c.isOn .buildDoc && !doxygen then [.docsSkipped] else [] := by
  rw [Configuration.plan] at h
  cases hout : order (c.targets doxygen) with
  | error e =>
      rw [hout] at h
      cases h
  | ok out =>
      rw [hout] at h
      cases h
      exact ⟨rfl, rfl⟩

theorem byName_of_plan (h : c.plan doxygen = .ok plan) :
    Order.ByName (c.targets doxygen) plan.targets :=
  ((Order.order_eq_ok_iff_byName (c.nodup_names doxygen)).mp (order_of_plan h).1).2

theorem exists_earlier (h : c.plan doxygen = .ok plan) {pre post : List Target}
    (hsplit : plan.targets = pre ++ t :: post) {d : String} (hd : d ∈ t.dependsOn) :
    ∃ u ∈ pre, u.name = d := by
  have ht : t ∈ c.targets doxygen := (plan_perm h).mem_iff.mp (by simp [hsplit])
  obtain ⟨u, hu, rfl⟩ := c.known_targets doxygen t ht d hd
  exact ⟨u, (byName_of_plan h).follows pre t post hsplit u ⟨hu, hd⟩, rfl⟩

/-- Nothing stands behind the tests. What is compiled stands in front of them, since they need it.
The documents could come at any time, and their name is less. -/
theorem tests_come_last (h : c.plan doxygen = .ok plan) {pre post : List Target}
    (hsplit : plan.targets = pre ++ t :: post) (hkind : t.kind = .test) : post = [] := by
  have hmem : ∀ u, u ∈ pre ++ t :: post ↔ u ∈ c.targets doxygen := fun u =>
    hsplit ▸ (plan_perm h).mem_iff
  have hnames : ((pre ++ t :: post).map Target.name).Nodup :=
    (hsplit ▸ (plan_perm h).map Target.name).nodup_iff.mpr (c.nodup_names doxygen)
  have hnodup : (pre ++ t :: post).Nodup := hnames.of_map
  have ht : t ∈ c.targets doxygen := (hmem t).mp (by simp)
  rw [List.eq_nil_iff_forall_not_mem]
  intro u hu
  have hfresh : u ∉ pre := fun hpre =>
    (List.nodup_append.mp hnodup).2.2 u hpre u (List.mem_cons_of_mem _ hu) rfl
  have hne : u ≠ t := fun he =>
    (List.nodup_cons.mp (List.nodup_append.mp hnodup).2.1).1 (he ▸ hu)
  have hplanned : u ∈ c.targets doxygen := (hmem u).mp (by simp [hu])
  obtain hcompiled | hdocs | htest := mem_targets.mp hplanned
  · have hneeds := (mem_test_dependsOn_iff ht hkind).mpr
      ⟨u, hplanned, (kind_of_compiled hcompiled).1, rfl⟩
    exact hfresh ((byName_of_plan h).follows pre t post hsplit u ⟨hplanned, hneeds⟩)
  · obtain ⟨-, rfl⟩ := mem_docsTargets.mp hdocs
    obtain ⟨-, rfl⟩ := mem_testTargets.mp (mem_tests_of_kind ht hkind)
    have havailable : Order.Available (Order.Needs (c.targets doxygen)) (c.targets doxygen) pre
        (.ofKind .docs "docs" []) := by
      refine ⟨hplanned, hfresh, ?_⟩
      rintro w ⟨-, hw⟩
      simp [Target.ofKind, NameSet.mem_ofList] at hw
    obtain he | hlt := (byName_of_plan h).greedy pre _ post hsplit _ havailable
    · exact hne he
    · have hname : ¬"test" < "docs" := by decide
      exact hname hlt
  · obtain ⟨-, rfl⟩ := mem_testTargets.mp htest
    obtain ⟨-, rfl⟩ := mem_testTargets.mp (mem_tests_of_kind ht hkind)
    exact hne rfl

/-- Where a plan is made, all but the data for the tests is as it should be. -/
theorem wellFormed_of_plan (h : c.plan doxygen = .ok plan)
    (hdata : c.isOn .buildTesting = true → ∃ q, c.dataRoot? = some q) :
    plan.WellFormed c doxygen := by
  have hperm := plan_perm h
  have hmem : ∀ u, u ∈ plan.targets ↔ u ∈ c.targets doxygen := fun u => hperm.mem_iff
  have hdistinct : plan.names.Nodup :=
    (hperm.map Target.name).nodup_iff.mpr (c.nodup_names doxygen)
  exact {
    distinct := hdistinct
    core := by
      have hcore : Target.library Component.coreLibrary ∈ plan.targets :=
        (hmem _).mpr (mem_targets_of_compiled (mem_compiledTargets.mpr (.inl rfl)))
      exact List.mem_map_of_mem hcore
    earlier := fun pre t post hsplit d hd => exists_earlier h hsplit hd
    linked := by
      intro t ht hkind
      obtain ⟨u, hu, hlinked⟩ := exists_linked ((hmem t).mp ht) hkind
      exact ⟨u, (hmem u).mpr hu, hlinked⟩
    enabled := by
      intro t ht
      obtain ht | ht | ht := mem_targets.mp ((hmem t).mp ht)
      · exact (kind_of_compiled ht).2.1
      · obtain ⟨-, rfl⟩ := mem_docsTargets.mp ht
        rfl
      · obtain ⟨-, rfl⟩ := mem_testTargets.mp ht
        rfl
    tested := by
      simp only [hmem, exists_test_iff]
      exact Assignment.isOn_iff
    testLast := by
      intro t ht hkind
      obtain ⟨pre, post, hsplit⟩ := List.append_of_mem ht
      rw [hsplit, tests_come_last h hsplit hkind]
      exact List.getLast?_concat
    testNeeds := by
      intro t ht hkind d
      simp only [hmem]
      exact mem_test_dependsOn_iff ((hmem t).mp ht) hkind
    testSpares := by
      intro t ht hkind u hu hdocs hneeds
      rw [mem_test_dependsOn_iff ((hmem t).mp ht) hkind] at hneeds
      obtain ⟨w, hw, hcompiled, hname⟩ := hneeds
      have hsame : w = u := List.inj_on_of_nodup_map hdistinct ((hmem w).mpr hw) hu hname
      simp [hsame, hdocs] at hcompiled
    testInputs := by
      intro t ht hkind
      obtain ⟨hon, rfl⟩ := mem_testTargets.mp (mem_tests_of_kind ((hmem t).mp ht) hkind)
      obtain ⟨q, hq⟩ := hdata hon
      obtain ⟨hget, hnonempty⟩ := Assignment.path?_eq_some_iff.mp hq
      exact ⟨q, hget, hnonempty, by simp [hq]⟩
    otherInputs := by
      intro t ht hkind
      obtain ht | ht | ht := mem_targets.mp ((hmem t).mp ht)
      · exact (kind_of_compiled ht).2.2
      · obtain ⟨-, rfl⟩ := mem_docsTargets.mp ht
        rfl
      · obtain ⟨-, rfl⟩ := mem_testTargets.mp ht
        exact (hkind rfl).elim
    documented := by
      simp only [hmem, exists_docs_iff]
      exact and_congr_left' Assignment.isOn_iff
    skipped := by
      rw [(order_of_plan h).2, ← Assignment.isOn_iff]
      cases doxygen <;> simp [isOn] }

end Configuration

/-- Whatever is granted has a plan on every host, and the plan is as it should be. -/
theorem granted_plan_wellFormed {p : Platform} {b : Backend} {o : Overrides} {r : Resolution}
    (h : resolve p b o = .ok r) (doxygen : Bool) :
    ∃ plan, r.config.plan doxygen = .ok plan ∧ plan.WellFormed r.config doxygen := by
  obtain ⟨plan, hplan, -⟩ := r.config.exists_plan doxygen
  refine ⟨plan, hplan, Configuration.wellFormed_of_plan hplan ?_⟩
  intro htesting
  have hlegal := legal_of_resolve h
  rw [config_of_resolve h] at htesting ⊢
  rw [← Option.ne_none_iff_exists']
  intro hnone
  exact hlegal.dataRoot (Assignment.isOn_iff.mp htesting)
    ((Overrides.lacksPath_iff rfl).mpr hnone)

/-- All parts with documents and tests, on data at a path that looks like another flag's entry. -/
theorem full_plan_wellFormed :
    let o : Overrides := .ofList [("BUILD_DOC", .bool true), ("BUILD_INDEXER_JPIP", .text "y"),
      ("BUILD_JP3D", .text "on"), ("BUILD_JPWL", .text "1"), ("BUILD_MJ2", .text "Yes"),
      ("BUILD_TESTING", .text "TRUE"), ("JPEG2000_CONFORMANCE_DATA_ROOT", .text "BUILD_DOC=OFF")]
    ∃ r plan, resolve .winNative .cmake o = .ok r ∧ r.config.plan true = .ok plan ∧
      plan.names = ["docs", "openjp3dvm", "jp3d_to_volume", "openjpeg", "extract_j2k_from_mj2",
        "frames_to_mj2", "image_to_j2k", "index_create", "j2k_dump", "j2k_to_image", "mj2_to_frames",
        "openjpeg_JPWL", "JPWL_image_to_j2k", "JPWL_j2k_to_image", "volume_to_jp3d",
        "wrap_j2k_in_mj2", "test"] ∧
      plan.WellFormed r.config true := by
  intro o
  obtain ⟨r, hr⟩ : ∃ r, resolve .winNative .cmake o = .ok r := ⟨_, rfl⟩
  obtain ⟨plan, hplan, hformed⟩ := granted_plan_wellFormed hr true
  refine ⟨r, plan, hr, hplan, Configuration.names_of_plan hplan ?_, hformed⟩
  cases hr
  decide +kernel

end CodecBuild
