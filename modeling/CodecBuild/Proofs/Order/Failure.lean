import CodecBuild.Proofs.Name.ByteOrder
import CodecBuild.Proofs.Order.Existence

/-!
Why targets cannot be ordered. A dependency that is no target's name is reported before anything
else: of the targets with such a dependency the first, with the least of its own. Otherwise the
targets that are left over when nothing is ready any more are reported, and these are the targets
on a cycle and those that depend on one, each as often as its name occurs among them.
-/

namespace CodecBuild.Order

def Named (targets : List Target) (name : String) : Prop := ∃ u ∈ targets, u.name = name

/-- The first target with an unknown dependency, and the one with the least bytes of these. -/
structure FirstUnknown (targets : List Target) (t : Target) (d : String) : Prop where
  first : ∃ pre post, targets = pre ++ t :: post ∧
    ∀ u ∈ pre, ∀ e ∈ u.dependsOn, Named targets e
  mem : d ∈ t.dependsOn
  unknown : ¬Named targets d
  least : ∀ e ∈ t.dependsOn, Text.bytes e < Text.bytes d → Named targets e

/-- The names of all targets that are on a cycle or depend on one, in ascending order. -/
structure ListsCyclic (targets : List Target) (names : List String) : Prop where
  ascending : names.Pairwise fun m n => Text.bytes m ≤ Text.bytes n
  exact : ∃ stuck : List (Target × Nat), stuck.Nodup ∧
    (∀ t, t ∈ stuck ↔ t ∈ targets.zipIdx ∧ BehindCycle targets t) ∧
    names.Perm (stuck.map fun t => t.1.name)

/-- What the ordering can fail with. -/
inductive Failure (targets : List Target) : OrderError → Prop where
  | unknown {t : Target} {d : String} (first : FirstUnknown targets t d) :
      Failure targets (.unknownDependency t.name d)
  | cycle {names : List String} (known : Known targets) (cyclic : ¬Acyclic targets)
      (lists : ListsCyclic targets names) : Failure targets (.cycle names)

variable {targets : List Target} {e : OrderError}

/-! ### Unknown dependencies -/

theorem place?_eq_none_iff_not_named {d : String} : place? d targets = none ↔ ¬Named targets d := by
  simp [place?_eq_none_iff, Named]

theorem exists_depsOf_iff {t : Target} :
    (∃ deps, depsOf targets t = .ok deps) ↔ ∀ d ∈ t.dependsOn, Named targets d := by
  constructor
  · rintro ⟨deps, hdeps⟩ d hd
    rw [depsOf_eq_mapM] at hdeps
    obtain ⟨i, hi⟩ := exists_ok_of_mapM hdeps d hd
    exact exists_place?_iff.mp ⟨i, placeOf_eq_ok_iff.mp hi⟩
  · intro h
    exact ⟨_, depsOf_eq_ok h⟩

/-- The dependencies of a target are looked up in the order of their bytes. -/
theorem depsOf_eq_error_iff {t : Target} : depsOf targets t = .error e ↔
    ∃ d ∈ t.dependsOn, ¬Named targets d ∧
      (∀ d' ∈ t.dependsOn, Text.bytes d' < Text.bytes d → Named targets d') ∧
      .unknownDependency t.name d = e := by
  rw [depsOf_eq_mapM, mapM_eq_error_iff]
  simp only [placeOf_eq_ok_iff, placeOf_eq_error_iff, place?_eq_none_iff_not_named,
    exists_place?_iff]
  constructor
  · rintro ⟨pre, d, post, hnames, hpre, hd, rfl⟩
    have hascending := t.dependsOn.ascending
    rw [hnames] at hascending
    refine ⟨d, NameSet.mem_def.mpr (by simp [hnames]), hd, ?_, rfl⟩
    intro d' hd' hlt
    rw [NameSet.mem_def, hnames] at hd'
    exact hpre d' ((hascending.mem_front_iff hd').mpr (Text.bytes_lt_bytes_iff.mp hlt))
  · rintro ⟨d, hd, hunknown, hleast, rfl⟩
    have hascending := t.dependsOn.ascending
    obtain ⟨pre, post, hnames⟩ := List.append_of_mem (NameSet.mem_def.mp hd)
    rw [hnames] at hascending
    refine ⟨pre, d, post, hnames, ?_, hunknown, rfl⟩
    intro d' hd'
    have hmem : d' ∈ pre ++ d :: post := List.mem_append_left _ hd'
    exact hleast d' (NameSet.mem_def.mpr (hnames ▸ hmem))
      (Text.bytes_lt_bytes_iff.mpr ((hascending.mem_front_iff hmem).mp hd'))

theorem nodes_eq_error_iff : nodes targets = .error e ↔
    ∃ t d, FirstUnknown targets t d ∧ .unknownDependency t.name d = e := by
  rw [nodes, mapM_eq_error_iff]
  constructor
  · rintro ⟨pre, ⟨t, i⟩, post, hzip, hpre, ht⟩
    obtain ⟨d, hd, hunknown, hleast, rfl⟩ := depsOf_eq_error_iff.mp (map_eq_error_iff.mp ht)
    have htargets : targets = pre.map Prod.fst ++ t :: post.map Prod.fst := by
      simpa using congrArg (List.map Prod.fst) hzip
    refine ⟨t, d, ⟨⟨_, _, htargets, ?_⟩, hd, hunknown, hleast⟩, rfl⟩
    intro u hu
    obtain ⟨v, hv, rfl⟩ := List.mem_map.mp hu
    exact exists_depsOf_iff.mp (exists_map_eq_ok_iff.mp (hpre v hv))
  · rintro ⟨t, d, h, rfl⟩
    obtain ⟨pre, post, htargets, hpre⟩ := h.first
    have hzip : targets.zipIdx =
        pre.zipIdx ++ (t, pre.length) :: post.zipIdx (pre.length + 1) := by
      rw [htargets, List.zipIdx_append, List.zipIdx_cons, Nat.zero_add]
    refine ⟨_, _, _, hzip, ?_, ?_⟩
    · intro v hv
      have hdeps := exists_depsOf_iff.mpr (hpre v.1 (List.fst_mem_of_mem_zipIdx hv))
      exact exists_map_eq_ok_iff.mpr hdeps
    · exact map_eq_error_iff.mpr
        (depsOf_eq_error_iff.mpr ⟨d, h.mem, h.unknown, h.least, rfl⟩)

theorem FirstUnknown.order_eq {t : Target} {d : String} (h : FirstUnknown targets t d) :
    order targets = .error (.unknownDependency t.name d) := by
  rw [order, nodes_eq_error_iff.mpr ⟨t, d, h, rfl⟩]
  rfl

theorem exists_firstUnknown (h : ¬Known targets) : ∃ t d, FirstUnknown targets t d := by
  cases hns : nodes targets with
  | ok ns => exact (h (known_of_nodes hns)).elim
  | error e =>
      obtain ⟨t, d, hfirst, -⟩ := nodes_eq_error_iff.mp hns
      exact ⟨t, d, hfirst⟩

/-! ### Cycles -/

theorem ascending_mergeSort (names : List String) :
    (names.mergeSort (· ≤ ·)).Pairwise fun m n => Text.bytes m ≤ Text.bytes n := by
  have htrans : ∀ a b c : String, decide (a ≤ b) = true → decide (b ≤ c) = true →
      decide (a ≤ c) = true := by
    simpa using fun _ _ _ => String.le_trans
  have htotal : ∀ a b : String, (decide (a ≤ b) || decide (b ≤ a)) = true := by
    simpa using String.le_total
  simpa [Text.bytes_le_bytes_iff] using List.pairwise_mergeSort htrans htotal names

theorem eq_of_ascending {names names' : List String} (hperm : names.Perm names')
    (h : names.Pairwise fun m n => Text.bytes m ≤ Text.bytes n)
    (h' : names'.Pairwise fun m n => Text.bytes m ≤ Text.bytes n) : names = names' := by
  refine hperm.eq_of_pairwise ?_ h h'
  intro m n _ _ hmn hnm
  exact String.le_antisymm (Text.bytes_le_bytes_iff.mp hmn) (Text.bytes_le_bytes_iff.mp hnm)

namespace State.Invariant

variable {s : State}

/-- Once nothing is ready, what waits is on a cycle or depends on one, and what is placed is not:
all that a placed target leads to is placed as well. -/
theorem mem_waiting_iff (h : s.Invariant targets) (hready : s.ready = []) {t : Target × Nat}
    (ht : t ∈ targets.zipIdx) :
    t ∈ s.waiting.map Node.numbered ↔ BehindCycle targets t := by
  constructor
  · intro hwaiting
    obtain ⟨v, hv, rfl⟩ := List.mem_map.mp hwaiting
    exact h.behindCycle_of_waiting hready hv
  · rintro ⟨u, htu, hcycle⟩
    obtain ⟨v, hv, rfl⟩ := List.mem_map.mp (h.nodes_perm.mem_iff.mpr ht)
    simp only [nodes, hready, List.append_nil, List.mem_append] at hv
    cases hv with
    | inr hwaiting => exact List.mem_map_of_mem hwaiting
    | inl hplaced =>
        have hu : u ∈ s.done := by
          clear hcycle
          induction htu with
          | refl => exact List.mem_map_of_mem hplaced
          | tail _ hdep ih => exact h.follows.mem ih hdep
        exact (h.follows.not_transGen h.nodup_done hu hcycle).elim

theorem listsCyclic (h : s.Invariant targets) (hready : s.ready = []) :
    ListsCyclic targets ((s.waiting.map (·.target.name)).mergeSort (· ≤ ·)) where
  ascending := ascending_mergeSort _
  exact := by
    refine ⟨s.waiting.map Node.numbered, h.nodup_waiting, ?_, ?_⟩
    · intro t
      constructor
      · intro ht
        have hmem : t ∈ targets.zipIdx := by
          obtain ⟨v, hv, rfl⟩ := List.mem_map.mp ht
          exact h.numbered_mem (List.mem_append_right _ hv)
        exact ⟨hmem, (h.mem_waiting_iff hready hmem).mp ht⟩
      · intro ht
        exact (h.mem_waiting_iff hready ht.1).mpr ht.2
    · rw [List.map_map]
      exact List.mergeSort_perm ..

end State.Invariant

theorem ListsCyclic.unique {names names' : List String} (h : ListsCyclic targets names)
    (h' : ListsCyclic targets names') : names = names' := by
  obtain ⟨stuck, hn, hmem, hperm⟩ := h.exact
  obtain ⟨stuck', hn', hmem', hperm'⟩ := h'.exact
  have hstuck : stuck.Perm stuck' := by
    rw [List.perm_ext_iff_of_nodup hn hn']
    exact fun t => (hmem t).trans (hmem' t).symm
  have hnames : names.Perm names' := hperm.trans ((hstuck.map _).trans hperm'.symm)
  exact eq_of_ascending hnames h.ascending h'.ascending

theorem exists_order_eq_cycle (hknown : Known targets) (hcyclic : ¬Acyclic targets) :
    ∃ names, ListsCyclic targets names ∧ order targets = .error (.cycle names) := by
  obtain ⟨s, hs, hready, heq⟩ := exists_final_state hknown
  refine ⟨_, hs.listsCyclic hready, ?_⟩
  rw [heq, State.result, if_neg]
  intro hempty
  have harrangement := hs.arrangement hready (List.isEmpty_iff.mp hempty)
  exact hcyclic harrangement.acyclic

/-! ### All failures -/

theorem order_eq_error_iff : order targets = .error e ↔ Failure targets e := by
  constructor
  · intro h
    by_cases hknown : Known targets
    · by_cases hacyclic : Acyclic targets
      · obtain ⟨out, hout⟩ := exists_order hknown hacyclic
        rw [h] at hout
        cases hout
      · obtain ⟨names, hnames, heq⟩ := exists_order_eq_cycle hknown hacyclic
        rw [h] at heq
        cases heq
        exact .cycle hknown hacyclic hnames
    · obtain ⟨t, d, hfirst⟩ := exists_firstUnknown hknown
      have heq := hfirst.order_eq
      rw [h] at heq
      cases heq
      exact .unknown hfirst
  · intro h
    cases h with
    | unknown first => exact first.order_eq
    | cycle known cyclic lists =>
        obtain ⟨names, hnames, heq⟩ := exists_order_eq_cycle known cyclic
        rw [heq, lists.unique hnames]

/-- Why an ordering fails is determined by the targets. The first unknown dependency is reported,
whether or not there is a cycle as well. Where there is none, a cycle is reported with the names of
all targets that are on one or depend on one. -/
theorem order_failures_determined (targets : List Target) :
    (¬Known targets → ∃ t d, FirstUnknown targets t d ∧
      order targets = .error (.unknownDependency t.name d)) ∧
    (Known targets → ¬Acyclic targets → ∃ names, ListsCyclic targets names ∧
      order targets = .error (.cycle names)) ∧
    ∀ e, order targets = .error e ↔ Failure targets e := by
  refine ⟨?_, exists_order_eq_cycle, fun e => order_eq_error_iff⟩
  intro hunknown
  obtain ⟨t, d, hfirst⟩ := exists_firstUnknown hunknown
  exact ⟨t, d, hfirst, hfirst.order_eq⟩

/-- Two unknown dependencies of one target behind a cycle that is passed over; and a target that
depends on itself, one that depends on the other of its name, and those that lead to them. -/
theorem tangled_targets_reported :
    let dangling : List Target := [.executable "left" "right", .executable "right" "left",
      .ofKind .docs "docs" ["z", "y", "left"], .executable "late" "x"]
    let tangled : List Target := [.executable "zeta" "self", .library "core",
      .ofKind .library "twin" ["twin", "core"], .executable "viewer" "core",
      .ofKind .library "self" ["self"], { Target.ofKind .docs "twin" ["zeta"] with enabled := false }]
    (¬Known dangling ∧ (∃ t, t.name = "docs" ∧ FirstUnknown dangling t "y") ∧
      order dangling = .error (.unknownDependency "docs" "y")) ∧
    Known tangled ∧ ¬Acyclic tangled ∧ ListsCyclic tangled ["self", "twin", "twin", "zeta"] ∧
      order tangled = .error (.cycle ["self", "twin", "twin", "zeta"]) := by
  intro dangling tangled
  have hunknown : ¬Known dangling := by
    unfold Known
    decide
  have hknown : Known tangled := by
    unfold Known
    decide
  have hdangling : order dangling = .error (.unknownDependency "docs" "y") := by decide
  have hsorted : ["zeta", "twin", "self", "twin"].mergeSort (· ≤ ·) =
      ["self", "twin", "twin", "zeta"] :=
    eq_of_ascending ((List.mergeSort_perm ..).trans (by decide)) (ascending_mergeSort _) (by decide)
  have htangled : order tangled = .error (.cycle ["self", "twin", "twin", "zeta"]) := by
    rw [← hsorted]
    rfl
  have hcyclic : ¬Acyclic tangled := by
    intro hacyclic
    obtain ⟨out, hout⟩ := exists_order hknown hacyclic
    rw [htangled] at hout
    cases hout
  obtain ⟨t, d, hfirst, heq⟩ := (order_failures_determined dangling).1 hunknown
  obtain ⟨names, hnames, heq'⟩ := (order_failures_determined tangled).2.1 hknown hcyclic
  rw [hdangling, Except.error.injEq, OrderError.unknownDependency.injEq] at heq
  obtain ⟨hname, rfl⟩ := heq
  rw [htangled, Except.error.injEq, OrderError.cycle.injEq] at heq'
  exact ⟨⟨hunknown, ⟨t, hname.symm, hfirst⟩, hdangling⟩, hknown, hcyclic, heq' ▸ hnames, htangled⟩

end CodecBuild.Order
