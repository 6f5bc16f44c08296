import CodecBuild.Proofs.List.Traversal
import CodecBuild.Target.Order
import Mathlib.Data.List.Nodup
import Mathlib.Logic.Relation

/-!
Dependencies between targets. Targets are told apart by their places in the list, since names may
repeat; a dependency means the last target of its name. Where every dependency is a name of the
list, the nodes that the ordering starts with hold just these dependencies, and elsewhere there
are no nodes at all.
-/

namespace CodecBuild.Order

/-- The last target of a name, with its place. -/
def LastNamed (targets : List Target) (name : String) (u : Target × Nat) : Prop :=
  u ∈ targets.zipIdx ∧ u.1.name = name ∧ ∀ w ∈ targets.zipIdx, w.1.name = name → w.2 ≤ u.2

/-- The target `t` names a dependency, and `u` is the target that is meant. -/
def DependsOn (targets : List Target) (t u : Target × Nat) : Prop :=
  t ∈ targets.zipIdx ∧ ∃ d ∈ t.1.dependsOn, LastNamed targets d u

/-- Every dependency is the name of a target. -/
def Known (targets : List Target) : Prop :=
  ∀ t ∈ targets, ∀ d ∈ t.dependsOn, ∃ u ∈ targets, u.name = d

/-- No target depends on itself, be it by way of others. -/
def Acyclic (targets : List Target) : Prop :=
  ∀ t, ¬Relation.TransGen (DependsOn targets) t t

variable {targets : List Target}

theorem eq_of_mem_zipIdx {t u : Target × Nat} (ht : t ∈ targets.zipIdx) (hu : u ∈ targets.zipIdx)
    (h : t.2 = u.2) : t = u := by
  have ht := List.mem_zipIdx_iff_getElem?.mp ht
  have hu := List.mem_zipIdx_iff_getElem?.mp hu
  rw [h, hu] at ht
  exact Prod.ext (Option.some.inj ht).symm h

theorem nodup_zipIdx (targets : List Target) : targets.zipIdx.Nodup :=
  List.Nodup.of_map Prod.snd (by simpa using List.nodup_range')

theorem LastNamed.unique {name : String} {t u : Target × Nat} (ht : LastNamed targets name t)
    (hu : LastNamed targets name u) : t = u :=
  eq_of_mem_zipIdx ht.1 hu.1
    (Nat.le_antisymm (hu.2.2 t ht.1 ht.2.1) (ht.2.2 u hu.1 hu.2.1))

theorem DependsOn.mem_right {t u : Target × Nat} (h : DependsOn targets t u) :
    u ∈ targets.zipIdx := by
  obtain ⟨-, d, -, hu⟩ := h
  exact hu.1

/-! ### Looking names up -/

theorem place?_eq_none_iff {name : String} :
    place? name targets = none ↔ ∀ t ∈ targets, t.name ≠ name := by
  induction targets with
  | nil => simp [place?]
  | cons t rest ih =>
      simp only [place?, List.forall_mem_cons]
      cases h : place? name rest with
      | none => simpa using fun _ => ih.mp h
      | some i =>
          have hrest : ¬∀ t ∈ rest, t.name ≠ name := by
            rw [← ih, h]
            simp
          simp [hrest]

theorem getElem?_of_place? {name : String} {i : Nat} (h : place? name targets = some i) :
    (∃ t, targets[i]? = some t ∧ t.name = name) ∧
      ∀ j t, targets[j]? = some t → t.name = name → j ≤ i := by
  induction targets generalizing i with
  | nil => simp [place?] at h
  | cons t rest ih =>
      simp only [place?] at h
      cases hrest : place? name rest with
      | some k =>
          simp only [hrest, Option.some.injEq] at h
          subst h
          obtain ⟨hk, hlast⟩ := ih hrest
          refine ⟨by simpa using hk, ?_⟩
          intro j u hj hu
          cases j with
          | zero => omega
          | succ j => exact Nat.succ_le_succ (hlast j u (by simpa using hj) hu)
      | none =>
          have hnone := place?_eq_none_iff.mp hrest
          simp only [hrest, Option.ite_none_right_eq_some, Option.some.injEq] at h
          obtain ⟨ht, rfl⟩ := h
          refine ⟨⟨t, rfl, ht⟩, ?_⟩
          intro j u hj hu
          cases j with
          | zero => omega
          | succ j =>
              have hmem : u ∈ rest := List.mem_of_getElem? (by simpa using hj)
              exact (hnone u hmem hu).elim

theorem place?_eq_some_iff {name : String} {i : Nat} :
    place? name targets = some i ↔ ∃ t, LastNamed targets name (t, i) := by
  have hfound : ∀ {k}, place? name targets = some k → ∃ t, LastNamed targets name (t, k) := by
    intro k h
    obtain ⟨⟨t, ht, hname⟩, hlast⟩ := getElem?_of_place? h
    refine ⟨t, List.mem_zipIdx_iff_getElem?.mpr ht, hname, ?_⟩
    intro w hw
    exact hlast w.2 w.1 (List.mem_zipIdx_iff_getElem?.mp hw)
  refine ⟨hfound, ?_⟩
  intro h
  obtain ⟨t, ht⟩ := h
  cases hp : place? name targets with
  | none => exact (place?_eq_none_iff.mp hp t (List.fst_mem_of_mem_zipIdx ht.1) ht.2.1).elim
  | some k =>
      obtain ⟨u, hu⟩ := hfound hp
      exact congrArg (fun w => some w.2) (hu.unique ht)

theorem exists_place?_iff {name : String} :
    (∃ i, place? name targets = some i) ↔ ∃ u ∈ targets, u.name = name := by
  rw [← Option.isSome_iff_exists, ← Option.ne_none_iff_isSome, Ne, place?_eq_none_iff]
  simp

/-- The place that a dependency stands for, or what is wrong with it. -/
def placeOf (targets : List Target) (t : Target) (d : String) : Except OrderError Nat :=
  match place? d targets with
  | some i => .ok i
  | none => .error (.unknownDependency t.name d)

theorem placeOf_eq_ok_iff {t : Target} {d : String} {i : Nat} :
    placeOf targets t d = .ok i ↔ place? d targets = some i := by
  rw [placeOf]
  cases place? d targets <;> simp

theorem placeOf_eq_error_iff {t : Target} {d : String} {e : OrderError} :
    placeOf targets t d = .error e ↔
      place? d targets = none ∧ .unknownDependency t.name d = e := by
  rw [placeOf]
  cases place? d targets <;> simp

theorem depsOf_eq_mapM (targets : List Target) (t : Target) :
    depsOf targets t = t.dependsOn.names.mapM (placeOf targets t) := rfl

/-! ### The nodes -/

def depPlaces (targets : List Target) (t : Target) : List Nat :=
  t.dependsOn.names.filterMap (place? · targets)

def nodeOf (targets : List Target) (t : Target × Nat) : Node :=
  ⟨t.1, t.2, depPlaces targets t.1, (depPlaces targets t.1).length⟩

theorem nodup_depPlaces (targets : List Target) (t : Target) : (depPlaces targets t).Nodup := by
  have hnames : t.dependsOn.names.Nodup := by simpa using t.dependsOn.ascending.nodup
  refine hnames.filterMap ?_
  intro d d' i hd hd'
  obtain ⟨u, hu⟩ := place?_eq_some_iff.mp hd
  obtain ⟨u', hu'⟩ := place?_eq_some_iff.mp hd'
  have heq : u = u' := congrArg Prod.fst (eq_of_mem_zipIdx hu.1 hu'.1 rfl)
  exact hu.2.1.symm.trans (heq ▸ hu'.2.1)

theorem mem_depPlaces {t : Target × Nat} (ht : t ∈ targets.zipIdx) {j : Nat} :
    j ∈ depPlaces targets t.1 ↔ ∃ u, DependsOn targets t (u, j) := by
  simp only [depPlaces, List.mem_filterMap, place?_eq_some_iff, DependsOn, ht, true_and]
  constructor
  · rintro ⟨d, hd, u, hu⟩
    exact ⟨u, d, hd, hu⟩
  · rintro ⟨u, d, hd, hu⟩
    exact ⟨d, hd, u, hu⟩

theorem depsOf_eq_ok {t : Target} (h : ∀ d ∈ t.dependsOn, ∃ u ∈ targets, u.name = d) :
    depsOf targets t = .ok (depPlaces targets t) := by
  have hnames : ∀ d ∈ t.dependsOn.names, ∃ i, place? d targets = some i :=
    fun d hd => exists_place?_iff.mpr (h d hd)
  rw [depsOf, depPlaces]
  generalize t.dependsOn.names = names at hnames
  induction names with
  | nil => rfl
  | cons d ds ih =>
      obtain ⟨⟨i, hi⟩, hds⟩ := List.forall_mem_cons.mp hnames
      rw [List.mapM_cons, ih hds, List.filterMap_cons, hi]
      rfl

theorem nodes_of_known (h : Known targets) :
    nodes targets = .ok (targets.zipIdx.map (nodeOf targets)) := by
  apply mapM_eq_ok_map
  rintro ⟨t, i⟩ ht
  exact congrArg (Except.map _) (depsOf_eq_ok (h t (List.fst_mem_of_mem_zipIdx ht)))

theorem known_of_nodes {ns : List Node} (h : nodes targets = .ok ns) : Known targets := by
  intro t ht d hd
  obtain ⟨i, hi⟩ := List.mem_iff_getElem?.mp ht
  obtain ⟨v, hv⟩ := exists_ok_of_mapM h (t, i) (List.mem_zipIdx_iff_getElem?.mpr hi)
  cases hdeps : depsOf targets t with
  | error e => simp [hdeps, Except.map] at hv
  | ok deps =>
      rw [depsOf_eq_mapM] at hdeps
      obtain ⟨j, hj⟩ := exists_ok_of_mapM hdeps d hd
      exact exists_place?_iff.mp ⟨j, placeOf_eq_ok_iff.mp hj⟩

end CodecBuild.Order
