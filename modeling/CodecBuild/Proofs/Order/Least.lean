import CodecBuild.Proofs.Order.Existence

/-!
Which order the ordering chooses. The answer is greedy, so among all arrangements it is the first
in the lexicographic order of names and places. Where no name occurs twice the places drop out:
the answer is described by names alone, the description does not depend on how the list is
written down, and it fits one list only.
-/

namespace CodecBuild.Order

/-- Of the targets themselves, where no name occurs twice. -/
def Needs (targets : List Target) (t u : Target) : Prop := u ∈ targets ∧ u.name ∈ t.dependsOn

def NameLt (t u : Target) : Prop := t.name < u.name

instance : Std.Asymm NameLt where
  asymm _ _ h := String.lt_asymm h

/-- The greedy order, described without places. -/
structure ByName (targets out : List Target) : Prop where
  perm : out.Perm targets
  follows : Follows (Needs targets) out
  greedy : Greedy (Needs targets) NameLt targets out

variable {targets targets' out : List Target}

theorem Known.of_perm (h : Known targets) (hp : targets'.Perm targets) : Known targets' := by
  intro t ht d hd
  obtain ⟨u, hu, hname⟩ := h t (hp.mem_iff.mp ht) d hd
  exact ⟨u, hp.mem_iff.mpr hu, hname⟩

/-- The description sees the members of the list and not their order. -/
theorem ByName.of_perm (h : ByName targets out) (hp : targets'.Perm targets) :
    ByName targets' out where
  perm := h.perm.trans hp.symm
  follows pre t post heq u hu := h.follows pre t post heq u ⟨hp.mem_iff.mp hu.1, hu.2⟩
  greedy pre t post heq u hu :=
    h.greedy pre t post heq u ⟨hp.mem_iff.mp hu.mem, hu.fresh,
      fun w hw => hu.met w ⟨hp.mem_iff.mpr hw.1, hw.2⟩⟩

section Distinct

variable (hn : (targets.map Target.name).Nodup)
include hn

theorem eq_of_name_eq {t u : Target × Nat} (ht : t ∈ targets.zipIdx) (hu : u ∈ targets.zipIdx)
    (h : t.1.name = u.1.name) : t = u := by
  have hnames : (targets.zipIdx.map fun t => t.1.name).Nodup := by
    rwa [← Function.comp_def Target.name Prod.fst, ← List.map_map, List.zipIdx_map_fst]
  exact List.inj_on_of_nodup_map hnames ht hu h

theorem dependsOn_iff {t u : Target × Nat} (ht : t ∈ targets.zipIdx) (hu : u ∈ targets.zipIdx) :
    DependsOn targets t u ↔ u.1.name ∈ t.1.dependsOn := by
  constructor
  · intro h
    obtain ⟨-, d, hd, hlast⟩ := h
    exact hlast.2.1 ▸ hd
  · intro h
    refine ⟨ht, u.1.name, h, hu, rfl, ?_⟩
    intro w hw hname
    exact (congrArg Prod.snd (eq_of_name_eq hn hw hu hname)).le

theorem ByName.of_arrangement {ps : List (Target × Nat)} (h : Arrangement targets ps)
    (hg : Greedy (DependsOn targets) Precedes targets.zipIdx ps) :
    ByName targets (ps.map Prod.fst) where
  perm := by simpa using h.perm.map Prod.fst
  follows := by
    intro pre t post heq u hu
    obtain ⟨pre, rest, rfl, rfl, hrest⟩ := List.map_eq_append_iff.mp heq
    obtain ⟨t, post, rfl, rfl, rfl⟩ := List.map_eq_cons_iff.mp hrest
    have ht : t ∈ targets.zipIdx := h.perm.mem_iff.mp (by simp)
    obtain ⟨j, hj⟩ := List.mem_iff_getElem?.mp hu.1
    have hmem : (u, j) ∈ targets.zipIdx := List.mem_zipIdx_iff_getElem?.mpr hj
    have hdep := (dependsOn_iff hn ht hmem).mpr hu.2
    exact List.mem_map_of_mem (h.follows pre t post rfl (u, j) hdep)
  greedy := by
    intro pre t post heq u hu
    obtain ⟨pre, rest, rfl, rfl, hrest⟩ := List.map_eq_append_iff.mp heq
    obtain ⟨t, post, rfl, rfl, rfl⟩ := List.map_eq_cons_iff.mp hrest
    have ht : t ∈ targets.zipIdx := h.perm.mem_iff.mp (by simp)
    obtain ⟨j, hj⟩ := List.mem_iff_getElem?.mp hu.mem
    have hmem : (u, j) ∈ targets.zipIdx := List.mem_zipIdx_iff_getElem?.mpr hj
    have havailable : Available (DependsOn targets) targets.zipIdx pre (u, j) := by
      refine ⟨hmem, fun hpre => hu.fresh (List.mem_map_of_mem hpre), ?_⟩
      intro w hw
      have hneeds : Needs targets u w.1 :=
        ⟨List.fst_mem_of_mem_zipIdx hw.mem_right, (dependsOn_iff hn hmem hw.mem_right).mp hw⟩
      obtain ⟨w', hw', hname⟩ := List.mem_map.mp (hu.met w.1 hneeds)
      have hin : w' ∈ targets.zipIdx := h.perm.mem_iff.mp (List.mem_append_left _ hw')
      exact eq_of_name_eq hn hin hw.mem_right (congrArg Target.name hname) ▸ hw'
    cases hg pre t post rfl (u, j) havailable with
    | inl heq => exact .inl (congrArg Prod.fst heq)
    | inr hlt =>
        cases hlt with
        | inl hbytes => exact .inr (Text.bytes_lt_bytes_iff.mp hbytes)
        | inr htie => exact .inl (congrArg Prod.fst (eq_of_name_eq hn hmem ht htie.1.symm))

theorem ByName.acyclic (h : ByName targets out) : Acyclic targets := by
  refine acyclic_of_rank (fun t => out.idxOf t.1) ?_
  intro t u hdep
  have hneeds : Needs targets t.1 u.1 :=
    ⟨List.fst_mem_of_mem_zipIdx hdep.mem_right, (dependsOn_iff hn hdep.1 hdep.mem_right).mp hdep⟩
  have ht : t.1 ∈ out := h.perm.mem_iff.mpr (List.fst_mem_of_mem_zipIdx hdep.1)
  exact h.follows.idxOf_lt (h.perm.nodup_iff.mpr hn.of_map) ht hneeds

theorem ByName.unique {out' : List Target} (h : ByName targets out) (h' : ByName targets out') :
    out = out' :=
  h.greedy.unique hn.of_map h.perm h'.perm h.follows h'.follows h'.greedy

theorem order_eq_ok_iff_byName :
    order targets = .ok out ↔ Known targets ∧ ByName targets out := by
  have hbyName : ∀ {out}, order targets = .ok out → ByName targets out := by
    intro out h
    obtain ⟨ps, hps, hg, rfl⟩ := exists_greedy_of_order h
    exact .of_arrangement hn hps hg
  constructor
  · intro h
    exact ⟨known_of_order h, hbyName h⟩
  · intro h
    obtain ⟨out', hout'⟩ := exists_order h.1 (h.2.acyclic hn)
    exact (hbyName hout').unique hn h.2 ▸ hout'

theorem order_of_perm_eq_ok (h : order targets = .ok out) (hp : targets'.Perm targets) :
    order targets' = .ok out := by
  obtain ⟨hknown, hout⟩ := (order_eq_ok_iff_byName hn).mp h
  have hn' : (targets'.map Target.name).Nodup := (hp.map _).nodup_iff.mpr hn
  exact (order_eq_ok_iff_byName hn').mpr ⟨hknown.of_perm hp, hout.of_perm hp⟩

end Distinct

/-- The answer is the first of all arrangements, compared target by target by name and then by
place. Where no name occurs twice it does not depend on the order in which the targets are given,
and an answer is answered with itself. -/
theorem order_is_least (h : order targets = .ok out) :
    (∃ ps, Arrangement targets ps ∧ ps.map Prod.fst = out ∧
      ∀ qs, Arrangement targets qs → ps = qs ∨ List.Lex Precedes ps qs) ∧
    ((targets.map Target.name).Nodup →
      (∀ targets', targets'.Perm targets → order targets' = .ok out) ∧ order out = .ok out) := by
  constructor
  · obtain ⟨ps, hps, hg, hout⟩ := exists_greedy_of_order h
    refine ⟨ps, hps, hout, ?_⟩
    intro qs hqs
    exact hg.eq_or_lex (nodup_zipIdx targets) hps.perm hqs.perm hqs.follows
  · intro hn
    exact ⟨fun _ hp => order_of_perm_eq_ok hn h hp, order_of_perm_eq_ok hn h (perm_of_order h)⟩

/-- An executable comes before its library in the list, and a library with a small name behind
both. -/
theorem ties_broken_by_name :
    let targets : List Target := [.executable "zeta" "lib", .executable "alpha" "lib",
      .library "lib", .library "aardvark"]
    let out : List Target := [.library "aardvark", .library "lib", .executable "alpha" "lib",
      .executable "zeta" "lib"]
    order targets = .ok out ∧
      (∃ ps, Arrangement targets ps ∧ ps.map Prod.fst = out ∧
        ∀ qs, Arrangement targets qs → ps = qs ∨ List.Lex Precedes ps qs) ∧
      order targets.reverse = .ok out ∧ order out = .ok out := by
  intro targets out
  have hout : order targets = .ok out := by decide
  obtain ⟨hleast, hnames⟩ := order_is_least hout
  obtain ⟨hshuffled, hagain⟩ := hnames (by decide)
  exact ⟨hout, hleast, hshuffled _ targets.reverse_perm, hagain⟩

end CodecBuild.Order
