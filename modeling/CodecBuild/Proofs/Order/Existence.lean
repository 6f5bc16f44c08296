import CodecBuild.Proofs.Order.Loop
import Mathlib.Data.Fintype.Card
import Mathlib.Data.Set.Finite.List
import Mathlib.Order.WellFounded

/-!
When targets can be ordered. If nothing is ready while nodes wait, each of them depends on
another one that waits, and since they are finitely many there is a cycle among them. If on the
other hand there is an order at all, places decrease along dependencies and there is no cycle.
So the ordering succeeds exactly when all dependencies are known and none leads back to its
target, and what it then answers is the greedy order.
-/

namespace CodecBuild.Order

/-- All the targets, each behind the targets that it depends on. -/
structure Arrangement (targets : List Target) (ps : List (Target × Nat)) : Prop where
  perm : ps.Perm targets.zipIdx
  follows : Follows (DependsOn targets) ps

/-- A finite set that no way leads out of has a cycle on every way. -/
theorem exists_cycle {α : Type} {r : α → α → Prop} {xs : List α} (h : ∀ x ∈ xs, ∃ y ∈ xs, r x y)
    {x : α} (hx : x ∈ xs) : ∃ y, Relation.ReflTransGen r x y ∧ Relation.TransGen r y y := by
  by_contra hno
  have hacyclic : ∀ y, Relation.ReflTransGen r x y → ¬Relation.TransGen r y y :=
    fun y hy hcycle => hno ⟨y, hy, hcycle⟩
  -- Among the elements that `x` leads to, one leads to no other, yet `h` leads on from it.
  let Reached := { y // y ∈ xs ∧ Relation.ReflTransGen r x y }
  have hfinite : Finite Reached := (xs.finite_toSet.subset fun _ hy => hy.1).to_subtype
  let behind : Reached → Reached → Prop := fun b a => Relation.TransGen r a.1 b.1
  have htrans : IsTrans Reached behind := ⟨fun _ _ _ hab hbc => hbc.trans hab⟩
  have hirrefl : Std.Irrefl behind := ⟨fun a => hacyclic a.1 a.2.2⟩
  obtain ⟨a, -, hlast⟩ := (Finite.wellFounded_of_trans_of_irrefl behind).has_min Set.univ
    ⟨⟨x, hx, .refl⟩, trivial⟩
  obtain ⟨y, hy, hay⟩ := h a.1 a.2.1
  exact hlast ⟨y, hy, a.2.2.tail hay⟩ trivial (.single hay)

variable {targets : List Target} {s : State} {v : Node} {ps : List (Target × Nat)}

/-- Where nothing is ready, what waits depends on something else that waits. -/
theorem State.Invariant.exists_waiting_dep (h : s.Invariant targets) (hready : s.ready = [])
    (hv : v ∈ s.waiting) : ∃ w ∈ s.waiting, DependsOn targets v.numbered w.numbered := by
  have hopen := mt (h.pending_eq_zero_iff (List.mem_append_right _ hv)).mpr (h.held v hv)
  push Not at hopen
  obtain ⟨u, hu, hnot⟩ := hopen
  obtain ⟨w, hw, rfl⟩ := List.mem_map.mp (h.nodes_perm.mem_iff.mpr hu.mem_right)
  simp only [State.nodes, hready, List.append_nil, List.mem_append] at hw
  cases hw with
  | inl hplaced => exact (hnot (List.mem_map_of_mem hplaced)).elim
  | inr hwaiting => exact ⟨w, hwaiting, hu⟩

/-- The target depends on one that depends on itself, be it by way of others, or is such a one. -/
def BehindCycle (targets : List Target) (t : Target × Nat) : Prop :=
  ∃ u, Relation.ReflTransGen (DependsOn targets) t u ∧ Relation.TransGen (DependsOn targets) u u

theorem State.Invariant.behindCycle_of_waiting (h : s.Invariant targets) (hready : s.ready = [])
    (hv : v ∈ s.waiting) : BehindCycle targets v.numbered := by
  have hway : ∀ t ∈ s.waiting.map Node.numbered,
      ∃ u ∈ s.waiting.map Node.numbered, DependsOn targets t u := by
    intro t ht
    obtain ⟨w, hw, rfl⟩ := List.mem_map.mp ht
    obtain ⟨w', hw', hdep⟩ := h.exists_waiting_dep hready hw
    exact ⟨w'.numbered, List.mem_map_of_mem hw', hdep⟩
  exact exists_cycle hway (List.mem_map_of_mem hv)

theorem State.Invariant.waiting_eq_nil (h : s.Invariant targets) (hready : s.ready = [])
    (hacyclic : Acyclic targets) : s.waiting = [] := by
  apply List.eq_nil_iff_forall_not_mem.mpr
  intro v hv
  obtain ⟨t, -, hcycle⟩ := h.behindCycle_of_waiting hready hv
  exact hacyclic t hcycle

theorem State.Invariant.arrangement (h : s.Invariant targets) (hready : s.ready = [])
    (hwaiting : s.waiting = []) : Arrangement targets s.done where
  perm := by
    have hperm := h.nodes_perm
    rwa [State.nodes, hready, hwaiting, List.append_nil, List.append_nil] at hperm
  follows := h.follows

theorem acyclic_of_rank {β : Type} [Preorder β] (rank : Target × Nat → β)
    (h : ∀ t u, DependsOn targets t u → rank u < rank t) : Acyclic targets := by
  have hdecreases : ∀ t u, Relation.TransGen (DependsOn targets) t u → rank u < rank t := by
    intro t u htu
    induction htu with
    | single hdep => exact h _ _ hdep
    | tail _ hdep ih => exact (h _ _ hdep).trans ih
  exact fun t hcycle => lt_irrefl _ (hdecreases t t hcycle)

theorem mem_of_transGen {t u : Target × Nat}
    (h : Relation.TransGen (DependsOn targets) t u) : t ∈ targets.zipIdx := by
  obtain ⟨w, hdep, -⟩ := Relation.TransGen.head'_iff.mp h
  exact hdep.1

theorem Arrangement.acyclic (h : Arrangement targets ps) : Acyclic targets := by
  have hnodup : ps.Nodup := h.perm.nodup_iff.mpr (nodup_zipIdx targets)
  intro t hcycle
  exact h.follows.not_transGen hnodup (h.perm.mem_iff.mpr (mem_of_transGen hcycle)) hcycle

theorem known_of_order {out : List Target} (h : order targets = .ok out) : Known targets := by
  cases hns : nodes targets with
  | error e => simp [order, hns, bind, Except.bind] at h
  | ok ns => exact known_of_nodes hns

theorem exists_order (hknown : Known targets) (hacyclic : Acyclic targets) :
    ∃ out, order targets = .ok out := by
  obtain ⟨s, hs, hready, heq⟩ := exists_final_state hknown
  refine ⟨s.placed.map Node.target, ?_⟩
  simp [heq, State.result, hs.waiting_eq_nil hready hacyclic]

theorem exists_greedy_of_order {out : List Target} (h : order targets = .ok out) :
    ∃ ps, Arrangement targets ps ∧ Greedy (DependsOn targets) Precedes targets.zipIdx ps ∧
      ps.map Prod.fst = out := by
  obtain ⟨s, hs, hready, heq⟩ := exists_final_state (known_of_order h)
  rw [heq, State.result] at h
  split at h
  next hempty =>
    refine ⟨s.done, hs.arrangement hready (List.isEmpty_iff.mp hempty), hs.greedy, ?_⟩
    simpa [State.done, Function.comp_def, Node.numbered] using h
  next => cases h

theorem perm_of_order {out : List Target} (h : order targets = .ok out) : out.Perm targets := by
  obtain ⟨ps, hps, -, rfl⟩ := exists_greedy_of_order h
  simpa using hps.perm.map Prod.fst

/-- Targets that are built in stages can be ordered. -/
theorem exists_order_of_stages (stage : Target → Nat) (hknown : Known targets)
    (h : ∀ t ∈ targets, ∀ u ∈ targets, u.name ∈ t.dependsOn → stage u < stage t) :
    ∃ out, order targets = .ok out := by
  refine exists_order hknown (acyclic_of_rank (fun t => stage t.1) ?_)
  intro t u hdep
  obtain ⟨ht, d, hd, hu, rfl, -⟩ := hdep
  exact h t.1 (List.fst_mem_of_mem_zipIdx ht) u.1 (List.fst_mem_of_mem_zipIdx hu) hd

/-- Ordering succeeds exactly when every dependency is a target's name and no target depends on
itself in the end. It answers with the targets it was given, each behind those it depends on. -/
theorem order_arranges_iff_acyclic (targets : List Target) :
    ((∃ out, order targets = .ok out) ↔ Known targets ∧ Acyclic targets) ∧
      ∀ out, order targets = .ok out →
        out.Perm targets ∧ ∃ ps, Arrangement targets ps ∧ ps.map Prod.fst = out := by
  constructor
  · constructor
    · intro h
      obtain ⟨out, hout⟩ := h
      obtain ⟨ps, hps, -⟩ := exists_greedy_of_order hout
      exact ⟨known_of_order hout, hps.acyclic⟩
    · intro h
      exact exists_order h.1 h.2
  · intro out hout
    obtain ⟨ps, hps, -, hfst⟩ := exists_greedy_of_order hout
    exact ⟨perm_of_order hout, ps, hps, hfst⟩

/-- Of two libraries of one name, a disabled one behind the other, the last is meant. -/
theorem repeated_names_arranged :
    let targets : List Target :=
      [.executable "app" "lib", .library "lib", { Target.library "lib" with enabled := false }]
    let out : List Target :=
      [.library "lib", { Target.library "lib" with enabled := false }, .executable "app" "lib"]
    order targets = .ok out ∧ Known targets ∧ Acyclic targets ∧ out.Perm targets ∧
      ∃ ps, Arrangement targets ps ∧ ps.map Prod.fst = out := by
  intro targets out
  have hout : order targets = .ok out := by decide
  obtain ⟨hknown, hacyclic⟩ := (order_arranges_iff_acyclic targets).1.mp ⟨out, hout⟩
  obtain ⟨hperm, hps⟩ := (order_arranges_iff_acyclic targets).2 out hout
  exact ⟨hout, hknown, hacyclic, hperm, hps⟩

end CodecBuild.Order
