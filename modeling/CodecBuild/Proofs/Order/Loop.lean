import CodecBuild.Proofs.Name.ByteOrder
import CodecBuild.Proofs.Order.Dependency
import CodecBuild.Proofs.Order.Greedy
import Mathlib.Data.Prod.Lex
import Mathlib.Data.String.Basic

/-!
The loop of the ordering. Every node is placed, ready or waiting; what a node is said to wait for
is the number of its dependencies that are not placed. So the ready nodes are the targets that
could come next, and the placed ones stand behind what they depend on, each the least of those
that could come when it came. The loop ends with no node ready.
-/

namespace CodecBuild.Order

/-- By the bytes of the names; of two targets of one name the earlier in the list comes first. -/
def Precedes (t u : Target × Nat) : Prop :=
  Text.bytes t.1.name < Text.bytes u.1.name ∨ t.1.name = u.1.name ∧ t.2 < u.2

/-- What targets are compared by, in a linear order. -/
def rank (t : Target × Nat) : String ×ₗ Nat := toLex (t.1.name, t.2)

theorem precedes_iff {t u : Target × Nat} : Precedes t u ↔ rank t < rank u := by
  simp only [Precedes, rank, Prod.Lex.toLex_lt_toLex, Text.bytes_lt_bytes_iff]

theorem eq_of_rank_eq {targets : List Target} {t u : Target × Nat} (ht : t ∈ targets.zipIdx)
    (hu : u ∈ targets.zipIdx) (h : rank t = rank u) : t = u :=
  eq_of_mem_zipIdx ht hu (congrArg (fun r => (ofLex r).2) h)

instance : Std.Asymm Precedes where
  asymm t u := by
    simp only [precedes_iff]
    exact fun h => h.asymm

namespace Node

variable {v w : Node} {p : Nat}

def numbered (v : Node) : Target × Nat := (v.target, v.position)

/-- How many dependencies are not at one of these places. -/
def missing (v : Node) (places : List Nat) : Nat := (v.deps.filter (· ∉ places)).length

theorem before_iff : v.before w = true ↔ rank v.numbered < rank w.numbered := by
  simp [before, rank, numbered, Prod.Lex.toLex_lt_toLex]

theorem numbered_settle (v : Node) (p : Nat) : (v.settle p).numbered = v.numbered := by
  simp only [settle]
  split <;> rfl

theorem deps_settle (v : Node) (p : Nat) : (v.settle p).deps = v.deps := by
  simp only [settle]
  split <;> rfl

theorem pending_settle (v : Node) (p : Nat) :
    (v.settle p).pending = if p ∈ v.deps then v.pending - 1 else v.pending := by
  simp only [settle]
  split <;> rfl

theorem missing_settle (v : Node) (p : Nat) (places : List Nat) :
    (v.settle p).missing places = v.missing places := by
  rw [missing, deps_settle, missing]

theorem missing_eq_zero_iff {places : List Nat} :
    v.missing places = 0 ↔ ∀ j ∈ v.deps, j ∈ places := by
  simp [missing]

theorem missing_snoc {places : List Nat} (hdeps : v.deps.Nodup) (hp : p ∉ places) :
    v.missing (places ++ [p]) =
      if p ∈ v.deps then v.missing places - 1 else v.missing places := by
  have herase : v.deps.filter (· ∉ places ++ [p]) = (v.deps.filter (· ∉ places)).erase p := by
    rw [(hdeps.filter _).erase_eq_filter, List.filter_filter]
    apply List.filter_congr
    intro j hj
    by_cases hjp : j = p <;> simp [hjp]
  rw [missing, herase, List.length_erase]
  simp [hp, missing]

theorem least_mem (v : Node) (ws : List Node) : v.least ws ∈ v :: ws := by
  induction ws generalizing v with
  | nil => simp [least]
  | cons w ws ih =>
      simp only [least]
      cases List.mem_cons.mp (ih (if w.before v then w else v)) with
      | inl h =>
          rw [h]
          split <;> simp
      | inr h => exact List.mem_cons_of_mem _ (List.mem_cons_of_mem _ h)

theorem rank_least_le (v : Node) (ws : List Node) :
    ∀ u ∈ v :: ws, rank (v.least ws).numbered ≤ rank u.numbered := by
  induction ws generalizing v with
  | nil => simp [least]
  | cons w ws ih =>
      simp only [least]
      split
      next h =>
        have hws := ih w
        have hv : rank w.numbered ≤ rank v.numbered := (before_iff.mp h).le
        exact List.forall_mem_cons.mpr ⟨(hws w List.mem_cons_self).trans hv, hws⟩
      next h =>
        obtain ⟨hv, hws⟩ := List.forall_mem_cons.mp (ih v)
        have hw : rank v.numbered ≤ rank w.numbered := not_lt.mp (mt before_iff.mpr h)
        exact List.forall_mem_cons.mpr ⟨hv, List.forall_mem_cons.mpr ⟨hv.trans hw, hws⟩⟩

end Node

namespace State

variable {targets : List Target} {s : State} {v : Node}

def nodes (s : State) : List Node := s.placed ++ s.ready ++ s.waiting

/-- The targets placed so far. -/
def done (s : State) : List (Target × Nat) := s.placed.map Node.numbered

def places (s : State) : List Nat := s.placed.map Node.position

/-- A step that places the ready node `v`. -/
def place (s : State) (v : Node) : State :=
  let settled := s.waiting.map (·.settle v.position)
  ⟨s.placed ++ [v], s.ready.erase v ++ settled.filter (·.pending = 0),
    settled.filter (·.pending ≠ 0)⟩

/-- A step places a ready node that no other precedes, if there is any. -/
theorem step_cases (s : State) :
    (s.ready = [] ∧ s.step = s) ∨
      ∃ v ∈ s.ready, (∀ u ∈ s.ready, rank v.numbered ≤ rank u.numbered) ∧ s.step = s.place v := by
  cases h : s.ready with
  | nil => exact .inl ⟨rfl, by simp [step, h]⟩
  | cons w rest =>
      exact .inr ⟨w.least rest, w.least_mem rest, w.rank_least_le rest, by simp [step, place, h]⟩

theorem filter_settled_perm (vs : List Node) :
    (vs.filter (·.pending = 0) ++ vs.filter (·.pending ≠ 0)).Perm vs := by
  simpa using List.filter_append_perm (fun v : Node => decide (v.pending = 0)) vs

theorem nodes_place_perm (hv : v ∈ s.ready) :
    (s.place v).nodes.Perm (s.placed ++ s.ready ++ s.waiting.map (·.settle v.position)) := by
  have hready : (v :: s.ready.erase v).Perm s.ready := (List.perm_cons_erase hv).symm
  have hsplit := filter_settled_perm (s.waiting.map (·.settle v.position))
  have hregroup : (s.place v).nodes = s.placed ++ (v :: s.ready.erase v) ++
      ((s.waiting.map (·.settle v.position)).filter (·.pending = 0) ++
        (s.waiting.map (·.settle v.position)).filter (·.pending ≠ 0)) := by
    simp [nodes, place]
  rw [hregroup]
  exact (hready.append_left s.placed).append hsplit

theorem mem_nodes_place (hv : v ∈ s.ready) {u : Node} (hu : u ∈ (s.place v).nodes) :
    u ∈ s.placed ++ s.ready ∨ ∃ w ∈ s.waiting, w.settle v.position = u := by
  cases List.mem_append.mp ((nodes_place_perm hv).mem_iff.mp hu) with
  | inl h => exact .inl h
  | inr h => exact .inr (List.mem_map.mp h)

theorem left_to_place (hv : v ∈ s.ready) :
    (s.place v).ready.length + (s.place v).waiting.length + 1 = s.ready.length + s.waiting.length := by
  have hlength := (nodes_place_perm hv).length_eq
  simp only [nodes, place, List.length_append, List.length_map, List.length_singleton] at hlength ⊢
  omega

/-- What every pass through the loop leaves true. -/
structure Invariant (targets : List Target) (s : State) : Prop where
  nodes_perm : (s.nodes.map Node.numbered).Perm targets.zipIdx
  nodup_deps : ∀ v ∈ s.nodes, v.deps.Nodup
  mem_deps : ∀ v ∈ s.nodes, ∀ j, j ∈ v.deps ↔ ∃ u, DependsOn targets v.numbered (u, j)
  pending : ∀ v ∈ s.nodes, v.pending = v.missing s.places
  let_go : ∀ v ∈ s.placed ++ s.ready, v.pending = 0
  held : ∀ v ∈ s.waiting, v.pending ≠ 0
  follows : Follows (DependsOn targets) s.done
  greedy : Greedy (DependsOn targets) Precedes targets.zipIdx s.done

namespace Invariant

theorem nodup (h : s.Invariant targets) : (s.nodes.map Node.numbered).Nodup :=
  h.nodes_perm.nodup_iff.mpr (nodup_zipIdx targets)

theorem nodup_done (h : s.Invariant targets) : s.done.Nodup := by
  have hn := h.nodup
  rw [nodes, List.map_append, List.map_append] at hn
  exact hn.of_append_left.of_append_left

theorem nodup_waiting (h : s.Invariant targets) : (s.waiting.map Node.numbered).Nodup := by
  have hn := h.nodup
  rw [nodes, List.map_append] at hn
  exact hn.of_append_right

theorem numbered_mem (h : s.Invariant targets) (hv : v ∈ s.nodes) :
    v.numbered ∈ targets.zipIdx :=
  h.nodes_perm.mem_iff.mp (List.mem_map_of_mem hv)

theorem ready_mem (h : s.Invariant targets) (hv : v ∈ s.ready) : v.numbered ∈ targets.zipIdx :=
  h.numbered_mem (List.mem_append_left _ (List.mem_append_right _ hv))

theorem mem_places_iff (h : s.Invariant targets) {t : Target × Nat} (ht : t ∈ targets.zipIdx) :
    t.2 ∈ s.places ↔ t ∈ s.done := by
  constructor
  · intro hp
    obtain ⟨v, hv, hpos⟩ := List.mem_map.mp hp
    have hmem := h.numbered_mem (List.mem_append_left _ (List.mem_append_left _ hv))
    exact eq_of_mem_zipIdx hmem ht hpos ▸ List.mem_map_of_mem hv
  · intro hd
    obtain ⟨v, hv, rfl⟩ := List.mem_map.mp hd
    exact List.mem_map_of_mem hv

/-- A node waits for nothing when all that its target depends on is placed. -/
theorem pending_eq_zero_iff (h : s.Invariant targets) (hv : v ∈ s.nodes) :
    v.pending = 0 ↔ ∀ u, DependsOn targets v.numbered u → u ∈ s.done := by
  rw [h.pending v hv, Node.missing_eq_zero_iff]
  constructor
  · intro hall u hu
    exact (h.mem_places_iff hu.mem_right).mp (hall u.2 ((h.mem_deps v hv u.2).mpr ⟨u.1, hu⟩))
  · intro hall j hj
    obtain ⟨u, hu⟩ := (h.mem_deps v hv j).mp hj
    exact (h.mem_places_iff hu.mem_right).mpr (hall (u, j) hu)

theorem not_mem_done_of_ready (h : s.Invariant targets) (hv : v ∈ s.ready) :
    v.numbered ∉ s.done := by
  have hn := h.nodup
  rw [nodes, List.map_append, List.map_append] at hn
  exact fun hd => (List.nodup_append.mp hn.of_append_left).2.2 _ hd _ (List.mem_map_of_mem hv) rfl

theorem position_fresh (h : s.Invariant targets) (hv : v ∈ s.ready) : v.position ∉ s.places :=
  fun hp => h.not_mem_done_of_ready hv ((h.mem_places_iff (h.ready_mem hv)).mp hp)

/-- The ready nodes are those of the targets that may come next. -/
theorem available_iff (h : s.Invariant targets) {t : Target × Nat} :
    Available (DependsOn targets) targets.zipIdx s.done t ↔ ∃ v ∈ s.ready, v.numbered = t := by
  constructor
  · intro ht
    obtain ⟨v, hv, rfl⟩ := List.mem_map.mp (h.nodes_perm.mem_iff.mpr ht.mem)
    have hzero : v.pending = 0 := (h.pending_eq_zero_iff hv).mpr ht.met
    cases List.mem_append.mp hv with
    | inr hw => exact (h.held v hw hzero).elim
    | inl hpr =>
        cases List.mem_append.mp hpr with
        | inl hp => exact (ht.fresh (List.mem_map_of_mem hp)).elim
        | inr hr => exact ⟨v, hr, rfl⟩
  · intro ht
    obtain ⟨v, hv, rfl⟩ := ht
    have hpr : v ∈ s.placed ++ s.ready := List.mem_append_right _ hv
    have hmem : v ∈ s.nodes := List.mem_append_left _ hpr
    exact ⟨h.numbered_mem hmem, h.not_mem_done_of_ready hv,
      (h.pending_eq_zero_iff hmem).mp (h.let_go v hpr)⟩

theorem done_place (s : State) (v : Node) : (s.place v).done = s.done ++ [v.numbered] := by
  simp [done, place]

theorem places_place (s : State) (v : Node) : (s.place v).places = s.places ++ [v.position] := by
  simp [places, place]

theorem place (h : s.Invariant targets) (hv : v ∈ s.ready)
    (hleast : ∀ u ∈ s.ready, rank v.numbered ≤ rank u.numbered) :
    (s.place v).Invariant targets where
  nodes_perm := by
    have hperm := (nodes_place_perm hv).map Node.numbered
    have hsame : (s.waiting.map (·.settle v.position)).map Node.numbered =
        s.waiting.map Node.numbered := by
      simp [Node.numbered_settle]
    rw [List.map_append, hsame, ← List.map_append] at hperm
    exact hperm.trans h.nodes_perm
  nodup_deps u hu := by
    obtain hu | ⟨w, hw, rfl⟩ := mem_nodes_place hv hu
    · exact h.nodup_deps u (List.mem_append_left _ hu)
    · rw [Node.deps_settle]
      exact h.nodup_deps w (List.mem_append_right _ hw)
  mem_deps u hu := by
    obtain hu | ⟨w, hw, rfl⟩ := mem_nodes_place hv hu
    · exact h.mem_deps u (List.mem_append_left _ hu)
    · rw [Node.deps_settle, Node.numbered_settle]
      exact h.mem_deps w (List.mem_append_right _ hw)
  pending u hu := by
    rw [places_place]
    obtain hu | ⟨w, hw, rfl⟩ := mem_nodes_place hv hu
    · -- Nothing was missing any more, and one more place cannot change that.
      have hnone := h.let_go u hu
      rw [h.pending u (List.mem_append_left _ hu), Node.missing_eq_zero_iff] at hnone
      rw [h.let_go u hu, eq_comm, Node.missing_eq_zero_iff]
      exact fun j hj => List.mem_append_left _ (hnone j hj)
    · have hmem : w ∈ s.nodes := List.mem_append_right _ hw
      rw [Node.pending_settle, Node.missing_settle, h.pending w hmem,
        Node.missing_snoc (h.nodup_deps w hmem) (h.position_fresh hv)]
  let_go u hu := by
    simp only [State.place, List.mem_append, List.mem_filter, decide_eq_true_eq] at hu
    obtain (hu | hu) | hu | hu := hu
    · exact h.let_go u (List.mem_append_left _ hu)
    · exact List.mem_singleton.mp hu ▸ h.let_go v (List.mem_append_right _ hv)
    · exact h.let_go u (List.mem_append_right _ (List.mem_of_mem_erase hu))
    · exact hu.2
  held u hu := by simpa using (List.mem_filter.mp hu).2
  follows := by
    rw [done_place]
    exact h.follows.snoc (h.available_iff.mpr ⟨v, hv, rfl⟩).met
  greedy := by
    rw [done_place]
    refine h.greedy.snoc ?_
    intro t ht
    obtain ⟨u, hu, rfl⟩ := h.available_iff.mp ht
    cases (hleast u hu).eq_or_lt with
    | inl heq => exact .inl (eq_of_rank_eq (h.ready_mem hu) (h.ready_mem hv) heq.symm)
    | inr hlt => exact .inr (precedes_iff.mpr hlt)

theorem step (h : s.Invariant targets) : s.step.Invariant targets := by
  obtain ⟨-, heq⟩ | ⟨v, hv, hleast, heq⟩ := s.step_cases
  · rwa [heq]
  · rw [heq]
    exact h.place hv hleast

theorem run (h : s.Invariant targets) (n : Nat) : (run n s).Invariant targets := by
  induction n generalizing s with
  | zero => exact h
  | succ n ih => exact ih h.step

/-- Before the first pass nothing is placed, so every dependency is still to come. -/
theorem start (targets : List Target) :
    (start (targets.zipIdx.map (nodeOf targets))).Invariant targets := by
  have hperm := filter_settled_perm (targets.zipIdx.map (nodeOf targets))
  have hnode : ∀ v ∈ (State.start (targets.zipIdx.map (nodeOf targets))).nodes,
      ∃ t ∈ targets.zipIdx, nodeOf targets t = v :=
    fun v hv => List.mem_map.mp (hperm.mem_iff.mp hv)
  refine ⟨?_, ?_, ?_, ?_, ?_, ?_, follows_nil, greedy_nil⟩
  · have hnumbered : (targets.zipIdx.map (nodeOf targets)).map Node.numbered = targets.zipIdx := by
      simp [Function.comp_def, Node.numbered, nodeOf]
    exact (hperm.map Node.numbered).trans (.of_eq hnumbered)
  · intro v hv
    obtain ⟨t, -, rfl⟩ := hnode v hv
    exact nodup_depPlaces targets t.1
  · intro v hv j
    obtain ⟨t, ht, rfl⟩ := hnode v hv
    exact mem_depPlaces ht
  · intro v hv
    obtain ⟨t, -, rfl⟩ := hnode v hv
    simp [nodeOf, Node.missing, places, State.start]
  · intro v hv
    simpa using (List.mem_filter.mp hv).2
  · intro v hv
    simpa using (List.mem_filter.mp hv).2

end Invariant

theorem run_of_ready_nil (h : s.ready = []) (n : Nat) : run n s = s := by
  induction n with
  | zero => rfl
  | succ n ih =>
      obtain ⟨-, heq⟩ | ⟨v, hv, -⟩ := s.step_cases
      · rw [run, heq, ih]
      · simp [h] at hv

/-- Every pass with a ready node leaves one node less, so the loop comes to an end. -/
theorem ready_run_eq_nil {n : Nat} (h : s.ready.length + s.waiting.length ≤ n) :
    (run n s).ready = [] := by
  induction n generalizing s with
  | zero => exact List.eq_nil_of_length_eq_zero (by rw [run]; omega)
  | succ n ih =>
      obtain ⟨hnil, -⟩ | ⟨v, hv, -, heq⟩ := s.step_cases
      · rwa [run_of_ready_nil hnil]
      · have hless := left_to_place hv
        rw [run, heq]
        exact ih (by omega)

end State

theorem ready_run_start_eq_nil (targets : List Target) :
    ((State.start (targets.zipIdx.map (nodeOf targets))).run targets.length).ready = [] := by
  have hlength := (State.Invariant.start targets).nodes_perm.length_eq
  apply State.ready_run_eq_nil
  simp only [State.nodes, List.length_map, List.length_append, List.length_zipIdx] at hlength
  omega

theorem order_of_known {targets : List Target} (h : Known targets) :
    order targets =
      ((State.start (targets.zipIdx.map (nodeOf targets))).run targets.length).result := by
  rw [order, nodes_of_known h]
  rfl

/-- Where every dependency is known, the answer is read off a state with no node ready. -/
theorem exists_final_state {targets : List Target} (h : Known targets) :
    ∃ s : State, s.Invariant targets ∧ s.ready = [] ∧ order targets = s.result :=
  ⟨_, (State.Invariant.start targets).run targets.length, ready_run_start_eq_nil targets,
    order_of_known h⟩

end CodecBuild.Order
