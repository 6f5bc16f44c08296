import CodecBuild.Proofs.Order.Loop
import Mathlib.Data.Set.Card

/-!
The tally of the ordering. Between two passes of the loop every node is placed, ready or waiting,
and has the number of its dependencies that are still to come. A pass takes one off this number
for each node that depends on the node it places, and whatever it takes off is there: a node that
depends on another cannot have been let go before that one is placed. So nothing becomes ready
twice, and each pass brings the loop nearer to its end.
-/

namespace CodecBuild.Order

namespace State

variable {targets : List Target} {s : State} {v : Node}

/-- The node that a pass places. -/
def next? (s : State) : Option Node :=
  match s.ready with
  | [] => none
  | w :: rest => some (w.least rest)

/-- The nodes that a pass makes ready. -/
def freed (s : State) : List Node :=
  match s.next? with
  | none => []
  | some v => (s.waiting.map (·.settle v.position)).filter (·.pending = 0)

/-- The nodes that are made ready in the first passes, those that were ready before among them. -/
def pushed : Nat → State → List Node
  | 0, s => s.ready
  | n + 1, s => pushed n s ++ (run n s).freed

/-- The targets that a node depends on and that are still to come. -/
def ahead (targets : List Target) (s : State) (v : Node) : Set (Target × Nat) :=
  {u | DependsOn targets v.numbered u ∧ u ∉ s.done}

theorem next?_mem (h : s.next? = some v) : v ∈ s.ready := by
  rw [next?] at h
  split at h
  next => cases h
  next w rest hready => exact hready ▸ Option.some.inj h ▸ w.least_mem rest

theorem next?_eq_none_iff : s.next? = none ↔ s.ready = [] := by
  rw [next?]
  split
  next h => simp [h]
  next h => simp [h]

theorem step_of_next? (h : s.next? = some v) : s.step = s.place v := by
  rw [next?] at h
  rw [step]
  split at h
  next => cases h
  next w rest hready =>
    cases h
    simp [hready, place]

theorem run_add (m n : Nat) (s : State) : run (m + n) s = run n (run m s) := by
  induction m generalizing s with
  | zero => rw [Nat.zero_add, run]
  | succ m ih => rw [Nat.succ_add, run, run, ih]

theorem placed_ready_step_perm (s : State) :
    (s.step.placed ++ s.step.ready).Perm (s.placed ++ s.ready ++ s.freed) := by
  cases h : s.next? with
  | none =>
      have hready := next?_eq_none_iff.mp h
      simp [freed, h, step, hready]
  | some v =>
      have hready : (v :: s.ready.erase v).Perm s.ready := (List.perm_cons_erase (next?_mem h)).symm
      have hregroup : s.step.placed ++ s.step.ready =
          s.placed ++ (v :: s.ready.erase v) ++ s.freed := by
        simp [step_of_next? h, place, freed, h]
      rw [hregroup]
      exact (hready.append_left s.placed).append_right s.freed

/-- What has been made ready is ready still, or has been placed. -/
theorem pushed_perm (n : Nat) (s : State) :
    (s.placed ++ pushed n s).Perm ((run n s).placed ++ (run n s).ready) := by
  induction n with
  | zero => exact .refl _
  | succ n ih =>
      rw [run_add, pushed, ← List.append_assoc]
      exact (ih.append_right _).trans (placed_ready_step_perm (run n s)).symm

namespace Invariant

theorem pending_ne_zero_of_dependsOn (h : s.Invariant targets) (hv : v ∈ s.ready) {u : Node}
    (hu : u ∈ s.nodes) (hdep : DependsOn targets u.numbered v.numbered) : u.pending ≠ 0 := by
  intro hzero
  exact h.not_mem_done_of_ready hv ((h.pending_eq_zero_iff hu).mp hzero v.numbered hdep)

theorem position_mem_deps_iff (h : s.Invariant targets) (hv : v ∈ s.ready) {u : Node}
    (hu : u ∈ s.nodes) : v.position ∈ u.deps ↔ DependsOn targets u.numbered v.numbered := by
  rw [h.mem_deps u hu]
  constructor
  · rintro ⟨t, ht⟩
    exact eq_of_mem_zipIdx ht.mem_right (h.ready_mem hv) rfl ▸ ht
  · intro hdep
    exact ⟨v.target, hdep⟩

/-- The number that a pass takes one off is not zero. -/
theorem pending_settle_add_one (h : s.Invariant targets) (hv : v ∈ s.ready) {u : Node}
    (hu : u ∈ s.nodes) (hdep : DependsOn targets u.numbered v.numbered) :
    (u.settle v.position).pending + 1 = u.pending := by
  have hpos := h.pending_ne_zero_of_dependsOn hv hu hdep
  rw [Node.pending_settle, if_pos ((h.position_mem_deps_iff hv hu).mpr hdep)]
  omega

theorem settle_of_not_dependsOn (h : s.Invariant targets) (hv : v ∈ s.ready) {u : Node}
    (hu : u ∈ s.nodes) (hdep : ¬DependsOn targets u.numbered v.numbered) :
    u.settle v.position = u := by
  rw [Node.settle, if_neg (mt (h.position_mem_deps_iff hv hu).mp hdep)]

theorem settle_of_let_go (h : s.Invariant targets) (hv : v ∈ s.ready) {u : Node}
    (hu : u ∈ s.placed ++ s.ready) : u.settle v.position = u := by
  have hmem : u ∈ s.nodes := List.mem_append_left _ hu
  refine h.settle_of_not_dependsOn hv hmem fun hdep => ?_
  exact h.pending_ne_zero_of_dependsOn hv hmem hdep (h.let_go u hu)

/-- A pass settles all nodes alike, although it looks at the waiting ones only. -/
theorem nodes_place_perm_settled (h : s.Invariant targets) (hv : v ∈ s.ready) :
    (s.place v).nodes.Perm (s.nodes.map (·.settle v.position)) := by
  have hfront : (s.placed ++ s.ready).map (·.settle v.position) = s.placed ++ s.ready := by
    rw [List.map_congr_left fun u hu => h.settle_of_let_go hv hu, List.map_id']
  have hnodes : s.nodes.map (·.settle v.position) =
      s.placed ++ s.ready ++ s.waiting.map (·.settle v.position) := by
    rw [nodes, List.map_append, hfront]
  exact hnodes ▸ nodes_place_perm hv

theorem places_ahead (h : s.Invariant targets) (hv : v ∈ s.nodes) :
    Prod.snd '' s.ahead targets v = ↑(v.deps.filter (· ∉ s.places)).toFinset := by
  ext j
  rw [List.coe_toFinset, Set.mem_ofPred_eq, List.mem_filter, decide_eq_true_eq]
  constructor
  · rintro ⟨u, ⟨hdep, hnot⟩, rfl⟩
    exact ⟨(h.mem_deps v hv u.2).mpr ⟨u.1, hdep⟩, mt (h.mem_places_iff hdep.mem_right).mp hnot⟩
  · rintro ⟨hj, hnot⟩
    obtain ⟨t, hdep⟩ := (h.mem_deps v hv j).mp hj
    exact ⟨(t, j), ⟨hdep, mt (h.mem_places_iff hdep.mem_right).mpr hnot⟩, rfl⟩

theorem pending_eq_ncard (h : s.Invariant targets) (hv : v ∈ s.nodes) :
    v.pending = (s.ahead targets v).ncard := by
  have hinj : Set.InjOn Prod.snd (s.ahead targets v) := fun u hu w hw heq =>
    eq_of_mem_zipIdx hu.1.mem_right hw.1.mem_right heq
  have hnodup : (v.deps.filter (· ∉ s.places)).Nodup := (h.nodup_deps v hv).filter _
  calc v.pending = (v.deps.filter (· ∉ s.places)).length := h.pending v hv
    _ = (v.deps.filter (· ∉ s.places)).toFinset.card := (List.toFinset_card_of_nodup hnodup).symm
    _ = (Prod.snd '' s.ahead targets v).ncard := by rw [h.places_ahead hv, Set.ncard_coe_finset]
    _ = (s.ahead targets v).ncard := hinj.ncard_image

theorem mem_ready_iff (h : s.Invariant targets) (hv : v ∈ s.nodes) :
    v ∈ s.ready ↔ v.numbered ∉ s.done ∧ v.pending = 0 := by
  constructor
  · intro hr
    exact ⟨h.not_mem_done_of_ready hr, h.let_go v (List.mem_append_right _ hr)⟩
  · rintro ⟨hnot, hzero⟩
    cases List.mem_append.mp hv with
    | inr hw => exact (h.held v hw hzero).elim
    | inl hpr =>
        cases List.mem_append.mp hpr with
        | inl hp => exact (hnot (List.mem_map_of_mem hp)).elim
        | inr hr => exact hr

theorem nodup_placed_ready (h : s.Invariant targets) :
    ((s.placed ++ s.ready).map Node.numbered).Nodup := by
  have hn := h.nodup
  rw [nodes, List.map_append] at hn
  exact hn.of_append_left

end Invariant

/-- The tally as it stands between two passes. -/
structure Tallied (targets : List Target) (s : State) : Prop where
  nodes_perm : (s.nodes.map Node.numbered).Perm targets.zipIdx
  pending : ∀ v ∈ s.nodes, v.pending = (s.ahead targets v).ncard
  ready : ∀ v ∈ s.nodes, v ∈ s.ready ↔ v.numbered ∉ s.done ∧ v.pending = 0
  ready_once : (s.ready.map Node.numbered).Nodup

/-- A pass that places `v`: it settles every node, which takes one off the number of those that
depend on `v`, and what it frees joins the ready nodes. -/
structure Places (targets : List Target) (s : State) (v : Node) : Prop where
  was_ready : v ∈ s.ready
  placed : s.step.placed = s.placed ++ [v]
  ready : s.step.ready = s.ready.erase v ++ s.freed
  settled : s.step.nodes.Perm (s.nodes.map (·.settle v.position))
  dependent : ∀ u ∈ s.nodes, DependsOn targets u.numbered v.numbered →
    (u.settle v.position).pending + 1 = u.pending
  other : ∀ u ∈ s.nodes, ¬DependsOn targets u.numbered v.numbered → u.settle v.position = u

theorem Invariant.tallied (h : s.Invariant targets) : s.Tallied targets where
  nodes_perm := h.nodes_perm
  pending _ hv := h.pending_eq_ncard hv
  ready _ hv := h.mem_ready_iff hv
  ready_once := by
    have hn := h.nodup_placed_ready
    rw [List.map_append] at hn
    exact hn.of_append_right

theorem Invariant.places (h : s.Invariant targets) (hv : s.next? = some v) :
    s.Places targets v where
  was_ready := next?_mem hv
  placed := by rw [step_of_next? hv, State.place]
  ready := by simp [step_of_next? hv, State.place, freed, hv]
  settled := step_of_next? hv ▸ h.nodes_place_perm_settled (next?_mem hv)
  dependent _ hu hdep := h.pending_settle_add_one (next?_mem hv) hu hdep
  other _ hu hdep := h.settle_of_not_dependsOn (next?_mem hv) hu hdep

theorem nodup_pushed (hplaced : s.placed = []) {n : Nat} (h : (run n s).Invariant targets) :
    ((pushed n s).map Node.numbered).Nodup := by
  have hperm := pushed_perm n s
  rw [hplaced, List.nil_append] at hperm
  exact (hperm.map Node.numbered).nodup_iff.mpr h.nodup_placed_ready

/-- Until nothing is ready every pass places a node, and from then on nothing changes. -/
theorem exists_last_pass {n : Nat} (h : (run n s).ready = []) :
    ∃ k ≤ n, (run k s).ready = [] ∧ (∀ j < k, (run j s).next?.isSome = true) ∧
      run n s = run k s := by
  have hsome : ∃ k, (run k s).ready = [] := ⟨n, h⟩
  have hle : Nat.find hsome ≤ n := Nat.find_min' hsome h
  refine ⟨Nat.find hsome, hle, Nat.find_spec hsome, ?_, ?_⟩
  · intro j hj
    rw [Option.isSome_iff_ne_none]
    exact mt next?_eq_none_iff.mp (Nat.find_min hsome hj)
  · obtain ⟨m, hm⟩ := Nat.exists_eq_add_of_le hle
    conv_lhs => rw [hm, run_add]
    exact run_of_ready_nil (Nat.find_spec hsome) m

end State

/-- Where all dependencies are known, the tally of the loop is right between any two passes. No node
is made ready twice or placed twice, and no number falls below zero. There are no more passes than
targets until nothing is ready, and the answer is read off the last state. -/
theorem loop_keeps_tally {targets : List Target} (h : Known targets) :
    ∃ first, nodes targets = .ok first ∧
      (∀ n, ((State.start first).run n).Tallied targets ∧
        (((State.start first).pushed n).map Node.numbered).Nodup ∧
        ((State.start first).run n).done.Nodup ∧
        ∀ v, ((State.start first).run n).next? = some v →
          ((State.start first).run n).Places targets v) ∧
      ∃ k ≤ targets.length, ((State.start first).run k).ready = [] ∧
        (∀ j < k, ((State.start first).run j).next?.isSome = true) ∧
        order targets = ((State.start first).run k).result := by
  refine ⟨targets.zipIdx.map (nodeOf targets), nodes_of_known h, ?_, ?_⟩
  · intro n
    have hinv := (State.Invariant.start targets).run n
    exact ⟨hinv.tallied, State.nodup_pushed rfl hinv, hinv.nodup_done, fun v hv => hinv.places hv⟩
  · obtain ⟨k, hk, hready, hbefore, hlast⟩ :=
      State.exists_last_pass (ready_run_start_eq_nil targets)
    exact ⟨k, hk, hready, hbefore, hlast ▸ order_of_known h⟩

/-- A library that depends on another of its name, an executable that depends on the last of the
two, and a target that depends on itself besides the executable: it waits for one in the end. -/
theorem repeated_names_keep_tally :
    let targets : List Target := [{ Target.library "lib" with dependsOn := .ofList ["lib"] },
      .library "lib", .executable "app" "lib", .ofKind .test "loop" ["loop", "app"]]
    ∃ first, nodes targets = .ok first ∧ (∀ n, ((State.start first).run n).Tallied targets) ∧
      ((State.start first).run 3).waiting.map (fun v => (v.position, v.pending)) = [(3, 1)] ∧
      ∃ k ≤ 4, ((State.start first).run k).ready = [] ∧
        order targets = ((State.start first).run k).result := by
  intro targets
  have hknown : Known targets := by
    unfold Known
    decide
  obtain ⟨first, hfirst, hpasses, k, hk, hready, -, hresult⟩ := loop_keeps_tally hknown
  have hwaiting : (nodes targets).map (fun ns => ((State.start ns).run 3).waiting.map
      fun v => (v.position, v.pending)) = .ok [(3, 1)] := by decide
  rw [hfirst] at hwaiting
  exact ⟨first, hfirst, fun n => (hpasses n).1, Except.ok.inj hwaiting, k, hk, hready, hresult⟩

end CodecBuild.Order
