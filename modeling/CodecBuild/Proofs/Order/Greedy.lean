import Mathlib.Data.List.Lex
import Mathlib.Data.List.Nodup
import Mathlib.Logic.Relation

/-!
Lists in which everything stands behind what it needs. A list is built greedily if each element
is the least of those that could come next. Against any other list of the same elements that
respects the needs, a greedy list is the same or comes first in the lexicographic order: at the
first difference the element of the other list was available too, and was not chosen.
-/

namespace CodecBuild.Order

variable {α : Type} {needs lt : α → α → Prop} {xs ps qs : List α}

/-- Whatever an element needs stands in front of it. -/
def Follows (needs : α → α → Prop) (ps : List α) : Prop :=
  ∀ pre x post, ps = pre ++ x :: post → ∀ y, needs x y → y ∈ pre

/-- `x` may come next after `done`. -/
structure Available (needs : α → α → Prop) (xs done : List α) (x : α) : Prop where
  mem : x ∈ xs
  fresh : x ∉ done
  met : ∀ y, needs x y → y ∈ done

/-- Each element is the least of those that were available when it came. -/
def Greedy (needs lt : α → α → Prop) (xs ps : List α) : Prop :=
  ∀ pre x post, ps = pre ++ x :: post → ∀ y, Available needs xs pre y → y = x ∨ lt x y

theorem follows_nil : Follows needs [] := by
  intro pre x post h
  simp at h

theorem greedy_nil : Greedy needs lt xs [] := by
  intro pre x post h
  simp at h

/-- The places in a longer list are those in the list and the one behind it. -/
theorem forall_split_snoc {P : List α → α → Prop} {a : α}
    (h : ∀ pre x post, ps = pre ++ x :: post → P pre x) (ha : P ps a) :
    ∀ pre x post, ps ++ [a] = pre ++ x :: post → P pre x := by
  intro pre x post heq
  cases List.eq_nil_or_concat' post with
  | inl hpost =>
      subst hpost
      obtain ⟨rfl, hx⟩ := List.append_inj' heq rfl
      exact List.singleton_inj.mp hx ▸ ha
  | inr hpost =>
      obtain ⟨front, b, rfl⟩ := hpost
      have hsplit : ps ++ [a] = (pre ++ x :: front) ++ [b] := by simpa using heq
      exact h pre x front (List.append_inj' hsplit rfl).1

theorem Follows.snoc {a : α} (h : Follows needs ps) (ha : ∀ y, needs a y → y ∈ ps) :
    Follows needs (ps ++ [a]) :=
  forall_split_snoc h ha

theorem Greedy.snoc {a : α} (h : Greedy needs lt xs ps)
    (ha : ∀ y, Available needs xs ps y → y = a ∨ lt a y) : Greedy needs lt xs (ps ++ [a]) :=
  forall_split_snoc h ha

theorem Follows.available {pre post : List α} {x : α} (h : Follows needs (pre ++ x :: post))
    (hp : (pre ++ x :: post).Perm xs) (hn : xs.Nodup) : Available needs xs pre x where
  mem := hp.mem_iff.mp (List.mem_append_right pre List.mem_cons_self)
  fresh hx := (List.nodup_append.mp (hp.nodup_iff.mpr hn)).2.2 x hx x List.mem_cons_self rfl
  met := h pre x post rfl

theorem Follows.mem {x y : α} (h : Follows needs ps) (hx : x ∈ ps) (hxy : needs x y) : y ∈ ps := by
  obtain ⟨pre, post, rfl⟩ := List.append_of_mem hx
  exact List.mem_append_left _ (h pre x post rfl y hxy)

theorem Follows.idxOf_lt [BEq α] [LawfulBEq α] (h : Follows needs ps) (hn : ps.Nodup) {x y : α}
    (hx : x ∈ ps) (hxy : needs x y) : ps.idxOf y < ps.idxOf x := by
  obtain ⟨pre, post, rfl⟩ := List.append_of_mem hx
  have hy : y ∈ pre := h pre x post rfl y hxy
  have hnot : x ∉ pre := (h.available (.refl _) hn).fresh
  rw [List.idxOf_append, if_pos hy, List.idxOf_append, if_neg hnot]
  exact (List.idxOf_lt_length_of_mem hy).trans_le (Nat.le_add_left _ _)

/-- Nothing in the list leads back to itself. -/
theorem Follows.not_transGen (h : Follows needs ps) (hn : ps.Nodup) {x : α} (hx : x ∈ ps) :
    ¬Relation.TransGen needs x x := by
  classical
  have hdecreases : ∀ y, Relation.TransGen needs x y → y ∈ ps ∧ ps.idxOf y < ps.idxOf x := by
    intro y hxy
    induction hxy with
    | single hneeds => exact ⟨h.mem hx hneeds, h.idxOf_lt hn hx hneeds⟩
    | tail _ hneeds ih => exact ⟨h.mem ih.1 hneeds, (h.idxOf_lt hn ih.1 hneeds).trans ih.2⟩
  exact fun hcycle => lt_irrefl _ (hdecreases x hcycle).2

/-- A greedy list comes first in the lexicographic order. -/
theorem Greedy.eq_or_lex (hn : xs.Nodup) (hp : ps.Perm xs) (hg : Greedy needs lt xs ps)
    (hq : qs.Perm xs) (hf : Follows needs qs) : ps = qs ∨ List.Lex lt ps qs := by
  have hlength : ps.length = qs.length := hp.length_eq.trans hq.length_eq.symm
  suffices h : ∀ rest pre rest', ps = pre ++ rest → qs = pre ++ rest' →
      rest = rest' ∨ List.Lex lt rest rest' from h ps [] qs rfl rfl
  -- The induction is on what is left of the greedy list behind the common front.
  intro rest
  induction rest with
  | nil =>
      intro pre rest' hps hqs
      have hrest : rest' = [] := List.eq_nil_of_length_eq_zero (by simp_all)
      exact .inl hrest.symm
  | cons x rest ih =>
      intro pre rest' hps hqs
      cases rest' with
      | nil => simp [hps, hqs] at hlength
      | cons y rest' =>
          have hy : Available needs xs pre y := by
            rw [hqs] at hf hq
            exact hf.available hq hn
          cases hg pre x rest hps y hy with
          | inl heq =>
              subst heq
              cases ih (pre ++ [y]) rest' (by simpa using hps) (by simpa using hqs) with
              | inl h => exact .inl (congrArg (y :: ·) h)
              | inr h => exact .inr (.cons h)
          | inr hlt => exact .inr (.rel hlt)

theorem Greedy.unique [Std.Asymm lt] (hn : xs.Nodup) (hp : ps.Perm xs) (hq : qs.Perm xs)
    (hfp : Follows needs ps) (hfq : Follows needs qs) (hgp : Greedy needs lt xs ps)
    (hgq : Greedy needs lt xs qs) : ps = qs := by
  cases hgp.eq_or_lex hn hp hq hfq with
  | inl h => exact h
  | inr h =>
      cases hgq.eq_or_lex hn hq hp hfp with
      | inl h' => exact h'.symm
      | inr h' => exact (Std.Asymm.asymm (r := List.Lex lt) ps qs h h').elim

/-! ### A part of the elements -/

section Part

variable {part : List α} {needs' : α → α → Prop} {q : α → Bool}

/-- A place among the chosen elements is a place in the whole list. -/
theorem exists_split_of_filter {pre post : List α} {x : α} (h : ps.filter q = pre ++ x :: post) :
    ∃ front back, ps = front ++ x :: back ∧ front.filter q = pre := by
  obtain ⟨front, rest, rfl, hfront, hrest⟩ := List.filter_eq_append_iff.mp h
  obtain ⟨skipped, back, rfl, hskipped, -, -⟩ := List.filter_eq_cons_iff.mp hrest
  refine ⟨front ++ skipped, back, (List.append_assoc ..).symm, ?_⟩
  rw [List.filter_append, hfront, List.filter_eq_nil_iff.mpr hskipped, List.append_nil]

theorem Follows.filter (h : Follows needs ps)
    (hneeds : ∀ x y, needs' x y → needs x y ∧ q y = true) : Follows needs' (ps.filter q) := by
  intro pre x post heq y hxy
  obtain ⟨front, back, hps, rfl⟩ := exists_split_of_filter heq
  obtain ⟨hwhole, hq⟩ := hneeds x y hxy
  exact List.mem_filter.mpr ⟨h front x back hps y hwhole, hq⟩

/-- If all that the part needs is in the part, what may come next there may come next in the
whole, so the least of the whole is the least of the part. -/
theorem Greedy.filter (h : Greedy needs lt xs ps) (hpart : ∀ y ∈ part, y ∈ xs ∧ q y = true)
    (hneeds : ∀ y ∈ part, ∀ z, needs y z → needs' y z) :
    Greedy needs' lt part (ps.filter q) := by
  intro pre x post heq y hy
  obtain ⟨front, back, hps, rfl⟩ := exists_split_of_filter heq
  obtain ⟨hmem, hq⟩ := hpart y hy.mem
  refine h front x back hps y ⟨hmem, ?_, ?_⟩
  · intro hfront
    exact hy.fresh (List.mem_filter.mpr ⟨hfront, hq⟩)
  · intro z hz
    exact (List.mem_filter.mp (hy.met z (hneeds y hy.mem z hz))).1

end Part

end CodecBuild.Order
