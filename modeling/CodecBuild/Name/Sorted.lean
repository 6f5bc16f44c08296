/-!
Lists in strictly ascending order of a name that each element carries. Names are compared character by
character, which is also the order of their UTF-8 bytes. Insertion keeps the order, and looking a name up
after an insertion finds the new element at its name and what was there before elsewhere. What is found at
each name determines the list.
-/

namespace CodecBuild.Sorted

variable {α : Type}

def Ascending (name : α → String) (xs : List α) : Prop :=
  xs.Pairwise fun x y => name x < name y

instance (name : α → String) (xs : List α) : Decidable (Ascending name xs) :=
  inferInstanceAs (Decidable (xs.Pairwise fun x y => name x < name y))

/-- Puts `x` at its place; an element of the same name makes room for it. -/
def insert (name : α → String) (x : α) : List α → List α
  | [] => [x]
  | y :: rest =>
    if name x < name y then x :: y :: rest
    else if name x = name y then x :: rest
    else y :: insert name x rest

def find? (name : α → String) (n : String) (xs : List α) : Option α :=
  xs.find? fun x => name x == n

theorem lt_of_not_lt_of_ne {s t : String} (h : ¬s < t) (hne : s ≠ t) : t < s := by
  rcases Decidable.em (t < s) with hlt | hlt
  · exact hlt
  · exact absurd (String.le_antisymm (String.not_lt.mp hlt) (String.not_lt.mp h)) hne

theorem mem_insert {name : α → String} {x z : α} {xs : List α} (h : z ∈ insert name x xs) :
    z = x ∨ z ∈ xs := by
  induction xs with
  | nil => simpa [insert] using h
  | cons y rest ih =>
    simp only [insert] at h
    split at h
    · simpa using h
    · split at h
      · rcases List.mem_cons.mp h with h | h
        · exact .inl h
        · exact .inr (List.mem_cons_of_mem _ h)
      · rcases List.mem_cons.mp h with h | h
        · exact .inr (h ▸ List.mem_cons_self)
        · exact (ih h).imp_right (List.mem_cons_of_mem _)

theorem Ascending.insert {name : α → String} {xs : List α} (h : Ascending name xs) (x : α) :
    Ascending name (insert name x xs) := by
  induction xs with
  | nil => simp [Sorted.insert, Ascending]
  | cons y rest ih =>
    obtain ⟨hy, hrest⟩ := List.pairwise_cons.mp h
    simp only [Sorted.insert]
    split
    next hlt =>
      refine List.pairwise_cons.mpr ⟨fun z hz => ?_, h⟩
      rcases List.mem_cons.mp hz with rfl | hz
      · exact hlt
      · exact String.lt_trans hlt (hy z hz)
    next hlt =>
      split
      next heq => exact List.pairwise_cons.mpr ⟨fun z hz => heq ▸ hy z hz, hrest⟩
      next hne =>
        refine List.pairwise_cons.mpr ⟨fun z hz => ?_, ih hrest⟩
        rcases mem_insert hz with rfl | hz
        · exact lt_of_not_lt_of_ne hlt hne
        · exact hy z hz

/-- In front of an element stand those of smaller names. -/
theorem Ascending.mem_front_iff {name : α → String} {pre post : List α} {x z : α}
    (h : Ascending name (pre ++ x :: post)) (hz : z ∈ pre ++ x :: post) :
    z ∈ pre ↔ name z < name x := by
  obtain ⟨-, htail, hfront⟩ := List.pairwise_append.mp h
  constructor
  · intro hpre
    exact hfront z hpre x List.mem_cons_self
  · intro hlt
    rcases List.mem_append.mp hz with hpre | hpost
    · exact hpre
    · rcases List.mem_cons.mp hpost with rfl | hpost
      · exact absurd hlt (String.lt_irrefl _)
      · exact absurd (String.lt_trans hlt ((List.pairwise_cons.mp htail).1 z hpost))
          (String.lt_irrefl _)

theorem find?_insert_self (name : α → String) (x : α) (xs : List α) :
    find? name (name x) (insert name x xs) = some x := by
  induction xs with
  | nil => simp [insert, find?]
  | cons y rest ih =>
    simp only [insert]
    split
    · simp [find?]
    · split
      · simp [find?]
      next hne => simpa [find?, Ne.symm hne] using ih

theorem find?_insert_of_ne (name : α → String) {x : α} {n : String} (h : name x ≠ n) (xs : List α) :
    find? name n (insert name x xs) = find? name n xs := by
  induction xs with
  | nil => simp [insert, find?, h]
  | cons y rest ih =>
    simp only [insert]
    split
    · simp [find?, h]
    · split
      next heq => simp [find?, ← heq, h]
      next =>
        simp only [find?, List.find?_cons] at ih ⊢
        split
        · rfl
        · exact ih

theorem find?_eq_none_of_lt {name : α → String} {n : String} {xs : List α}
    (h : ∀ x ∈ xs, n < name x) : find? name n xs = none := by
  simp only [find?, List.find?_eq_none, beq_iff_eq]
  intro x hx he
  exact String.lt_irrefl n (he ▸ h x hx)

theorem name_of_find? {name : α → String} {n : String} {xs : List α} {x : α}
    (h : find? name n xs = some x) : name x = n := by
  simpa using List.find?_some h

theorem find?_eq_none_iff {name : α → String} {n : String} {xs : List α} :
    find? name n xs = none ↔ n ∉ xs.map name := by
  simp only [find?, List.find?_eq_none, beq_iff_eq, List.mem_map, not_exists, not_and]

theorem Ascending.nodup {name : α → String} {xs : List α} (h : Ascending name xs) :
    (xs.map name).Nodup := by
  refine List.pairwise_map.mpr (h.imp ?_)
  intro x y hlt heq
  exact String.lt_irrefl _ (heq ▸ hlt)

/-- Where no name occurs twice, what is found under a name is the element that carries it. -/
theorem find?_eq_some_iff_of_nodup {name : α → String} {n : String} {xs : List α} {x : α}
    (h : (xs.map name).Nodup) : find? name n xs = some x ↔ x ∈ xs ∧ name x = n := by
  constructor
  · intro hf
    exact ⟨List.mem_of_find?_eq_some hf, name_of_find? hf⟩
  · rintro ⟨hx, rfl⟩
    induction xs with
    | nil => cases hx
    | cons y ys ih =>
        obtain ⟨hy, hys⟩ := List.nodup_cons.mp h
        rcases List.mem_cons.mp hx with rfl | hx
        · simp [find?]
        · have hne : name y ≠ name x := fun he => hy (he ▸ List.mem_map_of_mem hx)
          have hf := ih hys hx
          simpa [find?, hne] using hf

theorem find?_cons_self (name : α → String) (x : α) (xs : List α) :
    find? name (name x) (x :: xs) = some x := by
  simp [find?]

theorem find?_cons_of_ne {name : α → String} {x : α} {n : String} (h : name x ≠ n) (xs : List α) :
    find? name n (x :: xs) = find? name n xs := by
  simp [find?, h]

theorem find?_cons_eq_none_of_lt {name : α → String} {x : α} {n : String} {xs : List α}
    (h : Ascending name (x :: xs)) (hlt : n < name x) : find? name n (x :: xs) = none := by
  refine find?_eq_none_of_lt fun z hz => ?_
  rcases List.mem_cons.mp hz with rfl | hz
  · exact hlt
  · exact String.lt_trans hlt ((List.pairwise_cons.mp h).1 z hz)

theorem eq_of_find?_eq {name : α → String} {xs ys : List α} (hx : Ascending name xs)
    (hy : Ascending name ys) (h : ∀ n, find? name n xs = find? name n ys) : xs = ys := by
  induction xs generalizing ys with
  | nil =>
    cases ys with
    | nil => rfl
    | cons y ys =>
      have hf := (h (name y)).trans (find?_cons_self name y ys)
      cases hf
  | cons x xs ih =>
    cases ys with
    | nil =>
      have hf := (h (name x)).symm.trans (find?_cons_self name x xs)
      cases hf
    | cons y ys =>
      have hnlt : ¬name x < name y := by
        intro hlt
        have hf := (find?_cons_self name x xs).symm.trans (h (name x))
        rw [find?_cons_eq_none_of_lt hy hlt] at hf
        cases hf
      have hngt : ¬name y < name x := by
        intro hlt
        have hf := (find?_cons_self name y ys).symm.trans (h (name y)).symm
        rw [find?_cons_eq_none_of_lt hx hlt] at hf
        cases hf
      have hname : name x = name y :=
        String.le_antisymm (String.not_lt.mp hngt) (String.not_lt.mp hnlt)
      have hhead : x = y := by
        have hf := (find?_cons_self name x xs).symm.trans (h (name x))
        rw [hname, find?_cons_self] at hf
        exact Option.some.inj hf
      subst hhead
      obtain ⟨hxs, hascx⟩ := List.pairwise_cons.mp hx
      obtain ⟨hys, hascy⟩ := List.pairwise_cons.mp hy
      refine congrArg (x :: ·) (ih hascx hascy fun n => ?_)
      by_cases hn : name x = n
      · subst hn
        rw [find?_eq_none_of_lt hxs, find?_eq_none_of_lt hys]
      · rw [← find?_cons_of_ne hn xs, h n, find?_cons_of_ne hn ys]

end CodecBuild.Sorted
