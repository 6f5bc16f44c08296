import CodecBuild.Name.Map
import Mathlib.Data.List.Forall2

/-!
The last word. Where a list may give a value more than once, the last element that gives one
counts. A map filled from a list of entries answers that way, so an entry that a later one has the
name of can be replaced.
-/

namespace CodecBuild

variable {α β γ : Type}

/-- What the last element gives that gives anything. -/
def last? (gives : α → Option β) (xs : List α) : Option β := xs.reverse.findSome? gives

theorem last?_append (gives : α → Option β) (xs ys : List α) :
    last? gives (xs ++ ys) = (last? gives ys).or (last? gives xs) := by
  simp only [last?, List.reverse_append, List.findSome?_append]

theorem last?_cons (gives : α → Option β) (x : α) (xs : List α) :
    last? gives (x :: xs) = (last? gives xs).or (gives x) := by
  rw [last?, List.reverse_cons, List.findSome?_append, List.findSome?_singleton]
  rfl

theorem last?_eq_of_forall₂ {f : α → Option γ} {g : β → Option γ} {xs : List α} {ys : List β}
    (h : List.Forall₂ (fun x y => f x = g y) xs ys) : last? f xs = last? g ys := by
  induction h with
  | nil => rfl
  | cons hxy _ ih => rw [last?_cons, last?_cons, hxy, ih]

namespace NameMap

/-- What an entry gives a name. -/
def under (n : String) (e : String × α) : Option α := if e.1 = n then some e.2 else none

theorem get?_insertAll (m : NameMap α) (es : List (String × α)) (n : String) :
    (m.insertAll es).get? n = (last? (under n) es).or (m.get? n) := by
  induction es generalizing m with
  | nil => rfl
  | cons e es ih =>
      have hstep : (m.insert e.1 e.2).get? n = (under n e).or (m.get? n) := by
        by_cases hn : e.1 = n
        · rw [under, if_pos hn, ← hn, get?_insert_self, Option.some_or]
        · rw [under, if_neg hn, get?_insert_of_ne m hn, Option.none_or]
      rw [last?_cons, Option.or_assoc, ← hstep]
      exact ih (m.insert e.1 e.2)

theorem get?_ofList (es : List (String × α)) (n : String) :
    (ofList es).get? n = last? (under n) es := by
  rw [ofList, get?_insertAll, get?_empty, Option.or_none]

/-- The value of an entry does not matter if a later entry has the same name. -/
theorem ofList_replace {n : String} {after : List (String × α)}
    (h : (last? (under n) after).isSome = true) (before : List (String × α)) (x y : α) :
    ofList (before ++ (n, x) :: after) = ofList (before ++ (n, y) :: after) := by
  apply eq_of_get?_eq
  intro k
  have hskip : ∀ z : α, last? (under k) (before ++ (n, z) :: after) =
      last? (under k) (before ++ after) := by
    intro z
    rw [last?_append, last?_append, last?_cons]
    by_cases hk : n = k
    · subst hk
      obtain ⟨w, hw⟩ := Option.isSome_iff_exists.mp h
      rw [hw, Option.some_or]
    · have hother : under k (n, z) = none := if_neg hk
      rw [hother, Option.or_none]
  rw [get?_ofList, get?_ofList, hskip, hskip]

/-- An entry does not matter where `upper` answers for its name. -/
theorem or_get?_insert (upper : String → Option α) {n : String} (h : (upper n).isSome = true)
    (m : NameMap α) (x : α) (k : String) :
    (upper k).or ((m.insert n x).get? k) = (upper k).or (m.get? k) := by
  by_cases hk : n = k
  · subst hk
    rw [Option.or_of_isSome h, Option.or_of_isSome h]
  · rw [get?_insert_of_ne m hk]

end NameMap
end CodecBuild
