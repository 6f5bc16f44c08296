import CodecBuild.Text.Reader
import CodecBuild.Text.Basic
import Mathlib.Data.List.TakeWhile

/-!
Reading what stands between separators. If a reader takes each item where nothing comes behind it,
and where a separator does, then it takes a list of items with separators between them to the end.
-/

namespace CodecBuild.Reader

variable {α β : Type} {r : Reader α} {s s' s'' : List Char} {x : α} {xs : List α}

theorem bind_of_some (h : r s = some (x, s')) (f : α → Reader β) : (r >>= f) s = f x s' := by
  change (r s).bind (fun p => f p.1 p.2) = f x s'
  rw [h, Option.bind_some]

theorem bind_of_none (h : r s = none) (f : α → Reader β) : (r >>= f) s = none := by
  change (r s).bind (fun p => f p.1 p.2) = none
  rw [h, Option.bind_none]

theorem orElse_of_some {p : α × List Char} (h : r s = some p) (q : Reader α) :
    (r <|> q) s = some p := by
  change (r s <|> q s) = some p
  rw [h]
  rfl

theorem orElse_of_none (h : r s = none) (q : Reader α) : (r <|> q) s = q s := by
  change (r s <|> q s) = q s
  rw [h]
  rfl

theorem char_cons (c : Char) (s : List Char) : char c (c :: s) = some (c, s) := by
  simp [char, satisfy]

theorem readAll?_of_some {text : String} (h : r text.toList = some (x, [])) :
    readAll? r text = some x := by
  have hall : (do let x ← r; atEnd; return x : Reader α) text.toList = some (x, []) := by
    rw [bind_of_some h]
    rfl
  rw [readAll?, hall]
  rfl

theorem manyAtMost_of_some {n : Nat} (h : r s = some (x, s'))
    (hxs : manyAtMost r n s' = some (xs, s'')) :
    manyAtMost r (n + 1) s = some (x :: xs, s'') := by
  apply orElse_of_some
  rw [bind_of_some h, bind_of_some hxs]
  rfl

theorem manyAtMost_of_none (h : r s = none) (n : Nat) : manyAtMost r n s = some ([], s) := by
  cases n with
  | zero => rfl
  | succ n => exact orElse_of_none (bind_of_none h _) _

/-- Nothing comes any more, or a separator. -/
def Behind (separator : Char) (rest : List Char) : Prop := ∀ c ∈ rest.head?, c = separator

theorem behind_cons (separator : Char) (rest : List Char) :
    Behind separator (separator :: rest) := by
  simp [Behind]

theorem takeWhile_of_behind {separator : Char} {cs rest : List Char} (hcs : separator ∉ cs)
    (hrest : Behind separator rest) :
    takeWhile (· ≠ separator) (cs ++ rest) = some (cs, rest) := by
  cases rest with
  | nil =>
      have hcs := Text.ne_of_not_mem hcs
      rw [takeWhile, List.append_nil, List.takeWhile_eq_self_iff.mpr hcs,
        List.dropWhile_eq_nil_iff.mpr hcs]
  | cons c rest =>
      obtain rfl : c = separator := hrest c rfl
      rw [takeWhile, Text.takeWhile_ne_append hcs, Text.dropWhile_ne_append hcs]

theorem takeWhile1_of_takeWhile {p : Char → Bool} {cs : List Char} (hne : cs ≠ [])
    (h : takeWhile p s = some (cs, s')) : takeWhile1 p s = some (cs, s') := by
  obtain ⟨rfl, rfl⟩ := Prod.mk.inj (Option.some.inj h)
  rw [takeWhile1, if_neg (by simpa using hne)]

section Separated

variable {separator : Char} {shown : α → List Char}

theorem intercalate_cons (separator : Char) (s : List Char) (ss : List (List Char)) :
    [separator].intercalate (s :: ss) = s ++ ss.flatMap (separator :: ·) := by
  induction ss generalizing s with
  | nil => simp
  | cons t ss ih => rw [List.intercalate_cons_cons, ih]; simp

theorem behind_separated : Behind separator (xs.flatMap fun y => separator :: shown y) := by
  cases xs <;> simp [Behind]

theorem length_le_length_separated :
    xs.length ≤ (xs.flatMap fun y => separator :: shown y).length := by
  induction xs with
  | nil => exact Nat.le_refl 0
  | cons x xs ih =>
      simp only [List.flatMap_cons, List.length_append, List.length_cons]
      omega

theorem many_separated
    (hread : ∀ y ∈ xs, ∀ rest, Behind separator rest → r (shown y ++ rest) = some (y, rest)) :
    many (do let _ ← char separator; r) (xs.flatMap fun y => separator :: shown y) =
      some (xs, []) := by
  suffices h : ∀ n, xs.length ≤ n → manyAtMost (do let _ ← char separator; r) n
      (xs.flatMap fun y => separator :: shown y) = some (xs, []) from h _ length_le_length_separated
  intro n hn
  induction xs generalizing n with
  | nil => exact manyAtMost_of_none rfl n
  | cons x xs ih =>
      obtain ⟨hx, hxs⟩ := List.forall_mem_cons.mp hread
      rw [List.length_cons] at hn
      obtain ⟨n, rfl⟩ : ∃ m, n = m + 1 := ⟨n - 1, by omega⟩
      refine manyAtMost_of_some ?_ (ih hxs n (by omega))
      rw [List.flatMap_cons, List.cons_append, bind_of_some (char_cons separator _)]
      exact hx _ behind_separated

theorem sepBy1_intercalate
    (hread : ∀ y ∈ x :: xs, ∀ rest, Behind separator rest →
      r (shown y ++ rest) = some (y, rest)) :
    sepBy1 r (char separator) ([separator].intercalate ((x :: xs).map shown)) =
      some (x :: xs, []) := by
  obtain ⟨hx, hxs⟩ := List.forall_mem_cons.mp hread
  rw [List.map_cons, intercalate_cons, List.flatMap_map, sepBy1,
    bind_of_some (hx _ behind_separated), bind_of_some (many_separated hxs)]
  rfl

end Separated

end CodecBuild.Reader
