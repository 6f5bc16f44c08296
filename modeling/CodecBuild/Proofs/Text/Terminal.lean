import CodecBuild.Text.Basic
import Mathlib.Data.List.Forall2

/-!
Texts for a terminal. Lines without line ends in them can be told apart again when they are put one
below the other. An escape sequence is an escape character, a bracket and what runs up to the next
`m`. Where a text has no escape character nothing is left out of it, and what is left of a text does
not depend on what follows as long as every sequence in it comes to its end.
-/

namespace CodecBuild.Text

theorem append_cons_inj {x : Char} {s s' t t' : List Char} (hs : x ∉ s) (ht : x ∉ t)
    (h : s ++ x :: s' = t ++ x :: t') : s = t ∧ s' = t' := by
  have hfront := congrArg (List.takeWhile (· ≠ x)) h
  have hback := congrArg (List.dropWhile (· ≠ x)) h
  rw [takeWhile_ne_append hs, takeWhile_ne_append ht] at hfront
  rw [dropWhile_ne_append hs, dropWhile_ne_append ht] at hback
  exact ⟨hfront, (List.cons.inj hback).2⟩

theorem toList_unlines_cons (l : String) (ls : List String) :
    (unlines (l :: ls)).toList = l.toList ++ '\n' :: (unlines ls).toList := by
  simp [unlines, String.toList_join]

theorem unlines_cons_ne (l : String) (ls : List String) : unlines (l :: ls) ≠ "" := by
  rw [ne_eq, ← String.toList_eq_nil_iff, toList_unlines_cons]
  exact List.append_ne_nil_of_right_ne_nil _ (List.cons_ne_nil _ _)

theorem unlines_inj {ls ms : List String} (hls : ∀ l ∈ ls, '\n' ∉ l.toList)
    (hms : ∀ m ∈ ms, '\n' ∉ m.toList) (h : unlines ls = unlines ms) : ls = ms := by
  induction ls generalizing ms with
  | nil =>
      cases ms with
      | nil => rfl
      | cons m ms => exact absurd h.symm (unlines_cons_ne m ms)
  | cons l ls ih =>
      cases ms with
      | nil => exact absurd h (unlines_cons_ne l ls)
      | cons m ms =>
          obtain ⟨hl, hls⟩ := List.forall_mem_cons.mp hls
          obtain ⟨hm, hms⟩ := List.forall_mem_cons.mp hms
          have htext := congrArg String.toList h
          rw [toList_unlines_cons, toList_unlines_cons] at htext
          obtain ⟨hline, hrest⟩ := append_cons_inj hl hm htext
          rw [String.toList_inj.mp hline, ih hls hms (String.toList_inj.mp hrest)]

/-- None of the control characters in front of the blank. -/
def Printable (s : String) : Prop := ∀ x ∈ s.toList, 32 ≤ x.toNat

-- Named, since another instance would go through all characters instead of those of the text.
instance (s : String) : Decidable (Printable s) :=
  List.decidableBAll (fun x : Char => 32 ≤ x.toNat) s.toList

theorem printable_toString (n : Nat) : Printable (toString n) := by
  intro x hx
  rw [Nat.toString_eq_ofList_toDigits, String.toList_ofList] at hx
  have hdigit := Nat.isDigit_of_mem_toDigits (by decide) (by decide) hx
  exact Nat.le_trans (by decide) (Char.isDigit_iff_toNat.mp hdigit).1

theorem Printable.append {s t : String} (hs : Printable s) (ht : Printable t) :
    Printable (s ++ t) := by
  intro x hx
  rw [String.toList_append, List.mem_append] at hx
  exact hx.elim (hs x) (ht x)

theorem Printable.not_mem {s : String} (hs : Printable s) {c : Char} (hc : c.toNat < 32) :
    c ∉ s.toList :=
  fun hmem => Nat.not_le_of_lt hc (hs c hmem)

theorem Printable.not_mem_append {s t : String} (hs : Printable s) {c : Char} (hc : c.toNat < 32)
    (ht : c ∉ t.toList) : c ∉ (s ++ t).toList := by
  rw [String.toList_append, List.mem_append, not_or]
  exact ⟨hs.not_mem hc, ht⟩

/-- What comes behind an escape sequence, if one stands in front. Without an `m` there is none. -/
def behindEscape? : List Char → Option (List Char)
  | '\x1b' :: '[' :: rest => (rest.dropWhile (· ≠ 'm')).tail?
  | _ => none

theorem length_behindEscape? {s behind : List Char} (h : behindEscape? s = some behind) :
    behind.length < s.length := by
  unfold behindEscape? at h
  split at h
  next rest =>
    have hle : (rest.dropWhile (· ≠ 'm')).length ≤ rest.length :=
      (List.dropWhile_sublist _).length_le
    cases hd : rest.dropWhile (· ≠ 'm') with
    | nil => rw [hd] at h; cases h
    | cons c cs =>
        rw [hd] at h hle
        cases h
        simp only [List.length_cons] at hle ⊢
        omega
  next => cases h

def dropEscapes : List Char → List Char
  | [] => []
  | c :: rest =>
    match _ : behindEscape? (c :: rest) with
    | some behind => dropEscapes behind
    | none => c :: dropEscapes rest
  termination_by s => s.length
  decreasing_by
    · exact length_behindEscape? ‹_›
    · exact Nat.lt_succ_self _

/-- The text without its escape sequences. -/
def withoutEscapes (s : String) : String := String.ofList (dropEscapes s.toList)

theorem dropEscapes_of_some {s behind : List Char} (h : behindEscape? s = some behind) :
    dropEscapes s = dropEscapes behind := by
  cases s with
  | nil => cases h
  | cons c s =>
      rw [dropEscapes]
      split
      next hb => rw [h] at hb; cases hb; rfl
      next hb => rw [h] at hb; cases hb

theorem dropEscapes_of_none {c : Char} {s : List Char} (h : behindEscape? (c :: s) = none) :
    dropEscapes (c :: s) = c :: dropEscapes s := by
  rw [dropEscapes]
  split
  next hb => rw [h] at hb; cases hb
  next => rfl

theorem behindEscape?_of_ne {c : Char} (h : c ≠ '\x1b') (s : List Char) :
    behindEscape? (c :: s) = none := by
  unfold behindEscape?
  split
  next heq => cases heq; exact absurd rfl h
  next => rfl

theorem behindEscape?_sequence {parameters : List Char} (h : 'm' ∉ parameters) (rest : List Char) :
    behindEscape? ('\x1b' :: '[' :: (parameters ++ 'm' :: rest)) = some rest := by
  rw [behindEscape?, dropWhile_ne_append h, List.tail?_cons]

/-- Wherever `s` stands, `t` is left of it. -/
def Leaves (s t : String) : Prop :=
  ∀ rest, dropEscapes (s.toList ++ rest) = t.toList ++ dropEscapes rest

namespace Leaves

variable {s s' t t' : String}

theorem withoutEscapes_eq (h : Leaves s t) : withoutEscapes s = t := by
  have hall := h []
  rw [List.append_nil, dropEscapes, List.append_nil] at hall
  rw [withoutEscapes, hall, String.ofList_toList]

theorem of_not_mem (h : '\x1b' ∉ s.toList) : Leaves s s := by
  intro rest
  generalize s.toList = cs at h
  induction cs with
  | nil => rfl
  | cons c cs ih =>
      obtain ⟨hc, hcs⟩ := not_or.mp (mt List.mem_cons.mpr h)
      rw [List.cons_append, dropEscapes_of_none (behindEscape?_of_ne (Ne.symm hc) _), ih hcs,
        List.cons_append]

theorem sequence {parameters : String} (h : 'm' ∉ parameters.toList) :
    Leaves ("\x1b[" ++ parameters ++ "m") "" := by
  intro rest
  have hsequence := behindEscape?_sequence h rest
  simpa using dropEscapes_of_some hsequence

theorem append (h : Leaves s t) (h' : Leaves s' t') : Leaves (s ++ s') (t ++ t') := by
  intro rest
  rw [String.toList_append, List.append_assoc, h, h', String.toList_append, List.append_assoc]

theorem unlines {ls ms : List String} (h : List.Forall₂ Leaves ls ms) :
    Leaves (unlines ls) (unlines ms) := by
  induction h with
  | nil => exact of_not_mem (by decide)
  | @cons l m ls ms hl _ ih =>
      have hend : Leaves (l ++ "\n") (m ++ "\n") := hl.append (of_not_mem (by decide))
      simpa [Text.unlines] using hend.append ih

end Leaves
end CodecBuild.Text
