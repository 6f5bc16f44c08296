import CodecBuild.Overrides
import CodecBuild.Text.Basic
import Mathlib.Data.List.TakeWhile

/-!
The grammar of assignments. A text is an assignment if one of two rules writes it, with a type behind
the name or without one, and reading it finds the name and the value that it was written from. Every
text with an equals sign is written by one of the rules, though perhaps with nothing for a name.
-/

namespace CodecBuild

theorem Text.Pads.mem_iff {s padded : String} {c : Char} (h : Pads s padded)
    (hc : isBlank c = false) : c ∈ padded.toList ↔ c ∈ s.toList := by
  obtain ⟨before, after, hbefore, hafter, rfl⟩ := h
  have hbefore : c ∉ before.toList := fun hmem => by simp [hbefore c hmem] at hc
  have hafter : c ∉ after.toList := fun hmem => by simp [hafter c hmem] at hc
  simp [hbefore, hafter]

theorem Text.Pads.refl (s : String) : Pads s s := ⟨"", "", by simp, by simp, by simp⟩

namespace Overrides

/-- A name without separators and without white space at its ends. It may be empty, but then there is
nothing to assign to. -/
structure Bare (n : String) : Prop where
  noEquals : '=' ∉ n.toList
  noColon : ':' ∉ n.toList
  trimmed : Text.IsTrimmed n

/-- The texts that give the value `v` to the name `n`. -/
inductive Assigns (n v : String) : String → Prop
  | plain {name value : String} (padsName : Text.Pads n name) (padsValue : Text.Pads v value) :
      Assigns n v (name ++ "=" ++ value)
  | typed {name type value : String} (padsName : Text.Pads n name) (noEquals : '=' ∉ type.toList)
      (padsValue : Text.Pads v value) : Assigns n v (name ++ ":" ++ type ++ "=" ++ value)

variable {n v s : String}

theorem readAssignment_of_cut {front : List Char} {name value : String}
    (htext : s.toList = front ++ '=' :: value.toList) (hfront : '=' ∉ front)
    (hcut : front.takeWhile (· ≠ ':') = name.toList) (hn : Text.IsTrimmed n)
    (hv : Text.IsTrimmed v) (hname : Text.Pads n name) (hvalue : Text.Pads v value) :
    readAssignment s = if n = "" then .error (.noName s) else .ok (n, .text v) := by
  rw [readAssignment, htext, Text.dropWhile_ne_append hfront, Text.takeWhile_ne_append hfront, hcut,
    Text.trim_of_pads hn hname]
  simp [Text.trim_of_pads hv hvalue]

/-- A text is read back to what it was written from. -/
theorem readAssignment_of_assigns (hn : Bare n) (hv : Text.IsTrimmed v) (h : Assigns n v s) :
    readAssignment s = if n = "" then .error (.noName s) else .ok (n, .text v) := by
  cases h with
  | @plain name value padsName padsValue =>
      have hequals : '=' ∉ name.toList := mt (padsName.mem_iff (by decide)).mp hn.noEquals
      have hcolon : ':' ∉ name.toList := mt (padsName.mem_iff (by decide)).mp hn.noColon
      refine readAssignment_of_cut (by simp) hequals ?_ hn.trimmed hv padsName padsValue
      exact List.takeWhile_eq_self_iff.mpr (Text.ne_of_not_mem hcolon)
  | @typed name type value padsName noEquals padsValue =>
      have hequals : '=' ∉ name.toList := mt (padsName.mem_iff (by decide)).mp hn.noEquals
      have hcolon : ':' ∉ name.toList := mt (padsName.mem_iff (by decide)).mp hn.noColon
      have hfront : '=' ∉ name.toList ++ ':' :: type.toList := by simp [hequals, noEquals]
      refine readAssignment_of_cut (by simp) hfront ?_ hn.trimmed hv padsName padsValue
      exact Text.takeWhile_ne_append hcolon type.toList

theorem bare_trim {name : String} (hequals : '=' ∉ name.toList) (hcolon : ':' ∉ name.toList) :
    Bare (String.ofList (Text.trim name.toList)) where
  noEquals := mt ((Text.pads_trim name).mem_iff (by decide)).mpr hequals
  noColon := mt ((Text.pads_trim name).mem_iff (by decide)).mpr hcolon
  trimmed := Text.isTrimmed_trim name.toList

/-- The first equals sign parts the text, and the first colon in front of it cuts off a type. -/
theorem exists_assigns (h : '=' ∈ s.toList) :
    ∃ n v, Bare n ∧ Text.IsTrimmed v ∧ Assigns n v s := by
  obtain ⟨front, value, hs, hfront⟩ := List.eq_append_cons_of_mem h
  by_cases hcolon : ':' ∈ front
  · obtain ⟨name, type, rfl, hname⟩ := List.eq_append_cons_of_mem hcolon
    have hs : s = String.ofList name ++ ":" ++ String.ofList type ++ "=" ++ String.ofList value :=
      String.toList_inj.mp (by simpa using hs)
    rw [hs]
    simp only [List.mem_append, List.mem_cons, not_or] at hfront
    exact ⟨_, _, bare_trim (by simpa using hfront.1) (by simpa using hname), Text.isTrimmed_trim _,
      .typed (Text.pads_trim _) (by simpa using hfront.2.2) (Text.pads_trim _)⟩
  · have hs : s = String.ofList front ++ "=" ++ String.ofList value :=
      String.toList_inj.mp (by simpa using hs)
    rw [hs]
    exact ⟨_, _, bare_trim (by simpa using hfront) (by simpa using hcolon), Text.isTrimmed_trim _,
      .plain (Text.pads_trim _) (Text.pads_trim _)⟩

theorem Assigns.exists_trimmed (h : Assigns n v s) : ∃ w, Text.IsTrimmed w ∧ Assigns n w s := by
  cases h with
  | plain padsName _ => exact ⟨_, Text.isTrimmed_trim _, .plain padsName (Text.pads_trim _)⟩
  | typed padsName noEquals _ =>
      exact ⟨_, Text.isTrimmed_trim _, .typed padsName noEquals (Text.pads_trim _)⟩

theorem readAssignment_of_not_mem (h : '=' ∉ s.toList) :
    readAssignment s = .error (.noEqualsSign s) := by
  have hnone : s.toList.dropWhile (· ≠ '=') = [] :=
    List.dropWhile_eq_nil_iff.mpr (Text.ne_of_not_mem h)
  rw [readAssignment, hnone]

theorem readAssignment_eq_error_iff {e : OverrideError} : readAssignment s = .error e ↔
    (e = .noEqualsSign s ∧ '=' ∉ s.toList) ∨ (e = .noName s ∧ ∃ v, Assigns "" v s) := by
  constructor
  · intro he
    by_cases h : '=' ∈ s.toList
    · obtain ⟨n, v, hn, hv, hs⟩ := exists_assigns h
      rw [readAssignment_of_assigns hn hv hs] at he
      by_cases hempty : n = ""
      · rw [if_pos hempty] at he
        exact .inr ⟨(Except.error.inj he).symm, v, hempty ▸ hs⟩
      · rw [if_neg hempty] at he
        cases he
    · rw [readAssignment_of_not_mem h] at he
      exact .inl ⟨(Except.error.inj he).symm, h⟩
  · rintro (⟨rfl, h⟩ | ⟨rfl, v, hs⟩)
    · exact readAssignment_of_not_mem h
    · obtain ⟨w, hw, hs⟩ := hs.exists_trimmed
      rw [readAssignment_of_assigns ⟨by decide, by decide, by decide⟩ hw hs, if_pos rfl]

theorem readAssignment_eq_ok_iff {raw : RawValue} : readAssignment s = .ok (n, raw) ↔
    n ≠ "" ∧ Bare n ∧ ∃ v, raw = .text v ∧ Text.IsTrimmed v ∧ Assigns n v s := by
  constructor
  · intro hok
    by_cases h : '=' ∈ s.toList
    · obtain ⟨m, v, hm, hv, hs⟩ := exists_assigns h
      rw [readAssignment_of_assigns hm hv hs] at hok
      by_cases hempty : m = ""
      · rw [if_pos hempty] at hok
        cases hok
      · rw [if_neg hempty] at hok
        cases hok
        exact ⟨hempty, hm, v, rfl, hv, hs⟩
    · rw [readAssignment_of_not_mem h] at hok
      cases hok
  · rintro ⟨hne, hn, v, rfl, hv, hs⟩
    rw [readAssignment_of_assigns hn hv hs, if_neg hne]

/-- A text is read as an assignment exactly if it is one, and refused only for want of an equals sign
or of a name. What is read can be written with no more than an equals sign between. -/
theorem readAssignment_follows_grammar (s : String) :
    (∀ e, readAssignment s = .error e ↔
      (e = .noEqualsSign s ∧ '=' ∉ s.toList) ∨ (e = .noName s ∧ ∃ v, Assigns "" v s)) ∧
    (∀ n raw, readAssignment s = .ok (n, raw) ↔
      n ≠ "" ∧ Bare n ∧ ∃ v, raw = .text v ∧ Text.IsTrimmed v ∧ Assigns n v s) ∧
    ∀ n v, readAssignment s = .ok (n, .text v) →
      readAssignment (n ++ "=" ++ v) = .ok (n, .text v) := by
  refine ⟨fun _ => readAssignment_eq_error_iff, fun _ _ => readAssignment_eq_ok_iff, ?_⟩
  intro n v h
  obtain ⟨hne, hn, w, hw, hv, -⟩ := readAssignment_eq_ok_iff.mp h
  cases hw
  exact readAssignment_eq_ok_iff.mpr
    ⟨hne, hn, v, rfl, hv, .plain (Text.Pads.refl n) (Text.Pads.refl v)⟩

/-- White space of several kinds, a type with a colon in it, and a value with both separators; then
the same without any of it. -/
theorem spaced_assignment_rejoined :
    let s := "\tBUILD_MJ2\u2003:BOOL:x= a=b:\u00a0"
    readAssignment s = .ok ("BUILD_MJ2", .text "a=b:") ∧
      readAssignment ("BUILD_MJ2" ++ "=" ++ "a=b:") = .ok ("BUILD_MJ2", .text "a=b:") := by
  intro s
  have h : readAssignment s = .ok ("BUILD_MJ2", .text "a=b:") := by decide
  exact ⟨h, (readAssignment_follows_grammar s).2.2 _ _ h⟩

end Overrides
end CodecBuild
