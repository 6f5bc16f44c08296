import CodecBuild.Configuration.Resolution
import Mathlib.Data.List.Infix
import Mathlib.Data.List.Nodup

/-!
Suggestions for a name that no flag has. Of the name only the ASCII letters and digits count, and
these up to letter case: a flag is suggested if there are at least four of them and they stand in a
row in the name of the flag. So all spellings of a name have the same suggestions, and a flag is among
those for every spelling of its own name.
-/

namespace CodecBuild

namespace Text

/-- What counts of a name. The letters and digits are those of ASCII. -/
def lettersAndDigits (s : String) : String := String.ofList (s.toList.filter Char.isAlphanum)

/-- The texts have the same letters and digits up to letter case, whatever else is in them. -/
def Respells (s t : String) : Prop := sameUpToCase (lettersAndDigits s) (lettersAndDigits t) = true

/-- Up to letter case, the letters and digits of `s` stand in a row among those of `t`. -/
def SpelledIn (s t : String) : Prop :=
  ∃ part : String, part.toList <:+: (lettersAndDigits t).toList ∧
    sameUpToCase (lettersAndDigits s) part = true

variable {s t : String}

theorem Respells.spelledIn (h : Respells s t) : SpelledIn s t := ⟨_, List.infix_rfl, h⟩

theorem Respells.length_eq (h : Respells s t) :
    (lettersAndDigits s).length = (lettersAndDigits t).length := by
  have hlength := congrArg List.length (sameUpToCase_iff.mp h)
  rwa [List.length_map, List.length_map, String.length_toList, String.length_toList] at hlength

end Text

namespace Flag

open Text

variable {f : Flag} {s t : String}

theorem skeleton_eq_map (s : String) :
    skeleton s = (lettersAndDigits s).toList.map Char.toUpper := by
  rw [skeleton, lettersAndDigits, String.toList_ofList]

theorem length_skeleton (s : String) : (skeleton s).length = (lettersAndDigits s).length := by
  rw [skeleton_eq_map, List.length_map, String.length_toList]

theorem skeleton_eq_iff : skeleton s = skeleton t ↔ Respells s t := by
  rw [skeleton_eq_map, skeleton_eq_map, Respells, sameUpToCase_iff]

theorem skeleton_infix_iff : skeleton s <:+: skeleton t ↔ SpelledIn s t := by
  rw [skeleton_eq_map, skeleton_eq_map, List.infix_map_iff]
  constructor
  · rintro ⟨part, hpart, hsame⟩
    exact ⟨String.ofList part, by simpa using hpart, sameUpToCase_iff.mpr (by simpa using hsame)⟩
  · rintro ⟨part, hpart, hsame⟩
    exact ⟨part.toList, hpart, sameUpToCase_iff.mp hsame⟩

theorem four_le_length_name (f : Flag) : 4 ≤ (lettersAndDigits f.name).length := by
  rw [← length_skeleton]
  cases f <;> decide

theorem long_spelledIn_of_respells (h : Respells s f.name) :
    4 ≤ (lettersAndDigits s).length ∧ SpelledIn s f.name := by
  rw [h.length_eq]
  exact ⟨four_le_length_name f, h.spelledIn⟩

/-- No flag has a short name, so respellings of a name fall under the rule for parts of it. -/
theorem mem_suggestions_iff :
    f ∈ suggestions s ↔ 4 ≤ (lettersAndDigits s).length ∧ SpelledIn s f.name := by
  have hresembles : f ∈ suggestions s ↔
      Respells s f.name ∨ 4 ≤ (lettersAndDigits s).length ∧ SpelledIn s f.name := by
    rw [← skeleton_eq_iff, ← skeleton_infix_iff, ← length_skeleton, eq_comm]
    simp [suggestions, mem_all, resembles, occursIn_iff]
  rw [hresembles]
  exact or_iff_right_of_imp long_spelledIn_of_respells

theorem suggestions_congr (h : Respells s t) : suggestions s = suggestions t := by
  simp only [suggestions, resembles, skeleton_eq_iff.mpr h]

theorem suggestions_of_short (h : (lettersAndDigits s).length < 4) : suggestions s = [] :=
  List.eq_nil_iff_forall_not_mem.mpr fun _ hf => Nat.not_le_of_lt h (mem_suggestions_iff.mp hf).1

theorem names_suggestions_sublist (s : String) :
    ((suggestions s).map name).Sublist (all.map name) :=
  List.filter_sublist.map name

theorem nodup_names_suggestions (s : String) : ((suggestions s).map name).Nodup :=
  (all_nodup.filter _).map fun _ _ => name_injective

theorem lookup_eq_ok_iff : lookup s = .ok f ↔ f.name = s := by
  rw [← ofName?_eq_some_iff, lookup]
  cases ofName? s <;> simp

theorem lookup_of_unnamed (h : ∀ f : Flag, f.name ≠ s) :
    lookup s = .error (.unknownFlag s (suggestions s)) := by
  have hnone : ofName? s = none :=
    Option.eq_none_iff_forall_ne_some.mpr fun f hf => h f (name_of_ofName? hf)
  rw [lookup, hnone]

/-- A text is looked up as it stands. If no flag has it for a name, it comes back together with
suggestions, in the order of the flags and each of them once. These depend on the letters and digits
of the text only: they are the flags in whose names these stand in a row, and there are none if the
letters and digits are fewer than four. -/
theorem lookup_suggests_by_letters (s : String) :
    (∀ f, lookup s = .ok f ↔ f.name = s) ∧
    ((∀ f : Flag, f.name ≠ s) → ∃ fs : List Flag,
      lookup s = .error (.unknownFlag s fs) ∧
      (fs.map name).Sublist (all.map name) ∧ (fs.map name).Nodup ∧
      (∀ f, f ∈ fs ↔ 4 ≤ (lettersAndDigits s).length ∧ SpelledIn s f.name) ∧
      (∀ t, (∀ f : Flag, f.name ≠ t) → Respells s t → lookup t = .error (.unknownFlag t fs)) ∧
      (∀ f : Flag, Respells s f.name → f ∈ fs) ∧
      ((lettersAndDigits s).length < 4 → fs = [])) := by
  refine ⟨fun _ => lookup_eq_ok_iff, fun hs => ⟨suggestions s, lookup_of_unnamed hs, ?_⟩⟩
  refine ⟨names_suggestions_sublist s, nodup_names_suggestions s, fun _ => mem_suggestions_iff,
    ?_, ?_, suggestions_of_short⟩
  · intro t ht hrespells
    rw [suggestions_congr hrespells]
    exact lookup_of_unnamed ht
  · intro f hrespells
    exact mem_suggestions_iff.mpr (long_spelledIn_of_respells hrespells)

/-- A name in other letters, and one with other characters in between: both are taken for
`BUILD_JPWL`, and neither for `WITH_JPWL`. -/
theorem respelled_names_suggested :
    let s := "buildJpwl"
    let t := "\u00abBUILD\u00bb \u2013 jp_wl"
    (∀ f : Flag, f.name ≠ s) ∧ (∀ f : Flag, f.name ≠ t) ∧ Respells s t ∧
      Respells s (name buildJPWL) ∧ lookup s = .error (.unknownFlag s [buildJPWL]) ∧
      lookup t = .error (.unknownFlag t [buildJPWL]) := by
  intro s t
  have hs : ∀ f : Flag, f.name ≠ s := by decide
  have ht : ∀ f : Flag, f.name ≠ t := by decide
  have hrespells : Respells s t := skeleton_eq_iff.mp (by decide)
  have hlookup : lookup s = .error (.unknownFlag s [buildJPWL]) := by decide
  obtain ⟨-, hunnamed⟩ := lookup_suggests_by_letters s
  obtain ⟨fs, hfs, -, -, -, halike, -, -⟩ := hunnamed hs
  obtain rfl : fs = [buildJPWL] := by
    rw [hlookup] at hfs
    simpa using hfs.symm
  exact ⟨hs, ht, hrespells, skeleton_eq_iff.mp (by decide), hlookup, halike t ht hrespells⟩

/-- Four letters that two names have in common, and one letter less. -/
example : suggestions "jpwl" = [buildJPWL, withJPWL] ∧ suggestions "j-p-w-\u00e9" = [] := by decide

end Flag
end CodecBuild
