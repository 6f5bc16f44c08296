import CodecBuild.Proofs.Flag.Coercion

/-!
The difference between two assignments as a patch. Written over a base, a patch decides where it
has a value, and elsewhere the base does. A difference has values just where the two do not agree;
there every patch that leads from one to the other must have a value, for the base has none that
would do.
-/

namespace CodecBuild.Assignment

variable {a base d : Assignment} {f : Flag}

/-- Inserts all entries of `d` into `base`, one after the other. -/
def patch (base d : Assignment) : Assignment := d.entries.foldl (fun b e => b.insert e.1 e.2) base

theorem get?_patch (base d : Assignment) (f : Flag) :
    (base.patch d).get? f = (d.get? f).or (base.get? f) := by
  suffices h : ∀ fs : List Flag, ((fs.filterMap fun g => (d.get? g).map (g, ·)).foldl
      (fun b e => b.insert e.1 e.2) base).get? f =
        if f ∈ fs then (d.get? f).or (base.get? f) else base.get? f from
    (h Flag.all).trans (if_pos (Flag.mem_all f))
  intro fs
  induction fs generalizing base with
  | nil => rfl
  | cons g fs ih =>
      cases hg : d.get? g with
      | none =>
          rw [List.filterMap_cons_none (by rw [hg]; rfl), ih]
          by_cases hf : f = g
          · simp [hf, hg]
          · simp [hf]
      | some v =>
          rw [List.filterMap_cons_some (by rw [hg]; rfl), List.foldl_cons, ih]
          by_cases hf : f = g
          · simp [hf, hg, get?_insert_self]
          · simp [hf, get?_insert_of_ne]

theorem agree_refl (x : Option FlagValue) : agree x x = true := by
  cases x with
  | none => rfl
  | some v => exact v.same_refl

theorem same_iff {b : Assignment} : a.same b = true ↔ ∀ f, agree (a.get? f) (b.get? f) = true := by
  rw [same, List.all_eq_true]
  exact ⟨fun h f => h f (Flag.mem_all f), fun h f _ => h f⟩

theorem get?_diff (a base : Assignment) (f : Flag) :
    (a.diff base).get? f = if a.differs base f then a.get? f else none := rfl

theorem contains_diff (a base : Assignment) (f : Flag) :
    (a.diff base).contains f = a.differs base f := by
  cases hd : a.differs base f with
  | true =>
      have ha : a.contains f = true := (Bool.and_eq_true_iff.mp hd).1
      rwa [contains, get?_diff, if_pos hd]
  | false => rw [contains, get?_diff, hd]; rfl

theorem agree_of_not_differs (hd : a.differs base f = false)
    (h : base.contains f = true → a.contains f = true) :
    agree (a.get? f) (base.get? f) = true := by
  cases ha : a.get? f with
  | some v => simpa [differs, contains, ha] using hd
  | none =>
      cases hb : base.get? f with
      | none => rfl
      | some w => simpa [contains, ha] using h (by simp [contains, hb])

theorem same_patch_diff (h : ∀ f, base.contains f = true → a.contains f = true) :
    (base.patch (a.diff base)).same a = true := by
  rw [same_iff]
  intro f
  rw [get?_patch, get?_diff]
  cases hd : a.differs base f with
  | true =>
      obtain ⟨v, hv⟩ := Option.isSome_iff_exists.mp (Bool.and_eq_true_iff.mp hd).1
      rw [if_pos rfl, hv, Option.some_or]
      exact agree_refl _
  | false =>
      rw [if_neg Bool.false_ne_true, Option.none_or, agree_comm]
      exact agree_of_not_differs hd (h f)

theorem contains_of_same_patch (h : (base.patch d).same a = true) (hd : a.differs base f = true) :
    d.contains f = true := by
  cases hdf : d.get? f with
  | some v => simp [contains, hdf]
  | none =>
      have hagree := same_iff.mp h f
      rw [get?_patch, hdf, Option.none_or, agree_comm] at hagree
      simp [differs, hagree] at hd

theorem diff_self (a : Assignment) : a.diff a = .empty := by
  refine Assignment.ext (funext fun f => ?_)
  simp [get?_diff, differs, agree_refl, empty]

/-- Patched with the difference, a base with no flag of its own is equal to the assignment. Every
patch that does as much has a value for each flag of the difference. -/
theorem diff_is_least_patch (h : ∀ f, base.contains f = true → a.contains f = true) :
    (base.patch (a.diff base)).same a = true ∧
      (∀ d : Assignment, (base.patch d).same a = true →
        ∀ f, (a.diff base).contains f = true → d.contains f = true) ∧
      (a.diff a).isEmpty = true := by
  refine ⟨same_patch_diff h, ?_, ?_⟩
  · intro d hd f hf
    rw [contains_diff] at hf
    exact contains_of_same_patch hd hf
  · rw [diff_self]
    rfl

/-- A path with slashes to spare is left alone, a text is not taken for a choice, and a flag of the
base's that is set otherwise is written again. -/
theorem respelled_path_left_alone :
    let base : Assignment := Assignment.empty
      |>.insert .cmakeInstallPrefix (.path ⟨"/opt//j2k/."⟩)
      |>.insert .cmakeBuildType (.choice "Debug")
      |>.insert .buildMJ2 (.bool false)
    let a : Assignment := Assignment.empty
      |>.insert .cmakeInstallPrefix (.path ⟨"/opt/j2k"⟩)
      |>.insert .cmakeBuildType (.text "Debug")
      |>.insert .buildMJ2 (.bool true)
      |>.insert .conformanceDataRoot (.path ⟨""⟩)
    (a.diff base).entries = [(.buildMJ2, .bool true), (.cmakeBuildType, .text "Debug"),
        (.conformanceDataRoot, .path ⟨""⟩)] ∧
      (base.patch (a.diff base)).same a = true ∧ base.patch (a.diff base) ≠ a ∧
      (base.patch a).same a = true ∧
      ∀ f, (a.diff base).contains f = true → a.contains f = true := by
  intro base a
  have hsubset : ∀ f, base.contains f = true → a.contains f = true := by decide
  obtain ⟨hsame, hleast, -⟩ := diff_is_least_patch hsubset
  have hwhole : (base.patch a).same a = true := by decide
  exact ⟨by decide, hsame, by decide, hwhole, hleast a hwhole⟩

end CodecBuild.Assignment
