/-!
Unix paths. A path keeps the text it was given; two paths are the same when they have the same components,
so repeated and trailing slashes and inner `.` components do not count.
-/

namespace CodecBuild

structure Path where
  text : String
  deriving DecidableEq, Inhabited

namespace Path

/-- The pieces between slashes that name something: neither empty nor `.`. -/
def pieces (s : String) : List String :=
  ((s.toList.splitOn '/').map String.ofList).filter fun p => p ≠ "" ∧ p ≠ "."

def isAbsolute (p : Path) : Bool := p.text.toList.head? == some '/'

/-- A relative path may start with `.`, which counts as a component there and nowhere else. -/
def startsHere (p : Path) : Bool := p.text.toList.takeWhile (· ≠ '/') == ['.']

def components (p : Path) : List String :=
  (if p.isAbsolute then ["/"] else if p.startsHere then ["."] else []) ++ pieces p.text

/-- Equality of paths, as against equality of their texts. -/
def same (p q : Path) : Bool := p.components == q.components

def isEmpty (p : Path) : Bool := p.text.isEmpty

/-- Goes on from `p`; one slash separates the two unless `p` brings one or is empty. -/
def join (p : Path) (next : String) : Path :=
  if p.isEmpty || p.text.toList.getLast? == some '/' then ⟨p.text ++ next⟩
  else ⟨p.text ++ "/" ++ next⟩

theorem same_refl (p : Path) : p.same p = true := by simp [same]

theorem same_symm {p q : Path} (h : p.same q = true) : q.same p = true := by
  simp only [same, beq_iff_eq] at h ⊢
  exact h.symm

theorem same_trans {p q r : Path} (h₁ : p.same q = true) (h₂ : q.same r = true) :
    p.same r = true := by
  simp only [same, beq_iff_eq] at h₁ h₂ ⊢
  exact h₁.trans h₂

theorem head?_splitOn_slash (s : List Char) :
    (s.splitOn '/').head? = some (s.takeWhile (· ≠ '/')) := by
  induction s with
  | nil => rfl
  | cons c s ih =>
    simp only [List.splitOn] at ih ⊢
    rw [List.splitOnP_cons_eq_if_modifyHead]
    by_cases h : c = '/'
    · simp [h]
    · simp [h, ih]

/-- What stands in front of the first slash is a component, unless there is nothing there: then the
path is absolute, or empty. -/
theorem components_eq_nil_iff {p : Path} : p.components = [] ↔ p.isEmpty = true := by
  constructor
  · intro h
    obtain ⟨hstart, hpieces⟩ := List.append_eq_nil_iff.mp h
    have hstart : p.isAbsolute = false ∧ p.startsHere = false := by
      cases ha : p.isAbsolute <;> cases hs : p.startsHere <;> simp [ha, hs] at hstart ⊢
    have hfirst : p.text.toList.takeWhile (· ≠ '/') ∈ p.text.toList.splitOn '/' :=
      List.mem_of_head? (head?_splitOn_slash p.text.toList)
    have hnone : String.ofList (p.text.toList.takeWhile (· ≠ '/')) ∉ pieces p.text := by
      simp [hpieces]
    have hnil : p.text.toList.takeWhile (· ≠ '/') = [] := by
      have hdot : p.text.toList.takeWhile (· ≠ '/') ≠ ['.'] := by simpa [startsHere] using hstart.2
      apply Decidable.byContradiction
      intro hne
      apply hnone
      refine List.mem_filter.mpr ⟨List.mem_map_of_mem hfirst, decide_eq_true ⟨?_, ?_⟩⟩
      · exact fun he => hne (String.ofList_inj.mp he)
      · exact fun he => hdot (String.ofList_inj.mp he)
    cases htext : p.text.toList with
    | nil => simpa [isEmpty] using htext
    | cons c s =>
      have hslash : c = '/' := by simpa [htext, List.takeWhile_cons] using hnil
      simp [isAbsolute, htext, hslash] at hstart
  · intro h
    rw [isEmpty, String.isEmpty_iff] at h
    obtain rfl : p = ⟨""⟩ := by cases p; simp_all
    decide

theorem isEmpty_congr {p q : Path} (h : p.same q = true) : p.isEmpty = q.isEmpty := by
  rw [Bool.eq_iff_iff, ← components_eq_nil_iff, ← components_eq_nil_iff, beq_iff_eq.mp h]

end Path
end CodecBuild
