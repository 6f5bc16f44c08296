/-!
White space of Unicode text, and the two operations that depend on it: trimming a text at both ends and
splitting it into words. Trimming undoes padding: what is left has no white space at its ends, and only white
space is lost.
-/

namespace CodecBuild.Text

/-- The 25 characters with the property White_Space. -/
def isBlank (c : Char) : Bool :=
  let n := c.toNat
  (9 ≤ n && n ≤ 13) || n == 0x20 || n == 0x85 || n == 0xA0 || n == 0x1680 ||
    (0x2000 ≤ n && n ≤ 0x200A) || n == 0x2028 || n == 0x2029 || n == 0x202F || n == 0x205F ||
    n == 0x3000

def trimStart (s : List Char) : List Char := s.dropWhile isBlank

def trimEnd (s : List Char) : List Char := (s.reverse.dropWhile isBlank).reverse

def trim (s : List Char) : List Char := trimEnd (trimStart s)

/-- The maximal runs without blanks, in order; `run` is the word read so far. -/
def wordsFrom (run : List Char) : List Char → List (List Char)
  | [] => if run.isEmpty then [] else [run]
  | c :: rest =>
    if isBlank c then
      if run.isEmpty then wordsFrom [] rest else run :: wordsFrom [] rest
    else wordsFrom (run ++ [c]) rest

def words (s : String) : List String := (wordsFrom [] s.toList).map String.ofList

theorem trimStart_cons_of_not_blank {c : Char} {s : List Char} (h : isBlank c = false) :
    trimStart (c :: s) = c :: s := by
  simp [trimStart, h]

/-- No white space at either end. -/
def IsTrimmed (s : String) : Prop :=
  (∀ c ∈ s.toList.head?, isBlank c = false) ∧ ∀ c ∈ s.toList.getLast?, isBlank c = false

-- The ends are looked at, not all characters there are.
instance (s : String) : Decidable (IsTrimmed s) :=
  @instDecidableAnd _ _ (Option.decidableForallMem _) (Option.decidableForallMem _)

theorem trimStart_eq_self {s : List Char} (h : ∀ c ∈ s.head?, isBlank c = false) :
    trimStart s = s := by
  cases s with
  | nil => rfl
  | cons c s => exact trimStart_cons_of_not_blank (h c rfl)

theorem trimEnd_eq_self {s : List Char} (h : ∀ c ∈ s.getLast?, isBlank c = false) :
    trimEnd s = s := by
  have hreverse : trimStart s.reverse = s.reverse := by
    apply trimStart_eq_self
    rw [List.head?_reverse]
    exact h
  rw [trimStart] at hreverse
  rw [trimEnd, hreverse, List.reverse_reverse]

/-- `padded` is `s` between white space; there may be none on either side. -/
def Pads (s padded : String) : Prop :=
  ∃ before after : String, (∀ c ∈ before.toList, isBlank c = true) ∧
    (∀ c ∈ after.toList, isBlank c = true) ∧ padded = before ++ s ++ after

theorem trimStart_append_of_blank {before : List Char} (h : ∀ c ∈ before, isBlank c = true)
    (s : List Char) : trimStart (before ++ s) = trimStart s :=
  List.dropWhile_append_of_pos h

theorem trimEnd_append_of_blank {after : List Char} (h : ∀ c ∈ after, isBlank c = true)
    (s : List Char) : trimEnd (s ++ after) = trimEnd s := by
  have hreverse : ∀ c ∈ after.reverse, isBlank c = true := fun c hc => h c (List.mem_reverse.mp hc)
  rw [trimEnd, List.reverse_append, List.dropWhile_append_of_pos hreverse, trimEnd]

theorem trim_of_pads {s padded : String} (h : IsTrimmed s) (hpads : Pads s padded) :
    trim padded.toList = s.toList := by
  obtain ⟨before, after, hbefore, hafter, rfl⟩ := hpads
  rw [String.toList_append, String.toList_append, List.append_assoc, trim,
    trimStart_append_of_blank hbefore]
  cases hs : s.toList with
  | nil =>
      have hnil : trimStart (after.toList ++ []) = [] := trimStart_append_of_blank hafter []
      rw [List.append_nil] at hnil
      rw [List.nil_append, hnil]
      rfl
  | cons c rest =>
      have hc : isBlank c = false := h.1 c (by rw [hs]; rfl)
      rw [List.cons_append, trimStart_cons_of_not_blank hc, ← List.cons_append, ← hs,
        trimEnd_append_of_blank hafter, trimEnd_eq_self h.2]

theorem exists_trimStart (s : List Char) :
    ∃ before, (∀ c ∈ before, isBlank c = true) ∧ s = before ++ trimStart s :=
  ⟨s.takeWhile isBlank, List.all_eq_true.mp List.all_takeWhile, List.takeWhile_append_dropWhile.symm⟩

theorem exists_trimEnd (s : List Char) :
    ∃ after, (∀ c ∈ after, isBlank c = true) ∧ s = trimEnd s ++ after := by
  obtain ⟨rest, hblank, hs⟩ := exists_trimStart s.reverse
  refine ⟨rest.reverse, fun c hc => hblank c (List.mem_reverse.mp hc), ?_⟩
  rw [trimEnd, ← List.reverse_append]
  exact List.reverse_eq_iff.mp hs

theorem head?_trimStart (s : List Char) : ∀ c ∈ (trimStart s).head?, isBlank c = false := by
  intro c hc
  have hfirst := List.head?_dropWhile_not isBlank s
  rw [trimStart] at hc
  simpa [Option.mem_def.mp hc] using hfirst

theorem getLast?_trimEnd (s : List Char) : ∀ c ∈ (trimEnd s).getLast?, isBlank c = false := by
  rw [trimEnd, List.getLast?_reverse]
  exact head?_trimStart s.reverse

theorem isTrimmed_trim (s : List Char) : IsTrimmed (String.ofList (trim s)) := by
  rw [IsTrimmed, String.toList_ofList]
  refine ⟨fun c hc => head?_trimStart s c ?_, getLast?_trimEnd (trimStart s)⟩
  obtain ⟨after, -, hs⟩ := exists_trimEnd (trimStart s)
  rw [hs, List.head?_append]
  rw [trim, Option.mem_def] at hc
  rw [hc, Option.some_or]
  exact Option.mem_some_self c

theorem pads_trim (s : String) : Pads (String.ofList (trim s.toList)) s := by
  obtain ⟨before, hbefore, hs⟩ := exists_trimStart s.toList
  obtain ⟨after, hafter, hrest⟩ := exists_trimEnd (trimStart s.toList)
  refine ⟨String.ofList before, String.ofList after, by simpa using hbefore, by simpa using hafter, ?_⟩
  apply String.toList_inj.mp
  simp only [String.toList_append, String.toList_ofList, List.append_assoc]
  rw [trim, ← hrest]
  exact hs

end CodecBuild.Text

