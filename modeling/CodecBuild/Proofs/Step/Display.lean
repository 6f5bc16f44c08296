import CodecBuild.Proofs.Text.Separated
import CodecBuild.Step.Basic

/-!
Reading displayed commands. An argument is put in quotes because of the blanks in it, and blanks
stand between the arguments; so a quote in front tells where a word ends. Of arguments that are not
empty and hold no quotes themselves, nothing gets lost.
-/

namespace CodecBuild.Step

open Reader

def quotedWord : Reader String := do
  let _ ← char '"'
  let cs ← takeWhile (· ≠ '"')
  let _ ← char '"'
  return String.ofList cs

def bareWord : Reader String := do return String.ofList (← takeWhile1 (· ≠ ' '))

/-- A word that starts with a quote runs to the next quote, any other to the next blank. -/
def word : Reader String := do if (← peek?) = some '"' then quotedWord else bareWord

/-- The words of a displayed command, which may have none. -/
def words? (text : String) : Option (List String) :=
  readAll? (sepBy1 word (char ' ') <|> pure []) text

/-- An argument that its display stands for: there is something to show, and no quote in it. -/
def Legible (arg : String) : Prop := arg ≠ "" ∧ '"' ∉ arg.toList

instance (arg : String) : Decidable (Legible arg) :=
  inferInstanceAs (Decidable (arg ≠ "" ∧ '"' ∉ arg.toList))

variable {arg : String} {rest : List Char}

theorem quotedWord_eq (h : '"' ∉ arg.toList) (rest : List Char) :
    quotedWord ('"' :: (arg.toList ++ '"' :: rest)) = some (arg, rest) := by
  have hquote := takeWhile_of_behind h (behind_cons '"' rest)
  rw [quotedWord, bind_of_some (char_cons _ _), bind_of_some hquote, bind_of_some (char_cons _ _),
    String.ofList_toList]
  rfl

theorem bareWord_eq (hne : arg ≠ "") (h : ' ' ∉ arg.toList) (hrest : Behind ' ' rest) :
    bareWord (arg.toList ++ rest) = some (arg, rest) := by
  have hnil : arg.toList ≠ [] := mt String.toList_eq_nil_iff.mp hne
  rw [bareWord, bind_of_some (takeWhile1_of_takeWhile hnil (takeWhile_of_behind h hrest)),
    String.ofList_toList]
  rfl

theorem word_of_quote (s : List Char) : word ('"' :: s) = quotedWord ('"' :: s) := rfl

theorem word_of_ne_quote {c : Char} (h : c ≠ '"') (s : List Char) :
    word (c :: s) = bareWord (c :: s) := by
  have hpeek : peek? (c :: s) = some (some c, c :: s) := rfl
  rw [word, bind_of_some hpeek, if_neg fun he => h (Option.some.inj he)]

theorem word_displayArgument (h : Legible arg) (hrest : Behind ' ' rest) :
    word (displayArgument arg ++ rest) = some (arg, rest) := by
  obtain ⟨hne, hquote⟩ := h
  rw [displayArgument]
  split
  next =>
    rw [List.cons_append, List.append_assoc, word_of_quote]
    exact quotedWord_eq hquote rest
  next hblank =>
    have hbare := bareWord_eq hne hblank hrest
    obtain ⟨c, cs, hcs⟩ := List.exists_cons_of_ne_nil (mt String.toList_eq_nil_iff.mp hne)
    rw [hcs] at hbare hquote ⊢
    rw [List.cons_append] at hbare ⊢
    rw [word_of_ne_quote fun he => hquote (he ▸ List.mem_cons_self)]
    exact hbare

theorem words?_displayCommand {s : Step} (h : ∀ arg ∈ s.command, Legible arg) :
    words? s.displayCommand = some s.command := by
  apply readAll?_of_some
  rw [displayCommand, String.toList_ofList]
  cases hc : s.command with
  | nil => rfl
  | cons arg args =>
      rw [hc] at h
      refine orElse_of_some (sepBy1_intercalate ?_) _
      intro y hy rest hrest
      exact word_displayArgument (h y hy) hrest

/-- The words of a displayed command are its arguments, as long as these are legible, wherever
there are blanks in them; so commands that are displayed alike are the same. -/
theorem displayed_command_reads_back {s : Step} (hs : ∀ arg ∈ s.command, Legible arg) :
    words? s.displayCommand = some s.command ∧
      ∀ t : Step, (∀ arg ∈ t.command, Legible arg) → s.displayCommand = t.displayCommand →
        s.command = t.command := by
  refine ⟨words?_displayCommand hs, ?_⟩
  intro t ht hsame
  have hwords := words?_displayCommand ht
  rw [← hsame, words?_displayCommand hs] at hwords
  exact Option.some.inj hwords

/-- An argument of blanks only, and arguments that start and end in blanks. -/
theorem blank_arguments_read_back :
    let s : Step := .plain .build ["make", " ", "-C ", "  src  dir", "all"]
    let t : Step := .plain .build ["make", "  ", "-C", "  src  dir", "all"]
    s.displayCommand = "make \" \" \"-C \" \"  src  dir\" all" ∧
      words? "make \" \" \"-C \" \"  src  dir\" all" = some s.command ∧
      s.displayCommand ≠ t.displayCommand := by
  intro s t
  have hs : ∀ arg ∈ s.command, Legible arg := by decide
  have ht : ∀ arg ∈ t.command, Legible arg := by decide
  have hshown : s.displayCommand = "make \" \" \"-C \" \"  src  dir\" all" := by decide
  obtain ⟨hread, halike⟩ := displayed_command_reads_back hs
  exact ⟨hshown, hshown ▸ hread, fun hsame => absurd (halike t ht hsame) (by decide)⟩

/-- Quotes in the arguments can pass for those of the display. -/
example : (Step.plain .build ["\"a", "b\""]).displayCommand =
    (Step.plain .build ["a b"]).displayCommand := by decide

end CodecBuild.Step
