import CodecBuild.Diagnostic
import CodecBuild.Proofs.Text.Terminal

/-!
The layout of diagnostics. Colours are put on by escape sequences and nothing else, so without these
the coloured form is the plain one. The plain form can be read line by line: the first line holds
severity and message, and the others are told apart by how they begin, whatever the texts of the
diagnostic look like.
-/

namespace CodecBuild

open Text

namespace Severity

variable {a b : Severity}

theorem label_injective (h : a.label = b.label) : a = b := by
  revert h
  cases a <;> cases b <;> decide

theorem colon_not_mem_label (a : Severity) : ':' ∉ a.label.toList := by cases a <;> decide

theorem printable_label (a : Severity) : Printable a.label := by cases a <;> decide

theorem m_not_mem_color (a : Severity) : 'm' ∉ a.color.toList := by cases a <;> decide

end Severity

namespace Diagnostic

def texts (d : Diagnostic) : List String := d.message :: (d.context ++ d.suggestions)

/-- None of the texts holds the character. -/
def Lacks (d : Diagnostic) (c : Char) : Prop := ∀ s ∈ d.texts, c ∉ s.toList

instance (d : Diagnostic) (c : Char) : Decidable (d.Lacks c) :=
  inferInstanceAs (Decidable (∀ s ∈ d.texts, c ∉ s.toList))

variable {d e : Diagnostic} {c : Char}

theorem Lacks.message (h : d.Lacks c) : c ∉ d.message.toList := h _ List.mem_cons_self

theorem Lacks.context (h : d.Lacks c) : ∀ s ∈ d.context, c ∉ s.toList := fun s hs =>
  h s (List.mem_cons_of_mem _ (List.mem_append_left _ hs))

theorem Lacks.suggestions (h : d.Lacks c) : ∀ s ∈ d.suggestions, c ∉ s.toList := fun s hs =>
  h s (List.mem_cons_of_mem _ (List.mem_append_right _ hs))

theorem printable_heading (severity : Severity) : Printable (severity.label ++ ": ") :=
  severity.printable_label.append (by decide)

theorem printable_arrow : Printable "  -> " := by decide

theorem printable_number (n : Nat) : Printable ("  " ++ toString n ++ ". ") :=
  .append (.append (by decide) (printable_toString n)) (by decide)

theorem not_mem_numbered (hc : c.toNat < 32) {n : Nat} {ss : List String}
    (h : ∀ s ∈ ss, c ∉ s.toList) : ∀ l ∈ numbered n ss, c ∉ l.toList := by
  induction ss generalizing n with
  | nil => exact fun _ hl => absurd hl List.not_mem_nil
  | cons s ss ih =>
      obtain ⟨hs, hss⟩ := List.forall_mem_cons.mp h
      exact List.forall_mem_cons.mpr ⟨(printable_number n).not_mem_append hc hs, ih hss⟩

theorem not_mem_helpLines (hc : c.toNat < 32) {ss : List String} (h : ∀ s ∈ ss, c ∉ s.toList) :
    ∀ l ∈ helpLines false ss, c ∉ l.toList := by
  cases ss with
  | nil => exact fun _ hl => absurd hl List.not_mem_nil
  | cons s ss =>
      have hhelp : Printable "help: consider:" := by decide
      exact List.forall_mem_cons.mpr ⟨hhelp.not_mem hc, not_mem_numbered hc h⟩

/-- Only the texts bring control characters into the plain form. -/
theorem not_mem_lines (hc : c.toNat < 32) (h : d.Lacks c) : ∀ l ∈ d.lines false, c ∉ l.toList := by
  refine List.forall_mem_cons.mpr
    ⟨(printable_heading d.severity).not_mem_append hc h.message, ?_⟩
  refine List.forall_mem_append.mpr ⟨?_, not_mem_helpLines hc h.suggestions⟩
  refine List.forall_mem_map.mpr fun s hs => ?_
  exact printable_arrow.not_mem_append hc (h.context s hs)

theorem leaves_paint {color word : String} (hcolor : 'm' ∉ color.toList)
    (hword : Printable word) : Leaves (paint true color word) (paint false color word) := by
  -- Painting wraps the word into two sequences, which the literals of its definition cut elsewhere.
  have hopen : Leaves ("\x1b[" ++ ("1;" ++ color) ++ "m") "" := .sequence (by simpa using hcolor)
  have hclose : Leaves ("\x1b[" ++ "0" ++ "m") "" := .sequence (by decide)
  have hseen : Leaves word word := .of_not_mem (hword.not_mem (by decide))
  have hpaint : paint true color word =
      "\x1b[" ++ ("1;" ++ color) ++ "m" ++ word ++ ("\x1b[" ++ "0" ++ "m") :=
    String.toList_inj.mp (by simp [paint])
  have hpainted := (hopen.append hseen).append hclose
  rw [String.empty_append, String.append_empty, ← hpaint] at hpainted
  exact hpainted

theorem leaves_heading (h : '\x1b' ∉ d.message.toList) :
    Leaves (paint true d.severity.color d.severity.label ++ ": " ++ d.message)
      (paint false d.severity.color d.severity.label ++ ": " ++ d.message) := by
  have hlabel := leaves_paint d.severity.m_not_mem_color d.severity.printable_label
  exact (hlabel.append (.of_not_mem (by decide))).append (.of_not_mem h)

theorem leaves_helpLines {ss : List String} (h : ∀ s ∈ ss, '\x1b' ∉ s.toList) :
    List.Forall₂ Leaves (helpLines true ss) (helpLines false ss) := by
  cases ss with
  | nil => exact .nil
  | cons s ss =>
      have hhelp : Leaves (paint true "32" "help") (paint false "32" "help") :=
        leaves_paint (by decide) (by decide)
      refine .cons (hhelp.append (.of_not_mem (by decide))) ?_
      exact List.forall₂_same.mpr fun l hl => .of_not_mem (not_mem_numbered (by decide) h l hl)

theorem leaves_lines (h : d.Lacks '\x1b') :
    List.Forall₂ Leaves (d.lines true) (d.lines false) := by
  refine .cons (leaves_heading h.message) (List.rel_append ?_ (leaves_helpLines h.suggestions))
  refine List.forall₂_same.mpr (List.forall_mem_map.mpr fun s hs => .of_not_mem ?_)
  exact printable_arrow.not_mem_append (by decide) (h.context s hs)

theorem withoutEscapes_format (h : d.Lacks '\x1b') :
    withoutEscapes (d.format true) = d.format false :=
  (Leaves.unlines (leaves_lines h)).withoutEscapes_eq

theorem heading_inj {a b : Severity} {s t : String}
    (h : a.label ++ ": " ++ s = b.label ++ ": " ++ t) : a = b ∧ s = t := by
  -- No label holds a colon, so the label ends at the first colon of the line.
  have htext : a.label.toList ++ ':' :: ' ' :: s.toList =
      b.label.toList ++ ':' :: ' ' :: t.toList := by
    simpa using String.toList_inj.mpr h
  obtain ⟨hlabel, hrest⟩ := append_cons_inj a.colon_not_mem_label b.colon_not_mem_label htext
  exact ⟨Severity.label_injective (String.toList_inj.mp hlabel),
    String.toList_inj.mp (List.cons.inj hrest).2⟩

theorem numbered_inj {n : Nat} {ss ts : List String} (h : numbered n ss = numbered n ts) :
    ss = ts := by
  induction ss generalizing n ts with
  | nil =>
      cases ts with
      | nil => rfl
      | cons t ts => cases h
  | cons s ss ih =>
      cases ts with
      | nil => cases h
      | cons t ts =>
          obtain ⟨hs, hss⟩ := List.cons.inj h
          rw [(String.append_right_inj _).mp hs, ih hss]

theorem helpLines_inj {ss ts : List String} (h : helpLines false ss = helpLines false ts) :
    ss = ts := by
  cases ss with
  | nil =>
      cases ts with
      | nil => rfl
      | cons t ts => cases h
  | cons s ss =>
      cases ts with
      | nil => cases h
      | cons t ts => exact numbered_inj (List.cons.inj h).2

/-- The line that announces help does not pass for a line of context. -/
theorem helpLines_ne {ss ls : List String} {s : String} :
    helpLines false ss ≠ ("  -> " ++ s) :: ls := by
  intro h
  cases ss with
  | nil => cases h
  | cons t ts =>
      have hline : "help: consider:" = "  -> " ++ s := (List.cons.inj h).1
      have hhead := congrArg (fun l => l.toList.head?) hline
      simp at hhead

theorem body_inj {cs ds ss ts : List String}
    (h : cs.map ("  -> " ++ ·) ++ helpLines false ss =
      ds.map ("  -> " ++ ·) ++ helpLines false ts) : cs = ds ∧ ss = ts := by
  induction cs generalizing ds with
  | nil =>
      cases ds with
      | nil => exact ⟨rfl, helpLines_inj h⟩
      | cons d ds => exact absurd h helpLines_ne
  | cons c cs ih =>
      cases ds with
      | nil => exact absurd h.symm helpLines_ne
      | cons d ds =>
          obtain ⟨hline, hrest⟩ := List.cons.inj h
          obtain ⟨rfl, hhelp⟩ := ih hrest
          exact ⟨congrArg (· :: cs) ((String.append_right_inj _).mp hline), hhelp⟩

theorem lines_inj (h : d.lines false = e.lines false) : d = e := by
  obtain ⟨hheading, hbody⟩ := List.cons.inj h
  obtain ⟨hseverity, hmessage⟩ := heading_inj hheading
  obtain ⟨hcontext, hsuggestions⟩ := body_inj hbody
  cases d
  cases e
  rw [mk.injEq]
  exact ⟨hseverity, hmessage, hcontext, hsuggestions⟩

/-- The coloured form without its escape sequences is the plain one if no text has an escape
character, and the plain form tells the whole diagnostic if no text has a line end, however much the
texts look like labels, arrows or numbers. -/
theorem format_is_faithful (d : Diagnostic) :
    (d.Lacks '\x1b' → withoutEscapes (d.format true) = d.format false) ∧
    (d.Lacks '\n' → ∀ e : Diagnostic, e.Lacks '\n' →
      (d.format false = e.format false ↔ d = e)) := by
  refine ⟨withoutEscapes_format, fun hd e he => ⟨fun h => ?_, congrArg (format · false)⟩⟩
  exact lines_inj (unlines_inj (not_mem_lines (by decide) hd) (not_mem_lines (by decide) he) h)

/-- Texts that imitate a sequence, the announcement of help and a numbered suggestion. -/
theorem imitated_layout_told_apart :
    let d : Diagnostic := ⟨.note, "[1;31merror", ["help: consider:", "1. y"], []⟩
    let e : Diagnostic := ⟨.note, "[1;31merror", [], ["y"]⟩
    d.Lacks '\x1b' ∧ d.Lacks '\n' ∧ e.Lacks '\n' ∧
      withoutEscapes (d.format true) = d.format false ∧ d.format false ≠ e.format false := by
  intro d e
  have hescape : d.Lacks '\x1b' := by decide
  have hd : d.Lacks '\n' := by decide
  have he : e.Lacks '\n' := by decide
  obtain ⟨hplain, hread⟩ := format_is_faithful d
  exact ⟨hescape, hd, he, hplain hescape, mt (hread hd e he).mp (by decide)⟩

/-- A line end in a text can pass for one of the layout. -/
example : format ⟨.note, "a\n  -> b", [], []⟩ false = format ⟨.note, "a", ["b"], []⟩ false := by
  decide

end Diagnostic
end CodecBuild
