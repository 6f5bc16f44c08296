import CodecBuild.Json.Printer
import CodecBuild.Json.Reader

/-!
Reading back what was printed. Blanks between the parts of a text do not count for the reader,
so any layout that separates the parts by blanks will do. A string literal denotes the text that
it was printed from, whatever characters are in it, and a printed value is read back to its last
character and no further.
-/

namespace CodecBuild.Json

/-- Values that hold no numbers and whose strings are all texts. -/
inductive Plain : Json → Prop where
  | null : Plain .null
  | bool (b : Bool) : Plain (.bool b)
  | str (s : String) : Plain (.str (some s))
  | arr {xs : List Json} (items : ∀ x ∈ xs, Plain x) : Plain (.arr xs)
  | obj {ms : List (Option String × Json)} (names : ∀ m ∈ ms, m.1.isSome = true)
      (values : ∀ m ∈ ms, Plain m.2) : Plain (.obj ms)

theorem Plain.texts (ss : List String) : (texts ss).Plain := by
  refine .arr ?_
  intro j hj
  obtain ⟨s, -, rfl⟩ := List.mem_map.mp hj
  exact .str s

theorem Plain.record {members : List (String × Option Json)}
    (h : ∀ m ∈ members, ∀ j ∈ m.2, Plain j) : (record members).Plain := by
  have hpresent : ∀ m ∈ members.filterMap fun m => m.2.map (some m.1, ·),
      m.1.isSome = true ∧ Plain m.2 := by
    intro m hm
    obtain ⟨e, hmem, he⟩ := List.mem_filterMap.mp hm
    obtain ⟨j, hj, rfl⟩ := Option.map_eq_some_iff.mp he
    exact ⟨rfl, h e hmem j hj⟩
  exact .obj (fun m hm => (hpresent m hm).1) fun m hm => (hpresent m hm).2

/-- A layout that puts nothing but blanks between the parts of a text. -/
structure Layout.Blank (l : Layout) : Prop where
  lineBreak : ∀ depth, ∀ c ∈ l.lineBreak depth, isSpace c = true
  afterColon : ∀ c ∈ l.afterColon, isSpace c = true

theorem Layout.blank_compact : Layout.compact.Blank where
  lineBreak _ c hc := by cases hc
  afterColon c hc := by cases hc

theorem Layout.blank_pretty : Layout.pretty.Blank where
  lineBreak depth c hc := by
    cases List.mem_cons.mp hc with
    | inl h => exact h ▸ rfl
    | inr h => exact List.eq_of_mem_replicate h ▸ rfl
  afterColon c hc := List.eq_of_mem_singleton hc ▸ rfl

theorem skip_append {b : List Char} (h : ∀ c ∈ b, isSpace c = true) (s : List Char) :
    skip (b ++ s) = skip s := by
  rw [skip, List.dropWhile_append_of_pos h]
  rfl

theorem skip_cons {c : Char} (h : isSpace c = false) (s : List Char) : skip (c :: s) = c :: s := by
  simp [skip, h]

/-- An element of a literal that denotes a character whatever follows it. -/
def Element.Denotes (e : Element) (c : Char) : Prop :=
  ∀ es, textOf? (e :: es) = (textOf? es).map (c :: ·)

theorem Element.char_denotes (c : Char) : (Element.char c).Denotes c := by
  intro es
  rw [textOf?]

/-- The control characters are not among the surrogates, so none of them waits for a second half. -/
theorem Element.unit_denotes {c : Char} (h : c.toNat < 0x20) :
    (Element.unit c.toNat).Denotes c := by
  intro es
  have hhigh : isHigh c.toNat = false := by simp [isHigh]; omega
  have hlow : isLow c.toNat = false := by simp [isLow]; omega
  cases es with
  | nil => simp [textOf?, hhigh, hlow]
  | cons e es =>
      cases e with
      | char d => simp [textOf?, hhigh, hlow]
      | unit m => simp [textOf?, hhigh, hlow]

theorem elements_of_ordinary {c : Char} (hquote : c ≠ '"') (hbackslash : c ≠ '\\')
    (hcontrol : ¬c.toNat < 0x20) (rest : List Char) :
    elements (c :: rest) = (elements rest).map fun r => (.char c :: r.1, r.2) := by
  rw [elements, if_neg hcontrol]
  · exact hquote
  · intro _ _ _ _ _ hc
    exact absurd hc hbackslash
  · intro _ _ hc
    exact absurd hc hbackslash

theorem elements_of_control {c : Char} (h : c.toNat < 0x20) (rest : List Char) :
    elements ('\\' :: 'u' :: '0' :: '0' :: Text.hexDigit (c.toNat / 16) ::
      Text.hexDigit (c.toNat % 16) :: rest) =
      (elements rest).map fun r => (.unit c.toNat :: r.1, r.2) := by
  have hdigits : ['0', '0', Text.hexDigit (c.toNat / 16), Text.hexDigit (c.toNat % 16)].all
      Text.isHexDigit = true := by
    have h0 : Text.isHexDigit '0' = true := rfl
    simp [h0, Text.isHexDigit_hexDigit (c.toNat / 16) (by omega),
      Text.isHexDigit_hexDigit (c.toNat % 16) (by omega)]
  have hnumeral : Text.numeral 16
      ['0', '0', Text.hexDigit (c.toNat / 16), Text.hexDigit (c.toNat % 16)] = c.toNat := by
    have h0 : Text.digitValue '0' = 0 := rfl
    simp only [Text.numeral, List.foldl_cons, List.foldl_nil, h0,
      Text.digitValue_hexDigit (c.toNat / 16) (by omega),
      Text.digitValue_hexDigit (c.toNat % 16) (by omega)]
    omega
  rw [elements, if_pos hdigits, hnumeral]

/-- What a character is written as is read as one element that denotes it. -/
theorem exists_element_of_escape (c : Char) :
    ∃ e : Element, e.Denotes c ∧
      ∀ rest, elements (escape c ++ rest) = (elements rest).map fun r => (e :: r.1, r.2) := by
  unfold escape
  split
  -- The seven short escapes compute; the last case still has to tell control characters apart.
  case h_8 hquote hbackslash _ _ _ _ _ =>
    split
    next hcontrol =>
      exact ⟨.unit c.toNat, Element.unit_denotes hcontrol, elements_of_control hcontrol⟩
    next hcontrol =>
      exact ⟨.char c, Element.char_denotes c, elements_of_ordinary hquote hbackslash hcontrol⟩
  all_goals exact ⟨.char _, Element.char_denotes _, fun _ => rfl⟩

theorem exists_elements_of_escapes (s rest : List Char) :
    ∃ es, elements (s.flatMap escape ++ '"' :: rest) = some (es, rest) ∧ textOf? es = some s := by
  induction s with
  | nil => exact ⟨[], by simp [elements], rfl⟩
  | cons c s ih =>
      obtain ⟨e, hdenotes, hreads⟩ := exists_element_of_escape c
      obtain ⟨es, hes, htext⟩ := ih
      refine ⟨e :: es, ?_, ?_⟩
      · rw [List.flatMap_cons, List.append_assoc, hreads, hes]
        rfl
      · rw [hdenotes, htext]
        rfl

theorem string_escapes (s : String) (rest : List Char) :
    string (s.toList.flatMap escape ++ '"' :: rest) = some (some s, rest) := by
  obtain ⟨es, hes, htext⟩ := exists_elements_of_escapes s.toList rest
  rw [string, hes]
  simp [htext]

theorem literal_some (s : String) :
    literal (some s) = '"' :: (s.toList.flatMap escape ++ ['"']) := rfl

theorem literal_append (s : String) (rest : List Char) :
    literal (some s) ++ rest = '"' :: (s.toList.flatMap escape ++ '"' :: rest) := by
  rw [literal_some, List.cons_append, List.append_assoc]
  rfl

theorem label_literal (k : String) {b : List Char} (hb : ∀ c ∈ b, isSpace c = true)
    {s : List Char} (hs : skip s = s) :
    label (literal (some k) ++ ':' :: (b ++ s)) = some (some k, s) := by
  have hcolon : skip (':' :: (b ++ s)) = ':' :: (b ++ s) := skip_cons rfl _
  rw [literal_append, label, string_escapes, Option.bind_eq_bind, Option.bind_some]
  simp only [hcolon]
  exact congrArg (fun t => some (some k, t)) ((skip_append hb s).trans hs)

/-- A text that starts as a value does: neither with a blank nor with the end of an array. -/
def StartsValue (s : List Char) : Prop := ∃ c rest, s = c :: rest ∧ isSpace c = false ∧ c ≠ ']'

theorem StartsValue.append {s : List Char} (h : StartsValue s) (rest : List Char) :
    StartsValue (s ++ rest) := by
  obtain ⟨c, t, rfl, hspace, hend⟩ := h
  exact ⟨c, t ++ rest, rfl, hspace, hend⟩

theorem StartsValue.skip {s : List Char} (h : StartsValue s) : Json.skip s = s := by
  obtain ⟨c, t, rfl, hspace, -⟩ := h
  exact skip_cons hspace t

theorem Plain.startsValue_print {j : Json} (h : j.Plain) (l : Layout) (depth : Nat) :
    StartsValue (print l depth j) := by
  cases h with
  | null => exact ⟨'n', _, rfl, rfl, by decide⟩
  | bool b => cases b <;> exact ⟨_, _, rfl, rfl, by decide⟩
  | str s => exact ⟨'"', _, rfl, rfl, by decide⟩
  | @arr xs _ => cases xs <;> exact ⟨'[', _, rfl, rfl, by decide⟩
  | @obj ms _ _ => cases ms <;> exact ⟨'\x7b', _, rfl, rfl, by decide⟩

theorem value_str (n : Nat) (s : String) (rest : List Char) :
    value (n + 1) (literal (some s) ++ rest) = some (.str (some s), rest) := by
  rw [literal_append, value, string_escapes]
  rfl

theorem value_arr_nil (n : Nat) (rest : List Char) :
    value (n + 1) ('[' :: ']' :: rest) = some (.arr [], rest) := rfl

theorem value_obj_nil (n : Nat) (rest : List Char) :
    value (n + 1) ('\x7b' :: '\x7d' :: rest) = some (.obj [], rest) := rfl

theorem value_arr_cons {n : Nat} {s mid rest : List Char} {x : Json} {xs : List Json}
    (hs : StartsValue (skip s)) (hx : value n (skip s) = some (x, mid))
    (hxs : items n (skip mid) = some (xs, rest)) :
    value (n + 1) ('[' :: s) = some (.arr (x :: xs), rest) := by
  obtain ⟨c, t, heq, -, hend⟩ := hs
  rw [heq] at hx
  rw [value]
  simp only [heq]
  split
  next h => exact absurd (List.cons.inj h).1 hend
  next => simp only [hx, hxs, bind, Option.bind, pure]

theorem value_obj_cons {n : Nat} {s mid mid' rest : List Char} {k : Option String} {x : Json}
    {ms : List (Option String × Json)} (hk : label (skip s) = some (k, mid))
    (hx : value n mid = some (x, mid')) (hms : members n (skip mid') = some (ms, rest)) :
    value (n + 1) ('\x7b' :: s) = some (.obj ((k, x) :: ms), rest) := by
  rw [value]
  split
  next t h =>
    rw [h] at hk
    cases hk
  next => simp only [hk, hx, hms, bind, Option.bind, pure]

theorem items_cons {n : Nat} {s mid rest : List Char} {x : Json} {xs : List Json}
    (hx : value n (skip s) = some (x, mid)) (hxs : items n (skip mid) = some (xs, rest)) :
    items (n + 1) (',' :: s) = some (x :: xs, rest) := by
  rw [items]
  simp only [hx, hxs, bind, Option.bind, pure]

theorem members_cons {n : Nat} {s mid mid' rest : List Char} {k : Option String} {x : Json}
    {ms : List (Option String × Json)} (hk : label (skip s) = some (k, mid))
    (hx : value n mid = some (x, mid')) (hms : members n (skip mid') = some (ms, rest)) :
    members (n + 1) (',' :: s) = some ((k, x) :: ms, rest) := by
  rw [members]
  simp only [hk, hx, hms, bind, Option.bind, pure]

/-- Wherever the value is printed, it is read back, and what follows it is left. -/
def ReadsBack (l : Layout) (j : Json) : Prop :=
  ∀ depth n rest, (print l depth j).length ≤ n →
    value n (print l depth j ++ rest) = some (j, rest)

theorem skip_lineBreak_print {l : Layout} (hl : l.Blank) {j : Json} (hj : j.Plain) (depth : Nat)
    (rest : List Char) :
    skip (l.lineBreak depth ++ (print l depth j ++ rest)) = print l depth j ++ rest := by
  rw [skip_append (hl.lineBreak depth)]
  exact ((hj.startsValue_print l depth).append rest).skip

theorem skip_lineBreak_close {l : Layout} (hl : l.Blank) (depth : Nat) {c : Char}
    (hc : isSpace c = false) (rest : List Char) :
    skip (l.lineBreak depth ++ c :: rest) = c :: rest := by
  rw [skip_append (hl.lineBreak depth), skip_cons hc]

theorem label_member {l : Layout} (hl : l.Blank) (k : String) {j : Json} (hj : j.Plain)
    (depth : Nat) (rest : List Char) :
    label (skip (l.lineBreak depth ++ (literal (some k) ++ ':' :: (l.afterColon ++
      (print l depth j ++ rest))))) = some (some k, print l depth j ++ rest) := by
  have hquote : skip (literal (some k) ++ ':' :: (l.afterColon ++ (print l depth j ++ rest))) =
      literal (some k) ++ ':' :: (l.afterColon ++ (print l depth j ++ rest)) := skip_cons rfl _
  rw [skip_append (hl.lineBreak depth), hquote]
  exact label_literal k hl.afterColon ((hj.startsValue_print l depth).append rest).skip

theorem items_printItems {l : Layout} (hl : l.Blank) {xs : List Json} (hplain : ∀ x ∈ xs, Plain x)
    (hread : ∀ x ∈ xs, ReadsBack l x) (depth outer n : Nat) (rest : List Char)
    (hn : (printItems l depth xs).length ≤ n) :
    items n (skip (printItems l depth xs ++ (l.lineBreak outer ++ ']' :: rest))) =
      some (xs, rest) := by
  induction xs generalizing n with
  | nil =>
      rw [printItems, List.nil_append, skip_lineBreak_close hl outer rfl]
      cases n <;> rfl
  | cons x xs ih =>
      obtain ⟨hx, hxs⟩ := List.forall_mem_cons.mp hplain
      obtain ⟨hxread, hreads⟩ := List.forall_mem_cons.mp hread
      simp only [printItems, List.length_cons, List.length_append] at hn
      obtain ⟨n, rfl⟩ : ∃ m, n = m + 1 := ⟨n - 1, by omega⟩
      have htail := ih hxs hreads n (by omega)
      simp only [printItems, List.cons_append, List.append_assoc]
      rw [skip_cons rfl]
      refine items_cons ?_ htail
      rw [skip_lineBreak_print hl hx]
      exact hxread depth n _ (by omega)

theorem members_printMembers {l : Layout} (hl : l.Blank) {ms : List (Option String × Json)}
    (hnames : ∀ m ∈ ms, m.1.isSome = true) (hplain : ∀ m ∈ ms, Plain m.2)
    (hread : ∀ m ∈ ms, ReadsBack l m.2) (depth outer n : Nat) (rest : List Char)
    (hn : (printMembers l depth ms).length ≤ n) :
    members n (skip (printMembers l depth ms ++ (l.lineBreak outer ++ '\x7d' :: rest))) =
      some (ms, rest) := by
  induction ms generalizing n with
  | nil =>
      rw [printMembers, List.nil_append, skip_lineBreak_close hl outer rfl]
      cases n <;> rfl
  | cons m ms ih =>
      obtain ⟨name, x⟩ := m
      obtain ⟨hname, hothers⟩ := List.forall_mem_cons.mp hnames
      obtain ⟨(hx : x.Plain), hxs⟩ := List.forall_mem_cons.mp hplain
      obtain ⟨(hxread : ReadsBack l x), hreads⟩ := List.forall_mem_cons.mp hread
      obtain ⟨k, rfl⟩ := Option.isSome_iff_exists.mp hname
      simp only [printMembers, List.length_cons, List.length_append] at hn
      obtain ⟨n, rfl⟩ : ∃ m, n = m + 1 := ⟨n - 1, by omega⟩
      have htail := ih hothers hxs hreads n (by omega)
      simp only [printMembers, List.cons_append, List.append_assoc]
      rw [skip_cons rfl]
      exact members_cons (label_member hl k hx depth _) (hxread depth n _ (by omega)) htail

/-- A printed value is not empty, so a bound that allows for its length allows for one call. -/
theorem Plain.readsBack_of_succ {l : Layout} {j : Json} (h : j.Plain)
    (hread : ∀ depth n rest, (print l depth j).length ≤ n + 1 →
      value (n + 1) (print l depth j ++ rest) = some (j, rest)) : ReadsBack l j := by
  intro depth n rest hn
  cases n with
  | zero =>
      obtain ⟨c, t, heq, -, -⟩ := h.startsValue_print l depth
      simp [heq] at hn
  | succ n => exact hread depth n rest hn

/-- By induction on the value; the items and members of a value are taken one after the other. -/
theorem Plain.readsBack {l : Layout} (hl : l.Blank) {j : Json} (h : j.Plain) : ReadsBack l j := by
  induction h with
  | null => exact Plain.null.readsBack_of_succ fun depth n rest hn => rfl
  | bool b =>
      refine (Plain.bool b).readsBack_of_succ fun depth n rest hn => ?_
      cases b <;> rfl
  | str s => exact (Plain.str s).readsBack_of_succ fun depth n rest hn => value_str n s rest
  | @arr xs hplain ih =>
      refine (Plain.arr hplain).readsBack_of_succ fun depth n rest hn => ?_
      cases xs with
      | nil => exact value_arr_nil n rest
      | cons x xs =>
          obtain ⟨hx, hxs⟩ := List.forall_mem_cons.mp hplain
          obtain ⟨hxread, hreads⟩ := List.forall_mem_cons.mp ih
          simp only [print, List.length_cons, List.length_append] at hn
          have htail := items_printItems hl hxs hreads (depth + 1) depth n rest (by omega)
          have hs := skip_lineBreak_print hl hx (depth + 1)
            (printItems l (depth + 1) xs ++ (l.lineBreak depth ++ ']' :: rest))
          simp only [print, List.cons_append, List.append_assoc, List.nil_append]
          refine value_arr_cons ?_ ?_ htail
          · rw [hs]
            exact (hx.startsValue_print l (depth + 1)).append _
          · rw [hs]
            exact hxread (depth + 1) n _ (by omega)
  | @obj ms hnames hplain ih =>
      refine (Plain.obj hnames hplain).readsBack_of_succ fun depth n rest hn => ?_
      cases ms with
      | nil => exact value_obj_nil n rest
      | cons m ms =>
          obtain ⟨name, x⟩ := m
          obtain ⟨hname, hothers⟩ := List.forall_mem_cons.mp hnames
          obtain ⟨(hx : x.Plain), hxs⟩ := List.forall_mem_cons.mp hplain
          obtain ⟨(hxread : ReadsBack l x), hreads⟩ := List.forall_mem_cons.mp ih
          obtain ⟨k, rfl⟩ := Option.isSome_iff_exists.mp hname
          simp only [print, List.length_cons, List.length_append] at hn
          have htail :=
            members_printMembers hl hothers hxs hreads (depth + 1) depth n rest (by omega)
          simp only [print, List.cons_append, List.append_assoc, List.nil_append]
          exact value_obj_cons (label_member hl k hx (depth + 1) _)
            (hxread (depth + 1) n _ (by omega)) htail

/-- Blanks may follow a printed value. -/
theorem read?_print_append {l : Layout} (hl : l.Blank) {j : Json} (h : j.Plain) {b : List Char}
    (hb : ∀ c ∈ b, isSpace c = true) : read? (String.ofList (print l 0 j ++ b)) = some j := by
  have hstart : skip (print l 0 j ++ b) = print l 0 j ++ b :=
    ((h.startsValue_print l 0).append b).skip
  have hlength : (print l 0 j).length ≤ (print l 0 j ++ b).length + 1 := by simp; omega
  have hvalue := h.readsBack hl 0 _ b hlength
  have hrest : skip b = [] := by simpa [skip] using skip_append hb []
  rw [read?, String.toList_ofList, hstart, hvalue]
  simp [hrest]

theorem read?_print {l : Layout} (hl : l.Blank) {j : Json} (h : j.Plain) :
    read? (String.ofList (print l 0 j)) = some j := by
  have hread := read?_print_append hl h (List.forall_mem_nil _)
  rwa [List.append_nil] at hread

theorem read?_compact {j : Json} (h : j.Plain) : read? j.compact = some j :=
  read?_print Layout.blank_compact h

theorem read?_pretty {j : Json} (h : j.Plain) : read? j.pretty = some j :=
  read?_print Layout.blank_pretty h

end CodecBuild.Json
