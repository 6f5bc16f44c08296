import CodecBuild.Flag.Assignment

/-!
Coercion of raw values. What a kind accepts has the shape of the kind, and writing an accepted
value out, as a raw value or as a text, and coercing it again gives the value back. Letter case
counts for paths and free texts only. No default is a path, so against a default the componentwise
comparison of paths never differs from equality.
-/

namespace CodecBuild

namespace FlagKind

/-- The shape of the values that a flag of this kind may hold. -/
def Fits : FlagKind → FlagValue → Prop
  | boolean, .bool _ => True
  | path, .path _ => True
  | choice spellings, .choice s => s ∈ spellings
  | string, .text _ => True
  | _, _ => False

/-- An accepted value, and the ways in which a raw value comes to be accepted. -/
theorem coerce?_eq_some_cases {k : FlagKind} {raw : RawValue} {v : FlagValue}
    (h : k.coerce? raw = some v) :
    (k = boolean ∧ ∃ b, v = .bool b) ∨
    (k = path ∧ ∃ s, raw = .text s ∧ v = .path ⟨s⟩) ∨
    (∃ spellings s c, k = choice spellings ∧ raw = .text s ∧ v = .choice c ∧
      spellings.find? (Text.sameUpToCase · s) = some c) ∨
    (k = string ∧ ∃ s, raw = .text s ∧ v = .text s) := by
  cases k with
  | boolean =>
      cases raw with
      | bool b => exact .inl ⟨rfl, b, (Option.some.inj h).symm⟩
      | text s =>
          obtain ⟨b, -, hb⟩ := Option.map_eq_some_iff.mp h
          exact .inl ⟨rfl, b, hb.symm⟩
  | path =>
      cases raw with
      | bool b => cases h
      | text s => exact .inr (.inl ⟨rfl, s, rfl, (Option.some.inj h).symm⟩)
  | choice spellings =>
      cases raw with
      | bool b => cases h
      | text s =>
          obtain ⟨c, hc, hv⟩ := Option.map_eq_some_iff.mp h
          exact .inr (.inr (.inl ⟨spellings, s, c, rfl, rfl, hv.symm, hc⟩))
  | string =>
      cases raw with
      | bool b => cases h
      | text s => exact .inr (.inr (.inr ⟨rfl, s, rfl, (Option.some.inj h).symm⟩))

theorem fits_of_coerce? {k : FlagKind} {raw : RawValue} {v : FlagValue}
    (h : k.coerce? raw = some v) : k.Fits v := by
  obtain ⟨rfl, b, rfl⟩ | ⟨rfl, s, -, rfl⟩ | ⟨spellings, s, c, rfl, -, rfl, hc⟩ | ⟨rfl, s, -, rfl⟩ :=
    coerce?_eq_some_cases h
  · trivial
  · trivial
  · exact List.mem_of_find?_eq_some hc
  · trivial

/-- The spelling that a text stands for stands for itself: what precedes it differs from both. -/
theorem find?_spelling_self {spellings : List String} {s c : String}
    (h : spellings.find? (Text.sameUpToCase · s) = some c) :
    spellings.find? (Text.sameUpToCase · c) = some c := by
  have hs : Text.capitals c = Text.capitals s := by
    simpa [Text.sameUpToCase] using List.find?_some h
  simpa only [Text.sameUpToCase, hs] using h

theorem coerce?_toRaw {k : FlagKind} {raw : RawValue} {v : FlagValue}
    (h : k.coerce? raw = some v) : k.coerce? v.toRaw = some v := by
  obtain ⟨rfl, b, rfl⟩ | ⟨rfl, s, -, rfl⟩ | ⟨spellings, s, c, rfl, -, rfl, hc⟩ | ⟨rfl, s, -, rfl⟩ :=
    coerce?_eq_some_cases h
  · rfl
  · rfl
  · exact congrArg (Option.map FlagValue.choice) (find?_spelling_self hc)
  · rfl

/-- What a kind makes of a value it also makes of the text for the cache. -/
theorem coerce?_render {k : FlagKind} {v : FlagValue} (h : k.coerce? v.toRaw = some v) :
    k.coerce? (.text v.render) = some v := by
  cases v with
  | bool b =>
      have hk : k = boolean := by
        apply Decidable.byContradiction
        intro hne
        rw [FlagValue.toRaw, coerce?_bool_eq_none hne] at h
        cases h
      subst hk
      cases b <;> decide
  | path p | choice s | text s => exact h

/-- Among the spellings, the first that agrees with a text up to letter case. -/
def IsFirstSpelling (spellings : List String) (s c : String) : Prop :=
  ∃ before after, spellings = before ++ c :: after ∧ Text.sameUpToCase c s = true ∧
    ∀ d ∈ before, Text.sameUpToCase d s = false

theorem isFirstSpelling_of_find? {spellings : List String} {s c : String}
    (h : spellings.find? (Text.sameUpToCase · s) = some c) : IsFirstSpelling spellings s c := by
  obtain ⟨hc, before, after, hspellings, hbefore⟩ := List.find?_eq_some_iff_append.mp h
  exact ⟨before, after, hspellings, hc, by simpa using hbefore⟩

/-- A text is looked at in capitals only, except where it is taken as it stands. -/
theorem coerce?_text_congr {k : FlagKind} (hk : k = boolean ∨ ∃ spellings, k = choice spellings)
    {s t : String} (h : Text.sameUpToCase s t = true) :
    k.coerce? (.text s) = k.coerce? (.text t) := by
  have hcapitals : Text.capitals s = Text.capitals t := by simpa [Text.sameUpToCase] using h
  obtain rfl | ⟨spellings, rfl⟩ := hk
  · simp only [coerce?, readBool?, hcapitals]
  · simp only [coerce?, Text.sameUpToCase, hcapitals]

theorem ignores_case_iff {k : FlagKind} :
    (∀ s t, Text.sameUpToCase s t = true → k.coerce? (.text s) = k.coerce? (.text t)) ↔
      k = boolean ∨ ∃ spellings, k = choice spellings := by
  constructor
  · intro h
    have hx := h "x" "X" (by decide)
    cases k with
    | boolean => exact .inl rfl
    | choice spellings => exact .inr ⟨spellings, rfl⟩
    | path | string => simp [coerce?] at hx
  · exact fun hk s t => coerce?_text_congr hk

theorem accepts_bool_iff {k : FlagKind} (b : Bool) :
    (∃ v, k.coerce? (.bool b) = some v) ↔ k = boolean := by
  cases k <;> simp [coerce?]

/-- Coercion brings a raw value into a normal form: what it returns has the shape of the kind, is the
same for all spellings of one choice, and stays as it is when it is coerced again, written out as a
raw value or as a text. Letter case counts for paths and free texts only, and only a switch is set by a
truth value. -/
theorem coercion_normalizes (k : FlagKind) :
    (∀ raw v, k.coerce? raw = some v →
      k.Fits v ∧
      (∀ spellings, k = choice spellings →
        ∃ s c, raw = .text s ∧ v = .choice c ∧ IsFirstSpelling spellings s c) ∧
      k.coerce? v.toRaw = some v ∧ k.coerce? (.text v.render) = some v) ∧
    ((∀ s t, Text.sameUpToCase s t = true → k.coerce? (.text s) = k.coerce? (.text t)) ↔
      k = boolean ∨ ∃ spellings, k = choice spellings) ∧
    ∀ b, (∃ v, k.coerce? (.bool b) = some v) ↔ k = boolean := by
  refine ⟨fun raw v h => ?_, ignores_case_iff, accepts_bool_iff⟩
  refine ⟨fits_of_coerce? h, ?_, coerce?_toRaw h, coerce?_render (coerce?_toRaw h)⟩
  rintro spellings rfl
  obtain ⟨⟨⟩, -⟩ | ⟨⟨⟩, -⟩ | ⟨_, s, c, hk, hraw, hv, hc⟩ | ⟨⟨⟩, -⟩ := coerce?_eq_some_cases h
  cases hk
  exact ⟨s, c, hraw, hv, isFirstSpelling_of_find? hc⟩

/-- Spellings that differ in letter case only, so that all but the first are never chosen, not even
by a text that is one of them. -/
theorem later_spelling_normalized :
    let k := choice ["Fast", "debug", "Debug", "DEBUG"]
    k.coerce? (.text "DEBUG") = some (.choice "debug") ∧
      IsFirstSpelling ["Fast", "debug", "Debug", "DEBUG"] "DEBUG" "debug" ∧
      k.coerce? (FlagValue.choice "debug").toRaw = some (.choice "debug") ∧
      k.coerce? (.text "dEBUG") = k.coerce? (.text "DEBUG") := by
  intro k
  have h : k.coerce? (.text "DEBUG") = some (.choice "debug") := by decide
  obtain ⟨hnormal, hcase, -⟩ := coercion_normalizes k
  obtain ⟨-, hfirst, hraw, -⟩ := hnormal _ _ h
  obtain ⟨s, c, hs, hc, hfirst⟩ := hfirst _ rfl
  cases hs
  cases hc
  exact ⟨h, hfirst, hraw, hcase.mpr (.inr ⟨_, rfl⟩) _ _ (by decide)⟩

end FlagKind

namespace Flag

theorem fits_default? {f : Flag} {v : FlagValue} (h : f.default? = some v) : f.kind.Fits v := by
  cases f <;> cases h <;> simp [kind, FlagKind.Fits]

theorem coerce?_toRaw_default? {f : Flag} {v : FlagValue} (h : f.default? = some v) :
    f.kind.coerce? v.toRaw = some v := by
  cases f <;> cases h <;> decide

end Flag

namespace FlagValue

theorem eq_of_same {v w : FlagValue} (hv : v.path? = none) (h : v.same w = true) : v = w := by
  cases v <;> cases w <;> simp_all [same, path?]

end FlagValue

namespace Assignment

theorem agree_default?_iff {f : Flag} {o : Option FlagValue} :
    agree f.default? o = true ↔ f.default? = o := by
  have hpath : ∀ v, f.default? = some v → v.path? = none := by
    intro v hv
    cases f <;> cases hv <;> rfl
  cases hd : f.default? with
  | none => cases o <;> simp [agree]
  | some v =>
      cases o with
      | none => simp [agree]
      | some w =>
          simp only [agree, Option.some.injEq]
          exact ⟨FlagValue.eq_of_same (hpath v hd), fun he => he ▸ v.same_refl⟩

theorem agree_comm (a b : Option FlagValue) : agree a b = agree b a := by
  cases a with
  | none => cases b <;> rfl
  | some v =>
      cases b with
      | none => rfl
      | some w => exact Bool.eq_iff_iff.mpr ⟨FlagValue.same_symm, FlagValue.same_symm⟩

theorem differs_defaults_iff {a : Assignment} {f : Flag} :
    a.differs defaults f = true ↔ ∃ v, a.get? f = some v ∧ f.default? ≠ some v := by
  have hagree : agree (a.get? f) (defaults.get? f) = true ↔ f.default? = a.get? f := by
    rw [agree_comm]
    exact agree_default?_iff
  rw [differs, contains, Bool.and_eq_true, Bool.not_eq_true', Option.isSome_iff_exists,
    ← Bool.not_eq_true, hagree]
  constructor
  · rintro ⟨⟨v, hv⟩, hne⟩
    exact ⟨v, hv, hv ▸ hne⟩
  · rintro ⟨v, hv, hne⟩
    exact ⟨⟨v, hv⟩, hv.symm ▸ hne⟩

end Assignment

end CodecBuild
