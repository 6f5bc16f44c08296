import CodecBuild.Configuration.Document
import CodecBuild.Proofs.Resolution.Overlay

/-!
The outcome of a request. The rules of legality are stated in their order, each with what its
failure is answered with, and `resolve` is shown to answer by them for every request. A request
that is granted determines its configuration, and the configuration is valid: a predicate that
says so flag by flag holds of that configuration and of no other.
-/

namespace CodecBuild

/-- No data are named: the flag is unset or holds the empty path. -/
def Overrides.LacksPath (o : Overrides) (f : Flag) : Prop :=
  o.value? f = none ∨ o.value? f = some (.path ⟨""⟩)

/-- The rules in their order: one speaks only where those before it are kept. -/
inductive Refusal (p : Platform) (b : Backend) (o : Overrides) : Violation → Prop where
  | override {n : String} {v : Violation} (first : o.FirstFault n v) : Refusal p b o v
  | backend (sound : o.Sound) (unsupported : b.supports p = false) :
      Refusal p b o (.backendPlatform b p)
  | indexer (sound : o.Sound) (supported : b.supports p = true)
      (on : o.value? .buildIndexerJPIP = some (.bool true)) (away : p ≠ .winNative) :
      Refusal p b o (.platformFlag .buildIndexerJPIP p .winNative)
  | dataRoot (sound : o.Sound) (supported : b.supports p = true)
      (home : o.value? .buildIndexerJPIP = some (.bool true) → p = .winNative)
      (testing : o.value? .buildTesting = some (.bool true))
      (missing : o.LacksPath .conformanceDataRoot) :
      Refusal p b o (.missingRequired .conformanceDataRoot .buildTesting)

/-- All rules are kept. -/
structure Legal (p : Platform) (b : Backend) (o : Overrides) : Prop where
  sound : o.Sound
  supported : b.supports p = true
  indexer : o.value? .buildIndexerJPIP = some (.bool true) → p = .winNative
  dataRoot : o.value? .buildTesting = some (.bool true) → ¬o.LacksPath .conformanceDataRoot

namespace Overrides

theorem fits_of_value? {o : Overrides} {f : Flag} {v : FlagValue} (hv : o.value? f = some v) :
    f.kind.Fits v := by
  cases hraw : o.get? f.name with
  | none =>
      rw [value?_of_get?_none hraw] at hv
      exact Flag.fits_default? hv
  | some raw =>
      rw [value?_of_get?_some hraw] at hv
      exact FlagKind.fits_of_coerce? hv

theorem lacksPath_iff {o : Overrides} {f : Flag} (hf : f.kind = .path) :
    o.LacksPath f ↔ o.assignment.path? f = none := by
  have hget : o.assignment.get? f = o.value? f := rfl
  cases hv : o.value? f with
  | none => simp [LacksPath, hv, Assignment.path?, hget]
  | some v =>
      have hfits := fits_of_value? hv
      rw [hf] at hfits
      cases v with
      | path q =>
          have hq : q = ⟨""⟩ ↔ q.text = "" := by cases q; simp
          simp [LacksPath, hv, Assignment.path?, hget, FlagValue.path?, Path.isEmpty, hq]
      | bool _ | choice _ | text _ => exact hfits.elim

end Overrides

namespace Configuration

theorem violation?_eq_some_iff {c : Configuration} {v : Violation} :
    c.violation? = some v ↔
      (c.backend.supports c.platform = false ∧ .backendPlatform c.backend c.platform = v) ∨
      (c.backend.supports c.platform = true ∧ c.isOn .buildIndexerJPIP = true ∧
        c.platform ≠ .winNative ∧ .platformFlag .buildIndexerJPIP c.platform .winNative = v) ∨
      (c.backend.supports c.platform = true ∧
        (c.isOn .buildIndexerJPIP = true → c.platform = .winNative) ∧
        c.isOn .buildTesting = true ∧ c.dataRoot? = none ∧
        .missingRequired .conformanceDataRoot .buildTesting = v) := by
  cases hs : c.backend.supports c.platform with
  | false => simp [violation?, hs]
  | true =>
      simp only [violation?, hs, Bool.and_eq_true, Option.isNone_iff_eq_none]
      grind

/-- The rules look at switches and at whether there are data. -/
theorem violation?_congr {c d : Configuration} (hplatform : c.platform = d.platform)
    (hbackend : c.backend = d.backend) (hon : ∀ f, c.isOn f = d.isOn f)
    (hroot : c.dataRoot?.isNone = d.dataRoot?.isNone) : c.violation? = d.violation? := by
  simp only [violation?, hplatform, hbackend, hon, hroot]

theorem violation?_ofFlags_iff (p : Platform) (b : Backend) {o : Overrides} (h : o.Sound)
    {v : Violation} : (ofFlags p b o.assignment).violation? = some v ↔ Refusal p b o v := by
  have hindexer : (ofFlags p b o.assignment).isOn .buildIndexerJPIP = true ↔
      o.value? .buildIndexerJPIP = some (.bool true) := Assignment.isOn_iff
  have htesting : (ofFlags p b o.assignment).isOn .buildTesting = true ↔
      o.value? .buildTesting = some (.bool true) := Assignment.isOn_iff
  have hroot : (ofFlags p b o.assignment).dataRoot? = none ↔ o.LacksPath .conformanceDataRoot :=
    (Overrides.lacksPath_iff rfl).symm
  rw [violation?_eq_some_iff, hindexer, htesting, hroot]
  constructor
  · intro hv
    obtain ⟨hs, rfl⟩ | ⟨hs, on, away, rfl⟩ | ⟨hs, home, testing, missing, rfl⟩ := hv
    · exact .backend h hs
    · exact .indexer h hs on away
    · exact .dataRoot h hs home testing missing
  · intro hv
    cases hv with
    | override first => exact (h.not_firstFault first).elim
    | backend _ hs => exact .inl ⟨hs, rfl⟩
    | indexer _ hs on away => exact .inr (.inl ⟨hs, on, away, rfl⟩)
    | dataRoot _ hs home testing missing => exact .inr (.inr ⟨hs, home, testing, missing, rfl⟩)

end Configuration

theorem resolve_eq_error_iff (p : Platform) (b : Backend) (o : Overrides) (v : Violation) :
    resolve p b o = .error v ↔ Refusal p b o v := by
  cases o.sound_or_firstFault with
  | inl h =>
      rw [resolve_of_sound p b h, ← Configuration.violation?_ofFlags_iff p b h,
        Configuration.verdict]
      cases (Configuration.ofFlags p b o.assignment).violation? with
      | none => simp
      | some w => simp
  | inr h =>
      obtain ⟨n, w, hfirst⟩ := h
      rw [resolve_of_firstFault p b hfirst]
      constructor
      · intro hv
        cases hv
        exact .override hfirst
      · intro hv
        cases hv with
        | override first => rw [← resolve_of_firstFault p b hfirst, resolve_of_firstFault p b first]
        | backend sound | indexer sound | dataRoot sound =>
            exact (sound.not_firstFault hfirst).elim

theorem legal_iff_not_refusal (p : Platform) (b : Backend) (o : Overrides) :
    Legal p b o ↔ ∀ v, ¬Refusal p b o v := by
  constructor
  · intro h v hv
    cases hv with
    | override first => exact h.sound.not_firstFault first
    | backend _ unsupported => simp [h.supported] at unsupported
    | indexer _ _ on away => exact away (h.indexer on)
    | dataRoot _ _ _ testing missing => exact h.dataRoot testing missing
  · intro h
    have hsound : o.Sound := by
      cases o.sound_or_firstFault with
      | inl hsound => exact hsound
      | inr hfault =>
          obtain ⟨n, v, hfirst⟩ := hfault
          exact (h v (.override hfirst)).elim
    have hsupported : b.supports p = true := by
      cases hb : b.supports p with
      | true => rfl
      | false => exact (h _ (.backend hsound hb)).elim
    have hindexer : o.value? .buildIndexerJPIP = some (.bool true) → p = .winNative :=
      fun on => Decidable.byContradiction fun away => h _ (.indexer hsound hsupported on away)
    exact ⟨hsound, hsupported, hindexer,
      fun testing missing => h _ (.dataRoot hsound hsupported hindexer testing missing)⟩

/-- `resolve` answers by the rules: with what the first broken rule is answered with, and with a
configuration exactly when all of them are kept. -/
theorem resolve_answers_by_rules (p : Platform) (b : Backend) (o : Overrides) :
    (∀ v, resolve p b o = .error v ↔ Refusal p b o v) ∧
      ((∃ r, resolve p b o = .ok r) ↔ Legal p b o) := by
  refine ⟨resolve_eq_error_iff p b o, ?_⟩
  rw [legal_iff_not_refusal]
  constructor
  · intro hok v hv
    obtain ⟨r, hr⟩ := hok
    rw [(resolve_eq_error_iff p b o v).mpr hv] at hr
    cases hr
  · intro h
    cases hr : resolve p b o with
    | ok r => exact ⟨r, rfl⟩
    | error v => exact (h v ((resolve_eq_error_iff p b o v).mp hr)).elim

theorem resolve_eq_ok_iff {p : Platform} {b : Backend} {o : Overrides} {r : Resolution} :
    resolve p b o = .ok r ↔
      o.Sound ∧ (Configuration.ofFlags p b o.assignment).verdict = .ok r := by
  cases o.sound_or_firstFault with
  | inl h =>
      rw [resolve_of_sound p b h]
      exact ⟨fun hr => ⟨h, hr⟩, fun hr => hr.2⟩
  | inr h =>
      obtain ⟨n, v, hfirst⟩ := h
      rw [resolve_of_firstFault p b hfirst]
      constructor
      · intro hr
        cases hr
      · intro hr
        exact (hr.1.not_firstFault hfirst).elim

namespace Configuration

theorem config_of_verdict {c : Configuration} {r : Resolution} (h : c.verdict = .ok r) :
    r.config = c ∧ c.violation? = none := by
  rw [verdict] at h
  split at h
  next => cases h
  next hv =>
    cases h
    exact ⟨rfl, hv⟩

/-- The configuration that a request calls for, described flag by flag and without the resolver. -/
structure Realizes (c : Configuration) (p : Platform) (b : Backend) (o : Overrides) : Prop where
  platform : c.platform = p
  backend : c.backend = b
  supported : b.supports p = true
  overridden : ∀ (f : Flag) raw, o.get? f.name = some raw →
    ∃ v, f.kind.coerce? raw = some v ∧ c.flags.get? f = some v
  untouched : ∀ f : Flag, o.get? f.name = none → c.flags.get? f = f.default?
  fits : ∀ f v, c.flags.get? f = some v → f.kind.Fits v
  present : ∀ f v, f.default? = some v → ∃ w, c.flags.get? f = some w
  installPrefix : ∀ q, c.installPrefix? = some q ↔
    c.flags.get? .cmakeInstallPrefix = some (.path q) ∧ q.text ≠ ""
  linkMode : c.linkMode = .shared ↔ c.flags.get? .buildSharedLibs = some (.bool true)

theorem Realizes.flags_eq {c : Configuration} {p : Platform} {b : Backend} {o : Overrides}
    (h : c.Realizes p b o) : c.flags = o.assignment := by
  refine Assignment.ext (funext fun f => ?_)
  cases hraw : o.get? f.name with
  | none => exact (h.untouched f hraw).trans (Overrides.value?_of_get?_none hraw).symm
  | some raw =>
      obtain ⟨v, hv, hget⟩ := h.overridden f raw hraw
      exact hget.trans (hv.symm.trans (Overrides.value?_of_get?_some hraw).symm)

theorem Realizes.eq {c d : Configuration} {p : Platform} {b : Backend} {o : Overrides}
    (hc : c.Realizes p b o) (hd : d.Realizes p b o) : c = d := by
  have hflags : c.flags = d.flags := hc.flags_eq.trans hd.flags_eq.symm
  have hprefix : c.installPrefix? = d.installPrefix? := by
    apply Option.ext
    intro q
    rw [hc.installPrefix q, hd.installPrefix q, hflags]
  have hmode : c.linkMode = .shared ↔ d.linkMode = .shared := by
    rw [hc.linkMode, hd.linkMode, hflags]
  have hlink : c.linkMode = d.linkMode := by
    cases hcm : c.linkMode <;> cases hdm : d.linkMode <;> simp_all
  have hplatform := hc.platform.trans hd.platform.symm
  have hbackend := hc.backend.trans hd.backend.symm
  cases c
  cases d
  simp_all

theorem Realizes.supports {c : Configuration} {p : Platform} {b : Backend} {o : Overrides}
    (h : c.Realizes p b o) : c.backend.supports c.platform = true := by
  rw [h.backend, h.platform]
  exact h.supported

theorem realizes_ofFlags {p : Platform} {b : Backend} {o : Overrides} (h : o.Sound)
    (hs : b.supports p = true) : (ofFlags p b o.assignment).Realizes p b o where
  platform := rfl
  backend := rfl
  supported := hs
  overridden f raw hraw := by
    obtain ⟨v, hv⟩ := h.coerce hraw
    exact ⟨v, hv, (Overrides.value?_of_get?_some hraw).trans hv⟩
  untouched f hraw := Overrides.value?_of_get?_none hraw
  fits f v hv := Overrides.fits_of_value? hv
  present f v hv := by
    cases hraw : o.get? f.name with
    | none => exact ⟨v, (Overrides.value?_of_get?_none hraw).trans hv⟩
    | some raw =>
        obtain ⟨w, hw⟩ := h.coerce hraw
        exact ⟨w, (Overrides.value?_of_get?_some hraw).trans hw⟩
  installPrefix q := Assignment.path?_eq_some_iff
  linkMode := by
    rw [← Assignment.isOn_iff]
    simp [ofFlags]

end Configuration

theorem config_realizes_of_resolve {p : Platform} {b : Backend} {o : Overrides} {r : Resolution}
    (h : resolve p b o = .ok r) : r.config.Realizes p b o := by
  obtain ⟨hsound, hverdict⟩ := resolve_eq_ok_iff.mp h
  obtain ⟨hconfig, hlegal⟩ := Configuration.config_of_verdict hverdict
  have hs : b.supports p = true := by
    cases hb : b.supports p with
    | true => rfl
    | false =>
        have hbroken := (Configuration.violation?_ofFlags_iff p b hsound).mpr (.backend hsound hb)
        rw [hlegal] at hbroken
        cases hbroken
  rw [hconfig]
  exact Configuration.realizes_ofFlags hsound hs

/-- A granted request determines its configuration, flag by flag and without regard to the
overrides of other flags. The same goes for a request that was saved and read back. -/
theorem resolved_config_determined :
    (∀ p b o r, resolve p b o = .ok r →
      (∀ c : Configuration, c.Realizes p b o ↔ c = r.config) ∧
      ∀ (g : Flag) raw r', resolve p b (o.insert g.name raw) = .ok r' →
        ∀ f, f ≠ g → r'.config.flags.get? f = r.config.flags.get? f) ∧
    (∀ text d r, Document.read? text = some d → d.resolve = .ok r →
      ∀ c : Configuration, c.Realizes d.platform d.backend d.flags ↔ c = r.config) := by
  have hunique : ∀ p b o r, resolve p b o = .ok r →
      ∀ c : Configuration, c.Realizes p b o ↔ c = r.config := by
    intro p b o r h c
    have hr := config_realizes_of_resolve h
    exact ⟨fun hc => hc.eq hr, fun hc => hc ▸ hr⟩
  refine ⟨?_, ?_⟩
  · intro p b o r h
    refine ⟨hunique p b o r h, ?_⟩
    intro g raw r' h' f hf
    rw [(config_realizes_of_resolve h).flags_eq, (config_realizes_of_resolve h').flags_eq]
    have hne : g.name ≠ f.name := fun he => hf (Flag.name_injective he).symm
    exact congrArg f.held? (NameMap.get?_insert_of_ne o hne raw)
  · intro text d r _ h c
    exact hunique d.platform d.backend d.flags r h c

/-- Another build type in small letters, an empty prefix, a later edit, and a request that was
saved. -/
theorem cygwin_config_determined :
    let o : Overrides := .ofList [("CMAKE_BUILD_TYPE", .text "debug"),
      ("CMAKE_INSTALL_PREFIX", .text ""), ("WITH_JPWL", .text "Yes")]
    let d : Document := ⟨.macOS, .cmake, .ofList [("BUILD_MJ2", .text "on")]⟩
    (∃ r r', resolve .winCygwin .manual o = .ok r ∧
      (∀ c : Configuration, c.Realizes .winCygwin .manual o ↔ c = r.config) ∧
      resolve .winCygwin .manual (o.insert "BUILD_SHARED_LIBS" (.bool false)) = .ok r' ∧
      r'.config.flags.get? .withJPWL = r.config.flags.get? .withJPWL) ∧
    (∃ r, Document.read? "[\"macos\",\"cmake\",\x7b\"BUILD_MJ2\":\"on\"\x7d]" = some d ∧
      d.resolve = .ok r ∧
      ∀ c : Configuration, c.Realizes d.platform d.backend d.flags ↔ c = r.config) := by
  intro o d
  obtain ⟨r, hr⟩ : ∃ r, resolve .winCygwin .manual o = .ok r := ⟨_, rfl⟩
  obtain ⟨r', hr'⟩ : ∃ r',
      resolve .winCygwin .manual (o.insert "BUILD_SHARED_LIBS" (.bool false)) = .ok r' := ⟨_, rfl⟩
  obtain ⟨hunique, hother⟩ := resolved_config_determined.1 .winCygwin .manual o r hr
  have hd : Document.read? "[\"macos\",\"cmake\",\x7b\"BUILD_MJ2\":\"on\"\x7d]" = some d := by
    decide
  obtain ⟨s, hs⟩ : ∃ s, d.resolve = .ok s := ⟨_, rfl⟩
  refine ⟨⟨r, r', hr, hunique, hr', ?_⟩, s, hd, hs, resolved_config_determined.2 _ d s hd hs⟩
  exact hother .buildSharedLibs (.bool false) r' hr' .withJPWL (by decide)

end CodecBuild
