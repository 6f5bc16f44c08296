import CodecBuild.Proofs.Plan.Reading
import CodecBuild.Proofs.Resolution.Editing

/-!
Ignored flags. An advisory that a flag is ignored is held against two builds, one with and one
without the override of the flag. For the flags that such an advisory can name, it is given exactly
when the two do the same; and then no other value of the flag makes a difference either.
-/

namespace CodecBuild

/-- The flag that an advisory says is ignored. -/
def Advisory.ignored? : Advisory → Option Flag
  | ignoredUnderManual flag | manualSymbolIgnored flag _ => some flag
  | osxArchitecturesIgnored _ _ => some .cmakeOSXArchitectures
  | manualTargetingRequired | docsSkipped => none

/-- One of the advisories says that the flag is ignored. -/
def Resolution.Reports (r : Resolution) (f : Flag) : Prop :=
  ∃ a ∈ r.advisories, a.ignored? = some f

/-- The flags that an advisory can say are ignored. -/
def Flag.ignorable : List Flag :=
  [.buildCodec, .buildMJ2, .buildJPWL, .buildJP3D, .withJPWL, .withJP3D, .cmakeOSXArchitectures]

theorem Flag.default?_of_boolean {f : Flag} (h : f.kind = .boolean) :
    ∃ b, f.default? = some (.bool b) := by
  cases f <;> first | exact ⟨_, rfl⟩ | cases h

namespace Configuration

variable {c : Configuration} {changed : List Flag} {f : Flag}

/-- The flags that a backend is said to ignore on all platforms. -/
def ignoredFlags : Backend → List Flag
  | .manual => ignoredUnderManual
  | .autotools | .cmake => manualSymbols

theorem exists_advisory_iff : (∃ a ∈ c.advisories changed, a.ignored? = some f) ↔
    (f ∈ ignoredFlags c.backend ∧ f ∈ changed) ∨
      (c.flags.contains .cmakeOSXArchitectures = true ∧
        ¬(c.platform = .macOS ∧ c.backend = .cmake)) ∧ .cmakeOSXArchitectures = f := by
  cases hb : c.backend <;>
    simp [advisories, hb, or_and_right, exists_or, Advisory.ignored?, ignoredFlags]

theorem isRead_eq_false_iff (p : Platform) (b : Backend) (hf : f ∈ Flag.ignorable) :
    f.isRead p b = false ↔ f ∈ ignoredFlags b ∨
      ¬(p = .macOS ∧ b = .cmake) ∧ .cmakeOSXArchitectures = f := by
  revert f
  cases b <;> cases p <;> decide

/-- What reads a flag that is not always read. -/
theorem read_cases (p : Platform) (b : Backend) (hf : f ∈ Flag.ignorable)
    (hread : f.isRead p b = true) :
    (f.kind = .boolean ∧ ∃ k, (f, k) ∈ Component.optional b) ∨
      (f = .cmakeOSXArchitectures ∧ b = .cmake ∧ CMake.isCached p f = true) := by
  have htable : ∀ f ∈ Flag.ignorable, f.isRead p b = true →
      (f.kind = .boolean ∧ f ∈ (Component.optional b).map Prod.fst) ∨
        (f = .cmakeOSXArchitectures ∧ b = .cmake ∧ CMake.isCached p f = true) := by
    cases b <;> cases p <;> decide
  simpa using htable f hf hread

/-- Between two builds that differ in one flag, that flag makes a difference exactly if it is
read. -/
theorem buildsAs_default_iff {p : Platform} {b : Backend} {a a' : Assignment}
    (hf : f ∈ Flag.ignorable) (hother : ∀ g, g ≠ f → a'.get? g = a.get? g)
    (hdefault : a'.get? f = f.default?) {v : FlagValue} (hv : a.get? f = some v)
    (hfits : f.kind.Fits v) (hchanged : f.default? ≠ some v) :
    (ofFlags p b a).BuildsAs (ofFlags p b a') ↔ f.isRead p b = false := by
  constructor
  · intro h
    rw [← Bool.not_eq_true]
    intro hread
    obtain ⟨hkind, k, hk⟩ | ⟨rfl, rfl, hcached⟩ := read_cases p b hf hread
    · obtain ⟨y, hy⟩ := Flag.default?_of_boolean hkind
      have hon : a.isOn f = a'.isOn f := h.isOn_eq rfl hk
      rw [hkind] at hfits
      cases v with
      | bool x =>
          apply hchanged
          simpa [Assignment.isOn, hv, hdefault, hy, FlagValue.bool?, eq_comm] using hon
      | path _ | choice _ | text _ => exact hfits.elim
    · have hentry := h.mem_cacheEntries rfl rfl
        (CMake.cacheEntry_mem_cacheEntries.mpr ⟨hcached, v, hv, rfl⟩)
      obtain ⟨-, w, hw, -⟩ := CMake.cacheEntry_mem_cacheEntries.mp hentry
      have hunset : (ofFlags p .cmake a').flags.get? .cmakeOSXArchitectures = none := hdefault
      rw [hunset] at hw
      cases hw
  · intro hread
    apply buildsAs_of_agree
    intro g hg
    exact (hother g fun he => by simp [he, hread] at hg).symm

end Configuration

variable {p : Platform} {b : Backend} {o : Overrides} {r : Resolution} {f : Flag}

theorem advisories_of_resolve (h : resolve p b o = .ok r) :
    r.advisories = r.config.advisories (Flag.all.filter r.config.flags.isChanged) := by
  have hverdict := (resolve_eq_ok_iff.mp h).2
  rw [Configuration.verdict] at hverdict
  split at hverdict
  next => cases hverdict
  next => cases hverdict; rfl

/-- For a flag that was given another value, there is an advisory exactly if it is not read. -/
theorem reports_iff (h : resolve p b o = .ok r) (hf : f ∈ Flag.ignorable)
    (hchanged : r.config.flags.isChanged f = true) : r.Reports f ↔ f.isRead p b = false := by
  have hr := config_realizes_of_resolve h
  obtain ⟨v, hv, -⟩ := Assignment.isChanged_iff.mp hchanged
  have hmem : f ∈ Flag.all.filter r.config.flags.isChanged :=
    List.mem_filter.mpr ⟨Flag.mem_all f, hchanged⟩
  rw [Resolution.Reports, advisories_of_resolve h, Configuration.exists_advisory_iff,
    Configuration.isRead_eq_false_iff p b hf, hr.backend, hr.platform, and_iff_left hmem]
  apply or_congr_right
  apply and_congr_left
  rintro rfl
  simp [Assignment.contains, hv]

theorem isChanged_of_resolve (h : resolve p b o = .ok r)
    (hne : r.config.flags.get? f ≠ f.default?) : r.config.flags.isChanged f = true := by
  cases hv : r.config.flags.get? f with
  | some v => exact Assignment.isChanged_iff.mpr ⟨v, hv, fun hd => hne (hv.trans hd.symm)⟩
  | none =>
      -- Only a flag without a default can be unset.
      cases hd : f.default? with
      | none => exact (hne (hv.trans hd.symm)).elim
      | some w =>
          obtain ⟨v, hset⟩ := (config_realizes_of_resolve h).present f w hd
          rw [hv] at hset
          cases hset

/-- Without its override, a flag that is reported as ignored leaves the build as it is, and a flag
that is not reported does not; and a flag that is reported may as well have any other value. -/
theorem ignored_flags_are_reported (h : resolve p b o = .ok r) (hf : f ∈ Flag.ignorable)
    (hne : r.config.flags.get? f ≠ f.default?) :
    (∃ r', resolve p b (o.erase f.name) = .ok r' ∧
      (r.Reports f ↔ r.config.BuildsAs r'.config)) ∧
    (r.Reports f → ∀ raw v, f.kind.coerce? raw = some v →
      ∃ r', resolve p b (o.insert f.name raw) = .ok r' ∧ r.config.BuildsAs r'.config) := by
  have hchanged := isChanged_of_resolve h hne
  have hsound := (legal_of_resolve h).sound
  have hjudged : f ∉ Flag.judged := by
    have htable : ∀ f ∈ Flag.ignorable, f ∉ Flag.judged := by decide
    exact htable f hf
  have hconfig := config_of_resolve h
  constructor
  · obtain ⟨r', hr'⟩ := exists_resolve_of_edit h (hsound.erase f.name) hjudged
      fun g hg => Overrides.value?_erase_of_ne hg
    obtain ⟨v, hv, hdefault⟩ := Assignment.isChanged_iff.mp hchanged
    have hfits := (config_realizes_of_resolve h).fits f v hv
    rw [hconfig] at hv
    refine ⟨r', hr', ?_⟩
    rw [reports_iff h hf hchanged, hconfig, config_of_resolve hr']
    exact (Configuration.buildsAs_default_iff hf (fun g hg => Overrides.value?_erase_of_ne hg)
      (Overrides.value?_erase_self f) hv hfits hdefault).symm
  · intro hreported raw v hv
    obtain ⟨r', hr'⟩ := exists_resolve_of_edit h (hsound.insert hv) hjudged
      fun g hg => Overrides.value?_insert_of_ne hg raw
    refine ⟨r', hr', ?_⟩
    rw [hconfig, config_of_resolve hr']
    apply Configuration.buildsAs_of_agree
    intro g hg
    have hunread := (reports_iff h hf hchanged).mp hreported
    exact (Overrides.value?_insert_of_ne (fun he => by simp [he, hunread] at hg) raw).symm

/-- Empty architectures are still written into the cache, a symbol of the Makefile is not. -/
theorem unset_architectures_build_differently :
    let o : Overrides := .ofList
      [("CMAKE_OSX_ARCHITECTURES", .text ""), ("WITH_JPWL", .text "yes")]
    ∃ r, resolve .macOS .cmake o = .ok r ∧
      (∃ r', resolve .macOS .cmake (o.erase "CMAKE_OSX_ARCHITECTURES") = .ok r' ∧
        ¬r.config.BuildsAs r'.config) ∧
      (∃ r', resolve .macOS .cmake (o.insert "WITH_JPWL" (.text "off")) = .ok r' ∧
        r.config.BuildsAs r'.config) := by
  intro o
  obtain ⟨r, hr⟩ : ∃ r, resolve .macOS .cmake o = .ok r := ⟨_, rfl⟩
  have hne : ∀ f ∈ [Flag.cmakeOSXArchitectures, .withJPWL],
      r.config.flags.get? f ≠ f.default? := by
    rw [config_of_resolve hr]
    decide
  have harchitectures := hne .cmakeOSXArchitectures (by decide)
  have hsymbol := hne .withJPWL (by decide)
  refine ⟨r, hr, ?_, ?_⟩
  · obtain ⟨⟨r', hr', hexact⟩, -⟩ := ignored_flags_are_reported hr (by decide) harchitectures
    refine ⟨r', hr', fun hsame => ?_⟩
    have hread := (reports_iff hr (by decide) (isChanged_of_resolve hr harchitectures)).mp
      (hexact.mpr hsame)
    cases hread
  · have hreported := (reports_iff hr (by decide) (isChanged_of_resolve hr hsymbol)).mpr rfl
    exact (ignored_flags_are_reported hr (by decide) hsymbol).2 hreported _ (.bool false) rfl

end CodecBuild
