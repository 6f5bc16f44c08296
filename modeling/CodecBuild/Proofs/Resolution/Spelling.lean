import CodecBuild.Proofs.Resolution.Editing

/-!
Spellings. Two requests may write the same values in other words, and may or may not spell out
defaults; they are answered alike. Paths are equal when their components are, which leaves open
how many slashes are written, but not whether the path is empty; so what is read off equal values
is equal, and the rules and the advisories see nothing else.
-/

namespace CodecBuild

/-- Equal answers, where paths count by their components. -/
inductive SameAnswer : Except Violation Resolution → Except Violation Resolution → Prop where
  | granted {r r' : Resolution} (same : r.same r' = true) : SameAnswer (.ok r) (.ok r')
  | refused (v : Violation) : SameAnswer (.error v) (.error v)

namespace FlagValue

variable {v w : FlagValue}

theorem bool?_congr (h : v.same w = true) : v.bool? = w.bool? := by
  cases v <;> cases w <;> simp_all [same, bool?]

/-- A value equal to a path is a path, and it is empty if the path is. -/
theorem path_of_same {p : Path} (h : (path p).same w = true) :
    ∃ q, w = path q ∧ p.same q = true := by
  cases w with
  | path q => exact ⟨q, rfl, h⟩
  | bool _ | choice _ | text _ => cases h

end FlagValue

namespace Assignment

variable {x y z : Option FlagValue} {a a' : Assignment} {f : Flag}

theorem agree_trans (hxy : agree x y = true) (hyz : agree y z = true) : agree x z = true := by
  cases x <;> cases y <;> cases z <;> simp_all [agree]
  exact FlagValue.same_trans hxy hyz

theorem agree_congr_left (h : agree x y = true) (z : Option FlagValue) :
    agree x z = agree y z := by
  rw [Bool.eq_iff_iff]
  exact ⟨agree_trans (agree_comm x y ▸ h), agree_trans h⟩

theorem agree_cases (h : agree x y = true) :
    (x = none ∧ y = none) ∨ ∃ v w, x = some v ∧ y = some w ∧ v.same w = true := by
  cases x with
  | none =>
      cases y with
      | none => exact .inl ⟨rfl, rfl⟩
      | some w => cases h
  | some v =>
      cases y with
      | none => cases h
      | some w => exact .inr ⟨v, w, rfl, rfl, h⟩

section

variable (h : agree (a.get? f) (a'.get? f) = true)

include h

theorem isOn_eq_of_agree : a.isOn f = a'.isOn f := by
  obtain ⟨hv, hw⟩ | ⟨v, w, hv, hw, hsame⟩ := agree_cases h
  · rw [isOn, isOn, hv, hw]
  · rw [isOn, isOn, hv, hw, Option.bind_some, Option.bind_some, FlagValue.bool?_congr hsame]

theorem contains_eq_of_agree : a.contains f = a'.contains f := by
  obtain ⟨hv, hw⟩ | ⟨v, w, hv, hw, -⟩ := agree_cases h
  · rw [contains, contains, hv, hw]
  · rw [contains, contains, hv, hw, Option.isSome_some, Option.isSome_some]

theorem isChanged_eq_of_agree : a.isChanged f = a'.isChanged f := by
  rw [isChanged, isChanged, differs, differs, contains_eq_of_agree h, agree_congr_left h]

theorem agree_path?_of_agree :
    agree ((a.path? f).map .path) ((a'.path? f).map .path) = true := by
  obtain ⟨hv, hw⟩ | ⟨v, w, hv, hw, hsame⟩ := agree_cases h
  · simp [path?, hv, hw, agree]
  · cases v with
    | path p =>
        obtain ⟨q, rfl, hpq⟩ := FlagValue.path_of_same hsame
        have hempty := Path.isEmpty_congr hpq
        cases hq : q.isEmpty <;>
          simp [path?, hv, hw, FlagValue.path?, Option.filter_some, hempty, hq, agree,
            FlagValue.same, hpq]
    | bool _ | choice _ | text _ =>
        cases w <;> simp_all [path?, FlagValue.path?, FlagValue.same, agree]

end

end Assignment

namespace Configuration

section

variable {a a' : Assignment} (p : Platform) (b : Backend)
variable (h : ∀ f, Assignment.agree (a.get? f) (a'.get? f) = true)

include h

theorem isOn_ofFlags_of_agree (f : Flag) :
    (ofFlags p b a).isOn f = (ofFlags p b a').isOn f :=
  Assignment.isOn_eq_of_agree (h f)

theorem violation?_eq_of_agree : (ofFlags p b a).violation? = (ofFlags p b a').violation? := by
  have hroot : (ofFlags p b a).dataRoot?.isNone = (ofFlags p b a').dataRoot?.isNone := by
    obtain ⟨hv, hw⟩ | ⟨v, w, hv, hw, -⟩ :=
      Assignment.agree_cases (Assignment.agree_path?_of_agree (h .conformanceDataRoot))
    · rw [dataRoot?, dataRoot?, ofFlags, ofFlags, Option.map_eq_none_iff.mp hv,
        Option.map_eq_none_iff.mp hw]
    · obtain ⟨q, hq, -⟩ := Option.map_eq_some_iff.mp hv
      obtain ⟨q', hq', -⟩ := Option.map_eq_some_iff.mp hw
      rw [dataRoot?, dataRoot?, ofFlags, ofFlags, hq, hq', Option.isNone_some, Option.isNone_some]
  exact violation?_congr rfl rfl (isOn_ofFlags_of_agree p b h) hroot

theorem advisories_eq_of_agree :
    (ofFlags p b a).advisories (Flag.all.filter a.isChanged) =
      (ofFlags p b a').advisories (Flag.all.filter a'.isChanged) := by
  have hon := isOn_ofFlags_of_agree p b h
  have hcontains : (ofFlags p b a).flags.contains .cmakeOSXArchitectures =
      (ofFlags p b a').flags.contains .cmakeOSXArchitectures :=
    Assignment.contains_eq_of_agree (h _)
  have hchanged : a.isChanged = a'.isChanged :=
    funext fun f => Assignment.isChanged_eq_of_agree (h f)
  simp only [advisories, hon, hchanged, hcontains]
  rfl

theorem same_ofFlags : (ofFlags p b a).same (ofFlags p b a') = true := by
  have hshared : a.isOn .buildSharedLibs = a'.isOn .buildSharedLibs :=
    Assignment.isOn_eq_of_agree (h _)
  have hflags : a.same a' = true := by
    rw [Assignment.same, List.all_eq_true]
    exact fun f _ => h f
  have hprefix := Assignment.agree_path?_of_agree (h .cmakeInstallPrefix)
  simp [Configuration.same, ofFlags, hshared, hflags, hprefix]

theorem verdict_of_agree : SameAnswer (ofFlags p b a).verdict (ofFlags p b a').verdict := by
  rw [verdict, verdict, violation?_eq_of_agree p b h]
  cases (ofFlags p b a').violation? with
  | some v => exact .refused v
  | none =>
      apply SameAnswer.granted
      rw [Resolution.same, same_ofFlags p b h, Bool.true_and, beq_iff_eq]
      exact advisories_eq_of_agree p b h

end

end Configuration

section

variable (p : Platform) (b : Backend) (o : Overrides) {f : Flag} {raw raw' : RawValue}
variable {v : FlagValue}

theorem resolve_insert_congr (hv : f.kind.coerce? raw = some v)
    (hv' : f.kind.coerce? raw' = some v) :
    resolve p b (o.insert f.name raw) = resolve p b (o.insert f.name raw') := by
  apply resolve_congr
  · intro n
    rw [Overrides.fault?_insert o hv, Overrides.fault?_insert o hv']
  · intro g
    by_cases hg : g = f
    · subst hg
      rw [Overrides.value?_insert_self, Overrides.value?_insert_self, hv, hv']
    · rw [Overrides.value?_insert_of_ne hg, Overrides.value?_insert_of_ne hg]

/-- A default that is spelled out is as good as none. -/
theorem resolve_insert_default (hv : f.kind.coerce? raw = some v) (hdefault : f.default? = some v) :
    resolve p b (o.insert f.name raw) = resolve p b (o.erase f.name) := by
  apply resolve_congr
  · intro n
    rw [Overrides.fault?_insert o hv, Overrides.fault?_erase]
  · intro g
    by_cases hg : g = f
    · subst hg
      rw [Overrides.value?_insert_self, Overrides.value?_erase_self, hv, hdefault]
    · rw [Overrides.value?_insert_of_ne hg, Overrides.value?_erase_of_ne hg]

end

/-- Requests that give each flag an equal value are answered alike, however they spell it. Neither
other words for a value nor a default that is spelled out makes a difference. -/
theorem resolve_sees_effective_values (p : Platform) (b : Backend) :
    (∀ o o' : Overrides, o.Sound → o'.Sound →
      ((∀ f, Assignment.agree (o.value? f) (o'.value? f) = true) →
        SameAnswer (resolve p b o) (resolve p b o')) ∧
      ((∀ f, o.value? f = o'.value? f) → resolve p b o = resolve p b o')) ∧
    (∀ (o : Overrides) (f : Flag) raw raw' v, f.kind.coerce? raw = some v →
      f.kind.coerce? raw' = some v →
      resolve p b (o.insert f.name raw) = resolve p b (o.insert f.name raw')) ∧
    ∀ (o : Overrides) (f : Flag) raw v, f.kind.coerce? raw = some v → f.default? = some v →
      (o.get? f.name = none → resolve p b (o.insert f.name raw) = resolve p b o) ∧
      (o.get? f.name = some raw → resolve p b (o.erase f.name) = resolve p b o) := by
  refine ⟨?_, fun o f raw raw' v hv hv' => resolve_insert_congr p b o hv hv', ?_⟩
  · intro o o' ho ho'
    constructor
    · intro h
      rw [resolve_of_sound p b ho, resolve_of_sound p b ho']
      exact Configuration.verdict_of_agree p b h
    · intro h
      exact resolve_congr p b (fun n => (ho n).trans (ho' n).symm) h
  · intro o f raw v hv hdefault
    have hsame := resolve_insert_default p b o hv hdefault
    constructor
    · intro hnone
      rw [hsame, NameMap.erase_eq_self hnone]
    · intro hsome
      rw [← hsame, NameMap.insert_eq_self hsome]

/-- A prefix with slashes to spare, a build type in small letters and a default in other words; and
data whose path is empty, which the tests do not take, in two spellings of the switch for them. -/
theorem respelled_requests_answered_alike :
    let o : Overrides := .ofList [("CMAKE_BUILD_TYPE", .text "debug"), ("BUILD_CODEC", .text "y"),
      ("CMAKE_INSTALL_PREFIX", .text "/opt//j2k/./"), ("WITH_JPWL", .text "1")]
    let o' : Overrides := .ofList [("CMAKE_BUILD_TYPE", .text "DEBUG"), ("WITH_JPWL", .bool true),
      ("CMAKE_INSTALL_PREFIX", .text "/opt/j2k")]
    let tested : Overrides := .ofList [("JPEG2000_CONFORMANCE_DATA_ROOT", .text "")]
    SameAnswer (resolve .unix .autotools o) (resolve .unix .autotools o') ∧
      resolve .unix .autotools o = resolve .unix .autotools
        (o'.insert "CMAKE_INSTALL_PREFIX" (.text "/opt//j2k/./")) ∧
      resolve .unix .autotools (tested.insert "BUILD_TESTING" (.text "Yes")) =
        resolve .unix .autotools (tested.insert "BUILD_TESTING" (.bool true)) ∧
      resolve .unix .autotools (o'.insert "BUILD_CODEC" (.text "y")) =
        resolve .unix .autotools o' ∧
      resolve .unix .autotools (o.erase "BUILD_CODEC") = resolve .unix .autotools o := by
  intro o o' tested
  obtain ⟨hspelled, hword, hdefault⟩ := resolve_sees_effective_values .unix .autotools
  refine ⟨(hspelled o o' (by decide) (by decide)).1 (by decide),
    (hspelled o _ (by decide) (by decide)).2 (by decide),
    hword tested .buildTesting _ _ (.bool true) (by decide) (by decide),
    (hdefault o' .buildCodec _ (.bool true) (by decide) (by decide)).1 (by decide),
    (hdefault o .buildCodec (.text "y") (.bool true) (by decide) (by decide)).2 (by decide)⟩

end CodecBuild
