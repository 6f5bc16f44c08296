import CodecBuild.Proofs.Resolution.Outcome

/-!
Reconfiguring. A granted request can be carried on in three forms: the overrides as they were
given, the flags that differ from the defaults, and all flags. Whatever is edited afterwards,
the three lead to the same answer. Each form is sound and gives every flag the same effective
value, and this is all that a later merge and the resolution can see of it.
-/

namespace CodecBuild

namespace Assignment

theorem nodup_entry_names (a : Assignment) : (a.entries.map fun e => e.1.name).Nodup := by
  have hall : Flag.all.Pairwise fun f g => f.name ≠ g.name :=
    Flag.all_nodup.imp fun hne he => hne (Flag.name_injective he)
  rw [List.Nodup, List.pairwise_map, entries, List.pairwise_filterMap]
  refine hall.imp ?_
  intro f g hne e he e' he'
  obtain ⟨v, -, rfl⟩ := Option.map_eq_some_iff.mp he
  obtain ⟨w, -, rfl⟩ := Option.map_eq_some_iff.mp he'
  exact hne

/-- The values of an assignment as overrides, each in some spelling. -/
def spelled (a : Assignment) (spell : FlagValue → RawValue) : Overrides :=
  NameMap.ofList (a.entries.map fun e => (e.1.name, spell e.2))

/-- Every value is what its flag makes of the spelling. -/
def ReadsBack (a : Assignment) (spell : FlagValue → RawValue) : Prop :=
  ∀ f v, a.get? f = some v → f.kind.coerce? (spell v) = some v

/-- Every value survives being written out as a raw value, and no default has been removed. -/
structure Settled (a : Assignment) : Prop where
  stable : a.ReadsBack FlagValue.toRaw
  present : ∀ f, a.get? f = none → f.default? = none

variable {a : Assignment} {spell : FlagValue → RawValue}

theorem get?_spelled (a : Assignment) (spell : FlagValue → RawValue) (n : String) :
    (a.spelled spell).get? n = (Flag.ofName? n).bind fun f => (a.get? f).map spell := by
  have hnodup : ((a.entries.map fun e => (e.1.name, spell e.2)).map Prod.fst).Nodup := by
    rw [List.map_map]
    exact a.nodup_entry_names
  apply Option.ext
  intro raw
  rw [spelled, NameMap.get?_ofList_of_nodup hnodup, List.mem_map, Option.bind_eq_some_iff]
  constructor
  · intro h
    obtain ⟨⟨f, v⟩, hmem, heq⟩ := h
    cases heq
    refine ⟨f, Flag.ofName?_name f, ?_⟩
    rw [Assignment.mem_entries.mp hmem]
    rfl
  · intro h
    obtain ⟨f, hf, hraw⟩ := h
    obtain ⟨v, hv, rfl⟩ := Option.map_eq_some_iff.mp hraw
    exact ⟨(f, v), Assignment.mem_entries.mpr hv, by rw [Flag.name_of_ofName? hf]⟩

theorem get?_spelled_name (a : Assignment) (spell : FlagValue → RawValue) (f : Flag) :
    (a.spelled spell).get? f.name = (a.get? f).map spell := by
  rw [get?_spelled, Flag.ofName?_name]
  rfl

theorem ReadsBack.sound (h : a.ReadsBack spell) : (a.spelled spell).Sound := by
  intro n
  cases hn : Flag.ofName? n with
  | none => simp [Overrides.fault?, get?_spelled, hn]
  | some f =>
      cases hv : a.get? f with
      | none => simp [Overrides.fault?, get?_spelled, hn, hv]
      | some v =>
          have hc : Overrides.complaint? n (spell v) = none :=
            Overrides.complaint?_eq_none_iff.mpr ⟨f, v, Flag.name_of_ofName? hn, h f v hv⟩
          simp [Overrides.fault?, get?_spelled, hn, hv, hc]

/-- A flag that is not spelled out falls back on its default. -/
theorem ReadsBack.value? (h : a.ReadsBack spell) (f : Flag) :
    (a.spelled spell).value? f = (a.get? f).or f.default? := by
  have hraw := get?_spelled_name a spell f
  cases hv : a.get? f with
  | none =>
      rw [hv] at hraw
      exact Overrides.value?_of_get?_none hraw
  | some v =>
      rw [hv] at hraw
      rw [Overrides.value?_of_get?_some hraw]
      exact h f v hv

theorem Settled.get?_or_default? (h : a.Settled) (f : Flag) :
    (a.get? f).or f.default? = a.get? f := by
  cases hv : a.get? f with
  | none => exact h.present f hv
  | some v => rfl

end Assignment

namespace Configuration

theorem get?_rawValues (a : Assignment) (n : String) :
    (rawValues a).get? n = (Flag.ofName? n).bind fun f => (a.get? f).map FlagValue.toRaw :=
  a.get?_spelled FlagValue.toRaw n

theorem rawValues_settled {a : Assignment} (ha : a.Settled) :
    (rawValues a).Sound ∧ ∀ f, (rawValues a).value? f = a.get? f :=
  ⟨ha.stable.sound, fun f => (ha.stable.value? f).trans (ha.get?_or_default? f)⟩

/-- Against the defaults a difference leaves out defaults only. -/
theorem rawValues_diff_settled {a : Assignment} (ha : a.Settled) :
    (rawValues (a.diff .defaults)).Sound ∧
      ∀ f, (rawValues (a.diff .defaults)).value? f = a.get? f := by
  have hstable : (a.diff .defaults).ReadsBack FlagValue.toRaw := by
    intro f v hv
    have hkept : a.differs .defaults f = true ∧ a.get? f = some v := by
      simpa [Assignment.diff] using hv
    exact ha.stable f v hkept.2
  refine ⟨hstable.sound, fun f => (hstable.value? f).trans ?_⟩
  cases hd : a.differs .defaults f with
  | true =>
      have hdiff : (a.diff .defaults).get? f = a.get? f := by simp [Assignment.diff, hd]
      rw [hdiff]
      exact ha.get?_or_default? f
  | false =>
      have hdiff : (a.diff .defaults).get? f = none := by simp [Assignment.diff, hd]
      rw [hdiff, Option.none_or]
      cases hv : a.get? f with
      | none => exact ha.present f hv
      | some v =>
          refine Decidable.byContradiction fun hne => ?_
          have htrue := Assignment.differs_defaults_iff.mpr ⟨v, hv, hne⟩
          rw [hd] at htrue
          cases htrue

end Configuration

namespace Overrides

theorem Sound.settled {o : Overrides} (h : o.Sound) : o.assignment.Settled where
  stable f v hv := by
    have hv : o.value? f = some v := hv
    cases hraw : o.get? f.name with
    | none =>
        rw [value?_of_get?_none hraw] at hv
        exact Flag.coerce?_toRaw_default? hv
    | some raw =>
        rw [value?_of_get?_some hraw] at hv
        exact FlagKind.coerce?_toRaw hv
  present f hnone := by
    have hnone : o.value? f = none := hnone
    cases hraw : o.get? f.name with
    | none => exact value?_of_get?_none hraw ▸ hnone
    | some raw =>
        obtain ⟨v, hv⟩ := h.coerce hraw
        rw [value?_of_get?_some hraw, hv] at hnone
        cases hnone

/-- Over sound overrides, only what is laid on top can be refused. -/
theorem Sound.fault?_merge {o : Overrides} (h : o.Sound) (upper : Overrides) (n : String) :
    fault? (o.merge upper) n = upper.fault? n := by
  have hlower := h n
  cases hu : upper.get? n with
  | some raw => simp [fault?, NameMap.get?_merge, hu]
  | none => simpa [fault?, NameMap.get?_merge, hu] using hlower

theorem value?_merge_congr {o o' : Overrides} (upper : Overrides) {f : Flag}
    (h : o.value? f = o'.value? f) : value? (o.merge upper) f = value? (o'.merge upper) f := by
  simp only [value?, NameMap.get?_merge]
  cases upper.get? f.name with
  | some raw => rfl
  | none => exact h

end Overrides

theorem resolve_merge_congr (p : Platform) (b : Backend) {o o' : Overrides} (h : o.Sound)
    (h' : o'.Sound) (hvalue : ∀ f, o.value? f = o'.value? f) (upper : Overrides) :
    resolve p b (o.merge upper) = resolve p b (o'.merge upper) := by
  apply resolve_congr
  · intro n
    rw [h.fault?_merge, h'.fault?_merge]
  · intro f
    exact Overrides.value?_merge_congr upper (hvalue f)

/-- The three forms in which a granted request can be carried on agree on every later edit. -/
theorem resolve_merge_of_resolved {p : Platform} {b : Backend} {o : Overrides} {r : Resolution}
    (h : resolve p b o = .ok r) (edit : Overrides) :
    resolve p b (r.config.overrides.merge edit) = resolve p b (o.merge edit) ∧
      resolve p b ((Configuration.rawValues r.config.flags).merge edit) =
        resolve p b (o.merge edit) := by
  have hsound := (resolve_eq_ok_iff.mp h).1
  have hflags : r.config.flags = o.assignment := (config_realizes_of_resolve h).flags_eq
  rw [Configuration.overrides, hflags]
  obtain ⟨hdiff, hdiffvalue⟩ := Configuration.rawValues_diff_settled hsound.settled
  obtain ⟨hfull, hfullvalue⟩ := Configuration.rawValues_settled hsound.settled
  exact ⟨resolve_merge_congr p b hdiff hsound hdiffvalue edit,
    resolve_merge_congr p b hfull hsound hfullvalue edit⟩

/-- A default spelled out in other words and a prefix with slashes to spare, then a flag set back
to its default and a name that no flag has, for which all three requests are refused. -/
theorem reset_and_unknown_merge_agree :
    let o : Overrides := .ofList [("BUILD_MJ2", .text "On"), ("BUILD_CODEC", .text "yes"),
      ("CMAKE_INSTALL_PREFIX", .text "/opt//j2k/")]
    let edit : Overrides := .ofList [("BUILD_MJ2", .bool false), ("BUILD_MJ3", .text "on")]
    ∃ r, resolve .macOS .manual o = .ok r ∧
      resolve .macOS .manual (r.config.overrides.merge edit) =
        resolve .macOS .manual (o.merge edit) ∧
      resolve .macOS .manual ((Configuration.rawValues r.config.flags).merge edit) =
        resolve .macOS .manual (o.merge edit) ∧
      resolve .macOS .manual (o.merge edit) = .error (.unknownFlag "BUILD_MJ3" []) := by
  intro o edit
  obtain ⟨r, hr⟩ : ∃ r, resolve .macOS .manual o = .ok r := ⟨_, rfl⟩
  obtain ⟨hchanged, hfull⟩ := resolve_merge_of_resolved hr edit
  exact ⟨r, hr, hchanged, hfull, rfl⟩

end CodecBuild
