import CodecBuild.Configuration.Matrix
import CodecBuild.Proofs.Resolution.Editing

/-!
The same overrides resolved for every pair. Whether an override is refused does not depend on the
pair, so such a refusal fills the whole matrix. Otherwise the pairs have the effective values in
common, and differ in what the later rules make of the platform and the backend.
-/

namespace CodecBuild

/-- An override is refused, and not what the request comes to as a whole. -/
def Violation.OfOverride : Violation → Prop
  | unknownFlag _ _ | typeMismatch _ _ => True
  | platformFlag _ _ _ | backendPlatform _ _ | missingRequired _ _ => False

theorem Overrides.ofOverride_of_complaint {n : String} {raw : RawValue} {v : Violation}
    (h : complaint? n raw = some v) : v.OfOverride := by
  cases hf : Flag.ofName? n with
  | none =>
      simp only [complaint?, hf, Option.some.injEq] at h
      exact h ▸ trivial
  | some f =>
      simp only [complaint?, hf, Option.ite_none_right_eq_some, Option.some.injEq] at h
      exact h.2 ▸ trivial

variable {p : Platform} {b : Backend} {o : Overrides} {v : Violation}

theorem Overrides.FirstFault.ofOverride {n : String} (h : o.FirstFault n v) : v.OfOverride := by
  obtain ⟨raw, -, hc⟩ := Overrides.fault?_eq_some_iff.mp h.1
  exact Overrides.ofOverride_of_complaint hc

/-- Where no override is refused, the request is refused by one of the later rules. -/
theorem Refusal.not_ofOverride (hsound : o.Sound) (h : Refusal p b o v) : ¬v.OfOverride := by
  cases h with
  | override first => exact (hsound.not_firstFault first).elim
  | backend | indexer | dataRoot => exact id

theorem Refusal.backendPlatform_iff (hsound : o.Sound) {b' : Backend} {p' : Platform} :
    Refusal p b o (.backendPlatform b' p') ↔ b.supports p = false ∧ b' = b ∧ p' = p := by
  constructor
  · intro h
    cases h with
    | override first => exact (hsound.not_firstFault first).elim
    | backend _ unsupported => exact ⟨unsupported, rfl, rfl⟩
  · rintro ⟨unsupported, rfl, rfl⟩
    exact .backend hsound unsupported

/-- Native Windows has one backend. -/
theorem Backend.eq_cmake_of_supports (h : b.supports .winNative = true) : b = .cmake := by
  cases b with
  | cmake => rfl
  | autotools | manual => cases h

/-- Tests are wanted and no data are named for them. -/
def Overrides.LacksTestData (o : Overrides) : Prop :=
  o.value? .buildTesting = some (.bool true) ∧ o.LacksPath .conformanceDataRoot

section

variable (hsound : o.Sound) (hs : b.supports p = true)
variable (hoff : o.value? .buildIndexerJPIP ≠ some (.bool true))

include hsound hs hoff

theorem resolve_of_lacksTestData (h : o.LacksTestData) :
    resolve p b o = .error (.missingRequired .conformanceDataRoot .buildTesting) := by
  rw [resolve_eq_error_iff]
  exact .dataRoot hsound hs (fun on => absurd on hoff) h.1 h.2

theorem exists_resolve_of_not_lacksTestData (h : ¬o.LacksTestData) :
    ∃ r, resolve p b o = .ok r := by
  have hlegal : Legal p b o :=
    ⟨hsound, hs, fun on => absurd on hoff, fun testing missing => h ⟨testing, missing⟩⟩
  exact hlegal.exists_resolve

end

namespace Matrix

theorem getElem?_flatMap_map {α β γ : Type} (f : α → β → γ) {xs : List α} {ys : List β} {i j : Nat}
    {x : α} {y : β} (hx : xs[i]? = some x) (hy : ys[j]? = some y) :
    (xs.flatMap fun x => ys.map (f x))[ys.length * i + j]? = some (f x y) := by
  have hj : j < ys.length := (List.getElem?_eq_some_iff.mp hy).1
  -- Behind the first row everything stands as far back as the row is long.
  induction xs generalizing i with
  | nil => cases hx
  | cons x' xs ih =>
      rw [List.flatMap_cons]
      cases i with
      | zero =>
          cases hx
          rw [List.getElem?_append_left (by simpa using hj)]
          simp [hy]
      | succ i =>
          have hrow : ys.length * (i + 1) + j = (ys.map (f x')).length + (ys.length * i + j) := by
            rw [List.length_map, Nat.mul_succ]
            omega
          rw [hrow, List.getElem?_append_right (Nat.le_add_right _ _), Nat.add_sub_cancel_left]
          exact ih hx

theorem entries_eq_flatMap (o : Overrides) :
    entries o = Platform.all.flatMap fun p => Backend.all.map fun b => ⟨p, b, resolve p b o⟩ := by
  simp only [entries, pairs, List.map_flatMap, List.map_map]
  rfl

theorem mem_entries_iff {e : Entry} :
    e ∈ entries o ↔ e.outcome = resolve e.platform e.backend o := by
  simp only [entries_eq_flatMap, List.mem_flatMap, List.mem_map]
  constructor
  · rintro ⟨p, -, b, -, rfl⟩
    rfl
  · intro h
    exact ⟨e.platform, Platform.mem_all _, e.backend, Backend.mem_all _, h ▸ rfl⟩

/-- What the entries have in common where no override is refused. -/
structure Uniform (o : Overrides) (es : List Entry) : Prop where
  judged : ∀ e ∈ es, ∀ v, e.outcome = .error v → ¬v.OfOverride
  unsupported : ∀ e ∈ es, ∀ b p, e.outcome = .error (.backendPlatform b p) ↔
    e.backend.supports e.platform = false ∧ b = e.backend ∧ p = e.platform
  alike : ∀ e ∈ es, ∀ e' ∈ es, ∀ r r', e.outcome = .ok r → e'.outcome = .ok r' →
    r.config.flags = r'.config.flags ∧ r.config.installPrefix? = r'.config.installPrefix? ∧
      r.config.linkMode = r'.config.linkMode
  indexer : o.value? .buildIndexerJPIP = some (.bool true) → ∀ e ∈ es, ∀ r, e.outcome = .ok r →
    e.platform = .winNative ∧ e.backend = .cmake
  /-- Without the indexer the supported pairs stand or fall together. -/
  noIndexer : o.value? .buildIndexerJPIP ≠ some (.bool true) →
    (∀ e ∈ es, e.backend.supports e.platform = true → ∃ r, e.outcome = .ok r) ∨
    ∀ e ∈ es, e.backend.supports e.platform = true →
      e.outcome = .error (.missingRequired .conformanceDataRoot .buildTesting)

theorem uniform_of_sound (hsound : o.Sound) : Uniform o (entries o) where
  judged e he v hv := by
    rw [mem_entries_iff.mp he, resolve_eq_error_iff] at hv
    exact hv.not_ofOverride hsound
  unsupported e he b p := by
    rw [mem_entries_iff.mp he, resolve_eq_error_iff]
    exact Refusal.backendPlatform_iff hsound
  alike e he e' he' r r' hr hr' := by
    rw [mem_entries_iff.mp he] at hr
    rw [mem_entries_iff.mp he'] at hr'
    rw [config_of_resolve hr, config_of_resolve hr']
    exact ⟨rfl, rfl, rfl⟩
  indexer on e he r hr := by
    rw [mem_entries_iff.mp he] at hr
    have hlegal := legal_of_resolve hr
    have hplatform := hlegal.indexer on
    exact ⟨hplatform, Backend.eq_cmake_of_supports (hplatform ▸ hlegal.supported)⟩
  noIndexer hoff := by
    by_cases h : o.LacksTestData
    · right
      intro e he hs
      rw [mem_entries_iff.mp he]
      exact resolve_of_lacksTestData hsound hs hoff h
    · left
      intro e he hs
      rw [mem_entries_iff.mp he]
      exact exists_resolve_of_not_lacksTestData hsound hs hoff h

/-- The matrix has one entry for each pair, row by row, with the answer for that pair alone. A
refused override is the answer everywhere; where none is refused, the entries are uniform. -/
theorem matrix_is_uniform (o : Overrides) :
    (entries o).length = Platform.all.length * Backend.all.length ∧
      (∀ (p : Platform) (b : Backend), ∃ i j, Platform.all[i]? = some p ∧ Backend.all[j]? = some b ∧
        (entries o)[Backend.all.length * i + j]? = some ⟨p, b, resolve p b o⟩) ∧
      ((∃ v : Violation, v.OfOverride ∧ ∀ e ∈ entries o, e.outcome = .error v) ∨
        Uniform o (entries o)) := by
  refine ⟨rfl, ?_, ?_⟩
  · intro p b
    obtain ⟨i, hi⟩ := List.getElem?_of_mem (Platform.mem_all p)
    obtain ⟨j, hj⟩ := List.getElem?_of_mem (Backend.mem_all b)
    rw [entries_eq_flatMap]
    exact ⟨i, j, hi, hj, getElem?_flatMap_map (fun p b => (⟨p, b, resolve p b o⟩ : Entry)) hi hj⟩
  · cases o.sound_or_firstFault with
    | inl hsound => exact .inr (uniform_of_sound hsound)
    | inr hfault =>
        obtain ⟨n, v, hfirst⟩ := hfault
        refine .inl ⟨v, hfirst.ofOverride, fun e he => ?_⟩
        rw [mem_entries_iff.mp he]
        exact resolve_of_firstFault e.platform e.backend hfirst

end Matrix
end CodecBuild
