import CodecBuild.Configuration.Resolution
import CodecBuild.Proofs.Flag.Coercion
import CodecBuild.Proofs.Name.ByteOrder

/-!
Laying overrides over the defaults. What is wrong with overrides is said here name by name, and
what they make of a flag is said flag by flag, without the loop. The loop stops at the first
name that is at fault in the order of bytes; if there is none it ends, and then every flag has
the value that is said here and the flags noted as changed are those that differ from their
defaults. So a resolution depends on the overrides through their faults and values only.
-/

namespace CodecBuild

/-- What a flag comes to hold: its raw value coerced if it is given one, else its default. -/
def Flag.held? (f : Flag) : Option RawValue → Option FlagValue
  | some raw => f.kind.coerce? raw
  | none => f.default?

namespace Overrides

/-- What an override is refused for, if it is: a name without a flag, or a value that the flag
does not take. -/
def complaint? (name : String) (raw : RawValue) : Option Violation :=
  match Flag.ofName? name with
  | none => some (.unknownFlag name (Flag.suggestions name))
  | some f => if f.kind.coerce? raw = none then some (.typeMismatch f raw) else none

/-- What the override of a name is refused for, if there is one and it is. -/
def fault? (o : Overrides) (name : String) : Option Violation :=
  (o.get? name).bind (complaint? name)

/-- No override is refused. -/
def Sound (o : Overrides) : Prop := ∀ n, o.fault? n = none

/-- The override of `n` is refused with `v`, and none whose name has smaller bytes is refused. -/
def FirstFault (o : Overrides) (n : String) (v : Violation) : Prop :=
  o.fault? n = some v ∧ ∀ m, Text.bytes m < Text.bytes n → o.fault? m = none

/-- The effective value of a flag. -/
def value? (o : Overrides) (f : Flag) : Option FlagValue := f.held? (o.get? f.name)

def assignment (o : Overrides) : Assignment := ⟨o.value?⟩

theorem value?_of_get?_some {o : Overrides} {f : Flag} {raw : RawValue}
    (h : o.get? f.name = some raw) : o.value? f = f.kind.coerce? raw := by
  rw [value?, h]
  rfl

theorem value?_of_get?_none {o : Overrides} {f : Flag} (h : o.get? f.name = none) :
    o.value? f = f.default? := by
  rw [value?, h]
  rfl

theorem complaint?_eq_none_iff {n : String} {raw : RawValue} :
    complaint? n raw = none ↔
      ∃ (f : Flag) (v : FlagValue), f.name = n ∧ f.kind.coerce? raw = some v := by
  constructor
  · intro h
    cases hf : Flag.ofName? n with
    | none => simp [complaint?, hf] at h
    | some f =>
        cases hv : f.kind.coerce? raw with
        | none => simp [complaint?, hf, hv] at h
        | some v => exact ⟨f, v, Flag.name_of_ofName? hf, hv⟩
  · rintro ⟨f, v, rfl, hv⟩
    simp [complaint?, Flag.ofName?_name, hv]

theorem fault?_eq_some_iff {o : Overrides} {n : String} {v : Violation} :
    o.fault? n = some v ↔ ∃ raw, (n, raw) ∈ o.entries ∧ complaint? n raw = some v := by
  simp only [fault?, Option.bind_eq_some_iff, NameMap.mem_entries]

theorem fault?_eq_none_iff {o : Overrides} {n : String} :
    o.fault? n = none ↔ ∀ raw, (n, raw) ∈ o.entries → complaint? n raw = none := by
  simp only [fault?, Option.bind_eq_none_iff, NameMap.mem_entries]

theorem sound_iff {o : Overrides} : o.Sound ↔ ∀ e ∈ o.entries, complaint? e.1 e.2 = none := by
  constructor
  · intro h e he
    exact fault?_eq_none_iff.mp (h e.1) e.2 he
  · intro h n
    exact fault?_eq_none_iff.mpr fun raw hmem => h (n, raw) hmem

instance (o : Overrides) : Decidable o.Sound := decidable_of_iff _ sound_iff.symm

theorem Sound.not_firstFault {o : Overrides} (h : o.Sound) {n : String} {v : Violation} :
    ¬o.FirstFault n v := by
  intro hfirst
  have hfault := hfirst.1
  rw [h] at hfault
  cases hfault

theorem Sound.coerce {o : Overrides} (h : o.Sound) {f : Flag} {raw : RawValue}
    (hraw : o.get? f.name = some raw) : ∃ v, f.kind.coerce? raw = some v := by
  have hc := fault?_eq_none_iff.mp (h f.name) raw (NameMap.mem_entries.mpr hraw)
  obtain ⟨g, v, hg, hv⟩ := complaint?_eq_none_iff.mp hc
  rw [Flag.name_injective hg] at hv
  exact ⟨v, hv⟩

/-- The first complaint on the way through the entries is the one with the least name. -/
theorem firstFault_iff_findSome? {o : Overrides} {v : Violation} :
    (∃ n, o.FirstFault n v) ↔ o.entries.findSome? (fun e => complaint? e.1 e.2) = some v := by
  rw [List.findSome?_eq_some_iff]
  constructor
  · rintro ⟨n, hn, hleast⟩
    obtain ⟨raw, hmem, hc⟩ := fault?_eq_some_iff.mp hn
    obtain ⟨pre, post, hes⟩ := List.append_of_mem hmem
    refine ⟨pre, (n, raw), post, hes, hc, ?_⟩
    intro e he
    have hasc := o.ascending
    rw [hes] at hasc
    have hin : e ∈ pre ++ (n, raw) :: post := List.mem_append_left _ he
    have hlt : e.1 < n := (hasc.mem_front_iff hin).mp he
    exact fault?_eq_none_iff.mp (hleast e.1 (Text.bytes_lt_bytes_iff.mpr hlt)) e.2 (hes ▸ hin)
  · rintro ⟨pre, ⟨n, raw⟩, post, hes, hc, hpre⟩
    have hasc := o.ascending
    rw [hes] at hasc
    have hin : (n, raw) ∈ o.entries := hes ▸ List.mem_append_right _ List.mem_cons_self
    refine ⟨n, fault?_eq_some_iff.mpr ⟨raw, hin, hc⟩, ?_⟩
    intro m hm
    refine fault?_eq_none_iff.mpr fun raw' hmem => ?_
    -- An entry with a smaller name stands in front of the one that is refused.
    exact hpre _ ((hasc.mem_front_iff (hes ▸ hmem)).mpr (Text.bytes_lt_bytes_iff.mp hm))

theorem sound_or_firstFault (o : Overrides) : o.Sound ∨ ∃ n v, o.FirstFault n v := by
  cases h : o.entries.findSome? (fun e => complaint? e.1 e.2) with
  | none => exact .inl (sound_iff.mpr (List.findSome?_eq_none_iff.mp h))
  | some v =>
      obtain ⟨n, hn⟩ := firstFault_iff_findSome?.mpr h
      exact .inr ⟨n, v, hn⟩

end Overrides

theorem Assignment.isChanged_iff {a : Assignment} {f : Flag} :
    a.isChanged f = true ↔ ∃ v, a.get? f = some v ∧ f.default? ≠ some v :=
  differs_defaults_iff

namespace Overlay

open Overrides

/-- The state of the loop when it has gone through the entries `done`. -/
structure Reflects (a : Overlay) (done : List (String × RawValue)) : Prop where
  flags : ∀ f, a.flags.get? f = f.held? ((Sorted.find? Prod.fst f.name done).map Prod.snd)
  changed : ∀ f, f ∈ a.changed ↔ a.flags.isChanged f = true

theorem reflects_defaults : defaults.Reflects [] where
  flags _ := rfl
  changed f := by
    rw [Assignment.isChanged_iff]
    constructor
    · intro h
      cases h
    · rintro ⟨v, hv, hne⟩
      exact absurd hv hne

theorem mem_changed_put {a : Overlay} {f g : Flag} {v : FlagValue} :
    g ∈ (a.put f v).changed ↔ g ∈ a.changed ∨ g = f ∧ f.default? ≠ some v := by
  have hagree := Assignment.agree_default?_iff (f := f) (o := some v)
  simp only [put]
  split
  next h => simp [hagree.mp h]
  next h =>
    have hne : f.default? ≠ some v := fun he => h (hagree.mpr he)
    simp [hne, or_comm]

theorem Reflects.put {a : Overlay} {done : List (String × RawValue)} {f : Flag} {raw : RawValue}
    {v : FlagValue} (h : a.Reflects done) (hnew : f.name ∉ done.map Prod.fst)
    (hv : f.kind.coerce? raw = some v) : (a.put f v).Reflects (done ++ [(f.name, raw)]) where
  flags g := by
    by_cases hg : g = f
    · subst hg
      have hnone : done.find? (fun e => e.1 == g.name) = none := Sorted.find?_eq_none_iff.mpr hnew
      simp [Overlay.put, Assignment.get?_insert_self, Sorted.find?, List.find?_append, hnone,
        Flag.held?, hv]
    · have hne : f.name ≠ g.name := fun he => hg (Flag.name_injective he).symm
      have hold := h.flags g
      simpa [Overlay.put, Assignment.get?_insert_of_ne _ hg, Sorted.find?, List.find?_append, hne]
        using hold
  changed g := by
    -- Before its entry is read the flag holds its default, so it is not noted yet.
    rw [mem_changed_put, h.changed g, Assignment.isChanged_iff, Assignment.isChanged_iff]
    by_cases hg : g = f
    · subst hg
      have hold : a.flags.get? g = g.default? := by
        rw [h.flags g, Sorted.find?_eq_none_iff.mpr hnew]
        rfl
      simp [Overlay.put, Assignment.get?_insert_self, hold]
    · simp [Overlay.put, Assignment.get?_insert_of_ne _ hg, hg]

theorem overrideWith_of_complaint {a : Overlay} {e : String × RawValue} {v : Violation}
    (h : complaint? e.1 e.2 = some v) : a.overrideWith e = .error v := by
  cases hf : Flag.ofName? e.1 with
  | none =>
      simp only [complaint?, hf, Option.some.injEq] at h
      simp only [overrideWith, Flag.lookup, hf, h]
      rfl
  | some f =>
      simp only [complaint?, hf, Option.ite_none_right_eq_some, Option.some.injEq] at h
      obtain ⟨hcoerce, rfl⟩ := h
      simp only [overrideWith, Flag.lookup, hf, Flag.accept, bind, Except.bind, hcoerce]

theorem overrideWith_of_coerce? {a : Overlay} {f : Flag} {raw : RawValue} {v : FlagValue}
    (h : f.kind.coerce? raw = some v) : a.overrideWith (f.name, raw) = .ok (a.put f v) := by
  simp only [overrideWith, Flag.lookup, Flag.ofName?_name, Flag.accept, bind, Except.bind, h]
  rfl

theorem foldlM_overrideWith_of_findSome? {es : List (String × RawValue)} {v : Violation}
    (h : es.findSome? (fun e => complaint? e.1 e.2) = some v) (a : Overlay) :
    es.foldlM overrideWith a = .error v := by
  induction es generalizing a with
  | nil => cases h
  | cons e es ih =>
      obtain ⟨n, raw⟩ := e
      cases hc : complaint? n raw with
      | some w =>
          rw [List.findSome?_cons, hc] at h
          cases h
          rw [List.foldlM_cons, overrideWith_of_complaint hc]
          rfl
      | none =>
          rw [List.findSome?_cons, hc] at h
          obtain ⟨f, w, rfl, hw⟩ := complaint?_eq_none_iff.mp hc
          rw [List.foldlM_cons, overrideWith_of_coerce? hw]
          exact ih h (a.put f w)

theorem exists_foldlM_overrideWith {es done : List (String × RawValue)} {a : Overlay}
    (h : a.Reflects done) (hnodup : ((done ++ es).map Prod.fst).Nodup)
    (hes : ∀ e ∈ es, complaint? e.1 e.2 = none) :
    ∃ c, es.foldlM overrideWith a = .ok c ∧ c.Reflects (done ++ es) := by
  induction es generalizing done a with
  | nil => exact ⟨a, rfl, by simpa using h⟩
  | cons e es ih =>
      obtain ⟨n, raw⟩ := e
      obtain ⟨f, v, rfl, hv⟩ := complaint?_eq_none_iff.mp (hes _ List.mem_cons_self)
      have hnew : f.name ∉ done.map Prod.fst := by
        rw [List.map_append, List.map_cons] at hnodup
        exact fun hin => (List.nodup_append.mp hnodup).2.2 _ hin _ List.mem_cons_self rfl
      -- The entry just read joins those that are done, so the invariant covers it from here on.
      have hstep := h.put hnew hv
      obtain ⟨c, hc, hreflects⟩ := ih hstep (by simpa using hnodup)
        fun d hd => hes d (List.mem_cons_of_mem _ hd)
      refine ⟨c, ?_, by simpa using hreflects⟩
      rw [List.foldlM_cons, overrideWith_of_coerce? hv]
      exact hc

theorem ofOverrides_of_firstFault {o : Overrides} {n : String} {v : Violation}
    (h : o.FirstFault n v) : ofOverrides o = .error v :=
  foldlM_overrideWith_of_findSome? (firstFault_iff_findSome?.mp ⟨n, h⟩) defaults

theorem exists_ofOverrides_of_sound {o : Overrides} (h : o.Sound) :
    ∃ a, ofOverrides o = .ok a ∧ a.flags = o.assignment ∧
      ∀ f, f ∈ a.changed ↔ o.assignment.isChanged f = true := by
  obtain ⟨a, ha, hflags, hchanged⟩ := exists_foldlM_overrideWith reflects_defaults
    (by simpa using o.ascending.nodup) (sound_iff.mp h)
  have hassignment : a.flags = o.assignment := Assignment.ext (funext hflags)
  exact ⟨a, ha, hassignment, hassignment ▸ hchanged⟩

end Overlay

namespace Configuration

def verdict (c : Configuration) : Except Violation Resolution :=
  match c.violation? with
  | some v => .error v
  | none => .ok ⟨c, c.advisories (Flag.all.filter c.flags.isChanged)⟩

theorem advisories_congr (c : Configuration) {xs ys : List Flag} (h : ∀ f, f ∈ xs ↔ f ∈ ys) :
    c.advisories xs = c.advisories ys := by
  have hcontains : xs.contains = ys.contains := by
    funext f
    simp [h f]
  simp only [advisories, hcontains]

end Configuration

theorem resolve_of_firstFault (p : Platform) (b : Backend) {o : Overrides} {n : String}
    {v : Violation} (h : o.FirstFault n v) : resolve p b o = .error v := by
  rw [resolve, Overlay.ofOverrides_of_firstFault h]
  rfl

theorem resolve_of_sound (p : Platform) (b : Backend) {o : Overrides} (h : o.Sound) :
    resolve p b o = (Configuration.ofFlags p b o.assignment).verdict := by
  obtain ⟨a, ha, hflags, hchanged⟩ := Overlay.exists_ofOverrides_of_sound h
  have hmem : ∀ f, f ∈ a.changed ↔ f ∈ Flag.all.filter o.assignment.isChanged := by
    intro f
    rw [hchanged f, List.mem_filter]
    exact ⟨fun hf => ⟨Flag.mem_all f, hf⟩, fun hf => hf.2⟩
  rw [resolve, ha, Configuration.verdict]
  simp only [bind, Except.bind, hflags, Configuration.advisories_congr _ hmem]
  rfl

/-- A resolution depends on the overrides through their faults and the effective values only. -/
theorem resolve_congr (p : Platform) (b : Backend) {o o' : Overrides}
    (hfault : ∀ n, o.fault? n = o'.fault? n) (hvalue : ∀ f, o.value? f = o'.value? f) :
    resolve p b o = resolve p b o' := by
  cases o.sound_or_firstFault with
  | inl h =>
      have h' : o'.Sound := fun n => (hfault n).symm.trans (h n)
      have hassignment : o.assignment = o'.assignment := Assignment.ext (funext hvalue)
      rw [resolve_of_sound p b h, resolve_of_sound p b h', hassignment]
  | inr h =>
      obtain ⟨n, v, h⟩ := h
      have h' : o'.FirstFault n v :=
        ⟨(hfault n).symm.trans h.1, fun m hm => (hfault m).symm.trans (h.2 m hm)⟩
      rw [resolve_of_firstFault p b h, resolve_of_firstFault p b h']

end CodecBuild
