import CodecBuild.Proofs.Resolution.Outcome

/-!
Editing the override of one flag. Only three flags are looked at when a request is judged. If the
flag edited is none of them, and what takes the place of its override is accepted, a granted
request is granted again, with the same values of the other flags.
-/

namespace CodecBuild

namespace NameMap

variable {α : Type}

def erase (m : NameMap α) (n : String) : NameMap α :=
  ⟨m.entries.filter (·.1 ≠ n), m.ascending.filter _⟩

theorem get?_erase (m : NameMap α) (n k : String) :
    (m.erase n).get? k = if k = n then none else m.get? k := by
  apply Option.ext
  intro x
  rw [← mem_entries, erase, List.mem_filter, mem_entries]
  by_cases h : k = n <;> simp [h]

theorem erase_eq_self {m : NameMap α} {n : String} (h : m.get? n = none) : m.erase n = m := by
  apply eq_of_get?_eq
  intro k
  rw [get?_erase]
  split
  next hk => rw [hk, h]
  next => rfl

theorem insert_eq_self {m : NameMap α} {n : String} {x : α} (h : m.get? n = some x) :
    m.insert n x = m := by
  apply eq_of_get?_eq
  intro k
  by_cases hk : n = k
  · rw [← hk, get?_insert_self, h]
  · rw [get?_insert_of_ne m hk]

end NameMap

variable {p : Platform} {b : Backend} {o o' : Overrides} {r : Resolution}

theorem legal_of_resolve (h : resolve p b o = .ok r) : Legal p b o := by
  rw [legal_iff_not_refusal]
  intro v hv
  rw [(resolve_eq_error_iff p b o v).mpr hv] at h
  cases h

theorem Legal.exists_resolve (h : Legal p b o) : ∃ r, resolve p b o = .ok r := by
  cases hr : resolve p b o with
  | ok r => exact ⟨r, rfl⟩
  | error v =>
      exact ((legal_iff_not_refusal p b o).mp h v ((resolve_eq_error_iff p b o v).mp hr)).elim

/-- The flags that the rules of legality look at. -/
def Flag.judged : List Flag := [.buildIndexerJPIP, .buildTesting, .conformanceDataRoot]

theorem Legal.of_agree (h : Legal p b o) (hsound : o'.Sound)
    (hagree : ∀ f ∈ Flag.judged, o'.value? f = o.value? f) : Legal p b o' where
  sound := hsound
  supported := h.supported
  indexer := by
    rw [hagree .buildIndexerJPIP (by decide)]
    exact h.indexer
  dataRoot := by
    rw [Overrides.LacksPath, hagree .buildTesting (by decide),
      hagree .conformanceDataRoot (by decide)]
    exact h.dataRoot

namespace Overrides

theorem fault?_erase (o : Overrides) (n m : String) :
    fault? (o.erase n) m = if m = n then none else o.fault? m := by
  rw [fault?, NameMap.get?_erase]
  split <;> rfl

theorem fault?_insert (o : Overrides) {f : Flag} {raw : RawValue} {v : FlagValue}
    (hv : f.kind.coerce? raw = some v) (m : String) :
    fault? (o.insert f.name raw) m = if m = f.name then none else o.fault? m := by
  split
  next hm =>
    rw [hm, fault?, NameMap.get?_insert_self]
    exact complaint?_eq_none_iff.mpr ⟨f, v, rfl, hv⟩
  next hm => rw [fault?, NameMap.get?_insert_of_ne o (Ne.symm hm), fault?]

theorem Sound.erase (h : o.Sound) (n : String) : Sound (o.erase n) := by
  intro m
  rw [fault?_erase, h m, ite_self]

theorem Sound.insert (h : o.Sound) {f : Flag} {raw : RawValue} {v : FlagValue}
    (hv : f.kind.coerce? raw = some v) : Sound (o.insert f.name raw) := by
  intro m
  rw [fault?_insert o hv, h m, ite_self]

theorem value?_erase_self (f : Flag) : value? (o.erase f.name) f = f.default? := by
  simp [value?, NameMap.get?_erase, Flag.held?]

theorem value?_erase_of_ne {f g : Flag} (h : g ≠ f) : value? (o.erase f.name) g = o.value? g := by
  have hname : g.name ≠ f.name := fun he => h (Flag.name_injective he)
  simp [value?, NameMap.get?_erase, hname]

theorem value?_insert_self (f : Flag) (raw : RawValue) :
    value? (o.insert f.name raw) f = f.kind.coerce? raw := by
  simp [value?, NameMap.get?_insert_self, Flag.held?]

theorem value?_insert_of_ne {f g : Flag} (h : g ≠ f) (raw : RawValue) :
    value? (o.insert f.name raw) g = o.value? g := by
  have hname : f.name ≠ g.name := fun he => h (Flag.name_injective he).symm
  simp [value?, NameMap.get?_insert_of_ne o hname]

theorem assignment_insert {f : Flag} {raw : RawValue} {v : FlagValue}
    (hv : f.kind.coerce? raw = some v) :
    assignment (o.insert f.name raw) = o.assignment.insert f v := by
  refine Assignment.ext (funext fun g => ?_)
  by_cases hg : g = f
  · subst hg
    exact ((value?_insert_self g raw).trans hv).trans
      (Assignment.get?_insert_self o.assignment g v).symm
  · exact (value?_insert_of_ne hg raw).trans
      (Assignment.get?_insert_of_ne o.assignment hg v).symm

end Overrides

/-- A configuration that is granted has its fields from the effective values of the flags. -/
theorem config_of_resolve (h : resolve p b o = .ok r) :
    r.config = .ofFlags p b o.assignment :=
  (Configuration.config_of_verdict (resolve_eq_ok_iff.mp h).2).1

theorem exists_resolve_of_edit (h : resolve p b o = .ok r) (hsound : o'.Sound) {f : Flag}
    (hf : f ∉ Flag.judged) (hother : ∀ g, g ≠ f → o'.value? g = o.value? g) :
    ∃ r', resolve p b o' = .ok r' := by
  apply Legal.exists_resolve
  apply (legal_of_resolve h).of_agree hsound
  intro g hg
  exact hother g fun he => hf (he ▸ hg)

end CodecBuild
