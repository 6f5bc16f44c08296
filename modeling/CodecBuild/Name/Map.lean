import CodecBuild.Name.Sorted

/-!
Finite maps from names, held in ascending order of the names. What a map answers to `get?` after an
insertion, a series of insertions and a merge is stated here; everything else about maps follows from it,
since a map is determined by what it answers.
-/

namespace CodecBuild

structure NameMap (α : Type) where
  entries : List (String × α)
  ascending : Sorted.Ascending Prod.fst entries

namespace NameMap

variable {α : Type}

instance [DecidableEq α] : DecidableEq (NameMap α) := fun a b =>
  decidable_of_iff (a.entries = b.entries) <| by cases a; cases b; simp

def empty : NameMap α := ⟨[], List.Pairwise.nil⟩

instance : Inhabited (NameMap α) := ⟨empty⟩

def isEmpty (m : NameMap α) : Bool := m.entries.isEmpty

def get? (m : NameMap α) (n : String) : Option α := (Sorted.find? Prod.fst n m.entries).map Prod.snd

/-- The last value written under a name is the one that counts. -/
def insert (m : NameMap α) (n : String) (x : α) : NameMap α :=
  ⟨Sorted.insert Prod.fst (n, x) m.entries, m.ascending.insert (n, x)⟩

def insertAll (m : NameMap α) (entries : List (String × α)) : NameMap α :=
  entries.foldl (fun m e => m.insert e.1 e.2) m

def ofList (entries : List (String × α)) : NameMap α := empty.insertAll entries

/-- Lays `upper` over `lower`: where both have a name, `upper` decides. -/
def merge (lower upper : NameMap α) : NameMap α := lower.insertAll upper.entries

theorem get?_empty (n : String) : (empty : NameMap α).get? n = none := rfl

theorem get?_insert_self (m : NameMap α) (n : String) (x : α) : (m.insert n x).get? n = some x := by
  simp [get?, insert, Sorted.find?_insert_self Prod.fst (n, x)]

theorem get?_insert_of_ne (m : NameMap α) {n k : String} (h : n ≠ k) (x : α) :
    (m.insert n x).get? k = m.get? k := by
  simp [get?, insert, Sorted.find?_insert_of_ne Prod.fst (show Prod.fst (n, x) ≠ k from h)]

theorem find?_entries (m : NameMap α) (n : String) :
    Sorted.find? Prod.fst n m.entries = (m.get? n).map (n, ·) := by
  cases h : Sorted.find? Prod.fst n m.entries with
  | none => simp [get?, h]
  | some e =>
    obtain ⟨k, x⟩ := e
    have hk : k = n := Sorted.name_of_find? h
    simp [get?, h, hk]

theorem mem_entries {m : NameMap α} {n : String} {x : α} : (n, x) ∈ m.entries ↔ m.get? n = some x := by
  have h := Sorted.find?_eq_some_iff_of_nodup (n := n) (x := (n, x)) m.ascending.nodup
  rw [find?_entries] at h
  simpa using h.symm

theorem get?_insertAll_of_nodup (m : NameMap α) {es : List (String × α)} (h : (es.map Prod.fst).Nodup)
    (n : String) :
    (m.insertAll es).get? n = ((Sorted.find? Prod.fst n es).map Prod.snd).or (m.get? n) := by
  induction es generalizing m with
  | nil => rfl
  | cons e es ih =>
      obtain ⟨he, hes⟩ := List.nodup_cons.mp h
      have hstep := ih (m.insert e.1 e.2) hes
      by_cases hn : e.1 = n
      · subst hn
        rw [Sorted.find?_eq_none_iff.mpr he, get?_insert_self] at hstep
        rw [Sorted.find?_cons_self]
        exact hstep
      · rw [get?_insert_of_ne m hn] at hstep
        rw [Sorted.find?_cons_of_ne hn]
        exact hstep

theorem get?_merge (lower upper : NameMap α) (n : String) :
    (lower.merge upper).get? n = (upper.get? n).or (lower.get? n) :=
  lower.get?_insertAll_of_nodup upper.ascending.nodup n

theorem get?_ofList_of_nodup {es : List (String × α)} (h : (es.map Prod.fst).Nodup) {n : String} {x : α} :
    (ofList es).get? n = some x ↔ (n, x) ∈ es := by
  rw [ofList, get?_insertAll_of_nodup _ h, get?_empty, Option.or_none, Option.map_eq_some_iff]
  constructor
  · rintro ⟨⟨k, y⟩, hf, rfl⟩
    obtain ⟨hmem, rfl⟩ := (Sorted.find?_eq_some_iff_of_nodup h).mp hf
    exact hmem
  · intro hmem
    exact ⟨(n, x), (Sorted.find?_eq_some_iff_of_nodup h).mpr ⟨hmem, rfl⟩, rfl⟩

theorem eq_of_get?_eq {m k : NameMap α} (h : ∀ n, m.get? n = k.get? n) : m = k := by
  have he : m.entries = k.entries :=
    Sorted.eq_of_find?_eq m.ascending k.ascending fun n => by rw [find?_entries, find?_entries, h n]
  cases m
  cases k
  simp_all

end NameMap
end CodecBuild
