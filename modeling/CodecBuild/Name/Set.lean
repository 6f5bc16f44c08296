import CodecBuild.Name.Sorted

/-!
Finite sets of names, held in ascending order. Two sets are equal exactly when they have the same members.
-/

namespace CodecBuild

structure NameSet where
  names : List String
  ascending : Sorted.Ascending id names
  deriving DecidableEq

namespace NameSet

def empty : NameSet := ⟨[], List.Pairwise.nil⟩

instance : Inhabited NameSet := ⟨empty⟩

def insert (s : NameSet) (n : String) : NameSet := ⟨Sorted.insert id n s.names, s.ascending.insert n⟩

def ofList (ns : List String) : NameSet := ns.foldl insert empty

def isEmpty (s : NameSet) : Bool := s.names.isEmpty

instance : Membership String NameSet := ⟨fun s n => n ∈ s.names⟩

instance (s : NameSet) (n : String) : Decidable (n ∈ s) := inferInstanceAs (Decidable (n ∈ s.names))

theorem mem_def {s : NameSet} {n : String} : n ∈ s ↔ n ∈ s.names := Iff.rfl

theorem find?_names (s : NameSet) (n : String) :
    Sorted.find? id n s.names = if n ∈ s then some n else none := by
  cases h : Sorted.find? id n s.names with
  | none =>
    have hn : n ∉ s := fun hmem => List.find?_eq_none.mp h n hmem (by simp)
    simp [hn]
  | some x =>
    have hx : x = n := Sorted.name_of_find? h
    have hn : n ∈ s := hx ▸ List.mem_of_find?_eq_some h
    simp [hn, hx]

theorem eq_of_mem_iff {s t : NameSet} (h : ∀ n, n ∈ s ↔ n ∈ t) : s = t := by
  have hn : s.names = t.names :=
    Sorted.eq_of_find?_eq s.ascending t.ascending fun n => by simp only [find?_names, h n]
  cases s
  cases t
  simp_all

theorem mem_insert {s : NameSet} {n k : String} : k ∈ s.insert n ↔ k = n ∨ k ∈ s := by
  constructor
  · exact Sorted.mem_insert
  · intro h
    by_cases hk : n = k
    · subst hk
      exact List.mem_of_find?_eq_some (Sorted.find?_insert_self id n s.names)
    · have hs : k ∈ s := h.resolve_left (Ne.symm hk)
      have hf : Sorted.find? id k (s.insert n).names = some k := by
        rw [insert, Sorted.find?_insert_of_ne id hk, find?_names, if_pos hs]
      exact List.mem_of_find?_eq_some hf

theorem mem_ofList {ns : List String} {k : String} : k ∈ ofList ns ↔ k ∈ ns := by
  suffices h : ∀ s : NameSet, k ∈ ns.foldl insert s ↔ k ∈ ns ∨ k ∈ s by
    refine (h empty).trans ⟨fun hk => hk.resolve_right ?_, .inl⟩
    simp [mem_def, empty]
  induction ns with
  | nil => simp
  | cons n ns ih =>
    intro s
    rw [List.foldl_cons, ih, mem_insert, List.mem_cons]
    constructor
    · rintro (h | h | h)
      · exact .inl (.inr h)
      · exact .inl (.inl h)
      · exact .inr h
    · rintro ((h | h) | h)
      · exact .inr (.inl h)
      · exact .inl h
      · exact .inr (.inr h)

end NameSet
end CodecBuild
