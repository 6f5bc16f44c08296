import CodecBuild.Json.Value
import CodecBuild.Proofs.List.Traversal
import CodecBuild.Proofs.Name.LastEntry

/-!
The members of an object by their names. Where an object is read as a record, a field gets what
the member of its name holds, and no other member matters. Where it is read as a map, the last
member of a name counts.
-/

namespace CodecBuild.Json

/-- What the first member of a name holds. -/
def member? (ms : List (Option String × Json)) (n : String) : Option Json :=
  (ms.find? (·.1 == some n)).map Prod.snd

/-- What a member gives the name `n`, as far as it holds something that can be read. -/
def given? {α : Type} (read : Json → Option α) (n : String) (m : Option String × Json) : Option α :=
  if m.1 = some n then read m.2 else none

variable {ms : List (Option String × Json)} {es : List (String × Json)}

theorem forall₂_of_members? (h : members? ms = some es) :
    List.Forall₂ (fun m e => m = (some e.1, e.2)) ms es := by
  refine (forall₂_of_mapM_option h).imp ?_
  rintro ⟨name, j⟩ e he
  obtain ⟨n, hn, rfl⟩ := Option.map_eq_some_iff.mp he
  exact congrArg (·, j) hn

theorem find?_of_members? (h : members? ms = some es) (n : String) :
    (es.find? (·.1 == n)).map Prod.snd = member? ms n := by
  have hrelated := forall₂_of_members? h
  clear h
  rw [member?]
  induction hrelated with
  | nil => rfl
  | @cons m e ms es hm _ ih =>
      subst hm
      by_cases hn : e.1 = n
      · simp [hn]
      · simpa [hn] using ih

theorem field?_eq_some {n : String} {j : Option Json} (h : field? es n = some j) :
    (es.find? (·.1 == n)).map Prod.snd = j := by
  rw [← List.head?_filter]
  rw [field?] at h
  split at h
  next hnone => rw [hnone]; exact Option.some.inj h
  next m hone => rw [hone]; exact Option.some.inj h
  next => cases h

/-- The fields of a record that is read from an object. -/
theorem fields?_obj {names : List String} {js : List (Option Json)}
    (h : fields? names (.obj ms) = some js) : js = names.map (member? ms) := by
  obtain ⟨es, hes, hfields⟩ := Option.bind_eq_some_iff.mp h
  have hrelated := forall₂_of_mapM_option hfields
  clear h hfields
  induction hrelated with
  | nil => rfl
  | @cons n j names js hn _ ih =>
      rw [List.map_cons, ← ih, ← find?_of_members? hes n, field?_eq_some hn]

/-- Entries that are read from the members of an object, one from each. -/
theorem last?_of_members? {α : Type} {read : Json → Option α} {entries : List (String × α)}
    (hes : members? ms = some es)
    (h : es.mapM (fun e => (read e.2).map (e.1, ·)) = some entries) (n : String) :
    last? (NameMap.under n) entries = last? (given? read n) ms := by
  have hread : List.Forall₂ (fun e x => given? read n (some e.1, e.2) = NameMap.under n x)
      es entries := by
    refine (forall₂_of_mapM_option h).imp ?_
    intro e x he
    obtain ⟨y, hy, rfl⟩ := Option.map_eq_some_iff.mp he
    by_cases hn : e.1 = n
    · simp [given?, NameMap.under, hn, hy]
    · simp [given?, NameMap.under, hn]
  have hmembers : List.Forall₂ (fun m e => given? read n m = given? read n (some e.1, e.2)) ms es :=
    (forall₂_of_members? hes).imp fun _ _ hm => congrArg (given? read n) hm
  rw [last?_eq_of_forall₂ hmembers, last?_eq_of_forall₂ hread]

end CodecBuild.Json
