import CodecBuild.Overrides
import CodecBuild.Proofs.Name.ByteOrder
import CodecBuild.Proofs.Name.LastEntry

/-!
Overrides that are changed again and again. Whatever is done to them, they are what comes of writing a
list of entries into empty overrides, namely of all that has been written since they were last replaced
as a whole. A map filled from a list answers with the last entry of a name, and maps that give the same
answers are equal; so of the way to a map, only the last write of each name is left.
-/

namespace CodecBuild

namespace NameMap

variable {α : Type}

theorem insertAll_append (m : NameMap α) (es es' : List (String × α)) :
    m.insertAll (es ++ es') = (m.insertAll es).insertAll es' :=
  List.foldl_append

theorem isEmpty_iff {m : NameMap α} : m.isEmpty = true ↔ ∀ n, m.get? n = none := by
  rw [isEmpty, List.isEmpty_iff, List.eq_nil_iff_forall_not_mem]
  constructor
  · intro h n
    cases hn : m.get? n with
    | none => rfl
    | some x => exact absurd (mem_entries.mpr hn) (h (n, x))
  · intro h e he
    have hsome := mem_entries.mp he
    rw [h e.1] at hsome
    cases hsome

theorem isEmpty_ofList_iff {es : List (String × α)} : (ofList es).isEmpty = true ↔ es = [] := by
  rw [isEmpty_iff]
  constructor
  · intro h
    apply List.eq_nil_iff_forall_not_mem.mpr
    intro e he
    have hnone := h e.1
    rw [get?_ofList, last?, List.findSome?_eq_none_iff] at hnone
    simpa [under] using hnone e (List.mem_reverse.mpr he)
  · intro h n
    rw [h]
    rfl

end NameMap

namespace Overrides

inductive Operation where
  | insert (n : String) (raw : RawValue)
  | assign (text : String)
  | merge (upper : Overrides)
  | collect (entries : List (String × RawValue))

namespace Operation

/-- Only an assignment can fail. -/
def perform (o : Overrides) : Operation → Except OverrideError Overrides
  | insert n raw => .ok (o.insert n raw)
  | assign text => (readAssignment text).map fun e => o.insert e.1 e.2
  | merge upper => .ok (o.merge upper)
  | collect entries => .ok (.ofList entries)

/-- The entries that an operation writes, in order. -/
def writes : Operation → List (String × RawValue)
  | insert n raw => [(n, raw)]
  | assign text => (readAssignment text).toOption.toList
  | merge upper => upper.entries
  | collect entries => entries

/-- Whether an operation replaces the overrides as a whole. -/
def replaces : Operation → Bool
  | collect _ => true
  | insert _ _ | assign _ | merge _ => false

end Operation

/-- A failure leaves the overrides as they are. -/
def step (o : Overrides) (op : Operation) : Overrides :=
  match op.perform o with
  | .ok o' => o'
  | .error _ => o

def run (ops : List Operation) : Overrides := ops.foldl step .empty

/-- The operations from the last one on that replaces the overrides, or all if none does. -/
def recent : List Operation → List Operation
  | [] => []
  | op :: ops => if ops.any Operation.replaces then recent ops else op :: ops

def written (ops : List Operation) : List (String × RawValue) := (recent ops).flatMap Operation.writes

/-- An operation writes its entries, into what there is or, to replace it, into nothing. -/
theorem step_eq (o : Overrides) (op : Operation) :
    o.step op = (if op.replaces then .empty else o).insertAll op.writes := by
  cases op with
  | insert n raw => rfl
  | assign text =>
      simp only [step, Operation.perform, Operation.writes, Operation.replaces]
      cases readAssignment text <;> rfl
  | merge upper => rfl
  | collect entries => rfl

theorem recent_eq_self {ops : List Operation} (h : ops.any Operation.replaces = false) :
    recent ops = ops := by
  cases ops with
  | nil => rfl
  | cons op ops =>
      rw [List.any_cons, Bool.or_eq_false_iff] at h
      rw [recent, h.2]
      rfl

theorem foldl_step_eq (o : Overrides) (ops : List Operation) :
    ops.foldl step o =
      (if ops.any Operation.replaces then .empty else o).insertAll (written ops) := by
  induction ops generalizing o with
  | nil => rfl
  | cons op ops ih =>
      rw [List.foldl_cons, ih, List.any_cons]
      cases hops : ops.any Operation.replaces with
      -- What comes of the first operation is replaced later on.
      | true => simp [written, recent, hops]
      | false =>
          have hwritten : written (op :: ops) = op.writes ++ written ops := by
            simp [written, recent, hops, recent_eq_self hops]
          rw [hwritten, NameMap.insertAll_append, Bool.or_false, ← step_eq]
          rfl

theorem run_eq_ofList (ops : List Operation) : run ops = .ofList (written ops) := by
  rw [run, foldl_step_eq, ite_self]
  rfl

theorem run_snoc_of_error {ops : List Operation} {op : Operation} {e : OverrideError}
    (h : op.perform (run ops) = .error e) : run (ops ++ [op]) = run ops := by
  have hstep : run (ops ++ [op]) = (run ops).step op := List.foldl_append
  rw [hstep, step, h]

theorem names_ascend (o : Overrides) :
    o.entries.Pairwise fun x y => Text.bytes x.1 < Text.bytes y.1 :=
  o.ascending.imp fun h => Text.bytes_lt_bytes_iff.mpr h

/-- After any operations, the overrides answer with what was written last, since they were last
replaced as a whole. An assignment that fails changes nothing; the names come in the order of their
bytes, each of them once; and what answers alike is equal, however it came about. -/
theorem last_write_decides (ops : List Operation) :
    (∀ n, (run ops).get? n = last? (NameMap.under n) (written ops)) ∧
    (∀ text e, readAssignment text = .error e →
      (Operation.assign text).perform (run ops) = .error e ∧
        run (ops ++ [.assign text]) = run ops) ∧
    ((run ops).entries.Pairwise fun x y => Text.bytes x.1 < Text.bytes y.1) ∧
    (∀ n raw, (n, raw) ∈ (run ops).entries ↔ (run ops).get? n = some raw) ∧
    ((run ops).isEmpty = true ↔ written ops = []) ∧
    ∀ ops', run ops' = run ops ↔ ∀ n, (run ops').get? n = (run ops).get? n := by
  refine ⟨?_, ?_, names_ascend _, fun _ _ => NameMap.mem_entries, ?_, fun ops' => ⟨?_, ?_⟩⟩
  · intro n
    rw [run_eq_ofList, NameMap.get?_ofList]
  · intro text e h
    have herror : (Operation.assign text).perform (run ops) = .error e := by
      rw [Operation.perform, h]
      rfl
    exact ⟨herror, run_snoc_of_error herror⟩
  · rw [run_eq_ofList, NameMap.isEmpty_ofList_iff]
  · intro h n
    rw [h]
  · exact NameMap.eq_of_get?_eq

/-- Entries that are lost when others are collected, a name collected twice, an assignment without a
value and one without a name, and names that are not in the order of their letters; then another way
to the same overrides. -/
theorem rewritten_overrides_agree :
    let ops : List Operation := [.insert "BUILD_MJ2" (.bool true),
      .collect [("b", .text "1"), ("B", .bool false), ("b", .text "2")],
      .merge (.ofList [("\u00e9", .text "x"), ("B", .bool true)]), .assign "\u00e9:STRING= "]
    let ops' : List Operation := [.assign "B = off", .assign "\u00e9=", .assign "b:=2",
      .insert "B" (.bool true)]
    (run ops).get? "b" = some (.text "2") ∧ (run ops).get? "BUILD_MJ2" = none ∧
      readAssignment " :BOOL=on" = .error (.noName " :BOOL=on") ∧
      run (ops ++ [.assign " :BOOL=on"]) = run ops ∧ run ops' = run ops := by
  intro ops ops'
  have hfails : readAssignment " :BOOL=on" = .error (.noName " :BOOL=on") := by decide
  obtain ⟨hget, hassign, -, -, -, hequal⟩ := last_write_decides ops
  obtain ⟨hget', -⟩ := last_write_decides ops'
  have hwritten : written ops = [("b", .text "1"), ("B", .bool false), ("b", .text "2"),
    ("B", .bool true), ("\u00e9", .text "x"), ("\u00e9", .text "")] := by decide
  have hwritten' : written ops' = [("B", .text "off"), ("\u00e9", .text ""), ("b", .text "2"),
    ("B", .bool true)] := by decide
  refine ⟨(hget _).trans (by decide), (hget _).trans (by decide), hfails,
    (hassign _ _ hfails).2, (hequal ops').mpr fun n => ?_⟩
  rw [hget', hget, hwritten, hwritten']
  by_cases hb : "b" = n
  · subst hb
    rfl
  by_cases hB : "B" = n
  · subst hB
    rfl
  by_cases he : "\u00e9" = n
  · subst he
    rfl
  simp [last?, NameMap.under, hb, hB, he]

end Overrides
end CodecBuild
