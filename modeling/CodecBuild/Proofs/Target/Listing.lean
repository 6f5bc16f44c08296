import CodecBuild.Proofs.Json.RoundTrip
import CodecBuild.Proofs.List.Traversal
import CodecBuild.Target.Basic
import CodecBuild.Text.Basic

/-!
Lists of targets that are written out and read back. A set of dependencies is written in the order
of its names and comes back as a set; inputs that were left out come back as none.
-/

namespace CodecBuild

theorem NameSet.ofList_names (s : NameSet) : ofList s.names = s :=
  eq_of_mem_iff fun _ => mem_ofList

theorem TargetKind.ofName?_name (k : TargetKind) : ofName? k.name = some k := by
  cases k <;> decide

theorem Json.texts?_texts (ss : List String) : texts? (texts ss) = some ss := by
  have htext : ∀ s, text? (.str (some s)) = some s := fun _ => rfl
  exact mapM_map_eq_some htext ss

namespace Target

theorem plain_toJson (t : Target) : t.toJson.Plain := by
  refine .record ?_
  simp only [List.forall_mem_cons, Option.mem_def, Option.some.injEq, forall_eq']
  refine ⟨.str _, .str _, .bool _, .texts _, ?_, nofun⟩
  intro j hj
  split at hj
  · cases hj
  · exact Option.some.inj hj ▸ .texts _

theorem fields?_toJson (t : Target) :
    Json.fields? ["name", "kind", "enabled", "depends_on", "external_inputs"] t.toJson =
      some [some (t.name : Json), some (t.kind.name : Json), some (.bool t.enabled),
        some (.texts t.dependsOn.names),
        if t.inputs.isEmpty then none else some (.texts (t.inputs.map Path.text))] := by
  unfold toJson
  cases t.inputs.isEmpty <;> rfl

theorem exists_members_toJson (t : Target) :
    ∃ ms, t.toJson = .obj ms ∧ (some "external_inputs" ∈ ms.map Prod.fst ↔ t.inputs ≠ []) := by
  refine ⟨_, rfl, ?_⟩
  cases t.inputs <;> simp

theorem ofJson?_toJson (t : Target) : ofJson? t.toJson = some t := by
  have hinputs : (if t.inputs.isEmpty then none
      else some (Json.texts (t.inputs.map Path.text))).elim (some []) Json.texts? =
        some (t.inputs.map Path.text) := by
    cases t.inputs with
    | nil => rfl
    | cons p ps => exact Json.texts?_texts _
  simp only [ofJson?, fields?_toJson, Json.text?, Json.caseName?, Json.bool?, Json.texts?_texts,
    hinputs, TargetKind.ofName?_name, NameSet.ofList_names, Option.bind_eq_bind, Option.bind_some,
    List.map_map, Function.comp_def, List.map_id']
  rfl

theorem plain_listToJson (targets : List Target) : (listToJson targets).Plain := by
  refine .arr ?_
  intro j hj
  obtain ⟨t, -, rfl⟩ := List.mem_map.mp hj
  exact t.plain_toJson

theorem listOfJson?_listToJson (targets : List Target) :
    listOfJson? (listToJson targets) = some targets :=
  mapM_map_eq_some ofJson?_toJson targets

theorem readList?_of_read? {text : String} {targets : List Target}
    (h : Json.read? text = some (listToJson targets)) : readList? text = some targets := by
  rw [readList?, h]
  exact listOfJson?_listToJson targets

theorem readList?_compact (targets : List Target) :
    readList? (listToJson targets).compact = some targets :=
  readList?_of_read? (Json.read?_compact (plain_listToJson targets))

theorem readList?_pretty (targets : List Target) :
    readList? (listToJson targets).pretty = some targets :=
  readList?_of_read? (Json.read?_pretty (plain_listToJson targets))

/-- On a line of its own the text ends in a line break, which is a blank. -/
theorem readList?_unlines_pretty (targets : List Target) :
    readList? (Text.unlines [(listToJson targets).pretty]) = some targets := by
  apply readList?_of_read?
  have htext : Text.unlines [(listToJson targets).pretty] =
      String.ofList (Json.print .pretty 0 (listToJson targets) ++ ['\n']) := by
    simp [Text.unlines, Json.pretty, String.ofList_append]
  rw [htext]
  have hbreak : ∀ c ∈ ['\n'], Json.isSpace c = true := List.forall_mem_singleton.mpr rfl
  exact Json.read?_print_append Json.Layout.blank_pretty (plain_listToJson targets) hbreak

end Target

end CodecBuild
