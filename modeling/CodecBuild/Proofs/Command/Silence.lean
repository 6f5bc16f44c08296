import CodecBuild.Command.Run

/-!
Commands are silent until nothing can fail any more. Up to there they tell the log what they do, and
emit nothing else; what they print, and the warnings behind it, comes after the last call that can
fail. So a command that fails has printed nothing.
-/

namespace CodecBuild.Command

namespace Traced

variable {α β : Type}

/-- Prints nothing and warns of nothing, however the computation ends. -/
def Silent (t : Traced α) : Prop := ∃ told : List Event, t.emitted = told.map .event

/-- Nothing that can fail comes behind what is printed. -/
def PrintsLast (t : Traced α) : Prop := ∀ e, t.result = .error e → t.Silent

/-- Tells some events, emits the rest, and ends so. -/
def Ends (t : Traced α) (rest : List Emission) (result : Except Failure α) : Prop :=
  ∃ told : List Event, t = ⟨told.map .event ++ rest, result⟩

/-- Tells some events, prints the output, and warns of the advisories in the end. -/
def Concludes (t : Traced Outcome) (output : List Output) (advisories : List Advisory) : Prop :=
  t.Ends (output.map .output ++ advisories.map .warning) (.ok (.ofAdvisories advisories))

theorem silent_pure (x : α) : (pure x : Traced α).Silent := ⟨[], rfl⟩

theorem silent_tell (events : List Event) : (tell events).Silent := ⟨events, rfl⟩

theorem silent_fail (e : Failure) : (fail e : Traced α).Silent := ⟨[], rfl⟩

theorem silent_lift {ε : Type} (failure : ε → Failure) (x : Except ε α) : (lift failure x).Silent :=
  ⟨[], rfl⟩

theorem silent_need (missing : Failure) (o : Option α) : (need missing o).Silent := by
  cases o with
  | none => exact silent_fail missing
  | some x => exact silent_pure x

/-- What comes behind a computation that fails does not matter. -/
theorem Silent.bind_of_result {t : Traced α} {f : α → Traced β} (ht : t.Silent)
    (hf : ∀ x, t.result = .ok x → (f x).Silent) : (t >>= f).Silent := by
  obtain ⟨told, htold⟩ := ht
  cases hx : t.result with
  | error e => exact ⟨told, by rw [bind_of_error hx, htold]⟩
  | ok x =>
      obtain ⟨told', htold'⟩ := hf x hx
      exact ⟨told ++ told', by rw [bind_of_ok hx, htold, htold', List.map_append]⟩

theorem Silent.bind {t : Traced α} {f : α → Traced β} (ht : t.Silent) (hf : ∀ x, (f x).Silent) :
    (t >>= f).Silent :=
  ht.bind_of_result fun x _ => hf x

theorem Silent.bind_printsLast {t : Traced α} {f : α → Traced β} (ht : t.Silent)
    (hf : ∀ x, (f x).PrintsLast) : (t >>= f).PrintsLast := by
  intro e he
  refine ht.bind_of_result fun x hx => hf x e ?_
  rwa [result_bind_ok hx] at he

theorem printsLast_of_ok {t : Traced α} {x : α} (h : t.result = .ok x) : t.PrintsLast := by
  intro e he
  rw [h] at he
  cases he

theorem Silent.ends_bind {t : Traced α} {f : α → Traced β} {x : α} {rest : List Emission}
    {result : Except Failure β} (ht : t.Silent) (hx : t.result = .ok x)
    (hf : (f x).Ends rest result) : (t >>= f).Ends rest result := by
  obtain ⟨told, htold⟩ := ht
  obtain ⟨told', hfx⟩ := hf
  exact ⟨told ++ told', by rw [bind_of_ok hx, htold, hfx, List.map_append, List.append_assoc]⟩

end Traced

open Traced

theorem silent_resolveTraced (p : Platform) (b : Backend) (o : Overrides) :
    (resolveTraced p b o).Silent :=
  (silent_tell _).bind fun _ => (silent_lift _ _).bind fun _ => (silent_tell _).bind fun _ =>
    silent_pure _

namespace Session

variable (s : Session) (r : Request)

theorem silent_resolveOptions (o : Overrides) : (s.resolveOptions r o).Silent :=
  (silent_lift _ _).bind fun _ => (silent_need _ _).bind fun _ => (silent_lift _ _).bind fun _ =>
    (silent_need _ _).bind fun _ => (silent_tell _).bind fun _ => silent_resolveTraced _ _ _

theorem silent_agree (requested : Option Backend) (saved : Backend) (path : String) :
    (agree requested saved path).Silent := by
  cases requested with
  | none => exact silent_pure ()
  | some b =>
      rw [agree]
      split
      · exact silent_pure ()
      · exact silent_fail _

theorem silent_resolveDocument (path : String) (o : Overrides) :
    (s.resolveDocument r path o).Silent :=
  (silent_lift _ _).bind fun _ => (silent_need _ _).bind fun _ => (silent_agree _ _ _).bind fun _ =>
    (silent_tell _).bind fun _ => silent_resolveTraced _ _ _

theorem silent_resolve : (s.resolve r).Silent := by
  refine (silent_lift _ _).bind fun o => ?_
  cases r.document with
  | none => exact s.silent_resolveOptions r o
  | some path => exact s.silent_resolveDocument r path o

theorem silent_plan (c : Configuration) (d : Doxygen) : (s.plan c d).Silent :=
  (silent_lift _ _).bind fun _ => (silent_tell _).bind fun _ => silent_pure _

theorem silent_render (c : Configuration) (p : Plan) (choices : RenderChoices) :
    (s.render c p choices).Silent :=
  (silent_lift _ _).bind fun _ => (silent_tell _).bind fun _ => silent_pure _

theorem silent_rehearse (steps : List Step) : (rehearse steps).Silent :=
  (silent_tell _).bind fun _ => (silent_lift _ _).bind fun _ => silent_tell _

/-- Whatever the command is, it has not printed anything when it fails, nor warned of anything. -/
theorem printsLast_run (task : Task) : (s.run task).PrintsLast := by
  cases task with
  | resolve r format =>
      exact (s.silent_resolve r).bind_printsLast fun _ => printsLast_of_ok rfl
  | plan r d format =>
      exact (s.silent_resolve r).bind_printsLast fun _ => (s.silent_plan _ d).bind_printsLast fun _ =>
        printsLast_of_ok rfl
  | render r d choices format =>
      refine (s.silent_resolve r).bind_printsLast fun _ => (s.silent_plan _ d).bind_printsLast fun _ =>
        (s.silent_render _ _ choices).bind_printsLast fun steps => ?_
      -- A rehearsal might fail as far as its type goes, so it has to be silent as well.
      split
      · exact (silent_rehearse steps).bind_printsLast fun _ => printsLast_of_ok rfl
      · exact printsLast_of_ok rfl
  | flags format => exact printsLast_of_ok rfl
  | matrix assignments format =>
      exact (silent_lift _ _).bind_printsLast fun _ => printsLast_of_ok rfl
  | completions shell => exact printsLast_of_ok rfl

end Session

namespace Invocation

variable {i : Invocation} {h : Host}

/-- Exit code 1 means that nothing was printed, whatever the command. -/
theorem output_of_failed (hexit : (i.run h).exit = 1) : (i.run h).output = [] := by
  obtain ⟨e, he⟩ : ∃ e, (i.traced h).result = .error e := by
    cases hresult : (i.traced h).result with
    | error e => exact ⟨e, rfl⟩
    | ok outcome =>
        rw [run, respond, hresult] at hexit
        cases outcome <;> cases hexit
  have hlast : (i.traced h).PrintsLast :=
    (silent_lift _ _).bind_printsLast fun settings => Session.printsLast_run ⟨settings, h⟩ i.task
  obtain ⟨told, htold⟩ := hlast e he
  rw [run, respond, htold]
  simp [Emission.output?, List.filterMap_map, Function.comp_def]

end Invocation
end CodecBuild.Command
