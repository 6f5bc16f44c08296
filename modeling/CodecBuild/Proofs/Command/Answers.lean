import CodecBuild.Proofs.Command.Silence
import CodecBuild.Proofs.Plan.Members
import CodecBuild.Proofs.Settings.Layering

/-!
Answers to requests. To show a configuration, to plan it and to render it begin alike, with the
settings and the request; whatever can fail, fails there. A plan is always found, the steps are
always had for the backend that the configuration was resolved for, and a rehearsal comes to its
end. So the three commands refuse the same requests, and on the others they differ only in what
they print and in whose advisories they warn of.
-/

namespace CodecBuild.Command

open Traced

/-- All files that a request rests on can be read, and hold what they should. -/
structure FilesRead (h : Host) (settings? : Option String) (r : Request) : Prop where
  asked : ∀ path, settings? = some path →
    ∃ text s, h.readText path = .ok text ∧ h.formats.settings text = .ok s
  /-- Settings in the usual places may be absent, but not broken. -/
  usual : settings? = none → ∃ places, h.settingsFiles = .ok places ∧
    ∀ place ∈ places, place.2 ≠ .absent →
      ∃ text s, place.2 = .text text ∧ h.formats.settings text = .ok s
  document : ∀ path, r.document = some path →
    ∃ text d, h.readText path = .ok text ∧ Document.read? text = some d

/-- The events as the log shows them. -/
def eventLines (v : View) (events : List Event) : String := String.join (events.map (Event.shown · v))

theorem join_shown_outputs (v : View) (output : List Output) :
    String.join ((output.map .output).map (Emission.shown v)) = "" := by
  induction output with
  | nil => rfl
  | cons o output ih => simpa [Emission.shown] using ih

namespace Invocation

/-- The invocation comes to a failure. By then it has told some events and emitted nothing else, so
nothing is printed. -/
structure Fails (i : Invocation) (h : Host) (told : List Event) (e : Failure) : Prop where
  trace : i.traced h = ⟨told.map .event, .error e⟩
  response : i.run h =
    ⟨1, [], eventLines (i.view h) told ++ e.report (!i.noColor && h.colored)⟩

/-- The invocation comes to its end. Behind all that it tells it prints what is given, and then warns
of each of the advisories, in their order. -/
structure Warns (i : Invocation) (h : Host) (output : List Output) (told : List Event)
    (advisories : List Advisory) : Prop where
  trace : i.traced h = ⟨told.map .event ++ (output.map .output ++ advisories.map .warning),
    .ok (.ofAdvisories advisories)⟩
  exit : (i.run h).exit = if advisories = [] then 0 else 2
  output : (i.run h).output = output
  messages : (i.run h).messages = eventLines (i.view h) told ++
    String.join (advisories.map fun a => a.diagnostic.format (!i.noColor && h.colored))
  warnings : ∀ a ∈ advisories, a.diagnostic.severity = .warning

variable {i : Invocation} {h : Host} {s : Settings} {told : List Event} {e : Failure}

theorem traced_of_settings (hs : h.settings i.settings = .ok s) :
    i.traced h = (⟨s, h⟩ : Session).run i.task := by
  rw [traced, hs]
  rfl

theorem fails_of_traced (htrace : i.traced h = ⟨told.map .event, .error e⟩) : i.Fails h told e := by
  refine ⟨htrace, ?_⟩
  rw [run, htrace, respond]
  simp [exitCode, eventLines, Emission.output?, Emission.shown, Function.comp_def, view]

theorem fails_of_settings {e : SettingsError} (hs : h.settings i.settings = .error e) :
    i.Fails h [] (.settings e) := by
  apply fails_of_traced
  rw [traced, hs]
  rfl

theorem fails_of_task (hs : h.settings i.settings = .ok s)
    (htask : (⟨s, h⟩ : Session).run i.task = ⟨told.map .event, .error e⟩) : i.Fails h told e :=
  fails_of_traced ((traced_of_settings hs).trans htask)

theorem warns_of_task {output : List Output} {advisories : List Advisory}
    (hs : h.settings i.settings = .ok s)
    (htask : ((⟨s, h⟩ : Session).run i.task).Concludes output advisories) :
    ∃ told, i.Warns h output told advisories := by
  obtain ⟨told, htask⟩ := htask
  have htrace := (traced_of_settings hs).trans htask
  refine ⟨told, htrace, ?_, ?_, ?_, fun a _ => rfl⟩
  · rw [run, htrace, respond]
    cases advisories <;> rfl
  · rw [run, htrace, respond]
    simp [Emission.output?, List.filterMap_map, Function.comp_def]
  · rw [run, htrace, respond, List.map_append, List.map_append, String.join_append,
      String.join_append, join_shown_outputs]
    simp [eventLines, Emission.shown, Function.comp_def, view]

end Invocation

namespace Session

variable {s : Session} {r : Request} {resolution : Resolution} {plan : Plan}

/-! ### The common beginning -/

theorem run_of_refused {task : Task} {e : Failure} (htask : task.request? = some r)
    (hr : (s.resolve r).result = .error e) : s.run task = ⟨(s.resolve r).emitted, .error e⟩ := by
  cases task with
  | resolve r' _ | plan r' _ _ | render r' _ _ _ =>
      cases htask
      exact bind_of_error hr _
  | flags _ | matrix _ _ | completions _ => cases htask

theorem exists_document {path : String} (hr : (s.resolve r).result = .ok resolution)
    (hpath : r.document = some path) :
    ∃ text d, s.host.readText path = .ok text ∧ Document.read? text = some d := by
  rw [resolve, hpath] at hr
  obtain ⟨o, -, hr⟩ := exists_of_result_bind hr
  obtain ⟨text, htext, hr⟩ := exists_of_result_bind hr
  obtain ⟨d, hd, -⟩ := exists_of_result_bind hr
  exact ⟨text, d, result_lift_eq_ok htext, result_need_eq_ok hd⟩

theorem filesRead {h : Host} {settings : Settings} {settings? : Option String}
    (hs : h.settings settings? = .ok settings)
    (hr : ((⟨settings, h⟩ : Session).resolve r).result = .ok resolution) :
    FilesRead h settings? r where
  asked path hpath := by
    rw [hpath] at hs
    obtain ⟨text, htext, hread⟩ := Settings.exists_of_ofFile hs
    exact ⟨text, settings, htext, hread⟩
  usual hnone := by
    rw [hnone, Host.settings] at hs
    cases hplaces : h.settingsFiles with
    | error cause => rw [hplaces] at hs; cases hs
    | ok places =>
        rw [hplaces] at hs
        refine ⟨places, rfl, fun place hplace hthere => ?_⟩
        obtain ⟨upper, hupper⟩ := Settings.holds_of_ofLayers hs place hplace
        obtain ⟨path, file⟩ := place
        cases hupper with
        | absent => exact absurd rfl hthere
        | text hread => exact ⟨_, upper, rfl, hread⟩
  document _ hpath := exists_document hr hpath

/-! ### What cannot fail any more -/

theorem result_plan {c : Configuration} {d : Doxygen} (hplan : c.plan (s.hasDoxygen d) = .ok plan) :
    (s.plan c d).result = .ok plan := by
  rw [Session.plan, hplan]
  rfl

theorem result_render (s : Session) (c : Configuration) (p : Plan) (choices : RenderChoices) :
    (s.render c p choices).result = .ok (c.steps p.targets (s.renderOptions c choices)) := by
  rw [render, Configuration.render_backend]
  rfl

theorem result_rehearse (steps : List Step) : (rehearse steps).result = .ok () := by
  have hdry : ∀ seen step, (dryRun seen step).1.success = true := fun _ _ => rfl
  obtain ⟨outcomes, seen, hrun⟩ := exists_runFrom_ok hdry steps [] []
  rw [rehearse, runSteps, hrun]
  rfl

/-! ### The three endings -/

theorem runResolve_concludes (hr : (s.resolve r).result = .ok resolution) (format : Format) :
    (s.runResolve r format).Concludes
      [printed format (Report.configuration resolution.config) resolution.config.toJson]
      resolution.advisories :=
  (s.silent_resolve r).ends_bind hr ⟨[], rfl⟩

theorem runPlan_concludes {d : Doxygen} (hr : (s.resolve r).result = .ok resolution)
    (hplan : resolution.config.plan (s.hasDoxygen d) = .ok plan) (format : Format) :
    (s.runPlan r d format).Concludes
      [printed format (Report.plan plan) (Target.listToJson plan.targets)]
      (resolution.advisories ++ plan.advisories) :=
  (s.silent_resolve r).ends_bind hr ((s.silent_plan _ d).ends_bind (result_plan hplan) ⟨[], rfl⟩)

/-- A rehearsal is told and not printed. -/
theorem runRender_concludes {d : Doxygen} (hr : (s.resolve r).result = .ok resolution)
    (hplan : resolution.config.plan (s.hasDoxygen d) = .ok plan) (choices : RenderChoices)
    (format : Format) :
    let steps := resolution.config.steps plan.targets (s.renderOptions resolution.config choices)
    (s.runRender r d choices format).Concludes
      (if choices.dryRun then []
        else [printed format (Report.steps steps) (.arr (steps.map Step.toJson))])
      (resolution.advisories ++ plan.advisories) := by
  intro steps
  refine (s.silent_resolve r).ends_bind hr ((s.silent_plan _ d).ends_bind (result_plan hplan)
    ((s.silent_render _ _ choices).ends_bind (s.result_render _ plan choices) ?_))
  split
  · exact (silent_rehearse steps).ends_bind (result_rehearse steps) ⟨[], rfl⟩
  · exact ⟨[], rfl⟩

end Session

/-- The three commands accept the same requests, whatever else stands on their lines: either one
failure ends all of them before any of them prints anything; or the files are in order, there are a
resolution and a plan, and every command prints what it has got to, the configuration, the plan or the
steps, and warns of the advisories that came with it. -/
theorem requests_answered_alike (h : Host) (settings? : Option String) (r : Request)
    (d : Doxygen) :
    (∃ told e, ∀ verbose noColor format choices,
      Invocation.Fails ⟨verbose, noColor, settings?, .resolve r format⟩ h told e ∧
        Invocation.Fails ⟨verbose, noColor, settings?, .plan r d format⟩ h told e ∧
        Invocation.Fails ⟨verbose, noColor, settings?, .render r d choices format⟩ h told e) ∨
    (FilesRead h settings? r ∧ ∃ (s : Session) (resolution : Resolution) (plan : Plan),
      h.settings settings? = .ok s.settings ∧ s.host = h ∧
        (s.resolve r).result = .ok resolution ∧
        resolution.config.plan (s.hasDoxygen d) = .ok plan ∧
        ∀ verbose noColor format choices,
          let c := resolution.config
          let steps := c.steps plan.targets (s.renderOptions c choices)
          (∃ told, Invocation.Warns ⟨verbose, noColor, settings?, .resolve r format⟩ h
              [printed format (Report.configuration c) c.toJson] told resolution.advisories) ∧
            (∃ told, Invocation.Warns ⟨verbose, noColor, settings?, .plan r d format⟩ h
              [printed format (Report.plan plan) (Target.listToJson plan.targets)] told
              (resolution.advisories ++ plan.advisories)) ∧
            ∃ told, Invocation.Warns ⟨verbose, noColor, settings?, .render r d choices format⟩ h
              (if choices.dryRun then []
                else [printed format (Report.steps steps) (.arr (steps.map Step.toJson))]) told
              (resolution.advisories ++ plan.advisories)) := by
  cases hs : h.settings settings? with
  | error e =>
      left
      refine ⟨[], .settings e, fun verbose noColor format choices => ⟨?_, ?_, ?_⟩⟩
      all_goals exact Invocation.fails_of_settings hs
  | ok settings =>
      let s : Session := ⟨settings, h⟩
      cases hr : (s.resolve r).result with
      | error e =>
          left
          obtain ⟨told, htold⟩ := s.silent_resolve r
          have hrefused {task : Task} (htask : task.request? = some r) :
              s.run task = ⟨told.map .event, .error e⟩ :=
            htold ▸ Session.run_of_refused htask hr
          refine ⟨told, e, fun verbose noColor format choices => ⟨?_, ?_, ?_⟩⟩
          all_goals exact Invocation.fails_of_task hs (hrefused rfl)
      | ok resolution =>
          right
          obtain ⟨plan, hplan, -⟩ := resolution.config.exists_plan (s.hasDoxygen d)
          refine ⟨Session.filesRead hs hr, s, resolution, plan, rfl, rfl, hr, hplan,
            fun verbose noColor format choices => ⟨?_, ?_, ?_⟩⟩
          · exact Invocation.warns_of_task hs (Session.runResolve_concludes hr format)
          · exact Invocation.warns_of_task hs (Session.runPlan_concludes hr hplan format)
          · exact Invocation.warns_of_task hs (Session.runRender_concludes hr hplan choices format)

/-- The documentation is skipped by a plan and by its steps; nothing is wrong with the configuration. -/
example :
    let r : Request := ⟨some .unix, some .cmake, ["BUILD_DOC=yes"], none⟩
    let exit (task : Task) := (Invocation.run ⟨false, false, none, task⟩ .bare).exit
    exit (.resolve r .text) = 0 ∧ exit (.plan r .probed .json) = 2 ∧
      exit (.render r .probed ⟨none, none, none, ⟨"."⟩, true⟩ .text) = 2 ∧
      exit (.resolve { r with assignments := ["BUILD_DOC=maybe"] } .text) = 1 := by
  decide

end CodecBuild.Command
