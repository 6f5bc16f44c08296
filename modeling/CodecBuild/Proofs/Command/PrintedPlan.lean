import CodecBuild.Proofs.Command.Answers
import CodecBuild.Proofs.Plan.WellFormed
import CodecBuild.Proofs.Target.Listing

/-!
Printed plans. A plan that is printed as a document can be read back and ordered again: it is read
as it was, and since no two of its targets have one name, its order is that in which it stands.
-/

namespace CodecBuild

theorem Configuration.order_plan {c : Configuration} {doxygen : Bool} {plan : Plan}
    (h : c.plan doxygen = .ok plan) : order plan.targets = .ok plan.targets :=
  Order.order_of_perm_eq_ok (c.nodup_names doxygen) (order_of_plan h).1 (plan_perm h)

namespace Command

open Traced

variable {i : Invocation} {h : Host} {u : Settings} {r : Request} {d : Doxygen}
  {resolution : Resolution} {plan : Plan}

theorem Invocation.output_of_plan (htask : i.task = .plan r d .json)
    (hs : h.settings i.settings = .ok u)
    (hr : ((⟨u, h⟩ : Session).resolve r).result = .ok resolution)
    (hplan : resolution.config.plan ((⟨u, h⟩ : Session).hasDoxygen d) = .ok plan) :
    (i.run h).output = [.text (Text.unlines [(Target.listToJson plan.targets).pretty])] := by
  have hrun := Session.runPlan_concludes hr hplan .json
  rw [← Session.run, ← htask] at hrun
  obtain ⟨_, hwarns⟩ := warns_of_task hs hrun
  exact hwarns.output

/-- Any list of targets is read back as it was written, on one line or on many; of a target without
inputs nothing is written about inputs. What a command prints as the document of a plan is read
back as the targets of the plan, and these stand in their order. -/
theorem written_targets_read_back :
    (∀ t : Target, ∃ ms, t.toJson = .obj ms ∧
      (some "external_inputs" ∈ ms.map Prod.fst ↔ t.inputs ≠ [])) ∧
    (∀ targets : List Target,
      Target.readList? (Target.listToJson targets).compact = some targets ∧
        Target.readList? (Target.listToJson targets).pretty = some targets) ∧
    ∀ (i : Invocation) (h : Host) (u : Settings) (r : Request) (d : Doxygen)
      (resolution : Resolution), i.task = .plan r d .json → h.settings i.settings = .ok u →
      ((⟨u, h⟩ : Session).resolve r).result = .ok resolution →
      ∃ plan text, resolution.config.plan ((⟨u, h⟩ : Session).hasDoxygen d) = .ok plan ∧
        (i.run h).output = [.text text] ∧ Target.readList? text = some plan.targets ∧
        order plan.targets = .ok plan.targets := by
  refine ⟨Target.exists_members_toJson, ?_, ?_⟩
  · intro targets
    exact ⟨Target.readList?_compact targets, Target.readList?_pretty targets⟩
  · intro i h u r d resolution htask hs hr
    obtain ⟨plan, hplan, -⟩ := resolution.config.exists_plan ((⟨u, h⟩ : Session).hasDoxygen d)
    exact ⟨plan, _, hplan, Invocation.output_of_plan htask hs hr hplan,
      Target.readList?_unlines_pretty plan.targets, Configuration.order_plan hplan⟩

/-- Names and inputs with quotes, line breaks and letters beyond ASCII; and a plan with the tests,
whose data lie in a directory with a quote in its name. -/
theorem quoted_inputs_read_back :
    let targets : List Target := [
      ⟨"\"a\\\n\u00e9", .test, false, .ofList ["\u4e2d", "", "b"], [⟨"//x/."⟩, ⟨"\t\x01"⟩]⟩,
      .library "\"a\\\n\u00e9"]
    let r : Request := ⟨some .unix, some .cmake,
      ["BUILD_TESTING=on", "JPEG2000_CONFORMANCE_DATA_ROOT=/srv/\"data\""], none⟩
    let i : Invocation := ⟨false, false, none, .plan r .missing .json⟩
    Target.readList? (Target.listToJson targets).compact = some targets ∧
      ∃ (plan : Plan) (text : String), (i.run .bare).output = [.text text] ∧
        Target.readList? text = some plan.targets ∧ order plan.targets = .ok plan.targets ∧
        ∃ t ∈ plan.targets, t.inputs = [⟨"/srv/\"data\""⟩] := by
  intro targets r i
  obtain ⟨-, hlists, hplans⟩ := written_targets_read_back
  obtain ⟨resolution, hr⟩ : ∃ resolution,
      ((⟨.empty, .bare⟩ : Session).resolve r).result = .ok resolution := ⟨_, rfl⟩
  obtain ⟨plan, text, hplan, hout, hread, horder⟩ :=
    hplans i .bare .empty r .missing resolution rfl rfl hr
  have htested : ∃ t ∈ resolution.config.targets false, t.inputs = [⟨"/srv/\"data\""⟩] := by
    cases hr
    decide
  obtain ⟨t, ht, hinputs⟩ := htested
  exact ⟨(hlists targets).1, plan, text, hout, hread, horder, t,
    (Configuration.plan_perm hplan).mem_iff.mpr ht, hinputs⟩

end Command
end CodecBuild
