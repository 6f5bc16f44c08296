import CodecBuild.Command.Session
import CodecBuild.Proofs.List.Traversal
import CodecBuild.Proofs.Name.LastEntry
import CodecBuild.Proofs.Resolution.Editing
import CodecBuild.Proofs.Settings.Layering

/-!
What takes precedence over what. The line stands over the settings of the project, and these over
the settings of the user; on the line the last assignment to a name counts. The layers are laid
over each other before anything is checked, so a raw value matters only where it stands uppermost,
and one that is overridden need not even be acceptable.
-/

namespace CodecBuild

/-- Every flag holds what its raw value is coerced to, or its default where it is given none. -/
def Assignment.FilledFrom (a : Assignment) (raw? : String → Option RawValue) : Prop :=
  ∀ f : Flag,
    (∀ raw, raw? f.name = some raw → ∃ v, f.kind.coerce? raw = some v ∧ a.get? f = some v) ∧
      (raw? f.name = none → a.get? f = f.default?)

theorem filledFrom_of_resolve {p : Platform} {b : Backend} {o : Overrides} {r : Resolution}
    (h : resolve p b o = .ok r) : r.config.flags.FilledFrom o.get? := by
  have hr := config_realizes_of_resolve h
  exact fun f => ⟨hr.overridden f, hr.untouched f⟩

namespace Overrides

/-- What a text assigns to the name `n`. -/
def assigned? (n s : String) : Option RawValue :=
  match readAssignment s with
  | .ok (m, raw) => if m = n then some raw else none
  | .error _ => none

theorem assigned?_of_ok {s : String} {e : String × RawValue} (h : readAssignment s = .ok e)
    (n : String) : assigned? n s = NameMap.under n e := by
  rw [assigned?, h]
  rfl

theorem last?_assigned? {ss : List String} {es : List (String × RawValue)}
    (h : ss.mapM readAssignment = .ok es) (n : String) :
    last? (assigned? n) ss = last? (NameMap.under n) es :=
  last?_eq_of_forall₂ ((mapM_eq_ok_iff.mp h).imp fun _ _ hs => assigned?_of_ok hs n)

theorem get?_readAll {ss : List String} {o : Overrides} (h : readAll ss = .ok o) (n : String) :
    o.get? n = last? (assigned? n) ss := by
  obtain ⟨es, hes, rfl⟩ := map_eq_ok_iff.mp h
  rw [last?_assigned? hes, NameMap.get?_ofList]

/-- An assignment can be exchanged if a later one is to the same name, whether or not all of the
others can be read. -/
theorem readAll_replace {s s' n : String} {raw raw' : RawValue} {after : List String}
    (hs : readAssignment s = .ok (n, raw)) (hs' : readAssignment s' = .ok (n, raw'))
    (h : (last? (assigned? n) after).isSome = true) (before : List String) :
    readAll (before ++ s :: after) = readAll (before ++ s' :: after) := by
  simp only [readAll, List.mapM_append, List.mapM_cons, hs, hs']
  cases before.mapM readAssignment with
  | error e => rfl
  | ok bs =>
      cases has : after.mapM readAssignment with
      | error e => rfl
      | ok es =>
          rw [last?_assigned? has] at h
          exact congrArg Except.ok (NameMap.ofList_replace h bs raw raw')

end Overrides

namespace Command

open Traced

namespace Session

variable {s : Session} {r : Request} {o : Overrides} {resolution : Resolution}

theorem resolve_of_resolveTraced {p : Platform} {b : Backend}
    (h : (resolveTraced p b o).result = .ok resolution) :
    CodecBuild.resolve p b o = .ok resolution := by
  obtain ⟨_, -, h⟩ := exists_of_result_bind h
  obtain ⟨r, hr, h⟩ := exists_of_result_bind h
  obtain ⟨_, -, h⟩ := exists_of_result_bind h
  cases h
  exact result_lift_eq_ok hr

/-- What a request that is granted without a document has come to on its way. -/
theorem exists_of_resolve (hdocument : r.document = none)
    (h : (s.resolve r).result = .ok resolution) :
    ∃ o p b, Overrides.readAll r.assignments = .ok o ∧
      CodecBuild.resolve p b (s.settings.flags.merge o) = .ok resolution := by
  rw [resolve, hdocument] at h
  obtain ⟨o, ho, h⟩ := exists_of_result_bind h
  obtain ⟨_, -, h⟩ := exists_of_result_bind h
  obtain ⟨p, -, h⟩ := exists_of_result_bind h
  obtain ⟨_, -, h⟩ := exists_of_result_bind h
  obtain ⟨b, -, h⟩ := exists_of_result_bind h
  obtain ⟨_, -, h⟩ := exists_of_result_bind h
  exact ⟨o, p, b, result_lift_eq_ok ho, resolve_of_resolveTraced h⟩

theorem resolve_of_unreadable {e : OverrideError} (h : Overrides.readAll r.assignments = .error e)
    (s : Session) : s.resolve r = ⟨[], .error (.override e)⟩ := by
  rw [resolve, h]
  exact bind_of_error rfl _

/-- An answer depends on the usual platform and backend, on what the assignments come to, and on the
flags of the settings where the assignments leave them. -/
theorem resolve_congr {u u' : Settings} {r r' : Request} (h : Host)
    (hplatform : u'.platform = u.platform) (hbackend : u'.backend = u.backend)
    (hrequest : r' = { r with assignments := r'.assignments })
    (hread : Overrides.readAll r'.assignments = Overrides.readAll r.assignments)
    (hflags : ∀ o, Overrides.readAll r.assignments = .ok o → u'.flags.merge o = u.flags.merge o) :
    (⟨u', h⟩ : Session).resolve r' = (⟨u, h⟩ : Session).resolve r := by
  cases ho : Overrides.readAll r.assignments with
  | error e => rw [resolve_of_unreadable ho, resolve_of_unreadable (hread.trans ho)]
  | ok o =>
      rw [resolve, resolve, hread, ho, lift_ok_bind, lift_ok_bind, hrequest]
      cases r.document with
      -- A document leaves no room for settings.
      | some path => rfl
      | none =>
          simp only [resolveOptions, Settings.platform?, Settings.backend?, hplatform, hbackend,
            hflags o ho]

end Session

/-- A request with the settings that it is laid over. -/
structure Layers where
  user : Settings
  project : Settings
  request : Request

namespace Layers

def settings (l : Layers) : Settings := (Settings.empty.merge l.user).merge l.project

def answer (l : Layers) (h : Host) : Traced Resolution := (⟨l.settings, h⟩ : Session).resolve l.request

/-- The raw value of a name that stands uppermost. -/
def raw? (l : Layers) (n : String) : Option RawValue :=
  (last? (Overrides.assigned? n) l.request.assignments).or
    ((l.project.flags.get? n).or (l.user.flags.get? n))

/-- The settings lie in the usual places. There need not be a place for those of the user. -/
inductive Loaded (h : Host) (l : Layers) : Prop where
  | both {place place' : String × FileState} (places : h.settingsFiles = .ok [place, place'])
      (user : Settings.ofOptionalFile h.formats.settings place.1 place.2 = .ok l.user)
      (project : Settings.ofOptionalFile h.formats.settings place'.1 place'.2 = .ok l.project)
  | projectOnly {place : String × FileState} (places : h.settingsFiles = .ok [place])
      (user : l.user = .empty)
      (project : Settings.ofOptionalFile h.formats.settings place.1 place.2 = .ok l.project)

/-- One raw value is exchanged, below another that overrides it. -/
inductive Exchanges : Layers → Layers → Prop where
  | user (l : Layers) (n : String) (raw : RawValue)
      (overridden : (last? (Overrides.assigned? n) l.request.assignments).isSome = true ∨
        (l.project.flags.get? n).isSome = true) :
      Exchanges l { l with user := { l.user with flags := l.user.flags.insert n raw } }
  | project (l : Layers) (n : String) (raw : RawValue)
      (overridden : (last? (Overrides.assigned? n) l.request.assignments).isSome = true) :
      Exchanges l { l with project := { l.project with flags := l.project.flags.insert n raw } }
  | line (l : Layers) {before after : List String} {s s' n : String} {raw raw' : RawValue}
      (assignments : l.request.assignments = before ++ s :: after)
      (old : Overrides.readAssignment s = .ok (n, raw))
      (new : Overrides.readAssignment s' = .ok (n, raw'))
      (overridden : (last? (Overrides.assigned? n) after).isSome = true) :
      Exchanges l { l with request := { l.request with assignments := before ++ s' :: after } }

variable {l l' : Layers} {h : Host}

theorem Loaded.settings_eq (hl : l.Loaded h) : h.settings none = .ok l.settings := by
  cases hl with
  | both places user project =>
      have huser := Settings.ofOptionalFile_eq_ok_iff.mp user
      have hproject := Settings.ofOptionalFile_eq_ok_iff.mp project
      rw [Host.settings, places]
      exact Settings.ofLayers_eq_ok_iff.mpr ⟨_, .cons huser (.cons hproject .nil), rfl⟩
  | projectOnly places user project =>
      have hproject := Settings.ofOptionalFile_eq_ok_iff.mp project
      rw [Host.settings, places, settings, user]
      exact Settings.ofLayers_eq_ok_iff.mpr ⟨_, .cons hproject .nil, rfl⟩

theorem get?_merged {o : Overrides} (ho : Overrides.readAll l.request.assignments = .ok o)
    (n : String) : (l.settings.flags.merge o).get? n = l.raw? n := by
  have hflags : l.settings.flags.get? n = (l.project.flags.get? n).or (l.user.flags.get? n) := by
    simp only [settings, Settings.merge, Settings.empty, NameMap.get?_merge, NameMap.get?_empty,
      Option.or_none]
  rw [NameMap.get?_merge, hflags, Overrides.get?_readAll ho, raw?]

/-- Settings with other flags are as good if the same values stand uppermost. -/
theorem answer_eq_of_raw?_eq {u p : Overrides}
    (hraw : ∀ n, raw? { l with user.flags := u, project.flags := p } n = l.raw? n) (h : Host) :
    answer { l with user.flags := u, project.flags := p } h = l.answer h := by
  refine Session.resolve_congr h rfl rfl rfl rfl fun o ho => ?_
  apply NameMap.eq_of_get?_eq
  intro n
  exact (get?_merged (l := { l with user.flags := u, project.flags := p }) ho n).trans
    ((hraw n).trans (get?_merged ho n).symm)

theorem Exchanges.answer_eq (hx : l.Exchanges l') (h : Host) : l'.answer h = l.answer h := by
  cases hx with
  | user n raw overridden =>
      refine answer_eq_of_raw?_eq (fun k => ?_) h
      rw [raw?, raw?, ← Option.or_assoc, ← Option.or_assoc]
      -- The line and the project count as one layer here, so the project may be the one that overrides.
      refine NameMap.or_get?_insert (fun k => (last? (Overrides.assigned? k) l.request.assignments).or
        (l.project.flags.get? k)) ?_ l.user.flags raw k
      rwa [Option.isSome_or, Bool.or_eq_true]
  | project n raw overridden =>
      refine answer_eq_of_raw?_eq (fun k => ?_) h
      rw [raw?, raw?, ← Option.or_assoc, ← Option.or_assoc]
      exact congrArg (Option.or · _) (NameMap.or_get?_insert
        (fun k => last? (Overrides.assigned? k) l.request.assignments) overridden _ raw k)
  | line assignments old new overridden =>
      refine Session.resolve_congr h rfl rfl rfl ?_ fun _ _ => rfl
      rw [assignments]
      exact (Overrides.readAll_replace old new overridden _).symm

/-- Every flag gets its value from the uppermost layer that names it. What a higher layer
overrides can be exchanged, and neither a resolution nor a failure changes. -/
theorem uppermost_values_decide (l : Layers) (h : Host) :
    (l.Loaded h → h.settings none = .ok l.settings) ∧
      (∀ resolution, l.request.document = none → (l.answer h).result = .ok resolution →
        resolution.config.flags.FilledFrom l.raw?) ∧
      ∀ l', l.Exchanges l' → l'.answer h = l.answer h := by
  refine ⟨Loaded.settings_eq, ?_, fun l' hx => hx.answer_eq h⟩
  intro resolution hdocument hanswer
  obtain ⟨o, p, b, ho, hr⟩ := Session.exists_of_resolve hdocument hanswer
  have hmerged : (l.settings.flags.merge o).get? = l.raw? := funext (get?_merged ho)
  exact hmerged ▸ filledFrom_of_resolve hr

/-- A flag of the user's alone, one that the project takes over from a value no flag accepts, and one
that the line sets twice, first to nonsense. -/
theorem three_layers_decide :
    let l : Layers := {
      user := { Settings.empty with
        flags := .ofList [("BUILD_DOC", .bool true), ("BUILD_MJ2", .text "perhaps")] }
      project := { Settings.empty with
        flags := .ofList [("BUILD_MJ2", .text "on"), ("CMAKE_BUILD_TYPE", .bool true)] }
      request := ⟨some .unix, some .autotools,
        ["CMAKE_BUILD_TYPE=fast", "CMAKE_BUILD_TYPE:STRING=debug"], none⟩ }
    let h : Host := { Host.bare with
      settingsFiles := .ok [
        ("user.toml", .text "flags.BUILD_MJ2 = 'perhaps'\nflags.BUILD_DOC = true"),
        ("project.toml", .text "flags.BUILD_MJ2 = 'on'\nflags.CMAKE_BUILD_TYPE = true")] }
    let l' : Layers := { l with
      request.assignments := ["CMAKE_BUILD_TYPE=", "CMAKE_BUILD_TYPE:STRING=debug"] }
    ∃ resolution, l.Loaded h ∧ h.settings none = .ok l.settings ∧
      (l.answer h).result = .ok resolution ∧
      resolution.config.flags.get? .buildDoc = some (.bool true) ∧
      resolution.config.flags.get? .buildMJ2 = some (.bool true) ∧
      resolution.config.flags.get? .cmakeBuildType = some (.choice "Debug") ∧
      resolution.config.flags.get? .buildTesting = some (.bool false) ∧
      l.Exchanges l' ∧ l'.answer h = l.answer h := by
  intro l h l'
  have hloaded : l.Loaded h := .both rfl (by decide +kernel) (by decide +kernel)
  obtain ⟨resolution, hr⟩ : ∃ r, (l.answer h).result = .ok r := ⟨_, rfl⟩
  have hx : l.Exchanges l' := @Exchanges.line l [] ["CMAKE_BUILD_TYPE:STRING=debug"]
    "CMAKE_BUILD_TYPE=fast" "CMAKE_BUILD_TYPE=" "CMAKE_BUILD_TYPE" _ _ rfl rfl rfl rfl
  obtain ⟨hsettings, hfilled, hexchange⟩ := uppermost_values_decide l h
  have hflags := hfilled resolution rfl hr
  have hset : ∀ (f : Flag) (raw : RawValue) (v : FlagValue), l.raw? f.name = some raw →
      f.kind.coerce? raw = some v → resolution.config.flags.get? f = some v := by
    intro f raw v hraw hv
    obtain ⟨w, hw, hget⟩ := (hflags f).1 raw hraw
    exact hget.trans (hw.symm.trans hv)
  exact ⟨resolution, hloaded, hsettings hloaded, hr,
    hset .buildDoc (.bool true) _ (by decide) (by decide),
    hset .buildMJ2 (.text "on") _ (by decide) (by decide),
    hset .cmakeBuildType (.text "debug") _ (by decide) (by decide),
    (hflags .buildTesting).2 (by decide), hx, hexchange l' hx⟩

end Layers
end Command

end CodecBuild
