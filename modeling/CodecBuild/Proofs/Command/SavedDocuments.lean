import CodecBuild.Proofs.Command.Precedence
import CodecBuild.Proofs.Json.Members
import CodecBuild.Proofs.Resolution.Saving

/-!
Requests that start from a saved document. Of the document its platform, its backend and its
flags are taken, and of the settings nothing. So documents that agree in these three lead to the
same answer, whatever else they hold and wherever it stands; what a saved configuration says of
its prefix and its link mode is worked out anew.
-/

namespace CodecBuild

namespace Document

/-- The name that a member of a saved object holds. -/
def savedName? (field : String) (ms : List (Option String × Json)) : Option String :=
  (Json.member? ms field).bind Json.caseName?

/-- The raw value of a name in the flags of a saved object; without flags there is none. -/
def savedFlag? (ms : List (Option String × Json)) (n : String) : Option RawValue :=
  match Json.member? ms "flag_set" with
  | some (.obj fs) => last? (Json.given? rawValue? n) fs
  | _ => none

/-- The objects agree in what is taken from them. -/
structure SameContents (ms ms' : List (Option String × Json)) : Prop where
  platform : savedName? "platform" ms = savedName? "platform" ms'
  backend : savedName? "backend" ms = savedName? "backend" ms'
  flags : savedFlag? ms = savedFlag? ms'

variable {ms ms' : List (Option String × Json)} {d d' : Document}

theorem get?_overrides? {fs : List (Option String × Json)} {o : Overrides}
    (h : overrides? (.obj fs) = some o) (n : String) :
    o.get? n = last? (Json.given? rawValue? n) fs := by
  obtain ⟨es, hes, h⟩ := Option.bind_eq_some_iff.mp h
  obtain ⟨entries, hentries, h⟩ := Option.bind_eq_some_iff.mp h
  cases h
  rw [NameMap.get?_ofList, Json.last?_of_members? hes hentries]

/-- What the members of an object come to as a document. -/
structure Reads (ms : List (Option String × Json)) (d : Document) : Prop where
  platform : savedName? "platform" ms = some d.platform.name
  backend : savedName? "backend" ms = some d.backend.name
  flags : ∀ n, d.flags.get? n = savedFlag? ms n

theorem reads_of_ofJson? (h : ofJson? (.obj ms) = some d) : Reads ms d := by
  rw [ofJson?] at h
  split at h
  next p b flags hfields =>
    have hmembers := Json.fields?_obj hfields
    simp only [List.map_cons, List.map_nil, List.cons.injEq, and_true] at hmembers
    obtain ⟨hp, hb, hflags⟩ := hmembers
    obtain ⟨name, hname, h⟩ := Option.bind_eq_some_iff.mp h
    obtain ⟨platform, hplatform, h⟩ := Option.bind_eq_some_iff.mp h
    obtain ⟨name', hname', h⟩ := Option.bind_eq_some_iff.mp h
    obtain ⟨backend, hbackend, h⟩ := Option.bind_eq_some_iff.mp h
    obtain ⟨o, ho, h⟩ := Option.bind_eq_some_iff.mp h
    cases h
    refine ⟨?_, ?_, fun n => ?_⟩
    · rw [savedName?, ← hp, Option.bind_some, hname, Platform.name_of_ofName? hplatform]
    · rw [savedName?, ← hb, Option.bind_some, hname', Backend.name_of_ofName? hbackend]
    · rw [savedFlag?, ← hflags]
      cases flags with
      | none =>
          cases ho
          rfl
      | some j =>
          cases j with
          | obj fs => exact get?_overrides? ho n
          | null | bool _ | num _ | str _ | arr _ => cases ho
  next => cases h

theorem reads_of_read? {text : String} (htext : Json.read? text = some (.obj ms))
    (h : read? text = some d) : Reads ms d := by
  rw [read?, htext] at h
  exact reads_of_ofJson? h

/-- Nothing else of an object gets into the document. -/
theorem Reads.eq_of_sameContents (h : Reads ms d) (h' : Reads ms' d') (hsame : SameContents ms ms') :
    d = d' := by
  have hplatform : d.platform = d'.platform := by
    apply Platform.name_injective
    exact Option.some.inj (h.platform.symm.trans (hsame.platform.trans h'.platform))
  have hbackend : d.backend = d'.backend := by
    apply Backend.name_injective
    exact Option.some.inj (h.backend.symm.trans (hsame.backend.trans h'.backend))
  have hflags : d.flags = d'.flags := by
    apply NameMap.eq_of_get?_eq
    intro n
    rw [h.flags, h'.flags, hsame.flags]
  cases d
  cases d'
  simp_all

end Document

namespace Command

open Traced

/-- The failure, as it reads for a document at another path. -/
def Failure.relocated (path : String) : Failure → Failure
  | documentUnreadable _ cause => documentUnreadable path cause
  | documentMalformed _ cause => documentMalformed path cause
  | documentBackend requested saved _ => documentBackend requested saved path
  | e => e

/-- Computations that succeed alike, and where one fails with `e`, the other with `g e`. -/
theorem Traced.result_bind_mapError {α β : Type} {g : Failure → Failure} {t t' : Traced α}
    {f f' : α → Traced β} (ht : t'.result = t.result.mapError g)
    (hf : ∀ x, (f' x).result = (f x).result.mapError g) :
    (t' >>= f').result = (t >>= f).result.mapError g := by
  cases hx : t.result with
  | error e =>
      rw [hx] at ht
      rw [result_bind_error hx, result_bind_error ht]
      rfl
  | ok x =>
      rw [hx] at ht
      rw [result_bind_ok hx, result_bind_ok ht]
      exact hf x

namespace Session

variable {s s' : Session} {r r' : Request} {path path' text text' : String} {d : Document}

/-- A request that starts from a document sees the document and the assignments only. -/
theorem resolve_of_document (hpath : r.document = some path)
    (htext : s.host.readText path = .ok text) (hd : Document.read? text = some d) :
    s.resolve r =
      lift .override (Overrides.readAll r.assignments) >>= fun o =>
        agree r.backend d.backend path >>= fun _ =>
          tell [.rereading path] >>= fun _ =>
            resolveTraced d.platform d.backend (d.flags.merge o) := by
  rw [resolve, hpath]
  simp only [resolveDocument, htext, hd, lift_ok_bind, need_some_bind]

theorem relocated_of_document (hpath : r.document = some path) (hpath' : r'.document = some path')
    (htext : s.host.readText path = .ok text) (htext' : s'.host.readText path' = .ok text')
    (hd : Document.read? text = some d) (hd' : Document.read? text' = some d)
    (hbackend : r'.backend = r.backend) (hassignments : r'.assignments = r.assignments) :
    (s'.resolve r').result = (s.resolve r).result.mapError (Failure.relocated path') := by
  rw [resolve_of_document hpath htext hd, resolve_of_document hpath' htext' hd', hbackend,
    hassignments]
  refine result_bind_mapError ?_ fun o => result_bind_mapError ?_ fun _ =>
    result_bind_mapError rfl fun _ => ?_
  · cases Overrides.readAll r.assignments with
    | error e => rfl
    | ok o => rfl
  · cases r.backend with
    | none => rfl
    | some b =>
        rw [agree, agree]
        split
        next => rfl
        next => rfl
  · rw [resolveTraced]
    cases CodecBuild.resolve d.platform d.backend (d.flags.merge o) with
    | error v => rfl
    | ok resolution => rfl

theorem eq_of_agree {requested : Option Backend} {saved : Backend}
    (h : (agree requested saved path).result = .ok ()) : ∀ b, requested = some b → b = saved := by
  rintro b rfl
  rw [agree] at h
  split at h
  next heq => exact heq
  next => cases h

theorem exists_of_resolve_document {resolution : Resolution} (hpath : r.document = some path)
    (htext : s.host.readText path = .ok text) (hd : Document.read? text = some d)
    (h : (s.resolve r).result = .ok resolution) :
    ∃ o, Overrides.readAll r.assignments = .ok o ∧ (∀ b, r.backend = some b → b = d.backend) ∧
      CodecBuild.resolve d.platform d.backend (d.flags.merge o) = .ok resolution := by
  rw [resolve_of_document hpath htext hd] at h
  obtain ⟨o, ho, h⟩ := exists_of_result_bind h
  obtain ⟨_, hagree, h⟩ := exists_of_result_bind h
  obtain ⟨_, -, h⟩ := exists_of_result_bind h
  exact ⟨o, result_lift_eq_ok ho, eq_of_agree hagree, resolve_of_resolveTraced h⟩

open Document

/-- At the path lies the text of an object that is taken for a document. -/
def Saved (h : Host) (path : String) (ms : List (Option String × Json)) : Prop :=
  ∃ text d, h.readText path = .ok text ∧ Json.read? text = some (.obj ms) ∧
    Document.read? text = some d

/-- Saved objects with the same platform, backend and flags lead to the same answer, in whatever
session they are read; where they lie matters to what a failure is called only. A resolution has
the platform and the backend that are saved, the one asked for among them, and its flags from the
assignments, the saved flags and the defaults, in this order. -/
theorem saved_contents_decide {ms ms' : List (Option String × Json)}
    (hpath : r.document = some path) (hpath' : r'.document = some path')
    (hbackend : r'.backend = r.backend) (hassignments : r'.assignments = r.assignments)
    (hsaved : Saved s.host path ms) (hsaved' : Saved s'.host path' ms')
    (hsame : SameContents ms ms') :
    (path' = path → s'.resolve r' = s.resolve r) ∧
      (s'.resolve r').result = (s.resolve r).result.mapError (Failure.relocated path') ∧
      ∀ resolution, (s.resolve r).result = .ok resolution →
        savedName? "platform" ms = some resolution.config.platform.name ∧
        savedName? "backend" ms = some resolution.config.backend.name ∧
        (∀ b, r.backend = some b → b = resolution.config.backend) ∧
        resolution.config.flags.FilledFrom fun n =>
          (last? (Overrides.assigned? n) r.assignments).or (savedFlag? ms n) := by
  obtain ⟨text, d, htext, hjson, hd⟩ := hsaved
  obtain ⟨text', d', htext', hjson', hd'⟩ := hsaved'
  have hreads := reads_of_read? hjson hd
  have hdocument : d = d' := hreads.eq_of_sameContents (reads_of_read? hjson' hd') hsame
  subst hdocument
  refine ⟨?_, relocated_of_document hpath hpath' htext htext' hd hd' hbackend hassignments, ?_⟩
  · rintro rfl
    rw [resolve_of_document hpath htext hd, resolve_of_document hpath' htext' hd', hbackend,
      hassignments]
  · intro resolution h
    obtain ⟨o, ho, hagree, hr⟩ := exists_of_resolve_document hpath htext hd h
    have hconfig := config_realizes_of_resolve hr
    have hraw : (d.flags.merge o).get? = fun n =>
        (last? (Overrides.assigned? n) r.assignments).or (savedFlag? ms n) := by
      funext n
      rw [NameMap.get?_merge, Overrides.get?_readAll ho, hreads.flags]
    refine ⟨?_, ?_, ?_, hraw ▸ filledFrom_of_resolve hr⟩
    · rw [hconfig.platform]
      exact hreads.platform
    · rw [hconfig.backend]
      exact hreads.backend
    · rw [hconfig.backend]
      exact hagree

/-- Saved flags in which a name comes up twice, a link mode that does not go with them, and members
of no use; the settings would choose another platform. -/
theorem tampered_document_answered_alike :
    let ms : List (Option String × Json) := [(some "platform", "unix"), (some "backend", "cmake"),
      (some "flag_set", .obj [(some "BUILD_MJ2", .bool true)]), (some "link_mode", "static")]
    let ms' : List (Option String × Json) := [(some "?", .arr [.null, "\u0000"]),
      (some "flag_set", .obj [(some "BUILD_MJ2", "x"), (some "BUILD_MJ2", .bool true)]),
      (some "backend", .obj [(some "cmake", .null)]), (some "platform", "unix")]
    let text := (Json.obj ms).compact
    let text' := (Json.obj ms').pretty
    let h : Host := { Host.bare with
      readText := fun path => .ok (if path = "saved.json" then text else text') }
    let r : Request := ⟨none, some .cmake, ["BUILD_JP3D=on"], some "saved.json"⟩
    let r' : Request := { r with document := some "edited.json" }
    let s : Session := ⟨.empty, h⟩
    let s' : Session := ⟨{ Settings.empty with
      platform := some "macos"
      flags := .ofList [("BUILD_DOC", .bool true)] }, h⟩
    ∃ resolution, Saved h "saved.json" ms ∧ Saved h "edited.json" ms' ∧ SameContents ms ms' ∧
      (s.resolve r).result = .ok resolution ∧ (s'.resolve r').result = .ok resolution ∧
      savedName? "platform" ms = some resolution.config.platform.name ∧
      resolution.config.flags.get? .buildMJ2 = some (.bool true) ∧
      resolution.config.flags.get? .buildJP3D = some (.bool true) ∧
      resolution.config.flags.get? .buildSharedLibs = some (.bool true) := by
  intro ms ms' text text' h r r' s s'
  have hplain : (Json.obj ms).Plain := by
    refine .obj (by decide) ?_
    simp only [ms, List.forall_mem_cons]
    exact ⟨.str _, .str _, .obj (by decide) (by simp [Json.Plain.bool]), .str _, nofun⟩
  have hplain' : (Json.obj ms').Plain := by
    refine .obj (by decide) ?_
    simp only [ms', List.forall_mem_cons]
    exact ⟨.arr (by simp [Json.Plain.null, Json.Plain.str]),
      .obj (by decide) (by simp [Json.Plain.bool, Json.Plain.str]),
      .obj (by decide) (by simp [Json.Plain.null]), .str _, nofun⟩
  have hjson : Json.read? text = some (.obj ms) := Json.read?_compact hplain
  have hjson' : Json.read? text' = some (.obj ms') := Json.read?_pretty hplain'
  have hd : Document.read? text = some ⟨.unix, .cmake, .ofList [("BUILD_MJ2", .bool true)]⟩ := by
    rw [Document.read?, hjson]
    decide
  have hd' : Document.read? text' = some ⟨.unix, .cmake, .ofList [("BUILD_MJ2", .bool true)]⟩ := by
    rw [Document.read?, hjson']
    decide
  have hsame : SameContents ms ms' := by
    refine ⟨rfl, rfl, funext fun n => ?_⟩
    by_cases hn : n = "BUILD_MJ2"
    · subst hn
      rfl
    · have hother : some "BUILD_MJ2" ≠ some n := fun he => hn (Option.some.inj he).symm
      simp [savedFlag?, Json.member?, last?, Json.given?, ms, ms', hother]
  have hpath : r.document = some "saved.json" := rfl
  have hpath' : r'.document = some "edited.json" := rfl
  have hsaved : Saved h "saved.json" ms := ⟨text, _, rfl, hjson, hd⟩
  have hsaved' : Saved h "edited.json" ms' := ⟨text', _, rfl, hjson', hd'⟩
  obtain ⟨resolution, hr⟩ : ∃ resolution, (s.resolve r).result = .ok resolution := by
    rw [resolve_of_document hpath rfl hd]
    exact ⟨_, rfl⟩
  obtain ⟨-, halike, htaken⟩ :=
    @saved_contents_decide s s' r r' _ _ _ _ hpath hpath' rfl rfl hsaved hsaved' hsame
  obtain ⟨hplatform, -, -, hflags⟩ := htaken resolution hr
  obtain ⟨_, hmj2, hget⟩ := (hflags .buildMJ2).1 (.bool true) rfl
  obtain ⟨_, hjp3d, hget'⟩ := (hflags .buildJP3D).1 (.text "on") rfl
  cases hmj2
  cases hjp3d
  rw [hr] at halike
  exact ⟨resolution, hsaved, hsaved', hsame, hr, halike, hplatform, hget, hget',
    (hflags .buildSharedLibs).2 rfl⟩

end Session
end Command
end CodecBuild
