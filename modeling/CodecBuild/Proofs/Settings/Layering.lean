import CodecBuild.Host
import CodecBuild.Proofs.List.Traversal
import CodecBuild.Proofs.Name.LastEntry

/-!
Layers of settings. In each field, and for each flag, the last layer counts that says something about
it; so it does not matter in which groups layers are put together, and an empty layer changes nothing.
Files are read before they are laid over each other: the first that is there but cannot be read decides
that there are no settings, and nothing in the others makes up for it.
-/

namespace CodecBuild
namespace Settings

/-- The layers over each other, the last one uppermost. -/
def overlaid (layers : List Settings) : Settings := layers.foldl merge .empty

/-- Each field says what the last of the layers says in it that says anything. -/
structure DecidedBy (s : Settings) (layers : List Settings) : Prop where
  platform : s.platform = last? Settings.platform layers
  backend : s.backend = last? Settings.backend layers
  flags : ∀ n, s.flags.get? n = last? (fun l => l.flags.get? n) layers
  jobs : s.jobs = last? Settings.jobs layers
  generator : s.generator = last? Settings.generator layers
  wrapper : s.wrapper = last? Settings.wrapper layers

namespace DecidedBy

variable {s t : Settings} {layers upper : List Settings}

theorem empty : Settings.empty.DecidedBy [] := ⟨rfl, rfl, fun _ => rfl, rfl, rfl, rfl⟩

theorem single (s : Settings) : s.DecidedBy [s] := by
  constructor <;> simp [last?]

theorem merge (hs : s.DecidedBy layers) (ht : t.DecidedBy upper) :
    (s.merge t).DecidedBy (layers ++ upper) where
  platform := by rw [last?_append, ← hs.platform, ← ht.platform, Settings.merge]
  backend := by rw [last?_append, ← hs.backend, ← ht.backend, Settings.merge]
  flags n := by rw [last?_append, ← hs.flags, ← ht.flags, Settings.merge, NameMap.get?_merge]
  jobs := by rw [last?_append, ← hs.jobs, ← ht.jobs, Settings.merge]
  generator := by rw [last?_append, ← hs.generator, ← ht.generator, Settings.merge]
  wrapper := by rw [last?_append, ← hs.wrapper, ← ht.wrapper, Settings.merge]

theorem foldl (hs : s.DecidedBy layers) (upper : List Settings) :
    (upper.foldl Settings.merge s).DecidedBy (layers ++ upper) := by
  induction upper generalizing s layers with
  | nil => simpa using hs
  | cons l upper ih => simpa using ih (hs.merge (single l))

/-- What each field says is all there is to settings. -/
theorem unique (hs : s.DecidedBy layers) (ht : t.DecidedBy layers) : s = t := by
  cases s
  cases t
  rw [Settings.mk.injEq]
  exact ⟨hs.platform.trans ht.platform.symm, hs.backend.trans ht.backend.symm,
    NameMap.eq_of_get?_eq fun n => (hs.flags n).trans (ht.flags n).symm,
    hs.jobs.trans ht.jobs.symm, hs.generator.trans ht.generator.symm,
    hs.wrapper.trans ht.wrapper.symm⟩

end DecidedBy

theorem overlaid_decidedBy (layers : List Settings) : (overlaid layers).DecidedBy layers :=
  DecidedBy.empty.foldl layers

theorem overlaid_pair (lower upper : Settings) : overlaid [lower, upper] = lower.merge upper :=
  (overlaid_decidedBy [lower, upper]).unique ((DecidedBy.single lower).merge (.single upper))

theorem merge_assoc (a b c : Settings) : (a.merge b).merge c = a.merge (b.merge c) :=
  (((DecidedBy.single a).merge (.single b)).merge (.single c)).unique
    ((DecidedBy.single a).merge ((DecidedBy.single b).merge (.single c)))

theorem empty_merge (s : Settings) : empty.merge s = s :=
  (DecidedBy.empty.merge (.single s)).unique (.single s)

theorem merge_empty (s : Settings) : s.merge empty = s :=
  ((DecidedBy.single s).merge .empty).unique (.single s)

/-! ### Files -/

section

variable (read : String → Except Cause Settings)

/-- The settings in a file; a file that is absent holds empty ones. -/
inductive Holds : FileState → Settings → Prop
  | absent : Holds .absent .empty
  | text {text : String} {s : Settings} (reads : read text = .ok s) : Holds (.text text) s

/-- What is wrong with the file at a place: there is something, but no text, or a text of no settings. -/
inductive Fault : String × FileState → SettingsError → Prop
  | unreadable (path : String) (cause : Cause) :
      Fault (path, .unreadable cause) (.unreadable path cause)
  | malformed (path : String) {text : String} {cause : Cause} (unread : read text = .error cause) :
      Fault (path, .text text) (.malformed path cause)

end

variable {read : String → Except Cause Settings}

theorem ofOptionalFile_eq_ok_iff {path : String} {file : FileState} {s : Settings} :
    ofOptionalFile read path file = .ok s ↔ Holds read file s := by
  constructor
  · intro h
    cases file with
    | absent => cases h; exact .absent
    | unreadable cause => cases h
    | text t => exact .text (ofFile_ok_eq_ok_iff.mp h)
  · rintro (_ | hread)
    · rfl
    · exact ofFile_ok_eq_ok_iff.mpr hread

theorem ofOptionalFile_eq_error_iff {place : String × FileState} {e : SettingsError} :
    ofOptionalFile read place.1 place.2 = .error e ↔ Fault read place e := by
  constructor
  · intro h
    obtain ⟨path, file⟩ := place
    cases file with
    | absent => cases h
    | unreadable cause => cases h; exact .unreadable path cause
    | text t =>
        rw [ofOptionalFile, ofFile] at h
        cases hread : read t with
        | ok s => rw [hread] at h; cases h
        | error cause => rw [hread] at h; cases h; exact .malformed path hread
  · rintro (⟨path, cause⟩ | ⟨path, hread⟩)
    · rfl
    · rw [ofOptionalFile, ofFile, hread]
      rfl

/-- The files may as well be read first and laid over each other then. -/
theorem ofLayers_eq_map (places : List (String × FileState)) :
    ofLayers read places =
      (places.mapM fun place => ofOptionalFile read place.1 place.2).map overlaid := by
  suffices h : ∀ lower, places.foldlM
      (fun lower layer => (ofOptionalFile read layer.1 layer.2).map lower.merge) lower =
        (places.mapM fun place => ofOptionalFile read place.1 place.2).map (List.foldl merge lower) from
    h .empty
  induction places with
  | nil => exact fun _ => rfl
  | cons place places ih =>
      intro lower
      rw [List.foldlM_cons, List.mapM_cons]
      cases ofOptionalFile read place.1 place.2 with
      | error e => rfl
      | ok l =>
          refine (ih (lower.merge l)).trans ?_
          cases places.mapM fun place => ofOptionalFile read place.1 place.2 <;> rfl

theorem Holds.not_fault {place : String × FileState} {s : Settings} {e : SettingsError}
    (h : Holds read place.2 s) : ¬Fault read place e := by
  intro hfault
  have herror := ofOptionalFile_eq_error_iff.mpr hfault
  rw [ofOptionalFile_eq_ok_iff.mpr h] at herror
  cases herror

theorem ofLayers_eq_ok_iff {places : List (String × FileState)} {s : Settings} :
    ofLayers read places = .ok s ↔
      ∃ layers, List.Forall₂ (fun place l => Holds read place.2 l) places layers ∧
        overlaid layers = s := by
  simp only [ofLayers_eq_map, map_eq_ok_iff, mapM_eq_ok_iff, ofOptionalFile_eq_ok_iff]

theorem ofLayers_eq_error_iff {places : List (String × FileState)} {e : SettingsError} :
    ofLayers read places = .error e ↔
      ∃ before place after, places = before ++ place :: after ∧
        (∀ place ∈ before, ∃ l, Holds read place.2 l) ∧ Fault read place e := by
  simp only [ofLayers_eq_map, map_eq_error_iff, mapM_eq_error_iff, ofOptionalFile_eq_ok_iff,
    ofOptionalFile_eq_error_iff]

theorem holds_of_ofLayers {places : List (String × FileState)} {s : Settings}
    (h : ofLayers read places = .ok s) : ∀ place ∈ places, ∃ l, Holds read place.2 l := by
  rw [ofLayers_eq_map] at h
  obtain ⟨layers, hlayers, -⟩ := map_eq_ok_iff.mp h
  intro place hplace
  obtain ⟨l, hl⟩ := exists_ok_of_mapM hlayers place hplace
  exact ⟨l, ofOptionalFile_eq_ok_iff.mp hl⟩

/-- No file makes up for another that is faulty. -/
theorem exists_ofLayers_error_iff {places : List (String × FileState)} :
    (∃ e, ofLayers read places = .error e) ↔ ∃ place ∈ places, ∃ e, Fault read place e := by
  constructor
  · rintro ⟨e, he⟩
    obtain ⟨before, place, after, rfl, -, hfault⟩ := ofLayers_eq_error_iff.mp he
    exact ⟨place, by simp, e, hfault⟩
  · rintro ⟨place, hplace, e, hfault⟩
    cases h : ofLayers read places with
    | error e => exact ⟨e, rfl⟩
    | ok s =>
        obtain ⟨l, hl⟩ := holds_of_ofLayers h place hplace
        exact absurd hfault hl.not_fault

/-- No place for the settings of the user is as good as an absent file there. -/
def userFile (user : Option (String × FileState)) : FileState := user.elim .absent Prod.snd

theorem ofLayers_pair_eq_ok_iff {user : Option (String × FileState)}
    {project : String × FileState} {s : Settings} :
    ofLayers read (user.toList ++ [project]) = .ok s ↔
      ∃ lower upper, Holds read (userFile user) lower ∧ Holds read project.2 upper ∧
        lower.merge upper = s := by
  obtain ⟨place, hplace, hpair⟩ : ∃ place : String × FileState, place.2 = userFile user ∧
      ofLayers read (user.toList ++ [project]) = ofLayers read [place, project] := by
    cases user with
    | none => exact ⟨("", .absent), rfl, rfl⟩
    | some place => exact ⟨place, rfl, rfl⟩
  rw [hpair, ofLayers_eq_ok_iff, ← hplace]
  constructor
  · intro h
    obtain ⟨layers, hlayers, hs⟩ := h
    obtain ⟨lower, rest, hlower, hrest, rfl⟩ := List.forall₂_cons_left_iff.mp hlayers
    obtain ⟨upper, rest, hupper, hnil, rfl⟩ := List.forall₂_cons_left_iff.mp hrest
    cases hnil
    exact ⟨lower, upper, hlower, hupper, (overlaid_pair lower upper).symm.trans hs⟩
  · intro h
    obtain ⟨lower, upper, hlower, hupper, hs⟩ := h
    exact ⟨[lower, upper], .cons hlower (.cons hupper .nil), (overlaid_pair lower upper).trans hs⟩

/-- The last layer that says something decides, so that layers can be put together in any groups. The
settings of the user and of the project are laid over each other in this way as soon as both files
can be read, whichever reader they are read by; if one of them is there and cannot be read, there are
no settings, and the first fault is what is reported, with its cause. -/
theorem last_layer_decides :
    (∀ layers, (overlaid layers).DecidedBy layers) ∧
    (∀ a b c : Settings, (a.merge b).merge c = a.merge (b.merge c)) ∧
    (∀ s : Settings, empty.merge s = s ∧ s.merge empty = s) ∧
    ∀ (read : String → Except Cause Settings) (user : Option (String × FileState))
      (project : String × FileState),
      let places := user.toList ++ [project]
      (∀ s, ofLayers read places = .ok s ↔ ∃ lower upper, Holds read (userFile user) lower ∧
        Holds read project.2 upper ∧ lower.merge upper = s) ∧
      ((∃ e, ofLayers read places = .error e) ↔ ∃ place ∈ places, ∃ e, Fault read place e) ∧
      ∀ e, ofLayers read places = .error e ↔
        ∃ before place after, places = before ++ place :: after ∧
          (∀ place ∈ before, ∃ l, Holds read place.2 l) ∧ Fault read place e :=
  ⟨overlaid_decidedBy, merge_assoc, fun s => ⟨empty_merge s, merge_empty s⟩, fun _ _ _ =>
    ⟨fun _ => ofLayers_pair_eq_ok_iff, exists_ofLayers_error_iff, fun _ => ofLayers_eq_error_iff⟩⟩

/-- A wrapper of no words takes the place of another, and a file whose flags are mistyped takes the
place of nothing. -/
example :
    let user : Settings := { empty with jobs := some 4, wrapper := some ["su", "-c"] }
    let project : Settings := { empty with wrapper := some [] }
    overlaid [user, project, .empty] = { user with wrapper := some [] } ∧
      ofLayers Formats.builtin.settings
          [("user.toml", .text "build.jobs = 4"), ("project.toml", .text "flags.WITH_JPWL = 1")] =
        .error (.malformed "project.toml" .unknown) := by
  decide +kernel

end Settings
end CodecBuild
