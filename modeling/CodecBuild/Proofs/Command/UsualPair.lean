import CodecBuild.Proofs.Command.Precedence

/-!
The usual platform and backend. A platform and a backend on the line take their place; even then
the usual ones are read, and one that cannot be read refuses the request.
-/

namespace CodecBuild

namespace Settings

/-- What is wrong with the usual platform and backend, where anything is. The platform is looked at
first. -/
inductive Misnames (u : Settings) : SettingsError → Prop where
  | platform {text : String} (usual : u.platform = some text)
      (unknown : Platform.parse? text = none) : Misnames u (.unknownPlatform text)
  | backend {text : String} (known : ∀ s, u.platform = some s → Platform.parse? s ≠ none)
      (usual : u.backend = some text) (unknown : Backend.parse? text = none) :
      Misnames u (.unknownBackend text)

def Readable (u : Settings) : Prop := ∀ e, ¬u.Misnames e

variable {u : Settings}

theorem Misnames.unique {e e' : SettingsError} (he : u.Misnames e) (he' : u.Misnames e') :
    e = e' := by
  cases he with
  | platform usual unknown =>
      cases he' with
      | platform usual' _ => rw [Option.some.inj (usual.symm.trans usual')]
      | backend known => exact absurd unknown (known _ usual)
  | backend known usual _ =>
      cases he' with
      | platform usual' unknown' => exact absurd unknown' (known _ usual')
      | backend _ usual' _ => rw [Option.some.inj (usual.symm.trans usual')]

theorem readable_of_known (platform : ∀ s, u.platform = some s → Platform.parse? s ≠ none)
    (backend : ∀ s, u.backend = some s → Backend.parse? s ≠ none) : u.Readable := by
  intro e he
  cases he with
  | platform usual unknown => exact platform _ usual unknown
  | backend _ usual unknown => exact backend _ usual unknown

theorem platform?_cases (u : Settings) :
    ((∀ s, u.platform = some s → Platform.parse? s ≠ none) ∧ ∃ usual, u.platform? = .ok usual) ∨
      ∃ e, u.Misnames e ∧ u.platform? = .error e := by
  cases htext : u.platform with
  | none => exact .inl ⟨by rintro _ ⟨⟩, none, by simp only [platform?, htext]⟩
  | some text =>
      cases hp : Platform.parse? text with
      | none => exact .inr ⟨_, .platform htext hp, by simp only [platform?, htext, hp]⟩
      | some p =>
          refine .inl ⟨?_, some p, by simp only [platform?, htext, hp]⟩
          rintro s ⟨⟩ hunknown
          cases hp.symm.trans hunknown

theorem backend?_cases (known : ∀ s, u.platform = some s → Platform.parse? s ≠ none) :
    ((∀ s, u.backend = some s → Backend.parse? s ≠ none) ∧ ∃ usual, u.backend? = .ok usual) ∨
      ∃ e, u.Misnames e ∧ u.backend? = .error e := by
  cases htext : u.backend with
  | none => exact .inl ⟨by rintro _ ⟨⟩, none, by simp only [backend?, htext]⟩
  | some text =>
      cases hb : Backend.parse? text with
      | none => exact .inr ⟨_, .backend known htext hb, by simp only [backend?, htext, hb]⟩
      | some b =>
          refine .inl ⟨?_, some b, by simp only [backend?, htext, hb]⟩
          rintro s ⟨⟩ hunknown
          cases hb.symm.trans hunknown

/-- Reading the usual platform and backend ends at what is wrong with them. -/
theorem readable_or_misnames (u : Settings) :
    (u.Readable ∧ ∃ usual usual', u.platform? = .ok usual ∧ u.backend? = .ok usual') ∨
      ∃ e, u.Misnames e ∧
        (u.platform? = .error e ∨ ∃ usual, u.platform? = .ok usual ∧ u.backend? = .error e) := by
  obtain ⟨known, usual, hplatform⟩ | ⟨e, he, hplatform⟩ := u.platform?_cases
  · obtain ⟨known', usual', hbackend⟩ | ⟨e, he, hbackend⟩ := backend?_cases known
    · exact .inl ⟨readable_of_known known known', usual, usual', hplatform, hbackend⟩
    · exact .inr ⟨e, he, .inr ⟨usual, hplatform, hbackend⟩⟩
  · exact .inr ⟨e, he, .inl hplatform⟩

end Settings

namespace Command

open Traced

namespace Session

/-- What is left to do once platform, backend and overrides are chosen. -/
def resolveChosen (p : Platform) (b : Backend) (o : Overrides) : Traced Resolution := do
  tell [.resolvingFor p b]
  resolveTraced p b o

theorem resolveChosen_ne_settings (p : Platform) (b : Backend) (o : Overrides)
    (e : SettingsError) : (resolveChosen p b o).result ≠ .error (.settings e) := by
  rw [resolveChosen, result_bind_ok rfl, resolveTraced, result_bind_ok rfl]
  cases CodecBuild.resolve p b o with
  | error v => exact nofun
  | ok resolution => exact nofun

section

variable {u u' : Settings} {r : Request} {p : Platform} {b : Backend}
variable (hdocument : r.document = none) (hp : r.platform = some p) (hb : r.backend = some b)

include hdocument hp hb

section

variable {o : Overrides} (ho : Overrides.readAll r.assignments = .ok o)

include ho

/-- The usual platform and backend are read, although neither is taken. -/
theorem resolve_of_given (s : Session) : s.resolve r =
    lift .settings s.settings.platform? >>= fun _ =>
      lift .settings s.settings.backend? >>= fun _ =>
        resolveChosen p b (s.settings.flags.merge o) := by
  rw [resolve, ho, lift_ok_bind, hdocument]
  simp only [resolveOptions, hp, hb, Option.some_or]
  rfl

theorem resolve_of_readable (hu : u.Readable) (h : Host) :
    (⟨u, h⟩ : Session).resolve r = resolveChosen p b (u.flags.merge o) := by
  obtain ⟨-, usual, usual', hplatform, hbackend⟩ | ⟨e, he, -⟩ := u.readable_or_misnames
  · rw [resolve_of_given hdocument hp hb ho, hplatform, lift_ok_bind, hbackend, lift_ok_bind]
  · exact absurd he (hu e)

theorem result_of_misnames {e : SettingsError} (hu : u.Misnames e) (h : Host) :
    ((⟨u, h⟩ : Session).resolve r).result = .error (.settings e) := by
  rw [resolve_of_given hdocument hp hb ho]
  obtain ⟨hreadable, -⟩ | ⟨e', he', hread⟩ := u.readable_or_misnames
  · exact absurd hu (hreadable e)
  · rw [hu.unique he']
    obtain hplatform | ⟨usual, hplatform, hbackend⟩ := hread
    · rw [hplatform]
      exact result_bind_error rfl _
    · rw [hplatform, lift_ok_bind, hbackend]
      exact result_bind_error rfl _

end

theorem result_eq_settings_iff (h : Host) (e : SettingsError) :
    ((⟨u, h⟩ : Session).resolve r).result = .error (.settings e) ↔
      u.Misnames e ∧ ∃ o, Overrides.readAll r.assignments = .ok o := by
  cases ho : Overrides.readAll r.assignments with
  | error e' =>
      rw [resolve_of_unreadable ho]
      exact ⟨nofun, nofun⟩
  | ok o =>
      constructor
      · intro hresult
        refine ⟨?_, o, rfl⟩
        obtain ⟨hu, -⟩ | ⟨e', he', -⟩ := u.readable_or_misnames
        · rw [resolve_of_readable hdocument hp hb ho hu] at hresult
          exact absurd hresult (resolveChosen_ne_settings p b _ e)
        · rw [result_of_misnames hdocument hp hb ho he'] at hresult
          cases hresult
          exact he'
      · rintro ⟨he, -⟩
        exact result_of_misnames hdocument hp hb ho he h

/-- A platform and a backend on the line take precedence over the usual ones as far as these can
be read. If they cannot, the request is refused for it, unless an assignment is refused before. -/
theorem given_pair_precedes_readable (hu : u.Readable) (hflags : u'.flags = u.flags) (h : Host) :
    ((⟨u', h⟩ : Session).resolve r = (⟨u, h⟩ : Session).resolve r ↔
      u'.Readable ∨ ∃ e, Overrides.readAll r.assignments = .error e) ∧
    ∀ e, ((⟨u', h⟩ : Session).resolve r).result = .error (.settings e) ↔
      u'.Misnames e ∧ ∃ o, Overrides.readAll r.assignments = .ok o := by
  have hsettings := fun u e => result_eq_settings_iff (u := u) hdocument hp hb h e
  refine ⟨⟨?_, ?_⟩, hsettings u'⟩
  -- Settings that are read never refuse, so answers that are the same leave nothing to refuse.
  · intro heq
    cases ho : Overrides.readAll r.assignments with
    | error e => exact .inr ⟨e, rfl⟩
    | ok o =>
        refine .inl fun e he => ?_
        have hresult := (hsettings u' e).mpr ⟨he, o, ho⟩
        rw [heq] at hresult
        exact hu e ((hsettings u e).mp hresult).1
  · rintro (hu' | ⟨e, he⟩)
    · cases ho : Overrides.readAll r.assignments with
      | error e => rw [resolve_of_unreadable ho, resolve_of_unreadable ho]
      | ok o =>
          rw [resolve_of_readable hdocument hp hb ho hu', resolve_of_readable hdocument hp hb ho hu,
            hflags]
    · rw [resolve_of_unreadable he, resolve_of_unreadable he]

end

/-- Usual names that are known in other spellings, and one that is not known. -/
theorem beos_default_refuses_unix_request :
    let r : Request := ⟨some .unix, some .cmake, ["BUILD_MJ2=on"], none⟩
    let usual (platform backend : Option String) : Settings :=
      { Settings.empty with platform, backend }
    let answer (u : Settings) := (⟨u, .bare⟩ : Session).resolve r
    r.document = none ∧ r.platform = some .unix ∧ r.backend = some .cmake ∧
      (usual none none).Readable ∧
      answer (usual (some "Darwin") (some "makefile")) = answer (usual none none) ∧
      (answer (usual (some "beos") (some "ninja"))).result =
        .error (.settings (.unknownPlatform "beos")) := by
  intro r usual answer
  have hnone : (usual none none).Readable := Settings.readable_of_known nofun nofun
  have hknown : (usual (some "Darwin") (some "makefile")).Readable := by
    apply Settings.readable_of_known
    · rintro s ⟨⟩
      decide
    · rintro s ⟨⟩
      decide
  have hbeos : (usual (some "beos") (some "ninja")).Misnames (.unknownPlatform "beos") :=
    .platform rfl (by decide)
  have hflags : ∀ platform backend, (usual platform backend).flags = (usual none none).flags :=
    fun _ _ => rfl
  have hprecedes := fun platform backend =>
    given_pair_precedes_readable (r := r) rfl rfl rfl hnone (hflags platform backend) .bare
  exact ⟨rfl, rfl, rfl, hnone, (hprecedes _ _).1.mpr (.inl hknown),
    ((hprecedes _ _).2 _).mpr ⟨hbeos, _, rfl⟩⟩

/-- Precedence over the usual platform and backend does not hold without regard to what they are. -/
theorem given_pair_not_always_enough :
    ¬∀ (u : Settings) (h : Host) (r : Request) (platform backend : Option String),
      r.document = none → r.platform.isSome = true → r.backend.isSome = true →
      ((⟨{ u with platform, backend }, h⟩ : Session).resolve r).result =
        ((⟨u, h⟩ : Session).resolve r).result := by
  intro hall
  have hsame := hall .empty .bare ⟨some .unix, some .cmake, [], none⟩ (some "beos") none rfl rfl rfl
  cases hsame

end Session
end Command
end CodecBuild
