import CodecBuild.Proofs.Plan.Ignored

/-!
Empty paths. A path flag may be given the empty text instead of being left out. The assignment
then has an entry more, but reading it as a switch or as a path gives the same answers, and so
the request is granted or refused as before, with the same advisories, the same plan and the same
steps. CMake is the exception: the cache is filled from the entries as they are, so the call that
configures it has an argument more, which names the empty path.
-/

namespace CodecBuild

theorem Flag.default?_of_path {f : Flag} (h : f.kind = .path) : f.default? = none := by
  cases f <;> first | rfl | cases h

namespace Assignment

variable {a : Assignment} {f g : Flag} {v : FlagValue}

theorem contains_insert_of_ne (hg : g ≠ f) : (a.insert f v).contains g = a.contains g := by
  rw [contains, get?_insert_of_ne a hg, contains]

theorem isChanged_insert_of_ne (hg : g ≠ f) : (a.insert f v).isChanged g = a.isChanged g := by
  rw [isChanged, differs, contains_insert_of_ne hg, get?_insert_of_ne a hg, isChanged, differs]

/-- A value for a flag that was unset is one entry more. -/
theorem entries_insert (h : a.get? f = none) (v : FlagValue) : ∃ front back,
    a.entries = front ++ back ∧ (a.insert f v).entries = front ++ (f, v) :: back := by
  obtain ⟨front, back, hall⟩ := List.append_of_mem (Flag.mem_all f)
  have hnodup := Flag.all_nodup
  rw [hall] at hnodup
  obtain ⟨-, hback, hfront⟩ := List.nodup_append.mp hnodup
  have hsame : ∀ gs : List Flag, f ∉ gs →
      gs.filterMap (fun g => ((a.insert f v).get? g).map (g, ·)) =
        gs.filterMap fun g => (a.get? g).map (g, ·) := by
    intro gs hgs
    apply List.filterMap_congr
    intro g hg
    rw [get?_insert_of_ne a (ne_of_mem_of_not_mem hg hgs)]
  refine ⟨front.filterMap fun g => (a.get? g).map (g, ·),
    back.filterMap fun g => (a.get? g).map (g, ·), ?_, ?_⟩
  · rw [entries, hall, List.filterMap_append, List.filterMap_cons, h]
    rfl
  · rw [entries, hall, List.filterMap_append, List.filterMap_cons, get?_insert_self,
      hsame front fun hf => hfront f hf f List.mem_cons_self rfl,
      hsame back (List.nodup_cons.mp hback).1]
    rfl

/-- Read as switches and as paths, the two give the same answers. -/
structure ReadsAs (a a' : Assignment) : Prop where
  isOn : ∀ f, a.isOn f = a'.isOn f
  path? : ∀ f, a.path? f = a'.path? f

theorem readsAs_insert_empty (h : a.get? f = none) :
    (a.insert f (.path ⟨""⟩)).ReadsAs a where
  isOn g := by
    by_cases hg : g = f
    · subst hg
      simp [Assignment.isOn, get?_insert_self, h, FlagValue.bool?]
    · simp [Assignment.isOn, get?_insert_of_ne _ hg]
  path? g := by
    by_cases hg : g = f
    · subst hg
      simp [Assignment.path?, get?_insert_self, h, FlagValue.path?, Path.isEmpty]
    · simp [Assignment.path?, get?_insert_of_ne _ hg]

end Assignment

namespace Configuration

section

variable {a a' : Assignment} (h : a.ReadsAs a') (p : Platform) (b : Backend)

include h

theorem violation?_eq_of_readsAs :
    (ofFlags p b a).violation? = (ofFlags p b a').violation? := by
  refine violation?_congr rfl rfl h.isOn ?_
  exact congrArg Option.isNone (h.path? .conformanceDataRoot)

theorem installPrefix?_eq_of_readsAs :
    (ofFlags p b a).installPrefix? = (ofFlags p b a').installPrefix? :=
  h.path? .cmakeInstallPrefix

theorem linkMode_eq_of_readsAs : (ofFlags p b a).linkMode = (ofFlags p b a').linkMode := by
  simp only [ofFlags, h.isOn]

theorem plan_eq_of_readsAs (doxygen : Bool) :
    (ofFlags p b a).plan doxygen = (ofFlags p b a').plan doxygen := by
  have hon : ∀ f, (ofFlags p b a).isOn f = (ofFlags p b a').isOn f := h.isOn
  have hroot : (ofFlags p b a).dataRoot? = (ofFlags p b a').dataRoot? := h.path? _
  have hcomponents : (ofFlags p b a).components = (ofFlags p b a').components := by
    simp only [components, hon]
    rfl
  simp only [plan, targets, docsTargets, testTargets, compiledTargets, hcomponents, hon, hroot]

theorem steps_eq_of_readsAs (hb : b ≠ .cmake) (targets : List Target) (options : RenderOptions) :
    (ofFlags p b a).steps targets options = (ofFlags p b a').steps targets options := by
  have hinstall := installPrefix?_eq_of_readsAs h p b
  cases b with
  | autotools =>
      exact Autotools.steps_congr hinstall (linkMode_eq_of_readsAs h p _) fun e _ => h.isOn e.1
  | cmake => exact absurd rfl hb
  | manual => exact Makefile.steps_congr hinstall fun e _ => h.isOn e.1

end

variable {a : Assignment} {f : Flag} (hf : f.kind = .path) (hunset : a.get? f = none)
  (p : Platform) (b : Backend)

include hf hunset

/-- No advisory is about a path. -/
theorem advisories_insert_empty :
    (ofFlags p b (a.insert f (.path ⟨""⟩))).advisories
        (Flag.all.filter (a.insert f (.path ⟨""⟩)).isChanged) =
      (ofFlags p b a).advisories (Flag.all.filter a.isChanged) := by
  have htable : ∀ f : Flag, f.kind = .path →
      ∀ g ∈ .cmakeOSXArchitectures :: (ignoredUnderManual ++ manualSymbols), g ≠ f := by decide
  obtain ⟨harchitectures, hflags⟩ := List.forall_mem_cons.mp (htable f hf)
  obtain ⟨hignored, hsymbols⟩ := List.forall_mem_append.mp hflags
  have hchanged : ∀ g, g ≠ f →
      (Flag.all.filter (a.insert f (.path ⟨""⟩)).isChanged).contains g =
        (Flag.all.filter a.isChanged).contains g := by
    intro g hg
    simp [Flag.mem_all, Assignment.isChanged_insert_of_ne hg]
  have hon : ∀ g, (ofFlags p b (a.insert f (.path ⟨""⟩))).isOn g = (ofFlags p b a).isOn g :=
    (Assignment.readsAs_insert_empty hunset).isOn
  have hcontains : (ofFlags p b (a.insert f (.path ⟨""⟩))).flags.contains .cmakeOSXArchitectures =
      (ofFlags p b a).flags.contains .cmakeOSXArchitectures :=
    Assignment.contains_insert_of_ne harchitectures
  simp only [advisories, hon, hcontains, List.filter_congr fun g hg => hchanged g (hignored g hg),
    List.filter_congr fun g hg => hchanged g (hsymbols g hg)]
  rfl

/-- The empty path is written into the cache, between the other entries. -/
theorem cacheEntries_insert_empty : ∃ front back,
    CMake.cacheEntries (ofFlags p b a) = front ++ back ∧
      CMake.cacheEntries (ofFlags p b (a.insert f (.path ⟨""⟩))) =
        front ++ (f.name ++ ":PATH=") :: back := by
  have hcached : CMake.isCached p f = true := by
    have htable : ∀ f : Flag, f.kind = .path → CMake.isCached p f = true := by
      cases p <;> decide
    exact htable f hf
  have hentry : CMake.cacheEntry f (.path ⟨""⟩) = f.name ++ ":PATH=" := by
    simp [CMake.cacheEntry, hf, FlagKind.cacheType, FlagValue.render, String.append_assoc]
  obtain ⟨front, back, hentries, hinserted⟩ := Assignment.entries_insert hunset (.path ⟨""⟩)
  refine ⟨(front.filter fun e => CMake.isCached p e.1).map fun e => CMake.cacheEntry e.1 e.2,
    (back.filter fun e => CMake.isCached p e.1).map fun e => CMake.cacheEntry e.1 e.2, ?_, ?_⟩
  · simp [CMake.cacheEntries, ofFlags, hentries]
  · simp [CMake.cacheEntries, ofFlags, hinserted, hcached, hentry]

/-- The call that configures has an argument more, and the other steps are as they were. -/
theorem steps_insert_empty (targets : List Target) (options : RenderOptions) :
    ∃ front back rest,
      (ofFlags p .cmake a).steps targets options = .plain .configure (front ++ back) :: rest ∧
      (ofFlags p .cmake (a.insert f (.path ⟨""⟩))).steps targets options =
        .plain .configure (front ++ ("-D" ++ f.name ++ ":PATH=") :: back) :: rest := by
  let generator := CMake.generator p options
  obtain ⟨front, back, hentries, hinserted⟩ := cacheEntries_insert_empty hf hunset p .cmake
  have hcommand : CMake.configureCommand (ofFlags p .cmake a) generator options.sourceDir =
      (["cmake", "-G", generator] ++ front.map ("-D" ++ ·)) ++
        (back.map ("-D" ++ ·) ++ [options.sourceDir.text]) := by
    simp [CMake.configureCommand, hentries]
  have hcommand' : CMake.configureCommand (ofFlags p .cmake (a.insert f (.path ⟨""⟩))) generator
        options.sourceDir =
      (["cmake", "-G", generator] ++ front.map ("-D" ++ ·)) ++
        ("-D" ++ f.name ++ ":PATH=") :: (back.map ("-D" ++ ·) ++ [options.sourceDir.text]) := by
    simp [CMake.configureCommand, hinserted, String.append_assoc]
  exact ⟨_, _, (CMake.steps (ofFlags p .cmake a) targets options).tail,
    congrArg (Step.plain .configure · :: _) hcommand,
    congrArg (Step.plain .configure · :: _) hcommand'⟩

end Configuration

section

variable {o : Overrides} {f : Flag}

variable (hf : f.kind = .path) (ho : o.get? f.name = none) (p : Platform) (b : Backend)

include hf

theorem FlagKind.coerce?_empty : f.kind.coerce? (.text "") = some (.path ⟨""⟩) := by
  rw [hf]
  rfl

include ho

theorem Overrides.unset_of_unnamed : o.assignment.get? f = none :=
  (value?_of_get?_none ho).trans (Flag.default?_of_path hf)

/-- An empty path neither breaks a rule nor mends one. -/
theorem resolve_insert_empty_error_iff (v : Violation) :
    resolve p b (o.insert f.name (.text "")) = .error v ↔ resolve p b o = .error v := by
  have hv := FlagKind.coerce?_empty hf
  have hfault : ∀ n, Overrides.fault? (o.insert f.name (.text "")) n = o.fault? n := by
    intro n
    rw [Overrides.fault?_insert o hv]
    split
    next hn => rw [hn, Overrides.fault?, ho, Option.bind_none]
    next => rfl
  cases o.sound_or_firstFault with
  | inl h =>
      have hreads := Assignment.readsAs_insert_empty (Overrides.unset_of_unnamed hf ho)
      rw [resolve_of_sound p b h, resolve_of_sound p b (h.insert hv),
        Overrides.assignment_insert hv, Configuration.verdict, Configuration.verdict,
        Configuration.violation?_eq_of_readsAs hreads]
      cases (Configuration.ofFlags p b o.assignment).violation? with
      | none => simp
      | some w => rfl
  | inr h =>
      obtain ⟨n, w, hn, hleast⟩ := h
      have hfirst : Overrides.FirstFault (o.insert f.name (.text "")) n w :=
        ⟨(hfault n).trans hn, fun m hm => (hfault m).trans (hleast m hm)⟩
      rw [resolve_of_firstFault p b ⟨hn, hleast⟩, resolve_of_firstFault p b hfirst]

/-- A path that is given as empty counts as unset, in the answer to the request, in the plan and
in the steps. Only the cache of CMake is told the difference, by one argument more. -/
theorem empty_path_unset_but_for_cache :
    (∀ v, resolve p b (o.insert f.name (.text "")) = .error v ↔ resolve p b o = .error v) ∧
    ∀ r, resolve p b o = .ok r → ∃ r', resolve p b (o.insert f.name (.text "")) = .ok r' ∧
      r'.config.installPrefix? = r.config.installPrefix? ∧
      r'.config.linkMode = r.config.linkMode ∧ r'.advisories = r.advisories ∧
      (∀ doxygen, ∃ plan, r'.config.plan doxygen = .ok plan ∧ r.config.plan doxygen = .ok plan) ∧
      ∀ targets options,
        (b ≠ .cmake → ∃ steps, r'.config.render b targets options = .ok steps ∧
          r.config.render b targets options = .ok steps) ∧
        (b = .cmake → ∃ front back rest,
          r'.config.render b targets options =
            .ok (.plain .configure (front ++ ("-D" ++ f.name ++ ":PATH=") :: back) :: rest) ∧
          r.config.render b targets options =
            .ok (.plain .configure (front ++ back) :: rest)) := by
  have herror := resolve_insert_empty_error_iff hf ho p b
  refine ⟨herror, ?_⟩
  intro r hr
  have hunset := Overrides.unset_of_unnamed hf ho
  have hreads := Assignment.readsAs_insert_empty hunset
  cases hr' : resolve p b (o.insert f.name (.text "")) with
  | error v =>
      rw [(herror v).mp hr'] at hr
      cases hr
  | ok r' =>
      have hconfig := config_of_resolve hr
      have hconfig' := config_of_resolve hr'
      rw [Overrides.assignment_insert (FlagKind.coerce?_empty hf)] at hconfig'
      refine ⟨r', rfl, ?_⟩
      rw [advisories_of_resolve hr, advisories_of_resolve hr', hconfig, hconfig']
      refine ⟨Configuration.installPrefix?_eq_of_readsAs hreads p b,
        Configuration.linkMode_eq_of_readsAs hreads p b,
        Configuration.advisories_insert_empty hf hunset p b, ?_, ?_⟩
      · intro doxygen
        obtain ⟨plan, hplan, -⟩ :=
          (Configuration.ofFlags p b o.assignment).exists_plan doxygen
        exact ⟨plan, (Configuration.plan_eq_of_readsAs hreads p b doxygen).trans hplan, hplan⟩
      · intro targets options
        constructor
        · intro hb
          have hsteps := Configuration.steps_eq_of_readsAs hreads p b hb targets options
          exact ⟨_, Configuration.render_backend _ targets options, hsteps ▸
            Configuration.render_backend _ targets options⟩
        · rintro rfl
          obtain ⟨front, back, rest, hsteps, hsteps'⟩ :=
            Configuration.steps_insert_empty hf hunset p targets options
          exact ⟨front, back, rest,
            (Configuration.render_backend _ targets options).trans (congrArg Except.ok hsteps'),
            (Configuration.render_backend _ targets options).trans (congrArg Except.ok hsteps)⟩

end

/-- The tests do not run without data, named as empty or not at all. A prefix that is empty goes
into the cache, and not to the configure script. -/
theorem empty_prefix_goes_into_cache :
    let tested : Overrides := .ofList [("BUILD_TESTING", .text "yes")]
    let o : Overrides := .ofList [("BUILD_MJ2", .text "on"), ("WITH_JPWL", .text "yes")]
    let prefixed : Overrides := o.insert "CMAKE_INSTALL_PREFIX" (.text "")
    let missing : Violation := .missingRequired .conformanceDataRoot .buildTesting
    resolve .unix .cmake (tested.insert "JPEG2000_CONFORMANCE_DATA_ROOT" (.text "")) =
        .error missing ∧
      (∃ r r' steps, resolve .macOS .autotools o = .ok r ∧
        resolve .macOS .autotools prefixed = .ok r' ∧
        r'.config.render .autotools [] {} = .ok steps ∧
        r.config.render .autotools [] {} = .ok steps) ∧
      ∃ r r' front back rest, resolve .macOS .cmake o = .ok r ∧
        resolve .macOS .cmake prefixed = .ok r' ∧
        r'.config.render .cmake [] {} = .ok (.plain .configure
          (front ++ "-DCMAKE_INSTALL_PREFIX:PATH=" :: back) :: rest) ∧
        r.config.render .cmake [] {} = .ok (.plain .configure (front ++ back) :: rest) := by
  intro tested o prefixed missing
  have hdata : tested.get? Flag.conformanceDataRoot.name = none := by decide
  have hprefix : o.get? Flag.cmakeInstallPrefix.name = none := by decide
  refine ⟨?_, ?_, ?_⟩
  · exact ((empty_path_unset_but_for_cache rfl hdata .unix .cmake).1 missing).mpr rfl
  · obtain ⟨r, hr⟩ : ∃ r, resolve .macOS .autotools o = .ok r := ⟨_, rfl⟩
    obtain ⟨r', hr', -, -, -, -, hsteps⟩ :=
      (empty_path_unset_but_for_cache rfl hprefix .macOS .autotools).2 r hr
    obtain ⟨steps, hprefixed, hbare⟩ := (hsteps [] {}).1 (by decide)
    exact ⟨r, r', steps, hr, hr', hprefixed, hbare⟩
  · obtain ⟨r, hr⟩ : ∃ r, resolve .macOS .cmake o = .ok r := ⟨_, rfl⟩
    obtain ⟨r', hr', -, -, -, -, hsteps⟩ :=
      (empty_path_unset_but_for_cache rfl hprefix .macOS .cmake).2 r hr
    obtain ⟨front, back, rest, hprefixed, hbare⟩ := (hsteps [] {}).2 rfl
    exact ⟨r, r', front, back, rest, hr, hr', hprefixed, hbare⟩

/-- An empty path is not as good as none everywhere. -/
theorem empty_path_not_always_unset :
    ¬∀ (p : Platform) (b : Backend) (o : Overrides) (f : Flag) (r r' : Resolution),
      f.kind = .path → o.get? f.name = none → resolve p b o = .ok r →
      resolve p b (o.insert f.name (.text "")) = .ok r' →
      ∀ targets options,
        r'.config.render b targets options = r.config.render b targets options := by
  intro hall
  obtain ⟨r, hr⟩ : ∃ r, resolve .unix .cmake .empty = .ok r := ⟨_, rfl⟩
  obtain ⟨r', hr'⟩ : ∃ r',
      resolve .unix .cmake (.insert .empty "CMAKE_INSTALL_PREFIX" (.text "")) = .ok r' := ⟨_, rfl⟩
  have hsame := hall .unix .cmake .empty .cmakeInstallPrefix r r' rfl rfl hr hr' [] {}
  cases hr
  cases hr'
  revert hsame
  decide

end CodecBuild
