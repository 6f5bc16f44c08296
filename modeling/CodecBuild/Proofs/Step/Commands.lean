import CodecBuild.Step.Sequence

/-!
What can be read off the commands of a build. Texts of the user go into them: a prefix, paths, a
generator, a directory. None of these passes for a switch, for the cache entry of another flag or
for a symbol of the Makefile, so each of those is there exactly when its flag calls for it.
-/

namespace CodecBuild

namespace Step

def commands (kind : StepKind) (steps : List Step) : List (List String) :=
  (steps.filter (·.kind == kind)).map Step.command

variable {kind k : StepKind} {command : List String}

@[simp] theorem kind_plain : (plain k command).kind = k := rfl

@[simp] theorem command_plain : (plain k command).command = command := rfl

@[simp] theorem kind_privileged {escalation : Option (List String)} :
    (privileged k command escalation).kind = k := by
  cases escalation <;> rfl

@[simp] theorem commands_nil : commands kind [] = [] := rfl

@[simp] theorem commands_append (steps rest : List Step) :
    commands kind (steps ++ rest) = commands kind steps ++ commands kind rest := by
  simp [commands]

@[simp] theorem commands_cons (s : Step) (rest : List Step) : commands kind (s :: rest) =
    if s.kind = kind then s.command :: commands kind rest else commands kind rest := by
  by_cases h : s.kind = kind <;> simp [commands, h]

@[simp] theorem commands_ite (b : Bool) (steps : List Step) :
    commands kind (if b then steps else []) = if b then commands kind steps else [] := by
  cases b <;> rfl

@[simp] theorem commands_map_plain {α : Type} (xs : List α) (f : α → List String) :
    commands kind (xs.map fun x => plain kind (f x)) = xs.map f := by
  induction xs with
  | nil => rfl
  | cons x xs ih => simp [ih]

@[simp] theorem commands_map_plain_of_ne {α : Type} (h : k ≠ kind) (xs : List α)
    (f : α → List String) : commands kind (xs.map fun x => plain k (f x)) = [] := by
  induction xs with
  | nil => rfl
  | cons x xs ih => simp [h, ih]

end Step

variable {c : Configuration} {targets : List Target} {options : RenderOptions} {make : String}

/-- Where a configure script or a Makefile can be used at all, it is run by `make`. -/
theorem makeProgram_of_supports {p : Platform} {b : Backend} (h : b.supports p = true)
    (hb : b ≠ .cmake) : makeProgram p options = "make" := by
  have hplatform : p ≠ .winNative := by
    intro hp
    subst hp
    cases b with
    | cmake => exact hb rfl
    | autotools | manual => cases h
  simp [makeProgram, hplatform]

namespace Autotools

open Step

theorem configure_commands : commands .configure (steps c targets make options) =
    [["./bootstrap.sh"], configureCommand c (hasKind targets .docs)] := by
  simp [steps]

theorem docsBuild_commands : commands .docsBuild (steps c targets make options) =
    if hasKind targets .docs then [[make, "doc"]] else [] := by
  simp [steps]

theorem test_commands : commands .test (steps c targets make options) = [] := by
  simp [steps]

/-- Neither the prefix nor the link mode is spelled like one of the other switches. -/
theorem mem_configureCommand {docs : Bool} {s : String}
    (h : s ∈ "--enable-doc" :: features.map Prod.snd) :
    s ∈ configureCommand c docs ↔
      (∃ e ∈ features, c.isOn e.1 = true ∧ e.2 = s) ∨ docs = true ∧ s = "--enable-doc" := by
  have htable : ∀ s ∈ "--enable-doc" :: features.map Prod.snd,
      s ≠ "./configure" ∧ ¬"--prefix=".toList <+: s.toList ∧ ∀ m, s ∉ linkSwitches m := by
    intro s hs
    refine ⟨?_, ?_, ?_⟩
    · revert s
      decide
    · revert s
      decide
    · intro m
      cases m <;> (revert s; decide)
  obtain ⟨hhead, hshape, hlink⟩ := htable s h
  have hinstall : ∀ p : Path, "--prefix=" ++ p.text ≠ s := by
    intro p hp
    rw [← hp, String.toList_append] at hshape
    exact hshape (List.prefix_append _ _)
  simp [configureCommand, hhead, hinstall, hlink, and_assoc]

theorem mem_configure_arguments {s : String} (h : s ≠ "./configure") :
    (∃ arguments, "./configure" :: arguments ∈ commands .configure (steps c targets make options) ∧
      s ∈ arguments) ↔ s ∈ configureCommand c (hasKind targets .docs) := by
  simp [configure_commands, configureCommand, h]

theorem feature_mem_configureCommand {docs : Bool} {f : Flag} {s : String}
    (h : (f, s) ∈ features) : s ∈ configureCommand c docs ↔ c.isOn f = true := by
  have htable : ∀ e ∈ features, e.2 ≠ "--enable-doc" ∧ ∀ e' ∈ features, e'.2 = e.2 → e'.1 = e.1 := by
    decide
  obtain ⟨hdoc, hunique⟩ := htable _ h
  rw [mem_configureCommand (List.mem_cons_of_mem _ (List.mem_map_of_mem h))]
  constructor
  · intro hs
    obtain ⟨e, he, hon, hsame⟩ | ⟨-, hs⟩ := hs
    · have hflag : e.1 = f := hunique e he hsame
      exact hflag ▸ hon
    · exact (hdoc hs).elim
  · intro hon
    exact .inl ⟨_, h, hon, rfl⟩

theorem docs_mem_configureCommand {docs : Bool} :
    "--enable-doc" ∈ configureCommand c docs ↔ docs = true := by
  have htable : ∀ e ∈ features, e.2 ≠ "--enable-doc" := by decide
  rw [mem_configureCommand List.mem_cons_self]
  constructor
  · intro hs
    obtain ⟨e, he, -, hsame⟩ | ⟨hdocs, -⟩ := hs
    · exact (htable e he hsame).elim
    · exact hdocs
  · intro hdocs
    exact .inr ⟨hdocs, rfl⟩

end Autotools

namespace CMake

open Step

theorem configure_commands : commands .configure (steps c targets options) =
    [configureCommand c (generator c.platform options) options.sourceDir] := by
  simp [steps]

theorem docsBuild_commands : commands .docsBuild (steps c targets options) =
    if hasKind targets .docs then
      [(BuildTool.ofGenerator (generator c.platform options)).goal "doc"]
    else [] := by
  simp [steps]

theorem test_commands : commands .test (steps c targets options) =
    if hasKind targets .test then [["ctest", "--output-on-failure"]] else [] := by
  simp [steps]

/-- The name of a flag ends at the first colon, whatever the value looks like. -/
theorem cacheEntry_inj {f g : Flag} {v w : FlagValue} :
    cacheEntry f v = cacheEntry g w ↔ f = g ∧ v.render = w.render := by
  have hname : ∀ (f : Flag) (v : FlagValue),
      (cacheEntry f v).toList.takeWhile (· ≠ ':') = f.name.toList := by
    intro f v
    have hcolon : ':' ∉ f.name.toList := by cases f <;> decide
    have htext : (cacheEntry f v).toList =
        f.name.toList ++ ':' :: (f.kind.cacheType ++ "=" ++ v.render).toList := by
      simp [cacheEntry]
    rw [htext, Text.takeWhile_ne_append hcolon]
  constructor
  · intro h
    have hfg : f = g := by
      apply Flag.name_injective
      apply String.toList_injective
      rw [← hname f v, h, hname]
    subst hfg
    refine ⟨rfl, ?_⟩
    simpa [cacheEntry] using h
  · intro h
    obtain ⟨rfl, hrender⟩ := h
    simp [cacheEntry, hrender]

theorem cacheEntry_mem_cacheEntries {f : Flag} {v : FlagValue} :
    cacheEntry f v ∈ cacheEntries c ↔
      isCached c.platform f = true ∧ ∃ w, c.flags.get? f = some w ∧ w.render = v.render := by
  simp only [cacheEntries, List.mem_map, List.mem_filter, Prod.exists, Assignment.mem_entries,
    cacheEntry_inj]
  constructor
  · intro h
    obtain ⟨g, w, ⟨hget, hcached⟩, rfl, hrender⟩ := h
    exact ⟨hcached, w, hget, hrender⟩
  · intro h
    obtain ⟨hcached, w, hget, hrender⟩ := h
    exact ⟨f, w, ⟨hget, hcached⟩, rfl, hrender⟩

/-- What stands between the generator and the source directory. -/
theorem mem_configure_entries {s : String} :
    (∃ generator entries source, ["cmake", "-G", generator] ++ entries ++ [source] ∈
      commands .configure (steps c targets options) ∧ s ∈ entries) ↔
      s ∈ (cacheEntries c).map ("-D" ++ ·) := by
  rw [configure_commands]
  constructor
  · intro h
    obtain ⟨generator, entries, source, hcommand, hs⟩ := h
    obtain ⟨hfront, -⟩ := List.append_inj' (List.mem_singleton.mp hcommand) rfl
    obtain ⟨-, hentries⟩ := List.append_inj hfront rfl
    exact hentries ▸ hs
  · intro hs
    exact ⟨_, _, _, List.mem_singleton.mpr rfl, hs⟩

end CMake

namespace Makefile

open Step

theorem configure_commands : commands .configure (steps c targets make options) =
    [["edit", "opj_config.h"] ++ subdirectories.map fun e => symbol c e.1] := by
  simp [steps]

theorem build_commands : commands .build (steps c targets make options) =
    (make :: makeJobs options.jobs) :: (subdirectories.filter fun e => c.isOn e.1).map fun e =>
      [make, "-C", e.2] ++ makeJobs options.jobs := by
  simp [steps]

theorem docsBuild_commands : commands .docsBuild (steps c targets make options) =
    if hasKind targets .docs then [["doxygen", "doc/Doxyfile.dox"]] else [] := by
  simp [steps]

theorem test_commands : commands .test (steps c targets make options) = [] := by
  simp [steps]

theorem symbol_mem_configure {f : Flag} {directory : String} (h : (f, directory) ∈ subdirectories) :
    f.name ++ "=yes" ∈ ["edit", "opj_config.h"] ++ subdirectories.map (fun e => symbol c e.1) ↔
      c.isOn f = true := by
  have htable : ∀ e ∈ subdirectories, e.1.name ++ "=yes" ∉ ["edit", "opj_config.h"] ∧
      ∀ e' ∈ subdirectories, ∀ on : Bool,
        e'.1.name ++ (if on then "=yes" else "=no") = e.1.name ++ "=yes" →
          e'.1 = e.1 ∧ on = true := by decide
  obtain ⟨hfixed, hunique⟩ := htable _ h
  rw [List.mem_append, List.mem_map, or_iff_right hfixed]
  constructor
  · intro hs
    obtain ⟨e, he, hsame⟩ := hs
    obtain ⟨hflag, hon⟩ := hunique e he _ hsame
    have hflag : e.1 = f := hflag
    exact hflag ▸ hon
  · intro hon
    exact ⟨_, h, by simp [symbol, hon]⟩

/-- Jobs are no directory to go into: the call for the directory itself has no such argument. -/
theorem directory_mem_build {f : Flag} {directory : String} (h : (f, directory) ∈ subdirectories) :
    (∃ jobs, make :: "-C" :: directory :: jobs ∈
      commands .build (steps c targets make options)) ↔ c.isOn f = true := by
  have htable : ∀ e ∈ subdirectories, ∀ e' ∈ subdirectories, e'.2 = e.2 → e'.1 = e.1 := by decide
  have htop : ∀ jobs, make :: "-C" :: directory :: jobs ≠ make :: makeJobs options.jobs := by
    intro jobs hsame
    cases hjobs : options.jobs <;> simp [makeJobs, hjobs] at hsame
  simp only [build_commands, List.mem_cons, htop, false_or, List.mem_map, List.mem_filter]
  constructor
  · intro hs
    obtain ⟨jobs, e, ⟨he, hon⟩, hsame⟩ := hs
    have hdirectory : e.2 = directory := by simp_all
    have hflag : e.1 = f := htable _ h e he hdirectory
    exact hflag ▸ hon
  · intro hon
    exact ⟨_, _, ⟨h, hon⟩, rfl⟩

end Makefile
end CodecBuild
