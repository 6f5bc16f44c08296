import CodecBuild.Proofs.List.Traversal
import CodecBuild.Proofs.Overrides.Grammar
import CodecBuild.Proofs.Plan.Reading
import CodecBuild.Proofs.Resolution.Editing
import CodecBuild.Proofs.Resolution.Reconfiguration

/-!
Reading a configuration back from the call that configures CMake. A cache entry is an assignment:
the name of the flag ends at the first colon, the type at the first equals sign, and all that
follows is the value. So the entries of a configuration make a request, which is granted; what it
loses is what CMake is not told, and what CMake is told stays the same.
-/

namespace CodecBuild

/-- A path or a text has no white space at either end. -/
def FlagValue.IsTrimmed : FlagValue → Prop
  | path p => Text.IsTrimmed p.text
  | text s => Text.IsTrimmed s
  | bool _ | choice _ => True

instance : DecidablePred FlagValue.IsTrimmed
  | .path p => inferInstanceAs (Decidable (Text.IsTrimmed p.text))
  | .text s => inferInstanceAs (Decidable (Text.IsTrimmed s))
  | .bool _ | .choice _ => inferInstanceAs (Decidable True)

def Assignment.IsTrimmed (a : Assignment) : Prop := ∀ f v, a.get? f = some v → v.IsTrimmed

instance (a : Assignment) : Decidable a.IsTrimmed :=
  inferInstanceAs (Decidable (∀ f, ∀ v ∈ a.get? f, v.IsTrimmed))

namespace FlagKind

variable {k : FlagKind} {v : FlagValue}

theorem trimmed_render (hfits : k.Fits v) (h : v.IsTrimmed)
    (hspellings : ∀ s ∈ k.spellings, Text.IsTrimmed s) : Text.IsTrimmed v.render := by
  cases v with
  | bool b => cases b <;> decide
  | path p => exact h
  | text s => exact h
  | choice s =>
      cases k with
      | choice spellings => exact hspellings s hfits
      | boolean | path | string => exact hfits.elim

end FlagKind

namespace CMake

theorem readAssignment_cacheEntry {f : Flag} {v : FlagValue} (hfits : f.kind.Fits v)
    (h : v.IsTrimmed) :
    Overrides.readAssignment (cacheEntry f v) = .ok (f.name, .text v.render) := by
  have htable : ∀ f : Flag, '=' ∉ f.name.toList ∧ ':' ∉ f.name.toList ∧
      '=' ∉ f.kind.cacheType.toList ∧ f.name ≠ "" ∧ Text.IsTrimmed f.name ∧
      ∀ s ∈ f.kind.spellings, Text.IsTrimmed s := by decide
  obtain ⟨hequals, hcolon, htype, hname, htrimmed, hspellings⟩ := htable f
  have hentry : Overrides.Assigns f.name v.render (cacheEntry f v) :=
    .typed (Text.Pads.refl _) htype (Text.Pads.refl _)
  rw [Overrides.readAssignment_of_assigns ⟨hequals, hcolon, htrimmed⟩
    (FlagKind.trimmed_render hfits h hspellings) hentry, if_neg hname]

/-- What decides whether a request is granted is told on every platform. -/
theorem isCached_of_judged (p : Platform) : ∀ f ∈ Flag.judged, isCached p f = true := by
  cases p <;> decide

/-- The cached flags, in the spelling of the cache. -/
def cached (c : Configuration) : Overrides :=
  (c.flags.restrict (isCached c.platform)).spelled fun v => .text v.render

theorem readAll_cacheEntries {c : Configuration}
    (hfits : ∀ f v, c.flags.get? f = some v → f.kind.Fits v) (h : c.flags.IsTrimmed) :
    Overrides.readAll (cacheEntries c) = .ok (cached c) := by
  have hread : ∀ e ∈ c.flags.entries.filter fun e => isCached c.platform e.1,
      Overrides.readAssignment (cacheEntry e.1 e.2) = .ok (e.1.name, .text e.2.render) := by
    intro e he
    have hget := Assignment.mem_entries.mp (List.mem_filter.mp he).1
    exact readAssignment_cacheEntry (hfits _ _ hget) (h _ _ hget)
  rw [Overrides.readAll, cacheEntries, List.mapM_map, Function.comp_def,
    mapM_eq_ok_map hread, cached, Assignment.spelled, Assignment.entries_restrict]
  rfl

end CMake

theorem Assignment.Settled.readsBack_cached {a : Assignment} (h : a.Settled) (q : Flag → Bool) :
    (a.restrict q).ReadsBack fun v => .text v.render := by
  intro f v hv
  have hget : q f = true ∧ a.get? f = some v := by
    simpa [Assignment.restrict] using hv
  exact FlagKind.coerce?_render (h.stable f v hget.2)

namespace Configuration

/-- What is left of a configuration on its way through the cache: the symbols of the Makefile are
back at their defaults, and architectures are kept on macOS only. -/
def throughCache (c : Configuration) : Configuration where
  __ := c
  flags := ⟨fun
    | .withJPWL => Flag.withJPWL.default?
    | .withJP3D => Flag.withJP3D.default?
    | .cmakeOSXArchitectures =>
      if c.platform = .macOS then c.flags.get? .cmakeOSXArchitectures else none
    | f => c.flags.get? f⟩

variable {c : Configuration}

theorem get?_throughCache (c : Configuration) (f : Flag) : c.throughCache.flags.get? f =
    if CMake.isCached c.platform f then c.flags.get? f else f.default? := by
  cases f <;> simp [throughCache, CMake.isCached, Flag.default?]

theorem get?_throughCache_of_isCached {f : Flag} (h : CMake.isCached c.platform f = true) :
    c.throughCache.flags.get? f = c.flags.get? f := by
  rw [get?_throughCache, if_pos h]

theorem value?_cached (h : c.flags.Settled) (f : Flag) :
    (CMake.cached c).value? f = c.throughCache.flags.get? f := by
  rw [CMake.cached, (h.readsBack_cached _).value?, get?_throughCache]
  cases hcached : CMake.isCached c.platform f with
  | true => simpa [Assignment.restrict, hcached] using h.get?_or_default? f
  | false => simp [Assignment.restrict, hcached]

theorem sound_cached (h : c.flags.Settled) : (CMake.cached c).Sound :=
  (h.readsBack_cached _).sound

/-- Nothing of what is derived from the flags is lost. -/
theorem throughCache_ofFlags (p : Platform) (b : Backend) (a : Assignment) :
    (ofFlags p b a).throughCache = ofFlags p b (ofFlags p b a).throughCache.flags := rfl

/-- What CMake reads it is told, so nothing that it does changes. -/
theorem steps_throughCache (p : Platform) (a : Assignment) (targets : List Target)
    (options : RenderOptions) :
    (ofFlags p .cmake a).throughCache.steps targets options =
      (ofFlags p .cmake a).steps targets options := by
  rw [throughCache_ofFlags]
  apply steps_congr
  intro f hf
  exact get?_throughCache_of_isCached hf

end Configuration

variable {p : Platform} {o : Overrides} {r : Resolution}

/-- The entries of the call that configures CMake, taken as assignments, are granted again. The
configuration that they call for is the one they come from, but for what CMake is not told, and
its build has the same steps. -/
theorem cache_entries_read_back (h : resolve p .cmake o = .ok r)
    (htrimmed : r.config.flags.IsTrimmed) (targets : List Target) (options : RenderOptions) :
    ∃ steps assignments given r',
      r.config.render .cmake targets options = .ok steps ∧
      Step.commands .configure steps = [["cmake", "-G", CMake.generator p options] ++
        assignments.map ("-D" ++ ·) ++ [options.sourceDir.text]] ∧
      Overrides.readAll assignments = .ok given ∧
      resolve p .cmake given = .ok r' ∧ r'.config = r.config.throughCache ∧
      r'.config.render .cmake targets options = .ok steps := by
  have hr := config_realizes_of_resolve h
  have hlegal := legal_of_resolve h
  have hconfig := config_of_resolve h
  have hsettled : r.config.flags.Settled := hconfig ▸ hlegal.sound.settled
  have hvalue := Configuration.value?_cached hsettled
  have hjudged : ∀ f ∈ Flag.judged, (CMake.cached r.config).value? f = o.value? f := by
    intro f hf
    rw [hvalue, Configuration.get?_throughCache_of_isCached (CMake.isCached_of_judged _ f hf),
      hr.flags_eq]
    rfl
  obtain ⟨r', hr'⟩ :=
    (hlegal.of_agree (Configuration.sound_cached hsettled) hjudged).exists_resolve
  have hflags : (CMake.cached r.config).assignment = r.config.throughCache.flags :=
    Assignment.ext (funext hvalue)
  have hkept : r'.config = r.config.throughCache := by
    rw [config_of_resolve hr', hflags, hconfig, ← Configuration.throughCache_ofFlags]
  have hsteps : r.config.throughCache.steps targets options = r.config.steps targets options := by
    rw [hconfig]
    exact Configuration.steps_throughCache p o.assignment targets options
  refine ⟨r.config.steps targets options, CMake.cacheEntries r.config, CMake.cached r.config, r',
    if_pos hr.backend.symm, ?_, CMake.readAll_cacheEntries hr.fits htrimmed, hr', hkept, ?_⟩
  · rw [Configuration.steps, hr.backend, CMake.configure_commands, hr.platform]
    rfl
  · rw [hkept, Configuration.render, hsteps]
    exact if_pos hr.backend.symm

/-- Values with separators in them, an empty one, one that looks like an entry of its own, a symbol
of the Makefile, and options that look like entries too. -/
theorem awkward_entries_read_back :
    let o : Overrides := .ofList [("BUILD_TESTING", .text "yes"), ("CMAKE_BUILD_TYPE", .text "debug"),
      ("CMAKE_INSTALL_PREFIX", .text ""), ("CMAKE_OSX_ARCHITECTURES", .text "-DBUILD_DOC:BOOL=ON"),
      ("JPEG2000_CONFORMANCE_DATA_ROOT", .text "/data:a = b"), ("WITH_JPWL", .bool true)]
    let options : RenderOptions := {
      generator := some "-DBUILD_MJ2:BOOL=ON"
      sourceDir := ⟨"-DBUILD_JPWL:BOOL=ON"⟩ }
    ∃ r steps assignments given r', resolve .macOS .cmake o = .ok r ∧ r.config.flags.IsTrimmed ∧
      r.config.render .cmake [] options = .ok steps ∧
      Step.commands .configure steps = [["cmake", "-G", CMake.generator .macOS options] ++
        assignments.map ("-D" ++ ·) ++ [options.sourceDir.text]] ∧
      Overrides.readAll assignments = .ok given ∧
      resolve .macOS .cmake given = .ok r' ∧ r'.config = r.config.throughCache ∧
      r'.config.render .cmake [] options = .ok steps := by
  intro o options
  obtain ⟨r, hr⟩ : ∃ r, resolve .macOS .cmake o = .ok r := ⟨_, rfl⟩
  have htrimmed : r.config.flags.IsTrimmed := by
    rw [config_of_resolve hr]
    decide
  obtain ⟨steps, assignments, given, r', hread⟩ := cache_entries_read_back hr htrimmed [] options
  exact ⟨r, steps, assignments, given, r', hr, htrimmed, hread⟩

end CodecBuild
