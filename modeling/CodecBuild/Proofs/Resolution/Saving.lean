import CodecBuild.Proofs.Json.RoundTrip
import CodecBuild.Proofs.Resolution.Reconfiguration

/-!
Saving a configuration and reading it back. The text spells out every flag and what was derived
from the flags, but not the kinds of the values; only the platform, the backend and the flags
are read, as raw values, and their kinds come from the catalog when the document is resolved.
-/

namespace CodecBuild

namespace Configuration

theorem plain_valueJson (v : FlagValue) : (valueJson v).Plain := by
  cases v with
  | bool b => exact .bool b
  | path p => exact .str p.text
  | choice s | text s => exact .str s

theorem plain_flagsJson (a : Assignment) : (flagsJson a).Plain := by
  refine .obj ?_ ?_
  · intro m hm
    obtain ⟨e, -, rfl⟩ := List.mem_map.mp hm
    rfl
  · intro m hm
    obtain ⟨e, -, rfl⟩ := List.mem_map.mp hm
    exact plain_valueJson e.2

theorem plain_toJson (c : Configuration) : c.toJson.Plain := by
  have hprefix : (c.installPrefix?.elim Json.null fun p => p.text).Plain := by
    cases c.installPrefix? with
    | none => exact .null
    | some p => exact .str p.text
  refine .obj (by simp) ?_
  simp only [List.forall_mem_cons]
  exact ⟨.str _, .str _, plain_flagsJson c.flags, hprefix, .str _, by simp⟩

end Configuration

namespace Document

theorem rawValue?_valueJson (v : FlagValue) :
    rawValue? (Configuration.valueJson v) = some v.toRaw := by
  cases v <;> rfl

theorem overrides?_flagsJson (a : Assignment) :
    overrides? (Configuration.flagsJson a) = some (Configuration.rawValues a) := by
  have hmembers :
      Json.members? (a.entries.map fun e => (some e.1.name, Configuration.valueJson e.2)) =
      some (a.entries.map fun e => (e.1.name, Configuration.valueJson e.2)) := by
    rw [Json.members?, List.mapM_map]
    exact List.mapM_pure
  have hentries : (a.entries.map fun e => (e.1.name, Configuration.valueJson e.2)).mapM
      (fun m => (rawValue? m.2).map (m.1, ·)) =
      some (a.entries.map fun e => (e.1.name, e.2.toRaw)) := by
    rw [List.mapM_map]
    simp only [Function.comp_def, rawValue?_valueJson, Option.map_some]
    exact List.mapM_pure
  simp only [overrides?, Configuration.flagsJson, hmembers, hentries, Option.bind_eq_bind,
    Option.bind_some]
  rfl

theorem ofJson?_toJson (c : Configuration) :
    ofJson? c.toJson = some ⟨c.platform, c.backend, Configuration.rawValues c.flags⟩ := by
  have hfields : Json.fields? ["platform", "backend", "flag_set"] c.toJson =
      some [some (c.platform.name : Json), some (c.backend.name : Json),
        some (Configuration.flagsJson c.flags)] := rfl
  simp only [ofJson?, hfields, Json.caseName?, Option.bind_eq_bind, Option.bind_some,
    Platform.ofName?_name, Backend.ofName?_name, Option.elim, overrides?_flagsJson]
  rfl

theorem read?_compact_toJson (c : Configuration) :
    read? c.toJson.compact = some ⟨c.platform, c.backend, Configuration.rawValues c.flags⟩ := by
  rw [read?, Json.read?_compact c.plain_toJson]
  exact ofJson?_toJson c

theorem read?_pretty_toJson (c : Configuration) :
    read? c.toJson.pretty = some ⟨c.platform, c.backend, Configuration.rawValues c.flags⟩ := by
  rw [read?, Json.read?_pretty c.plain_toJson]
  exact ofJson?_toJson c

end Document

theorem resolve_rawValues_of_resolve {p : Platform} {b : Backend} {o : Overrides} {r : Resolution}
    (h : resolve p b o = .ok r) : resolve p b (Configuration.rawValues r.config.flags) = .ok r := by
  have hsound := (resolve_eq_ok_iff.mp h).1
  have hflags : r.config.flags = o.assignment := (config_realizes_of_resolve h).flags_eq
  obtain ⟨hraw, hvalue⟩ := Configuration.rawValues_settled hsound.settled
  rw [← h, hflags]
  refine resolve_congr p b ?_ hvalue
  intro n
  rw [hraw n, hsound n]

/-- A saved configuration is read back with all its flags, and resolves to itself. -/
theorem saved_config_reads_back {p : Platform} {b : Backend} {o : Overrides} {r : Resolution}
    (h : resolve p b o = .ok r) :
    ∃ d, Document.read? r.config.toJson.compact = some d ∧
      Document.read? r.config.toJson.pretty = some d ∧
      d.platform = r.config.platform ∧ d.backend = r.config.backend ∧
      (∀ n raw, d.flags.get? n = some raw ↔
        ∃ f v, f.name = n ∧ r.config.flags.get? f = some v ∧ v.toRaw = raw) ∧
      d.resolve = .ok r := by
  have hr := config_realizes_of_resolve h
  refine ⟨⟨r.config.platform, r.config.backend, Configuration.rawValues r.config.flags⟩,
    Document.read?_compact_toJson r.config, Document.read?_pretty_toJson r.config, rfl, rfl, ?_, ?_⟩
  · intro n raw
    simp only [Configuration.get?_rawValues, Option.bind_eq_some_iff, Option.map_eq_some_iff,
      Flag.ofName?_eq_some_iff, exists_and_left]
  · rw [Document.resolve, hr.platform, hr.backend]
    exact resolve_rawValues_of_resolve h

/-- A prefix with quotes, a backslash, control characters and letters beyond ASCII, and an empty
text. -/
theorem awkward_texts_read_back :
    let o : Overrides := .ofList [
      ("CMAKE_INSTALL_PREFIX", .text "/opt/\"j2k\"\\\x01\t\u00e9\u4e2d"),
      ("CMAKE_OSX_ARCHITECTURES", .text "")]
    ∃ r d, resolve .macOS .cmake o = .ok r ∧ Document.read? r.config.toJson.compact = some d ∧
      Document.read? r.config.toJson.pretty = some d ∧
      d.flags.get? "CMAKE_INSTALL_PREFIX" = o.get? "CMAKE_INSTALL_PREFIX" ∧
      d.flags.get? "CMAKE_OSX_ARCHITECTURES" = o.get? "CMAKE_OSX_ARCHITECTURES" ∧
      d.resolve = .ok r := by
  intro o
  obtain ⟨r, hr⟩ : ∃ r, resolve .macOS .cmake o = .ok r := ⟨_, rfl⟩
  have hoverridden := (config_realizes_of_resolve hr).overridden
  obtain ⟨v, hv, hprefix⟩ := hoverridden .cmakeInstallPrefix _ rfl
  obtain ⟨w, hw, harchitectures⟩ := hoverridden .cmakeOSXArchitectures _ rfl
  obtain ⟨d, hcompact, hpretty, -, -, hflags, hd⟩ := saved_config_reads_back hr
  cases hv
  cases hw
  exact ⟨r, d, hr, hcompact, hpretty, (hflags _ _).mpr ⟨_, _, rfl, hprefix, rfl⟩,
    (hflags _ _).mpr ⟨_, _, rfl, harchitectures, rfl⟩, hd⟩

end CodecBuild
