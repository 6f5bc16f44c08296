import CodecBuild.Path
import CodecBuild.Settings.Document

/-!
The host as the commands see it: files, tools, where settings are kept, and the formats that the program
leaves to others.
-/

namespace CodecBuild

inductive FileState where
  | absent
  /-- Something is there that holds no text: a directory, or bytes that are not UTF-8. -/
  | unreadable (cause : Cause)
  | text (s : String)
  deriving DecidableEq

namespace FileState

/-- The state of a file that is there. -/
def ofText : Except Cause String → FileState
  | .ok s => text s
  | .error cause => unreadable cause

/-- What comes of reading the file, where `missing` is said of one that is not there. -/
def read (missing : Cause) : FileState → Except Cause String
  | absent => .error missing
  | unreadable cause => .error cause
  | text s => .ok s

end FileState

/-- How texts are read and written in the formats that the program leaves to others. -/
structure Formats where
  /-- The settings that a text holds, or why it holds none. -/
  settings : String → Except Cause Settings
  /-- What there is to say of a text that is not a saved document. -/
  documentCause : String → Cause
  /-- How the log writes a message. -/
  logged : String → String

/-- Readers that do not tell why they refuse a text, and a log that spells out what a terminal would obey. -/
def Formats.builtin : Formats where
  settings text := (Settings.read? text).elim (.error .unknown) .ok
  documentCause _ := .unknown
  logged := Text.harmless

structure Host where
  /-- The usual places of settings with what is there, the user's before the project's. The latter is found
  from the working directory, and without one neither is looked at. -/
  settingsFiles : Except Cause (List (String × FileState))
  /-- The text of the file at a path, or why none can be read there. -/
  readText : String → Except Cause String
  hasTool : String → Bool
  colored : Bool
  formats : Formats

/-- A host without settings, files and tools. -/
def Host.bare : Host where
  settingsFiles := .ok []
  readText _ := .error .unknown
  hasTool _ := false
  colored := false
  formats := .builtin

namespace Settings

def pathIn (dir : Path) : Path := (dir.join ".jp2build").join "config.toml"

section

variable (read : String → Except Cause Settings)

/-- The settings in a file that has to be there. -/
def ofFile (path : String) : Except Cause String → Except SettingsError Settings
  | .error cause => .error (.unreadable path cause)
  | .ok s => (read s).mapError (.malformed path)

/-- The settings in a file that need not be there. -/
def ofOptionalFile (path : String) : FileState → Except SettingsError Settings
  | .absent => .ok .empty
  | .unreadable cause => ofFile read path (.error cause)
  | .text s => ofFile read path (.ok s)

/-- Lays files over each other, the last one uppermost. -/
def ofLayers (layers : List (String × FileState)) : Except SettingsError Settings :=
  layers.foldlM (fun lower layer => (ofOptionalFile read layer.1 layer.2).map lower.merge) .empty

end

variable {read : String → Except Cause Settings} {path : String}

theorem ofFile_ok_eq_ok_iff {text : String} {s : Settings} :
    ofFile read path (.ok text) = .ok s ↔ read text = .ok s := by
  rw [ofFile]
  cases read text with
  | error cause => exact ⟨nofun, nofun⟩
  | ok settings =>
    constructor
    · rintro ⟨⟩
      rfl
    · rintro ⟨⟩
      rfl

theorem exists_of_ofFile {text? : Except Cause String} {s : Settings}
    (h : ofFile read path text? = .ok s) : ∃ text, text? = .ok text ∧ read text = .ok s := by
  cases text? with
  | error cause => cases h
  | ok text => exact ⟨text, rfl, ofFile_ok_eq_ok_iff.mp h⟩

end Settings

/-- The settings of a file that was asked for, or else those of the usual places. -/
def Host.settings (h : Host) : Option String → Except SettingsError Settings
  | some path => Settings.ofFile h.formats.settings path (h.readText path)
  | none =>
    match h.settingsFiles with
    | .error cause => .error (.noWorkDir cause)
    | .ok places => Settings.ofLayers h.formats.settings places

/-! ### Directory trees held as data -/

structure FileTree where
  dirs : List (List String)
  files : List (List String × FileState)

namespace FileTree

/-- A directory is one that is listed, or one with something in it. -/
def isDir (t : FileTree) (place : List String) : Bool :=
  t.dirs.any place.isPrefixOf || t.files.any fun f => place.isPrefixOf f.1 && place != f.1

def state (t : FileTree) (place : List String) : FileState :=
  match t.files.find? (·.1 == place) with
  | some f => f.2
  | none => if t.isDir place then .unreadable .unknown else .absent

/-- Follows the parts of a path. Every part but the last has to lead to a directory. -/
def walk (t : FileTree) (place : List String) : List String → Option (List String)
  | [] => some place
  | part :: rest =>
    if !t.isDir place then none
    else if part = "" ∨ part = "." then walk t place rest
    else if part = ".." then if place.isEmpty then none else walk t place.dropLast rest
    else walk t (place ++ [part]) rest

/-- The text of the file that a relative path leads to; an absolute one leads out of the tree. -/
def readText (t : FileTree) (workDir : List String) (path : String) : Except Cause String :=
  if path.isEmpty || (Path.mk path).isAbsolute then .error .unknown
  else
    match t.walk workDir ((path.toList.splitOn '/').map String.ofList) with
    | some place => (t.state place).read .unknown
    | none => .error .unknown

end FileTree
end CodecBuild
