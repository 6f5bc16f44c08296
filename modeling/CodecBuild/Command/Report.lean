import CodecBuild.Command.Invocation
import CodecBuild.Configuration.Matrix
import CodecBuild.Plan
import CodecBuild.Step.Basic
import CodecBuild.Text.Basic

/-!
What the program prints for people to read: the reports of the commands, what it says about its own use, and
the scripts that let shells complete its commands; also the rows of the flag list as a document.
-/

namespace CodecBuild.Report

open Text

/-- Numbers from one, in a column of three. -/
def numbered (lines : List String) : List String :=
  (lines.zipIdx 1).map fun (line, n) => padLeft 3 (toString n) ++ ". " ++ line

def configuration (c : Configuration) : List String :=
  ["platform:       " ++ c.platform.name, "backend:        " ++ c.backend.name,
    "link mode:      " ++ c.linkMode.name,
    "install prefix: " ++ c.installPrefix?.elim "(backend default)" Path.text, "flags:"] ++
  c.flags.entries.map fun (f, v) =>
    "  " ++ padRight 24 f.name ++ " = " ++ v.render ++ if c.flags.isChanged f then "  (set)" else ""

def target (t : Target) : String :=
  t.name ++ " (" ++ t.kind.name ++ ")" ++
    if t.dependsOn.isEmpty then "" else " <- " ++ String.intercalate ", " t.dependsOn.names

def plan (p : Plan) : List String := numbered (p.targets.map target)

def step (s : Step) : String :=
  "[" ++ s.kind.name ++ "] " ++ s.displayCommand ++
    if s.requiresElevation then "  (requires elevation)" else ""

def steps (ss : List Step) : List String := numbered (ss.map step)

def flag (f : Flag) : List String :=
  (padRight 24 f.name ++ " " ++ padRight 8 f.kind.name ++ " " ++
    padRight 12 (f.default?.elim "-" FlagValue.render) ++ " " ++ f.description) ::
  if f.kind.spellings.isEmpty then []
  else [padRight 24 "" ++ " one of: " ++ String.intercalate ", " f.kind.spellings]

def flags : List String := Flag.all.flatMap flag

def flagJson (f : Flag) : Json :=
  .record [("name", some f.name), ("kind", some f.kind.name),
    ("default", f.default?.map fun v => v.render),
    ("allowed", if f.kind.spellings.isEmpty then none else some (.texts f.kind.spellings)),
    ("description", some f.description)]

def matrixEntry (e : Matrix.Entry) : String :=
  padRight 11 e.platform.name ++ " " ++ padRight 10 e.backend.name ++ " " ++ padRight 9 e.status ++ " " ++
    e.error?.getD (String.intercalate "; " e.advisoryMessages)

end CodecBuild.Report

namespace CodecBuild.Command

def optionText (o : OptionSpec) : String :=
  (o.letter.elim "    " fun c => "-" ++ String.ofList [c] ++ ", ") ++ "--" ++ o.name ++
    match o.effect with
    | .value _ _ => " <VALUE>"
    | .switch | .stop _ => ""

def taskText (t : String × List OptionSpec × Option (String → Bool)) : List String :=
  (t.1 ++ (t.2.2.elim "" fun _ => " <SHELL>")) :: t.2.1.map fun o => "      " ++ optionText o

def helpText : String :=
  Text.unlines <|
    ["jp2build - decide how the OpenJPEG codec project should be built", "",
      "Usage: jp2build [OPTIONS] <COMMAND>", "", "Commands:"] ++
    (tasks.flatMap taskText).map ("  " ++ ·) ++ ["  help [COMMAND]", "", "Options:"] ++
    topGrammar.options.map fun o => "  " ++ optionText o

def usageText : String := "error: invalid command line\n\n" ++ helpText

/-- A line that makes a shell complete the names of the commands. -/
def completionText (shell : String) : String :=
  let words := String.intercalate " " topGrammar.commands
  match shell with
  | "bash" => "complete -W \"" ++ words ++ "\" jp2build\n"
  | "zsh" => "compctl -k \"(" ++ words ++ ")\" jp2build\n"
  | "fish" => "complete -c jp2build -f -a \"" ++ words ++ "\"\n"
  | "elvish" => "set edit:completion:arg-completer[jp2build] = \x7b|@args| put " ++ words ++ " \x7d\n"
  | _ =>
    "Register-ArgumentCompleter -Native -CommandName jp2build -ScriptBlock \x7b -split \"" ++ words ++
      "\" \x7d\n"

end CodecBuild.Command
