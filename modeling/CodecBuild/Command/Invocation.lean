import CodecBuild.Backend
import CodecBuild.Command.Line
import CodecBuild.Path
import CodecBuild.Text.Basic

/-!
Invocations: what a command line asks for.
-/

namespace CodecBuild.Command

inductive Format where
  | text
  | json
  deriving DecidableEq

def Format.ofName? : String → Option Format
  | "text" => some .text
  | "json" => some .json
  | _ => none

/-- Where a configuration comes from: the options of the line, or a saved document. -/
structure Request where
  platform : Option Platform
  backend : Option Backend
  assignments : List String
  document : Option String
  deriving DecidableEq

/-- Whether there is a Doxygen: as the user says, or as the host shows. -/
inductive Doxygen where
  | present
  | missing
  | probed
  deriving DecidableEq

structure RenderChoices where
  jobs : Option Nat
  generator : Option String
  wrapper : Option String
  sourceDir : Path
  dryRun : Bool
  deriving DecidableEq

inductive Task where
  | resolve (request : Request) (format : Format)
  | plan (request : Request) (doxygen : Doxygen) (format : Format)
  | render (request : Request) (doxygen : Doxygen) (choices : RenderChoices) (format : Format)
  | flags (format : Format)
  | matrix (assignments : List String) (format : Format)
  | completions (shell : String)
  deriving DecidableEq

structure Invocation where
  verbose : Bool
  noColor : Bool
  settings : Option String
  task : Task
  deriving DecidableEq

def Task.request? : Task → Option Request
  | .resolve r _ | .plan r _ _ | .render r _ _ _ => some r
  | .flags _ | .matrix _ _ | .completions _ => none

def Invocation.files (i : Invocation) : List String :=
  i.settings.toList ++ (i.task.request?.bind Request.document).toList

/-! ### Options -/

def isPath (s : String) : Bool := !s.isEmpty

def switch (name : String) (letter : Option Char) : OptionSpec := ⟨name, letter, .switch⟩

def valued (name : String) (letter : Option Char) (accepts : String → Bool) : OptionSpec :=
  ⟨name, letter, .value accepts false⟩

def helpOption : OptionSpec := ⟨"help", some 'h', .stop .help⟩

def globalOptions : List OptionSpec :=
  [switch "verbose" (some 'v'), switch "no-color" none, valued "config" none isPath, helpOption]

def setOption : OptionSpec := ⟨"set", none, .value (fun _ => true) true⟩

def formatOption : OptionSpec := valued "format" none fun s => (Format.ofName? s).isSome

def requestOptions : List OptionSpec :=
  [valued "platform" none fun s => (Platform.parse? s).isSome,
    valued "backend" none fun s => (Backend.parse? s).isSome, setOption, valued "from" none isPath]

def doxygenOptions : List OptionSpec := [switch "doxygen" none, switch "no-doxygen" none]

def renderOptions : List OptionSpec :=
  [valued "jobs" (some 'j') fun s => (Text.positive? s).isSome,
    valued "generator" (some 'G') fun _ => true, valued "wrapper" none fun _ => true,
    valued "source-dir" none isPath, switch "dry-run" none]

def shells : List String := ["bash", "elvish", "fish", "powershell", "zsh"]

def tasks : List (String × List OptionSpec × Option (String → Bool)) :=
  [("resolve", formatOption :: requestOptions, none),
    ("plan", formatOption :: requestOptions ++ doxygenOptions, none),
    ("render", formatOption :: requestOptions ++ doxygenOptions ++ renderOptions, none),
    ("flags", [formatOption], none),
    ("matrix", [formatOption, setOption], none),
    ("completions", [], some shells.contains)]

def versionText : String := "jp2build 0.1.0\n"

def helpCommand : String := "help"

def topGrammar : Grammar :=
  ⟨globalOptions ++ [⟨"version", some 'V', .stop .version⟩], none, tasks.map Prod.fst ++ [helpCommand]⟩

/-! ### From options to invocations -/

namespace Given

def format (g : Given) : Format := ((g.value? "format").bind Format.ofName?).getD .text

/-- A saved document brings its platform with it. -/
def request (g : Given) : Except Stop Request :=
  if g.has "from" && g.has "platform" then .error .usage
  else .ok ⟨(g.value? "platform").bind Platform.parse?, (g.value? "backend").bind Backend.parse?,
    g.values "set", g.value? "from"⟩

def doxygen (g : Given) : Except Stop Doxygen :=
  match g.has "doxygen", g.has "no-doxygen" with
  | true, true => .error .usage
  | true, false => .ok .present
  | false, true => .ok .missing
  | false, false => .ok .probed

def renderChoices (g : Given) : RenderChoices where
  jobs := (g.value? "jobs").bind Text.positive?
  generator := g.value? "generator"
  wrapper := g.value? "wrapper"
  sourceDir := ⟨(g.value? "source-dir").getD "."⟩
  dryRun := g.has "dry-run"

def task (g : Given) (command : String) : Except Stop Task :=
  match command with
  | "resolve" => return .resolve (← g.request) g.format
  | "plan" => return .plan (← g.request) (← g.doxygen) g.format
  | "render" => return .render (← g.request) (← g.doxygen) g.renderChoices g.format
  | "flags" => return .flags g.format
  | "matrix" => return .matrix (g.values "set") g.format
  | "completions" => (g.value? operandName).elim (.error .usage) fun shell => .ok (.completions shell)
  | _ => .error .usage

end Given

def readGiven (s : Grammar) (args : List String) : Except Stop Given := do
  let (p, _) ← Progress.start.arguments s args
  return ⟨(← p.close).settled⟩

/-- Help can be had on any command, itself included. -/
def helpOn (args : List String) : Stop :=
  match args with
  | [] => .help
  | [command] => if topGrammar.commands.contains command then .help else .usage
  | _ => .usage

/-- The options for all commands may stand in front of the command or behind it, where they weigh more. -/
def Invocation.ofArguments (args : List String) : Except Stop Invocation := do
  match ← Progress.start.arguments topGrammar args with
  | (_, none) => .error .usage
  | (before, some (command, rest)) =>
    if command == helpCommand then .error (helpOn rest)
    else
      match tasks.find? (·.1 == command) with
      | none => .error .usage
      | some (_, options, operand) =>
        let inner ← readGiven ⟨globalOptions ++ options, operand, []⟩ rest
        let task ← inner.task command
        let outer : Given := ⟨(← before.close).settled⟩
        return ⟨outer.has "verbose" || inner.has "verbose", outer.has "no-color" || inner.has "no-color",
          (inner.value? "config").or (outer.value? "config"), task⟩

end CodecBuild.Command
