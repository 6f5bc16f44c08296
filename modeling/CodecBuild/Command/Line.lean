/-!
Command lines. A command has options, perhaps an operand, and perhaps commands of its own. Long options are
written out in full, short ones may be run together, and a value is either attached or the next argument.
Nothing that starts with a dash is taken for a value in the next argument.
-/

namespace CodecBuild.Command

/-- Why the reading of a command line ends early. -/
inductive Stop where
  | usage
  | help
  | version
  deriving DecidableEq

inductive Effect where
  | switch
  /-- Takes a value of some form, once or any number of times. -/
  | value (accepts : String → Bool) (repeats : Bool)
  | stop (s : Stop)

structure OptionSpec where
  name : String
  letter : Option Char
  effect : Effect

structure Grammar where
  options : List OptionSpec
  operand : Option (String → Bool)
  commands : List String

/-- The name under which an operand is filed. -/
def operandName : String := ""

/-- What has been read: the settled options with their values, and one that is still open. -/
structure Progress where
  settled : List (String × String)
  /-- An option or operand whose value is missing or has not been looked at. -/
  pending : Option (OptionSpec × Option String)
  /-- After a double dash nothing is an option any more. -/
  onlyOperands : Bool
  operandSeen : Bool

namespace Progress

def start : Progress := ⟨[], none, false, false⟩

/-- Settles an option. A value has the right form, and only some options are given twice. -/
def settle (p : Progress) (o : OptionSpec) (v : String) : Except Stop Progress :=
  let again := p.settled.any (·.1 == o.name)
  match o.effect with
  | .stop s => .error s
  | .switch => if again then .error .usage else .ok { p with settled := p.settled ++ [(o.name, v)] }
  | .value accepts repeats =>
    if (again && !repeats) || !accepts v then .error .usage
    else .ok { p with settled := p.settled ++ [(o.name, v)] }

/-- Settles what is open, before anything new is read. -/
def close (p : Progress) : Except Stop Progress :=
  match p.pending with
  | none => .ok p
  | some (_, none) => .error .usage
  | some (o, some v) => { p with pending := none }.settle o v

def isWaiting (p : Progress) : Bool :=
  match p.pending with
  | some (_, none) => true
  | _ => false

/-- Reads an option with the value attached to it, if any. -/
def option (p : Progress) (o : OptionSpec) (attached : Option String) : Except Stop Progress := do
  let p ← p.close
  match o.effect, attached with
  | .value _ _, none => return { p with pending := some (o, none) }
  | .value _ _, some v => p.settle o v
  | _, none => p.settle o ""
  | _, some _ => .error .usage

/-- Reads short options that are run together; the first that takes a value takes the rest. -/
def letters (p : Progress) (s : Grammar) : List Char → Except Stop Progress
  | [] => .ok p
  | c :: rest =>
    match s.options.find? (·.letter == some c) with
    | none => .error .usage
    | some o =>
      match o.effect, rest with
      | .value _ _, [] => p.option o none
      | .value _ _, '=' :: v => p.option o (some (String.ofList v))
      | .value _ _, v => p.option o (some (String.ofList v))
      | _, rest => do letters (← p.option o none) s rest

def long (p : Progress) (s : Grammar) (body : List Char) : Except Stop Progress :=
  let name := String.ofList (body.takeWhile (· ≠ '='))
  match s.options.find? (·.name == name), body.dropWhile (· ≠ '=') with
  | none, _ => .error .usage
  | some o, [] => p.option o none
  | some o, _ :: v => p.option o (some (String.ofList v))

def operand (p : Progress) (s : Grammar) (arg : String) : Except Stop Progress := do
  match s.operand with
  | some accepts =>
    if p.operandSeen then .error .usage
    else
      let p ← p.close
      return { p with
        pending := some (⟨operandName, none, .value accepts false⟩, some arg), operandSeen := true }
  | none => .error .usage

def argument (p : Progress) (s : Grammar) (arg : String) : Except Stop Progress :=
  if p.onlyOperands then p.operand s arg
  else
    match arg.toList with
    | ['-', '-'] => .ok { p with onlyOperands := true }
    | '-' :: '-' :: body => p.long s body
    | '-' :: c :: body => p.letters s (c :: body)
    | _ =>
      match p.pending with
      | some (o, none) => .ok { p with pending := some (o, some arg) }
      | _ => p.operand s arg

/-- Reads arguments up to a command, which is handed back with what follows it. -/
def arguments (p : Progress) (s : Grammar) : List String →
    Except Stop (Progress × Option (String × List String))
  | [] => .ok (p, none)
  | arg :: rest =>
    if !p.onlyOperands && !p.isWaiting && s.commands.contains arg then .ok (p, some (arg, rest))
    else do arguments (← p.argument s arg) s rest

end Progress

/-- The options of a command with their values, in the order given. -/
structure Given where
  settled : List (String × String)

namespace Given

def has (g : Given) (name : String) : Bool := g.settled.any (·.1 == name)

def values (g : Given) (name : String) : List String :=
  (g.settled.filter (·.1 == name)).map Prod.snd

def value? (g : Given) (name : String) : Option String := (g.values name).head?

end Given

end CodecBuild.Command
