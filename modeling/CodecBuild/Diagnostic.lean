import CodecBuild.Text.Basic

/-!
Messages to the user: one line that says what is the matter, lines of context, and numbered suggestions.
Colour marks the severity and the word `help` and changes nothing else.
-/

namespace CodecBuild

inductive Severity where
  | error
  | warning
  | note
  deriving DecidableEq

namespace Severity

def label : Severity → String
  | error => "error"
  | warning => "warning"
  | note => "note"

/-- The colour number of a terminal: red, yellow, cyan. -/
def color : Severity → String
  | error => "31"
  | warning => "33"
  | note => "36"

end Severity

structure Diagnostic where
  severity : Severity
  message : String
  context : List String
  suggestions : List String
  deriving DecidableEq

namespace Diagnostic

def paint (colored : Bool) (color word : String) : String :=
  if colored then "\x1b[1;" ++ color ++ "m" ++ word ++ "\x1b[0m" else word

def numbered (n : Nat) : List String → List String
  | [] => []
  | s :: rest => ("  " ++ toString n ++ ". " ++ s) :: numbered (n + 1) rest

def helpLines (colored : Bool) : List String → List String
  | [] => []
  | suggestions => (paint colored "32" "help" ++ ": consider:") :: numbered 1 suggestions

def lines (d : Diagnostic) (colored : Bool) : List String :=
  (paint colored d.severity.color d.severity.label ++ ": " ++ d.message) ::
    (d.context.map ("  -> " ++ ·) ++ helpLines colored d.suggestions)

def format (d : Diagnostic) (colored : Bool) : String := Text.unlines (d.lines colored)

end Diagnostic
end CodecBuild
