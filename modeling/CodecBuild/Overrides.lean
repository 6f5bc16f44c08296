import CodecBuild.Flag.Value
import CodecBuild.Name.Map
import CodecBuild.Text.Blank

/-!
Overrides: raw values under flag names that nobody has checked yet. They are read one by one from texts of
the form `FLAG=VALUE`.
-/

namespace CodecBuild

abbrev Overrides := NameMap RawValue

inductive OverrideError where
  | noEqualsSign (text : String)
  | noName (text : String)
  deriving DecidableEq

namespace OverrideError

def message : OverrideError → String
  | noEqualsSign s => "invalid override `" ++ s ++ "`, expected FLAG=VALUE"
  | noName s => "invalid override `" ++ s ++ "`, missing flag name"

end OverrideError

namespace Overrides

/--
Reads `FLAG=VALUE` or `FLAG:TYPE=VALUE`. The first equals sign ends the name, the first colon in front of it
starts a type that is dropped, and blanks around name and value do not count.
-/
def readAssignment (s : String) : Except OverrideError (String × RawValue) :=
  match s.toList.dropWhile (· ≠ '=') with
  | [] => .error (.noEqualsSign s)
  | _ :: value =>
    let name := Text.trim ((s.toList.takeWhile (· ≠ '=')).takeWhile (· ≠ ':'))
    if name.isEmpty then .error (.noName s)
    else .ok (String.ofList name, .text (String.ofList (Text.trim value)))

/-- Reads a list of assignments; of two with the same name the later one counts. -/
def readAll (ss : List String) : Except OverrideError Overrides :=
  (ss.mapM readAssignment).map NameMap.ofList

end Overrides
end CodecBuild
