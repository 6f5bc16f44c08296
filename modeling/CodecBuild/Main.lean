import CodecBuild.Command.Run

/-!
The program: looks up on the host what an invocation asks for, runs it, and prints the answer.
-/

namespace CodecBuild

/-- The text of the file at a path, or why it cannot be had. -/
def readText (path : String) : IO (Except Cause String) := do
  let here ← try IO.currentDir catch _ => pure "."
  try
    let bytes ← IO.FS.readBinFile (here / path)
    return (String.fromUTF8? bytes).elim (.error (.known "stream did not contain valid UTF-8")) .ok
  catch e => return .error (.known (toString e))

def fileState (path : String) : IO FileState := do
  if ← ((← IO.currentDir) / path).pathExists then return .ofText (← readText path) else return .absent

/-- The usual places of settings, and what is there. -/
def usualSettings : IO (Except Cause (List (String × FileState))) := do
  try
    let dirs := (← IO.getEnv "HOME").toList ++ [(← IO.currentDir).toString]
    let places := dirs.map fun dir => (Settings.pathIn ⟨dir⟩).text
    return .ok (← places.mapM fun path => return (path, ← fileState path))
  catch e => return .error (.known (toString e))

def toolExists (name : String) : IO Bool := do
  let here ← try IO.currentDir catch _ => pure "."
  let dirs := ((← IO.getEnv "PATH").getD "").splitOn ":"
  dirs.anyM fun (dir : String) => do
    let place := here / dir / name
    return (← place.pathExists) && !(← place.isDir)

/-- Looks at the files and tools that the invocation may need, and at no others. -/
def hostFor (i : Command.Invocation) : IO Host := do
  let settingsFiles ← if i.settings.isNone then usualSettings else pure (.ok [])
  let files ← i.files.mapM fun path => return (path, ← readText path)
  let tools ← ["doxygen", "mingw32-make"].filterM toolExists
  return { settingsFiles
           readText := fun path => (files.lookup path).getD (.error .unknown)
           hasTool := tools.contains
           colored := ← (← IO.getStderr).isTty
           formats := .builtin }

end CodecBuild

open CodecBuild Command in
def main (args : List String) : IO UInt32 := do
  match Invocation.ofArguments args with
  | .error .usage => IO.eprint usageText; return 1
  | .error .help => IO.print helpText; return 0
  | .error .version => IO.print versionText; return 0
  | .ok i =>
    let r := i.run (← hostFor i)
    for o in r.output do
      match o with
      | .text s => IO.print s
      | .completions shell => IO.print (completionText shell)
    IO.eprint r.messages
    return r.exit.toUInt32
