import CodecBuild.Configuration.Basic
import CodecBuild.Step.Basic
import CodecBuild.Target.Basic

/-!
The steps of a build with CMake. The generator decides which program runs the build.
-/

namespace CodecBuild.CMake

inductive BuildTool where
  | make (program : String)
  | nmake
  /-- CMake itself, for generators without a make program. -/
  | cmake
  deriving DecidableEq

namespace BuildTool

def ofGenerator (generator : String) : BuildTool :=
  if generator = "Unix Makefiles" then make "make"
  else if generator = "MinGW Makefiles" then make "mingw32-make"
  else if generator = "NMake Makefiles" then nmake
  else cmake

def program : BuildTool → List String
  | make program => [program]
  | nmake => ["nmake"]
  | cmake => ["cmake", "--build", "."]

/-- `nmake` runs one job at a time. -/
def jobs (tool : BuildTool) (n : Option Nat) : List String :=
  match tool with
  | make _ => makeJobs n
  | nmake => []
  | cmake => n.toList.flatMap fun n => ["--parallel", toString n]

def goal (tool : BuildTool) (name : String) : List String :=
  match tool with
  | make _ | nmake => tool.program ++ [name]
  | cmake => tool.program ++ ["--target", name]

end BuildTool

def defaultGenerator (p : Platform) (mingwMake : Bool) : String :=
  match p with
  | .winNative => if mingwMake then "MinGW Makefiles" else "NMake Makefiles"
  | .unix | .macOS | .winCygwin => "Unix Makefiles"

def generator (p : Platform) (o : RenderOptions) : String :=
  o.generator.getD (defaultGenerator p o.mingwMake)

/-- Symbols of the Makefile stay out of the cache, and so do architectures for other platforms than macOS. -/
def isCached (p : Platform) (f : Flag) : Bool :=
  f != .withJPWL && f != .withJP3D && (f != .cmakeOSXArchitectures || p == .macOS)

/-- A cache entry without the `-D` in front. -/
def cacheEntry (f : Flag) (v : FlagValue) : String :=
  f.name ++ ":" ++ f.kind.cacheType ++ "=" ++ v.render

def cacheEntries (c : Configuration) : List String :=
  (c.flags.entries.filter fun e => isCached c.platform e.1).map fun e => cacheEntry e.1 e.2

def configureCommand (c : Configuration) (generator : String) (sourceDir : Path) : List String :=
  ["cmake", "-G", generator] ++ (cacheEntries c).map ("-D" ++ ·) ++ [sourceDir.text]

def steps (c : Configuration) (targets : List Target) (o : RenderOptions) : List Step :=
  let generator := generator c.platform o
  let tool := BuildTool.ofGenerator generator
  [.plain .configure (configureCommand c generator o.sourceDir),
    .plain .build (tool.program ++ tool.jobs o.jobs)] ++
  (if hasKind targets .docs then [.plain .docsBuild (tool.goal "doc")] else []) ++
  (if hasKind targets .test then [.plain .test ["ctest", "--output-on-failure"]] else []) ++
  [.privileged .install (tool.goal "install") o.escalation, .plain .clean (tool.goal "clean")]

end CodecBuild.CMake
