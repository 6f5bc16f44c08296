import CodecBuild.Step.CMake

/-!
The steps that carry out a configuration, for whichever backend it was resolved for.
-/

namespace CodecBuild

/-! ### With a configure script -/

namespace Autotools

def features : List (Flag × String) :=
  [(.buildJPWL, "--enable-jpwl"), (.buildMJ2, "--enable-mj2"), (.buildJP3D, "--enable-jp3d")]

def linkSwitches : LinkMode → List String
  | .shared => ["--enable-shared", "--disable-static"]
  | .static => ["--disable-shared", "--enable-static"]

def configureCommand (c : Configuration) (docs : Bool) : List String :=
  "./configure" :: (c.installPrefix?.toList.map (fun p => "--prefix=" ++ p.text) ++
    linkSwitches c.linkMode ++ (features.filter fun e => c.isOn e.1).map Prod.snd ++
    if docs then ["--enable-doc"] else [])

def steps (c : Configuration) (targets : List Target) (make : String) (o : RenderOptions) : List Step :=
  let docs := hasKind targets .docs
  [.plain .configure ["./bootstrap.sh"], .plain .configure (configureCommand c docs),
    .plain .build (make :: makeJobs o.jobs)] ++
  (if docs then [.plain .docsBuild [make, "doc"]] else []) ++
  [.privileged .install [make, "install"] o.escalation, .plain .clean [make, "clean"],
    .plain .distClean [make, "distclean"]]

end Autotools

/-! ### With the top-level Makefile, whose symbols are written into a header by hand -/

namespace Makefile

def subdirectories : List (Flag × String) := [(.withJPWL, "jpwl"), (.withJP3D, "jp3d")]

def symbol (c : Configuration) (f : Flag) : String :=
  f.name ++ (if c.isOn f then "=yes" else "=no")

def steps (c : Configuration) (targets : List Target) (make : String) (o : RenderOptions) : List Step :=
  [.plain .configure (["edit", "opj_config.h"] ++ subdirectories.map fun e => symbol c e.1),
    .plain .build (make :: makeJobs o.jobs)] ++
  (subdirectories.filter fun e => c.isOn e.1).map
    (fun e => .plain .build ([make, "-C", e.2] ++ makeJobs o.jobs)) ++
  (if hasKind targets .docs then [.plain .docsBuild ["doxygen", "doc/Doxyfile.dox"]] else []) ++
  [.privileged .install
      ([make, "install"] ++ c.installPrefix?.toList.map fun p => "prefix=" ++ p.text) o.escalation,
    .plain .clean [make, "clean"], .privileged .uninstall [make, "uninstall"] o.escalation]

end Makefile

/-! ### With the backend of a configuration -/

/-- Steps were asked for with a backend other than the one of the configuration. -/
structure BackendMismatch where
  requested : Backend
  configured : Backend
  deriving DecidableEq

def BackendMismatch.message (e : BackendMismatch) : String :=
  "configuration was resolved for `" ++ e.configured.name ++ "`, cannot render it for `" ++
    e.requested.name ++ "`"

def makeProgram (p : Platform) (o : RenderOptions) : String :=
  if p = .winNative ∧ o.mingwMake then "mingw32-make" else "make"

namespace Configuration

def steps (c : Configuration) (targets : List Target) (o : RenderOptions) : List Step :=
  match c.backend with
  | .autotools => Autotools.steps c targets (makeProgram c.platform o) o
  | .cmake => CMake.steps c targets o
  | .manual => Makefile.steps c targets (makeProgram c.platform o) o

def render (c : Configuration) (requested : Backend) (targets : List Target) (o : RenderOptions) :
    Except BackendMismatch (List Step) :=
  if requested = c.backend then .ok (c.steps targets o) else .error ⟨requested, c.backend⟩

theorem render_backend (c : Configuration) (targets : List Target) (o : RenderOptions) :
    c.render c.backend targets o = .ok (c.steps targets o) :=
  if_pos rfl

end Configuration
end CodecBuild
