import SchemaDoc.Project.Status
import SchemaDoc.Workspace.Load

/-!
One run of the program in a directory: the files it finds, the settings that hold, and the workspace
made of them.
-/

namespace SchemaDoc

structure Session where
  /-- The directory of the run, which is the root of the project. -/
  root : String
  environment : Environment
  files : FileTree
  settings : Settings
  limits : Limits

namespace Session

/-- Settings that cannot be loaded are replaced by the built-in ones. -/
def start (root : String) (environment : Environment) (files : FileTree) : Session :=
  let settings := match Settings.load files (.of root environment) environment with
    | .ok settings => settings
    | .error _ => {}
  { root, environment, files, settings, limits := settings.limits }

def places (session : Session) : SettingsPlaces := .of session.root session.environment

def layout (session : Session) : Layout := .ofSettings session.root session.settings.project

/-- Whether the root has the directory of a project. -/
def isInitialized (session : Session) : Bool :=
  session.files.contains (projectDirectory session.root)

def setup (session : Session) (trailing : TrailingPolicy) : Setup :=
  { registries := session.settings.registries, trailing
    limits := session.limits, files := session.files }

/-- A workspace in which every module is registered and read ahead. -/
def workspace (session : Session) (trailing : TrailingPolicy) : Workspace :=
  let (_, registered) := ({} : Workspace).registerLayout session.layout session.files
  (registered.preload (session.setup trailing)).2

end Session

end SchemaDoc
