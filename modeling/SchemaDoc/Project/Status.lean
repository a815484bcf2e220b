import SchemaDoc.Project.Layout

/-!
A project on disk: how it is set up and what can be said about it.
-/

namespace SchemaDoc

/-- Why a project cannot be set up. -/
inductive ProjectError where
  | alreadyExists (root : String)
  | inaccessible (path : String)
  deriving DecidableEq, Repr

def ProjectError.message : ProjectError → String
  | alreadyExists root => "Project already initialized at: " ++ root
  | inaccessible path => "Cannot access " ++ path

structure ProjectInfo where
  name : String
  root : String
  settingsPath : String
  deriving DecidableEq, Repr

structure ProjectStatus where
  project : Option ProjectInfo
  sourceRoot : String
  documentCount : Nat
  deriving DecidableEq, Repr

namespace Project

/-- The name of a project that was given none. -/
def defaultName (root : String) : String := (Path.fileName? root).getD "unnamed"

/-- A project is set up once it has a settings file. -/
def isInitialized (files : FileTree) (root : String) : Bool :=
  files.contains (projectSettingsPath root)

def info (root name : String) : ProjectInfo :=
  { name, root, settingsPath := projectSettingsPath root }

/-- Set up a project with a settings file that names it. -/
def init (files : FileTree) (root : String) (name : Option String) (force : Bool) :
    Except ProjectError (ProjectInfo × FileTree) :=
  if files.contains (projectDirectory root) && !force then .error (.alreadyExists root)
  else
    let name := name.getD (defaultName root)
    let settings : Settings := { project := { name := some name } }
    match files.write? (projectSettingsPath root) settings.toToml.toUTF8 with
    | some written => .ok (info root name, written)
    | none => .error (.inaccessible (projectSettingsPath root))

def status (files : FileTree) (root : String) (settings : Settings) : ProjectStatus :=
  let layout := Layout.ofSettings root settings.project
  { project :=
      if isInitialized files root then
        some (info root (settings.project.name.getD (defaultName root)))
      else none
    sourceRoot := layout.sourceRoot
    documentCount := (layout.discover files).length }

end Project

end SchemaDoc
