import SchemaDoc.Project.Settings
import SchemaDoc.Storage.FileTree

/-!
Where settings come from. The global file is laid under the project's file, and variables of the
environment are laid over both. A file that does not exist counts as one with the built-in settings.
-/

namespace SchemaDoc

/-- The variables of the environment. -/
abbrev Environment := String → Option String

/-- The variables that settings depend on. -/
def environmentNames : List String :=
  ["XDG_CONFIG_HOME", "HOME", "SCHEMATA_OUTPUT_PRETTY", "SCHEMATA_DEFAULT_NAMESPACE",
    "SCHEMATA_MAX_PATH_DEPTH", "SCHEMATA_MAX_LOAD_DEPTH"]

/-- Where the settings of a project are kept. -/
structure SettingsPlaces where
  /-- The directory that relative paths start from. -/
  directory : String
  globalPath : String
  projectPath : String
  deriving DecidableEq, Repr

/-- The directory of a project that holds its settings. -/
def projectDirectory (root : String) : String := Path.join root ".schemata"

def settingsFileName : String := "config.toml"

def projectSettingsPath (root : String) : String :=
  Path.join (projectDirectory root) settingsFileName

/-- The global file below the directory for configurations: the one that the environment names, or
else the usual one in the home directory. -/
def globalSettingsPath (environment : Environment) : String :=
  let base := match environment "XDG_CONFIG_HOME" with
    | some directory => directory
    | none =>
      match environment "HOME" with
      | some home => Path.join home ".config"
      | none => "."
  Path.join (Path.join base "schemata") settingsFileName

def SettingsPlaces.of (root : String) (environment : Environment) : SettingsPlaces :=
  { directory := root, globalPath := globalSettingsPath environment,
    projectPath := projectSettingsPath root }

def SettingsPlaces.path (places : SettingsPlaces) (isGlobal : Bool) : String :=
  if isGlobal then places.globalPath else places.projectPath

/-- The absolute path of one of the files. -/
def SettingsPlaces.locate (places : SettingsPlaces) (isGlobal : Bool) : String :=
  Path.join places.directory (places.path isGlobal)

def SettingsPlaces.isPresent (places : SettingsPlaces) (files : FileTree) (isGlobal : Bool) :
    Bool :=
  files.contains (places.locate isGlobal)

namespace Settings

/-- The settings in one of the files, as `reader` reads its text. -/
def readWith (reader : String → Option Settings) (files : FileTree) (places : SettingsPlaces)
    (isGlobal : Bool) : Except SettingsError Settings :=
  let path := places.path isGlobal
  if places.isPresent files isGlobal then
    match files.text? (places.locate isGlobal) with
    | none => .error (.inaccessible path)
    | some text =>
      match reader text with
      | none => .error (.malformed path)
      | some settings => .ok settings
  else .ok {}

/-- Items in order, with those of the second list that the first one lacks behind it. -/
def mergeKnown (known more : List String) : List String :=
  more.foldl (fun known name => if known.contains name then known else known ++ [name]) known

/-- Lay settings over others. The name of the project is kept where the upper ones have none, and
the registries of both are known. -/
def merge (base overlay : Settings) : Settings :=
  { overlay with
    project := { overlay.project with name := overlay.project.name <|> base.project.name }
    registries :=
      { overlay.registries with
        known := mergeKnown base.registries.known overlay.registries.known } }

/-- A number of 64 bits; a plus sign may stand in front of its digits. -/
def count? (text : String) : Option Nat :=
  let digits := match text.toList with
    | '+' :: rest => rest
    | chars => chars
  if digits.isEmpty || !digits.all Char.isDigit then none
  else
    let value := digits.foldl (fun value digit => 10 * value + (digit.toNat - 48)) 0
    if value < wordBound 64 then some value else none

/-- The count that a variable holds. -/
def countOf (key value : String) : Except SettingsError Nat :=
  match count? value with
  | some count => .ok count
  | none => .error (.invalidValue key ("expected a non-negative integer, got '" ++ value ++ "'"))

/-- The truth value that a variable holds. -/
def flagOf (key value : String) : Except SettingsError Bool :=
  match value with
  | "true" => .ok true
  | "false" => .ok false
  | _ => .error (.invalidValue key ("expected true or false, got '" ++ value ++ "'"))

/-- What a variable says, or the value there is where it is not set. -/
def overridden {α : Type} (environment : Environment) (key : String)
    (decode : String → String → Except SettingsError α) (current : α) :
    Except SettingsError α :=
  match environment key with
  | none => .ok current
  | some value => decode key value

/-- Lay the environment over settings. -/
def override (settings : Settings) (environment : Environment) : Except SettingsError Settings := do
  let pretty ←
    overridden environment "SCHEMATA_OUTPUT_PRETTY" flagOf settings.output.pretty
  let defaultNamespace ←
    overridden environment "SCHEMATA_DEFAULT_NAMESPACE" (fun _ value => .ok value)
      settings.registries.defaultNamespace
  let maxPathDepth ←
    overridden environment "SCHEMATA_MAX_PATH_DEPTH" countOf settings.checker.maxPathDepth
  let maxLoadDepth ←
    overridden environment "SCHEMATA_MAX_LOAD_DEPTH" countOf settings.checker.maxLoadDepth
  return { settings with
    checker := { settings.checker with maxPathDepth, maxLoadDepth }
    registries := { settings.registries with defaultNamespace }
    output := { settings.output with pretty } }

/-- The settings of the global file alone. -/
def loadGlobal (files : FileTree) (places : SettingsPlaces) : Except SettingsError Settings :=
  readWith ofText? files places true

/-- The settings of a project, as `reader` reads the texts of the files. -/
def loadWith (reader : String → Option Settings) (files : FileTree) (places : SettingsPlaces)
    (environment : Environment) : Except SettingsError Settings := do
  let base ← readWith reader files places true
  let overlay ← readWith reader files places false
  (merge base overlay).override environment

/-- The settings of a project. -/
def load (files : FileTree) (places : SettingsPlaces) (environment : Environment) :
    Except SettingsError Settings :=
  loadWith ofText? files places environment

/-- Write one of the files with the built-in settings. A file that exists is kept unless `force` is
set. -/
def init (files : FileTree) (places : SettingsPlaces) (isGlobal force : Bool) :
    Except SettingsError FileTree :=
  let path := places.path isGlobal
  if places.isPresent files isGlobal && !force then
    .error (.invalidValue "config"
      ("Config already exists: " ++ path ++ ". Use --force to overwrite."))
  else
    match files.write? (places.locate isGlobal) (toToml {}).toUTF8 with
    | some written => .ok written
    | none => .error (.inaccessible path)

end Settings

end SchemaDoc
