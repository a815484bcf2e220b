import SchemaDoc.Toml.Reader
import SchemaDoc.Toml.Writer

/-!
Settings. Each setting has a built-in value; files and the environment replace it. A settings file
is TOML, and what it does not mention keeps its built-in value.
-/

namespace SchemaDoc

structure ProjectSettings where
  name : Option String := none
  /-- The file extension of documents, without the dot. -/
  extension : String := "sdoc"
  /-- The directory of the documents, from the project root on. -/
  sourceRoot : Option String := none
  ignoredPaths : List String := ["node_modules", ".git", "target", "dist", "build", ".schemata"]
  deriving DecidableEq, Repr, Inhabited

structure CheckerSettings where
  maxPathDepth : Nat := 32
  maxLoadDepth : Nat := 64
  maxFileSizeMb : Nat := 5
  deriving DecidableEq, Repr, Inhabited

structure RegistrySettings where
  /-- The namespace of registry names written without one. -/
  defaultNamespace : String := "core"
  /-- The registries that may be described, by their full names. -/
  known : List String := ["core:item", "core:block", "core:entity", "core:component"]
  deriving DecidableEq, Repr, Inhabited

structure OutputSettings where
  pretty : Bool := true
  deriving DecidableEq, Repr, Inhabited

structure Settings where
  project : ProjectSettings := {}
  checker : CheckerSettings := {}
  registries : RegistrySettings := {}
  output : OutputSettings := {}
  deriving DecidableEq, Repr, Inhabited

/-- The full name of a resource. -/
def RegistrySettings.fullName (settings : RegistrySettings) (space : Option String)
    (path : String) : String :=
  space.getD settings.defaultNamespace ++ ":" ++ path

def RegistrySettings.isKnown (settings : RegistrySettings) (fullName : String) : Bool :=
  settings.known.contains fullName

/-- The bounds that hold while documents are read and checked. -/
structure Limits where
  maxFileSizeBytes : Nat := 5 * 1024 * 1024
  maxPathDepth : Nat := 32
  maxLoadDepth : Nat := 64
  deriving DecidableEq, Repr, Inhabited

/-- A size of zero stands for the largest there is. -/
def CheckerSettings.maxFileSizeBytes (settings : CheckerSettings) : Nat :=
  if settings.maxFileSizeMb = 0 then wordBound 64 - 1 else settings.maxFileSizeMb * 1024 * 1024

def Settings.limits (settings : Settings) : Limits :=
  { maxFileSizeBytes := settings.checker.maxFileSizeBytes
    maxPathDepth := settings.checker.maxPathDepth
    maxLoadDepth := settings.checker.maxLoadDepth }

/-- Why settings cannot be had. -/
inductive SettingsError where
  | malformed (path : String)
  | invalidValue (key message : String)
  | inaccessible (path : String)
  deriving DecidableEq, Repr

def SettingsError.message : SettingsError → String
  | malformed path => "Config parse error: " ++ path ++ ": <toml>"
  | invalidValue key message => "Invalid value for '" ++ key ++ "': " ++ message
  | inaccessible path => "Cannot access " ++ path

namespace Toml

/-- The fields of a section in the order of `names`: from a table by name, from an array by
position. A date is a section without any of them. -/
def Value.fields? (names : List String) : Value → Option (List (Option Value))
  | .table _ entries => some (names.map fun name => entries.lookup name)
  | .date _ => some (names.map fun _ => none)
  | .array items =>
    some ((items.take names.length).map some ++ List.replicate (names.length - items.length) none)
  | .tables items =>
    some ((items.take names.length).map (fun entries => some (.table .header entries)) ++
      List.replicate (names.length - items.length) none)
  | _ => none

/-- Whether the fields of a section are given by position. -/
def Value.isPositional : Value → Bool
  | .array _ => true
  | .tables _ => true
  | _ => false

def Value.text? : Value → Option String
  | .text value => some value
  | _ => none

def Value.bool? : Value → Option Bool
  | .bool value => some value
  | _ => none

/-- A whole number below a bound. -/
def Value.below? (bound : Nat) : Value → Option Nat
  | .int value => if 0 ≤ value ∧ value.toNat < bound then some value.toNat else none
  | _ => none

def Value.texts? : Value → Option (List String)
  | .array items => items.mapM Value.text?
  | _ => none

/-- The value of a field, or its default where it is absent. One of the wrong type is refused. -/
def orDefault {α : Type} (fallback : α) (decode : Value → Option α) : Option Value → Option α
  | none => some fallback
  | some value => decode value

end Toml

/-- The name of a project may be absent, but not from a section given as an array. -/
def ProjectSettings.ofToml? (part : Toml.Value) : Option ProjectSettings :=
  match part.fields? ["name", "extension", "source_root", "ignored_paths"] with
  | some [name, extension, sourceRoot, ignoredPaths] =>
    if name.isNone && part.isPositional then none
    else do
      let name ← Toml.orDefault none (fun value => value.text?.map some) name
      let extension ← Toml.orDefault ({} : ProjectSettings).extension Toml.Value.text? extension
      let sourceRoot ← Toml.orDefault none (fun value => value.text?.map some) sourceRoot
      let ignoredPaths ←
        Toml.orDefault ({} : ProjectSettings).ignoredPaths Toml.Value.texts? ignoredPaths
      return { name, extension, sourceRoot, ignoredPaths }
  | _ => none

def CheckerSettings.ofToml? (part : Toml.Value) : Option CheckerSettings :=
  match part.fields? ["max_path_depth", "max_load_depth", "max_file_size_mb"] with
  | some [pathDepth, loadDepth, fileSize] => do
    let defaults : CheckerSettings := {}
    let maxPathDepth ←
      Toml.orDefault defaults.maxPathDepth (Toml.Value.below? (wordBound 64)) pathDepth
    let maxLoadDepth ←
      Toml.orDefault defaults.maxLoadDepth (Toml.Value.below? (wordBound 64)) loadDepth
    let maxFileSizeMb ←
      Toml.orDefault defaults.maxFileSizeMb (Toml.Value.below? (wordBound 32)) fileSize
    return { maxPathDepth, maxLoadDepth, maxFileSizeMb }
  | _ => none

def RegistrySettings.ofToml? (part : Toml.Value) : Option RegistrySettings :=
  match part.fields? ["default_namespace", "known"] with
  | some [space, known] => do
    let defaults : RegistrySettings := {}
    let defaultNamespace ← Toml.orDefault defaults.defaultNamespace Toml.Value.text? space
    let known ← Toml.orDefault defaults.known Toml.Value.texts? known
    return { defaultNamespace, known }
  | _ => none

def OutputSettings.ofToml? (part : Toml.Value) : Option OutputSettings :=
  match part.fields? ["pretty"] with
  | some [pretty] => do
    let pretty ← Toml.orDefault ({} : OutputSettings).pretty Toml.Value.bool? pretty
    return { pretty }
  | _ => none

namespace Settings

/-- Settings from the entries of a document. Keys that mean nothing are passed over. -/
def ofToml? (entries : Toml.Entries) : Option Settings := do
  let project ← Toml.orDefault {} ProjectSettings.ofToml? (entries.lookup "project")
  let checker ← Toml.orDefault {} CheckerSettings.ofToml? (entries.lookup "checker")
  let registries ← Toml.orDefault {} RegistrySettings.ofToml? (entries.lookup "registries")
  let output ← Toml.orDefault {} OutputSettings.ofToml? (entries.lookup "output")
  return { project, checker, registries, output }

/-- Settings from the text of a file. -/
def ofText? (text : String) : Option Settings := (Toml.parse? text).bind ofToml?

/-- The text of a file with all settings. -/
def toToml (settings : Settings) : String :=
  let optional (key : String) (value : Option String) : List (String × String) :=
    value.toList.map fun text => (key, Toml.quote text)
  "\n".intercalate [
    Toml.tableText "project"
      (optional "name" settings.project.name ++
        [("extension", Toml.quote settings.project.extension)] ++
        optional "source_root" settings.project.sourceRoot ++
        [("ignored_paths", Toml.array settings.project.ignoredPaths)]),
    Toml.tableText "checker"
      [("max_path_depth", toString settings.checker.maxPathDepth),
        ("max_load_depth", toString settings.checker.maxLoadDepth),
        ("max_file_size_mb", toString settings.checker.maxFileSizeMb)],
    Toml.tableText "registries"
      [("default_namespace", Toml.quote settings.registries.defaultNamespace),
        ("known", Toml.array settings.registries.known)],
    Toml.tableText "output" [("pretty", if settings.output.pretty then "true" else "false")]]

end Settings

end SchemaDoc
