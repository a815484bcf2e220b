import SchemaDoc.Parser.Document
import SchemaDoc.Project.Layout
import SchemaDoc.Storage.Provider
import SchemaDoc.Symbol.Query
import SchemaDoc.Workspace.Records

/-!
The workspace: the symbol table, what is known about each document, and the documents themselves.
-/

namespace SchemaDoc

/-- Why a document could not be checked. -/
inductive LoadError where
  | notFound (uri : String)
  | circular (uri : String)
  | tooDeep (limit : Nat)
  deriving DecidableEq, Repr

def LoadError.message : LoadError → String
  | notFound uri => "No document is available for '" ++ uri ++ "'"
  | circular uri => "Circular module dependency on '" ++ uri ++ "'"
  | tooDeep limit => "Module loading exceeded the maximum depth of " ++ toString limit

/-- What stays fixed while documents are checked. -/
structure Setup where
  registries : RegistrySettings := {}
  trailing : TrailingPolicy := .allowed
  limits : Limits := {}
  files : FileTree := {}
  provider : Provider := .documents

structure Workspace where
  table : SymbolTable := {}
  /-- The records by uri, each uri once. -/
  records : Records := []
  documents : Documents := {}
  /-- How many checks are going on inside each other. -/
  loadDepth : Nat := 0
  /-- The log: the documents that were taken up for a check, latest first. -/
  log : List String := []
  deriving Inhabited

/-- A way to have a document checked: the error, if any, and the workspace afterwards. -/
abbrev Loader := Workspace → String → Option LoadError × Workspace

namespace Workspace

def record? (workspace : Workspace) (uri : String) : Option FileRecord :=
  workspace.records.lookup uri

/-- Put a record in the place of another one. -/
def putRecord (workspace : Workspace) (uri : String) (record : FileRecord) : Workspace :=
  { workspace with
    records := (uri, record) :: workspace.records.filter fun entry => entry.1 != uri }

/-- Change the record of a document, if there is one. -/
def modifyRecord (workspace : Workspace) (uri : String) (change : FileRecord → FileRecord) :
    Workspace :=
  { workspace with records := adjust uri change workspace.records }

def setState (workspace : Workspace) (uri : String) (state : FileState) : Workspace :=
  workspace.modifyRecord uri fun record => { record with state }

def state (workspace : Workspace) (uri : String) : FileState :=
  ((workspace.record? uri).map FileRecord.state).getD .unparsed

def isChecked (workspace : Workspace) (uri : String) : Bool := workspace.state uri == .checked

/-- The problems found in a document: those of reading it, then those of checking it. -/
def diagnostics (workspace : Workspace) (uri : String) : List Diagnostic :=
  match workspace.record? uri with
  | none => []
  | some record => record.parseErrors ++ record.errors

/-- The text that the last check ran on. -/
def text? (workspace : Workspace) (uri : String) : Option String :=
  (workspace.record? uri).map FileRecord.text

def tree? (workspace : Workspace) (uri : String) : Option Node :=
  (workspace.record? uri).bind FileRecord.node

def dependencies? (workspace : Workspace) (uri : String) : Option (List String) :=
  (workspace.record? uri).map FileRecord.dependencies

/-- Mark a document and all that depend on it, directly or not, to be checked again. -/
def invalidate (workspace : Workspace) (uri : String) : List String × Workspace :=
  let (marked, records) := Records.invalidateFrom workspace.records [uri] []
  (marked, { workspace with records })

/-- The documents of all registered modules. -/
def moduleDocuments (workspace : Workspace) : List String :=
  workspace.table.moduleUris.map Prod.snd

/-- Register the modules of a layout; their documents, in order. -/
def registerLayout (workspace : Workspace) (layout : Layout) (files : FileTree) :
    List String × Workspace :=
  let (modules, table) := layout.scan files workspace.table
  (modules.map Prod.snd, { workspace with table })

/-- Read a document, keeping what was read. -/
def fetch (setup : Setup) (workspace : Workspace) (uri : String) :
    Except DocumentError TextDocument × Workspace :=
  match setup.provider.read workspace.documents setup.files setup.limits.maxFileSizeBytes uri with
  | .ok (document, documents) => (.ok document, { workspace with documents })
  | .error error => (.error error, workspace)

/-- Read the documents of all registered modules ahead; how many there are. -/
def preload (setup : Setup) (workspace : Workspace) : Nat × Workspace :=
  workspace.moduleDocuments.foldl (fun (count, workspace) uri =>
    match fetch setup workspace uri with
    | (.ok _, workspace) => (count + 1, workspace)
    | (.error _, workspace) => (count, workspace)) (0, workspace)

end Workspace

end SchemaDoc
