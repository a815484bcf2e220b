import SchemaDoc.Workspace.Check
import SchemaDoc.Workspace.Hoist

/-!
Loading: a document is brought to the checked state, and so are the documents it refers to while it
is on the way. Loads nest at most as deep as the limit says, which is also why loading ends.
-/

namespace SchemaDoc.Workspace

/-- The module of a document. A document of no module is an error, one of the root module gets a
warning. -/
def moduleOf (table : SymbolTable) (uri : String) : Option ModulePath × List Diagnostic :=
  match table.moduleOfUri? uri with
  | none => (none, [.ofMessage .undefinedModuleSegment [] (.point 0)])
  | some module =>
    (some module,
      if module.isRoot then
        [(Diagnostic.ofMessage .emptyModuleSegment [] (.point 0)).withSeverity .warning]
      else [])

/-- Both passes over a document of a module. -/
def process (load : Loader) (setup : Setup) (workspace : Workspace) (uri : String)
    (module : ModulePath) (errors : List Diagnostic) (node : Node) : Scope :=
  let (deferred, scope) :=
    Scope.hoist load setup.limits { workspace, uri, module, errors } node
  let scope := { scope with workspace := scope.workspace.setState uri .checking }
  scope.check load setup node deferred

/-- Take a document up for a check. What an earlier check put into the table is taken back, and the
record starts anew. -/
def takeUp (workspace : Workspace) (document : TextDocument) (parseErrors : List Diagnostic) :
    Workspace :=
  { workspace with
    table := workspace.table.clearUri document.uri
    log := document.uri :: workspace.log }.putRecord document.uri
    { version := document.version, text := document.text, state := .parsed, parseErrors }

/-- Note what came of the check of a document. -/
def conclude (workspace : Workspace) (uri : String) (node : Node) (errors : List Diagnostic)
    (dependencies : List String) : Workspace :=
  workspace.modifyRecord uri fun record =>
    { record with state := .checked, node := some node, errors, dependencies }

/-- Check a document afresh. -/
def checkDocument (load : Loader) (setup : Setup) (workspace : Workspace)
    (document : TextDocument) : Workspace :=
  let uri := document.uri
  let parsed := parse document.text setup.trailing
  let workspace := workspace.takeUp document parsed.errors
  match moduleOf workspace.table uri with
  | (none, errors) => workspace.conclude uri parsed.node errors []
  | (some module, errors) =>
    let scope := process load setup workspace uri module errors parsed.node
    scope.workspace.conclude uri parsed.node scope.errors scope.dependencies

/-- Whether a document has to be processed. -/
inductive Admission where
  /-- Nothing to do; there may be an error. -/
  | settled (error : Option LoadError)
  | admitted (document : TextDocument)

/-- Decide whether a document has to be processed. One that is checked as it is needs nothing; one
that is on the way is a circle. -/
def admission (setup : Setup) (workspace : Workspace) (uri : String) : Admission × Workspace :=
  match fetch setup workspace uri with
  | (.error _, workspace) => (.settled (some (.notFound uri)), workspace)
  | (.ok document, workspace) =>
    match workspace.record? uri with
    | none => (.admitted document, workspace)
    | some record =>
      if record.isCurrent document then (.settled none, workspace)
      else if record.state.isInProgress then (.settled (some (.circular uri)), workspace)
      else (.admitted document, workspace)

/-- Go one check deeper. -/
def enter (workspace : Workspace) : Workspace :=
  { workspace with loadDepth := workspace.loadDepth + 1 }

/-- Come back from a check. -/
def leave (workspace : Workspace) : Workspace :=
  { workspace with loadDepth := workspace.loadDepth - 1 }

/-- Have a document checked, with at most `budget` loads inside each other. -/
def loadWithin (setup : Setup) : Nat → Loader
  | 0, workspace, uri =>
    match admission setup workspace uri with
    | (.settled error, workspace) => (error, workspace)
    | (.admitted _, workspace) => (some (.tooDeep setup.limits.maxLoadDepth), workspace)
  | budget + 1, workspace, uri =>
    match admission setup workspace uri with
    | (.settled error, workspace) => (error, workspace)
    | (.admitted document, workspace) =>
      (none, (checkDocument (loadWithin setup budget) setup workspace.enter document).leave)

/-- Have a document checked, with as many loads inside each other as the depth reached leaves. -/
def ensureChecked (setup : Setup) : Loader := fun workspace uri =>
  loadWithin setup (setup.limits.maxLoadDepth - workspace.loadDepth) workspace uri

/-- Texts in order, each once. -/
def sortedUnique (texts : List String) : List String :=
  texts.foldl (fun sorted text => Scope.insertUri text sorted) []

/-- Have documents checked one after another. -/
def checkUris (setup : Setup) (workspace : Workspace) (uris : List String) :
    List (String × Option LoadError) × Workspace :=
  uris.foldl (fun (results, workspace) uri =>
    let (error, workspace) := ensureChecked setup workspace uri
    (results ++ [(uri, error)], workspace)) ([], workspace)

/-- Have the documents of all registered modules checked, in the order of their uris. -/
def checkAll (setup : Setup) (workspace : Workspace) :
    List (String × Option LoadError) × Workspace :=
  checkUris setup workspace (sortedUnique workspace.moduleDocuments)

end SchemaDoc.Workspace
