import SchemaDoc.Workspace.Basic

/-!
Resolving identifier paths. A path leads to a module and a name in it. If the module is not the one
at hand, the document that implements it is loaded first, by a loader that is a parameter here.
-/

namespace SchemaDoc

/-- What is at hand while one document is processed. -/
structure Scope where
  workspace : Workspace
  uri : String
  module : ModulePath
  /-- The problems found so far. -/
  errors : List Diagnostic := []
  /-- The documents asked for so far, in order and each once. -/
  dependencies : List String := []
  deriving Inhabited

namespace Scope

def locate (scope : Scope) (span : Span) : Location := ⟨scope.uri, span⟩

def add (scope : Scope) (diagnostic : Diagnostic) : Scope :=
  { scope with errors := scope.errors ++ [diagnostic] }

def report (scope : Scope) (message : Message) (arguments : List String) (span : Span) : Scope :=
  scope.add (.ofMessage message arguments span)

def withTable (scope : Scope) (table : SymbolTable) : Scope :=
  { scope with workspace := { scope.workspace with table } }

/-- A query from the document at hand. -/
def query (scope : Scope) (address : SymbolPath) : Query :=
  Query.start scope.workspace.table scope.uri address

/-- Merge a record into a symbol, if there is one. -/
def amend (scope : Scope) (address : SymbolPath) (record : SymbolRecord) : Scope :=
  scope.withTable ((scope.query address).amend record).table

end Scope

/-- The warning about a second declaration of a name. It points to the first one. -/
def duplicated (name : String) (span : Span) (existing : Symbol) : Diagnostic :=
  let diagnostic :=
    (Diagnostic.ofMessage .duplicatedIdentifier [Message.quote name] span).withSeverity .warning
  match existing.firstDeclaration? with
  | none => diagnostic
  | some first =>
    diagnostic.withRelated first.location
      (Message.render .duplicatedIdentifierRelated [Message.quote name])

/-- Enter a symbol unless its address is declared, which is a duplicate then. -/
def Scope.declare (scope : Scope) (address : SymbolPath) (name : String) (span : Span)
    (record : SymbolRecord) : Scope :=
  let query := scope.query address
  match query.declared? with
  | some existing => scope.add (duplicated name span existing)
  | none => scope.withTable (query.ifDeclared.elseEnter record).table

/-- A mention of a module on the way of a path. -/
structure ModuleMention where
  module : ModulePath
  span : Span
  /-- `super` is no name and cannot be renamed. -/
  renamable : Bool
  deriving DecidableEq, Repr

/-- Where a path leads before the table is asked. -/
structure PathTarget where
  module : ModulePath
  name : String
  nameSpan : Span
  mentions : List ModuleMention
  deriving DecidableEq, Repr

/-- Why a path leads nowhere. -/
inductive WalkError where
  /-- The path has no segments; that was reported when it was read. -/
  | empty
  | tooDeep (limit : Nat) (span : Span)
  | aboveRoot (span : Span)
  deriving DecidableEq, Repr

def WalkError.diagnostic? : WalkError → Option Diagnostic
  | empty => none
  | tooDeep limit span => some (.ofMessage .pathTooDeep [toString limit] span)
  | aboveRoot span => some (.ofMessage .superFromRoot [] span)

/-- The segment that leads to the module around. -/
def superSegment : String := "super"

/-- Follow module segments from a module on. -/
def walkModules : ModulePath → List (String × Span) →
    Except WalkError (ModulePath × List ModuleMention)
  | module, [] => .ok (module, [])
  | module, (segment, span) :: segments =>
    if segment = superSegment then
      match module.parent? with
      | none => .error (.aboveRoot span)
      | some parent =>
        (walkModules parent segments).map fun (last, mentions) =>
          (last, ⟨parent, span, false⟩ :: mentions)
    else
      let inner := module.child segment
      (walkModules inner segments).map fun (last, mentions) =>
        (last, ⟨inner, span, true⟩ :: mentions)

/-- The segments of a path with their places. -/
def pathSegments (path : Node) : List (String × Span) :=
  path.children.filterMap fun child => child.textValue?.map fun value => (value, child.span)

/-- Where a path leads from a module. -/
def walkPath (limits : Limits) (module : ModulePath) (path : Node) :
    Except WalkError PathTarget :=
  let segments := pathSegments path
  match segments.getLast? with
  | none => .error .empty
  | some (name, nameSpan) =>
    if limits.maxPathDepth < segments.length then
      .error (.tooDeep limits.maxPathDepth path.span)
    else
      let start := match path.kind with
        | .identPath true => ModulePath.root
        | _ => module
      (walkModules start segments.dropLast).map fun (module, mentions) =>
        { module, name, nameSpan, mentions }

namespace PathTarget

/-- The address of the symbol that a path names. -/
def address (target : PathTarget) : SymbolPath := .schema (target.module.join target.name)

end PathTarget

namespace Scope

/-- A mention of a symbol at a place of the document. -/
def reference (scope : Scope) (span : Span) : SymbolRecord :=
  { usage := some { kind := .reference, location := scope.locate span } }

/-- Record the mentions of modules on the way of a path. -/
def recordMentions (scope : Scope) (mentions : List ModuleMention) : Scope :=
  mentions.foldl (fun scope mention =>
    scope.amend (.schema mention.module.display)
      { usage := some
          { kind := .reference, location := scope.locate mention.span,
            renamable := mention.renamable } }) scope

/-- Put a uri in its place, unless it is listed. -/
def insertUri (uri : String) : List String → List String
  | [] => [uri]
  | other :: others =>
    match compare uri other with
    | .lt => uri :: other :: others
    | .eq => other :: others
    | .gt => other :: insertUri uri others

/-- Have the document of a module checked. The flag tells whether that went well; if not, it is
reported at `span`. The document at hand needs no check. -/
def loadModule (load : Loader) (scope : Scope) (module : ModulePath) (span : Span) :
    Bool × Scope :=
  let quoted := Message.quote module.display
  match scope.workspace.table.uriOfModule? module with
  | none => (false, scope.report .unknownModule [quoted] span)
  | some uri =>
    if uri = scope.uri then (true, scope)
    else
      let (error, workspace) := load scope.workspace uri
      let scope :=
        { scope with workspace, dependencies := insertUri uri scope.dependencies }
      match error with
      | none => (true, scope)
      | some (.circular _) => (false, scope.report .circularModuleDependency [quoted] span)
      | some _ => (false, scope.report .unknownModule [quoted] span)

/-- Load the module of a target, unless it is the one at hand. -/
def reachModule (load : Loader) (scope : Scope) (target : PathTarget) (span : Span) :
    Bool × Scope :=
  if target.module = scope.module then (true, scope) else scope.loadModule load target.module span

/-- The symbol that a path names, behind all aliases. A failure is reported, and the symbol gets a
reference. -/
def resolvePath (load : Loader) (limits : Limits) (scope : Scope) (path : Node) :
    Option SymbolPath × Scope :=
  match walkPath limits scope.module path with
  | .error error => (none, error.diagnostic?.elim scope scope.add)
  | .ok target =>
    let (reached, scope) := (scope.recordMentions target.mentions).reachModule load target path.span
    if !reached then (none, scope)
    else
      let query := scope.query target.address
      if query.isUnknown then
        (none, scope.report .unknownIdentifier
          [Message.quote target.name, Message.quote target.module.display] target.nameSpan)
      else
        let query := query.elseResolveAlias.elseEnter (scope.reference target.nameSpan)
        (if query.isDeclared then some query.address else none, scope.withTable query.table)

/-- What came of resolving a use clause ahead of the other declarations. -/
inductive EarlyResolution where
  | resolved (target : SymbolPath)
  /-- The failure is reported. -/
  | failed
  /-- To be tried again when all declarations are entered. -/
  | pending
  deriving DecidableEq, Repr

/-- Resolve the path of a use clause ahead. The module is loaded; a name that is not declared yet is
left for later without a trace. -/
def resolveEarly (load : Loader) (limits : Limits) (scope : Scope) (path : Node) :
    EarlyResolution × Scope :=
  match walkPath limits scope.module path with
  | .error _ => (.pending, scope)
  | .ok target =>
    let (reached, scope) := scope.reachModule load target path.span
    if !reached then (.failed, scope.recordMentions target.mentions)
    else
      let query := scope.query target.address
      if !query.isDeclared then (.pending, scope)
      else
        let query := query.elseResolveAlias.elseEnter (scope.reference target.nameSpan)
        (.resolved query.address,
          (scope.withTable query.table).recordMentions target.mentions)

/-- Declare the name that a use clause brings into the module. -/
def declareAlias (scope : Scope) (clause : Node) (target : SymbolPath) : Scope :=
  match (clause.child? .path).bind fun path => path.children.getLast? with
  | none => scope
  | some last =>
    match last.textValue? with
    | none => scope
    | some name =>
      let visibility := match clause.kind with
        | .useClause true => Visibility.exported
        | _ => .file
      scope.declare (.schema (scope.module.join name)) name last.span
        { usage := some
            { kind := .declaration, location := scope.locate last.span,
              fullSpan := some clause.span, visibility }
          relations := { aliasOf := some target } }

end Scope

end SchemaDoc
