import SchemaDoc.Workspace.Resolve

/-!
The first pass over a document: every declaration is entered before any body is looked at, so that
names may be used before they are declared.
-/

namespace SchemaDoc

/-- The first pass on its way through the declarations. -/
structure Hoisting where
  scope : Scope
  /-- The modules declared so far, with their places. -/
  modules : List (String × Span) := []
  /-- Use clauses to be resolved later, in order. -/
  deferred : List Node := []
  deriving Inhabited

namespace Hoisting

/-- Enter a struct or an enum. -/
def enterType (scope : Scope) (declaration : Node) (subcategory : Subcategory) : Scope :=
  match declaration.child? .identifier with
  | none => scope
  | some identifier =>
    match identifier.textValue? with
    | none => scope
    | some name =>
      scope.declare (.schema (scope.module.join name)) name identifier.span
        { subcategory := some subcategory
          desc := declaration.doc?
          usage := some
            { kind := .definition, location := scope.locate identifier.span,
              fullSpan := some declaration.span } }

/-- The warning about a second declaration of a module in one document. -/
def duplicatedModule (scope : Scope) (name : String) (span first : Span) : Diagnostic :=
  ((Diagnostic.ofMessage .duplicatedModuleDeclaration [Message.quote name] span).withSeverity
      .warning).withRelated (scope.locate first)
    (Message.render .duplicatedModuleDeclarationRelated [Message.quote name])

/-- Record a module declaration. The module has to exist, and to be declared once. -/
def enterModule (hoisting : Hoisting) (declaration : Node) : Hoisting :=
  let scope := hoisting.scope
  match declaration.child? .identifier with
  | none => hoisting
  | some identifier =>
    match identifier.textValue? with
    | none => hoisting
    | some name =>
      match hoisting.modules.lookup name with
      | some first =>
        { hoisting with scope := scope.add (duplicatedModule scope name identifier.span first) }
      | none =>
        let path := scope.module.child name
        let scope :=
          if (scope.workspace.table.uriOfModule? path).isNone then
            scope.report .nonExistentModule [Message.quote path.display] identifier.span
          else
            scope.amend (.schema path.display)
              { usage := some
                  { kind := .declaration, location := scope.locate identifier.span,
                    fullSpan := some declaration.span } }
        { hoisting with scope, modules := (name, identifier.span) :: hoisting.modules }

/-- Declare the alias of a use clause, or defer the clause. -/
def enterUse (load : Loader) (limits : Limits) (hoisting : Hoisting) (clause : Node) : Hoisting :=
  match clause.child? .path with
  | none => hoisting
  | some path =>
    match hoisting.scope.resolveEarly load limits path with
    | (.resolved target, scope) => { hoisting with scope := scope.declareAlias clause target }
    | (.failed, scope) => { hoisting with scope }
    | (.pending, scope) => { hoisting with scope, deferred := hoisting.deferred ++ [clause] }

/-- Enter one declaration. -/
def step (load : Loader) (limits : Limits) (hoisting : Hoisting) (declaration : Node) : Hoisting :=
  match declaration.kind with
  | .struct => { hoisting with scope := enterType hoisting.scope declaration .compound }
  | .enum _ => { hoisting with scope := enterType hoisting.scope declaration .enum }
  | .moduleDeclaration => hoisting.enterModule declaration
  | .useClause _ => hoisting.enterUse load limits declaration
  | _ => hoisting

end Hoisting

/-- Enter all declarations of a document; the use clauses that have to wait. -/
def Scope.hoist (load : Loader) (limits : Limits) (scope : Scope) (document : Node) :
    List Node × Scope :=
  let last := document.children.foldl (Hoisting.step load limits) { scope }
  (last.deferred, last.scope)

end SchemaDoc
