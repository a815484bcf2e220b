import SchemaDoc.Workspace.Resolve

/-!
The second pass over a document: waiting use clauses, the bodies of structs and enums, descriptions
and injections.
-/

namespace SchemaDoc

/-- The value of a literal node. -/
def Node.literalValue? (node : Node) : Option LiteralValue :=
  match node.kind with
  | .string value => some (.string value)
  | .number value => some (.number value)
  | .boolean value => some (.boolean value)
  | _ => none

/-- The type of what could not be read as one. -/
def SchemaType.any : SchemaType := .primitive .any

namespace Scope

mutual

/-- What a type expression says. References are resolved in the order of the text. -/
def typeData (load : Loader) (limits : Limits) : Node → Scope → SchemaType × Scope
  | ⟨kind, _, _, children⟩, scope =>
    match kind with
    | .primitiveType primitive => (.primitive primitive, scope)
    | .listType =>
      let (item, scope) := innerType load limits children scope
      (.list item, scope)
    | .optionalType =>
      let (inner, scope) := innerType load limits children scope
      (.optional inner, scope)
    | .literalType =>
      let value := (children.find? fun child => child.role == some .value).bind Node.literalValue?
      ((value.map SchemaType.literal).getD .any, scope)
    | .referenceType =>
      match children.find? fun child => child.role == some .path with
      | none => (.reference none, scope)
      | some path =>
        let (target, scope) := scope.resolvePath load limits path
        (.reference target, scope)
    | _ => (.any, scope)

/-- The type inside another one: that of the first child in this role. -/
def innerType (load : Loader) (limits : Limits) : List Node → Scope → SchemaType × Scope
  | [], scope => (.any, scope)
  | child :: children, scope =>
    if child.role = some .type then typeData load limits child scope
    else innerType load limits children scope

end

/-- Enter a field as a member of a type. The flag tells that it is no duplicate. -/
def enterField (scope : Scope) (container : SymbolPath) (key pair : Node) (name : String)
    (subcategory : Subcategory) (data : Option SchemaType) : Bool × Scope :=
  let record : SymbolRecord :=
    { subcategory := some subcategory
      desc := pair.doc?
      data
      usage := some
        { kind := .definition, location := scope.locate key.span, fullSpan := some pair.span } }
  let (existing, query) := (scope.query container).memberWith name fun field =>
    (field.declared?, field.ifDeclared.otherwise fun pending => pending.enter record)
  match existing with
  | some symbol => (false, scope.add (duplicated name key.span symbol))
  | none => (true, scope.withTable query.table)

/-- The type of a field, if it has one. -/
def fieldType (load : Loader) (limits : Limits) (scope : Scope) (pair : Node) :
    Option SchemaType × Scope :=
  match pair.child? .value with
  | none => (none, scope)
  | some value =>
    let (type, scope) := scope.typeData load limits value
    (some type, scope)

/-- Enter one field of a struct, and list it if it was entered and has a type. -/
def structField (load : Loader) (limits : Limits) (container : SymbolPath)
    (state : List (String × SchemaType) × Scope) (pair : Node) :
    List (String × SchemaType) × Scope :=
  let (fields, scope) := state
  match pair.child? .key with
  | none => state
  | some key =>
    let (type, scope) := scope.fieldType load limits pair
    match key.textValue? with
    | none => (fields, scope)
    | some name =>
      let (entered, scope) := scope.enterField container key pair name .compoundKey type
      match entered, type with
      | true, some type => (fields ++ [(name, type)], scope)
      | _, _ => (fields, scope)

/-- Enter the fields of a struct body. -/
def structFields (load : Loader) (limits : Limits) (scope : Scope) (container : SymbolPath)
    (body : Node) : List (String × SchemaType) × Scope :=
  body.children.foldl (structField load limits container) ([], scope)

/-- Enter one value of an enum, and list it if it was entered. -/
def enumValue (container : SymbolPath) (state : List (String × Option LiteralValue) × Scope)
    (pair : Node) : List (String × Option LiteralValue) × Scope :=
  let (values, scope) := state
  match pair.child? .key with
  | none => state
  | some key =>
    match key.textValue? with
    | none => state
    | some name =>
      let value := (pair.child? .value).bind Node.literalValue?
      let (entered, scope) :=
        scope.enterField container key pair name .enumKey (value.map SchemaType.literal)
      (if entered then values ++ [(name, value)] else values, scope)

/-- Enter the values of an enum body. -/
def enumValues (scope : Scope) (container : SymbolPath) (body : Node) :
    List (String × Option LiteralValue) × Scope :=
  body.children.foldl (enumValue container) ([], scope)

/-- Whether a symbol was defined by the declaration with this identifier. -/
def ownsDefinition (scope : Scope) (address : SymbolPath) (identifier : Node) : Bool :=
  ((scope.workspace.table.lookup? address).bind Symbol.definition?).any fun usage =>
    usage.location == scope.locate identifier.span

/-- The address and body of a declaration that owns its symbol. A duplicate owns none. -/
def owned? (scope : Scope) (declaration : Node) : Option (SymbolPath × Node) :=
  match declaration.child? .identifier, declaration.child? .body with
  | some identifier, some body =>
    identifier.textValue?.bind fun name =>
      let address := SymbolPath.schema (scope.module.join name)
      if scope.ownsDefinition address identifier then some (address, body) else none
  | _, _ => none

def checkUse (load : Loader) (limits : Limits) (scope : Scope) (clause : Node) : Scope :=
  match clause.child? .path with
  | none => scope
  | some path =>
    match scope.resolvePath load limits path with
    | (none, scope) => scope
    | (some target, scope) => scope.declareAlias clause target

def checkStruct (load : Loader) (limits : Limits) (scope : Scope) (declaration : Node) : Scope :=
  match scope.owned? declaration with
  | none => scope
  | some (address, body) =>
    let (fields, scope) := scope.structFields load limits address body
    scope.amend address { data := some (.struct fields) }

def checkEnum (scope : Scope) (declaration : Node) (kind : Option EnumKind) : Scope :=
  match scope.owned? declaration with
  | none => scope
  | some (address, body) =>
    let (values, scope) := scope.enumValues address body
    scope.amend address { data := some (.enum kind values) }

/-- The object that a description without a list is about: all others of its registry. -/
def defaultObject : String := "@default"

/-- The full name of a resource location node. -/
def resourceName? (registries : RegistrySettings) (node : Node) : Option String :=
  match node.kind with
  | .resourceLocation space path => some (registries.fullName space path)
  | _ => none

/-- The objects that a describes clause is about, with their places. -/
def describedObjects (registries : RegistrySettings) (clause path : Node) :
    List (String × Span) :=
  match clause.child? .objects with
  | none => [(defaultObject, path.span)]
  | some list =>
    list.children.filterMap fun item =>
      (item.child? .value).bind fun object =>
        (resourceName? registries object).map fun name => (name, object.span)

/-- Define one object of a registry, and say by what it is described. -/
def enterObject (registry : String) (target : Option SymbolPath) (scope : Scope)
    (object : String × Span) : Scope :=
  let record : SymbolRecord :=
    { usage := some { kind := .definition, location := scope.locate object.2 }
      relations := { describedBy := target } }
  scope.withTable ((scope.query ⟨.description registry, [object.1]⟩).enter record).table

/-- Define the objects of a describes clause. Clauses for unknown registries are passed over;
several clauses may describe one object. -/
def checkDescribes (load : Loader) (setup : Setup) (scope : Scope) (clause : Node) : Scope :=
  match clause.child? .path, clause.child? .registry with
  | some path, some registry =>
    match resourceName? setup.registries registry with
    | none => scope
    | some name =>
      if !setup.registries.isKnown name then scope
      else
        let (target, scope) := scope.resolvePath load setup.limits path
        (describedObjects setup.registries clause path).foldl (enterObject name target) scope
  | _, _ => scope

/-- A kind of declaration in words. -/
def kindLabel : Option Subcategory → Option EnumKind → String
  | some .compound, _ => Message.render .compoundDefinition []
  | some .enum, some kind => Message.render .enumDefinition [] ++ "(" ++ kind.name ++ ")"
  | some .enum, none => Message.render .enumDefinition []
  | some other, _ => other.name
  | none, _ => "unknown"

/-- What an inject clause adds: a kind of declaration and, for enums, its kind of values. -/
def injected? (definition : Node) : Option (Subcategory × Option EnumKind) :=
  match definition.kind with
  | .injectStruct => some (.compound, none)
  | .injectEnum kind => some (.enum, kind)
  | _ => none

/-- What is known of the declaration at an address. -/
def declaredKind (table : SymbolTable) (address : SymbolPath) :
    Option Subcategory × Option EnumKind :=
  match table.lookup? address with
  | none => (none, none)
  | some symbol =>
    (symbol.subcategory, match symbol.data with
      | some (.enum kind _) => kind
      | _ => none)

/-- Two kinds that are known and not the same. -/
def kindsDiffer : Option EnumKind → Option EnumKind → Bool
  | some first, some second => first != second
  | _, _ => false

/-- Add the fields of an inject clause to the type it names, which must be of the same kind. -/
def checkInject (load : Loader) (limits : Limits) (scope : Scope) (clause : Node) : Scope :=
  match clause.child? .definition with
  | none => scope
  | some definition =>
    match injected? definition, definition.child? .path with
    | some (subcategory, kind), some path =>
      match scope.resolvePath load limits path with
      | (none, scope) => scope
      | (some target, scope) =>
        let (targetSubcategory, targetKind) := declaredKind scope.workspace.table target
        let differ := kindsDiffer targetKind kind
        if targetSubcategory != some subcategory || differ then
          scope.report .unmatchedInjection
            [kindLabel targetSubcategory (if differ then targetKind else none),
              kindLabel (some subcategory) (if differ then kind else none)] path.span
        else
          match definition.child? .body with
          | none => scope
          | some body =>
            match subcategory with
            | .compound => (scope.structFields load limits target body).2
            | _ => (scope.enumValues target body).2
    | _, _ => scope

/-- Check one declaration. -/
def checkDeclaration (load : Loader) (setup : Setup) (scope : Scope) (declaration : Node) :
    Scope :=
  match declaration.kind with
  | .struct => scope.checkStruct load setup.limits declaration
  | .enum kind => scope.checkEnum declaration kind
  | .describesClause => scope.checkDescribes load setup declaration
  | .injectClause => scope.checkInject load setup.limits declaration
  | _ => scope

/-- Check a document whose declarations are entered: first the use clauses that had to wait. -/
def check (load : Loader) (setup : Setup) (scope : Scope) (document : Node)
    (deferred : List Node) : Scope :=
  document.children.foldl (checkDeclaration load setup)
    (deferred.foldl (checkUse load setup.limits) scope)

end Scope

end SchemaDoc
