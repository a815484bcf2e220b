import SchemaDoc.ModulePath
import SchemaDoc.Text.Span
import SchemaDoc.Tree.Node

/-!
Symbols. A symbol is addressed by a category and a path: the first segment is a key of the table,
such as the flat form of a module path, and deeper segments name members, such as the fields of a
struct. What a symbol is follows from its usages: places in documents that declare or refer to it.
-/

namespace SchemaDoc

/-- The space that a symbol lives in. -/
inductive Category where
  /-- Modules and the types declared in them. -/
  | schema
  /-- The objects of one registry, by the full name of the registry. -/
  | description (registry : String)
  deriving DecidableEq, Repr, Inhabited

namespace Category

def descriptionLabel : String := "description/"

def display : Category → String
  | schema => "schema"
  | description registry => descriptionLabel ++ registry

/-- Schema first, then descriptions by registry. -/
def compare : Category → Category → Ordering
  | schema, schema => .eq
  | schema, description _ => .lt
  | description _, schema => .gt
  | description first, description second => Ord.compare first second

end Category

/-- The address of a symbol. -/
structure SymbolPath where
  category : Category
  path : List String
  deriving DecidableEq, Repr, Inhabited

namespace SymbolPath

/-- The address of a module or type. -/
def schema (key : String) : SymbolPath := ⟨.schema, [key]⟩

def member (address : SymbolPath) (name : String) : SymbolPath :=
  { address with path := address.path ++ [name] }

def display (address : SymbolPath) : String :=
  address.category.display ++ " " ++ ".".intercalate address.path

/-- By category, then by segments; an address comes right before its members. -/
def compare (first second : SymbolPath) : Ordering :=
  match first.category.compare second.category with
  | .eq => ModulePath.compareSegments first.path second.path
  | other => other

/-- Whether an address is that of a member, or of a member of one, and so on. -/
def isBelow (inner outer : SymbolPath) : Bool :=
  inner.category == outer.category && outer.path.isPrefixOf inner.path && inner.path != outer.path

/-- Whether an address is that of a direct member. -/
def isMemberOf (inner outer : SymbolPath) : Bool :=
  inner.isBelow outer && inner.path.length == outer.path.length + 1

end SymbolPath

/-- What kind of thing a symbol is. -/
inductive Subcategory where
  | module
  | compound
  | enum
  | compoundKey
  | enumKey
  deriving DecidableEq, Repr, Inhabited

def Subcategory.name : Subcategory → String
  | module => "module"
  | compound => "compound"
  | enum => "enum"
  | compoundKey => "compound_key"
  | enumKey => "enum_key"

inductive UsageKind where
  | implementation
  | declaration
  | definition
  | reference
  deriving DecidableEq, Repr, Inhabited

namespace UsageKind

def name : UsageKind → String
  | implementation => "implementation"
  | declaration => "declaration"
  | definition => "definition"
  | reference => "reference"

def all : List UsageKind := [implementation, declaration, definition, reference]

/-- Every usage but a reference makes its symbol declared. -/
def isDeclaring (kind : UsageKind) : Bool := kind != reference

end UsageKind

/-- Who may see a declaration. -/
inductive Visibility where
  /-- Only the document that holds it. -/
  | file
  | exported
  deriving DecidableEq, Repr, Inhabited

def Visibility.name : Visibility → String
  | file => "file"
  | exported => "exported"

/-- Which pass made a usage. Checking a document again takes back only what checking put there. -/
inductive Contributor where
  | layout
  | checker
  deriving DecidableEq, Repr, Inhabited

def Contributor.name : Contributor → String
  | layout => "layout"
  | checker => "checker"

/-- A place where a symbol is declared or mentioned. -/
structure Usage where
  kind : UsageKind
  location : Location
  /-- The whole declaration around the name. -/
  fullSpan : Option Span := none
  renamable : Bool := true
  visibility : Visibility := .exported
  contributor : Contributor := .checker
  deriving DecidableEq, Repr, Inhabited

/-- Whether checking `uri` put the usage there. -/
def Usage.isCheckedFrom (usage : Usage) (uri : String) : Bool :=
  usage.contributor == .checker && usage.location.uri == uri

/-- Links to other symbols. -/
structure Relations where
  aliasOf : Option SymbolPath := none
  describedBy : Option SymbolPath := none
  deriving DecidableEq, Repr, Inhabited

def Relations.isEmpty (relations : Relations) : Bool :=
  relations.aliasOf.isNone && relations.describedBy.isNone

inductive LiteralValue where
  | boolean (value : Bool)
  | number (value : Binary64)
  | string (value : String)
  deriving DecidableEq, Repr, Inhabited

/-- What is known about the type of a declaration or of a field. -/
inductive SchemaType where
  | primitive (name : Primitive)
  | literal (value : LiteralValue)
  | list (item : SchemaType)
  | optional (inner : SchemaType)
  /-- Another declaration; there is no path when it was not found. -/
  | reference (path : Option SymbolPath)
  | struct (fields : List (String × SchemaType))
  | enum (kind : Option EnumKind) (values : List (String × Option LiteralValue))
  deriving Inhabited, Repr

def SchemaType.kindName : SchemaType → String
  | primitive _ => "primitive"
  | literal _ => "literal"
  | list _ => "list"
  | optional _ => "optional"
  | reference _ => "reference"
  | struct _ => "struct"
  | enum _ _ => "enum"

structure Symbol where
  address : SymbolPath
  subcategory : Option Subcategory := none
  desc : Option String := none
  data : Option SchemaType := none
  relations : Relations := {}
  usages : List Usage := []
  deriving Inhabited, Repr

namespace Symbol

/-- The last segment of the address. -/
def identifier (symbol : Symbol) : String := symbol.address.path.getLastD ""

def declarations (symbol : Symbol) : List Usage :=
  symbol.usages.filter fun usage => usage.kind.isDeclaring

def firstDeclaration? (symbol : Symbol) : Option Usage := symbol.declarations.head?

def definition? (symbol : Symbol) : Option Usage :=
  symbol.usages.find? fun usage => usage.kind == .definition

def isDeclared (symbol : Symbol) : Bool := symbol.usages.any fun usage => usage.kind.isDeclaring

/-- Some declaration is exported or stands in the document `uri`. -/
def isVisibleFrom (symbol : Symbol) (uri : String) : Bool :=
  symbol.declarations.any fun usage =>
    usage.visibility == .exported || usage.location.uri == uri

/-- Without a declaration nothing is known about a symbol. -/
def settle (symbol : Symbol) : Symbol :=
  if symbol.isDeclared then symbol
  else { symbol with relations := {}, data := none, desc := none }

/-- Take back what checking `uri` put at the symbol. -/
def clearUri (symbol : Symbol) (uri : String) : Symbol :=
  settle { symbol with usages := symbol.usages.filter fun usage => !usage.isCheckedFrom uri }

end Symbol

end SchemaDoc
