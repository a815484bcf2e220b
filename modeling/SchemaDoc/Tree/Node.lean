import SchemaDoc.Number.Binary64
import SchemaDoc.Text.Span

/-!
The syntax tree. Every node has a kind, a span and its children in the order of the text. A child
may carry the role that it plays for its parent; content that is missing from the text is a role
without a child.
-/

namespace SchemaDoc

/-- The built-in scalar types. -/
inductive Primitive where
  | any
  | boolean
  | byte
  | short
  | int
  | long
  | float
  | double
  | string
  deriving DecidableEq, Repr, Inhabited

namespace Primitive

def name : Primitive → String
  | any => "any"
  | boolean => "boolean"
  | byte => "byte"
  | short => "short"
  | int => "int"
  | long => "long"
  | float => "float"
  | double => "double"
  | string => "string"

def all : List Primitive := [any, boolean, byte, short, int, long, float, double, string]

def ofName? (word : String) : Option Primitive := all.find? fun primitive => primitive.name == word

end Primitive

/-- The type of the values of an enum. -/
inductive EnumKind where
  | byte
  | short
  | int
  | long
  | float
  | double
  | string
  deriving DecidableEq, Repr, Inhabited

namespace EnumKind

def name : EnumKind → String
  | byte => "byte"
  | short => "short"
  | int => "int"
  | long => "long"
  | float => "float"
  | double => "double"
  | string => "string"

def all : List EnumKind := [byte, short, int, long, float, double, string]

def ofName? (word : String) : Option EnumKind := all.find? fun kind => kind.name == word

def isNumeric (kind : EnumKind) : Bool := kind != string

end EnumKind

/-- What a node stands for. -/
inductive Node.Kind where
  | document
  | docComments (text : String)
  | keyword (value : String)
  | identifier (value : String)
  | string (value : String)
  | number (value : Binary64)
  | boolean (value : Bool)
  | resourceLocation (space : Option String) (path : String)
  | identPath (fromRoot : Bool)
  | table
  | list
  | pair (separator stop : Option Span)
  | item (stop : Option Span)
  | primitiveType (primitive : Primitive)
  | listType
  | optionalType
  | literalType
  | referenceType
  | struct
  | enum (kind : Option EnumKind)
  | moduleDeclaration
  | useClause (isExport : Bool)
  | injectClause
  | injectStruct
  | injectEnum (kind : Option EnumKind)
  | describesClause
  deriving DecidableEq, Repr, Inhabited

def Node.Kind.name : Node.Kind → String
  | document => "main"
  | docComments _ => "doc_comments"
  | keyword _ => "keyword"
  | identifier _ => "identifier"
  | string _ => "string"
  | number _ => "number"
  | boolean _ => "boolean"
  | resourceLocation _ _ => "resource_location"
  | identPath _ => "ident_path"
  | table => "table"
  | list => "list"
  | pair _ _ => "pair"
  | item _ => "item"
  | primitiveType _ => "primitive_type"
  | listType => "list_type"
  | optionalType => "optional_type"
  | literalType => "literal_type"
  | referenceType => "reference_type"
  | struct => "struct"
  | enum _ => "enum"
  | moduleDeclaration => "module_declaration"
  | useClause _ => "use_clause"
  | injectClause => "inject_clause"
  | injectStruct => "inject_struct"
  | injectEnum _ => "inject_enum"
  | describesClause => "describes_clause"

/-- The part that a child plays for its parent. -/
inductive Node.Role where
  | doc
  | keyword
  | identifier
  | key
  | value
  | body
  | path
  | kind
  | type
  | registry
  | objects
  | definition
  deriving DecidableEq, Repr, Inhabited

def Node.Role.name : Node.Role → String
  | doc => "doc"
  | keyword => "keyword"
  | identifier => "identifier"
  | key => "key"
  | value => "value"
  | body => "body"
  | path => "path"
  | kind => "kind"
  | type => "type"
  | registry => "registry"
  | objects => "objects"
  | definition => "definition"

structure Node where
  kind : Node.Kind
  span : Span
  role : Option Node.Role := none
  children : List Node := []
  deriving Inhabited, Repr

namespace Node

/-- Give the node its role. -/
def tagged (node : Node) (role : Role) : Node := { node with role := some role }

/-- The first child with a role. -/
def child? (node : Node) (role : Role) : Option Node :=
  node.children.find? fun child => child.role == some role

/-- The value of an identifier or of a string. -/
def textValue? (node : Node) : Option String :=
  match node.kind with
  | .identifier value | .string value => some value
  | _ => none

/-- The text of the doc comments in front of a node. -/
def doc? (node : Node) : Option String :=
  (node.child? .doc).bind fun doc =>
    match doc.kind with
    | .docComments text => some text
    | _ => none

/-- The name that a declaration gives. -/
def identifier? (node : Node) : Option String :=
  (node.child? .identifier).bind textValue?

/-- The spans of the separators that a pair or an item records besides its children. -/
def separators (node : Node) : List Span :=
  match node.kind with
  | .pair separator stop => separator.toList ++ stop.toList
  | .item stop => stop.toList
  | _ => []

/-- Mark that an entry is followed by a separator, which then belongs to the entry. -/
def endedBy (entry : Node) (separator : Span) : Node :=
  let kind := match entry.kind with
    | .pair inner _ => Kind.pair inner (some separator)
    | .item _ => Kind.item (some separator)
    | other => other
  { entry with kind, span := entry.span.cover separator }

/-- Neighbours do not overlap and stand in order. -/
def ordered : List Node → Bool
  | first :: second :: rest =>
    decide (first.span.stop ≤ second.span.start) && ordered (second :: rest)
  | _ => true

mutual

/-- Everything a node records lies inside its span, and its children stand in order. -/
def isWellFormed : Node → Bool
  | ⟨kind, span, role, children⟩ =>
    (separators ⟨kind, span, role, children⟩).all span.contains &&
      children.all (fun child => span.contains child.span) &&
      ordered children && allWellFormed children

def allWellFormed : List Node → Bool
  | [] => true
  | node :: nodes => node.isWellFormed && allWellFormed nodes

end

mutual

/-- The node and all below it, each before its children. -/
def preorder : Node → List Node
  | ⟨kind, span, role, children⟩ => ⟨kind, span, role, children⟩ :: forestPreorder children

def forestPreorder : List Node → List Node
  | [] => []
  | node :: nodes => node.preorder ++ forestPreorder nodes

end

end Node

end SchemaDoc
