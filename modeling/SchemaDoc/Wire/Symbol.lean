import SchemaDoc.Symbol.Table
import SchemaDoc.Wire.Diagnostic

/-!
Symbols as JSON. A symbol shows its members inside it, so that its object is a tree although the
table is flat; what has no value is left out.
-/

namespace SchemaDoc

def SymbolPath.toJson (address : SymbolPath) : Json :=
  .obj [("category", .str address.category.display), ("path", Json.texts address.path)]

def LiteralValue.toJson : LiteralValue → Json
  | .boolean value => .bool value
  | .number value => .float value
  | .string value => .str value

def Usage.toJson (usage : Usage) : Json :=
  .obj ([("kind", .str usage.kind.name), ("location", usage.location.toJson)] ++
    Json.member? "full_range" Span.toJson usage.fullSpan ++
    [("renamable", .bool usage.renamable), ("visibility", .str usage.visibility.name),
      ("contributor", .str usage.contributor.name)])

def Relations.toJson (relations : Relations) : Json :=
  .obj (Json.member? "alias_of" SymbolPath.toJson relations.aliasOf ++
    Json.member? "described_by" SymbolPath.toJson relations.describedBy)

namespace SchemaType

def enumValueJson (entry : String × Option LiteralValue) : Json :=
  .obj (("identifier", .str entry.1) :: Json.member? "value" LiteralValue.toJson entry.2)

mutual

def toJson : SchemaType → Json
  | .primitive name => .obj [("kind", .str "primitive"), ("name", .str name.name)]
  | .literal value => .obj [("kind", .str "literal"), ("value", value.toJson)]
  | .list item => .obj [("kind", .str "list"), ("item", item.toJson)]
  | .optional inner => .obj [("kind", .str "optional"), ("inner", inner.toJson)]
  | .reference path =>
    .obj (("kind", .str "reference") :: Json.member? "path" SymbolPath.toJson path)
  | .struct fields => .obj [("kind", .str "struct"), ("fields", .arr (fieldsJson fields))]
  | .enum kind values =>
    .obj (("kind", .str "enum") :: Json.member? "enum_kind" (fun known => .str known.name) kind ++
      [("values", .arr (values.map enumValueJson))])

def fieldsJson : List (String × SchemaType) → List Json
  | [] => []
  | (key, type) :: fields => .obj [("key", .str key), ("type", type.toJson)] :: fieldsJson fields

end

end SchemaType

namespace Symbol

/-- The direct members of an address among symbols. -/
def membersOf (symbols : List Symbol) (address : SymbolPath) : List Symbol :=
  symbols.filter fun symbol => symbol.address.isMemberOf address

/-- A symbol with its members, `depth` levels of them. -/
def toJsonWithin (symbols : List Symbol) : Nat → Symbol → Json
  | 0, _ => .null
  | depth + 1, symbol =>
    let members := membersOf symbols symbol.address
    .obj ([("category", .str symbol.address.category.display),
        ("path", Json.texts symbol.address.path), ("identifier", .str symbol.identifier)] ++
      Json.member? "subcategory" (fun known => .str (Subcategory.name known)) symbol.subcategory ++
      Json.member? "desc" .str symbol.desc ++
      Json.member? "data" SchemaType.toJson symbol.data ++
      Json.memberIf (!symbol.relations.isEmpty) "relations" symbol.relations.toJson ++
      Json.memberIf (!members.isEmpty) "members"
        (.obj (members.map fun member => (member.identifier, toJsonWithin symbols depth member))) ++
      [("usages", .arr (symbol.usages.map Usage.toJson))])

/-- A symbol with its members. Each level of members has a longer path, so no more levels can be
than there are symbols. -/
def toJson (symbols : List Symbol) (symbol : Symbol) : Json :=
  toJsonWithin symbols (symbols.length + 1) symbol

end Symbol

/-- The table, by category and key. -/
def SymbolTable.toJson (table : SymbolTable) : Json :=
  .obj (table.categories.map fun category =>
    (category.display, .obj ((table.topLevel category).map fun symbol =>
      (symbol.identifier, symbol.toJson table.symbols))))

end SchemaDoc
