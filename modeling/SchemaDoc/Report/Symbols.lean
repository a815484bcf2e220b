import SchemaDoc.Report.Diagnostics
import SchemaDoc.Wire.Symbol

/-!
Symbols as a reader sees them: addresses as text, usages by file and offsets, members in a list.
-/

namespace SchemaDoc

namespace SymbolReport

def usageJson (root : String) (usage : Usage) : Json :=
  .obj [("kind", .str usage.kind.name), ("file", .str (Uri.shown root usage.location.uri)),
    ("start", .nat usage.location.span.start), ("end", .nat usage.location.span.stop)]

/-- A symbol with its members among `symbols`, `depth` levels of them. -/
def symbolJsonWithin (root : String) (symbols : List Symbol) : Nat → Symbol → Json
  | 0, _ => .null
  | depth + 1, symbol =>
    let members := Symbol.membersOf symbols symbol.address
    let shown (address : SymbolPath) : Json := .str address.display
    .obj ([("category", .str symbol.address.category.display),
        ("identifier", .str symbol.identifier)] ++
      Json.member? "subcategory" (fun known => .str (Subcategory.name known)) symbol.subcategory ++
      Json.member? "desc" .str symbol.desc ++
      Json.member? "alias_of" shown symbol.relations.aliasOf ++
      Json.member? "described_by" shown symbol.relations.describedBy ++
      Json.member? "data" SchemaType.toJson symbol.data ++
      [("usages", .arr (symbol.usages.map (usageJson root)))] ++
      Json.memberIf (!members.isEmpty) "members"
        (.arr (members.map (symbolJsonWithin root symbols depth))))

/-- A symbol with all its members: each level of them has a longer path, so no more levels can be
than there are symbols. -/
def symbolJson (root : String) (symbols : List Symbol) (symbol : Symbol) : Json :=
  symbolJsonWithin root symbols (symbols.length + 1) symbol

/-- The report on symbols of a table that are members of none. -/
def members (root : String) (table : SymbolTable) (selected : List Symbol) :
    List (String × Json) :=
  [("count", .nat selected.length),
    ("symbols", .arr (selected.map (symbolJson root table.symbols)))]

end SymbolReport

/-- The symbols of a table that are members of none, category by category. -/
def SymbolTable.allTopLevel (table : SymbolTable) : List Symbol :=
  table.categories.flatMap table.topLevel

end SchemaDoc
