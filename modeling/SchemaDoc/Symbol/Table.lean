import SchemaDoc.Symbol.Basic

/-!
The symbol table: symbols in the order of their addresses, each at most once, and with every member
also the symbol that it is a member of. A category stays open while it is listed, even without
symbols in it.
-/

namespace SchemaDoc

/-- Put a symbol in its place, unless its address is taken. -/
def insertSymbol (symbol : Symbol) : List Symbol → List Symbol
  | [] => [symbol]
  | other :: others =>
    match symbol.address.compare other.address with
    | .lt => symbol :: other :: others
    | .eq => other :: others
    | .gt => other :: insertSymbol symbol others

/-- Put a category in its place, unless it is listed. -/
def insertCategory (category : Category) : List Category → List Category
  | [] => [category]
  | other :: others =>
    match category.compare other with
    | .lt => category :: other :: others
    | .eq => other :: others
    | .gt => other :: insertCategory category others

/-- Keep the symbols that are used themselves or have a member that is kept. The members of a symbol
follow it, so that the first symbol kept behind it tells. -/
def prune : List Symbol → List Symbol
  | [] => []
  | symbol :: others =>
    let kept := prune others
    let hasMember := match kept with
      | [] => false
      | next :: _ => next.address.isBelow symbol.address
    if symbol.usages.isEmpty && !hasMember then kept else symbol :: kept

/-- Take back what checking `uri` put at symbols, and drop those that nothing uses any more. -/
def clearSymbols (uri : String) (symbols : List Symbol) : List Symbol :=
  prune (symbols.map fun symbol => symbol.clearUri uri)

/-- What is merged into a symbol: what is given replaces, and a usage is added behind the others. -/
structure SymbolRecord where
  subcategory : Option Subcategory := none
  desc : Option String := none
  data : Option SchemaType := none
  relations : Relations := {}
  usage : Option Usage := none
  deriving Inhabited, Repr

def SymbolRecord.apply (record : SymbolRecord) (symbol : Symbol) : Symbol :=
  { symbol with
    subcategory := record.subcategory <|> symbol.subcategory
    desc := record.desc <|> symbol.desc
    data := record.data <|> symbol.data
    relations :=
      { aliasOf := record.relations.aliasOf <|> symbol.relations.aliasOf
        describedBy := record.relations.describedBy <|> symbol.relations.describedBy }
    usages := symbol.usages ++ record.usage.toList }

structure SymbolTable where
  categories : List Category := []
  symbols : List Symbol := []
  deriving Inhabited, Repr

namespace SymbolTable

def empty : SymbolTable := {}

/-- The number of symbols, members included. -/
def size (table : SymbolTable) : Nat := table.symbols.length

def isEmpty (table : SymbolTable) : Bool := table.symbols.isEmpty

/-- The symbol at an address. Nothing stands at the empty path. -/
def lookup? (table : SymbolTable) (address : SymbolPath) : Option Symbol :=
  table.symbols.find? fun symbol => symbol.address == address

/-- The addresses on the way to an address, itself included. -/
def approach (address : SymbolPath) : List SymbolPath :=
  (List.range address.path.length).map fun count =>
    { address with path := address.path.take (count + 1) }

/-- Make sure that a symbol stands at an address and at each one on the way. -/
def ensure (table : SymbolTable) (address : SymbolPath) : SymbolTable :=
  if address.path.isEmpty then table
  else
    { categories := insertCategory address.category table.categories
      symbols := (approach address).foldl
        (fun symbols step => insertSymbol { address := step } symbols) table.symbols }

/-- Change the symbol at an address, if there is one. -/
def modify (table : SymbolTable) (address : SymbolPath) (change : Symbol → Symbol) : SymbolTable :=
  { table with
    symbols := table.symbols.map fun symbol =>
      if symbol.address = address then change symbol else symbol }

/-- Merge a record into the symbol at an address, which is created if need be. -/
def enter (table : SymbolTable) (address : SymbolPath) (record : SymbolRecord) : SymbolTable :=
  (table.ensure address).modify address record.apply

/-- Merge a record into the symbol at an address, if there is one. -/
def amend (table : SymbolTable) (address : SymbolPath) (record : SymbolRecord) : SymbolTable :=
  table.modify address record.apply

/-- The symbols of a category that are members of none. -/
def topLevel (table : SymbolTable) (category : Category) : List Symbol :=
  table.symbols.filter fun symbol =>
    symbol.address.category == category && symbol.address.path.length == 1

/-- Whether the layout says that `uri` implements the symbol. -/
def isImplementedBy (symbol : Symbol) (uri : String) : Bool :=
  symbol.usages.any fun usage =>
    usage.contributor == .layout && usage.kind == .implementation && usage.location.uri == uri

/-- The usage by which a document implements a module. -/
def implementation (uri : String) : Usage :=
  { kind := .implementation, location := ⟨uri, .point 0⟩, contributor := .layout }

/-- Record that the document `uri` implements a module; saying it twice changes nothing. -/
def registerModule (table : SymbolTable) (path : ModulePath) (uri : String) : SymbolTable :=
  let address := SymbolPath.schema path.display
  (table.ensure address).modify address fun symbol =>
    { symbol with
      subcategory := some .module
      usages :=
        if isImplementedBy symbol uri then symbol.usages
        else symbol.usages ++ [implementation uri] }

/-- Whether a symbol stands for a module or type, not for a member or an object. -/
def isSchemaKey (symbol : Symbol) : Bool :=
  symbol.address.category == .schema && symbol.address.path.length == 1

/-- Take back what the layout put at modules. A module that nothing else uses and that has no
members goes; its category stays open. -/
def clearLayout (table : SymbolTable) : SymbolTable :=
  let stripped := table.symbols.map fun symbol =>
    if isSchemaKey symbol then
      { symbol with usages := symbol.usages.filter fun usage => usage.contributor != .layout }
    else symbol
  { table with
    symbols := stripped.filter fun symbol =>
      !(isSchemaKey symbol && symbol.usages.isEmpty &&
        !stripped.any fun other => other.address.isBelow symbol.address) }

/-- Take back what checking the document `uri` put into the table. -/
def clearUri (table : SymbolTable) (uri : String) : SymbolTable :=
  let symbols := clearSymbols uri table.symbols
  { symbols
    categories := table.categories.filter fun category =>
      symbols.any fun symbol => symbol.address.category == category }

def modules (table : SymbolTable) : List Symbol :=
  (table.topLevel .schema).filter fun symbol => symbol.subcategory == some .module

/-- The documents that implement a module. -/
def implementers (module : Symbol) : List String :=
  (module.usages.filter fun usage => usage.kind == .implementation).map fun usage =>
    usage.location.uri

/-- Every module with each document that implements it. -/
def moduleUris (table : SymbolTable) : List (ModulePath × String) :=
  table.modules.flatMap fun module =>
    (implementers module).map fun uri => (ModulePath.parse module.identifier, uri)

/-- The module that a document implements. -/
def moduleOfUri? (table : SymbolTable) (uri : String) : Option ModulePath :=
  (table.modules.find? fun module => (implementers module).contains uri).map fun module =>
    ModulePath.parse module.identifier

/-- The first document that implements a module. -/
def uriOfModule? (table : SymbolTable) (path : ModulePath) : Option String :=
  (table.lookup? (.schema path.display)).bind fun module =>
    if module.subcategory = some .module then (implementers module).head? else none

end SymbolTable

end SchemaDoc
