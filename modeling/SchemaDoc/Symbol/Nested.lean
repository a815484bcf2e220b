import SchemaDoc.Entries
import SchemaDoc.Symbol.Query

/-!
Symbols with their members inside them, by category and by key. A symbol has its category, its path and
its name written in it, besides the keys that lead to it. The flat table lists these symbols in order;
here are the operations that change a table, once for each of the two.
-/

namespace SchemaDoc

structure NestedSymbol where
  category : Category
  path : List String
  identifier : String
  subcategory : Option Subcategory := none
  desc : Option String := none
  data : Option SchemaType := none
  relations : Relations := {}
  /-- By name, in order. -/
  members : List (String × NestedSymbol) := []
  usages : List Usage := []
  deriving Inhabited

namespace NestedSymbol

/-- A symbol of which nothing but its address is known. -/
def new (category : Category) (path : List String) : NestedSymbol :=
  { category, path, identifier := path.getLastD "" }

/-- The symbol as the flat table has it. -/
def bare (symbol : NestedSymbol) : Symbol :=
  { address := ⟨symbol.category, symbol.path⟩
    subcategory := symbol.subcategory
    desc := symbol.desc
    data := symbol.data
    relations := symbol.relations
    usages := symbol.usages }

def isOrphan (symbol : NestedSymbol) : Bool := symbol.usages.isEmpty && symbol.members.isEmpty

def dropOrphans (symbols : List (String × NestedSymbol)) : List (String × NestedSymbol) :=
  symbols.filter fun entry => !entry.2.isOrphan

/-- The member of a member, and so on. -/
def descend : List String → NestedSymbol → Option NestedSymbol
  | [], symbol => some symbol
  | name :: names, symbol => (symbol.members.lookup name).bind (descend names)

/-- The symbol at a path, among those with the first segment as a key. Nothing stands at the empty path. -/
def findIn (symbols : List (String × NestedSymbol)) : List String → Option NestedSymbol
  | [] => none
  | name :: names => (symbols.lookup name).bind (descend names)

/-- Change the member of a member, and so on, if there is one. -/
def modifyBelow (change : NestedSymbol → NestedSymbol) : List String → NestedSymbol → NestedSymbol
  | [], symbol => change symbol
  | name :: names, symbol =>
    { symbol with members := adjust name (modifyBelow change names) symbol.members }

/-- Change the symbol at a path from one on the way, and create what is missing. Behind `depth`
members the segment ahead is the one at `depth + 1`. -/
def reach (category : Category) (path : List String) (change : NestedSymbol → NestedSymbol) :
    Nat → List String → NestedSymbol → NestedSymbol
  | _, [], symbol => change symbol
  | depth, name :: names, symbol =>
    { symbol with
      members := upsert compare name (new category (path.take (depth + 2)))
        (reach category path change (depth + 1) names) symbol.members }

def withoutLayout (symbol : NestedSymbol) : NestedSymbol :=
  { symbol with usages := symbol.usages.filter fun usage => usage.contributor != .layout }

/-- Without a declaration nothing is known about a symbol. -/
def settle (symbol : NestedSymbol) : NestedSymbol :=
  if symbol.usages.any fun usage => usage.kind.isDeclaring then symbol
  else { symbol with relations := {}, data := none, desc := none }

mutual

/-- Take back what checking `uri` put at a symbol and at its members, and drop the orphans. -/
def clearUri (uri : String) : NestedSymbol → NestedSymbol
  | { category, path, identifier, subcategory, desc, data, relations, members, usages } =>
    settle
      { category, path, identifier, subcategory, desc, data, relations
        members := dropOrphans (clearEach uri members)
        usages := usages.filter fun usage => !usage.isCheckedFrom uri }
termination_by structural symbol => symbol

def clearEach (uri : String) : List (String × NestedSymbol) → List (String × NestedSymbol)
  | [] => []
  | (name, member) :: members => (name, clearUri uri member) :: clearEach uri members
termination_by structural members => members

end

mutual

/-- How many symbols a symbol is, members included. -/
def count : NestedSymbol → Nat
  | { members, .. } => 1 + countEach members
termination_by structural symbol => symbol

def countEach : List (String × NestedSymbol) → Nat
  | [] => 0
  | (_, member) :: members => count member + countEach members
termination_by structural members => members

end

mutual

/-- A symbol and all its members, each before its own. -/
def preorder : NestedSymbol → List NestedSymbol
  | symbol@{ members, .. } => symbol :: preorderEach members
termination_by structural symbol => symbol

def preorderEach : List (String × NestedSymbol) → List NestedSymbol
  | [] => []
  | (_, member) :: members => preorder member ++ preorderEach members
termination_by structural members => members

end

end NestedSymbol

def SymbolRecord.applyNested (record : SymbolRecord) (symbol : NestedSymbol) : NestedSymbol :=
  { symbol with
    subcategory := record.subcategory <|> symbol.subcategory
    desc := record.desc <|> symbol.desc
    data := record.data <|> symbol.data
    relations :=
      { aliasOf := record.relations.aliasOf <|> symbol.relations.aliasOf
        describedBy := record.relations.describedBy <|> symbol.relations.describedBy }
    usages := symbol.usages ++ record.usage.toList }

/-- Top-level symbols by category and key, both in order. -/
structure NestedTable where
  categories : List (Category × List (String × NestedSymbol)) := []
  deriving Inhabited

namespace NestedTable

def lookup? (table : NestedTable) (address : SymbolPath) : Option NestedSymbol :=
  (table.categories.lookup address.category).bind fun symbols => NestedSymbol.findIn symbols address.path

/-- Change the symbol at an address, if there is one. -/
def modify (table : NestedTable) (address : SymbolPath) (change : NestedSymbol → NestedSymbol) : NestedTable :=
  match address.path with
  | [] => table
  | key :: names =>
    { categories := adjust address.category (adjust key (.modifyBelow change names)) table.categories }

/-- Change the symbol at an address, which is created if need be with all that is missing on the way.
Nothing stands at the empty path. -/
def reach (table : NestedTable) (address : SymbolPath) (change : NestedSymbol → NestedSymbol) : NestedTable :=
  match address.path with
  | [] => table
  | key :: names =>
    { categories := upsert Category.compare address.category []
        (upsert compare key (.new address.category [key])
          (.reach address.category address.path change 0 names)) table.categories }

def getOrCreate (table : NestedTable) (address : SymbolPath) : NestedTable := table.reach address id

def enter (table : NestedTable) (address : SymbolPath) (record : SymbolRecord) : NestedTable :=
  table.reach address record.applyNested

def amend (table : NestedTable) (address : SymbolPath) (record : SymbolRecord) : NestedTable :=
  table.modify address record.applyNested

/-- The number of symbols, members included. -/
def size (table : NestedTable) : Nat :=
  NestedSymbol.countEach (table.categories.flatMap Prod.snd)

/-- Record that the document `uri` implements a module. -/
def registerModule (table : NestedTable) (path : ModulePath) (uri : String) : NestedTable :=
  table.reach (.schema path.display) fun symbol =>
    { symbol with
      subcategory := some .module
      usages :=
        if SymbolTable.isImplementedBy symbol.bare uri then symbol.usages
        else symbol.usages ++ [SymbolTable.implementation uri] }

/-- Take back what the layout put at modules. -/
def clearLayout (table : NestedTable) : NestedTable :=
  { categories := adjust .schema (fun symbols =>
      NestedSymbol.dropOrphans (symbols.map fun entry => (entry.1, entry.2.withoutLayout))) table.categories }

/-- Take back what checking the document `uri` put into the table. -/
def clearUri (table : NestedTable) (uri : String) : NestedTable :=
  { categories :=
      (table.categories.map fun entry =>
        (entry.1, NestedSymbol.dropOrphans (NestedSymbol.clearEach uri entry.2))).filter
          fun entry => !entry.2.isEmpty }

/-- The flat table of the same symbols. -/
def flatten (table : NestedTable) : SymbolTable :=
  { categories := table.categories.map Prod.fst
    symbols := (table.categories.flatMap fun entry => NestedSymbol.preorderEach entry.2).map NestedSymbol.bare }

end NestedTable

/-- What a query does to a table: merge a record at its address, with or without creating it, or ask about a member. -/
inductive QueryStep where
  | enter (record : SymbolRecord)
  | amend (record : SymbolRecord)
  | member (name : String) (steps : List QueryStep)

namespace QueryStep

mutual

def run (address : SymbolPath) (table : NestedTable) : QueryStep → NestedTable
  | enter record => table.enter address record
  | amend record => table.amend address record
  | member name steps => runEach (address.member name) table steps
termination_by structural step => step

def runEach (address : SymbolPath) (table : NestedTable) : List QueryStep → NestedTable
  | [] => table
  | step :: steps => runEach address (run address table step) steps
termination_by structural steps => steps

end

mutual

def ask (query : Query) : QueryStep → Query
  | enter record => query.enter record
  | amend record => query.amend record
  | member name steps => query.member name fun inner => askEach inner steps
termination_by structural step => step

def askEach (query : Query) : List QueryStep → Query
  | [] => query
  | step :: steps => askEach (ask query step) steps
termination_by structural steps => steps

end

end QueryStep

/-- What changes a table. -/
inductive TableOperation where
  | registerModule (path : ModulePath) (uri : String)
  | getOrCreate (address : SymbolPath)
  | query (uri : String) (address : SymbolPath) (steps : List QueryStep)
  | clearUri (uri : String)
  | clearLayout

namespace TableOperation

def run (table : NestedTable) : TableOperation → NestedTable
  | registerModule path uri => table.registerModule path uri
  | getOrCreate address => table.getOrCreate address
  | query _ address steps => QueryStep.runEach address table steps
  | clearUri uri => table.clearUri uri
  | clearLayout => table.clearLayout

def runFlat (table : SymbolTable) : TableOperation → SymbolTable
  | registerModule path uri => table.registerModule path uri
  | getOrCreate address => table.ensure address
  | query uri address steps => (QueryStep.askEach (Query.start table uri address) steps).table
  | clearUri uri => table.clearUri uri
  | clearLayout => table.clearLayout

end TableOperation

/-- The table that operations make of the empty one. -/
def NestedTable.build (operations : List TableOperation) : NestedTable := operations.foldl TableOperation.run {}

def SymbolTable.build (operations : List TableOperation) : SymbolTable := operations.foldl TableOperation.runFlat {}

end SchemaDoc
