import SchemaDoc.Symbol.Table

/-!
Queries: chains of steps on one address of the table, as seen from one document. The steps that ask
whether the address is declared or unknown settle the query when they fire; the steps that stand for
"otherwise" then do nothing.
-/

namespace SchemaDoc

structure Query where
  table : SymbolTable
  /-- The document that asks. -/
  uri : String
  address : SymbolPath
  /-- Whether the address is declared and visible from the document. -/
  isDeclared : Bool
  /-- Whether a condition has fired. -/
  isHandled : Bool
  deriving Inhabited

namespace Query

/-- Whether an address is declared and visible from a document. -/
def sees (table : SymbolTable) (uri : String) (address : SymbolPath) : Bool :=
  (table.lookup? address).any fun symbol => symbol.isDeclared && symbol.isVisibleFrom uri

/-- Look at the table again. -/
def refresh (query : Query) : Query :=
  { query with isDeclared := sees query.table query.uri query.address }

def start (table : SymbolTable) (uri : String) (address : SymbolPath) : Query :=
  { table, uri, address, isDeclared := sees table uri address, isHandled := false }

def symbol? (query : Query) : Option Symbol := query.table.lookup? query.address

/-- The symbol that the condition "is declared" fires with. -/
def declared? (query : Query) : Option Symbol :=
  if !query.isHandled && query.isDeclared then query.symbol? else none

/-- Settle the query if its address is declared. -/
def ifDeclared (query : Query) : Query :=
  if query.declared?.isSome then { query with isHandled := true } else query

/-- Whether the condition "is unknown" fires. -/
def isUnknown (query : Query) : Bool := !query.isHandled && !query.isDeclared

/-- Settle the query if its address is unknown. -/
def ifUnknown (query : Query) : Query :=
  if query.isUnknown then { query with isHandled := true } else query

/-- Do something unless the query is settled. -/
def otherwise (query : Query) (action : Query → Query) : Query :=
  if query.isHandled then query else action query

/-- Merge a record into the symbol, which is created if need be. -/
def enter (query : Query) (record : SymbolRecord) : Query :=
  refresh { query with table := query.table.enter query.address record }

def elseEnter (query : Query) (record : SymbolRecord) : Query :=
  query.otherwise fun pending => pending.enter record

/-- Merge a record into the symbol, if there is one. -/
def amend (query : Query) (record : SymbolRecord) : Query :=
  refresh { query with table := query.table.amend query.address record }

/-- Run a chain on a member, with whatever the chain returns besides. -/
def memberWith {α : Type} (query : Query) (name : String) (chain : Query → α × Query) :
    α × Query :=
  let (result, inner) := chain (start query.table query.uri (query.address.member name))
  (result, refresh { query with table := inner.table })

def member (query : Query) (name : String) (chain : Query → Query) : Query :=
  (query.memberWith name fun inner => ((), chain inner)).2

/-- Do something for each item in turn, whether the query is settled or not. -/
def onEach {α : Type} (query : Query) (items : List α) (action : α → Query → Query) : Query :=
  items.foldl (fun pending item => action item pending) query

/-- Follow alias links from an address for at most `steps` of them. -/
def chase (table : SymbolTable) : Nat → SymbolPath → SymbolPath
  | 0, address => address
  | steps + 1, address =>
    match (table.lookup? address).bind fun symbol => symbol.relations.aliasOf with
    | none => address
    | some target => chase table steps target

/-- Go to the end of the alias links, unless the query is settled or its address unknown. Links that
do not end are followed for as many steps as there are symbols. -/
def elseResolveAlias (query : Query) : Query :=
  if query.isHandled || !query.isDeclared then query
  else refresh { query with address := chase query.table query.table.size query.address }

end Query

end SchemaDoc
