import SchemaDoc.Symbol.Query

/-! Chains of query steps. A query remembers what it saw at its address, while its own steps and those of the queries
on members inside of it change the table and send it to other addresses. What it remembers is never out of date, at
most one of its conditions fires, and then the steps that stand for "otherwise" do nothing. -/

namespace SchemaDoc

namespace Query

/-- A chain of steps leads from a query to another one, and so many of its conditions fire on the way. A closure does
what it likes with the query it is handed, as long as that is a chain again. -/
inductive Leads : Query → Nat → Query → Prop where
  | done (query : Query) : Leads query 0 query
  | andThen {first middle last : Query} {fired more : Nat} (leads : Leads first fired middle) (onward : Leads middle more last) :
      Leads first (fired + more) last
  | ifDeclared (query : Query) : Leads query (if query.declared?.isSome then 1 else 0) query.ifDeclared
  | ifUnknown (query : Query) : Leads query (if query.isUnknown then 1 else 0) query.ifUnknown
  | otherwise {query : Query} {action : Query → Query} {fired : Nat} (closure : Leads query fired (action query)) :
      Leads query (if query.isHandled then 0 else fired) (query.otherwise action)
  | elseEnter (query : Query) (record : SymbolRecord) : Leads query 0 (query.elseEnter record)
  | enter (query : Query) (record : SymbolRecord) : Leads query 0 (query.enter record)
  | amend (query : Query) (record : SymbolRecord) : Leads query 0 (query.amend record)
  /-- The conditions inside are those of the query on the member. -/
  | member {query : Query} {name : String} {chain : Query → Query} {inside : Nat}
      (closure : Leads (start query.table query.uri (query.address.member name)) inside
        (chain (start query.table query.uri (query.address.member name)))) : Leads query 0 (query.member name chain)
  | onNone {α : Type} (query : Query) (action : α → Query → Query) : Leads query 0 (query.onEach [] action)
  | onEach {α : Type} {query : Query} {item : α} {items : List α} {action : α → Query → Query} {fired more : Nat}
      (closure : Leads query fired (action item query))
      (others : Leads (action item query) more ((action item query).onEach items action)) :
      Leads query (fired + more) (query.onEach (item :: items) action)
  | elseResolveAlias (query : Query) : Leads query 0 query.elseResolveAlias

def IsFresh (query : Query) : Prop := query.isDeclared = sees query.table query.uri query.address

variable {first last query : Query} {fired : Nat}

theorem isFresh_refresh (query : Query) : query.refresh.IsFresh := rfl

theorem isFresh_start (table : SymbolTable) (uri : String) (address : SymbolPath) : (start table uri address).IsFresh := rfl

theorem IsFresh.ifDeclared (fresh : query.IsFresh) : query.ifDeclared.IsFresh := by
  rw [Query.ifDeclared]
  split <;> exact fresh

theorem IsFresh.ifUnknown (fresh : query.IsFresh) : query.ifUnknown.IsFresh := by
  rw [Query.ifUnknown]
  split <;> exact fresh

theorem IsFresh.otherwise {action : Query → Query} (fresh : query.IsFresh) (next : (action query).IsFresh) :
    (query.otherwise action).IsFresh := by
  rw [Query.otherwise]
  split
  · exact fresh
  · exact next

theorem IsFresh.elseResolveAlias (fresh : query.IsFresh) : query.elseResolveAlias.IsFresh := by
  rw [Query.elseResolveAlias]
  split
  · exact fresh
  · exact isFresh_refresh _

/-- A condition that fires settles the query, which was not settled before. -/
theorem ifDeclared_isHandled (query : Query) :
    query.ifDeclared.isHandled.toNat = query.isHandled.toNat + if query.declared?.isSome then 1 else 0 := by
  by_cases fires : query.declared?.isSome = true
  · have pending : query.isHandled = false := by
      cases handled : query.isHandled with
      | false => rfl
      | true => simp [declared?, handled] at fires
    simp [Query.ifDeclared, fires, pending]
  · simp [Query.ifDeclared, fires]

theorem ifUnknown_isHandled (query : Query) :
    query.ifUnknown.isHandled.toNat = query.isHandled.toNat + if query.isUnknown then 1 else 0 := by
  by_cases fires : query.isUnknown = true
  · have pending : query.isHandled = false := by
      rw [isUnknown, Bool.and_eq_true, Bool.not_eq_true'] at fires
      exact fires.1
    simp [Query.ifUnknown, fires, pending]
  · simp [Query.ifUnknown, fires]

theorem otherwise_of_handled (handled : query.isHandled = true) (action : Query → Query) :
    query.otherwise action = query := if_pos handled

theorem elseResolveAlias_of_handled (handled : query.isHandled = true) : query.elseResolveAlias = query := by
  simp [elseResolveAlias, handled]

theorem elseResolveAlias_keeps (query : Query) :
    query.elseResolveAlias.table = query.table ∧ query.elseResolveAlias.uri = query.uri ∧
      query.elseResolveAlias.isHandled = query.isHandled := by
  rw [Query.elseResolveAlias]
  split <;> exact ⟨rfl, rfl, rfl⟩

namespace Leads

theorem isFresh (leads : first.Leads fired last) (fresh : first.IsFresh) : last.IsFresh := by
  induction leads with
  | done | onNone => exact fresh
  | andThen _ _ ih onward => exact onward (ih fresh)
  | ifDeclared => exact fresh.ifDeclared
  | ifUnknown => exact fresh.ifUnknown
  | otherwise _ ih => exact fresh.otherwise (ih fresh)
  | elseEnter => exact fresh.otherwise (isFresh_refresh _)
  | enter | amend | member => exact isFresh_refresh _
  | onEach _ _ ih others => exact others (ih fresh)
  | elseResolveAlias => exact fresh.elseResolveAlias

/-- The conditions of a query that fire are counted by its being settled. -/
theorem isHandled (leads : first.Leads fired last) : last.isHandled.toNat = first.isHandled.toNat + fired := by
  induction leads with
  | done | onNone | enter | amend | member => rfl
  | andThen _ _ ih onward => rw [onward, ih, Nat.add_assoc]
  | ifDeclared query => exact query.ifDeclared_isHandled
  | ifUnknown query => exact query.ifUnknown_isHandled
  | @otherwise query action fired _ ih =>
    rw [Query.otherwise]
    split
    · rfl
    · exact ih
  | elseEnter query record =>
    rw [Query.elseEnter, Query.otherwise]
    split <;> rfl
  | onEach _ _ ih others => exact others.trans (by rw [ih, Nat.add_assoc])
  | elseResolveAlias query => rw [query.elseResolveAlias_keeps.2.2, Nat.add_zero]

theorem uri (leads : first.Leads fired last) : last.uri = first.uri := by
  induction leads with
  | done | onNone | enter | amend | member => rfl
  | andThen _ _ ih onward => exact onward.trans ih
  | ifDeclared query =>
    rw [Query.ifDeclared]
    split <;> rfl
  | ifUnknown query =>
    rw [Query.ifUnknown]
    split <;> rfl
  | otherwise _ ih =>
    rw [Query.otherwise]
    split
    · rfl
    · exact ih
  | elseEnter query record =>
    rw [Query.elseEnter, Query.otherwise]
    split <;> rfl
  | onEach _ _ ih others => exact others.trans ih
  | elseResolveAlias query => exact query.elseResolveAlias_keeps.2.1

end Leads

/-- Wherever a chain has led a query, it is declared just if the table has, at its address by now, a symbol that is
declared and visible from its document; at most one of its conditions has fired; and once one has, the steps for
"otherwise" leave the query and the table alone. -/
theorem chain_coherent {table : SymbolTable} {uri : String} {address : SymbolPath}
    (leads : (start table uri address).Leads fired query) :
    (query.isDeclared = true ↔ ∃ symbol, query.table.lookup? query.address = some symbol ∧ symbol.isDeclared = true ∧
        symbol.isVisibleFrom uri = true) ∧
      fired ≤ 1 ∧
      (fired = 1 → (∀ action, query.otherwise action = query) ∧ (∀ record, query.elseEnter record = query) ∧
        query.elseResolveAlias = query) := by
  have here : query.uri = uri := leads.uri
  have fresh : query.isDeclared = sees query.table uri query.address := here ▸ leads.isFresh (isFresh_start table uri address)
  have count : query.isHandled.toNat = 0 + fired := leads.isHandled
  refine ⟨?_, ?_, fun fires => ?_⟩
  · rw [fresh, sees, Option.any_eq_true]
    simp only [Bool.and_eq_true]
  · have bound := Bool.toNat_le query.isHandled
    omega
  · have handled : query.isHandled = true := by
      rw [← Bool.toNat_eq_one]
      omega
    exact ⟨otherwise_of_handled handled, fun record => otherwise_of_handled handled _, elseResolveAlias_of_handled handled⟩

def aliasTable : SymbolTable :=
  let place (uri : String) (kind : UsageKind) : Option Usage := some { kind, location := ⟨uri, ⟨0, 1⟩⟩ }
  (SymbolTable.empty.enter (.schema "::b::X") { usage := place "file:///b.sdoc" .definition }).enter (.schema "::a::X")
    { usage := place "file:///a.sdoc" .declaration, relations := { aliasOf := some (.schema "::b::X") } }

def enterUnknown (inner : Query) : Query :=
  inner.ifUnknown.enter { usage := some { kind := .definition, location := ⟨"file:///a.sdoc", ⟨2, 3⟩⟩ } }

def aliasQuery : Query := start aliasTable "file:///a.sdoc" (.schema "::a::X")

def redirectedQuery : Query := ((aliasQuery.otherwise elseResolveAlias).member "f" enterUnknown).ifDeclared

theorem aliasQuery_leads : aliasQuery.Leads 1 redirectedQuery := by
  have redirects := @Leads.otherwise aliasQuery elseResolveAlias 0 (.elseResolveAlias aliasQuery)
  have enters := @Leads.member (aliasQuery.otherwise elseResolveAlias) "f" enterUnknown _ (.andThen (.ifUnknown _) (.enter _ _))
  have fired : (if ((aliasQuery.otherwise elseResolveAlias).member "f" enterUnknown).declared?.isSome then 1 else 0) = 1 := by
    decide +kernel
  have fires := Leads.ifDeclared ((aliasQuery.otherwise elseResolveAlias).member "f" enterUnknown)
  rw [fired] at fires
  exact (redirects.andThen enters).andThen fires

theorem chain_coherent_redirected :
    aliasQuery.Leads 1 redirectedQuery ∧ redirectedQuery.address = .schema "::b::X" ∧ redirectedQuery.table.size = 3 ∧
      (redirectedQuery.isDeclared = true ↔ ∃ symbol, redirectedQuery.table.lookup? redirectedQuery.address = some symbol ∧
        symbol.isDeclared = true ∧ symbol.isVisibleFrom "file:///a.sdoc" = true) ∧
      1 ≤ 1 ∧
      (1 = 1 → (∀ action, redirectedQuery.otherwise action = redirectedQuery) ∧
        (∀ record, redirectedQuery.elseEnter record = redirectedQuery) ∧
        redirectedQuery.elseResolveAlias = redirectedQuery) :=
  ⟨aliasQuery_leads, by decide +kernel, by decide +kernel, chain_coherent aliasQuery_leads⟩

end Query

end SchemaDoc
