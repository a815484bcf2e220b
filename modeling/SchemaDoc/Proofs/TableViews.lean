import SchemaDoc.Proofs.UsageFrame

/-! What a pass can see of the table. All that it asks about an address is decided by the declarations
there and by the link of an alias; references are never looked at. Which documents implement which
modules is decided by the entries of a layout, and these no pass can change. -/

namespace SchemaDoc

namespace SymbolTable

/-- The usages that declare an address, in order. -/
def declarationsAt (table : SymbolTable) (address : SymbolPath) : List Usage :=
  (table.usagesAt address).filter fun usage => usage.kind.isDeclaring

/-- All that can be seen of an address. -/
def viewAt (table : SymbolTable) (address : SymbolPath) : List Usage × Option SymbolPath :=
  (table.declarationsAt address, table.aliasAt address)

theorem declarationsAt_of_found {table : SymbolTable} {address : SymbolPath} {symbol : Symbol}
    (found : table.lookup? address = some symbol) : table.declarationsAt address = symbol.declarations := by
  rw [declarationsAt, usagesAt, found]
  rfl

theorem declarationsAt_of_none {table : SymbolTable} {address : SymbolPath} (none : table.lookup? address = none) :
    table.declarationsAt address = [] := by
  rw [declarationsAt, usagesAt, none]
  rfl

theorem isDeclaredAt_iff (table : SymbolTable) (address : SymbolPath) :
    table.isDeclaredAt address = true ↔ table.declarationsAt address ≠ [] := by
  rw [isDeclaredAt, declarationsAt, List.any_eq_true, Ne, List.filter_eq_nil_iff]
  push Not
  rfl

theorem sees_eq (table : SymbolTable) (uri : String) (address : SymbolPath) :
    Query.sees table uri address = (table.declarationsAt address).any fun usage =>
      usage.visibility == .exported || usage.location.uri == uri := by
  rw [Query.sees]
  cases found : table.lookup? address with
  | none =>
    rw [declarationsAt_of_none found]
    rfl
  | some symbol =>
    rw [declarationsAt_of_found found, Option.any_some, Bool.eq_iff_iff, Bool.and_eq_true, Symbol.isVisibleFrom,
      and_iff_right_iff_imp]
    intro visible
    obtain ⟨usage, member, _⟩ := List.any_eq_true.mp visible
    obtain ⟨used, declares⟩ := List.mem_filter.mp member
    exact List.any_eq_true.mpr ⟨usage, used, declares⟩

end SymbolTable

theorem Query.sees_of_declared? {table : SymbolTable} {uri : String} {address : SymbolPath}
    (free : (Query.start table uri address).declared? = none) : Query.sees table uri address = false := by
  simp only [Query.start, Query.declared?, Query.symbol?, Bool.not_false, Bool.true_and] at free
  cases seen : Query.sees table uri address with
  | false => rfl
  | true =>
    rw [seen, if_pos rfl] at free
    simp [Query.sees, free] at seen

namespace Scope

theorem sight_eq (scope : Scope) (address : SymbolPath) :
    scope.sight address =
      (if Query.sees scope.workspace.table scope.uri address then
          some (scope.workspace.table.declarationsAt address).head?
        else none,
        (scope.workspace.table.declarationsAt address).find? fun usage => usage.kind == .definition) := by
  simp only [sight, query, Query.start, Query.declared?, Query.symbol?, Bool.not_false, Bool.true_and]
  cases found : scope.workspace.table.lookup? address with
  | none =>
    rw [SymbolTable.declarationsAt_of_none found, Query.sees, found]
    rfl
  | some symbol =>
    rw [SymbolTable.declarationsAt_of_found found]
    have definition : symbol.definition? = symbol.declarations.find? fun usage => usage.kind == .definition := by
      rw [Symbol.definition?, Symbol.declarations, List.find?_filter]
      congr 1
      funext usage
      cases kind : usage.kind <;> rfl
    rw [Option.bind_some, definition]
    split <;> rfl

theorem sight_congr {left right : Scope} (uri : left.uri = right.uri) {address : SymbolPath}
    (same : left.workspace.table.declarationsAt address = right.workspace.table.declarationsAt address) :
    left.sight address = right.sight address := by
  rw [sight_eq, sight_eq, SymbolTable.sees_eq, SymbolTable.sees_eq, uri, same]

end Scope

def SymbolRecord.IsQuiet (record : SymbolRecord) : Prop :=
  (∀ usage ∈ record.usage, usage.kind = .reference) ∧ record.relations.aliasOf = none

namespace SymbolTable

section Write

variable {table : SymbolTable} (sorted : Sorted table.symbols) (creates : Bool)

include sorted

theorem viewAt_write_quiet (target : SymbolPath) {record : SymbolRecord} (quiet : record.IsQuiet)
    (address : SymbolPath) :
    (if creates then table.enter target record else table.amend target record).viewAt address =
      table.viewAt address := by
  obtain ⟨added, appended, given⟩ := usagesAt_write sorted creates target record address
  have silent : (added.filter fun usage => usage.kind.isDeclaring) = [] := by
    refine List.filter_eq_nil_iff.mpr fun usage member => ?_
    rw [quiet.1 usage (given usage member).2]
    decide
  have declarations : (if creates then table.enter target record else table.amend target record).declarationsAt
      address = table.declarationsAt address := by
    rw [declarationsAt, appended, List.filter_append, silent, List.append_nil]
    rfl
  rcases aliasAt_write sorted creates target record address with same | ⟨_, link, linked, _⟩
  · rw [viewAt, declarations, same]
    rfl
  · rw [quiet.2] at linked
    cases linked

theorem viewAt_write_apart (target : SymbolPath) (record : SymbolRecord) {address : SymbolPath}
    (apart : address ≠ target) :
    (if creates then table.enter target record else table.amend target record).viewAt address =
      table.viewAt address := by
  obtain ⟨added, appended, given⟩ := usagesAt_write sorted creates target record address
  have nothing : added = [] := List.eq_nil_iff_forall_not_mem.mpr fun usage member => apart (given usage member).1
  rcases aliasAt_write sorted creates target record address with same | ⟨here, _⟩
  · rw [viewAt, declarationsAt, appended, nothing, List.append_nil, same]
    rfl
  · exact absurd here apart

/-- What is seen where something was written. -/
theorem viewAt_write_here {target : SymbolPath} (some : target.path ≠ [])
    (present : creates = true ∨ (table.lookup? target).isSome) (record : SymbolRecord) :
    (if creates then table.enter target record else table.amend target record).viewAt target =
      (table.declarationsAt target ++ record.usage.toList.filter fun usage => usage.kind.isDeclaring,
        record.relations.aliasOf <|> table.aliasAt target) := by
  cases creates with
  | true =>
    rw [if_pos rfl, viewAt, declarationsAt, usagesAt_enter sorted some, aliasAt_enter sorted some, if_pos rfl,
      if_pos rfl, List.filter_append]
    rfl
  | false =>
    have found := present.resolve_left (by simp)
    rw [if_neg (by simp), viewAt, declarationsAt, usagesAt_amend, aliasAt_amend, if_pos ⟨rfl, found⟩,
      if_pos ⟨rfl, found⟩, List.filter_append]
    rfl

end Write

/-- Following the links takes at most one step where they end after one. -/
theorem chase_eq {table : SymbolTable} {address : SymbolPath}
    (ends : ∀ target, table.aliasAt address = some target → table.aliasAt target = none) :
    Query.chase table table.size address = (table.aliasAt address).getD address := by
  have stays : ∀ {steps : Nat} {address : SymbolPath}, table.aliasAt address = none →
      Query.chase table steps address = address := by
    intro steps address none
    cases steps with
    | zero => rfl
    | succ steps =>
      rw [aliasAt] at none
      rw [Query.chase, none]
  cases link : table.aliasAt address with
  | none => exact stays link
  | some target =>
    have nonempty : table.size ≠ 0 := by
      intro empty
      have nothing : table.symbols = [] := List.length_eq_zero_iff.mp empty
      simp [aliasAt, lookup?, nothing] at link
    obtain ⟨steps, size⟩ := Nat.exists_eq_succ_of_ne_zero nonempty
    have onward : Query.chase table steps target = target := stays (ends target link)
    rw [aliasAt] at link
    rw [size, Query.chase, link]
    exact onward

end SymbolTable

namespace Scope

/-- What a path finds at its goal is decided by the declarations there and behind the alias. -/
theorem arrival_eq {scope : Scope} (sorted : Sorted scope.workspace.table.symbols) {goal : PathTarget}
    (ends : ∀ target, scope.workspace.table.aliasAt goal.address = some target →
      scope.workspace.table.aliasAt target = none) :
    scope.arrival goal =
      if Query.sees scope.workspace.table scope.uri goal.address then
        let target := (scope.workspace.table.aliasAt goal.address).getD goal.address
        (true, target, Query.sees scope.workspace.table scope.uri target)
      else (false, goal.address, false) := by
  have quiet : (scope.reference goal.nameSpan).IsQuiet := by simp [SymbolRecord.IsQuiet, reference]
  have entered : ∀ address, Query.sees (scope.workspace.table.enter address (scope.reference goal.nameSpan)) scope.uri
      address = Query.sees scope.workspace.table scope.uri address := by
    intro address
    have same : (scope.workspace.table.enter address (scope.reference goal.nameSpan)).declarationsAt address =
        scope.workspace.table.declarationsAt address :=
      congrArg Prod.fst (SymbolTable.viewAt_write_quiet sorted true address quiet address)
    rw [SymbolTable.sees_eq, SymbolTable.sees_eq, same]
  cases seen : Query.sees scope.workspace.table scope.uri goal.address with
  | false =>
    simp [arrival, query, Query.start, seen, Query.elseResolveAlias, Query.elseEnter, Query.otherwise, Query.enter,
      Query.refresh, entered]
  | true =>
    simp [arrival, query, Query.start, seen, Query.elseResolveAlias, Query.elseEnter, Query.otherwise, Query.enter,
      Query.refresh, entered, SymbolTable.chase_eq ends]

/-- Two scopes that see the same at the goal and behind its alias find the same. -/
theorem arrival_congr {left right : Scope} (uri : left.uri = right.uri)
    (sorted : Sorted left.workspace.table.symbols) (sorted' : Sorted right.workspace.table.symbols) {goal : PathTarget}
    (same : left.workspace.table.viewAt goal.address = right.workspace.table.viewAt goal.address)
    (behind : ∀ target, left.workspace.table.aliasAt goal.address = some target →
      left.workspace.table.aliasAt target = none ∧
        left.workspace.table.viewAt target = right.workspace.table.viewAt target) :
    left.arrival goal = right.arrival goal := by
  obtain ⟨declarations, links⟩ := Prod.mk.inj same
  have ends : ∀ target, right.workspace.table.aliasAt goal.address = some target →
      right.workspace.table.aliasAt target = none := by
    intro target linked
    obtain ⟨none, view⟩ := behind target (links.trans linked)
    rw [← (Prod.mk.inj view).2, none]
  rw [arrival_eq sorted fun target linked => (behind target linked).1, arrival_eq sorted' ends]
  simp only [SymbolTable.sees_eq, uri, declarations, ← links]
  cases link : left.workspace.table.aliasAt goal.address with
  | none => simp only [Option.getD_none, declarations]
  | some target => simp only [Option.getD_some, (Prod.mk.inj (behind target link).2).1]

end Scope

namespace SymbolTable

def entryOf? (symbol : Symbol) : Option (SymbolPath × List String) :=
  if isSchemaKey symbol && symbol.subcategory == some .module && !(implementers symbol).isEmpty then
    some (symbol.address, implementers symbol)
  else none

def entries (table : SymbolTable) : List (SymbolPath × List String) := table.symbols.filterMap entryOf?

theorem entryOf?_eq_some {symbol : Symbol} {entry : SymbolPath × List String} (listed : entryOf? symbol = some entry) :
    isSchemaKey symbol = true ∧ symbol.subcategory = some .module ∧ entry = (symbol.address, implementers symbol) := by
  rw [entryOf?] at listed
  split at listed
  · next holds =>
    cases listed
    simp only [Bool.and_eq_true, beq_iff_eq] at holds
    exact ⟨holds.1.1, holds.1.2, rfl⟩
  · cases listed

theorem entryOf?_eq_none {symbol : Symbol} (unlisted : entryOf? symbol = none) :
    isSchemaKey symbol = false ∨ symbol.subcategory ≠ some .module ∨ implementers symbol = [] := by
  rw [entryOf?] at unlisted
  split at unlisted
  · cases unlisted
  · next fails =>
    simp only [Bool.and_eq_true, beq_iff_eq, Bool.not_eq_true', List.isEmpty_eq_false_iff] at fails
    by_cases key : isSchemaKey symbol = true
    · by_cases kind : symbol.subcategory = some .module
      · exact .inr (.inr (by_contra fun some => fails ⟨⟨key, kind⟩, some⟩))
      · exact .inr (.inl kind)
    · exact .inl (by simpa using key)

theorem modules_foldr {β : Type} (table : SymbolTable) (step : SymbolPath → List String → β → β) (last : β)
    (idle : ∀ address rest, step address [] rest = rest) :
    table.modules.foldr (fun module => step module.address (implementers module)) last =
      table.entries.foldr (fun entry => step entry.1 entry.2) last := by
  rw [modules, topLevel, List.filter_filter, entries]
  induction table.symbols with
  | nil => rfl
  | cons symbol symbols ih =>
    have isKey : isSchemaKey symbol = (symbol.address.category == .schema && symbol.address.path.length == 1) := rfl
    rw [List.filter_cons, ← isKey]
    cases listed : entryOf? symbol with
    | some entry =>
      obtain ⟨key, kind, rfl⟩ := entryOf?_eq_some listed
      rw [List.filterMap_cons_some listed, if_pos (by simp [key, kind]), List.foldr_cons, List.foldr_cons, ih]
    | none =>
      rw [List.filterMap_cons_none listed, ← ih]
      split
      · next holds =>
        obtain ⟨kind, key⟩ := Bool.and_eq_true_iff.mp holds
        rw [beq_iff_eq] at kind
        have nobody : implementers symbol = [] := by simpa [key, kind] using entryOf?_eq_none listed
        rw [List.foldr_cons, nobody, idle]
      · rfl

def moduleAt (address : SymbolPath) : ModulePath := ModulePath.parse (address.path.getLastD "")

theorem moduleOfUri?_eq (table : SymbolTable) (uri : String) :
    table.moduleOfUri? uri =
      table.entries.foldr (fun entry rest => if uri ∈ entry.2 then some (moduleAt entry.1) else rest) none := by
  rw [← modules_foldr table (fun address implementers rest => if uri ∈ implementers then some (moduleAt address) else rest)
    none (by simp), moduleOfUri?]
  induction table.modules with
  | nil => rfl
  | cons module modules ih =>
    by_cases here : uri ∈ implementers module
    · simp [here, moduleAt, Symbol.identifier]
    · simpa [here] using ih

theorem uriOfModule?_eq {table : SymbolTable} (sorted : Sorted table.symbols) (path : ModulePath) :
    table.uriOfModule? path =
      (table.entries.find? fun entry => entry.1 == .schema path.display).bind fun entry => entry.2.head? := by
  rw [uriOfModule?, entries]
  change (symbolAt? table.symbols _).bind _ = _
  generalize table.symbols = symbols at sorted
  induction symbols with
  | nil => rfl
  | cons symbol symbols ih =>
    have further := ih (List.Pairwise.of_cons sorted)
    rw [symbolAt?_cons]
    by_cases here : symbol.address = .schema path.display
    · rw [if_pos here, Option.bind_some]
      cases listed : entryOf? symbol with
      | some entry =>
        obtain ⟨_, kind, rfl⟩ := entryOf?_eq_some listed
        rw [List.filterMap_cons_some listed, if_pos kind]
        simp [here]
      | none =>
        have alone : symbolAt? symbols (.schema path.display) = none := symbolAt?_of_below fun other member =>
          here ▸ List.rel_of_pairwise_cons sorted member
        rw [List.filterMap_cons_none listed, ← further, alone]
        have isKey : isSchemaKey symbol = true := by simp [isSchemaKey, here, SymbolPath.schema]
        rcases entryOf?_eq_none listed with key | kind | nobody
        · rw [isKey] at key
          cases key
        · rw [if_neg kind]
          rfl
        · rw [nobody]
          split <;> rfl
    · rw [if_neg here, further]
      cases listed : entryOf? symbol with
      | some entry =>
        obtain ⟨_, _, rfl⟩ := entryOf?_eq_some listed
        rw [List.filterMap_cons_some listed, List.find?_cons_of_neg (by simpa using here)]
      | none => rw [List.filterMap_cons_none listed]

theorem filterMap_insertSymbol {symbol : Symbol} (unlisted : entryOf? symbol = none) (symbols : List Symbol) :
    (insertSymbol symbol symbols).filterMap entryOf? = symbols.filterMap entryOf? := by
  induction symbols with
  | nil => rw [insertSymbol, List.filterMap_cons_none unlisted]
  | cons other others ih =>
    rw [insertSymbol]
    split
    · rw [List.filterMap_cons_none unlisted]
    · rfl
    · rw [List.filterMap_cons, List.filterMap_cons, ih]

theorem entries_ensure (table : SymbolTable) (target : SymbolPath) : (table.ensure target).entries = table.entries := by
  rw [ensure]
  split
  · rfl
  · have fold : ∀ (steps : List SymbolPath) (symbols : List Symbol),
        (steps.foldl (fun symbols step => insertSymbol { address := step } symbols) symbols).filterMap entryOf? =
          symbols.filterMap entryOf? := by
      intro steps
      induction steps with
      | nil => exact fun _ => rfl
      | cons step steps ih => exact fun symbols => (ih _).trans (filterMap_insertSymbol (by simp [entryOf?]) symbols)
    exact fold _ _

theorem entries_modify {table : SymbolTable} (sorted : Sorted table.symbols) {target : SymbolPath}
    {change : Symbol → Symbol} (same : ∀ symbol, table.lookup? target = some symbol →
      entryOf? (change symbol) = entryOf? symbol) : (table.modify target change).entries = table.entries := by
  rw [entries, modify, List.filterMap_map]
  refine List.filterMap_congr fun symbol member => ?_
  rw [Function.comp_apply]
  split
  · next here => exact same symbol (here ▸ lookup?_of_mem sorted member)
  · rfl

theorem implementers_append (symbol : Symbol) {usages : List Usage}
    (kinds : ∀ usage ∈ usages, usage.kind ≠ .implementation) :
    implementers { symbol with usages := symbol.usages ++ usages } = implementers symbol := by
  have none : (usages.filter fun usage => usage.kind == .implementation) = [] := by
    simpa [List.filter_eq_nil_iff] using kinds
  simp [implementers, List.filter_append, none]

/-- Merging a record leaves the entry alone, unless it makes something else of a module. -/
theorem entryOf?_apply {record : SymbolRecord} {symbol : Symbol}
    (kinds : ∀ usage ∈ record.usage, usage.kind ≠ .implementation)
    (kept : record.subcategory = none ∨ symbol.address.path.length ≠ 1 ∨ implementers symbol = []) :
    entryOf? (record.apply symbol) = entryOf? symbol := by
  have same : implementers (record.apply symbol) = implementers symbol :=
    implementers_append symbol (by simpa using kinds)
  have key : isSchemaKey (record.apply symbol) = isSchemaKey symbol := rfl
  rw [entryOf?, entryOf?, same, key]
  rcases kept with none | member | nobody
  · simp [SymbolRecord.apply, none]
  · have other : isSchemaKey symbol = false := by simp [isSchemaKey, member]
    simp [other]
  · simp [nobody]

theorem implementers_eq_nil {table : SymbolTable} {target : SymbolPath} {symbol : Symbol}
    (nobody : ∀ usage ∈ table.usagesAt target, usage.kind ≠ .implementation)
    (found : table.lookup? target = some symbol) : implementers symbol = [] := by
  rw [usagesAt, found] at nobody
  rw [implementers, List.map_eq_nil_iff, List.filter_eq_nil_iff]
  simpa using nobody

theorem entries_write {table : SymbolTable} (sorted : Sorted table.symbols) (creates : Bool) {target : SymbolPath}
    {record : SymbolRecord} (kinds : ∀ usage ∈ record.usage, usage.kind ≠ .implementation)
    (kept : record.subcategory = none ∨ target.path.length ≠ 1 ∨
      ∀ usage ∈ table.usagesAt target, usage.kind ≠ .implementation) :
    (if creates then table.enter target record else table.amend target record).entries = table.entries := by
  have step : ∀ {table : SymbolTable}, Sorted table.symbols →
      (record.subcategory = none ∨ target.path.length ≠ 1 ∨
        ∀ usage ∈ table.usagesAt target, usage.kind ≠ .implementation) →
      (table.modify target record.apply).entries = table.entries := by
    intro table sorted kept
    refine entries_modify sorted fun symbol found => entryOf?_apply kinds ?_
    have here : symbol.address = target := symbolAt?_address found
    rw [here]
    exact kept.imp_right (Or.imp_right fun nobody => implementers_eq_nil nobody found)
  cases creates with
  | false => exact step sorted kept
  | true =>
    rw [if_pos rfl, enter, step (sorted_ensure sorted target), entries_ensure]
    by_cases nowhere : target.path = []
    · exact .inr (.inl (by simp [nowhere]))
    · rwa [usagesAt_ensure sorted nowhere]

theorem entries_prune (symbols : List Symbol) : (prune symbols).filterMap entryOf? = symbols.filterMap entryOf? := by
  induction symbols with
  | nil => rfl
  | cons first rest ih =>
    rcases prune_cons first rest with kept | ⟨dropped, unused⟩
    · rw [kept, List.filterMap_cons, List.filterMap_cons, ih]
    · have unlisted : entryOf? first = none := by simp [entryOf?, implementers, unused]
      rw [dropped, ih, List.filterMap_cons_none unlisted]

theorem entries_clearUri {table : SymbolTable} (sorted : Sorted table.symbols)
    (laid : ∀ address, ∀ usage ∈ table.usagesAt address, usage.kind = .implementation → usage.contributor = .layout)
    (uri : String) : (table.clearUri uri).entries = table.entries := by
  rw [entries, clearUri, clearSymbols, entries_prune, List.filterMap_map]
  refine List.filterMap_congr fun symbol member => ?_
  have listed : ∀ usage ∈ symbol.usages, usage.kind = .implementation → usage.contributor = .layout := by
    have own := laid symbol.address
    rw [usagesAt, lookup?_of_mem sorted member] at own
    exact own
  have same : implementers (symbol.clearUri uri) = implementers symbol := by
    rw [implementers, implementers, clearUri_usages, List.filter_filter]
    congr 1
    refine List.filter_congr fun usage used => ?_
    by_cases kind : usage.kind = .implementation
    · simp [kind, Usage.isCheckedFrom, listed usage used kind]
    · simp [kind]
  have subcategory : (symbol.clearUri uri).subcategory = symbol.subcategory := by
    rw [Symbol.clearUri, Symbol.settle]
    split <;> rfl
  rw [Function.comp_apply, entryOf?, entryOf?, isSchemaKey, isSchemaKey, clearUri_address, same, subcategory]

end SymbolTable

end SchemaDoc
