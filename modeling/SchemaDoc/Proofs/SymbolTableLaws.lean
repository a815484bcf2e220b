import Mathlib.Data.List.Basic
import Mathlib.Data.String.Basic
import SchemaDoc.Project.Layout
import SchemaDoc.Symbol.Query

/-! What stands at an address of a sorted table, and how each table operation changes that. The passes
over documents are reasoned about through `usagesAt` and `aliasAt` only: neither the order of the
symbols nor the symbols on the way to a member play a part any more. -/

namespace SchemaDoc

namespace Category

def described? : Category → Option String
  | schema => none
  | description registry => some registry

theorem described?_injective {first second : Category} (same : first.described? = second.described?) :
    first = second := by
  cases first <;> cases second <;> simp_all [described?]

theorem compare_eq_described (first second : Category) :
    first.compare second = Ord.compare first.described? second.described? := by
  cases first <;> cases second <;> rfl

end Category

theorem ModulePath.compareSegments_eq (first second : List String) :
    compareSegments first second = compare first second := by
  change _ = List.compareLex compare first second
  induction first generalizing second with
  | nil => cases second <;> rfl
  | cons segment segments ih =>
    cases second with
    | nil => rfl
    | cons other others =>
      rw [compareSegments, List.compareLex_cons_cons, ih]
      cases compare segment other <;> rfl

namespace SymbolPath

theorem compare_eq_lex : SymbolPath.compare = compareLex
    (compareOn fun address : SymbolPath => address.category.described?)
    (compareOn fun address : SymbolPath => address.path) := by
  funext first second
  rw [compareLex, compareOn, compareOn, ← Category.compare_eq_described, ← ModulePath.compareSegments_eq,
    SymbolPath.compare]
  cases first.category.compare second.category <;> rfl

instance : Std.TransCmp SymbolPath.compare := compare_eq_lex ▸ inferInstance

theorem compare_eq_iff {first second : SymbolPath} : first.compare second = .eq ↔ first = second := by
  rw [compare_eq_lex, compareLex, Ordering.then_eq_eq, compareOn, compareOn, Std.compare_eq_iff_eq,
    Std.compare_eq_iff_eq]
  constructor
  · intro ⟨category, path⟩
    cases first
    cases second
    cases Category.described?_injective category
    cases path
    rfl
  · rintro rfl
    exact ⟨rfl, rfl⟩

end SymbolPath

theorem SymbolPath.schema_path_ne (key : String) : (SymbolPath.schema key).path ≠ [] := List.cons_ne_nil key []

/-- Every address at most once, and in order. -/
def Sorted (symbols : List Symbol) : Prop :=
  symbols.Pairwise fun first second => first.address.compare second.address = .lt

def symbolAt? (symbols : List Symbol) (address : SymbolPath) : Option Symbol :=
  symbols.find? fun symbol => symbol.address == address

theorem symbolAt?_cons (symbol : Symbol) (symbols : List Symbol) (address : SymbolPath) :
    symbolAt? (symbol :: symbols) address =
      if symbol.address = address then some symbol else symbolAt? symbols address := by
  by_cases same : symbol.address = address <;> simp [symbolAt?, same]

theorem symbolAt?_address {symbols : List Symbol} {address : SymbolPath} {symbol : Symbol}
    (found : symbolAt? symbols address = some symbol) : symbol.address = address := by
  simpa using List.find?_some found

theorem symbolAt?_eq_none {symbols : List Symbol} {address : SymbolPath}
    (apart : ∀ symbol ∈ symbols, symbol.address ≠ address) : symbolAt? symbols address = none := by
  simpa [symbolAt?] using apart

theorem symbolAt?_of_below {symbols : List Symbol} {address : SymbolPath}
    (below : ∀ symbol ∈ symbols, address.compare symbol.address = .lt) : symbolAt? symbols address = none := by
  apply symbolAt?_eq_none
  rintro symbol member rfl
  have strict := below symbol member
  rw [SymbolPath.compare_eq_iff.mpr rfl] at strict
  cases strict

theorem Sorted.below {symbol : Symbol} {symbols : List Symbol} (sorted : Sorted (symbol :: symbols))
    {address : SymbolPath} (before : address.compare symbol.address = .lt) :
    ∀ other ∈ symbol :: symbols, address.compare other.address = .lt := by
  intro other member
  cases member with
  | head => exact before
  | tail _ member => exact Std.TransCmp.lt_trans before (List.rel_of_pairwise_cons sorted member)

theorem mem_insertSymbol {symbol other : Symbol} {symbols : List Symbol}
    (member : other ∈ insertSymbol symbol symbols) : other = symbol ∨ other ∈ symbols := by
  induction symbols with
  | nil => simpa [insertSymbol] using member
  | cons first rest ih =>
    rw [insertSymbol] at member
    split at member
    · simpa using member
    · exact .inr member
    · cases member with
      | head => exact .inr (.head _)
      | tail _ member => exact (ih member).imp_right (.tail _)

theorem Sorted.insertSymbol {symbols : List Symbol} (sorted : Sorted symbols) (symbol : Symbol) :
    Sorted (insertSymbol symbol symbols) := by
  induction symbols with
  | nil => exact List.pairwise_singleton _ _
  | cons first rest ih =>
    rw [SchemaDoc.insertSymbol]
    split
    · next before => exact List.pairwise_cons.mpr ⟨sorted.below before, sorted⟩
    · exact sorted
    · next after =>
      refine List.pairwise_cons.mpr ⟨?_, ih (List.Pairwise.of_cons sorted)⟩
      intro other member
      rcases mem_insertSymbol member with rfl | member
      · exact Std.OrientedCmp.gt_iff_lt.mp after
      · exact List.rel_of_pairwise_cons sorted member

theorem Sorted.symbolAt?_insertSymbol {symbols : List Symbol} (sorted : Sorted symbols) (symbol : Symbol)
    (address : SymbolPath) : symbolAt? (SchemaDoc.insertSymbol symbol symbols) address =
      (symbolAt? symbols address).or (if symbol.address = address then some symbol else none) := by
  induction symbols with
  | nil => exact symbolAt?_cons symbol [] address
  | cons first rest ih =>
    rw [SchemaDoc.insertSymbol]
    split
    · next before =>
      rw [symbolAt?_cons symbol]
      split
      · next same =>
        rw [← same, symbolAt?_of_below (sorted.below before)]
        rfl
      · exact (Option.or_none).symm
    · next same =>
      rw [SymbolPath.compare_eq_iff.mp same, symbolAt?_cons first]
      split
      · rfl
      · exact (Option.or_none).symm
    · rw [symbolAt?_cons first, symbolAt?_cons first, ih (List.Pairwise.of_cons sorted)]
      split
      · rfl
      · rfl

section Modify

variable (change : Symbol → Symbol) (keeps : ∀ symbol, (change symbol).address = symbol.address)

include keeps

theorem symbolAt?_map (symbols : List Symbol) (address : SymbolPath) :
    symbolAt? (symbols.map change) address = (symbolAt? symbols address).map change := by
  rw [symbolAt?, List.find?_map]
  simp only [Function.comp_def, keeps]
  rfl

theorem Sorted.map {symbols : List Symbol} (sorted : Sorted symbols) : Sorted (symbols.map change) := by
  refine List.pairwise_map.mpr ?_
  simp only [keeps]
  exact sorted

end Modify

/-- Only symbols without usages are pruned. -/
theorem prune_cons (first : Symbol) (rest : List Symbol) :
    prune (first :: rest) = first :: prune rest ∨ prune (first :: rest) = prune rest ∧ first.usages = [] := by
  by_cases unused : first.usages = []
  · by_cases same : prune (first :: rest) = prune rest
    · exact .inr ⟨same, unused⟩
    · refine .inl ?_
      simp only [prune] at same ⊢
      exact if_neg fun dropped => same (if_pos dropped)
  · exact .inl (by simp [prune, unused])

theorem prune_sublist (symbols : List Symbol) : (prune symbols).Sublist symbols := by
  induction symbols with
  | nil => exact .slnil
  | cons first rest ih =>
    obtain kept | ⟨dropped, -⟩ := prune_cons first rest
    · exact kept ▸ ih.cons_cons first
    · exact dropped ▸ ih.cons first

theorem Sorted.symbolAt?_prune {symbols : List Symbol} (sorted : Sorted symbols) (address : SymbolPath) :
    symbolAt? (prune symbols) address = symbolAt? symbols address ∨
      symbolAt? (prune symbols) address = none ∧
        ∃ symbol, symbolAt? symbols address = some symbol ∧ symbol.usages = [] := by
  induction symbols with
  | nil => exact .inl rfl
  | cons first rest ih =>
    have further := ih (List.Pairwise.of_cons sorted)
    obtain kept | ⟨dropped, unused⟩ := prune_cons first rest
    · rw [kept, symbolAt?_cons, symbolAt?_cons]
      split
      · exact .inl rfl
      · exact further
    · rw [dropped, symbolAt?_cons]
      split
      · next same =>
        refine .inr ⟨symbolAt?_of_below fun other member => ?_, first, rfl, unused⟩
        exact same ▸ List.rel_of_pairwise_cons sorted ((prune_sublist rest).mem member)
      · exact further

theorem settle_address (symbol : Symbol) : symbol.settle.address = symbol.address := by
  rw [Symbol.settle]
  split <;> rfl

theorem settle_usages (symbol : Symbol) : symbol.settle.usages = symbol.usages := by
  rw [Symbol.settle]
  split <;> rfl

theorem settle_aliasOf (symbol : Symbol) :
    symbol.settle.relations.aliasOf = if symbol.isDeclared then symbol.relations.aliasOf else none := by
  rw [Symbol.settle]
  split <;> rfl

theorem clearUri_address (symbol : Symbol) (uri : String) : (symbol.clearUri uri).address = symbol.address :=
  settle_address _

theorem clearUri_usages (symbol : Symbol) (uri : String) :
    (symbol.clearUri uri).usages = symbol.usages.filter fun usage => !usage.isCheckedFrom uri :=
  settle_usages _

namespace SymbolTable

/-- The usages at an address; a symbol that is not there has none. -/
def usagesAt (table : SymbolTable) (address : SymbolPath) : List Usage :=
  ((table.lookup? address).map Symbol.usages).getD []

/-- Every symbol of the table is found at its address. -/
theorem lookup?_of_mem {table : SymbolTable} (sorted : Sorted table.symbols) {symbol : Symbol}
    (member : symbol ∈ table.symbols) : table.lookup? symbol.address = some symbol := by
  change symbolAt? table.symbols symbol.address = some symbol
  generalize table.symbols = symbols at sorted member
  induction symbols with
  | nil => cases member
  | cons first rest ih =>
    rw [symbolAt?_cons]
    rcases List.mem_cons.mp member with rfl | later
    · rw [if_pos rfl]
    · have before := List.rel_of_pairwise_cons sorted later
      have apart : first.address ≠ symbol.address := by
        intro same
        rw [SymbolPath.compare_eq_iff.mpr same] at before
        cases before
      rw [if_neg apart, ih (List.Pairwise.of_cons sorted) later]

def aliasAt (table : SymbolTable) (address : SymbolPath) : Option SymbolPath :=
  (table.lookup? address).bind fun symbol => symbol.relations.aliasOf

theorem lookup?_modify (table : SymbolTable) (target : SymbolPath) (change : Symbol → Symbol)
    (keeps : ∀ symbol, (change symbol).address = symbol.address) (address : SymbolPath) :
    (table.modify target change).lookup? address =
      if address = target then (table.lookup? address).map change else table.lookup? address := by
  have inPlace := symbolAt?_map (fun symbol => if symbol.address = target then change symbol else symbol)
    (fun symbol => by split <;> simp [keeps]) table.symbols address
  refine inPlace.trans ?_
  change Option.map _ (table.lookup? address) = _
  cases found : table.lookup? address with
  | none => simp
  | some symbol =>
    have here : symbol.address = address := symbolAt?_address found
    by_cases same : address = target <;> simp [here, same]

theorem sorted_modify {table : SymbolTable} (sorted : Sorted table.symbols) (target : SymbolPath)
    {change : Symbol → Symbol} (keeps : ∀ symbol, (change symbol).address = symbol.address) :
    Sorted (table.modify target change).symbols :=
  sorted.map _ fun symbol => by split <;> simp [keeps]

theorem self_mem_approach {address : SymbolPath} (some : address.path ≠ []) : address ∈ approach address := by
  have length := List.length_pos_iff.mpr some
  refine List.mem_map.mpr ⟨address.path.length - 1, List.mem_range.mpr (by omega), ?_⟩
  rw [List.take_of_length_le (by omega)]

private theorem sorted_foldl_insert {symbols : List Symbol} (sorted : Sorted symbols) (steps : List SymbolPath) :
    Sorted (steps.foldl (fun symbols step => insertSymbol { address := step } symbols) symbols) := by
  induction steps generalizing symbols with
  | nil => exact sorted
  | cons step steps ih => exact ih (sorted.insertSymbol _)

private theorem symbolAt?_foldl_insert {symbols : List Symbol} (sorted : Sorted symbols) (steps : List SymbolPath)
    (address : SymbolPath) :
    symbolAt? (steps.foldl (fun symbols step => insertSymbol { address := step } symbols) symbols) address =
      (symbolAt? symbols address).or (if address ∈ steps then some { address } else none) := by
  induction steps generalizing symbols with
  | nil => simp
  | cons step steps ih =>
    rw [List.foldl_cons, ih (sorted.insertSymbol _), sorted.symbolAt?_insertSymbol, Option.or_assoc]
    congr 1
    by_cases same : step = address
    · subst same
      simp
    · simp [same, Ne.symm same]

theorem lookup?_ensure {table : SymbolTable} (sorted : Sorted table.symbols) {target : SymbolPath}
    (some : target.path ≠ []) (address : SymbolPath) :
    (table.ensure target).lookup? address =
      (table.lookup? address).or (if address ∈ approach target then Option.some { address } else none) := by
  rw [ensure, if_neg (by simpa using some)]
  exact symbolAt?_foldl_insert sorted _ _

theorem sorted_ensure {table : SymbolTable} (sorted : Sorted table.symbols) (target : SymbolPath) :
    Sorted (table.ensure target).symbols := by
  rw [ensure]
  split
  · exact sorted
  · exact sorted_foldl_insert sorted _

theorem usagesAt_ensure {table : SymbolTable} (sorted : Sorted table.symbols) {target : SymbolPath}
    (some : target.path ≠ []) (address : SymbolPath) :
    (table.ensure target).usagesAt address = table.usagesAt address := by
  rw [usagesAt, usagesAt, lookup?_ensure sorted some]
  cases table.lookup? address with
  | some symbol => rfl
  | none => by_cases onWay : address ∈ approach target <;> simp [onWay]

theorem aliasAt_ensure {table : SymbolTable} (sorted : Sorted table.symbols) {target : SymbolPath}
    (some : target.path ≠ []) (address : SymbolPath) :
    (table.ensure target).aliasAt address = table.aliasAt address := by
  rw [aliasAt, aliasAt, lookup?_ensure sorted some]
  cases table.lookup? address with
  | some symbol => rfl
  | none => by_cases onWay : address ∈ approach target <;> simp [onWay]

theorem sorted_amend {table : SymbolTable} (sorted : Sorted table.symbols) (target : SymbolPath)
    (record : SymbolRecord) : Sorted (table.amend target record).symbols :=
  sorted_modify sorted target fun _ => rfl

theorem sorted_enter {table : SymbolTable} (sorted : Sorted table.symbols) (target : SymbolPath)
    (record : SymbolRecord) : Sorted (table.enter target record).symbols :=
  sorted_modify (sorted_ensure sorted target) target fun _ => rfl

theorem usagesAt_amend (table : SymbolTable) (target : SymbolPath) (record : SymbolRecord) (address : SymbolPath) :
    (table.amend target record).usagesAt address = table.usagesAt address ++
      if address = target ∧ (table.lookup? target).isSome then record.usage.toList else [] := by
  rw [usagesAt, usagesAt, amend, lookup?_modify table target record.apply fun _ => rfl]
  by_cases same : address = target
  · subst same
    cases table.lookup? address <;> simp [SymbolRecord.apply]
  · simp [same]

theorem aliasAt_amend (table : SymbolTable) (target : SymbolPath) (record : SymbolRecord) (address : SymbolPath) :
    (table.amend target record).aliasAt address =
      if address = target ∧ (table.lookup? target).isSome then
        record.relations.aliasOf <|> table.aliasAt address
      else table.aliasAt address := by
  rw [aliasAt, aliasAt, amend, lookup?_modify table target record.apply fun _ => rfl]
  by_cases same : address = target
  · subst same
    cases table.lookup? address <;> simp [SymbolRecord.apply]
  · simp [same]

theorem isSome_lookup?_ensure {table : SymbolTable} (sorted : Sorted table.symbols) {target : SymbolPath}
    (some : target.path ≠ []) : ((table.ensure target).lookup? target).isSome := by
  rw [lookup?_ensure sorted some, if_pos (self_mem_approach some)]
  cases table.lookup? target <;> rfl

theorem enter_eq_amend {target : SymbolPath} (nowhere : target.path = []) (table : SymbolTable) (record : SymbolRecord) :
    table.enter target record = table.amend target record := by
  have unchanged : table.ensure target = table := by simp [ensure, nowhere]
  rw [enter, unchanged, amend]

theorem usagesAt_enter {table : SymbolTable} (sorted : Sorted table.symbols) {target : SymbolPath}
    (some : target.path ≠ []) (record : SymbolRecord) (address : SymbolPath) :
    (table.enter target record).usagesAt address =
      table.usagesAt address ++ if address = target then record.usage.toList else [] := by
  have merged := usagesAt_amend (table.ensure target) target record address
  rw [usagesAt_ensure sorted some] at merged
  simp only [isSome_lookup?_ensure sorted some, and_true] at merged
  exact merged

theorem aliasAt_enter {table : SymbolTable} (sorted : Sorted table.symbols) {target : SymbolPath}
    (some : target.path ≠ []) (record : SymbolRecord) (address : SymbolPath) :
    (table.enter target record).aliasAt address =
      if address = target then record.relations.aliasOf <|> table.aliasAt address else table.aliasAt address := by
  have merged := aliasAt_amend (table.ensure target) target record address
  rw [aliasAt_ensure sorted some] at merged
  simp only [isSome_lookup?_ensure sorted some, and_true] at merged
  exact merged

theorem sorted_clearUri {table : SymbolTable} (sorted : Sorted table.symbols) (uri : String) :
    Sorted (table.clearUri uri).symbols :=
  (sorted.map _ fun symbol => clearUri_address symbol uri).sublist (prune_sublist _)

/-- A symbol that is pruned has nothing to tell. -/
theorem lookup?_clearUri {table : SymbolTable} (sorted : Sorted table.symbols) (uri : String) (address : SymbolPath) :
    (table.clearUri uri).lookup? address = (table.lookup? address).map (·.clearUri uri) ∨
      (table.clearUri uri).lookup? address = none ∧
        ∃ symbol, table.lookup? address = some symbol ∧ (symbol.clearUri uri).usages = [] := by
  have cleared := (sorted.map _ fun symbol => clearUri_address symbol uri).symbolAt?_prune address
  rw [symbolAt?_map _ fun symbol => clearUri_address symbol uri] at cleared
  refine cleared.imp_right ?_
  rintro ⟨gone, symbol, found, empty⟩
  obtain ⟨original, here, rfl⟩ := Option.map_eq_some_iff.mp found
  exact ⟨gone, original, here, empty⟩

theorem usagesAt_clearUri {table : SymbolTable} (sorted : Sorted table.symbols) (uri : String) (address : SymbolPath) :
    (table.clearUri uri).usagesAt address =
      (table.usagesAt address).filter fun usage => !usage.isCheckedFrom uri := by
  rw [usagesAt, usagesAt]
  obtain same | ⟨gone, symbol, found, empty⟩ := lookup?_clearUri sorted uri address
  · rw [same]
    cases table.lookup? address <;> simp [clearUri_usages]
  · rw [clearUri_usages] at empty
    simp only [gone, found, Option.map_none, Option.map_some, Option.getD_none, Option.getD_some, empty]

def isDeclaredAt (table : SymbolTable) (address : SymbolPath) : Bool :=
  (table.usagesAt address).any fun usage => usage.kind.isDeclaring

theorem aliasAt_clearUri {table : SymbolTable} (sorted : Sorted table.symbols) (uri : String) (address : SymbolPath) :
    (table.clearUri uri).aliasAt address =
      if (table.clearUri uri).isDeclaredAt address then table.aliasAt address else none := by
  rw [isDeclaredAt, usagesAt_clearUri sorted, aliasAt, aliasAt, usagesAt]
  obtain same | ⟨gone, symbol, found, empty⟩ := lookup?_clearUri sorted uri address
  · rw [same]
    cases table.lookup? address with
    | none => simp
    | some symbol => exact settle_aliasOf _
  · rw [clearUri_usages] at empty
    simp [gone, found, empty]

theorem sorted_registerModule {table : SymbolTable} (sorted : Sorted table.symbols) (path : ModulePath)
    (uri : String) : Sorted (table.registerModule path uri).symbols :=
  sorted_modify (sorted_ensure sorted _) _ fun _ => rfl

def laid (uri : String) (symbol : Symbol) : Symbol :=
  { symbol with
    subcategory := some .module
    usages := if isImplementedBy symbol uri then symbol.usages else symbol.usages ++ [implementation uri] }

theorem lookup?_registerModule (table : SymbolTable) (path : ModulePath) (uri : String) (address : SymbolPath) :
    (table.registerModule path uri).lookup? address =
      if address = .schema path.display then ((table.ensure (.schema path.display)).lookup? address).map (laid uri)
      else (table.ensure (.schema path.display)).lookup? address :=
  lookup?_modify _ _ (laid uri) (fun _ => rfl) address

/-- Registering adds at most the implementation, at the module. -/
theorem usagesAt_registerModule {table : SymbolTable} (sorted : Sorted table.symbols) (path : ModulePath)
    (uri : String) (address : SymbolPath) :
    (table.registerModule path uri).usagesAt address = table.usagesAt address ∨ address = .schema path.display ∧
      (table.registerModule path uri).usagesAt address = table.usagesAt address ++ [implementation uri] := by
  have ensured := usagesAt_ensure sorted (SymbolPath.schema_path_ne path.display) address
  rw [← ensured, usagesAt, usagesAt, lookup?_registerModule]
  by_cases same : address = .schema path.display
  · rw [if_pos same]
    cases (table.ensure (.schema path.display)).lookup? address with
    | none => exact .inl rfl
    | some symbol => by_cases known : isImplementedBy symbol uri = true <;> simp [laid, known, same]
  · rw [if_neg same]
    exact .inl rfl

theorem mem_usagesAt_registerModule {table : SymbolTable} (sorted : Sorted table.symbols) {path : ModulePath}
    {uri : String} {address : SymbolPath} {usage : Usage}
    (member : usage ∈ (table.registerModule path uri).usagesAt address) :
    usage ∈ table.usagesAt address ∨ address = .schema path.display ∧ usage = implementation uri := by
  rcases usagesAt_registerModule sorted path uri address with same | ⟨here, same⟩
  · exact .inl (same ▸ member)
  · rcases List.mem_append.mp (same ▸ member) with earlier | new
    · exact .inl earlier
    · exact .inr ⟨here, List.mem_singleton.mp new⟩

theorem aliasAt_registerModule {table : SymbolTable} (sorted : Sorted table.symbols) (path : ModulePath)
    (uri : String) (address : SymbolPath) :
    (table.registerModule path uri).aliasAt address = table.aliasAt address := by
  have ensured := aliasAt_ensure sorted (SymbolPath.schema_path_ne path.display) address
  rw [← ensured, aliasAt, aliasAt, lookup?_registerModule]
  by_cases same : address = .schema path.display
  · rw [if_pos same]
    cases (table.ensure (.schema path.display)).lookup? address <;> rfl
  · rw [if_neg same]

/-- Every address stands at most once, so that dropping symbols drops what was found there. -/
theorem symbolAt?_filter {symbols : List Symbol} (sorted : Sorted symbols) (keeps : Symbol → Bool)
    (address : SymbolPath) : symbolAt? (symbols.filter keeps) address = (symbolAt? symbols address).filter keeps := by
  induction symbols with
  | nil => rfl
  | cons first rest ih =>
    have further := ih (List.Pairwise.of_cons sorted)
    rw [List.filter_cons, symbolAt?_cons first]
    by_cases same : first.address = address
    · have alone : symbolAt? (rest.filter keeps) address = none := symbolAt?_of_below fun other member =>
        same ▸ List.rel_of_pairwise_cons sorted (List.mem_of_mem_filter member)
      by_cases kept : keeps first = true
      · simp [kept, symbolAt?_cons, same, Option.filter_some]
      · simp [kept, same, alone, Option.filter_some]
    · by_cases kept : keeps first = true
      · simp [kept, symbolAt?_cons, same, further]
      · simp [kept, same, further]

def unlaid (symbol : Symbol) : Symbol :=
  if isSchemaKey symbol then
    { symbol with usages := symbol.usages.filter fun usage => usage.contributor != .layout }
  else symbol

theorem unlaid_address (symbol : Symbol) : (unlaid symbol).address = symbol.address := by
  rw [unlaid]
  split <;> rfl

theorem unlaid_aliasOf (symbol : Symbol) : (unlaid symbol).relations = symbol.relations := by
  rw [unlaid]
  split <;> rfl

theorem mem_unlaid_usages {symbol : Symbol} {usage : Usage} (member : usage ∈ (unlaid symbol).usages) :
    usage ∈ symbol.usages := by
  rw [unlaid] at member
  split at member
  · exact List.mem_of_mem_filter member
  · exact member

theorem sorted_clearLayout {table : SymbolTable} (sorted : Sorted table.symbols) :
    Sorted table.clearLayout.symbols :=
  (sorted.map unlaid unlaid_address).sublist List.filter_sublist

theorem lookup?_clearLayout {table : SymbolTable} (sorted : Sorted table.symbols) (address : SymbolPath) :
    ∃ keeps, table.clearLayout.lookup? address = ((table.lookup? address).map unlaid).filter keeps := by
  have kept := fun keeps => symbolAt?_filter (sorted.map unlaid unlaid_address) keeps address
  simp only [symbolAt?_map unlaid unlaid_address] at kept
  exact ⟨_, kept _⟩

theorem mem_usagesAt_clearLayout {table : SymbolTable} (sorted : Sorted table.symbols) {address : SymbolPath}
    {usage : Usage} (member : usage ∈ table.clearLayout.usagesAt address) : usage ∈ table.usagesAt address := by
  obtain ⟨keeps, found⟩ := lookup?_clearLayout sorted address
  rw [usagesAt, found] at member
  rw [usagesAt]
  cases here : table.lookup? address with
  | none => simp [here] at member
  | some symbol =>
    rw [here, Option.map_some, Option.filter_some] at member
    split at member
    · exact mem_unlaid_usages member
    · cases member

theorem aliasAt_clearLayout {table : SymbolTable} (sorted : Sorted table.symbols) (address : SymbolPath) :
    table.clearLayout.aliasAt address = none ∨ table.clearLayout.aliasAt address = table.aliasAt address := by
  obtain ⟨keeps, found⟩ := lookup?_clearLayout sorted address
  rw [aliasAt, aliasAt, found]
  cases here : table.lookup? address with
  | none => exact .inl rfl
  | some symbol =>
    rw [Option.map_some, Option.filter_some]
    split
    · exact .inr (congrArg Relations.aliasOf (unlaid_aliasOf symbol))
    · exact .inl rfl

end SymbolTable

/-- What holds without a layout, and what each of its modules keeps, holds of the whole layout. -/
theorem Layout.register_induction {motive : SymbolTable → Prop} {table : SymbolTable}
    {modules : List (ModulePath × String)} (start : motive table.clearLayout)
    (step : ∀ table, motive table → ∀ entry ∈ modules, motive (table.registerModule entry.1 entry.2)) :
    motive (Layout.register table modules) :=
  List.foldlRecOn modules _ start step

end SchemaDoc
