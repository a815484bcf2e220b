import Mathlib.Data.Set.Card
import SchemaDoc.Proofs.ExactClearing
import SchemaDoc.Proofs.NestedTables

/-! Every table that operations make, nested and flat. The operations on nested symbols do to the list of all symbols what
the operations on flat tables do, so that the two tables agree after any operations; and what the nested table says about
the addresses of its symbols is true of it. -/

namespace SchemaDoc

open NestedSymbol (Stands Row Reached)

/-- Symbols in order are told by which they are. -/
theorem Sorted.eq_of_mem_iff {first second : List Symbol} (sorted : Sorted first) (sorted' : Sorted second)
    (same : ∀ symbol, symbol ∈ first ↔ symbol ∈ second) : first = second := by
  have asymm : Std.Asymm fun first second : Symbol => first.address.compare second.address = .lt := by
    constructor
    intro left right before after
    rw [← Std.OrientedCmp.gt_iff_lt, before] at after
    cases after
  exact List.Pairwise.eq_of_mem_iff sorted sorted' same

theorem ModulePath.compareSegments_append (path first second : List String) :
    compareSegments (path ++ first) (path ++ second) = compareSegments first second := by
  induction path with
  | nil => rfl
  | cons segment path ih =>
    have same : compare segment segment = .eq := Std.compare_eq_iff_eq.mpr rfl
    rw [List.cons_append, List.cons_append, compareSegments, same]
    exact ih

namespace NestedSymbol

variable {category : Category} {path names : List String} {symbol found : NestedSymbol}
  {symbols : List (String × NestedSymbol)}

theorem preorder_eq (symbol : NestedSymbol) : symbol.preorder = symbol :: preorderEach symbol.members := by
  cases symbol
  rw [preorder]

theorem preorderEach_eq (symbols : List (String × NestedSymbol)) :
    preorderEach symbols = symbols.flatMap fun entry => entry.2.preorder := by
  induction symbols with
  | nil => rw [preorderEach, List.flatMap_nil]
  | cons entry symbols ih => rw [preorderEach, ih, List.flatMap_cons]

mutual

theorem length_preorder : ∀ symbol : NestedSymbol, symbol.preorder.length = symbol.count
  | { members, .. } => by
    rw [preorder, count, List.length_cons, length_preorderEach members, Nat.add_comm]

theorem length_preorderEach : ∀ symbols : List (String × NestedSymbol), (preorderEach symbols).length = countEach symbols
  | [] => by rw [preorderEach, countEach, List.length_nil]
  | (_, member) :: symbols => by
    rw [preorderEach, countEach, List.length_append, length_preorder member, length_preorderEach symbols]

end

theorem Row.mem_preorderEach (row : Row category path symbols)
    (member : ∀ name symbol, symbols.lookup name = some symbol →
      ∀ found, found ∈ symbol.preorder ↔ ∃ names, symbol.descend names = some found) :
    found ∈ preorderEach symbols ↔ ∃ names, NestedSymbol.findIn symbols names = some found := by
  rw [preorderEach_eq, List.mem_flatMap]
  constructor
  · rintro ⟨⟨name, symbol⟩, listed, inside⟩
    rw [mem_iff_lookup row.sorted.nodup] at listed
    obtain ⟨names, below⟩ := (member name symbol listed found).mp inside
    exact ⟨name :: names, by simp [NestedSymbol.findIn, listed, below]⟩
  · rintro ⟨names, below⟩
    cases names with
    | nil => cases below
    | cons name names =>
      obtain ⟨symbol, listed, below⟩ := Option.bind_eq_some_iff.mp below
      exact ⟨(name, symbol), mem_of_lookup listed, (member name symbol listed found).mpr ⟨names, below⟩⟩

theorem Stands.mem_preorder (stands : Stands category path symbol) :
    found ∈ symbol.preorder ↔ ∃ names, symbol.descend names = some found := by
  induction stands generalizing found with
  | @intro path symbol kind here named sorted members ih =>
    have row := (Stands.intro kind here named sorted members).row
    rw [preorder_eq, List.mem_cons, row.mem_preorderEach fun name member listed found => ih name member listed]
    constructor
    · rintro (rfl | ⟨names, below⟩)
      · exact ⟨[], rfl⟩
      · cases names with
        | nil => cases below
        | cons name names => exact ⟨name :: names, below⟩
    · rintro ⟨names, below⟩
      cases names with
      | nil => exact .inl (Option.some.inj below).symm
      | cons name names => exact .inr ⟨name :: names, below⟩

theorem Row.mem_preorderEach_iff (row : Row category path symbols) :
    found ∈ preorderEach symbols ↔ ∃ names, NestedSymbol.findIn symbols names = some found :=
  row.mem_preorderEach fun name symbol listed _ => (row.stands name symbol listed).mem_preorder

theorem Row.address_of_mem (row : Row category path symbols) {name : String} (listed : symbols.lookup name = some symbol)
    (inside : found ∈ symbol.preorder) : ∃ rest, found.bare.address = ⟨category, path ++ name :: rest⟩ := by
  have stands := row.stands name symbol listed
  obtain ⟨names, below⟩ := stands.mem_preorder.mp inside
  refine ⟨names, ?_⟩
  rw [(stands.descend below).address, List.append_assoc]
  rfl

theorem sorted_preorderEach (row : Row category path symbols)
    (member : ∀ name symbol, symbols.lookup name = some symbol → Sorted (symbol.preorder.map bare)) :
    Sorted ((preorderEach symbols).map bare) := by
  rw [preorderEach_eq, Sorted, List.pairwise_map, List.pairwise_flatMap]
  constructor
  · intro entry listed
    exact List.pairwise_map.mp (member entry.1 entry.2 ((mem_iff_lookup row.sorted.nodup).mp listed))
  · refine (List.pairwise_map.mp row.sorted).imp_of_mem ?_
    intro first second listed listed' order found inside found' inside'
    rw [mem_iff_lookup row.sorted.nodup] at listed listed'
    obtain ⟨rest, address⟩ := row.address_of_mem listed inside
    obtain ⟨rest', address'⟩ := row.address_of_mem listed' inside'
    rw [address, address']
    refine (SymbolPath.compare_of_category (by rfl)).trans ?_
    rw [ModulePath.compareSegments_append, ModulePath.compareSegments, order]

theorem Stands.sorted_preorder (stands : Stands category path symbol) : Sorted (symbol.preorder.map bare) := by
  induction stands with
  | @intro path symbol kind here named sorted members ih =>
    have stands := Stands.intro kind here named sorted members
    rw [preorder_eq, List.map_cons]
    refine List.pairwise_cons.mpr ⟨fun other inside => ?_, sorted_preorderEach stands.row ih⟩
    obtain ⟨found, among, rfl⟩ := List.mem_map.mp inside
    rw [preorderEach_eq, List.mem_flatMap] at among
    obtain ⟨⟨name, member⟩, listed, among⟩ := among
    obtain ⟨rest, address⟩ := stands.row.address_of_mem ((mem_iff_lookup sorted.nodup).mp listed) among
    have behind := ModulePath.compareSegments_append path [] (name :: rest)
    rw [List.append_nil] at behind
    rw [stands.address, address]
    exact (SymbolPath.compare_of_category (by rfl)).trans behind

end NestedSymbol

namespace SymbolTable

variable {address target : SymbolPath}

theorem mem_approach_of_isBelow (below : target.isBelow address = true) (some : address.path ≠ []) : address ∈ approach target :=
  mem_approach.mpr ⟨by simp [SymbolPath.isWithin, below], some⟩

theorem not_mem_approach (apart : address ≠ target) (beside : target.isBelow address = false) : address ∉ approach target := by
  intro onWay
  have within := (mem_approach.mp onWay).1
  rw [SymbolPath.isBelow_of_isWithin within (Ne.symm apart)] at beside
  cases beside

end SymbolTable

namespace NestedTable

variable {table : NestedTable} {address target : SymbolPath} {change : NestedSymbol → NestedSymbol} {symbol : NestedSymbol}

namespace Standing

/-- The symbols of a table are those that are found at the addresses written in them. -/
theorem mem_preorder (standing : table.Standing) :
    symbol ∈ (table.categories.flatMap fun entry => NestedSymbol.preorderEach entry.2) ↔
      table.lookup? symbol.bare.address = some symbol := by
  rw [List.mem_flatMap]
  constructor
  · rintro ⟨⟨category, symbols⟩, listed, inside⟩
    rw [mem_iff_lookup standing.sorted.nodup] at listed
    have row := standing.rows category symbols listed
    obtain ⟨names, below⟩ := row.mem_preorderEach_iff.mp inside
    rw [(row.findIn below).address, lookup?]
    exact Option.bind_eq_some_iff.mpr ⟨symbols, listed, below⟩
  · intro found
    obtain ⟨symbols, listed, below⟩ := Option.bind_eq_some_iff.mp found
    exact ⟨_, mem_of_lookup listed, (standing.rows _ symbols listed).mem_preorderEach_iff.mpr ⟨_, below⟩⟩

theorem mem_flatten (standing : table.Standing) {symbol : Symbol} :
    symbol ∈ table.flatten.symbols ↔ (table.lookup? symbol.address).map NestedSymbol.bare = some symbol := by
  rw [flatten, List.mem_map, Option.map_eq_some_iff]
  constructor
  · rintro ⟨found, inside, rfl⟩
    exact ⟨found, standing.mem_preorder.mp inside, rfl⟩
  · rintro ⟨found, here, rfl⟩
    exact ⟨found, standing.mem_preorder.mpr here, rfl⟩

theorem sorted_flatten (standing : table.Standing) : Sorted table.flatten.symbols := by
  rw [flatten, List.map_flatMap, Sorted, List.pairwise_flatMap]
  constructor
  · rintro ⟨category, symbols⟩ listed
    have row := standing.rows category symbols ((mem_iff_lookup standing.sorted.nodup).mp listed)
    exact NestedSymbol.sorted_preorderEach row fun name symbol known => (row.stands name symbol known).sorted_preorder
  · refine (List.pairwise_map.mp standing.sorted).imp_of_mem ?_
    intro first second listed listed' order symbol inside symbol' inside'
    rw [mem_iff_lookup standing.sorted.nodup] at listed listed'
    obtain ⟨found, among, rfl⟩ := List.mem_map.mp inside
    obtain ⟨found', among', rfl⟩ := List.mem_map.mp inside'
    have row := standing.rows _ _ listed
    have row' := standing.rows _ _ listed'
    obtain ⟨names, below⟩ := row.mem_preorderEach_iff.mp among
    obtain ⟨names', below'⟩ := row'.mem_preorderEach_iff.mp among'
    rw [(row.findIn below).address, (row'.findIn below').address, SymbolPath.compare, order]

theorem lookup?_flatten (standing : table.Standing) (address : SymbolPath) :
    table.flatten.lookup? address = (table.lookup? address).map NestedSymbol.bare := by
  refine Option.ext fun symbol => ?_
  constructor
  · intro found
    have inside := standing.mem_flatten.mp (List.mem_of_find?_eq_some found)
    rw [← symbolAt?_address found]
    exact inside
  · intro found
    obtain ⟨nested, here, rfl⟩ := Option.map_eq_some_iff.mp found
    have address := standing.address_of_found here
    rw [← address] at found ⊢
    exact SymbolTable.lookup?_of_mem standing.sorted_flatten (standing.mem_flatten.mpr found)

/-- A flat table in order is told by its categories and what is found in it. -/
theorem flatten_eq (standing : table.Standing) {flat : SymbolTable} (sorted : Sorted flat.symbols)
    (categories : table.categories.map Prod.fst = flat.categories)
    (same : ∀ address, (table.lookup? address).map NestedSymbol.bare = flat.lookup? address) : table.flatten = flat := by
  have symbols : table.flatten.symbols = flat.symbols := by
    refine Sorted.eq_of_mem_iff standing.sorted_flatten sorted fun symbol => ?_
    rw [standing.mem_flatten, same]
    exact ⟨List.mem_of_find?_eq_some, SymbolTable.lookup?_of_mem sorted⟩
  cases flat
  cases categories
  cases symbols
  rfl

/-- The symbols of the flat table at an address and below it are those that are found by descending. -/
theorem exists_mem_flatten (standing : table.Standing) (found : table.lookup? address = some symbol) {P : Symbol → Prop} :
    (∃ other ∈ table.flatten.symbols, other.address.isWithin address = true ∧ P other) ↔
      ∃ names inner, symbol.descend names = some inner ∧ P inner.bare := by
  have rooted : address.path ≠ [] := by
    intro none
    cases (lookup?_of_path_nil table none).symm.trans found
  have deeper : ∀ names, table.lookup? ⟨address.category, address.path ++ names⟩ = symbol.descend names := by
    intro names
    rw [lookup?_eq] at found ⊢
    rw [NestedSymbol.findIn_append _ rooted, found, Option.bind_some]
  constructor
  · rintro ⟨other, listed, within, holds⟩
    obtain ⟨category, names, path⟩ := SymbolPath.isWithin_iff.mp within
    obtain ⟨inner, here, rfl⟩ := Option.map_eq_some_iff.mp (standing.mem_flatten.mp listed)
    refine ⟨names, inner, ?_, holds⟩
    rw [← deeper, path, ← category]
    exact here
  · rintro ⟨names, inner, below, holds⟩
    have here := (deeper names).trans below
    have address := standing.address_of_found here
    refine ⟨inner.bare, standing.mem_flatten.mpr ?_, ?_, holds⟩
    · rw [address, here]
      rfl
    · rw [address]
      exact SymbolPath.isWithin_iff.mpr ⟨rfl, List.prefix_append _ _⟩

end Standing

theorem map_fst_upsert (category : Category) (fresh : List (String × NestedSymbol))
    (change : List (String × NestedSymbol) → List (String × NestedSymbol)) (entries : List (Category × List (String × NestedSymbol))) :
    (upsert Category.compare category fresh change entries).map Prod.fst = insertCategory category (entries.map Prod.fst) := by
  induction entries with
  | nil => rfl
  | cons entry entries ih =>
    cases order : category.compare entry.1 <;> simp [upsert, insertCategory, order, ih]

section Squares

variable (standing : table.Standing)

include standing

theorem modify_flatten_of_nil (none : target.path = []) (flatChange : Symbol → Symbol) :
    table.flatten.modify target flatChange = table.flatten := by
  have apart : ∀ symbol ∈ table.flatten.symbols, symbol.address ≠ target := by
    rintro symbol listed rfl
    have found := standing.mem_flatten.mp listed
    rw [lookup?_eq, none] at found
    cases found
  have same : (table.flatten.symbols.map fun symbol => if symbol.address = target then flatChange symbol else symbol) =
      table.flatten.symbols :=
    (List.map_congr_left fun symbol listed => if_neg (apart symbol listed)).trans (List.map_id _)
  rw [SymbolTable.modify, same]

variable {flatChange : Symbol → Symbol} (members : ∀ symbol, (change symbol).members = symbol.members)
  (stands : ∀ symbol, Stands target.category target.path symbol → Stands target.category target.path (change symbol))
  (bare : ∀ symbol, (change symbol).bare = flatChange symbol.bare)
  (keeps : ∀ symbol, (flatChange symbol).address = symbol.address)

include members stands bare keeps

theorem flatten_reach :
    (table.reach target change).flatten = (table.flatten.ensure target).modify target flatChange := by
  by_cases none : target.path = []
  · rw [SymbolTable.ensure, none]
    refine Eq.trans ?_ (modify_flatten_of_nil standing none flatChange).symm
    rw [NestedTable.reach, none]
  · have sorted := SymbolTable.sorted_ensure standing.sorted_flatten target
    have touches := standing.touches none members
    refine (standing.reach stands).flatten_eq (SymbolTable.sorted_modify sorted target keeps) ?_ fun address => ?_
    · rw [NestedTable.reach, SymbolTable.modify, SymbolTable.ensure]
      cases whole : target.path with
      | nil => rfl
      | cons key names => exact map_fst_upsert _ _ _ _
    · rw [SymbolTable.lookup?_modify _ target flatChange keeps, SymbolTable.lookup?_ensure standing.sorted_flatten none,
        standing.lookup?_flatten]
      by_cases here : address = target
      · subst here
        rw [if_pos rfl, if_pos (SymbolTable.self_mem_approach none), touches.changed]
        cases table.lookup? address with
        | some symbol => exact congrArg some (bare symbol)
        | none => exact congrArg some (bare _)
      · rw [if_neg here]
        cases below : target.isBelow address with
        | true =>
          cases found : table.lookup? address with
          | some symbol =>
            obtain ⟨inner, after⟩ := touches.kept address symbol below found
            rw [after]
            rfl
          | none =>
            by_cases top : address.path = []
            · have outside : address ∉ SymbolTable.approach target := fun onWay => (SymbolTable.mem_approach.mp onWay).2 top
              rw [lookup?_of_path_nil _ top, if_neg outside]
              rfl
            · obtain ⟨inner, after⟩ := touches.created address below top found
              rw [after, if_pos (SymbolTable.mem_approach_of_isBelow below top)]
              rfl
        | false =>
          rw [touches.apart address here below, if_neg (SymbolTable.not_mem_approach here below), Option.or_none]

theorem flatten_modify : (table.modify target change).flatten = table.flatten.modify target flatChange := by
  by_cases none : target.path = []
  · rw [modify_flatten_of_nil standing none, NestedTable.modify, none]
  · have sorted := SymbolTable.sorted_modify standing.sorted_flatten target keeps
    refine (standing.modify stands).flatten_eq sorted ?_ fun address => ?_
    · rw [NestedTable.modify]
      cases target.path with
      | nil => rfl
      | cons key names => exact map_fst_adjust _ _ _
    · rw [SymbolTable.lookup?_modify _ target flatChange keeps, standing.lookup?_flatten, bare_lookup?_modify members none]
      by_cases here : address = target
      · simp [here, bare, Function.comp_def]
      · simp [here]

end Squares

section Clearing

variable (standing : table.Standing) (uri : String)

include standing

theorem isUsedWithin_cleared (found : table.lookup? address = some symbol) :
    isUsedWithin (table.flatten.symbols.map (·.clearUri uri)) address = !(symbol.clearUri uri).isOrphan := by
  have used := standing.exists_mem_flatten found (P := fun other => (other.clearUri uri).usages ≠ [])
  rw [Bool.eq_iff_iff, isUsedWithin_map fun symbol => clearUri_address symbol uri, used, Bool.not_eq_true',
    (standing.found found).isOrphan_clearUri]
  simp only [← NestedSymbol.bare_clearUri]
  rfl

theorem lookup?_flatten_clearUri (address : SymbolPath) :
    ((table.clearUri uri).lookup? address).map NestedSymbol.bare = (table.flatten.clearUri uri).lookup? address := by
  have keeps := fun symbol : Symbol => clearUri_address symbol uri
  have cleared := standing.sorted_flatten.map (·.clearUri uri) keeps
  have kept := SymbolTable.symbolAt?_filter cleared
    (fun symbol => isUsedWithin (table.flatten.symbols.map (·.clearUri uri)) symbol.address) address
  rw [← cleared.prune_eq_filter, symbolAt?_map _ keeps] at kept
  refine Eq.trans ?_ kept.symm
  have known : symbolAt? table.flatten.symbols address = (table.lookup? address).map NestedSymbol.bare :=
    standing.lookup?_flatten address
  rw [known, lookup?_clearUri standing]
  cases found : table.lookup? address with
  | none => rfl
  | some symbol =>
    have here : (symbol.bare.clearUri uri).address = address := (keeps _).trans (standing.address_of_found found)
    rw [Option.map_some, Option.map_some, Option.map_some, Option.filter_some, Option.filter_some, here,
      isUsedWithin_cleared standing uri found]
    split
    · rw [Option.map_some, NestedSymbol.bare_clearUri]
    · rfl

theorem any_clearUri_iff (category : Category) :
    ((table.flatten.clearUri uri).symbols.any fun symbol => symbol.address.category == category) = true ↔
      ((table.clearUri uri).categories.lookup category).isSome = true := by
  have sorted := SymbolTable.sorted_clearUri standing.sorted_flatten uri
  have lookups := lookup?_flatten_clearUri standing uri
  rw [List.any_eq_true]
  constructor
  · rintro ⟨symbol, listed, same⟩
    have found := SymbolTable.lookup?_of_mem sorted listed
    rw [← lookups] at found
    obtain ⟨nested, here, -⟩ := Option.map_eq_some_iff.mp found
    obtain ⟨symbols, known, -⟩ := Option.bind_eq_some_iff.mp here
    rw [beq_iff_eq.mp same] at known
    rw [known]
    rfl
  · intro known
    obtain ⟨symbols, known⟩ := Option.isSome_iff_exists.mp known
    have filled := known
    rw [standing.lookup_clearUri] at filled
    obtain ⟨⟨name, first⟩, others, rfl⟩ :=
      List.exists_cons_of_ne_nil (by simpa using (Option.filter_eq_some_iff.mp filled).2)
    have found : (table.flatten.clearUri uri).lookup? ⟨category, [name]⟩ = some first.bare := by
      rw [← lookups, lookup?, known]
      simp [NestedSymbol.findIn, NestedSymbol.descend]
    exact ⟨first.bare, List.mem_of_find?_eq_some found, by rw [symbolAt?_address found, beq_self_eq_true]⟩

theorem flatten_clearUri : (table.clearUri uri).flatten = table.flatten.clearUri uri := by
  refine (standing.clearUri uri).flatten_eq (SymbolTable.sorted_clearUri standing.sorted_flatten uri) ?_
    (lookup?_flatten_clearUri standing uri)
  change _ = (table.categories.map Prod.fst).filter _
  rw [NestedTable.clearUri, List.filter_map, List.filter_map, List.map_map]
  refine congrArg (List.map Prod.fst) (List.filter_congr fun (category, symbols) listed => ?_)
  have left := any_clearUri_iff standing uri category
  rw [standing.lookup_clearUri, (mem_iff_lookup standing.sorted.nodup).mp listed, Option.map_some, Option.isSome_filter,
    Option.any_some] at left
  exact Bool.eq_iff_iff.mpr left.symm

/-- A top-level symbol has members if something stands below it. -/
theorem exists_isBelow (found : table.lookup? address = some symbol) :
    (∃ other ∈ table.flatten.symbols, other.address.isBelow address = true) ↔ symbol.members ≠ [] := by
  have stands := standing.found found
  have apart := standing.exists_mem_flatten found (P := fun other => other.address ≠ address)
  have below : ∀ other : Symbol, other.address.isBelow address = true ↔
      other.address.isWithin address = true ∧ other.address ≠ address := by
    intro other
    refine ⟨fun below => ⟨by simp [SymbolPath.isWithin, below], ?_⟩, fun both => SymbolPath.isBelow_of_isWithin both.1 both.2⟩
    intro same
    simp [same, SymbolPath.isBelow] at below
  simp only [below, apart]
  constructor
  · rintro ⟨names, inner, found, apart⟩ none
    cases names with
    | nil =>
      cases found
      exact apart stands.address
    | cons name names =>
      rw [NestedSymbol.descend, none] at found
      cases found
  · intro some
    obtain ⟨⟨name, member⟩, listed⟩ := List.exists_mem_of_ne_nil _ some
    have known := (mem_iff_lookup stands.row.sorted.nodup).mp listed
    refine ⟨[name], member, by simp [NestedSymbol.descend, known], ?_⟩
    rw [(stands.row.stands name member known).address]
    intro same
    have longer := congrArg (List.length ∘ SymbolPath.path) same
    simp at longer

theorem lookup?_flatten_clearLayout (address : SymbolPath) :
    (table.clearLayout.lookup? address).map NestedSymbol.bare = table.flatten.clearLayout.lookup? address := by
  have stripped := standing.sorted_flatten.map SymbolTable.unlaid SymbolTable.unlaid_address
  have kept := SymbolTable.symbolAt?_filter stripped (fun symbol =>
    !(SymbolTable.isSchemaKey symbol && symbol.usages.isEmpty &&
      !(table.flatten.symbols.map SymbolTable.unlaid).any fun other => other.address.isBelow symbol.address)) address
  rw [symbolAt?_map _ SymbolTable.unlaid_address] at kept
  refine Eq.trans ?_ kept.symm
  have known : symbolAt? table.flatten.symbols address = (table.lookup? address).map NestedSymbol.bare :=
    standing.lookup?_flatten address
  rw [known, lookup?_clearLayout standing]
  cases found : table.lookup? address with
  | none => split <;> rfl
  | some symbol =>
    have here := standing.address_of_found found
    have schemaKey : SymbolTable.isSchemaKey symbol.bare = true ↔ address.category = .schema ∧ address.path.length = 1 := by
      rw [SymbolTable.isSchemaKey, here, Bool.and_eq_true, beq_iff_eq, beq_iff_eq]
    have below : ((table.flatten.symbols.map SymbolTable.unlaid).any fun other => other.address.isBelow address) =
        !symbol.members.isEmpty := by
      rw [Bool.eq_iff_iff, List.any_map, List.any_eq_true]
      simp only [Function.comp_apply, SymbolTable.unlaid_address, exists_isBelow standing found]
      simp
    have atKey : SymbolTable.isSchemaKey (SymbolTable.unlaid symbol.bare) = SymbolTable.isSchemaKey symbol.bare := by
      rw [SymbolTable.isSchemaKey, SymbolTable.isSchemaKey, SymbolTable.unlaid_address]
    rw [Option.map_some, Option.map_some, Option.map_some, Option.filter_some, Option.filter_some,
      (SymbolTable.unlaid_address _).trans here, below, atKey]
    by_cases key : address.category = .schema ∧ address.path.length = 1
    · rw [if_pos key, schemaKey.mpr key]
      have same : SymbolTable.unlaid symbol.bare = symbol.withoutLayout.bare := by
        rw [SymbolTable.unlaid, if_pos (schemaKey.mpr key)]
        rfl
      rw [same, Bool.true_and, Bool.not_not]
      change _ = if (!symbol.withoutLayout.isOrphan) = true then _ else _
      split <;> rfl
    · have same : SymbolTable.unlaid symbol.bare = symbol.bare := by
        rw [SymbolTable.unlaid, if_neg (mt schemaKey.mp key)]
      rw [if_neg key, same, Bool.eq_false_iff.mpr (mt schemaKey.mp key)]
      rfl

theorem flatten_clearLayout : table.clearLayout.flatten = table.flatten.clearLayout := by
  have categories : table.clearLayout.categories.map Prod.fst = table.categories.map Prod.fst := by
    rw [NestedTable.clearLayout, map_fst_adjust]
  exact standing.clearLayout.flatten_eq (SymbolTable.sorted_clearLayout standing.sorted_flatten) categories
    (lookup?_flatten_clearLayout standing)

end Clearing

theorem Standing.applyNested (record : SymbolRecord) (category : Category) (path : List String) (symbol : NestedSymbol)
    (stands : Stands category path symbol) : Stands category path (record.applyNested symbol) :=
  stands.congr rfl rfl rfl stands.row

theorem flatten_enter (standing : table.Standing) (address : SymbolPath) (record : SymbolRecord) :
    (table.enter address record).flatten = table.flatten.enter address record :=
  flatten_reach standing (fun _ => rfl) (Standing.applyNested record _ _) (fun _ => rfl) fun _ => rfl

theorem flatten_amend (standing : table.Standing) (address : SymbolPath) (record : SymbolRecord) :
    (table.amend address record).flatten = table.flatten.amend address record :=
  flatten_modify standing (fun _ => rfl) (Standing.applyNested record _ _) (fun _ => rfl) fun _ => rfl

theorem flatten_getOrCreate (standing : table.Standing) (address : SymbolPath) :
    (table.getOrCreate address).flatten = table.flatten.ensure address := by
  have reached : (table.reach address id).flatten = (table.flatten.ensure address).modify address id :=
    flatten_reach standing (fun _ => rfl) (fun _ stands => stands) (fun _ => rfl) fun _ => rfl
  have idle : (table.flatten.ensure address).modify address id = table.flatten.ensure address := by simp [SymbolTable.modify]
  exact reached.trans idle

theorem flatten_registerModule (standing : table.Standing) (path : ModulePath) (uri : String) :
    (table.registerModule path uri).flatten = table.flatten.registerModule path uri :=
  flatten_reach standing (fun _ => rfl) (fun _ stands => stands.congr rfl rfl rfl stands.row) (fun _ => rfl) fun _ => rfl

end NestedTable

structure QueryStep.Agrees (query : Query) (address : SymbolPath) (table : NestedTable) : Prop where
  standing : table.Standing
  table : query.table = table.flatten
  address : query.address = address

namespace QueryStep

open NestedTable

mutual

theorem ask_agrees : ∀ (step : QueryStep) {query : Query} {address : SymbolPath} {table : NestedTable},
    Agrees query address table → Agrees (ask query step) address (run address table step)
  | enter record, query, address, table, agrees => by
    rw [ask, run]
    refine ⟨agrees.standing.reach (Standing.applyNested record _ _), ?_, agrees.address⟩
    change query.table.enter query.address record = _
    rw [agrees.table, agrees.address, flatten_enter agrees.standing]
  | amend record, query, address, table, agrees => by
    rw [ask, run]
    refine ⟨agrees.standing.modify (Standing.applyNested record _ _), ?_, agrees.address⟩
    change query.table.amend query.address record = _
    rw [agrees.table, agrees.address, flatten_amend agrees.standing]
  | member name steps, query, address, table, agrees => by
    obtain ⟨standing, flat, rfl⟩ := agrees
    rw [ask, run]
    have start : Agrees (Query.start query.table query.uri (query.address.member name)) (query.address.member name) table :=
      ⟨standing, flat, rfl⟩
    have inner := askEach_agrees steps start
    exact ⟨inner.standing, inner.table, rfl⟩

theorem askEach_agrees : ∀ (steps : List QueryStep) {query : Query} {address : SymbolPath} {table : NestedTable},
    Agrees query address table → Agrees (askEach query steps) address (runEach address table steps)
  | [], _, _, _, agrees => agrees
  | step :: steps, _, _, _, agrees => askEach_agrees steps (ask_agrees step agrees)

end

end QueryStep

namespace NestedTable

variable {table : NestedTable}

/-- Whatever the operation, it does to the flat form of a table what it does to the table. -/
theorem run_operation (standing : table.Standing) (operation : TableOperation) :
    (operation.run table).Standing ∧ (operation.run table).flatten = operation.runFlat table.flatten := by
  cases operation with
  | registerModule path uri =>
    refine ⟨?_, flatten_registerModule standing path uri⟩
    rw [TableOperation.run, registerModule]
    exact standing.reach fun _ stands => stands.congr rfl rfl rfl stands.row
  | getOrCreate address => exact ⟨standing.reach fun _ stands => stands, flatten_getOrCreate standing address⟩
  | query uri address steps =>
    have start : QueryStep.Agrees (Query.start table.flatten uri address) address table := ⟨standing, rfl, rfl⟩
    have agrees := QueryStep.askEach_agrees steps start
    exact ⟨agrees.standing, agrees.table.symm⟩
  | clearUri uri => exact ⟨standing.clearUri uri, flatten_clearUri standing uri⟩
  | clearLayout => exact ⟨standing.clearLayout, flatten_clearLayout standing⟩

theorem foldl_run (standing : table.Standing) (operations : List TableOperation) :
    (operations.foldl TableOperation.run table).Standing ∧
      (operations.foldl TableOperation.run table).flatten = operations.foldl TableOperation.runFlat table.flatten := by
  induction operations generalizing table with
  | nil => exact ⟨standing, rfl⟩
  | cons operation operations ih =>
    obtain ⟨after, flat⟩ := run_operation standing operation
    rw [List.foldl_cons, List.foldl_cons, ← flat]
    exact ih after

/-- The flat table is the nested one, whatever was done to them. -/
theorem flatten_build (operations : List TableOperation) : (build operations).flatten = SymbolTable.build operations :=
  (foldl_run Standing.empty operations).2

theorem size_flatten (table : NestedTable) : table.flatten.size = table.size := by
  rw [SymbolTable.size, flatten, List.length_map, size, ← NestedSymbol.length_preorderEach,
    NestedSymbol.preorderEach_eq, List.flatMap_assoc]
  simp only [NestedSymbol.preorderEach_eq]

/-- Every symbol is counted once. -/
theorem Standing.ncard_eq_size (standing : table.Standing) :
    {address | (table.lookup? address).isSome = true}.Finite ∧
      {address | (table.lookup? address).isSome = true}.ncard = table.size := by
  have nodup : table.flatten.addresses.Nodup := by
    refine List.pairwise_map.mpr (standing.sorted_flatten.imp fun {first second} before same => ?_)
    rw [same, SymbolPath.compare_eq_iff.mpr rfl] at before
    cases before
  have known : {address | (table.lookup? address).isSome = true} = (table.flatten.addresses.toFinset : Set SymbolPath) := by
    ext address
    simp [← SymbolTable.isSome_lookup?, standing.lookup?_flatten]
  rw [known, Set.ncard_coe_finset, List.toFinset_card_of_nodup nodup, ← size_flatten]
  exact ⟨Finset.finite_toSet _, List.length_map _⟩

/-- In every table that operations make, a symbol has the category, the path and the last segment of the address at which
it is found, the size is the number of addresses with a symbol, and to enter a record changes the symbol at its address
and the members on the way only. All that is known of flat tables is true of it. -/
theorem build_represents (operations : List TableOperation) :
    (∀ address symbol, (build operations).lookup? address = some symbol →
        symbol.category = address.category ∧ symbol.path = address.path ∧
          address.path.getLast? = some symbol.identifier) ∧
      {address | ((build operations).lookup? address).isSome = true}.Finite ∧
      {address | ((build operations).lookup? address).isSome = true}.ncard = (build operations).size ∧
      (∀ target record, target.path ≠ [] →
        Touches target record.applyNested (build operations) ((build operations).enter target record)) ∧
      (build operations).flatten = SymbolTable.build operations := by
  have standing : (build operations).Standing := (foldl_run Standing.empty operations).1
  obtain ⟨finite, count⟩ := standing.ncard_eq_size
  refine ⟨fun address symbol found => ?_, finite, count, fun target record some => standing.touches some fun _ => rfl,
    flatten_build operations⟩
  have stands := standing.found found
  exact ⟨stands.kind, stands.here, stands.named⟩

/-- A module is registered, a struct gets a member, which gets one itself, from another document, and the document of the
struct is cleared: the struct stays for its member. -/
theorem build_represents_cleared :
    let deep := ((SymbolPath.schema "::b::X").member "f").member "g"
    let operations : List TableOperation :=
      [.registerModule ⟨["b"]⟩ "file:///b.sdoc",
        .query "file:///b.sdoc" (.schema "::b::X")
          [.enter { usage := some { kind := .definition, location := ⟨"file:///b.sdoc", .point 0⟩ } },
            .member "f" [.amend {}, .member "g"
              [.enter { usage := some { kind := .definition, location := ⟨"file:///a.sdoc", .point 0⟩ } }]]],
        .clearUri "file:///b.sdoc"]
    (build operations).flatten.addresses =
        [.schema "::b", .schema "::b::X", (SymbolPath.schema "::b::X").member "f", deep] ∧
      ((build operations).lookup? deep).map NestedSymbol.path = some ["::b::X", "f", "g"] ∧
      {address | ((build operations).lookup? address).isSome = true}.ncard = 4 ∧ deep.path ≠ [] ∧
      Touches deep (SymbolRecord.applyNested {}) (build operations) ((build operations).enter deep {}) := by
  intro deep operations
  obtain ⟨-, -, count, enters, -⟩ := build_represents operations
  have some : deep.path ≠ [] := List.cons_ne_nil _ _
  exact ⟨by decide +kernel, by decide +kernel, count.trans (by decide +kernel), some, enters deep {} some⟩

end NestedTable

end SchemaDoc
