import SchemaDoc.Proofs.Histories
import SchemaDoc.Proofs.SymbolTableLaws

/-! Clearing a document takes its usages out of a table, and nothing else. Symbols stand in the order of their
addresses, so that what is within a symbol follows it without a gap. Pruning from behind therefore keeps exactly
the symbols within which something is used, and what clearing does follows from that one equation. -/

namespace SchemaDoc

/-- Between a path and one that extends it there are only paths that extend it. -/
theorem ModulePath.prefix_of_between {first middle last : List String} (extended : first <+: last)
    (lower : compareSegments first middle ≠ .gt) (upper : compareSegments middle last ≠ .gt) : first <+: middle := by
  induction first generalizing middle last with
  | nil => exact List.nil_prefix
  | cons segment segments ih =>
    cases middle with
    | nil => exact absurd rfl lower
    | cons other others =>
      obtain ⟨rest, rfl⟩ := extended
      rw [compareSegments] at lower
      rw [List.cons_append, compareSegments] at upper
      cases order : compare segment other with
      | lt =>
        rw [Std.OrientedCmp.gt_iff_lt.mpr order] at upper
        exact absurd rfl upper
      | gt =>
        rw [order] at lower
        exact absurd rfl lower
      | eq =>
        obtain rfl := Std.compare_eq_iff_eq.mp order
        rw [order] at lower upper
        exact List.cons_prefix_cons.mpr ⟨rfl, ih (List.prefix_append segments rest) lower upper⟩

namespace SymbolPath

def isWithin (inner outer : SymbolPath) : Bool := inner == outer || inner.isBelow outer

variable {inner middle outer : SymbolPath}

theorem isWithin_iff : inner.isWithin outer = true ↔ inner.category = outer.category ∧ outer.path <+: inner.path := by
  rw [isWithin, Bool.or_eq_true, beq_iff_eq]
  constructor
  · rintro (rfl | below)
    · exact ⟨rfl, List.prefix_refl _⟩
    · simp only [isBelow, Bool.and_eq_true, beq_iff_eq, List.isPrefixOf_iff_prefix] at below
      exact below.1
  · rintro ⟨category, extended⟩
    by_cases same : inner.path = outer.path
    · left
      cases inner
      cases outer
      cases category
      cases same
      rfl
    · right
      simp [isBelow, category, extended, same]

theorem isWithin_refl (address : SymbolPath) : address.isWithin address = true := by simp [isWithin]

theorem isWithin_trans (deep : inner.isWithin middle = true) (shallow : middle.isWithin outer = true) :
    inner.isWithin outer = true := by
  obtain ⟨category, extended⟩ := isWithin_iff.mp deep
  obtain ⟨category', extended'⟩ := isWithin_iff.mp shallow
  exact isWithin_iff.mpr ⟨category.trans category', extended'.trans extended⟩

theorem isBelow_of_isWithin (within : inner.isWithin outer = true) (apart : inner ≠ outer) :
    inner.isBelow outer = true := by
  rw [isWithin, Bool.or_eq_true, beq_iff_eq] at within
  exact within.resolve_left apart

theorem compare_of_category (same : outer.category = inner.category) :
    outer.compare inner = ModulePath.compareSegments outer.path inner.path := by
  have here : inner.category.compare inner.category = .eq := by
    rw [Category.compare_eq_described, Std.compare_eq_iff_eq]
  rw [compare, same, here]

theorem isLE_of_isWithin (within : inner.isWithin outer = true) : outer.compare inner ≠ .gt := by
  obtain ⟨category, rest, path⟩ := isWithin_iff.mp within
  rw [compare_of_category category.symm, ← path]
  induction outer.path with
  | nil => cases rest <;> simp [ModulePath.compareSegments]
  | cons segment segments ih =>
    have same : Ord.compare segment segment = .eq := Std.compare_eq_iff_eq.mpr rfl
    rw [List.cons_append, ModulePath.compareSegments, same]
    exact ih

/-- What is within an address stands behind it without a gap. -/
theorem isWithin_of_between (within : inner.isWithin outer = true) (lower : outer.compare middle ≠ .gt)
    (upper : middle.compare inner ≠ .gt) : middle.isWithin outer = true := by
  obtain ⟨category, extended⟩ := isWithin_iff.mp within
  have between : middle.category = outer.category := by
    rw [compare] at lower upper
    rw [category] at upper
    apply Category.described?_injective
    rw [← Std.compare_eq_iff_eq, ← Category.compare_eq_described]
    cases order : middle.category.compare outer.category with
    | eq => rfl
    | lt =>
      have reverse : outer.category.compare middle.category = .gt := by
        rw [Category.compare_eq_described, Std.OrientedCmp.gt_iff_lt, ← Category.compare_eq_described, order]
      rw [reverse] at lower
      exact absurd rfl lower
    | gt =>
      rw [order] at upper
      exact absurd rfl upper
  rw [compare_of_category between.symm] at lower
  rw [compare_of_category (between.trans category.symm)] at upper
  exact isWithin_iff.mpr ⟨between, ModulePath.prefix_of_between extended lower upper⟩

end SymbolPath

def isUsedWithin (symbols : List Symbol) (address : SymbolPath) : Bool :=
  symbols.any fun symbol => symbol.address.isWithin address && !symbol.usages.isEmpty

theorem isUsedWithin_iff {symbols : List Symbol} {address : SymbolPath} : isUsedWithin symbols address = true ↔
    ∃ symbol ∈ symbols, symbol.address.isWithin address = true ∧ symbol.usages ≠ [] := by
  simp [isUsedWithin]

theorem Sorted.isUsedWithin_cons {first : Symbol} {rest : List Symbol} (sorted : Sorted (first :: rest))
    {symbol : Symbol} (member : symbol ∈ rest) :
    isUsedWithin (first :: rest) symbol.address = isUsedWithin rest symbol.address := by
  have before := List.rel_of_pairwise_cons sorted member
  have outside : first.address.isWithin symbol.address = false := by
    rw [Bool.eq_false_iff]
    intro within
    exact SymbolPath.isLE_of_isWithin within (Std.OrientedCmp.gt_iff_lt.mpr before)
  simp [isUsedWithin, outside]

/-- The first symbol that is kept tells whether anything within an earlier address is used. -/
theorem Sorted.head_prune_isBelow {first : Symbol} {rest : List Symbol} (sorted : Sorted (first :: rest))
    (kept : prune rest = rest.filter fun symbol => isUsedWithin rest symbol.address) :
    ((prune rest).head?.any fun next => next.address.isBelow first.address) = isUsedWithin rest first.address := by
  have own : ∀ symbol ∈ rest, symbol.usages ≠ [] → symbol ∈ prune rest := by
    intro symbol member used
    rw [kept, List.mem_filter, isUsedWithin_iff]
    exact ⟨member, symbol, member, SymbolPath.isWithin_refl _, used⟩
  have keptSorted := (List.Pairwise.of_cons sorted).sublist (prune_sublist rest)
  rw [Bool.eq_iff_iff, isUsedWithin_iff]
  cases found : prune rest with
  | nil =>
    simp only [List.head?_nil, Option.any_none, Bool.false_eq_true, false_iff]
    rintro ⟨symbol, member, -, used⟩
    exact absurd (found ▸ own symbol member used) List.not_mem_nil
  | cons next following =>
    have heads : next ∈ prune rest := found ▸ List.mem_cons_self
    rw [kept, List.mem_filter, isUsedWithin_iff] at heads
    obtain ⟨listed, inner, innerListed, innermost, used⟩ := heads
    have ahead := List.rel_of_pairwise_cons sorted listed
    rw [List.head?_cons, Option.any_some]
    constructor
    · intro below
      have within : next.address.isWithin first.address = true := by simp [SymbolPath.isWithin, below]
      exact ⟨inner, innerListed, SymbolPath.isWithin_trans innermost within, used⟩
    · rintro ⟨symbol, member, within, used⟩
      have order : next.address.compare symbol.address ≠ .gt := by
        rw [found] at keptSorted
        rcases List.mem_cons.mp (found ▸ own symbol member used) with rfl | behind
        · simp [SymbolPath.compare_eq_iff.mpr rfl]
        · simp [List.rel_of_pairwise_cons keptSorted behind]
      apply SymbolPath.isBelow_of_isWithin (SymbolPath.isWithin_of_between within (by simp [ahead]) order)
      intro same
      rw [same, SymbolPath.compare_eq_iff.mpr rfl] at ahead
      cases ahead

/-- Pruning keeps the symbols within which something is used. -/
theorem Sorted.prune_eq_filter {symbols : List Symbol} (sorted : Sorted symbols) :
    prune symbols = symbols.filter fun symbol => isUsedWithin symbols symbol.address := by
  induction symbols with
  | nil => rfl
  | cons first rest ih =>
    have kept := ih (List.Pairwise.of_cons sorted)
    have others : rest.filter (fun symbol => isUsedWithin (first :: rest) symbol.address) = prune rest := by
      rw [kept]
      exact List.filter_congr fun symbol member => sorted.isUsedWithin_cons member
    have self : isUsedWithin (first :: rest) first.address =
        (!first.usages.isEmpty || isUsedWithin rest first.address) := by
      simp [isUsedWithin, SymbolPath.isWithin_refl]
    rw [prune, List.filter_cons, others, self, ← sorted.head_prune_isBelow kept]
    cases prune rest with
    | nil => cases first.usages.isEmpty <;> rfl
    | cons next following =>
      by_cases below : next.address.isBelow first.address = true <;> by_cases unused : first.usages = [] <;>
        simp [below, unused]

theorem Sorted.mem_prune {symbols : List Symbol} (sorted : Sorted symbols) {symbol : Symbol} :
    symbol ∈ prune symbols ↔ symbol ∈ symbols ∧
      ∃ inner ∈ symbols, inner.address.isWithin symbol.address = true ∧ inner.usages ≠ [] := by
  rw [sorted.prune_eq_filter, List.mem_filter, isUsedWithin_iff]

section Change

variable {change : Symbol → Symbol} (keeps : ∀ symbol, (change symbol).address = symbol.address)

include keeps

theorem isUsedWithin_map {symbols : List Symbol} {address : SymbolPath} :
    isUsedWithin (symbols.map change) address = true ↔
      ∃ symbol ∈ symbols, symbol.address.isWithin address = true ∧ (change symbol).usages ≠ [] := by
  simp [isUsedWithin, keeps]

/-- Pruning ahead of a change that brings no usages makes no difference to pruning behind it. -/
theorem Sorted.prune_map_prune {symbols : List Symbol} (sorted : Sorted symbols)
    (unused : ∀ symbol, symbol.usages = [] → (change symbol).usages = []) :
    prune ((prune symbols).map change) = prune (symbols.map change) := by
  have remains : ∀ symbol ∈ symbols, (change symbol).usages ≠ [] → symbol ∈ prune symbols := by
    intro symbol member used
    rw [sorted.mem_prune]
    exact ⟨member, symbol, member, SymbolPath.isWithin_refl _, fun none => used (unused symbol none)⟩
  have same : ∀ address, isUsedWithin ((prune symbols).map change) address =
      isUsedWithin (symbols.map change) address := by
    intro address
    rw [Bool.eq_iff_iff, isUsedWithin_map keeps, isUsedWithin_map keeps]
    constructor
    · rintro ⟨symbol, member, used⟩
      exact ⟨symbol, (prune_sublist symbols).mem member, used⟩
    · rintro ⟨symbol, member, within, used⟩
      exact ⟨symbol, remains symbol member used, within, used⟩
  have pruned : Sorted (prune symbols) := sorted.sublist (prune_sublist symbols)
  rw [(pruned.map change keeps).prune_eq_filter, (sorted.map change keeps).prune_eq_filter, List.filter_map,
    List.filter_map]
  simp only [Function.comp_def, keeps, same]
  congr 1
  rw [sorted.prune_eq_filter, List.filter_filter]
  apply List.filter_congr
  intro symbol _
  rw [Bool.and_eq_left_iff_imp, isUsedWithin_map keeps, isUsedWithin_iff]
  rintro ⟨inner, listed, within, used⟩
  exact ⟨inner, listed, within, fun none => used (unused inner none)⟩

end Change

namespace Symbol

theorem clearUri_subcategory (symbol : Symbol) (uri : String) :
    (symbol.clearUri uri).subcategory = symbol.subcategory := by
  rw [clearUri, settle]
  split <;> rfl

/-- What was known about a symbol goes with its last declaration. -/
theorem clearUri_contents (symbol : Symbol) (uri : String) :
    if ∃ usage ∈ (symbol.clearUri uri).usages, usage.kind.isDeclaring = true then
      (symbol.clearUri uri).data = symbol.data ∧ (symbol.clearUri uri).desc = symbol.desc ∧
        (symbol.clearUri uri).relations = symbol.relations
    else (symbol.clearUri uri).data = none ∧ (symbol.clearUri uri).desc = none ∧
      (symbol.clearUri uri).relations = {} := by
  rw [clearUri_usages, clearUri, settle, isDeclared]
  simp only [List.any_eq_true]
  split <;> simp

theorem clearUri_usages_nil {symbol : Symbol} (unused : symbol.usages = []) (uri : String) :
    (symbol.clearUri uri).usages = [] := by
  rw [clearUri_usages, unused, List.filter_nil]

/-- What a symbol loses without a declaration it loses again when more usages go. -/
theorem clearUri_settle (symbol : Symbol) (uri : String) : symbol.settle.clearUri uri = symbol.clearUri uri := by
  cases declared : symbol.isDeclared with
  | true => rw [settle, if_pos declared]
  | false =>
    have still : (symbol.usages.filter (!·.isCheckedFrom uri)).any (·.kind.isDeclaring) = false :=
      List.any_eq_false.mpr fun usage member =>
        List.any_eq_false.mp declared usage (List.mem_of_mem_filter member)
    have bare : symbol.settle = { symbol with relations := {}, data := none, desc := none } := by
      simp [settle, declared]
    rw [bare]
    simp only [clearUri, settle, isDeclared, still, Bool.false_eq_true, if_false]

/-- Clearing two documents takes out the usages of both at once. -/
theorem clearUri_clearUri (symbol : Symbol) (uri other : String) : (symbol.clearUri uri).clearUri other =
    settle { symbol with
      usages := symbol.usages.filter fun usage => !usage.isCheckedFrom other && !usage.isCheckedFrom uri } := by
  change (settle _).clearUri other = _
  rw [clearUri_settle, clearUri, List.filter_filter]

theorem clearUri_comm (symbol : Symbol) (uri other : String) :
    (symbol.clearUri uri).clearUri other = (symbol.clearUri other).clearUri uri := by
  simp only [clearUri_clearUri, Bool.and_comm]

theorem clearUri_idem (symbol : Symbol) (uri : String) :
    (symbol.clearUri uri).clearUri uri = symbol.clearUri uri := by
  simp only [clearUri_clearUri, Bool.and_self]
  rfl

end Symbol

namespace SymbolTable

theorem mem_approach {step address : SymbolPath} :
    step ∈ approach address ↔ address.isWithin step = true ∧ step.path ≠ [] := by
  rw [SymbolPath.isWithin_iff, approach, List.mem_map]
  constructor
  · rintro ⟨count, bound, rfl⟩
    have nonempty : 0 < address.path.length := by
      rw [List.mem_range] at bound
      omega
    refine ⟨⟨rfl, List.take_prefix _ _⟩, ?_⟩
    intro none
    have length := congrArg List.length none
    rw [List.length_take, List.length_nil] at length
    omega
  · rintro ⟨⟨category, extended⟩, some⟩
    have positive := List.length_pos_iff.mpr some
    have bound := extended.length_le
    refine ⟨step.path.length - 1, List.mem_range.mpr (by omega), ?_⟩
    rw [Nat.sub_add_cancel positive, ← List.prefix_iff_eq_take.mp extended, category]

def addresses (table : SymbolTable) : List SymbolPath := table.symbols.map Symbol.address

theorem isSome_lookup? {table : SymbolTable} {address : SymbolPath} :
    (table.lookup? address).isSome = true ↔ address ∈ table.addresses := by
  simp [lookup?, addresses]

theorem mem_insertCategory (category : Category) (categories : List Category) :
    category ∈ insertCategory category categories ∧ categories ⊆ insertCategory category categories := by
  induction categories with
  | nil => simp [insertCategory]
  | cons first rest ih =>
    rw [insertCategory]
    split
    · exact ⟨List.mem_cons_self, List.subset_cons_self _ _⟩
    · next same =>
      rw [Category.compare_eq_described, Std.compare_eq_iff_eq] at same
      rw [Category.described?_injective same]
      exact ⟨List.mem_cons_self, List.Subset.refl _⟩
    · exact ⟨List.mem_cons_of_mem _ ih.1, List.cons_subset_cons _ ih.2⟩

/-- How symbols are kept: in order, each with the symbols on the way to it, and none in a closed category. -/
structure Arranged (table : SymbolTable) : Prop where
  sorted : Sorted table.symbols
  rooted : ∀ address ∈ table.addresses, address.path ≠ []
  attached : ∀ address ∈ table.addresses, ∀ step ∈ approach address, step ∈ table.addresses
  listed : ∀ address ∈ table.addresses, address.category ∈ table.categories

namespace Arranged

variable {table : SymbolTable}

theorem empty : ({} : SymbolTable).Arranged :=
  ⟨.nil, fun _ member => absurd member List.not_mem_nil, fun _ member => absurd member List.not_mem_nil,
    fun _ member => absurd member List.not_mem_nil⟩

theorem modify (arranged : table.Arranged) (target : SymbolPath) {change : Symbol → Symbol}
    (keeps : ∀ symbol, (change symbol).address = symbol.address) : (table.modify target change).Arranged := by
  have same : (table.modify target change).addresses = table.addresses := by
    rw [addresses, addresses, SymbolTable.modify, List.map_map]
    apply List.map_congr_left
    intro symbol _
    rw [Function.comp_apply]
    split
    · exact keeps symbol
    · rfl
  refine ⟨sorted_modify arranged.sorted target keeps, ?_, ?_, ?_⟩ <;> rw [same]
  · exact arranged.rooted
  · exact arranged.attached
  · exact arranged.listed

theorem ensure (arranged : table.Arranged) (target : SymbolPath) : (table.ensure target).Arranged := by
  by_cases none : target.path = []
  · have same : table.ensure target = table := by simp [SymbolTable.ensure, none]
    rw [same]
    exact arranged
  · have here : ∀ address, address ∈ (table.ensure target).addresses ↔
        address ∈ table.addresses ∨ address ∈ approach target := by
      intro address
      rw [← isSome_lookup?, ← isSome_lookup?, lookup?_ensure arranged.sorted none, Option.isSome_or]
      by_cases onWay : address ∈ approach target <;> simp [onWay]
    have categories : (table.ensure target).categories = insertCategory target.category table.categories := by
      rw [SymbolTable.ensure, if_neg (by simpa using none)]
    refine ⟨sorted_ensure arranged.sorted target, ?_, ?_, ?_⟩
    · intro address member
      rcases (here address).mp member with earlier | onWay
      · exact arranged.rooted address earlier
      · exact (mem_approach.mp onWay).2
    · intro address member step before
      refine (here step).mpr ?_
      rcases (here address).mp member with earlier | onWay
      · exact .inl (arranged.attached address earlier step before)
      · obtain ⟨within, some⟩ := mem_approach.mp before
        exact .inr (mem_approach.mpr ⟨SymbolPath.isWithin_trans (mem_approach.mp onWay).1 within, some⟩)
    · intro address member
      obtain ⟨added, others⟩ := mem_insertCategory target.category table.categories
      rw [categories]
      rcases (here address).mp member with earlier | onWay
      · exact others (arranged.listed address earlier)
      · exact (SymbolPath.isWithin_iff.mp (mem_approach.mp onWay).1).1 ▸ added

theorem enter (arranged : table.Arranged) (target : SymbolPath) (record : SymbolRecord) :
    (table.enter target record).Arranged :=
  (arranged.ensure target).modify target fun _ => rfl

theorem amend (arranged : table.Arranged) (target : SymbolPath) (record : SymbolRecord) :
    (table.amend target record).Arranged :=
  arranged.modify target fun _ => rfl

theorem registerModule (arranged : table.Arranged) (path : ModulePath) (uri : String) :
    (table.registerModule path uri).Arranged :=
  (arranged.ensure _).modify _ fun _ => rfl

theorem thin (arranged : table.Arranged) {thinned : SymbolTable} (sorted : Sorted thinned.symbols)
    (earlier : ∀ address ∈ thinned.addresses, address ∈ table.addresses)
    (upwards : ∀ address ∈ thinned.addresses, ∀ step ∈ table.addresses, address.isWithin step = true →
      step ∈ thinned.addresses)
    (categories : ∀ address ∈ thinned.addresses, address.category ∈ table.categories →
      address.category ∈ thinned.categories) : thinned.Arranged := by
  constructor
  case sorted => exact sorted
  case rooted => exact fun address member => arranged.rooted address (earlier address member)
  case attached =>
    intro address member step before
    have known := arranged.attached address (earlier address member) step before
    exact upwards address member step known (mem_approach.mp before).1
  case listed =>
    exact fun address member => categories address member (arranged.listed address (earlier address member))

theorem clearLayout (arranged : table.Arranged) : table.clearLayout.Arranged := by
  have stripped : table.clearLayout.symbols = (table.symbols.map unlaid).filter fun symbol =>
      !(isSchemaKey symbol && symbol.usages.isEmpty &&
        !(table.symbols.map unlaid).any fun other => other.address.isBelow symbol.address) := rfl
  have addresses : table.addresses = (table.symbols.map unlaid).map Symbol.address := by
    simp [SymbolTable.addresses, unlaid_address]
  refine arranged.thin (sorted_clearLayout arranged.sorted) ?_ ?_ fun _ _ => id
  · rw [addresses, SymbolTable.addresses, stripped]
    exact fun address member => (List.filter_sublist.map Symbol.address).mem member
  · intro address member step known within
    by_cases same : address = step
    · exact same ▸ member
    · rw [addresses] at known
      obtain ⟨holder, listed, rfl⟩ := List.mem_map.mp known
      obtain ⟨inner, kept, rfl⟩ := List.mem_map.mp member
      rw [stripped] at kept
      have below : (table.symbols.map unlaid).any (fun other => other.address.isBelow holder.address) = true :=
        List.any_eq_true.mpr ⟨inner, List.mem_of_mem_filter kept, SymbolPath.isBelow_of_isWithin within same⟩
      rw [SymbolTable.addresses, stripped]
      exact List.mem_map.mpr ⟨holder, List.mem_filter.mpr ⟨listed, by simp [below]⟩, rfl⟩

theorem register (arranged : table.Arranged) (modules : List (ModulePath × String)) :
    (Layout.register table modules).Arranged :=
  Layout.register_induction (motive := Arranged) arranged.clearLayout fun _ laid entry _ =>
    laid.registerModule entry.1 entry.2

end Arranged

theorem mem_usagesAt {table : SymbolTable} (sorted : Sorted table.symbols) {address : SymbolPath} {usage : Usage} :
    usage ∈ table.usagesAt address ↔ ∃ symbol ∈ table.symbols, symbol.address = address ∧ usage ∈ symbol.usages := by
  rw [usagesAt]
  constructor
  · intro member
    cases found : table.lookup? address with
    | none => simp [found] at member
    | some symbol =>
      rw [found] at member
      exact ⟨symbol, List.mem_of_find?_eq_some found, symbolAt?_address found, member⟩
  · rintro ⟨symbol, listed, rfl, member⟩
    rw [lookup?_of_mem sorted listed]
    exact member

/-- Whether a usage at an address or below it is left when a document is cleared. -/
def OutlastsWithin (table : SymbolTable) (uri : String) (address : SymbolPath) : Prop :=
  ∃ inner, (inner = address ∨ inner.isBelow address = true) ∧
    ∃ usage ∈ table.usagesAt inner, usage.contributor = .layout ∨ usage.location.uri ≠ uri

theorem not_isCheckedFrom {usage : Usage} {uri : String} :
    (!usage.isCheckedFrom uri) = true ↔ usage.contributor = .layout ∨ usage.location.uri ≠ uri := by
  cases contributor : usage.contributor <;> simp [Usage.isCheckedFrom, contributor]

theorem outlastsWithin_iff {table : SymbolTable} (sorted : Sorted table.symbols) {uri : String}
    {address : SymbolPath} : table.OutlastsWithin uri address ↔
      ∃ symbol ∈ table.symbols, symbol.address.isWithin address = true ∧ (symbol.clearUri uri).usages ≠ [] := by
  simp only [OutlastsWithin, mem_usagesAt sorted, clearUri_usages, ← not_isCheckedFrom, SymbolPath.isWithin,
    Bool.or_eq_true, beq_iff_eq, ne_eq, List.filter_eq_nil_iff, not_forall]
  constructor
  · rintro ⟨_, within, usage, ⟨symbol, listed, rfl, member⟩, outlasts⟩
    exact ⟨symbol, listed, within, usage, member, not_not_intro outlasts⟩
  · rintro ⟨symbol, listed, within, usage, member, outlasts⟩
    exact ⟨_, within, usage, ⟨symbol, listed, rfl, member⟩, not_not.mp outlasts⟩

theorem mem_addresses_clearUri {table : SymbolTable} (sorted : Sorted table.symbols) {uri : String}
    {address : SymbolPath} : address ∈ (table.clearUri uri).addresses ↔
      address ∈ table.addresses ∧ table.OutlastsWithin uri address := by
  have cleared := sorted.map (·.clearUri uri) fun symbol => clearUri_address symbol uri
  rw [outlastsWithin_iff sorted]
  constructor
  · intro member
    obtain ⟨_, kept, rfl⟩ := List.mem_map.mp member
    obtain ⟨listed, used⟩ := cleared.mem_prune.mp kept
    obtain ⟨symbol, earlier, rfl⟩ := List.mem_map.mp listed
    refine ⟨clearUri_address symbol uri ▸ List.mem_map_of_mem earlier, ?_⟩
    simpa [clearUri_address] using used
  · rintro ⟨member, used⟩
    obtain ⟨symbol, earlier, rfl⟩ := List.mem_map.mp member
    refine List.mem_map.mpr ⟨symbol.clearUri uri, ?_, clearUri_address symbol uri⟩
    refine cleared.mem_prune.mpr ⟨List.mem_map_of_mem earlier, ?_⟩
    simpa [clearUri_address] using used

theorem Arranged.clearUri {table : SymbolTable} (arranged : table.Arranged) (uri : String) :
    (table.clearUri uri).Arranged := by
  refine arranged.thin (sorted_clearUri arranged.sorted uri) ?_ ?_ ?_
  · exact fun address member => ((mem_addresses_clearUri arranged.sorted).mp member).1
  · intro address member step known within
    obtain ⟨-, inner, deeper, outlasts⟩ := (mem_addresses_clearUri arranged.sorted).mp member
    have deep : inner.isWithin address = true := by simpa [SymbolPath.isWithin] using deeper
    have deepest : inner.isWithin step = true := SymbolPath.isWithin_trans deep within
    refine (mem_addresses_clearUri arranged.sorted).mpr ⟨known, inner, ?_, outlasts⟩
    simpa [SymbolPath.isWithin] using deepest
  · intro address member listed
    obtain ⟨symbol, kept, rfl⟩ := List.mem_map.mp member
    exact List.mem_filter.mpr ⟨listed, List.any_eq_true.mpr ⟨symbol, kept, by simp⟩⟩

/-- Clearing one document after another is pruning once behind both. -/
theorem clearUri_clearUri {table : SymbolTable} (sorted : Sorted table.symbols) (uri other : String) :
    (table.clearUri uri).clearUri other =
      { symbols := prune (table.symbols.map fun symbol => (symbol.clearUri uri).clearUri other)
        categories := table.categories.filter fun category =>
          (prune (table.symbols.map fun symbol => (symbol.clearUri uri).clearUri other)).any fun symbol =>
            symbol.address.category == category } := by
  have once := sorted.map (·.clearUri uri) fun symbol => clearUri_address symbol uri
  have symbols : clearSymbols other (clearSymbols uri table.symbols) =
      prune (table.symbols.map fun symbol => (symbol.clearUri uri).clearUri other) := by
    rw [clearSymbols, clearSymbols, once.prune_map_prune (fun symbol => clearUri_address symbol other)
      fun _ unused => Symbol.clearUri_usages_nil unused other, List.map_map]
    rfl
  simp only [clearUri, symbols, List.filter_filter, SymbolTable.mk.injEq, and_true]
  apply List.filter_congr
  intro category _
  rw [Bool.and_eq_left_iff_imp, ← symbols, List.any_eq_true, List.any_eq_true]
  rintro ⟨symbol, kept, inside⟩
  obtain ⟨earlier, present, rfl⟩ := List.mem_map.mp ((prune_sublist _).mem kept)
  exact ⟨earlier, present, clearUri_address earlier other ▸ inside⟩

/-- What is left of a table without one document. -/
structure Clears (uri : String) (before after : SymbolTable) : Prop where
  /-- Nothing stands at the empty path. Elsewhere a symbol stays for a usage at it or below it. -/
  present : ∀ address, (after.lookup? address).isSome = true ↔ address.path ≠ [] ∧ before.OutlastsWithin uri address
  kept : ∀ address symbol, after.lookup? address = some symbol → ∃ earlier, before.lookup? address = some earlier ∧
    symbol.address = earlier.address ∧ symbol.subcategory = earlier.subcategory ∧
    symbol.usages = earlier.usages.filter
      (fun usage => usage.contributor == .layout || usage.location.uri != uri) ∧
    if ∃ usage ∈ symbol.usages, usage.kind.isDeclaring = true then
      symbol.data = earlier.data ∧ symbol.desc = earlier.desc ∧ symbol.relations = earlier.relations
    else symbol.data = none ∧ symbol.desc = none ∧ symbol.relations = {}
  used : ∀ symbol ∈ after.symbols, symbol.usages ≠ [] ∨
    ∃ member ∈ after.symbols, member.address.isMemberOf symbol.address = true
  filled : ∀ category ∈ after.categories, after.topLevel category ≠ []

/-- What is below an address is within one of its members. -/
theorem Arranged.exists_member {table : SymbolTable} (arranged : table.Arranged) {inner outer : SymbolPath}
    (present : inner ∈ table.addresses) (below : inner.isBelow outer = true) :
    ∃ member ∈ table.symbols, member.address.isMemberOf outer = true := by
  simp only [SymbolPath.isBelow, Bool.and_eq_true, beq_iff_eq, List.isPrefixOf_iff_prefix, bne_iff_ne] at below
  obtain ⟨⟨category, rest, path⟩, apart⟩ := below
  cases rest with
  | nil => exact absurd (path.symm.trans (List.append_nil _)) apart
  | cons name names =>
    have onWay : outer.member name ∈ approach inner := by
      rw [mem_approach, SymbolPath.isWithin_iff]
      refine ⟨⟨category, names, ?_⟩, by simp [SymbolPath.member]⟩
      rw [← path, SymbolPath.member, List.append_assoc]
      rfl
    obtain ⟨member, listed, here⟩ := List.mem_map.mp (arranged.attached inner present _ onWay)
    refine ⟨member, listed, ?_⟩
    simp [here, SymbolPath.isMemberOf, SymbolPath.isBelow, SymbolPath.member]

namespace Arranged

variable {table : SymbolTable} (arranged : table.Arranged) (uri : String)

include arranged

theorem isSome_lookup?_clearUri (address : SymbolPath) : ((table.clearUri uri).lookup? address).isSome = true ↔
    address.path ≠ [] ∧ table.OutlastsWithin uri address := by
  rw [isSome_lookup?, mem_addresses_clearUri arranged.sorted]
  constructor
  · exact fun ⟨member, outlasts⟩ => ⟨arranged.rooted address member, outlasts⟩
  · rintro ⟨some, outlasts⟩
    refine ⟨?_, outlasts⟩
    obtain ⟨symbol, listed, within, -⟩ := (outlastsWithin_iff arranged.sorted).mp outlasts
    exact arranged.attached symbol.address (List.mem_map_of_mem listed) address (mem_approach.mpr ⟨within, some⟩)

/-- A symbol that nothing uses any more stays for its members only. -/
theorem used_or_member {symbol : Symbol} (listed : symbol ∈ (table.clearUri uri).symbols) : symbol.usages ≠ [] ∨
    ∃ member ∈ (table.clearUri uri).symbols, member.address.isMemberOf symbol.address = true := by
  have cleared := arranged.clearUri uri
  have pruned := arranged.sorted.map (·.clearUri uri) fun symbol => clearUri_address symbol uri
  obtain ⟨-, inner, earlier, within, used⟩ := pruned.mem_prune.mp listed
  have kept : inner ∈ (table.clearUri uri).symbols :=
    pruned.mem_prune.mpr ⟨earlier, inner, earlier, SymbolPath.isWithin_refl _, used⟩
  by_cases same : inner.address = symbol.address
  · have found := lookup?_of_mem cleared.sorted kept
    rw [same, lookup?_of_mem cleared.sorted listed] at found
    exact .inl (Option.some.inj found ▸ used)
  · have below := SymbolPath.isBelow_of_isWithin within same
    exact .inr (cleared.exists_member (List.mem_map_of_mem kept) below)

theorem topLevel_clearUri {category : Category} (listed : category ∈ (table.clearUri uri).categories) :
    (table.clearUri uri).topLevel category ≠ [] := by
  have cleared := arranged.clearUri uri
  obtain ⟨symbol, kept, inside⟩ := List.any_eq_true.mp (List.mem_filter.mp listed).2
  have present : symbol.address ∈ (table.clearUri uri).addresses := List.mem_map_of_mem kept
  have below : symbol.address.isBelow ⟨category, []⟩ = true := by
    simpa [SymbolPath.isBelow, cleared.rooted _ present] using inside
  obtain ⟨top, held, isTop⟩ := cleared.exists_member present below
  simp only [SymbolPath.isMemberOf, SymbolPath.isBelow, Bool.and_eq_true] at isTop
  apply List.ne_nil_of_mem (List.mem_filter.mpr ⟨held, _⟩)
  exact Bool.and_eq_true_iff.mpr ⟨isTop.1.1.1, isTop.2⟩

end Arranged

/-- Clearing a document takes exactly what checking it put into the table; it may be repeated, and the order in
which documents are cleared makes no difference. -/
theorem clearUri_exact {table : SymbolTable} (arranged : table.Arranged) (uri : String) :
    Clears uri table (table.clearUri uri) ∧ (table.clearUri uri).clearUri uri = table.clearUri uri ∧
      ∀ other, (table.clearUri uri).clearUri other = (table.clearUri other).clearUri uri := by
  have sorted := arranged.sorted
  refine ⟨⟨arranged.isSome_lookup?_clearUri uri, ?_, fun _ => arranged.used_or_member uri,
    fun _ => arranged.topLevel_clearUri uri⟩, ?_, ?_⟩
  · intro address symbol found
    obtain same | ⟨gone, -⟩ := lookup?_clearUri sorted uri address
    · obtain ⟨earlier, here, rfl⟩ := Option.map_eq_some_iff.mp (same.symm.trans found)
      refine ⟨earlier, here, clearUri_address earlier uri, earlier.clearUri_subcategory uri, ?_,
        earlier.clearUri_contents uri⟩
      rw [clearUri_usages]
      apply List.filter_congr
      intro usage _
      rw [Bool.eq_iff_iff, not_isCheckedFrom]
      simp
    · cases gone.symm.trans found
  · rw [clearUri_clearUri sorted]
    simp only [Symbol.clearUri_idem]
    rfl
  · intro other
    rw [clearUri_clearUri sorted, clearUri_clearUri sorted]
    simp only [Symbol.clearUri_comm _ uri other]

end SymbolTable

namespace Workspace

/-- The table of every reachable workspace is in order. -/
theorem Reachable.arranged {setup : Setup} {workspace : Workspace} (reachable : Reachable setup workspace) :
    workspace.table.Arranged := by
  refine reachable.invariant (fun workspace => workspace.table.Arranged) ?_ ?_ ?_ ?_ ?_
  · exact SymbolTable.Arranged.empty
  · exact fun workspace layout files arranged => arranged.register _
  · exact fun _ _ arranged => arranged
  · intro workspace files uri
    apply @loadWithin_keeps _ fun workspace => workspace.table.Arranged
    · exact fun before after table _ arranged => table ▸ arranged
    · exact fun workspace document _ arranged => arranged.clearUri document.uri
    · exact fun _ _ _ arranged => arranged
    · intro scope creates address record arranged
      cases creates with
      | true => exact arranged.enter address record
      | false => exact arranged.amend address record
  · exact fun _ _ arranged => arranged

/-- `::a::S` outlasts the document that defines it for a member that the other document puts into it, and `::a::U`
for a reference; `::a::V` goes. -/
theorem clearUri_exact_injected :
    let table := ((pairWorkspace "struct S { x: int } struct U {} struct V {}"
      "inject struct ::a::S { y: ::a::U }").checkAll {}).2.table
    table.Arranged ∧
      table.addresses = [.schema "::a", .schema "::a::S", (SymbolPath.schema "::a::S").member "x",
        (SymbolPath.schema "::a::S").member "y", .schema "::a::U", .schema "::a::V", .schema "::b"] ∧
      (table.clearUri "file:///a.sdoc").addresses = [.schema "::a", .schema "::a::S",
        (SymbolPath.schema "::a::S").member "y", .schema "::a::U", .schema "::b"] ∧
      SymbolTable.Clears "file:///a.sdoc" table (table.clearUri "file:///a.sdoc") ∧
      (table.clearUri "file:///a.sdoc").clearUri "file:///b.sdoc" =
        (table.clearUri "file:///b.sdoc").clearUri "file:///a.sdoc" := by
  intro table
  have arranged : table.Arranged := ((pairWorkspace_reachable {} _ _).checkAll {}).arranged
  obtain ⟨clears, -, commutes⟩ := SymbolTable.clearUri_exact arranged "file:///a.sdoc"
  exact ⟨arranged, by decide +kernel, by decide +kernel, clears, commutes "file:///b.sdoc"⟩

end Workspace

end SchemaDoc
