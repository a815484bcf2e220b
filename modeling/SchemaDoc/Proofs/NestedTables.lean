import SchemaDoc.Proofs.KeyedEntries
import SchemaDoc.Proofs.SymbolTableLaws
import SchemaDoc.Symbol.Nested

/-! What is found in a table of nested symbols. Each symbol has the address written in it at which it is found, and what
an operation does is told by what is found afterwards: at its address, on the way there, and elsewhere. -/

namespace SchemaDoc

instance : Std.TransCmp Category.compare := by
  have described : Category.compare = compareOn fun category : Category => category.described? := by
    funext first second
    exact Category.compare_eq_described first second
  rw [described]
  infer_instance

instance : Std.LawfulEqCmp Category.compare where
  compare_self := by simp [Category.compare_eq_described]
  eq_of_compare same := by
    rw [Category.compare_eq_described, Std.compare_eq_iff_eq] at same
    exact Category.described?_injective same

namespace NestedSymbol

/-- A symbol stands at a path if it says so and its members stand behind it, in order. -/
inductive Stands (category : Category) : List String → NestedSymbol → Prop where
  | intro {path : List String} {symbol : NestedSymbol} (kind : symbol.category = category) (here : symbol.path = path)
      (named : path.getLast? = some symbol.identifier) (sorted : InOrder compare symbol.members)
      (members : ∀ name member, symbol.members.lookup name = some member → Stands category (path ++ [name]) member) :
      Stands category path symbol

structure Row (category : Category) (path : List String) (symbols : List (String × NestedSymbol)) : Prop where
  sorted : InOrder compare symbols
  stands : ∀ name symbol, symbols.lookup name = some symbol → Stands category (path ++ [name]) symbol

variable {category : Category} {path before names way : List String} {name : String} {symbol found : NestedSymbol}
  {symbols : List (String × NestedSymbol)} {change : NestedSymbol → NestedSymbol} {uri : String}

namespace Stands

theorem kind (stands : Stands category path symbol) : symbol.category = category := by
  cases stands
  assumption

theorem here (stands : Stands category path symbol) : symbol.path = path := by
  cases stands
  assumption

theorem named (stands : Stands category path symbol) : path.getLast? = some symbol.identifier := by
  cases stands
  assumption

theorem row (stands : Stands category path symbol) : Row category path symbol.members := by
  cases stands with
  | intro kind here named sorted members => exact ⟨sorted, members⟩

theorem new (category : Category) (some : path ≠ []) : Stands category path (.new category path) := by
  refine .intro rfl rfl ?_ List.Pairwise.nil fun _ _ none => nomatch none
  rw [List.getLast?_eq_some_getLast some, NestedSymbol.new, List.getLastD_eq_getLast?, List.getLast?_eq_some_getLast some]
  rfl

/-- Nothing but what is written in a symbol and its members tells where it stands. -/
theorem congr {other : NestedSymbol} (stands : Stands category path symbol) (kind : other.category = symbol.category)
    (here : other.path = symbol.path) (named : other.identifier = symbol.identifier) (row : Row category path other.members) :
    Stands category path other :=
  .intro (kind.trans stands.kind) (here.trans stands.here) (named ▸ stands.named) row.sorted row.stands

theorem descend (stands : Stands category path symbol) (below : symbol.descend names = some found) :
    Stands category (path ++ names) found := by
  induction names generalizing path symbol with
  | nil =>
    cases below
    rw [List.append_nil]
    exact stands
  | cons name names ih =>
    obtain ⟨member, listed, below⟩ := Option.bind_eq_some_iff.mp below
    rw [List.append_cons]
    exact ih (stands.row.stands name member listed) below

end Stands

theorem Stands.address (stands : Stands category path symbol) : symbol.bare.address = ⟨category, path⟩ := by
  rw [← stands.kind, ← stands.here]
  rfl

theorem Row.findIn (row : Row category path symbols) (below : findIn symbols names = some found) :
    Stands category (path ++ names) found := by
  cases names with
  | nil => cases below
  | cons name names =>
    obtain ⟨member, listed, below⟩ := Option.bind_eq_some_iff.mp below
    rw [List.append_cons]
    exact (row.stands name member listed).descend below

theorem descend_append (way names : List String) (symbol : NestedSymbol) :
    symbol.descend (way ++ names) = (symbol.descend way).bind (descend names) := by
  induction way generalizing symbol with
  | nil => rfl
  | cons name way ih =>
    rw [List.cons_append, descend, descend]
    cases symbol.members.lookup name with
    | none => rfl
    | some member => exact ih member

theorem findIn_append (symbols : List (String × NestedSymbol)) (some : path ≠ []) (names : List String) :
    findIn symbols (path ++ names) = (findIn symbols path).bind (descend names) := by
  obtain ⟨name, way, rfl⟩ := List.exists_cons_of_ne_nil some
  rw [List.cons_append, findIn, findIn]
  cases symbols.lookup name with
  | none => rfl
  | some symbol => exact symbol.descend_append way names

theorem Row.empty : Row category path [] := ⟨List.Pairwise.nil, fun _ _ none => nomatch none⟩

/-- What reaching for a path changes in what is found, where the paths are relative to `before`. -/
structure Reached (category : Category) (before target : List String) (change : NestedSymbol → NestedSymbol)
    (found found' : List String → Option NestedSymbol) : Prop where
  here : ∀ below, found' (target ++ below) =
    (change ((found target).getD (.new category (before ++ target)))).descend below
  kept : ∀ way more symbol, way ++ more = target → more ≠ [] → found way = some symbol →
    ∃ members, found' way = some { symbol with members }
  created : ∀ way more, way ++ more = target → more ≠ [] → way ≠ [] → found way = none →
    ∃ members, found' way = some { NestedSymbol.new category (before ++ way) with members }
  elsewhere : ∀ way, ¬way <+: target → ¬target <+: way → found' way = found way

theorem getD_descend_new (category : Category) (path names : List String) (found : Option NestedSymbol) :
    ((found.getD (.new category path)).descend names).getD (.new category (path ++ names)) =
      (found.bind (descend names)).getD (.new category (path ++ names)) := by
  cases found with
  | some symbol => rfl
  | none =>
    cases names with
    | nil => simp [NestedSymbol.descend]
    | cons name names => rfl

theorem Row.getD (row : Row category before symbols) (name : String) :
    Stands category (before ++ [name]) ((symbols.lookup name).getD (.new category (before ++ [name]))) := by
  cases listed : symbols.lookup name with
  | some member => exact row.stands name member listed
  | none => exact .new category (by simp)

/-- Reaching into a row is reaching into the symbol with the first segment as its key. -/
theorem Row.reached (row : Row category before symbols) {inner : NestedSymbol → NestedSymbol}
    (member : ∀ symbol, Stands category (before ++ [name]) symbol →
      Reached category (before ++ [name]) names change (descend · symbol) (descend · (inner symbol))) :
    Reached category before (name :: names) change (NestedSymbol.findIn symbols)
      (NestedSymbol.findIn (upsert compare name (.new category (before ++ [name])) inner symbols)) := by
  have reached := member _ (row.getD name)
  have after : ∀ key rest,
      NestedSymbol.findIn (upsert compare name (.new category (before ++ [name])) inner symbols) (key :: rest) =
        if key = name then (inner ((symbols.lookup name).getD (.new category (before ++ [name])))).descend rest
        else NestedSymbol.findIn symbols (key :: rest) := by
    intro key rest
    rw [NestedSymbol.findIn, row.sorted.lookup_upsert]
    split <;> rfl
  constructor
  case here =>
    intro below
    have fresh := getD_descend_new category (before ++ [name]) names (symbols.lookup name)
    rw [List.append_assoc, List.singleton_append] at fresh
    rw [List.cons_append, after, if_pos rfl, reached.here below, List.append_assoc, List.singleton_append, fresh]
    rfl
  case kept =>
    intro way more symbol whole ahead found
    cases way with
    | nil => cases found
    | cons key rest =>
      obtain ⟨rfl, rfl⟩ := List.cons.inj whole
      obtain ⟨member, listed, below⟩ := Option.bind_eq_some_iff.mp found
      rw [after, if_pos rfl]
      rw [listed] at reached ⊢
      exact reached.kept rest more symbol rfl ahead below
  case created =>
    intro way more whole ahead inside missing
    obtain ⟨key, rest, rfl⟩ := List.exists_cons_of_ne_nil inside
    obtain ⟨rfl, rfl⟩ := List.cons.inj whole
    rw [after, if_pos rfl, List.append_cons before key rest]
    rw [NestedSymbol.findIn] at missing
    cases listed : symbols.lookup key with
    | some member =>
      rw [listed] at reached missing
      refine reached.created rest more rfl ahead ?_ missing
      rintro rfl
      cases missing
    | none =>
      rw [listed] at reached
      cases rest with
      | nil =>
        rw [List.append_nil]
        exact reached.kept [] more _ rfl ahead rfl
      | cons next rest => exact reached.created (next :: rest) more rfl ahead (List.cons_ne_nil _ _) rfl
  case elsewhere =>
    intro way apart apart'
    cases way with
    | nil => exact absurd (List.nil_prefix) apart
    | cons key rest =>
      rw [after]
      split
      · next same =>
        subst same
        rw [List.cons_prefix_cons] at apart apart'
        have stays := reached.elsewhere rest (fun within => apart ⟨rfl, within⟩) (fun within => apart' ⟨rfl, within⟩)
        rw [stays, NestedSymbol.findIn]
        cases symbols.lookup key with
        | some member => rfl
        | none =>
          cases rest with
          | nil => exact absurd ⟨rfl, List.nil_prefix⟩ apart
          | cons next rest => rfl
      · rfl

/-- What changes among the members of a symbol changes below the symbol. -/
theorem Reached.below {members : List (String × NestedSymbol)}
    (reached : Reached category before (name :: names) change (findIn symbol.members) (findIn members)) :
    Reached category before (name :: names) change (descend · symbol) (descend · { symbol with members }) where
  here := reached.here
  kept := by
    intro way more found whole ahead below
    cases way with
    | nil =>
      cases below
      exact ⟨members, rfl⟩
    | cons key rest => exact reached.kept (key :: rest) more found whole ahead below
  created := by
    intro way more whole ahead inside missing
    obtain ⟨key, rest, rfl⟩ := List.exists_cons_of_ne_nil inside
    exact reached.created (key :: rest) more whole ahead inside missing
  elsewhere := by
    intro way apart apart'
    cases way with
    | nil => exact absurd List.nil_prefix apart
    | cons key rest => exact reached.elsewhere (key :: rest) apart apart'

theorem take_behind {depth : Nat} (whole : path = before ++ name :: names) (behind : before.length = depth + 1) :
    path.take (depth + 2) = before ++ [name] := by
  rw [whole, List.append_cons, List.take_left' (by simp [behind])]

/-- The segments behind the symbol and those ahead make up the path that is reached for. -/
theorem reached_reach (stands : Stands category before symbol) {depth : Nat} (whole : path = before ++ names)
    (behind : before.length = depth + 1) :
    Reached category before names change (descend · symbol) (descend · (reach category path change depth names symbol)) := by
  induction names generalizing before symbol depth with
  | nil =>
    constructor
    case here => exact fun below => rfl
    case kept =>
      intro way more symbol whole ahead
      exact absurd (List.append_eq_nil_iff.mp whole).2 ahead
    case created =>
      intro way more whole ahead
      exact absurd (List.append_eq_nil_iff.mp whole).2 ahead
    case elsewhere => exact fun way _ apart => absurd List.nil_prefix apart
  | cons name names ih =>
    rw [reach, take_behind whole behind]
    apply Reached.below
    apply stands.row.reached
    intro member standing
    exact ih standing (by rw [whole, List.append_cons]) (by simp [behind])

theorem Row.upsert (row : Row category before symbols) {inner : NestedSymbol → NestedSymbol}
    (keeps : ∀ symbol, Stands category (before ++ [name]) symbol → Stands category (before ++ [name]) (inner symbol)) :
    Row category before (upsert compare name (.new category (before ++ [name])) inner symbols) where
  sorted := row.sorted.upsert name _ inner
  stands := by
    intro key symbol found
    rw [row.sorted.lookup_upsert] at found
    split at found
    · next same =>
      subst same
      cases found
      exact keeps _ (row.getD key)
    · exact row.stands key symbol found

theorem Row.adjust (row : Row category before symbols) {inner : NestedSymbol → NestedSymbol}
    (keeps : ∀ symbol, Stands category (before ++ [name]) symbol → Stands category (before ++ [name]) (inner symbol)) :
    Row category before (adjust name inner symbols) where
  sorted := row.sorted.adjust name inner
  stands := by
    intro key symbol found
    rw [lookup_adjust] at found
    split at found
    · next same =>
      subst same
      obtain ⟨earlier, listed, rfl⟩ := Option.map_eq_some_iff.mp found
      exact keeps earlier (row.stands key earlier listed)
    · exact row.stands key symbol found

theorem Row.map (row : Row category path symbols) {inner : NestedSymbol → NestedSymbol}
    (keeps : ∀ name symbol, symbols.lookup name = some symbol → Stands category (path ++ [name]) (inner symbol)) :
    Row category path (symbols.map fun entry => (entry.1, inner entry.2)) where
  sorted := row.sorted.map inner
  stands := by
    intro name symbol found
    rw [lookup_map_entries fun _ => inner] at found
    obtain ⟨earlier, listed, rfl⟩ := Option.map_eq_some_iff.mp found
    exact keeps name earlier listed

theorem Stands.reach (stands : Stands category before symbol) {depth : Nat} (whole : path = before ++ names)
    (behind : before.length = depth + 1)
    (keeps : ∀ symbol, Stands category path symbol → Stands category path (change symbol)) :
    Stands category before (reach category path change depth names symbol) := by
  induction names generalizing before symbol depth with
  | nil =>
    rw [List.append_nil] at whole
    subst whole
    exact keeps symbol stands
  | cons name names ih =>
    rw [NestedSymbol.reach, take_behind whole behind]
    refine stands.congr rfl rfl rfl (stands.row.upsert fun member standing => ?_)
    exact ih standing (by rw [whole, List.append_cons]) (by simp [behind])

theorem Stands.modifyBelow (stands : Stands category before symbol)
    (keeps : ∀ symbol, Stands category (before ++ names) symbol → Stands category (before ++ names) (change symbol)) :
    Stands category before (modifyBelow change names symbol) := by
  induction names generalizing before symbol with
  | nil =>
    rw [List.append_nil] at keeps
    exact keeps symbol stands
  | cons name names ih =>
    refine stands.congr rfl rfl rfl (stands.row.adjust fun member standing => ?_)
    rw [List.append_cons] at keeps
    exact ih standing keeps

theorem bare_findIn_adjust {inner : NestedSymbol → NestedSymbol}
    (member : ∀ symbol rest, ((inner symbol).descend rest).map bare =
      (symbol.descend rest).map fun found => if rest = names then (change found).bare else found.bare)
    (symbols : List (String × NestedSymbol)) (way : List String) :
    (findIn (adjust name inner symbols) way).map bare =
      (findIn symbols way).map fun found => if way = name :: names then (change found).bare else found.bare := by
  cases way with
  | nil => rfl
  | cons key rest =>
    rw [findIn, findIn, lookup_adjust]
    by_cases same : key = name
    · subst same
      rw [if_pos rfl]
      cases symbols.lookup key with
      | none => rfl
      | some symbol => simpa using member symbol rest
    · simp [same]

theorem bare_descend_modifyBelow (keeps : ∀ symbol, (change symbol).members = symbol.members) (names : List String)
    (symbol : NestedSymbol) (way : List String) : ((modifyBelow change names symbol).descend way).map bare =
      (symbol.descend way).map fun found => if way = names then (change found).bare else found.bare := by
  induction names generalizing symbol way with
  | nil =>
    cases way with
    | nil => rfl
    | cons key rest => simp [modifyBelow, descend, keeps]
  | cons name names ih =>
    cases way with
    | nil => rfl
    | cons key rest => exact bare_findIn_adjust ih symbol.members (key :: rest)

theorem clearEach_eq (uri : String) (symbols : List (String × NestedSymbol)) :
    clearEach uri symbols = symbols.map fun entry => (entry.1, entry.2.clearUri uri) := by
  induction symbols with
  | nil => rw [clearEach, List.map_nil]
  | cons entry symbols ih => rw [clearEach, ih, List.map_cons]

theorem clearUri_eq (uri : String) (symbol : NestedSymbol) :
    symbol.clearUri uri = settle { symbol with
      members := dropOrphans (clearEach uri symbol.members)
      usages := symbol.usages.filter fun usage => !usage.isCheckedFrom uri } := by
  cases symbol
  rw [clearUri]

theorem members_settle (symbol : NestedSymbol) : symbol.settle.members = symbol.members := by
  rw [settle]
  split <;> rfl

theorem members_clearUri (uri : String) (symbol : NestedSymbol) :
    (symbol.clearUri uri).members = dropOrphans (clearEach uri symbol.members) := by
  rw [clearUri_eq, members_settle]

theorem bare_settle (symbol : NestedSymbol) : symbol.settle.bare = symbol.bare.settle := by
  rw [settle, Symbol.settle]
  change _ = if (symbol.usages.any fun usage => usage.kind.isDeclaring) = true then _ else _
  split <;> rfl

theorem bare_clearUri (uri : String) (symbol : NestedSymbol) : (symbol.clearUri uri).bare = symbol.bare.clearUri uri := by
  rw [clearUri_eq, bare_settle]
  rfl

theorem lookup_clearEach (uri : String) (symbols : List (String × NestedSymbol)) (name : String) :
    (clearEach uri symbols).lookup name = (symbols.lookup name).map (clearUri uri) := by
  rw [clearEach_eq]
  exact lookup_map_entries (fun _ => clearUri uri) symbols name

theorem lookup_dropOrphans (sorted : InOrder compare symbols) (name : String) :
    (dropOrphans symbols).lookup name = (symbols.lookup name).filter fun symbol => !symbol.isOrphan :=
  lookup_filter sorted.nodup (fun symbol => !symbol.isOrphan) name

theorem Row.dropOrphans (row : Row category path symbols) : Row category path (dropOrphans symbols) where
  sorted := row.sorted.sublist (List.filter_sublist.map _)
  stands := by
    intro name symbol found
    rw [lookup_dropOrphans row.sorted] at found
    exact row.stands name symbol (Option.filter_eq_some_iff.mp found).1

theorem Stands.settle (stands : Stands category path symbol) : Stands category path symbol.settle := by
  rw [NestedSymbol.settle]
  split
  · exact stands
  · exact stands.congr rfl rfl rfl stands.row

theorem Stands.clearUri (stands : Stands category path symbol) (uri : String) :
    Stands category path (symbol.clearUri uri) := by
  induction stands with
  | @intro path symbol kind here named sorted members ih =>
    have cleared := (Stands.intro kind here named sorted members).row.map ih
    rw [clearUri_eq, clearEach_eq]
    apply Stands.settle
    exact .intro kind here named cleared.dropOrphans.sorted cleared.dropOrphans.stands

theorem Row.clearEach (row : Row category path symbols) (uri : String) : Row category path (clearEach uri symbols) := by
  rw [clearEach_eq]
  exact row.map fun name symbol listed => (row.stands name symbol listed).clearUri uri

/-- Nothing is missing below an orphan that is dropped. -/
theorem descend_of_no_orphan (symbol : NestedSymbol) (name : String) (names : List String) :
    ((some symbol).filter fun symbol => !symbol.isOrphan).bind (descend (name :: names)) =
      symbol.descend (name :: names) := by
  rw [Option.filter_some]
  cases orphan : symbol.isOrphan with
  | false => rfl
  | true =>
    rw [isOrphan, Bool.and_eq_true] at orphan
    have none : symbol.members = [] := List.isEmpty_iff.mp orphan.2
    rw [descend, none]
    rfl

/-- What is found in a cleared row is what was found, cleared itself, unless that is an orphan. -/
theorem Row.findIn_clearEach (row : Row category path symbols) (uri : String) (names : List String) :
    NestedSymbol.findIn (NestedSymbol.dropOrphans (NestedSymbol.clearEach uri symbols)) names =
      ((NestedSymbol.findIn symbols names).map (NestedSymbol.clearUri uri)).filter fun symbol => !symbol.isOrphan := by
  induction names generalizing path symbols with
  | nil => rfl
  | cons name names ih =>
    rw [NestedSymbol.findIn, NestedSymbol.findIn, lookup_dropOrphans (row.clearEach uri).sorted, lookup_clearEach]
    cases listed : symbols.lookup name with
    | none => rfl
    | some member =>
      cases names with
      | nil =>
        rw [Option.map_some, Option.bind_some, NestedSymbol.descend, Option.map_some, Option.filter_some]
        split <;> rfl
      | cons next rest =>
        have below := ih (row.stands name member listed).row
        rw [← members_clearUri] at below
        rw [Option.map_some, descend_of_no_orphan]
        exact below

/-- A symbol is no orphan without a document if something at it or below it is used elsewhere. -/
theorem Stands.isOrphan_clearUri (stands : Stands category path symbol) (uri : String) :
    (symbol.clearUri uri).isOrphan = false ↔
      ∃ names found, symbol.descend names = some found ∧ (found.clearUri uri).usages ≠ [] := by
  induction stands with
  | @intro path symbol kind here named sorted members ih =>
    have row := (Stands.intro kind here named sorted members).row.clearEach uri
    rw [isOrphan, Bool.and_eq_false_iff, List.isEmpty_eq_false_iff, List.isEmpty_eq_false_iff, members_clearUri]
    constructor
    · rintro (used | some)
      · exact ⟨[], symbol, rfl, used⟩
      · obtain ⟨⟨name, member⟩, listed⟩ := List.exists_mem_of_ne_nil _ some
        rw [mem_iff_lookup row.dropOrphans.sorted.nodup, lookup_dropOrphans row.sorted, lookup_clearEach] at listed
        obtain ⟨cleared, stays⟩ := Option.filter_eq_some_iff.mp listed
        obtain ⟨earlier, known, rfl⟩ := Option.map_eq_some_iff.mp cleared
        obtain ⟨names, found, below, used⟩ := (ih name earlier known).mp (by simpa using stays)
        exact ⟨name :: names, found, by simp [NestedSymbol.descend, known, below], used⟩
    · rintro ⟨names, found, below, used⟩
      cases names with
      | nil =>
        cases below
        exact .inl used
      | cons name names =>
        obtain ⟨member, known, below⟩ := Option.bind_eq_some_iff.mp below
        have stays := (ih name member known).mpr ⟨names, found, below, used⟩
        have kept : (dropOrphans (clearEach uri symbol.members)).lookup name = some (member.clearUri uri) := by
          rw [lookup_dropOrphans row.sorted, lookup_clearEach, known]
          exact Option.filter_eq_some_iff.mpr ⟨rfl, by rw [stays]; rfl⟩
        exact .inr (List.ne_nil_of_mem (mem_of_lookup kept))

theorem Row.withoutLayout (row : Row category path symbols) :
    Row category path (symbols.map fun entry => (entry.1, entry.2.withoutLayout)) := by
  refine row.map fun name symbol listed => ?_
  have stands := row.stands name symbol listed
  exact stands.congr rfl rfl rfl stands.row

/-- Without the layout only the symbols of a row itself may go: one with members is no orphan. -/
theorem Row.findIn_withoutLayout (row : Row category path symbols) (names : List String) :
    NestedSymbol.findIn (NestedSymbol.dropOrphans (symbols.map fun entry => (entry.1, entry.2.withoutLayout))) names =
      if names.length = 1 then
        ((NestedSymbol.findIn symbols names).map NestedSymbol.withoutLayout).filter fun symbol => !symbol.isOrphan
      else NestedSymbol.findIn symbols names := by
  cases names with
  | nil => rfl
  | cons name names =>
    rw [NestedSymbol.findIn, NestedSymbol.findIn, lookup_dropOrphans row.withoutLayout.sorted,
      lookup_map_entries fun _ => NestedSymbol.withoutLayout]
    cases symbols.lookup name with
    | none => simp
    | some member =>
      cases names with
      | nil => simp [NestedSymbol.descend, Option.filter_some]
      | cons next rest =>
        rw [Option.map_some, descend_of_no_orphan, if_neg (by simp)]
        rfl

end NestedSymbol

open NestedSymbol (Stands Row Reached)

namespace NestedTable

/-- Every symbol of the table stands at the keys that lead to it, and the keys are in order. -/
structure Standing (table : NestedTable) : Prop where
  sorted : InOrder Category.compare table.categories
  rows : ∀ category symbols, table.categories.lookup category = some symbols → Row category [] symbols

variable {table : NestedTable} {address target : SymbolPath} {change : NestedSymbol → NestedSymbol} {symbol : NestedSymbol}

theorem lookup?_eq (table : NestedTable) (address : SymbolPath) :
    table.lookup? address = NestedSymbol.findIn ((table.categories.lookup address.category).getD []) address.path := by
  rw [lookup?]
  cases table.categories.lookup address.category with
  | some symbols => rfl
  | none => cases address.path <;> rfl

theorem lookup?_of_path_nil (table : NestedTable) (none : address.path = []) : table.lookup? address = Option.none := by
  rw [lookup?_eq, none]
  rfl

namespace Standing

theorem empty : Standing {} := ⟨List.Pairwise.nil, fun _ _ none => nomatch none⟩

theorem row (standing : table.Standing) (category : Category) : Row category [] ((table.categories.lookup category).getD []) := by
  cases listed : table.categories.lookup category with
  | some symbols => exact standing.rows category symbols listed
  | none => exact .empty

theorem found (standing : table.Standing) (found : table.lookup? address = some symbol) :
    Stands address.category address.path symbol := by
  rw [lookup?_eq] at found
  exact (standing.row address.category).findIn found

theorem address_of_found (standing : table.Standing) (found : table.lookup? address = some symbol) : symbol.bare.address = address :=
  (standing.found found).address

theorem reach (standing : table.Standing)
    (keeps : ∀ symbol, Stands target.category target.path symbol → Stands target.category target.path (change symbol)) :
    (table.reach target change).Standing := by
  rw [NestedTable.reach]
  split
  · exact standing
  · next key names path =>
    rw [path] at keeps
    refine ⟨standing.sorted.upsert _ _ _, fun category symbols listed => ?_⟩
    rw [standing.sorted.lookup_upsert] at listed
    split at listed
    · next same =>
      subst same
      cases listed
      refine (standing.row target.category).upsert fun symbol stands => ?_
      exact stands.reach (by rw [path]; rfl) rfl (path ▸ keeps)
    · exact standing.rows category symbols listed

theorem modify (standing : table.Standing)
    (keeps : ∀ symbol, Stands target.category target.path symbol → Stands target.category target.path (change symbol)) :
    (table.modify target change).Standing := by
  rw [NestedTable.modify]
  split
  · exact standing
  · next key names path =>
    rw [path] at keeps
    refine ⟨standing.sorted.adjust _ _, fun category symbols listed => ?_⟩
    rw [lookup_adjust] at listed
    split at listed
    · next same =>
      subst same
      obtain ⟨earlier, known, rfl⟩ := Option.map_eq_some_iff.mp listed
      exact (standing.rows _ earlier known).adjust fun symbol stands => stands.modifyBelow keeps
    · exact standing.rows category symbols listed

theorem clearLayout (standing : table.Standing) : table.clearLayout.Standing := by
  have sorted := standing.sorted.adjust .schema fun symbols =>
    NestedSymbol.dropOrphans (symbols.map fun entry => (entry.1, entry.2.withoutLayout))
  refine ⟨sorted, fun category symbols listed => ?_⟩
  rw [NestedTable.clearLayout, lookup_adjust] at listed
  split at listed
  · obtain ⟨earlier, known, rfl⟩ := Option.map_eq_some_iff.mp listed
    exact (standing.rows category earlier known).withoutLayout.dropOrphans
  · exact standing.rows category symbols listed

theorem lookup_clearUri (standing : table.Standing) (uri : String) (category : Category) :
    (table.clearUri uri).categories.lookup category = ((table.categories.lookup category).map fun symbols =>
      NestedSymbol.dropOrphans (NestedSymbol.clearEach uri symbols)).filter fun symbols => !symbols.isEmpty := by
  have keys := standing.sorted.map fun symbols => NestedSymbol.dropOrphans (NestedSymbol.clearEach uri symbols)
  refine (lookup_filter keys.nodup (fun symbols => !symbols.isEmpty) category).trans (congrArg _ ?_)
  exact lookup_map_entries (fun _ symbols => NestedSymbol.dropOrphans (NestedSymbol.clearEach uri symbols)) _ category

theorem clearUri (standing : table.Standing) (uri : String) : (table.clearUri uri).Standing := by
  have keys := standing.sorted.map fun symbols => NestedSymbol.dropOrphans (NestedSymbol.clearEach uri symbols)
  refine ⟨keys.sublist (List.filter_sublist.map _), fun category symbols listed => ?_⟩
  rw [standing.lookup_clearUri] at listed
  obtain ⟨cleared, -⟩ := Option.filter_eq_some_iff.mp listed
  obtain ⟨earlier, known, rfl⟩ := Option.map_eq_some_iff.mp cleared
  exact ((standing.rows category earlier known).clearEach uri).dropOrphans

end Standing

theorem lookup?_clearUri (standing : table.Standing) (uri : String) (address : SymbolPath) :
    (table.clearUri uri).lookup? address =
      ((table.lookup? address).map (NestedSymbol.clearUri uri)).filter fun symbol => !symbol.isOrphan := by
  rw [lookup?, lookup?, standing.lookup_clearUri]
  cases listed : table.categories.lookup address.category with
  | none => rfl
  | some symbols =>
    rw [Option.map_some, Option.bind_some, ← (standing.rows _ symbols listed).findIn_clearEach uri]
    cases NestedSymbol.dropOrphans (NestedSymbol.clearEach uri symbols) with
    | nil => cases address.path <;> rfl
    | cons first others => rfl

theorem lookup?_clearLayout (standing : table.Standing) (address : SymbolPath) :
    table.clearLayout.lookup? address =
      if address.category = .schema ∧ address.path.length = 1 then
        ((table.lookup? address).map NestedSymbol.withoutLayout).filter fun symbol => !symbol.isOrphan
      else table.lookup? address := by
  rw [lookup?, lookup?, NestedTable.clearLayout, lookup_adjust]
  by_cases schema : address.category = .schema
  · rw [if_pos schema]
    cases listed : table.categories.lookup address.category with
    | none => simp
    | some symbols =>
      rw [Option.map_some, Option.bind_some, Option.bind_some, (standing.rows _ symbols listed).findIn_withoutLayout]
      simp only [schema, true_and]
  · rw [if_neg schema, if_neg fun both => schema both.1]

/-- What reaching for an address changes in its category. -/
theorem Standing.reached (standing : table.Standing) (some : target.path ≠ []) (change : NestedSymbol → NestedSymbol) :
    Reached target.category [] target.path change (fun path => table.lookup? ⟨target.category, path⟩)
      (fun path => (table.reach target change).lookup? ⟨target.category, path⟩) := by
  obtain ⟨key, names, whole⟩ := List.exists_cons_of_ne_nil some
  have before : (fun path => table.lookup? ⟨target.category, path⟩) =
      NestedSymbol.findIn ((table.categories.lookup target.category).getD []) := by
    funext path
    exact lookup?_eq table _
  have after : (fun path => (table.reach target change).lookup? ⟨target.category, path⟩) =
      NestedSymbol.findIn (upsert compare key (.new target.category ([] ++ [key]))
        (.reach target.category target.path change 0 names) ((table.categories.lookup target.category).getD [])) := by
    funext path
    rw [lookup?_eq, NestedTable.reach, whole, standing.sorted.lookup_upsert, if_pos rfl]
    rfl
  rw [before, after, whole]
  exact (standing.row target.category).reached fun symbol stands => NestedSymbol.reached_reach stands rfl rfl

theorem lookup?_reach_apart (standing : table.Standing) (apart : address.category ≠ target.category) :
    (table.reach target change).lookup? address = table.lookup? address := by
  rw [NestedTable.reach]
  split
  · rfl
  · rw [lookup?, lookup?, standing.sorted.lookup_upsert, if_neg apart]

theorem bare_lookup?_modify (keeps : ∀ symbol, (change symbol).members = symbol.members) (some : target.path ≠ []) :
    ((table.modify target change).lookup? address).map NestedSymbol.bare =
      (table.lookup? address).map fun found => if address = target then (change found).bare else found.bare := by
  obtain ⟨key, names, whole⟩ := List.exists_cons_of_ne_nil some
  obtain ⟨category, path⟩ := address
  rw [NestedTable.modify, whole, lookup?, lookup?, lookup_adjust]
  by_cases same : category = target.category
  · subst same
    have here : (⟨target.category, path⟩ : SymbolPath) = target ↔ path = key :: names := by
      rw [← whole]
      exact ⟨congrArg SymbolPath.path, fun same => by rw [same]⟩
    simp only [if_pos, here]
    cases table.categories.lookup target.category with
    | none => rfl
    | some symbols => exact NestedSymbol.bare_findIn_adjust (NestedSymbol.bare_descend_modifyBelow keeps names) symbols path
  · have apart : (⟨category, path⟩ : SymbolPath) ≠ target := fun here => same (congrArg SymbolPath.category here)
    simp only [if_neg same, if_neg apart]

/-- What it is to change the symbol at an address, which is created if need be. -/
structure Touches (target : SymbolPath) (change : NestedSymbol → NestedSymbol) (before after : NestedTable) : Prop where
  changed : after.lookup? target = some (change ((before.lookup? target).getD (.new target.category target.path)))
  /-- A symbol on the way keeps all that it is, but its members. -/
  kept : ∀ address symbol, target.isBelow address = true → before.lookup? address = some symbol →
    ∃ members, after.lookup? address = some { symbol with members }
  created : ∀ address, target.isBelow address = true → address.path ≠ [] → before.lookup? address = none →
    ∃ members, after.lookup? address = some { NestedSymbol.new address.category address.path with members }
  /-- Elsewhere the symbols stay, with all their members. -/
  apart : ∀ address, address ≠ target → target.isBelow address = false → after.lookup? address = before.lookup? address

theorem Standing.touches (standing : table.Standing) (some : target.path ≠ [])
    (keeps : ∀ symbol, (change symbol).members = symbol.members) : Touches target change table (table.reach target change) := by
  have reached := standing.reached some change
  obtain ⟨category, path⟩ := target
  have onWay : ∀ address : SymbolPath, SymbolPath.isBelow ⟨category, path⟩ address = true →
      address.category = category ∧ ∃ more, address.path ++ more = path ∧ more ≠ [] := by
    intro address below
    simp only [SymbolPath.isBelow, Bool.and_eq_true, beq_iff_eq, bne_iff_ne, List.isPrefixOf_iff_prefix] at below
    obtain ⟨⟨category, more, whole⟩, apart⟩ := below
    refine ⟨category.symm, more, whole, ?_⟩
    rintro rfl
    exact apart (by rw [← whole, List.append_nil])
  constructor
  case changed =>
    have here := reached.here []
    rw [List.append_nil] at here
    exact here
  case kept =>
    rintro ⟨_, way⟩ symbol below found
    obtain ⟨rfl, more, whole, ahead⟩ := onWay _ below
    exact reached.kept way more symbol whole ahead found
  case created =>
    rintro ⟨_, way⟩ below inside missing
    obtain ⟨rfl, more, whole, ahead⟩ := onWay _ below
    exact reached.created way more whole ahead inside missing
  case apart =>
    rintro ⟨other, way⟩ apart beside
    by_cases same : other = category
    · subst same
      by_cases deeper : path <+: way
      · obtain ⟨names, rfl⟩ := deeper
        have ahead : names ≠ [] := by
          rintro rfl
          rw [List.append_nil] at apart
          exact apart rfl
        obtain ⟨name, rest, rfl⟩ := List.exists_cons_of_ne_nil ahead
        refine (reached.here (name :: rest)).trans ?_
        rw [NestedSymbol.descend, keeps, lookup?_eq, lookup?_eq, NestedSymbol.findIn_append _ some]
        cases NestedSymbol.findIn ((table.categories.lookup other).getD []) path <;> rfl
      · refine reached.elsewhere way (fun onWay => ?_) deeper
        rw [← List.isPrefixOf_iff_prefix] at onWay
        have different : path ≠ way := fun same => apart (by rw [same])
        simp [SymbolPath.isBelow, onWay, different] at beside
    · exact lookup?_reach_apart standing same

end NestedTable

end SchemaDoc
