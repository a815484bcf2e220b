import Mathlib.Data.Option.Basic
import SchemaDoc.Proofs.TableViews

/-! References in runs without edits. Documents are checked while others are half done, loads fail or
run in circles, and aliases are exported again; still the table only grows, a symbol that is declared
without being an alias stays that, and whatever is stored as a target is such a symbol. The reason is
that only aliases are hidden: a declaration that is no alias is seen from every document, so that no use
clause can make an alias of it. -/

namespace SchemaDoc

/-- The symbols that relations and data refer to. -/
def referents (relations : Relations) (data : Option SchemaType) : List SymbolPath :=
  relations.aliasOf.toList ++ relations.describedBy.toList ++ data.toList.flatMap SchemaType.targets

def Symbol.targets (symbol : Symbol) : List SymbolPath := referents symbol.relations symbol.data

def SymbolRecord.targets (record : SymbolRecord) : List SymbolPath := referents record.relations record.data

theorem SymbolRecord.mem_apply_targets {record : SymbolRecord} {symbol : Symbol} {target : SymbolPath}
    (member : target ∈ (record.apply symbol).targets) : target ∈ symbol.targets ∨ target ∈ record.targets := by
  have either : ∀ {α : Type} {new old : Option α} {item : α}, (new <|> old) = some item → old = some item ∨ new = some item :=
    fun {_ new old item} found => ((Option.orElse_eq_some new old item).mp found).symm.imp_left And.right
  simp only [Symbol.targets, SymbolRecord.targets, referents, SymbolRecord.apply, List.mem_append, Option.mem_toList,
    List.mem_flatMap] at member ⊢
  rcases member with (link | link) | ⟨type, given, among⟩
  · exact (either link).imp (.inl ∘ .inl) (.inl ∘ .inl)
  · exact (either link).imp (.inl ∘ .inr) (.inl ∘ .inr)
  · exact (either given).imp (fun old => .inr ⟨type, old, among⟩) fun new => .inr ⟨type, new, among⟩

namespace SymbolTable

def targetsAt (table : SymbolTable) (address : SymbolPath) : List SymbolPath :=
  ((table.lookup? address).map Symbol.targets).getD []

theorem mem_targetsAt {table : SymbolTable} {address target : SymbolPath} :
    target ∈ table.targetsAt address ↔ ∃ symbol, table.lookup? address = some symbol ∧ target ∈ symbol.targets := by
  rw [targetsAt]
  cases table.lookup? address <;> simp

theorem lookup?_write {table : SymbolTable} (sorted : Sorted table.symbols) (creates : Bool) (target : SymbolPath)
    (record : SymbolRecord) {address : SymbolPath} {symbol : Symbol}
    (found : (if creates then table.enter target record else table.amend target record).lookup? address = some symbol) :
    ∃ earlier, (table.lookup? address = some earlier ∨ earlier = { address }) ∧
      (symbol = earlier ∨ address = target ∧ symbol = record.apply earlier) := by
  have merged : ∀ origin : SymbolTable, (∀ earlier, origin.lookup? address = some earlier →
      table.lookup? address = some earlier ∨ earlier = { address }) → (origin.amend target record).lookup? address = some symbol →
      ∃ earlier, (table.lookup? address = some earlier ∨ earlier = { address }) ∧
        (symbol = earlier ∨ address = target ∧ symbol = record.apply earlier) := by
    intro origin stood found
    rw [amend, lookup?_modify origin target record.apply fun _ => rfl] at found
    split at found
    · next here =>
      obtain ⟨earlier, known, rfl⟩ := Option.map_eq_some_iff.mp found
      exact ⟨earlier, stood earlier known, .inr ⟨here, rfl⟩⟩
    · exact ⟨symbol, stood symbol found, .inl rfl⟩
  cases creates with
  | false => exact merged table (fun _ known => .inl known) found
  | true =>
    refine merged (table.ensure target) ?_ found
    intro earlier known
    by_cases nowhere : target.path = []
    · simp only [ensure, nowhere, List.isEmpty_nil, if_true] at known
      exact .inl known
    · rw [lookup?_ensure sorted nowhere] at known
      rcases Option.or_eq_some_iff.mp known with known | ⟨_, new⟩
      · exact .inl known
      · exact .inr (Option.some.inj (Option.ite_none_right_eq_some.mp new).2).symm

theorem mem_targetsAt_write {table : SymbolTable} (sorted : Sorted table.symbols) (creates : Bool) (place : SymbolPath)
    (record : SymbolRecord) {address target : SymbolPath}
    (member : target ∈ (if creates then table.enter place record else table.amend place record).targetsAt address) :
    target ∈ table.targetsAt address ∨ address = place ∧ target ∈ record.targets := by
  obtain ⟨symbol, found, among⟩ := mem_targetsAt.mp member
  obtain ⟨earlier, origin, same⟩ := lookup?_write sorted creates place record found
  have old : target ∈ earlier.targets → target ∈ table.targetsAt address := by
    intro among
    rcases origin with known | rfl
    · exact mem_targetsAt.mpr ⟨earlier, known, among⟩
    · cases among
  rcases same with rfl | ⟨here, rfl⟩
  · exact .inl (old among)
  · exact (SymbolRecord.mem_apply_targets among).imp old fun new => ⟨here, new⟩

theorem mem_targetsAt_clearUri {table : SymbolTable} (sorted : Sorted table.symbols) (uri : String)
    {address target : SymbolPath} (member : target ∈ (table.clearUri uri).targetsAt address) :
    target ∈ table.targetsAt address := by
  obtain ⟨symbol, found, among⟩ := mem_targetsAt.mp member
  rcases lookup?_clearUri sorted uri address with same | ⟨gone, _⟩
  · rw [same] at found
    obtain ⟨earlier, known, rfl⟩ := Option.map_eq_some_iff.mp found
    refine mem_targetsAt.mpr ⟨earlier, known, ?_⟩
    rw [Symbol.clearUri, Symbol.settle] at among
    split at among
    · exact among
    · cases among
  · rw [gone] at found
    cases found

theorem targetsAt_registerModule {table : SymbolTable} (sorted : Sorted table.symbols) (path : ModulePath)
    (uri : String) {address target : SymbolPath} (member : target ∈ (table.registerModule path uri).targetsAt address) :
    target ∈ table.targetsAt address := by
  obtain ⟨symbol, found, among⟩ := mem_targetsAt.mp member
  have ensured : ∀ earlier, (table.ensure (.schema path.display)).lookup? address = some earlier →
      target ∈ earlier.targets → target ∈ table.targetsAt address := by
    intro earlier known among
    rw [lookup?_ensure sorted (SymbolPath.schema_path_ne path.display)] at known
    rcases Option.or_eq_some_iff.mp known with known | ⟨_, new⟩
    · exact mem_targetsAt.mpr ⟨earlier, known, among⟩
    · obtain rfl := Option.some.inj (Option.ite_none_right_eq_some.mp new).2
      cases among
  rw [lookup?_registerModule] at found
  split at found
  · obtain ⟨earlier, known, rfl⟩ := Option.map_eq_some_iff.mp found
    exact ensured earlier known among
  · exact ensured symbol found among

structure IsAnchor (table : SymbolTable) (address : SymbolPath) : Prop where
  declared : table.isDeclaredAt address = true
  plain : table.aliasAt address = none
  referred : ∃ usage ∈ table.usagesAt address, usage.kind = .reference

structure Grows (before after : SymbolTable) : Prop where
  usages : ∀ address, before.usagesAt address ⊆ after.usagesAt address
  aliases : ∀ address, before.isDeclaredAt address = true → (after.aliasAt address = none ↔ before.aliasAt address = none)

theorem isDeclaredAt_of_mem {table : SymbolTable} {address : SymbolPath} {usage : Usage}
    (member : usage ∈ table.usagesAt address) (declaring : usage.kind.isDeclaring = true) :
    table.isDeclaredAt address = true := List.any_eq_true.mpr ⟨usage, member, declaring⟩

namespace Grows

variable {before after last : SymbolTable}

theorem refl (table : SymbolTable) : table.Grows table := ⟨fun _ => List.Subset.refl _, fun _ _ => Iff.rfl⟩

theorem declared (grows : before.Grows after) {address : SymbolPath} (declared : before.isDeclaredAt address = true) :
    after.isDeclaredAt address = true := by
  obtain ⟨usage, member, declaring⟩ := List.any_eq_true.mp declared
  exact isDeclaredAt_of_mem (grows.usages address member) declaring

theorem trans (first : before.Grows after) (second : after.Grows last) : before.Grows last where
  usages address := List.Subset.trans (first.usages address) (second.usages address)
  aliases address declared := (second.aliases address (first.declared declared)).trans (first.aliases address declared)

end Grows

theorem IsAnchor.grow {before after : SymbolTable} {address : SymbolPath} (anchor : before.IsAnchor address)
    (grows : before.Grows after) : after.IsAnchor address := by
  obtain ⟨usage, member, kind⟩ := anchor.referred
  exact ⟨grows.declared anchor.declared, (grows.aliases address anchor.declared).mpr anchor.plain,
    usage, grows.usages address member, kind⟩

theorem isAnchor_enter {table : SymbolTable} (sorted : Sorted table.symbols) {target : SymbolPath}
    (declared : table.isDeclaredAt target = true) (plain : table.aliasAt target = none) {usage : Usage}
    (kind : usage.kind = .reference) : (table.enter target { usage := some usage }).IsAnchor target := by
  have present : (table.lookup? target).isSome := by
    rw [isDeclaredAt, usagesAt] at declared
    cases found : table.lookup? target with
    | none => simp [found] at declared
    | some symbol => rfl
  have appended : (table.enter target { usage := some usage }).usagesAt target = table.usagesAt target ++ [usage] := by
    by_cases nowhere : target.path = []
    · rw [enter_eq_amend nowhere, usagesAt_amend, if_pos ⟨rfl, present⟩]
      rfl
    · rw [usagesAt_enter sorted nowhere, if_pos rfl]
      rfl
  obtain ⟨first, member, declaring⟩ := List.any_eq_true.mp declared
  constructor
  case declared => exact isDeclaredAt_of_mem (appended ▸ List.mem_append_left _ member) declaring
  case plain =>
    rcases aliasAt_write sorted true target { usage := some usage } target with same | ⟨_, link, given, _⟩
    · exact same.trans plain
    · cases given
  case referred => exact ⟨usage, appended ▸ List.mem_append_right _ (List.mem_singleton_self _), kind⟩

end SymbolTable

namespace Workspace

/-- What runs without edits keep up. -/
structure Firm (workspace : Workspace) : Prop where
  sorted : Sorted workspace.table.symbols
  laid : ∀ address, ∀ usage ∈ workspace.table.usagesAt address, usage.kind = .implementation → usage.contributor = .layout
  recorded : ∀ address, ∀ usage ∈ workspace.table.usagesAt address, usage.contributor = .checker →
    (workspace.record? usage.location.uri).isSome
  hidden : ∀ address, ∀ usage ∈ workspace.table.declarationsAt address, usage.visibility = .file →
    workspace.table.aliasAt address ≠ none
  anchored : ∀ address, ∀ target ∈ workspace.table.targetsAt address, workspace.table.IsAnchor target

namespace Firm

variable {workspace other : Workspace}

theorem congr (firm : workspace.Firm) (table : other.table = workspace.table)
    (records : ∀ uri, (workspace.record? uri).isSome → (other.record? uri).isSome) : other.Firm where
  sorted := table ▸ firm.sorted
  laid := table ▸ firm.laid
  recorded address usage member checked := records _ (firm.recorded address usage (table ▸ member) checked)
  hidden := table ▸ firm.hidden
  anchored := table ▸ firm.anchored

theorem sees (firm : workspace.Firm) {address : SymbolPath} (declared : workspace.table.isDeclaredAt address = true)
    (plain : workspace.table.aliasAt address = none) (uri : String) :
    Query.sees workspace.table uri address = true := by
  obtain ⟨usage, member⟩ := List.exists_mem_of_ne_nil _ ((SymbolTable.isDeclaredAt_iff ..).mp declared)
  have exported : usage.visibility = .exported := by
    cases shown : usage.visibility with
    | exported => rfl
    | file => exact absurd plain (firm.hidden address usage member shown)
  rw [SymbolTable.sees_eq]
  exact List.any_eq_true.mpr ⟨usage, member, by simp [exported]⟩

theorem aliasAt_target (firm : workspace.Firm) {address target : SymbolPath}
    (linked : workspace.table.aliasAt address = some target) : workspace.table.IsAnchor target := by
  obtain ⟨symbol, found, link⟩ := Option.bind_eq_some_iff.mp linked
  apply firm.anchored address target
  refine SymbolTable.mem_targetsAt.mpr ⟨symbol, found, ?_⟩
  simp [Symbol.targets, referents, link]

theorem arrival {scope : Scope} (firm : scope.workspace.Firm) {goal : PathTarget} (declared : (scope.arrival goal).1 = true) :
    scope.workspace.table.isDeclaredAt (scope.arrival goal).2.1 = true ∧
      scope.workspace.table.aliasAt (scope.arrival goal).2.1 = none ∧ (scope.arrival goal).2.2 = true := by
  rw [Scope.arrival_eq firm.sorted fun target linked => (firm.aliasAt_target linked).plain] at declared ⊢
  split at declared
  · next seen =>
    rw [if_pos seen]
    have reached : scope.workspace.table.isDeclaredAt ((scope.workspace.table.aliasAt goal.address).getD goal.address) = true ∧
        scope.workspace.table.aliasAt ((scope.workspace.table.aliasAt goal.address).getD goal.address) = none := by
      cases linked : scope.workspace.table.aliasAt goal.address with
      | some target => exact ⟨(firm.aliasAt_target linked).declared, (firm.aliasAt_target linked).plain⟩
      | none =>
        rw [SymbolTable.sees_eq] at seen
        obtain ⟨usage, member, _⟩ := List.any_eq_true.mp seen
        obtain ⟨used, declaring⟩ := List.mem_filter.mp member
        exact ⟨SymbolTable.isDeclaredAt_of_mem used declaring, linked⟩
    exact ⟨reached.1, reached.2, firm.sees reached.1 reached.2 scope.uri⟩
  · cases declared

end Firm

end Workspace

namespace Pass

def Ends (scope : Scope) (_ : Node) (target : SymbolPath) : Prop :=
  scope.workspace.table.isDeclaredAt target = true ∧ scope.workspace.table.aliasAt target = none

def Anchors (scope : Scope) (target : SymbolPath) : Prop := scope.workspace.table.IsAnchor target

variable {pass : Pass} {scope : Scope} {creates : Bool} {address : SymbolPath} {record : SymbolRecord}

theorem Writes.targets {Resolved : Scope → Node → SymbolPath → Prop} {Known : Scope → SymbolPath → Prop}
    (writes : pass.Writes Resolved Known scope creates address record) : ∀ target ∈ record.targets, Known scope target := by
  cases writes with
  | use member found last text free resolved visibility known =>
    simpa [SymbolRecord.targets, referents] using known
  | field inside member found text free subcategory data known =>
    intro target among
    obtain ⟨type, given, among⟩ : ∃ type, data = some type ∧ target ∈ type.targets := by
      simpa [SymbolRecord.targets, referents] using among
    exact known type given target among
  | data names type known => simpa [SymbolRecord.targets, referents] using known
  | object registry name span target known => simpa [SymbolRecord.targets, referents] using known
  | _ => intro target among; cases among

theorem Writes.hidden {Resolved : Scope → Node → SymbolPath → Prop} {Known : Scope → SymbolPath → Prop}
    (writes : pass.Writes Resolved Known scope creates address record) {usage : Usage} (used : usage ∈ record.usage)
    (visibility : usage.visibility = .file) :
    creates = true ∧ address.path ≠ [] ∧ ∃ target, record.relations.aliasOf = some target := by
  cases writes with
  | use member found last text free resolved visibility known =>
    exact ⟨rfl, SymbolPath.schema_path_ne _, _, rfl⟩
  | data names type known => cases used
  | _ => cases used; cases visibility

theorem Writes.free_of_alias {Resolved : Scope → Node → SymbolPath → Prop} {Known : Scope → SymbolPath → Prop}
    (writes : pass.Writes Resolved Known scope creates address record) {target : SymbolPath}
    (linked : record.relations.aliasOf = some target) : Query.sees scope.workspace.table pass.uri address = false := by
  cases writes with
  | use member found last text free resolved visibility known => exact Query.sees_of_declared? free
  | _ => cases linked

end Pass

namespace Workspace

variable {setup : Setup}

namespace Firm

variable {pass : Pass} {scope : Scope} {creates : Bool} {address : SymbolPath} {record : SymbolRecord}

theorem grows_write {Resolved : Scope → Node → SymbolPath → Prop} {Known : Scope → SymbolPath → Prop}
    (firm : scope.workspace.Firm) (writes : pass.Writes Resolved Known scope creates address record) :
    scope.workspace.table.Grows (scope.write creates address record).workspace.table where
  usages other := by
    obtain ⟨added, appended, _⟩ := SymbolTable.usagesAt_write firm.sorted creates address record other
    exact appended ▸ List.subset_append_left _ _
  aliases other declared := by
    rcases SymbolTable.aliasAt_write firm.sorted creates address record other with same | ⟨rfl, link, given, linked⟩
    · exact iff_of_eq (congrArg (· = none) same)
    · have unseen := writes.free_of_alias given
      refine iff_of_false ?_ fun plain => ?_
      · exact fun none => by cases none.symm.trans linked
      · rw [firm.sees declared plain] at unseen
        cases unseen

theorem write {Resolved : Scope → Node → SymbolPath → Prop} (firm : scope.workspace.Firm)
    (known : (scope.workspace.record? pass.uri).isSome)
    (writes : pass.Writes Resolved Pass.Anchors scope creates address record) :
    (scope.write creates address record).workspace.Firm := by
  have grows := firm.grows_write writes
  have appended := SymbolTable.usagesAt_write firm.sorted creates address record
  constructor
  case sorted => exact SymbolTable.sorted_write firm.sorted creates address record
  case laid =>
    intro other usage member kind
    obtain ⟨added, same, given⟩ := appended other
    rcases List.mem_append.mp (same ▸ member) with earlier | new
    · exact firm.laid other usage earlier kind
    · exact absurd kind (writes.kind_ne usage (given usage new).2)
  case recorded =>
    intro other usage member checked
    obtain ⟨added, same, given⟩ := appended other
    rcases List.mem_append.mp (same ▸ member) with earlier | new
    · exact firm.recorded other usage earlier checked
    · rw [(writes.usage_place usage (given usage new).2).1]
      exact known
  case hidden =>
    intro other usage member file
    obtain ⟨used, declaring⟩ := List.mem_filter.mp member
    obtain ⟨added, same, given⟩ := appended other
    rcases List.mem_append.mp (same ▸ used) with earlier | new
    · have declared := SymbolTable.isDeclaredAt_of_mem earlier declaring
      intro plain
      exact firm.hidden other usage (List.mem_filter.mpr ⟨earlier, declaring⟩) file ((grows.aliases other declared).mp plain)
    · obtain ⟨rfl, written⟩ := given usage new
      obtain ⟨rfl, somewhere, target, linked⟩ := writes.hidden written file
      have link := SymbolTable.aliasAt_enter firm.sorted somewhere record other
      rw [if_pos rfl, linked] at link
      intro plain
      cases plain.symm.trans link
  case anchored =>
    intro other target member
    rcases SymbolTable.mem_targetsAt_write firm.sorted creates address record member with earlier | ⟨-, new⟩
    · exact (firm.anchored other target earlier).grow grows
    · exact (writes.targets target new).grow grows

/-- A document without a record has nothing in the table that could be taken back. -/
theorem takeUp {workspace : Workspace} (firm : workspace.Firm) {document : TextDocument}
    (unknown : workspace.record? document.uri = none) (errors : List Diagnostic) :
    (workspace.takeUp document errors).Firm ∧ workspace.table.Grows (workspace.takeUp document errors).table := by
  have cleared : (workspace.takeUp document errors).table = workspace.table.clearUri document.uri := rfl
  have usages : ∀ address, (workspace.takeUp document errors).table.usagesAt address = workspace.table.usagesAt address := by
    intro address
    rw [cleared, SymbolTable.usagesAt_clearUri firm.sorted, List.filter_eq_self]
    intro usage member
    cases checked : usage.isCheckedFrom document.uri with
    | false => rfl
    | true =>
      obtain ⟨contributor, place⟩ : usage.contributor = .checker ∧ usage.location.uri = document.uri := by
        simpa [Usage.isCheckedFrom] using checked
      have known := firm.recorded address usage member contributor
      rw [place, unknown] at known
      cases known
  have aliases : ∀ address, workspace.table.isDeclaredAt address = true →
      (workspace.takeUp document errors).table.aliasAt address = workspace.table.aliasAt address := by
    intro address declared
    have still : (workspace.table.clearUri document.uri).isDeclaredAt address = true := by
      rw [← cleared, SymbolTable.isDeclaredAt, usages address]
      exact declared
    rw [cleared, SymbolTable.aliasAt_clearUri firm.sorted, if_pos still]
  have grows : workspace.table.Grows (workspace.takeUp document errors).table :=
    ⟨fun address => (usages address).symm ▸ List.Subset.refl _,
      fun address declared => iff_of_eq (congrArg (· = none) (aliases address declared))⟩
  refine ⟨?_, grows⟩
  constructor
  case sorted => exact SymbolTable.sorted_clearUri firm.sorted document.uri
  case laid => exact fun address usage member => firm.laid address usage (usages address ▸ member)
  case recorded =>
    intro address usage member checked
    rw [record?_takeUp]
    split
    · rfl
    · exact firm.recorded address usage (usages address ▸ member) checked
  case hidden =>
    intro address usage member file
    rw [SymbolTable.declarationsAt, usages address] at member
    obtain ⟨used, declaring⟩ := List.mem_filter.mp member
    rw [aliases address (SymbolTable.isDeclaredAt_of_mem used declaring)]
    exact firm.hidden address usage member file
  case anchored =>
    intro address target member
    exact (firm.anchored address target (SymbolTable.mem_targetsAt_clearUri firm.sorted document.uri member)).grow grows

end Firm

/-- Every document on record is on the way or checked as it is. -/
def AllSettled (setup : Setup) (workspace : Workspace) : Prop :=
  ∀ uri, (workspace.record? uri).isSome → workspace.Settled setup uri

theorem AllSettled.advance {taken : List String} {before after : Workspace} (settled : before.AllSettled setup)
    (advances : Advances setup taken before after) : after.AllSettled setup := by
  intro uri known
  by_cases member : uri ∈ taken
  · exact advances.settled uri member
  · have same := advances.records uri member
    exact (settled uri (same ▸ known)).congr (advances.provides uri) same

theorem AllSettled.unknown {workspace : Workspace} {uri : String} {document : TextDocument}
    (settled : workspace.AllSettled setup) (needs : Needs setup workspace uri document) : workspace.record? uri = none := by
  cases known : workspace.record? uri with
  | none => rfl
  | some record => exact absurd (settled uri (by simp [known])) needs.not_settled

structure Firms (setup : Setup) (before after : Workspace) : Prop where
  loads : Loads setup before after
  firm : before.AllSettled setup → before.Firm → after.Firm ∧ before.table.Grows after.table

structure Steadily (setup : Setup) (before : Workspace) (document : TextDocument) (module : ModulePath) (scope : Scope) :
    Prop where
  place : scope.uri = document.uri ∧ scope.module = module
  underway : Underway setup before document scope.workspace
  firm : scope.workspace.Firm
  grows : before.table.Grows scope.workspace.table

namespace Steadily

variable {before : Workspace} {document : TextDocument} {module : ModulePath} {scope : Scope} {load : Loader}

theorem settled (steadily : Steadily setup before document module scope) (settled : before.AllSettled setup) :
    scope.workspace.AllSettled setup := by
  obtain ⟨taken, _, advances⟩ := steadily.underway.advances
  exact settled.advance advances

theorem known (steadily : Steadily setup before document module scope) :
    (scope.workspace.record? document.uri).isSome := by
  obtain ⟨state, _, record⟩ := steadily.underway.record
  simp [record]

theorem step (settled : before.AllSettled setup) (firms : ∀ workspace uri, Firms setup workspace (load workspace uri).2)
    {Resolved : Scope → Node → SymbolPath → Prop} {Known : Scope → SymbolPath → Prop} {after : Scope}
    (steadily : Steadily setup before document module scope)
    {pass : Pass} (step : pass.Step load Resolved Known scope after) :
    scope.workspace.table.Grows after.workspace.table := by
  cases step with
  | add reports => exact .refl _
  | load leads implemented apart => exact ((firms _ _).firm (steadily.settled settled) steadily.firm).2
  | write writes => exact steadily.firm.grows_write writes
  | checking => exact .refl _

/-- Whatever the tree that the passes run over. -/
theorem invariant (settled : before.AllSettled setup) (firms : ∀ workspace uri, Firms setup workspace (load workspace uri).2)
    (limits : Limits) (document : TextDocument) (module : ModulePath) (root : Node) :
    (Pass.mk limits document.uri module root).Invariant load Pass.Ends Pass.Anchors (Steadily setup before document module) := by
  constructor
  case place => exact fun steadily => steadily.place
  case arrives =>
    intro scope path goal steadily leads declared
    obtain ⟨declaration, plain, _⟩ := steadily.firm.arrival declared
    exact ⟨declaration, plain⟩
  case learn =>
    intro scope path goal target steadily leads ends
    exact SymbolTable.isAnchor_enter steadily.firm.sorted ends.1 ends.2 rfl
  case retain =>
    intro scope after target steadily step anchor
    exact anchor.grow (steadily.step settled firms step)
  case load =>
    intro scope path goal uri steadily leads implemented apart
    obtain ⟨firm, grows⟩ := (firms scope.workspace uri).firm (steadily.settled settled) steadily.firm
    exact ⟨steadily.place, steadily.underway.load (firms scope.workspace uri).loads, firm, steadily.grows.trans grows⟩
  case add => exact fun steadily _ => { steadily with }
  case write =>
    intro scope creates address record steadily writes
    exact ⟨steadily.place, steadily.underway.withTable _, steadily.firm.write steadily.known writes,
      steadily.grows.trans (steadily.firm.grows_write writes)⟩
  case steady =>
    intro scope path target creates address usage steadily ends kind
    have quiet : ({ usage := some usage } : SymbolRecord).IsQuiet := by simp [SymbolRecord.IsQuiet, kind]
    obtain ⟨declarations, link⟩ := Prod.mk.inj
      (SymbolTable.viewAt_write_quiet steadily.firm.sorted creates address quiet target)
    refine ⟨?_, link.trans ends.2⟩
    have declared := (SymbolTable.isDeclaredAt_iff ..).mp ends.1
    rw [← declarations] at declared
    exact (SymbolTable.isDeclaredAt_iff ..).mpr declared
  case checking =>
    intro scope steadily
    have underway := steadily.underway.checking
    rw [← steadily.place.1] at underway
    refine ⟨steadily.place, underway, steadily.firm.congr rfl fun uri known => ?_, steadily.grows⟩
    rw [Scope.checking, setState, record?_modifyRecord]
    split
    · simpa using known
    · exact known

end Steadily

theorem Firm.conclude {workspace : Workspace} (firm : workspace.Firm) (uri : String) (node : Node) (errors : List Diagnostic)
    (dependencies : List String) : (workspace.conclude uri node errors dependencies).leave.Firm := by
  refine firm.congr rfl fun other known => ?_
  change ((workspace.conclude uri node errors dependencies).record? other).isSome
  rw [record?_conclude]
  split
  · simpa using known
  · exact known

theorem Steadily.start {before : Workspace} {uri : String} {document : TextDocument} (settled : before.AllSettled setup)
    (firm : before.Firm) (needs : Needs setup before uri document) (module : ModulePath) (errors : List Diagnostic) :
    Steadily setup before document module
      { workspace := (fetch setup before uri).2.enter.takeUp document (parse document.text setup.trailing).errors,
        uri := document.uri, module, errors } := by
  have underway := Underway.start needs
  have unknown := settled.unknown needs
  obtain rfl := provided_uri needs.provides
  obtain ⟨documents, fetched⟩ := fetch_snd setup before document.uri
  rw [fetched] at underway ⊢
  have entered : ({ before with documents } : Workspace).enter.Firm := firm.congr rfl fun _ known => known
  obtain ⟨taken, grows⟩ := entered.takeUp unknown (parse document.text setup.trailing).errors
  exact ⟨⟨rfl, rfl⟩, underway, taken, grows⟩

theorem checkDocument_firms {load : Loader} {before : Workspace} {uri : String} {document : TextDocument}
    (firms : ∀ workspace uri, Firms setup workspace (load workspace uri).2) (needs : Needs setup before uri document) :
    Firms setup before (checkDocument load setup (fetch setup before uri).2.enter document).leave := by
  refine ⟨(checkDocument_loads (fun workspace uri => (firms workspace uri).loads) needs).1, fun settled firm => ?_⟩
  have start := Steadily.start settled firm needs
  exact checkDocument_ends (fun after => after.leave.Firm ∧ before.table.Grows after.leave.table)
    (fun module => Steadily setup before document module)
    (fun errors => ⟨(start .root errors).firm.conclude _ _ _ _, (start .root errors).grows⟩)
    (fun module errors _ => start module errors)
    (fun module => Steadily.invariant settled firms setup.limits document module _)
    (fun module scope steadily => ⟨steadily.firm.conclude _ _ _ _, steadily.grows⟩)

theorem Firms.fetch (workspace : Workspace) (uri : String) : Firms setup workspace (fetch setup workspace uri).2 := by
  refine ⟨Loads.fetch setup workspace uri, fun settled firm => ?_⟩
  obtain ⟨documents, fetched⟩ := fetch_snd setup workspace uri
  rw [fetched]
  exact ⟨firm.congr rfl fun _ known => known, .refl _⟩

/-- The run: every load from a firm workspace ends in one, and the table has only grown. -/
theorem loadWithin_firms (setup : Setup) (budget : Nat) (workspace : Workspace) (uri : String) :
    Firms setup workspace (loadWithin setup budget workspace uri).2 := by
  apply loadWithin_induction (Firms setup)
  · exact Firms.fetch
  · exact checkDocument_firms

/-- The workspaces that checks lead to from one with registered modules, while no document changes. -/
inductive Unedited (setup : Setup) : Workspace → Prop where
  | new (modules : List (ModulePath × String)) (documents : Documents) :
      Unedited setup { table := Layout.register {} modules, documents }
  | check {workspace} (earlier : Unedited setup workspace) (uri : String) :
      Unedited setup (ensureChecked setup workspace uri).2
  | checkAll {workspace} (earlier : Unedited setup workspace) : Unedited setup (workspace.checkAll setup).2

structure IsBare (table : SymbolTable) : Prop where
  sorted : Sorted table.symbols
  usages : ∀ address, ∀ usage ∈ table.usagesAt address, ∃ uri, usage = SymbolTable.implementation uri
  targets : ∀ address target, target ∉ table.targetsAt address

theorem isBare_register (modules : List (ModulePath × String)) : IsBare (Layout.register {} modules) := by
  apply Layout.register_induction (motive := IsBare)
  · exact ⟨.nil, fun address usage member => (by cases member), fun address target member => (by cases member)⟩
  · rintro table bare ⟨path, uri⟩ _
    constructor
    case sorted => exact SymbolTable.sorted_registerModule bare.sorted path uri
    case usages =>
      intro address usage member
      rcases SymbolTable.mem_usagesAt_registerModule bare.sorted member with earlier | ⟨_, rfl⟩
      · exact bare.usages address usage earlier
      · exact ⟨uri, rfl⟩
    case targets =>
      intro address target member
      exact bare.targets address target (SymbolTable.targetsAt_registerModule bare.sorted path uri member)

theorem IsBare.firm {table : SymbolTable} (bare : IsBare table) (documents : Documents) : Firm { table, documents } := by
  constructor
  case sorted => exact bare.sorted
  case laid =>
    intro address usage member _
    obtain ⟨uri, rfl⟩ := bare.usages address usage member
    rfl
  case recorded =>
    intro address usage member checked
    obtain ⟨uri, rfl⟩ := bare.usages address usage member
    cases checked
  case hidden =>
    intro address usage member file
    obtain ⟨uri, rfl⟩ := bare.usages address usage (List.mem_filter.mp member).1
    cases file
  case anchored => exact fun address target member => absurd member (bare.targets address target)

theorem Unedited.firm {workspace : Workspace} (unedited : Unedited setup workspace) :
    workspace.AllSettled setup ∧ workspace.Firm := by
  have load : ∀ {workspace : Workspace} (uri : String), workspace.AllSettled setup ∧ workspace.Firm →
      (ensureChecked setup workspace uri).2.AllSettled setup ∧ (ensureChecked setup workspace uri).2.Firm := by
    rintro workspace uri ⟨settled, firm⟩
    have firms := loadWithin_firms setup (setup.limits.maxLoadDepth - workspace.loadDepth) workspace uri
    obtain ⟨taken, advances⟩ := firms.loads.advances
    exact ⟨settled.advance advances, (firms.firm settled firm).1⟩
  induction unedited with
  | new modules documents => exact ⟨fun uri known => by simp [record?] at known, (isBare_register modules).firm documents⟩
  | check _ uri ih => exact load uri ih
  | checkAll _ ih =>
    exact @checkUris_keeps setup (fun workspace => workspace.AllSettled setup ∧ workspace.Firm)
      (fun workspace uri => load uri) _ _ ih

/-- Whatever a symbol refers to, as an alias, as a description or in its type, is a symbol that is
declared, that is no alias itself, and that holds a reference. -/
theorem references_settled {workspace : Workspace} (unedited : Unedited setup workspace) :
    ∀ symbol ∈ workspace.table.symbols, ∀ target ∈ symbol.targets, ∃ found,
      workspace.table.lookup? target = some found ∧ found.isDeclared = true ∧ found.relations.aliasOf = none ∧
        ∃ usage ∈ found.usages, usage.kind = .reference := by
  intro symbol member target among
  have firm := unedited.firm.2
  have anchor := firm.anchored symbol.address target
    (SymbolTable.mem_targetsAt.mpr ⟨symbol, SymbolTable.lookup?_of_mem firm.sorted member, among⟩)
  obtain ⟨declared, plain, referred⟩ := anchor
  cases found : workspace.table.lookup? target with
  | none => simp [SymbolTable.usagesAt, found] at referred
  | some symbol =>
    rw [SymbolTable.isDeclaredAt, SymbolTable.usagesAt, found] at declared
    rw [SymbolTable.aliasAt, found] at plain
    rw [SymbolTable.usagesAt, found] at referred
    exact ⟨symbol, rfl, declared, plain, referred⟩

/-- Two documents in a circle: what `::a` exports again, lists and describes by is `::b::B`, and `::b` is
left with a type that it could not resolve. -/
theorem references_settled_circle :
    let workspace := ((pairWorkspace "export use ::b::B; struct A { next: [::b::B] } ::b::B describes item;"
      "use ::a::A; struct B { top: A? }").checkAll {}).2
    Unedited {} workspace ∧
      workspace.table.symbols.map (fun symbol => (symbol.address.path, symbol.targets)) =
        [(["::a"], []), (["::a::A"], [.schema "::b::B"]), (["::a::A", "next"], [.schema "::b::B"]),
          (["::a::B"], [.schema "::b::B"]), (["::b"], []), (["::b::B"], []), (["::b::B", "top"], []),
          (["@default"], [.schema "::b::B"])] ∧
      ∀ symbol ∈ workspace.table.symbols, ∀ target ∈ symbol.targets, ∃ found,
        workspace.table.lookup? target = some found ∧ found.isDeclared = true ∧ found.relations.aliasOf = none ∧
          ∃ usage ∈ found.usages, usage.kind = .reference := by
  intro workspace
  have unedited : Unedited {} workspace := .checkAll (.new _ _)
  exact ⟨unedited, by decide +kernel, references_settled unedited⟩

end Workspace

end SchemaDoc
