import SchemaDoc.Proofs.PassStages
import SchemaDoc.Proofs.SettledReferences
import SchemaDoc.Proofs.UsagePlaces

/-! Who declares a key first, while documents change at will. A document that declares a key sees the
declarations of its own and those that are exported, and drops its own for a warning. What it cannot see
is an alias that another document of the same module keeps to itself: only behind such aliases a key is
declared again. -/

namespace SchemaDoc

namespace SymbolTable

def Owns (table : SymbolTable) (uri key : String) : Prop :=
  ∃ module name, table.moduleOfUri? uri = some module ∧ IsPlain name ∧ key = module.join name

/-- Another document that implements the same module keeps the declaration to itself. -/
structure Hides (table : SymbolTable) (usage : Usage) (uri : String) : Prop where
  file : usage.visibility = .file
  elsewhere : usage.location.uri ≠ uri
  together : ∃ module, table.moduleOfUri? usage.location.uri = some module ∧ table.moduleOfUri? uri = some module

/-- Keys are declared in their module, and again only where the earlier declarations are hidden. -/
structure Tidy (table : SymbolTable) : Prop where
  implementations : ∀ address, ∀ usage ∈ table.usagesAt address, usage.kind = .implementation →
    ∃ uri, usage = implementation uri
  owned : ∀ key, ∀ usage ∈ table.declarationsAt (.schema key), usage.kind ≠ .implementation →
    table.Owns usage.location.uri key
  hidden : ∀ key, (∀ usage ∈ table.usagesAt (.schema key), usage.kind ≠ .implementation) →
    (table.declarationsAt (.schema key)).Pairwise fun first second =>
      first.visibility = .file ∧ first.location.uri ≠ second.location.uri

theorem Owns.congr {table after : SymbolTable} {uri key : String} (owns : table.Owns uri key)
    (entries : after.entries = table.entries) : after.Owns uri key := by
  obtain ⟨module, name, home, plain, rfl⟩ := owns
  refine ⟨module, name, ?_, plain, rfl⟩
  rw [moduleOfUri?_eq, entries, ← moduleOfUri?_eq]
  exact home

namespace Tidy

variable {table : SymbolTable}

theorem laid (tidy : table.Tidy) (address : SymbolPath) :
    ∀ usage ∈ table.usagesAt address, usage.kind = .implementation → usage.contributor = .layout := by
  intro usage member kind
  obtain ⟨uri, rfl⟩ := tidy.implementations address usage member kind
  rfl

theorem entries_clearUri (tidy : table.Tidy) (sorted : Sorted table.symbols) (uri : String) :
    (table.clearUri uri).entries = table.entries := SymbolTable.entries_clearUri sorted tidy.laid uri

theorem clearUri (tidy : table.Tidy) (sorted : Sorted table.symbols) (uri : String) : (table.clearUri uri).Tidy := by
  have usages := usagesAt_clearUri sorted uri
  have declarations : ∀ address, ((table.clearUri uri).declarationsAt address).Sublist (table.declarationsAt address) := by
    intro address
    rw [declarationsAt, usages]
    exact List.filter_sublist.filter _
  constructor
  case implementations =>
    intro address usage member
    rw [usages] at member
    exact tidy.implementations address usage (List.mem_of_mem_filter member)
  case owned =>
    intro key usage member kind
    exact (tidy.owned key usage ((declarations _).subset member) kind).congr (tidy.entries_clearUri sorted uri)
  case hidden =>
    intro key nobody
    refine (tidy.hidden key fun usage member kind => ?_).sublist (declarations _)
    refine nobody usage ?_ kind
    rw [usages, List.mem_filter]
    exact ⟨member, by simp [Usage.isCheckedFrom, tidy.laid _ usage member kind]⟩

theorem hides (tidy : table.Tidy) (plain : ∀ {uri module}, table.moduleOfUri? uri = some module → module.Plain)
    {uri key : String} (owns : table.Owns uri key) (unseen : Query.sees table uri (.schema key) = false) :
    ∀ usage ∈ table.declarationsAt (.schema key), usage.kind ≠ .implementation ∧ table.Hides usage uri := by
  intro usage member
  rw [sees_eq] at unseen
  have dark := List.any_eq_false.mp unseen usage member
  have kind : usage.kind ≠ .implementation := by
    intro kind
    obtain ⟨other, rfl⟩ := tidy.implementations _ usage (List.mem_of_mem_filter member) kind
    simp [implementation] at dark
  have file : usage.visibility = .file := by
    cases visible : usage.visibility with
    | file => rfl
    | exported => simp [visible] at dark
  obtain ⟨module, name, home, named, rfl⟩ := owns
  obtain ⟨other, called, away, alsoNamed, same⟩ := tidy.owned _ usage member kind
  obtain ⟨rfl, _⟩ := ModulePath.join_injective (plain home) (plain away) named alsoNamed same
  exact ⟨kind, file, fun here => by simp [here] at dark, module, away, home⟩

end Tidy

end SymbolTable

namespace Pass

variable {pass : Pass} {scope : Scope} {creates : Bool} {address : SymbolPath} {record : SymbolRecord}
  {Known : Scope → SymbolPath → Prop}

structure DeclaresKey (pass : Pass) (scope : Scope) (creates : Bool) (key : String) (record : SymbolRecord) : Prop where
  named : ∃ node name, pass.Names node name ∧ key = pass.module.join name
  usage : ∃ usage, record.usage = some usage ∧ usage.kind.isDeclaring = true
  free : creates = true ∧ Query.sees scope.workspace.table pass.uri (.schema key) = false ∨
    record.subcategory = none ∧ ∃ usage ∈ scope.workspace.table.usagesAt (.schema key), usage.kind = .implementation

/-- What a pass writes is quiet, or at no key, or declares one. -/
theorem Writes.quiet_or_declares (writes : pass.Writes Pass.Keeps Known scope creates address record) :
    record.IsQuiet ∧ record.subcategory = none ∨
      address.path.length ≠ 1 ∨ (address.category ≠ .schema ∧ record.subcategory = none) ∨
      ∃ key, address = .schema key ∧ pass.DeclaresKey scope creates key record := by
  cases writes with
  | type member found text free sort =>
    refine .inr (.inr (.inr ⟨_, rfl, ⟨_, _, .declared member found text, rfl⟩, ⟨_, rfl, rfl⟩, .inl ⟨rfl, ?_⟩⟩))
    exact Query.sees_of_declared? free
  | module member found text known =>
    refine .inr (.inr (.inr ⟨_, rfl, ⟨_, _, .declared member found text, rfl⟩, ⟨_, rfl, rfl⟩, .inr ⟨rfl, ?_⟩⟩))
    obtain ⟨uri, implemented⟩ := Option.isSome_iff_exists.mp known
    obtain ⟨symbol, here, chosen⟩ := Option.bind_eq_some_iff.mp implemented
    have listed := List.mem_of_head? (Option.ite_none_right_eq_some.mp chosen).2
    obtain ⟨usage, member, _⟩ := List.mem_map.mp listed
    obtain ⟨used, kind⟩ := List.mem_filter.mp member
    refine ⟨usage, ?_, by simpa using kind⟩
    rw [SymbolTable.usagesAt, here]
    exact used
  | use member found last text free resolved visibility known =>
    refine .inr (.inr (.inr ⟨_, rfl, ⟨_, _, .used member found last text, rfl⟩, ⟨_, rfl, rfl⟩, .inl ⟨rfl, ?_⟩⟩))
    exact Query.sees_of_declared? free
  | mention leads member => exact .inl ⟨by simp [SymbolRecord.IsQuiet], rfl⟩
  | reference leads resolved => exact .inl ⟨by simp [SymbolRecord.IsQuiet], rfl⟩
  | @field container key pair name inside member found text free subcategory data known =>
    refine .inr (.inl ?_)
    have below : container.path.length = 1 := by
      cases inside with
      | own names => rfl
      | injected member kind resolved =>
        obtain ⟨_, key, _, rfl, _⟩ := resolved
        rfl
    simp [SymbolPath.member, below]
  | data names type known => exact .inl ⟨by simp [SymbolRecord.IsQuiet], rfl⟩
  | object registry name span target known => exact .inr (.inr (.inl ⟨by simp, rfl⟩))

theorem Writes.entries (writes : pass.Writes Pass.Keeps Known scope creates address record)
    (sorted : Sorted scope.workspace.table.symbols) (tidy : scope.workspace.table.Tidy) :
    (scope.write creates address record).workspace.table.entries = scope.workspace.table.entries := by
  apply SymbolTable.entries_write sorted creates writes.kind_ne
  rcases writes.quiet_or_declares with ⟨_, none⟩ | member | ⟨_, none⟩ | ⟨key, rfl, declares⟩
  · exact .inl none
  · exact .inr (.inl member)
  · exact .inl none
  · rcases declares.free with ⟨_, unseen⟩ | ⟨none, _⟩
    · refine .inr (.inr fun usage used kind => ?_)
      obtain ⟨uri, rfl⟩ := tidy.implementations _ usage used kind
      rw [SymbolTable.sees_eq] at unseen
      exact absurd (List.any_eq_false.mp unseen _ (List.mem_filter.mpr ⟨used, rfl⟩)) (by simp [SymbolTable.implementation])
    · exact .inl none

theorem DeclaresKey.owns {key : String} (declares : pass.DeclaresKey scope creates key record) {text : String}
    (legible : pass.root.AllLegible text) {table : SymbolTable} (home : table.moduleOfUri? pass.uri = some pass.module) :
    table.Owns pass.uri key := by
  obtain ⟨node, name, names, rfl⟩ := declares.named
  exact ⟨pass.module, name, home, (names.isWrittenAt legible).word.isPlain, rfl⟩

/-- Behind a write the declarations of a key are those before it, or there is one more behind them. -/
theorem Writes.declarationsAt (writes : pass.Writes Pass.Keeps Known scope creates address record)
    (sorted : Sorted scope.workspace.table.symbols) (key : String) :
    (scope.write creates address record).workspace.table.declarationsAt (.schema key) =
        scope.workspace.table.declarationsAt (.schema key) ∨
      pass.DeclaresKey scope creates key record ∧ ∃ usage, record.usage = some usage ∧
        (scope.write creates address record).workspace.table.declarationsAt (.schema key) =
          scope.workspace.table.declarationsAt (.schema key) ++ [usage] := by
  by_cases here : SymbolPath.schema key = address
  · subst here
    rcases writes.quiet_or_declares with ⟨quiet, _⟩ | member | ⟨object, _⟩ | ⟨other, same, declares⟩
    · exact .inl (congrArg Prod.fst (SymbolTable.viewAt_write_quiet sorted creates _ quiet _))
    · exact absurd rfl member
    · exact absurd rfl object
    · cases same
      have present : creates = true ∨ (scope.workspace.table.lookup? (.schema key)).isSome := by
        rcases declares.free with ⟨creates, _⟩ | ⟨_, usage, used, _⟩
        · exact .inl creates
        · refine .inr ?_
          rw [SymbolTable.usagesAt] at used
          cases found : scope.workspace.table.lookup? (.schema key) with
          | none => simp [found] at used
          | some symbol => rfl
      obtain ⟨usage, given, declaring⟩ := declares.usage
      have view := SymbolTable.viewAt_write_here sorted creates (SymbolPath.schema_path_ne key) present record
      refine .inr ⟨declares, usage, given, (congrArg Prod.fst view).trans ?_⟩
      simp [given, declaring]
  · exact .inl (congrArg Prod.fst (SymbolTable.viewAt_write_apart sorted creates address record here))

end Pass

namespace SymbolTable.Tidy

variable {pass : Pass} {scope : Scope} {creates : Bool} {address : SymbolPath} {record : SymbolRecord}
  {Known : Scope → SymbolPath → Prop}

/-- A declaration goes behind those that are hidden from its document. -/
theorem write (tidy : scope.workspace.table.Tidy) (exact : scope.workspace.Exact) {text : String}
    (legible : pass.root.AllLegible text) (home : scope.workspace.table.moduleOfUri? pass.uri = some pass.module)
    (writes : pass.Writes Pass.Keeps Known scope creates address record) :
    (scope.write creates address record).workspace.table.Tidy := by
  have entries := writes.entries exact.sorted tidy
  have declarations := writes.declarationsAt exact.sorted
  have appended := usagesAt_write exact.sorted creates address record
  have earlier : ∀ other, scope.workspace.table.usagesAt other ⊆
      (scope.write creates address record).workspace.table.usagesAt other := by
    intro other
    obtain ⟨added, same, _⟩ := appended other
    exact fun usage member => same ▸ List.mem_append_left _ member
  constructor
  case implementations =>
    intro other usage member kind
    obtain ⟨added, same, given⟩ := appended other
    rcases List.mem_append.mp (same ▸ member) with old | new
    · exact tidy.implementations other usage old kind
    · exact absurd kind (writes.kind_ne usage (given usage new).2)
  case owned =>
    intro key usage member kind
    rcases declarations key with same | ⟨declares, new, given, same⟩
    · exact (tidy.owned key usage (same ▸ member) kind).congr entries
    · rcases List.mem_append.mp (same ▸ member) with old | here
      · exact (tidy.owned key usage old kind).congr entries
      · obtain rfl := List.mem_singleton.mp here
        rw [(writes.usage_place usage given).1]
        exact (declares.owns legible home).congr entries
  case hidden =>
    intro key nobody
    have before := tidy.hidden key fun usage member => nobody usage (earlier _ member)
    rcases declarations key with same | ⟨declares, new, given, same⟩
    · rwa [same]
    · rcases declares.free with ⟨_, unseen⟩ | ⟨_, usage, used, kind⟩
      · have hides := tidy.hides exact.plain_of_moduleOfUri? (declares.owns legible home) unseen
        rw [same, List.pairwise_append]
        refine ⟨before, List.pairwise_singleton .., fun first member second new => ?_⟩
        obtain rfl := List.mem_singleton.mp new
        rw [(writes.usage_place second given).1]
        exact ⟨(hides first member).2.file, (hides first member).2.elsewhere⟩
      · exact absurd kind (nobody usage (earlier _ used))

end SymbolTable.Tidy

/-- The warning about a second declaration of a name. -/
def repeated (name : String) (span : Span) (first : Usage) : Diagnostic :=
  ((Diagnostic.ofMessage .duplicatedIdentifier [Message.quote name] span).withSeverity .warning).withRelated
    first.location (Message.render .duplicatedIdentifierRelated [Message.quote name])

/-- Declaring a key changes nothing but for one warning that points to the first declaration, unless all
declarations are hidden from the document. -/
structure Scope.KeepsFirst (scope : Scope) (root : Node) : Prop where
  type : ∀ declaration ∈ root.children, ∀ identifier name first subcategory,
    declaration.child? .identifier = some identifier → identifier.textValue? = some name →
    (scope.workspace.table.declarationsAt (.schema (scope.module.join name))).head? = some first →
    Hoisting.enterType scope declaration subcategory = scope.add (repeated name identifier.span first) ∨
      ∀ usage ∈ scope.workspace.table.declarationsAt (.schema (scope.module.join name)),
        scope.workspace.table.Hides usage scope.uri
  clause : ∀ clause ∈ root.children, ∀ path last name first target,
    clause.child? .path = some path → path.children.getLast? = some last → last.textValue? = some name →
    (scope.workspace.table.declarationsAt (.schema (scope.module.join name))).head? = some first →
    scope.declareAlias clause target = scope.add (repeated name last.span first) ∨
      ∀ usage ∈ scope.workspace.table.declarationsAt (.schema (scope.module.join name)),
        scope.workspace.table.Hides usage scope.uri

theorem Scope.declare_of_seen {scope : Scope} {address : SymbolPath}
    (seen : Query.sees scope.workspace.table scope.uri address = true) {first : Usage}
    (head : (scope.workspace.table.declarationsAt address).head? = some first) (name : String) (span : Span)
    (record : SymbolRecord) : scope.declare address name span record = scope.add (repeated name span first) := by
  cases found : scope.workspace.table.lookup? address with
  | none => simp [Query.sees, found] at seen
  | some symbol =>
    have existing : (scope.query address).declared? = some symbol := by
      simp [query, Query.start, Query.declared?, Query.symbol?, seen, found]
    rw [SymbolTable.declarationsAt_of_found found] at head
    simp only [declare, existing, duplicated, Symbol.firstDeclaration?, head]
    rfl

theorem SymbolTable.Tidy.keepsFirst {scope : Scope} (pass : Pass) (tidy : scope.workspace.table.Tidy)
    (exact : scope.workspace.Exact) {text : String} (legible : pass.root.AllLegible text)
    (place : scope.uri = pass.uri ∧ scope.module = pass.module)
    (home : scope.workspace.table.moduleOfUri? pass.uri = some pass.module) : scope.KeepsFirst pass.root := by
  have taken : ∀ {node : Node} {name : String} {first : Usage}, pass.Names node name →
      (scope.workspace.table.declarationsAt (.schema (scope.module.join name))).head? = some first →
      (∀ record, scope.declare (.schema (scope.module.join name)) name node.span record =
        scope.add (repeated name node.span first)) ∨
      ∀ usage ∈ scope.workspace.table.declarationsAt (.schema (scope.module.join name)),
        scope.workspace.table.Hides usage scope.uri := by
    intro node name first names head
    cases seen : Query.sees scope.workspace.table scope.uri (.schema (scope.module.join name)) with
    | true => exact .inl fun record => Scope.declare_of_seen seen head name node.span record
    | false =>
      rw [place.1, place.2] at seen ⊢
      have owns : scope.workspace.table.Owns pass.uri (pass.module.join name) :=
        ⟨_, name, home, (names.isWrittenAt legible).word.isPlain, rfl⟩
      exact .inr fun usage member => (tidy.hides exact.plain_of_moduleOfUri? owns seen usage member).2
  constructor
  case type =>
    intro declaration member identifier name first subcategory found text head
    refine (taken (.declared member found text) head).imp_left fun drops => ?_
    simp only [Hoisting.enterType, found, text]
    exact drops _
  case clause =>
    intro clause member path last name first target found ends text head
    refine (taken (.used member found ends text) head).imp_left fun drops => ?_
    simp only [Scope.declareAlias, found, Option.bind_some, ends, text]
    exact drops _

namespace Workspace

variable {setup : Setup}

structure Tidies (setup : Setup) (before after : Workspace) : Prop where
  loads : Loads setup before after
  exact : before.Exact → after.Exact
  tidy : before.Exact → before.table.Tidy → after.table.Tidy ∧ after.table.entries = before.table.entries

structure Tidied (before : Workspace) (document : TextDocument) (module : ModulePath) (scope : Scope) : Prop where
  tidy : scope.workspace.table.Tidy
  entries : scope.workspace.table.entries = before.table.entries
  home : before.table.moduleOfUri? document.uri = some module

def Tidily (setup : Setup) (before : Workspace) (document : TextDocument) (module : ModulePath) (scope : Scope) : Prop :=
  (module.Plain ∧ (scope.uri = document.uri ∧ scope.module = module) ∧
    Underway setup before document scope.workspace ∧ scope.workspace.Exact) ∧ Tidied before document module scope

variable {before : Workspace} {document : TextDocument} {module : ModulePath} {scope : Scope} {load : Loader}

theorem Tidied.registered (tidied : Tidied before document module scope) :
    scope.workspace.table.moduleOfUri? document.uri = some module := by
  rw [SymbolTable.moduleOfUri?_eq, tidied.entries, ← SymbolTable.moduleOfUri?_eq]
  exact tidied.home

theorem Tidily.invariant (tidies : ∀ workspace uri, Tidies setup workspace (load workspace uri).2) (before : Workspace)
    (document : TextDocument) (module : ModulePath) :
    (passOf setup document module).Invariant load Pass.Keeps (fun _ _ => True) (Tidily setup before document module) := by
  have exactly := @Exact.invariant setup load before document (fun workspace uri => (tidies workspace uri).loads)
    (fun workspace uri => (tidies workspace uri).exact) module
  apply exactly.along
  rintro scope after ⟨plain, place, underway, exact⟩ step tidied
  cases step with
  | add reports => exact ⟨tidied.tidy, tidied.entries, tidied.home⟩
  | @load path goal uri leads implemented apart =>
    obtain ⟨tidy, entries⟩ := (tidies scope.workspace uri).tidy exact tidied.tidy
    exact ⟨tidy, entries.trans tidied.entries, tidied.home⟩
  | write writes =>
    exact ⟨tidied.tidy.write exact (parse_legible document.text setup.trailing) tidied.registered writes,
      (writes.entries exact.sorted tidied.tidy).trans tidied.entries, tidied.home⟩
  | checking => exact ⟨tidied.tidy, tidied.entries, tidied.home⟩

theorem takeUp_tidy (exact : before.Exact) (tidy : before.table.Tidy) (uri : String) (document : TextDocument)
    (errors : List Diagnostic) :
    let taken := (fetch setup before uri).2.enter.takeUp document errors
    taken.Exact ∧ taken.table.Tidy ∧ taken.table.entries = before.table.entries := by
  have entered : (fetch setup before uri).2.enter.Exact := (exact.fetched setup uri).congr rfl fun _ => rfl
  dsimp only
  rw [table_takenUp]
  exact ⟨entered.takeUp document errors, tidy.clearUri exact.sorted document.uri,
    tidy.entries_clearUri exact.sorted document.uri⟩

theorem moduleOfUri?_takeUp (exact : before.Exact) (tidy : before.table.Tidy) (uri : String) (document : TextDocument) :
    ((fetch setup before uri).2.enter.table.clearUri document.uri).moduleOfUri? document.uri =
      before.table.moduleOfUri? document.uri := by
  obtain ⟨_, _, entries⟩ := @takeUp_tidy setup before exact tidy uri document []
  rw [SymbolTable.moduleOfUri?_eq, SymbolTable.moduleOfUri?_eq, ← entries]
  rfl

theorem Tidily.start {uri : String} (exact : before.Exact) (tidy : before.table.Tidy)
    (needs : Needs setup before uri document) (module : ModulePath) (errors : List Diagnostic)
    (registered : ((fetch setup before uri).2.enter.table.clearUri document.uri).moduleOfUri? document.uri = some module) :
    Tidily setup before document module
      { workspace := (fetch setup before uri).2.enter.takeUp document (parse document.text setup.trailing).errors,
        uri := document.uri, module, errors } := by
  rw [moduleOfUri?_takeUp exact tidy] at registered
  obtain ⟨taken, tidied, entries⟩ := takeUp_tidy exact tidy uri document (parse document.text setup.trailing).errors
  have underway := Underway.start needs
  obtain rfl := provided_uri needs.provides
  exact ⟨⟨exact.plain_of_moduleOfUri? registered, ⟨rfl, rfl⟩, underway, taken⟩, tidied, entries, registered⟩

theorem checkDocument_tidies {uri : String} (tidies : ∀ workspace uri, Tidies setup workspace (load workspace uri).2)
    (needs : Needs setup before uri document) :
    Tidies setup before (checkDocument load setup (fetch setup before uri).2.enter document).leave := by
  have exacts := fun workspace uri => And.intro (tidies workspace uri).loads (tidies workspace uri).exact
  refine ⟨(checkDocument_loads (fun workspace uri => (tidies workspace uri).loads) needs).1,
    checkDocument_exact exacts needs, fun exact tidy => ?_⟩
  obtain ⟨_, tidied, entries⟩ := takeUp_tidy exact tidy uri document (parse document.text setup.trailing).errors
  exact checkDocument_ends (fun after => after.leave.table.Tidy ∧ after.leave.table.entries = before.table.entries)
    (Tidily setup before document) (fun errors => ⟨tidied, entries⟩) (Tidily.start exact tidy needs)
    (Tidily.invariant tidies before document) (fun module scope tidily => ⟨tidily.2.tidy, tidily.2.entries⟩)

theorem Tidies.fetch (workspace : Workspace) (uri : String) : Tidies setup workspace (fetch setup workspace uri).2 := by
  obtain ⟨documents, fetched⟩ := fetch_snd setup workspace uri
  refine ⟨Loads.fetch setup workspace uri, fun exact => exact.fetched setup uri, ?_⟩
  rw [fetched]
  exact fun _ tidy => ⟨tidy, rfl⟩

theorem loadWithin_tidies (setup : Setup) (budget : Nat) (workspace : Workspace) (uri : String) :
    Tidies setup workspace (loadWithin setup budget workspace uri).2 := by
  apply loadWithin_induction (Tidies setup)
  · exact Tidies.fetch
  · exact checkDocument_tidies

theorem ensureChecked_tidies (setup : Setup) (workspace : Workspace) (uri : String) :
    Tidies setup workspace (ensureChecked setup workspace uri).2 := loadWithin_tidies setup _ workspace uri

/-- The workspaces that checks and edits lead to, in any order, behind one layout. -/
inductive Session (base : Setup) (layout : Layout) (scanned : FileTree) : Workspace → Prop where
  | new (documents : Documents) : Session base layout scanned { (registerLayout {} layout scanned).2 with documents }
  | edit {workspace} (earlier : Session base layout scanned workspace) (documents : Documents) :
      Session base layout scanned { workspace with documents }
  | check {workspace} (earlier : Session base layout scanned workspace) (files : FileTree) (uri : String) :
      Session base layout scanned (ensureChecked (base.over files) workspace uri).2
  | checkAll {workspace} (earlier : Session base layout scanned workspace) (files : FileTree) :
      Session base layout scanned (workspace.checkAll (base.over files)).2
  | invalidate {workspace} (earlier : Session base layout scanned workspace) (uri : String) :
      Session base layout scanned (workspace.invalidate uri).2

theorem Session.reachable {base : Setup} {layout : Layout} {scanned : FileTree} {workspace : Workspace}
    (session : Session base layout scanned workspace) : Reachable base workspace := by
  induction session with
  | new documents => exact (Reachable.new.layout layout scanned).edit documents
  | edit _ documents ih => exact ih.edit documents
  | check _ files uri ih => exact ih.check files uri
  | checkAll _ files ih => exact ih.checkAll files
  | invalidate _ uri ih => exact ih.invalidate uri

theorem IsBare.tidy {table : SymbolTable} (bare : IsBare table) : table.Tidy := by
  have kind : ∀ {address usage}, usage ∈ table.usagesAt address → usage.kind = .implementation := by
    intro address usage member
    obtain ⟨uri, rfl⟩ := bare.usages address usage member
    rfl
  constructor
  case implementations => exact fun address usage member _ => bare.usages address usage member
  case owned => exact fun key usage member other => absurd (kind (List.mem_of_mem_filter member)) other
  case hidden =>
    intro key nobody
    have none : table.usagesAt (.schema key) = [] :=
      List.eq_nil_iff_forall_not_mem.mpr fun usage member => nobody usage member (kind member)
    rw [SymbolTable.declarationsAt, none]
    exact .nil

theorem Session.tidy {base : Setup} {layout : Layout} {scanned : FileTree} {workspace : Workspace}
    (session : Session base layout scanned workspace) : workspace.table.Tidy := by
  induction session with
  | new documents => exact (isBare_register _).tidy
  | edit _ documents ih => exact ih
  | check earlier files uri ih => exact ((ensureChecked_tidies _ _ uri).tidy earlier.reachable.exact ih).1
  | checkAll earlier files ih =>
    have kept := @checkUris_keeps (base.over files) (fun workspace => workspace.Exact ∧ workspace.table.Tidy)
      (fun workspace uri good => ⟨(ensureChecked_tidies _ workspace uri).exact good.1,
        ((ensureChecked_tidies _ workspace uri).tidy good.1 good.2).1⟩)
    exact (kept _ ⟨earlier.reachable.exact, ih⟩).2
  | invalidate _ uri ih => exact ih

theorem Call.Within.tidy {workspace : Workspace} {uri : String} {call : Call} (within : Call.Within setup workspace uri call)
    (exact : workspace.Exact) (tidy : workspace.table.Tidy) : call.workspace.Exact ∧ call.workspace.table.Tidy := by
  refine @Call.Within.carries setup workspace uri call (fun workspace => workspace.Exact ∧ workspace.table.Tidy) within
    ⟨exact, tidy⟩ ?_
  rintro before current uri asked document ⟨exact, tidy⟩ needs consults
  obtain ⟨module, scope, tidily, rfl⟩ := holds_of_consults (Tidily.start exact tidy needs)
    (Tidily.invariant (ensureChecked_tidies setup) before document) consults
  exact ⟨tidily.1.2.2.2, tidily.2.tidy⟩

end Workspace

namespace SymbolTable

variable {table : SymbolTable}

/-- The declarations of a key that is no module, each hidden from the documents of those behind it. -/
theorem Tidy.declarations (tidy : table.Tidy) (sorted : Sorted table.symbols)
    (plain : ∀ {uri module}, table.moduleOfUri? uri = some module → module.Plain) {symbol : Symbol}
    (member : symbol ∈ table.symbols) (isKey : isSchemaKey symbol = true) (nobody : implementers symbol = []) :
    symbol.declarations.Pairwise fun first second => table.Hides first second.location.uri := by
  obtain ⟨key, address⟩ : ∃ key, symbol.address = .schema key := by
    simp only [isSchemaKey, Bool.and_eq_true, beq_iff_eq, List.length_eq_one_iff] at isKey
    obtain ⟨category, key, path⟩ := isKey
    exact ⟨key, by rw [SymbolPath.schema, ← category, ← path]⟩
  have found : table.lookup? (.schema key) = some symbol := address ▸ lookup?_of_mem sorted member
  have kinds : ∀ usage ∈ symbol.usages, usage.kind ≠ .implementation := by
    simpa [implementers, List.filter_eq_nil_iff] using nobody
  have usages : table.usagesAt (.schema key) = symbol.usages := by rw [usagesAt, found]; rfl
  have pairwise := tidy.hidden key (usages ▸ kinds)
  rw [declarationsAt_of_found found] at pairwise
  refine pairwise.imp_of_mem fun {first second} here there apart => ?_
  have owns : ∀ usage ∈ symbol.declarations, table.Owns usage.location.uri key := by
    intro usage among
    exact tidy.owned key usage (declarationsAt_of_found found ▸ among) (kinds usage (List.mem_of_mem_filter among))
  obtain ⟨module, name, home, named, rfl⟩ := owns first here
  obtain ⟨other, called, away, alsoNamed, same⟩ := owns second there
  obtain ⟨rfl, _⟩ := ModulePath.join_injective (plain home) (plain away) named alsoNamed same
  exact ⟨apart.1, apart.2, module, home, away⟩

theorem length_le_one_of_hides {usages : List Usage}
    (alone : ∀ first second module, table.moduleOfUri? first = some module → table.moduleOfUri? second = some module →
      first = second)
    (hides : usages.Pairwise fun first second => table.Hides first second.location.uri) : usages.length ≤ 1 := by
  match usages, hides with
  | [], _ => exact Nat.zero_le 1
  | [_], _ => exact Nat.le_refl 1
  | first :: second :: _, hides =>
    have here := List.rel_of_pairwise_cons hides List.mem_cons_self
    obtain ⟨module, home, also⟩ := here.together
    exact absurd (alone _ _ module home also) here.elsewhere

end SymbolTable

namespace Workspace

/-- In every run behind one layout a key that is no module is declared again only behind aliases that
other documents of its module keep to themselves, so once if no module has two documents; and in every
check each struct, enum and use clause whose key is declared already is dropped, with one warning that
points to the first declaration, unless all declarations there are of that kind. -/
theorem declared_again_only_behind_hidden {base : Setup} {layout : Layout} {scanned : FileTree} {workspace : Workspace}
    (session : Session base layout scanned workspace) :
    (∀ symbol ∈ workspace.table.symbols, SymbolTable.isSchemaKey symbol = true → SymbolTable.implementers symbol = [] →
      symbol.declarations.Pairwise (fun first second => workspace.table.Hides first second.location.uri) ∧
      ((∀ first second module, workspace.table.moduleOfUri? first = some module →
        workspace.table.moduleOfUri? second = some module → first = second) → symbol.declarations.length ≤ 1)) ∧
    ∀ files uri call document module, Call.Within (base.over files) workspace uri call →
      (admission (base.over files) call.workspace call.uri).1 = .admitted document →
      call.workspace.table.moduleOfUri? document.uri = some module →
      ∀ scope, (passOf (base.over files) document module).Stage (ensureChecked (base.over files)) (base.over files)
        (startOf (base.over files) (admission (base.over files) call.workspace call.uri).2.enter document module) scope →
        scope.KeepsFirst (parse document.text base.trailing).node := by
  have exact := session.reachable.exact
  refine ⟨fun symbol member isKey nobody => ?_, ?_⟩
  · have hides := session.tidy.declarations exact.sorted exact.plain_of_moduleOfUri? member isKey nobody
    exact ⟨hides, fun alone => SymbolTable.length_le_one_of_hides alone hides⟩
  · intro files uri call document module within admitted registered scope stage
    obtain ⟨exact, tidy⟩ := within.tidy exact session.tidy
    rw [admission_eq] at admitted stage
    rw [← moduleOfUri?_takeUp exact tidy call.uri document] at registered
    have start := Tidily.start exact tidy (judge_admitted admitted) module
      (moduleOf ((fetch (base.over files) call.workspace call.uri).2.enter.table.clearUri document.uri) document.uri).2 registered
    have tidily := (Tidily.invariant (ensureChecked_tidies (base.over files)) call.workspace document module).stage rfl start stage
    exact tidily.2.tidy.keepsFirst (passOf (base.over files) document module) tidily.1.2.2.2
      (parse_legible document.text base.trailing) tidily.1.2.1 tidily.2.registered

def sharedFiles : FileTree :=
  ⟨[(["a"], .directory), (["a", "mod.sdoc"], .file .empty), (["a.sdoc"], .file .empty), (["b.sdoc"], .file .empty)]⟩

def sharedDocuments (left right other : String) : Documents :=
  { opened := [⟨"file:///a.sdoc", 1, left⟩, ⟨"file:///a/mod.sdoc", 1, right⟩, ⟨"file:///b.sdoc", 1, other⟩] }

def sharedWorkspace (left right other : String) : Workspace :=
  { table := Layout.register {}
      [(⟨["a"]⟩, "file:///a/mod.sdoc"), (⟨["a"]⟩, "file:///a.sdoc"), (⟨["b"]⟩, "file:///b.sdoc")]
    documents := sharedDocuments left right other }

theorem registerLayout_shared : (registerLayout {} pairLayout sharedFiles).2 =
    { table := Layout.register {}
        [(⟨["a"]⟩, "file:///a/mod.sdoc"), (⟨["a"]⟩, "file:///a.sdoc"), (⟨["b"]⟩, "file:///b.sdoc")] } := by
  have below : sharedFiles.below [] = sharedFiles.entries := List.mergeSort_of_pairwise (by decide +kernel)
  have root : sharedFiles.resolve? pairLayout.sourceRoot = some [] := by decide +kernel
  have entry : sharedFiles.get? pairLayout.sourceRoot = some .directory := by rw [FileTree.get?, root]; rfl
  have paths : pairLayout.discover sharedFiles = ["/a/mod.sdoc", "/a.sdoc", "/b.sdoc"] := by
    rw [Layout.discover, root]
    simp only [entry, below]
    decide +kernel
  have modules : pairLayout.modulesOf ["/a/mod.sdoc", "/a.sdoc", "/b.sdoc"] =
      [(⟨["a"]⟩, "file:///a/mod.sdoc"), (⟨["a"]⟩, "file:///a.sdoc"), (⟨["b"]⟩, "file:///b.sdoc")] := by decide +kernel
  rw [registerLayout, Layout.scan, paths, modules]

theorem sharedWorkspace_session (base : Setup) (left right other : String) :
    Session base pairLayout sharedFiles (sharedWorkspace left right other) := by
  have new : Session base pairLayout sharedFiles _ := .new (sharedDocuments left right other)
  rw [registerLayout_shared] at new
  exact new

/-- One document of `::a` keeps an alias to itself, and the other declares a type of that name. The type of
`::b` that is declared twice is kept once. -/
theorem declared_again_only_behind_hidden_shared :
    let text := "struct X {} struct X {}"
    let start := sharedWorkspace "use ::b::X;" "struct X {}" text
    let workspace := (start.checkAll {}).2
    Session {} pairLayout sharedFiles start ∧ Session {} pairLayout sharedFiles workspace ∧
      (∃ symbol ∈ workspace.table.symbols, symbol.address = .schema "::a::X" ∧ symbol.declarations.length = 2 ∧
        symbol.declarations.Pairwise fun first second => workspace.table.Hides first second.location.uri) ∧
      (workspace.diagnostics "file:///b.sdoc").map Diagnostic.span = [⟨19, 20⟩] ∧
      ∀ scope, (passOf {} ⟨"file:///b.sdoc", 1, text⟩ ⟨["b"]⟩).Stage (ensureChecked {}) {}
        (startOf {} (admission {} start "file:///b.sdoc").2.enter ⟨"file:///b.sdoc", 1, text⟩ ⟨["b"]⟩) scope →
        scope.KeepsFirst (parse text .allowed).node := by
  intro text start workspace
  have begun : Session {} pairLayout sharedFiles start := sharedWorkspace_session {} _ _ _
  have session : Session {} pairLayout sharedFiles workspace := begun.checkAll {}
  have shared : ∃ symbol ∈ workspace.table.symbols, symbol.address = .schema "::a::X" ∧ symbol.declarations.length = 2 ∧
      SymbolTable.isSchemaKey symbol = true ∧ SymbolTable.implementers symbol = [] := by decide +kernel
  obtain ⟨symbol, member, address, length, isKey, nobody⟩ := shared
  have hides := ((declared_again_only_behind_hidden session).1 symbol member isKey nobody).1
  have registered : start.table.moduleOfUri? "file:///b.sdoc" = some ⟨["b"]⟩ := by decide +kernel
  exact ⟨begun, session, ⟨symbol, member, address, length, hides⟩, by decide +kernel,
    (declared_again_only_behind_hidden begun).2 {} "file:///b.sdoc" ⟨start, "file:///b.sdoc", []⟩ _ _ .outermost rfl registered⟩

/-- The two declarations of that name, and not a word about them. -/
theorem declared_twice_without_warning :
    let workspace := ((sharedWorkspace "use ::b::X;" "struct X {}" "struct X {}").checkAll {}).2
    Session {} pairLayout sharedFiles workspace ∧
      (∃ symbol ∈ workspace.table.symbols, symbol.address = .schema "::a::X" ∧ SymbolTable.implementers symbol = [] ∧
        symbol.declarations.map (fun usage => (usage.kind, usage.location.uri)) =
          [(.declaration, "file:///a.sdoc"), (.definition, "file:///a/mod.sdoc")]) ∧
      ∀ uri ∈ ["file:///a.sdoc", "file:///a/mod.sdoc", "file:///b.sdoc"], workspace.diagnostics uri = [] := by
  intro workspace
  have session : Session {} pairLayout sharedFiles workspace := (sharedWorkspace_session {} _ _ _).checkAll {}
  exact ⟨session, by decide +kernel, by decide +kernel⟩

end Workspace

end SchemaDoc
