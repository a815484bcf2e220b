import Mathlib.Logic.Relation
import SchemaDoc.Proofs.OrderIndependence
import SchemaDoc.Proofs.PassInvariants
import SchemaDoc.Proofs.SoleDeclarations

/-! Why invalidating a document reaches every document that holds on to it. A check notes only the modules
that its paths address, while what it stores may lie behind any number of aliases in other documents. Each
alias was made by a check that is over by the time its module can be reached, so that whoever declares a
target is found by following dependencies from document to document. -/

namespace SchemaDoc

open Relation

/-- A module that is implemented is the module of its implementer's zone only. -/
theorem Groundwork.zone_of_implementer {origin : SymbolTable} (ground : Groundwork origin) {module : ModulePath}
    (plain : module.Plain) {name : String} (named : IsPlain name) {uri owner : String}
    (implemented : origin.uriOfModule? module = some owner) (zone : Zone origin uri (.schema (module.join name))) :
    uri = owner := by
  obtain ⟨other, called, members, home, alsoNamed, same⟩ := zone
  obtain ⟨keys, -⟩ := List.cons.inj (SymbolPath.mk.inj same).2
  obtain ⟨otherPlain, solid⟩ := ground.plain home
  obtain ⟨rfl, -⟩ := ModulePath.join_injective plain otherPlain named alsoNamed keys
  have listed := SymbolTable.mem_moduleUris_of_uriOfModule? implemented
  rw [ModulePath.parse_display_of_solid plain solid] at listed
  exact ground.distinct (SymbolTable.mem_moduleUris_of_moduleOfUri? home) listed

namespace SymbolTable

variable {origin table : SymbolTable} {uri : String} {address target : SymbolPath}

theorem Owns.zone {key : String} (owns : table.Owns uri key) (entries : table.entries = origin.entries) :
    Zone origin uri (.schema key) := by
  obtain ⟨module, name, home, plain, rfl⟩ := owns.congr entries.symm
  exact ⟨module, name, [], home, plain, rfl⟩

def Declares (origin table : SymbolTable) (uri : String) (address : SymbolPath) : Prop :=
  address.path.length = 1 ∧ Zone origin uri address ∨
    address.path.length ≠ 1 ∧ ∃ usage ∈ table.declarationsAt address, usage.location.uri = uri

/-- The target is stored at a symbol that the document declares. -/
def Stores (origin table : SymbolTable) (uri : String) (target : SymbolPath) : Prop :=
  ∃ address, address.category = .schema ∧ Declares origin table uri address ∧ target ∈ table.targetsAt address

end SymbolTable

namespace Workspace

/-- The last check of the document asked for the other one. -/
def AskedFor (workspace : Workspace) (uri other : String) : Prop :=
  ∃ dependencies, workspace.dependencies? uri = some dependencies ∧ other ∈ dependencies

/-- The other document is found by following dependencies. -/
def Reaches (workspace : Workspace) : String → String → Prop := ReflTransGen workspace.AskedFor

/-- Whoever may declare the target is found from one of the documents. -/
def Traces (origin : SymbolTable) (workspace : Workspace) (uris : List String) (target : SymbolPath) : Prop :=
  (∃ key, target = .schema key) ∧ ∀ owner, Zone origin owner target → ∃ uri ∈ uris, workspace.Reaches uri owner

/-- What is stored by documents that are not on the way can be traced from them. -/
structure Traceable (origin : SymbolTable) (workspace : Workspace) : Prop where
  entries : workspace.table.entries = origin.entries
  shown : ∀ address, address.path.length ≠ 1 → ∀ usage ∈ workspace.table.declarationsAt address, usage.visibility = .exported
  vacant : ∀ address, address.path.length ≠ 1 → workspace.table.declarationsAt address = [] →
    workspace.table.targetsAt address = []
  owned : ∀ key target, target ∈ workspace.table.targetsAt (.schema key) → ∃ uri, Zone origin uri (.schema key)
  traced : ∀ uri target, ¬workspace.InProgress uri → SymbolTable.Stores origin workspace.table uri target →
    Traces origin workspace [uri] target

def Remembers (before after : Workspace) : Prop := ∀ uri other, before.AskedFor uri other → after.AskedFor uri other

theorem Traces.mono {origin : SymbolTable} {before after : Workspace} {uris more : List String} {target : SymbolPath}
    (traces : Traces origin before uris target) (subset : uris ⊆ more) (remembers : Remembers before after) :
    Traces origin after more target := by
  refine ⟨traces.1, fun owner zone => ?_⟩
  obtain ⟨uri, member, reaches⟩ := traces.2 owner zone
  exact ⟨uri, subset member, ReflTransGen.mono remembers uri owner reaches⟩

theorem Traceable.congr {origin : SymbolTable} {before after : Workspace} (traceable : Traceable origin before)
    (table : after.table = before.table) (idle : ∀ uri, ¬after.InProgress uri → ¬before.InProgress uri)
    (remembers : Remembers before after) : Traceable origin after where
  entries := table ▸ traceable.entries
  shown := table ▸ traceable.shown
  vacant := table ▸ traceable.vacant
  owned := table ▸ traceable.owned
  traced uri target resting stores :=
    (traceable.traced uri target (idle uri resting) (table ▸ stores)).mono (List.Subset.refl _) remembers

/-- A run without edits forgets nothing that was asked for. -/
theorem AllSettled.remembers {setup : Setup} {taken : List String} {before after : Workspace}
    (settled : before.AllSettled setup) (advances : Advances setup taken before after) : Remembers before after := by
  rintro uri other ⟨dependencies, known, member⟩
  refine ⟨dependencies, ?_, member⟩
  have outside : uri ∉ taken := by
    intro listed
    obtain ⟨document, needs⟩ := advances.needed uri listed
    rw [dependencies?, settled.unknown needs] at known
    cases known
  rw [dependencies?, advances.records uri outside]
  exact known

end Workspace

namespace Pass

variable {pass : Pass} {scope : Scope} {creates : Bool} {address : SymbolPath} {record : SymbolRecord}
  {Known : Scope → SymbolPath → Prop}

/-- Members are entered where the document sees none, for all to see. -/
theorem Writes.member (writes : pass.Writes Pass.Keeps Known scope creates address record)
    (below : address.path.length ≠ 1) :
    creates = true ∧ address.path ≠ [] ∧ Query.sees scope.workspace.table pass.uri address = false ∧
      ∃ usage, record.usage = some usage ∧ usage.kind = .definition ∧ usage.visibility = .exported := by
  cases writes with
  | field inside member found text free subcategory data known =>
    exact ⟨rfl, by simp [SymbolPath.member], Query.sees_of_declared? free, _, rfl, rfl, rfl⟩
  | reference leads resolved =>
    obtain ⟨key, _, rfl, _⟩ := resolved
    exact absurd rfl below
  | _ => exact absurd rfl below

/-- What is stored at a key is stored at a name of the module. -/
theorem Writes.key (writes : pass.Writes Pass.Keeps Known scope creates address record) (atKey : address.path.length = 1)
    (schema : address.category = .schema) {target : SymbolPath} (stored : target ∈ record.targets) :
    ∃ node name, pass.Names node name ∧ address = .schema (pass.module.join name) := by
  cases writes with
  | use member found last text free resolved visibility known => exact ⟨_, _, .used member found last text, rfl⟩
  | data names type known => exact ⟨_, _, names, rfl⟩
  | field inside member found text free subcategory data known =>
    obtain ⟨key, rfl⟩ := inside.isSchema
    cases atKey
  | object registry name span target known => cases schema
  | _ => cases stored

theorem Names.zone {origin : SymbolTable} {node : Node} {name : String} (names : pass.Names node name) {text : String}
    (legible : pass.root.AllLegible text) (home : origin.moduleOfUri? pass.uri = some pass.module) :
    Zone origin pass.uri (.schema (pass.module.join name)) :=
  ⟨pass.module, name, [], home, (names.isWrittenAt legible).word.isPlain, rfl⟩

end Pass

namespace Workspace

section Write

variable {origin : SymbolTable} (ground : Groundwork origin) {pass : Pass} {scope : Scope} {creates : Bool}
  {address : SymbolPath} {record : SymbolRecord} {Known : Scope → SymbolPath → Prop}
  (sorted : Sorted scope.workspace.table.symbols) (traceable : Traceable origin scope.workspace) {text : String}
  (legible : pass.root.AllLegible text) (home : origin.moduleOfUri? pass.uri = some pass.module)
  (writes : pass.Writes Pass.Keeps Known scope creates address record)

include traceable in
/-- A member that a document may enter is not declared at all, and stores nothing. -/
theorem Traceable.free (below : address.path.length ≠ 1)
    (unseen : Query.sees scope.workspace.table pass.uri address = false) :
    scope.workspace.table.declarationsAt address = [] ∧ scope.workspace.table.targetsAt address = [] := by
  have none : scope.workspace.table.declarationsAt address = [] := by
    rw [SymbolTable.sees_eq] at unseen
    refine List.eq_nil_iff_forall_not_mem.mpr fun usage member => ?_
    have dark := List.any_eq_false.mp unseen usage member
    simp [traceable.shown address below usage member] at dark
  exact ⟨none, traceable.vacant address below none⟩

include ground sorted traceable legible home writes in
/-- A write stores something for its own document only. -/
theorem Traceable.stores_write {uri : String} {target : SymbolPath}
    (stores : SymbolTable.Stores origin (scope.write creates address record).workspace.table uri target) :
    SymbolTable.Stores origin scope.workspace.table uri target ∨ uri = pass.uri ∧ target ∈ record.targets := by
  obtain ⟨place, schema, declares, stored⟩ := stores
  have origins := SymbolTable.mem_targetsAt_write sorted creates address record stored
  rcases declares with ⟨atKey, zone⟩ | ⟨below, usage, member, rfl⟩
  · rcases origins with old | ⟨rfl, new⟩
    · exact .inl ⟨place, schema, .inl ⟨atKey, zone⟩, old⟩
    · obtain ⟨node, name, names, rfl⟩ := writes.key atKey schema new
      exact .inr ⟨ground.zone_unique zone (names.zone legible home), new⟩
  · obtain ⟨used, declaring⟩ := List.mem_filter.mp member
    obtain ⟨added, same, given⟩ := SymbolTable.usagesAt_write sorted creates address record place
    rcases List.mem_append.mp (same ▸ used) with earlier | new
    · have declared : usage ∈ scope.workspace.table.declarationsAt place := List.mem_filter.mpr ⟨earlier, declaring⟩
      rcases origins with old | ⟨rfl, new⟩
      · exact .inl ⟨place, schema, .inr ⟨below, usage, declared, rfl⟩, old⟩
      · obtain ⟨-, -, unseen, -⟩ := writes.member below
        rw [(traceable.free below unseen).1] at declared
        cases declared
    · obtain ⟨rfl, written⟩ := given usage new
      obtain ⟨-, -, unseen, -⟩ := writes.member below
      rw [(traceable.free below unseen).2] at origins
      rcases origins with old | ⟨-, new⟩
      · cases old
      · exact .inr ⟨(writes.usage_place usage written).1, new⟩

include ground sorted traceable legible home writes in
theorem Traceable.write (entries : (scope.write creates address record).workspace.table.entries = scope.workspace.table.entries)
    (progress : scope.workspace.InProgress pass.uri) : Traceable origin (scope.write creates address record).workspace := by
  have appended := SymbolTable.usagesAt_write sorted creates address record
  have earlier : ∀ {other usage}, usage ∈ scope.workspace.table.declarationsAt other →
      usage ∈ (scope.write creates address record).workspace.table.declarationsAt other := by
    intro other usage member
    obtain ⟨used, declaring⟩ := List.mem_filter.mp member
    obtain ⟨added, same, _⟩ := appended other
    exact List.mem_filter.mpr ⟨same ▸ List.mem_append_left _ used, declaring⟩
  constructor
  case entries => exact entries.trans traceable.entries
  case shown =>
    intro other below usage member
    obtain ⟨used, declaring⟩ := List.mem_filter.mp member
    obtain ⟨added, same, given⟩ := appended other
    rcases List.mem_append.mp (same ▸ used) with old | new
    · exact traceable.shown other below usage (List.mem_filter.mpr ⟨old, declaring⟩)
    · obtain ⟨rfl, written⟩ := given usage new
      obtain ⟨-, -, -, only, alone, -, exported⟩ := writes.member below
      cases alone.symm.trans written
      exact exported
  case vacant =>
    intro other below none
    have before : scope.workspace.table.declarationsAt other = [] :=
      List.eq_nil_iff_forall_not_mem.mpr fun usage member => by
        have still := earlier member
        rw [none] at still
        cases still
    refine List.eq_nil_iff_forall_not_mem.mpr fun target stored => ?_
    rcases SymbolTable.mem_targetsAt_write sorted creates address record stored with old | ⟨rfl, -⟩
    · rw [traceable.vacant other below before] at old
      cases old
    · obtain ⟨rfl, somewhere, -, usage, given, kind, -⟩ := writes.member below
      have view := congrArg Prod.fst (SymbolTable.viewAt_write_here sorted true somewhere (.inl rfl) record)
      have listed := none.symm.trans view
      simp [given, kind, UsageKind.isDeclaring] at listed
  case owned =>
    intro key target stored
    rcases SymbolTable.mem_targetsAt_write sorted creates address record stored with old | ⟨rfl, new⟩
    · exact traceable.owned key target old
    · obtain ⟨node, name, names, same⟩ := writes.key rfl rfl new
      exact ⟨pass.uri, same ▸ names.zone legible home⟩
  case traced =>
    intro uri target idle stores
    rcases traceable.stores_write ground sorted legible home writes stores with old | ⟨rfl, -⟩
    · exact traceable.traced uri target idle old
    · exact absurd progress idle

end Write

variable {setup : Setup} {origin : SymbolTable}

structure Tracks (setup : Setup) (origin : SymbolTable) (before after : Workspace) : Prop where
  firms : Firms setup before after
  tidies : Tidies setup before after
  tracks : before.AllSettled setup → before.Firm → before.Exact → before.table.Tidy → Traceable origin before →
    Traceable origin after ∧ ∀ uri, before.InProgress uri → ∀ target, SymbolTable.Stores origin after.table uri target →
      SymbolTable.Stores origin before.table uri target

/-- The check of a document goes on, with what it stores traced from itself and from what it asked for. -/
structure Tracing (origin : SymbolTable) (before : Workspace) (document : TextDocument) (scope : Scope) : Prop where
  traceable : Traceable origin scope.workspace
  own : ∀ target, SymbolTable.Stores origin scope.workspace.table document.uri target →
    Traces origin scope.workspace (document.uri :: scope.dependencies) target
  others : ∀ uri, before.InProgress uri → ∀ target, SymbolTable.Stores origin scope.workspace.table uri target →
    SymbolTable.Stores origin before.table uri target

def Guarded (setup : Setup) (before : Workspace) (document : TextDocument) (module : ModulePath) (scope : Scope) : Prop :=
  Steadily setup before document module scope ∧ Tidily setup before document module scope

variable {before : Workspace} {document : TextDocument} {module : ModulePath} {scope : Scope} {load : Loader}

theorem Guarded.invariant (settled : before.AllSettled setup)
    (tracks : ∀ workspace uri, Tracks setup origin workspace (load workspace uri).2) (document : TextDocument)
    (module : ModulePath) :
    (passOf setup document module).Invariant load
      (fun scope path target => Pass.Ends scope path target ∧ Pass.Keeps scope path target)
      (fun scope target => Pass.Anchors scope target ∧ True) (Guarded setup before document module) :=
  (Steadily.invariant settled (fun workspace uri => (tracks workspace uri).firms) setup.limits document module _).both
    (Tidily.invariant (fun workspace uri => (tracks workspace uri).tidies) before document module)

theorem Guarded.home (guarded : Guarded setup before document module scope) (traceable : Traceable origin scope.workspace) :
    origin.moduleOfUri? document.uri = some module := by
  rw [SymbolTable.moduleOfUri?_eq, ← traceable.entries, ← SymbolTable.moduleOfUri?_eq]
  exact guarded.2.2.registered

theorem Guarded.progress (guarded : Guarded setup before document module scope) :
    scope.workspace.InProgress document.uri := (guarded.1.underway.progress document.uri).mpr (.inl rfl)

/-- The symbol that a path arrives at is traced from whoever implements its module. -/
theorem Traceable.arrival (firm : scope.workspace.Firm) (traceable : Traceable origin scope.workspace)
    {goal : PathTarget} {uri : String} {uris : List String} (member : uri ∈ uris)
    (owner : ∀ other, Zone origin other goal.address → other = uri)
    (stored : ∀ target, SymbolTable.Stores origin scope.workspace.table uri target → Traces origin scope.workspace uris target)
    (declared : (scope.arrival goal).1 = true) : Traces origin scope.workspace uris (scope.arrival goal).2.1 := by
  rw [Scope.arrival_eq firm.sorted fun target linked => (firm.aliasAt_target linked).plain] at declared ⊢
  split at declared
  · next seen =>
    rw [if_pos seen]
    cases linked : scope.workspace.table.aliasAt goal.address with
    | none => exact ⟨⟨_, rfl⟩, fun other zone => ⟨uri, member, owner other zone ▸ .refl⟩⟩
    | some target =>
      obtain ⟨symbol, found, link⟩ := Option.bind_eq_some_iff.mp linked
      have among : target ∈ scope.workspace.table.targetsAt goal.address :=
        SymbolTable.mem_targetsAt.mpr ⟨symbol, found, by simp [Symbol.targets, referents, link]⟩
      obtain ⟨other, zone⟩ := traceable.owned _ target among
      obtain rfl := owner other zone
      exact stored target ⟨goal.address, rfl, .inl ⟨rfl, zone⟩, among⟩
  · cases declared

theorem remembers_checking (scope : Scope) : Remembers scope.workspace scope.checking.workspace := by
  rintro uri other ⟨dependencies, known, member⟩
  refine ⟨dependencies, ?_, member⟩
  rw [dependencies?, Scope.checking, setState, record?_modifyRecord]
  split
  · rw [Option.map_map]
    exact known
  · exact known

theorem Traceable.uriOfModule? {workspace : Workspace} (traceable : Traceable origin workspace) (ground : Groundwork origin)
    (sorted : Sorted workspace.table.symbols) (module : ModulePath) :
    workspace.table.uriOfModule? module = origin.uriOfModule? module := by
  rw [SymbolTable.uriOfModule?_eq sorted, SymbolTable.uriOfModule?_eq ground.sorted, traceable.entries]

section Steps

variable (tracing : Tracing origin before document scope) (guarded : Guarded setup before document module scope)
  (settled : before.AllSettled setup) (tracks : ∀ workspace uri, Tracks setup origin workspace (load workspace uri).2)

include tracing guarded settled tracks

/-- A load leaves everything traceable, adds nothing to what is stored by documents on the way, and what could be traced
is traced still. -/
theorem Tracing.onward (uri : String) :
    Traceable origin (scope.loaded load uri).workspace ∧
      (∀ other, scope.workspace.InProgress other → ∀ target,
        SymbolTable.Stores origin (scope.loaded load uri).workspace.table other target →
          SymbolTable.Stores origin scope.workspace.table other target) ∧
      ∀ target, Traces origin scope.workspace (document.uri :: scope.dependencies) target →
        Traces origin (scope.loaded load uri).workspace (document.uri :: (scope.loaded load uri).dependencies) target := by
  have all := guarded.1.settled settled
  have nested := tracks scope.workspace uri
  obtain ⟨traceable, others⟩ := nested.tracks all guarded.1.firm guarded.2.1.2.2.2 guarded.2.2.tidy tracing.traceable
  obtain ⟨taken, advances⟩ := nested.firms.loads.advances
  refine ⟨traceable, others, fun target traces => traces.mono ?_ (all.remembers advances)⟩
  intro other listed
  rcases List.mem_cons.mp listed with rfl | listed
  · exact List.mem_cons_self
  · exact List.mem_cons_of_mem _ (Scope.mem_insertUri.mpr (.inr listed))

theorem Tracing.loaded (uri : String) : Tracing origin before document (scope.loaded load uri) := by
  obtain ⟨traceable, others, onward⟩ := tracing.onward guarded settled tracks uri
  constructor
  case traceable => exact traceable
  case own => exact fun target stores => onward target (tracing.own target (others document.uri guarded.progress target stores))
  case others =>
    intro other earlier target stores
    have progress := (guarded.1.underway.progress other).mpr (.inr earlier)
    exact tracing.others other earlier target (others other progress target stores)

theorem Tracing.checking : Tracing origin before document scope.checking := by
  have remembers := remembers_checking scope
  have further := ((Guarded.invariant settled tracks document module).checking guarded).1.underway
  constructor
  case traceable =>
    refine tracing.traceable.congr rfl (fun uri resting => ?_) remembers
    rwa [guarded.1.underway.progress, ← further.progress]
  case own => exact fun target stores => (tracing.own target stores).mono (List.Subset.refl _) remembers
  case others => exact tracing.others

omit settled tracks in
theorem Tracing.write (ground : Groundwork origin) (idle : ¬before.InProgress document.uri) {creates : Bool}
    {address : SymbolPath} {record : SymbolRecord}
    (writes : (passOf setup document module).Writes Pass.Keeps
      (fun scope target => Traces origin scope.workspace (document.uri :: scope.dependencies) target) scope creates address record) :
    Tracing origin before document (scope.write creates address record) := by
  have legible : (passOf setup document module).root.AllLegible document.text := parse_legible _ _
  have home := guarded.home tracing.traceable
  have sorted := guarded.1.firm.sorted
  have stored := @Traceable.stores_write origin ground _ _ _ _ _ _ sorted tracing.traceable _ legible home writes
  constructor
  case traceable =>
    exact tracing.traceable.write ground sorted legible home writes (writes.entries sorted guarded.2.2.tidy) guarded.progress
  case own =>
    intro target stores
    rcases stored stores with old | ⟨-, new⟩
    · exact tracing.own target old
    · exact writes.targets target new
  case others =>
    intro other earlier target stores
    rcases stored stores with old | ⟨rfl, -⟩
    · exact tracing.others other earlier target old
    · exact absurd earlier idle

end Steps

theorem Guarded.guides (ground : Groundwork origin) (settled : before.AllSettled setup) {document : TextDocument}
    (idle : ¬before.InProgress document.uri)
    (tracks : ∀ workspace uri, Tracks setup origin workspace (load workspace uri).2)
    (succeeds : ∀ workspace uri, (load workspace uri).1 = none → ¬(load workspace uri).2.InProgress uri)
    (module : ModulePath) :
    (passOf setup document module).Guides load
      (fun scope path target => Pass.Ends scope path target ∧ Pass.Keeps scope path target)
      (fun scope target => Pass.Anchors scope target ∧ True) (Guarded setup before document module)
      (Tracing origin before document) fun scope target => Traces origin scope.workspace (document.uri :: scope.dependencies) target := by
  have legible : (passOf setup document module).root.AllLegible document.text := parse_legible _ _
  constructor
  case step =>
    intro scope after guarded tracing step
    cases step with
    | add reports => exact ⟨⟨tracing.traceable, tracing.own, tracing.others⟩, fun target traces => traces⟩
    | @load path goal uri leads implemented apart =>
      exact ⟨tracing.loaded guarded settled tracks uri, (tracing.onward guarded settled tracks uri).2.2⟩
    | write writes =>
      refine ⟨tracing.write guarded ground idle (writes.mono ?_ And.right), fun target traces => traces⟩
      exact fun resolved => resolved.1.2
    | checking =>
      refine ⟨tracing.checking guarded settled tracks, fun target traces => ?_⟩
      exact traces.mono (List.Subset.refl _) (remembers_checking scope)
  case quiet => exact fun _ traces _ => traces
  case home =>
    intro scope path goal guarded tracing leads own declared
    refine tracing.traceable.arrival guarded.1.firm List.mem_cons_self (fun other zone => ?_) tracing.own declared
    obtain ⟨plain, -⟩ := leads.walk legible guarded.2.1.1
    have named := (leads.name legible).word.isPlain
    rcases own with same | implemented
    · have listed := SymbolTable.mem_moduleUris_of_moduleOfUri? (guarded.home tracing.traceable)
      exact ground.zone_of_module plain named (same ▸ listed) zone
    · rw [tracing.traceable.uriOfModule? ground guarded.1.firm.sorted] at implemented
      exact ground.zone_of_implementer plain named implemented zone
  case away =>
    intro scope path goal uri guarded tracing leads implemented apart success declared
    have firm := ((tracks scope.workspace uri).firms.firm (guarded.1.settled settled) guarded.1.firm).1
    obtain ⟨traceable, -, -⟩ := tracing.onward guarded settled tracks uri
    have listed : uri ∈ document.uri :: (scope.loaded load uri).dependencies :=
      List.mem_cons_of_mem _ (Scope.mem_insertUri.mpr (.inl rfl))
    refine traceable.arrival firm listed (fun other zone => ?_) (fun target stores => ?_) declared
    · obtain ⟨plain, -⟩ := leads.walk legible guarded.2.1.1
      rw [tracing.traceable.uriOfModule? ground guarded.1.firm.sorted] at implemented
      exact ground.zone_of_implementer plain (leads.name legible).word.isPlain implemented zone
    · exact (traceable.traced uri target (succeeds scope.workspace uri success) stores).mono
        (List.cons_subset.mpr ⟨listed, List.nil_subset _⟩) fun _ _ asked => asked

theorem targetsAt_clearUri_of_undeclared {table : SymbolTable} (sorted : Sorted table.symbols) (uri : String)
    {address : SymbolPath} (none : (table.clearUri uri).declarationsAt address = []) :
    (table.clearUri uri).targetsAt address = [] := by
  refine List.eq_nil_iff_forall_not_mem.mpr fun target stored => ?_
  obtain ⟨symbol, found, among⟩ := SymbolTable.mem_targetsAt.mp stored
  rw [SymbolTable.declarationsAt_of_found found] at none
  rcases SymbolTable.lookup?_clearUri sorted uri address with same | ⟨gone, -⟩
  · rw [same] at found
    obtain ⟨earlier, -, rfl⟩ := Option.map_eq_some_iff.mp found
    rw [Symbol.clearUri, Symbol.settle] at among none
    split at among
    · next declared =>
      rw [if_pos declared] at none
      obtain ⟨usage, member, declaring⟩ := List.any_eq_true.mp declared
      have listed : usage ∈ Symbol.declarations _ := List.mem_filter.mpr ⟨member, declaring⟩
      rw [none] at listed
      cases listed
    · cases among
  · rw [gone] at found
    cases found

theorem Traceable.takeUp {uri : String} (traceable : Traceable origin before) (settled : before.AllSettled setup)
    (exact : before.Exact) (tidy : before.table.Tidy) (needs : Needs setup before uri document) :
    let taken := (fetch setup before uri).2.enter.takeUp document (parse document.text setup.trailing).errors
    Traceable origin taken ∧ Remembers before taken ∧
      ∀ other target, SymbolTable.Stores origin taken.table other target → SymbolTable.Stores origin before.table other target := by
  intro taken
  obtain ⟨-, -, entries⟩ := @takeUp_tidy setup before exact tidy uri document (parse document.text setup.trailing).errors
  have underway := Underway.start needs
  have table : taken.table = before.table.clearUri document.uri := table_takenUp setup before uri document _
  have declared : ∀ {address usage}, usage ∈ taken.table.declarationsAt address → usage ∈ before.table.declarationsAt address := by
    intro address usage member
    obtain ⟨used, declaring⟩ := List.mem_filter.mp member
    rw [table, SymbolTable.usagesAt_clearUri exact.sorted] at used
    exact List.mem_filter.mpr ⟨List.mem_of_mem_filter used, declaring⟩
  have targets : ∀ {address target}, target ∈ taken.table.targetsAt address → target ∈ before.table.targetsAt address := by
    intro address target stored
    rw [table] at stored
    exact SymbolTable.mem_targetsAt_clearUri exact.sorted document.uri stored
  have stores : ∀ other target, SymbolTable.Stores origin taken.table other target →
      SymbolTable.Stores origin before.table other target := by
    rintro other target ⟨address, schema, atKey | ⟨below, usage, member, place⟩, stored⟩
    · exact ⟨address, schema, .inl atKey, targets stored⟩
    · exact ⟨address, schema, .inr ⟨below, usage, declared member, place⟩, targets stored⟩
  have remembers : Remembers before taken := by
    obtain ⟨_, -, advances⟩ := underway.advances
    exact settled.remembers advances
  refine ⟨?_, remembers, stores⟩
  constructor
  case entries => exact entries.trans traceable.entries
  case shown => exact fun address below usage member => traceable.shown address below usage (declared member)
  case vacant =>
    intro address _ none
    rw [table] at none ⊢
    exact targetsAt_clearUri_of_undeclared exact.sorted document.uri none
  case owned => exact fun key target stored => traceable.owned key target (targets stored)
  case traced =>
    intro other target idle stored
    have resting : ¬before.InProgress other := fun progress => idle ((underway.progress other).mpr (.inr progress))
    exact (traceable.traced other target resting (stores other target stored)).mono (List.Subset.refl _) remembers

/-- Behind the check what it asked for is on record. -/
theorem Tracing.conclude (underway : Underway setup before document scope.workspace)
    (tracing : Tracing origin before document scope) (node : Node) (errors : List Diagnostic) :
    let after := (scope.workspace.conclude document.uri node errors scope.dependencies).leave
    Traceable origin after ∧ ∀ uri, before.InProgress uri → ∀ target, SymbolTable.Stores origin after.table uri target →
      SymbolTable.Stores origin before.table uri target := by
  intro after
  obtain ⟨state, -, own⟩ := underway.record
  have record := record?_conclude scope.workspace document.uri node errors scope.dependencies
  have others : ∀ {uri}, uri ≠ document.uri → after.record? uri = scope.workspace.record? uri :=
    fun apart => (record _).trans (if_neg apart)
  have noted : after.dependencies? document.uri = some scope.dependencies := by
    have changed := record document.uri
    rw [if_pos rfl, own] at changed
    exact congrArg (Option.map FileRecord.dependencies) changed
  have remembers : Remembers scope.workspace after := by
    rintro uri other ⟨dependencies, known, member⟩
    by_cases here : uri = document.uri
    · subst here
      rw [dependencies?, own] at known
      cases known
      cases member
    · exact ⟨dependencies, by rw [dependencies?, others here]; exact known, member⟩
  refine ⟨?_, tracing.others⟩
  refine { tracing.traceable with traced := fun uri target resting stores => ?_ }
  by_cases here : uri = document.uri
  · subst here
    have traces := (tracing.own target stores).mono (List.Subset.refl _) remembers
    refine ⟨traces.1, fun owner zone => ⟨document.uri, List.mem_singleton_self _, ?_⟩⟩
    obtain ⟨asked, listed, reaches⟩ := traces.2 owner zone
    rcases List.mem_cons.mp listed with rfl | listed
    · exact reaches
    · exact .head ⟨scope.dependencies, noted, listed⟩ reaches
  · have still : ¬scope.workspace.InProgress uri := by rwa [← inProgress_congr (others here)]
    exact (tracing.traceable.traced uri target still stores).mono (List.Subset.refl _) remembers

theorem checkDocument_tracks {uri : String} (ground : Groundwork origin)
    (tracks : ∀ workspace uri, Tracks setup origin workspace (load workspace uri).2)
    (succeeds : ∀ workspace uri, (load workspace uri).1 = none → ¬(load workspace uri).2.InProgress uri)
    (needs : Needs setup before uri document) :
    Tracks setup origin before (checkDocument load setup (fetch setup before uri).2.enter document).leave := by
  refine ⟨checkDocument_firms (fun workspace uri => (tracks workspace uri).firms) needs,
    checkDocument_tidies (fun workspace uri => (tracks workspace uri).tidies) needs, ?_⟩
  intro settled firm exact tidy traceable
  obtain rfl := provided_uri needs.provides
  obtain ⟨taken, remembers, stores⟩ := traceable.takeUp settled exact tidy needs
  have start : ∀ module errors, Tracing origin before document
      { workspace := (fetch setup before document.uri).2.enter.takeUp document (parse document.text setup.trailing).errors,
        uri := document.uri, module, errors } := by
    refine fun module errors => ⟨taken, fun target stored => ?_, fun uri _ target => stores uri target⟩
    exact (traceable.traced document.uri target needs.idle (stores document.uri target stored)).mono (List.Subset.refl _) remembers
  refine checkDocument_guided (fun after => Traceable origin after.leave ∧ ∀ uri, before.InProgress uri → ∀ target,
      SymbolTable.Stores origin after.leave.table uri target → SymbolTable.Stores origin before.table uri target)
    (Guarded setup before document) (fun _ => Tracing origin before document) ?_ ?_
    (Guarded.invariant settled tracks document) (Guarded.guides ground settled needs.idle tracks succeeds) ?_
  · exact fun errors => (start .root errors).conclude (Underway.start needs) _ _
  · exact fun module errors registered => ⟨⟨Steadily.start settled firm needs module errors,
      Tidily.start exact tidy needs module errors registered⟩, start module errors⟩
  · exact fun module scope guarded tracing => tracing.conclude guarded.1.underway _ _

theorem fetch_tracks (workspace : Workspace) (uri : String) : Tracks setup origin workspace (fetch setup workspace uri).2 := by
  obtain ⟨documents, fetched⟩ := fetch_snd setup workspace uri
  refine ⟨Firms.fetch workspace uri, Tidies.fetch workspace uri, fun settled _ _ _ traceable => ?_⟩
  have remembers := settled.remembers (Advances.fetch setup workspace uri)
  rw [fetched] at remembers ⊢
  exact ⟨traceable.congr rfl (fun _ idle => idle) remembers, fun _ _ _ stores => stores⟩

/-- The run: every load leaves everything traceable. -/
theorem loadWithin_tracks (ground : Groundwork origin) (budget : Nat) (workspace : Workspace) (uri : String) :
    Tracks setup origin workspace (loadWithin setup budget workspace uri).2 := by
  have once : ∀ (load : Loader) isAllowed, (isAllowed = true → (∀ workspace uri, Tracks setup origin workspace (load workspace uri).2) ∧
      ∀ workspace uri, (load workspace uri).1 = none → ¬(load workspace uri).2.InProgress uri) →
      ∀ workspace uri, Tracks setup origin workspace (loadOnce load setup isAllowed workspace uri).2 := by
    intro load isAllowed nested workspace uri
    simp only [loadOnce, admission_eq]
    cases verdict : judge uri (provided setup workspace uri) (workspace.record? uri) with
    | settled error => exact fetch_tracks workspace uri
    | admitted document =>
      cases isAllowed with
      | false => exact fetch_tracks workspace uri
      | true => exact checkDocument_tracks ground (nested rfl).1 (nested rfl).2 (judge_admitted verdict)
  induction budget generalizing workspace uri with
  | zero =>
    rw [loadWithin_zero fun workspace _ => (none, workspace)]
    exact once _ false (by simp) workspace uri
  | succ budget ih =>
    rw [loadWithin_succ]
    exact once _ true (fun _ => ⟨ih, fun _ _ success => (loadWithin_none success).not_inProgress⟩) workspace uri

/-- The workspaces that checks lead to behind one layout, while no document changes. -/
inductive Untouched (setup : Setup) (layout : Layout) (scanned : FileTree) : Workspace → Prop where
  | new (documents : Documents) : Untouched setup layout scanned (newWorkspace layout scanned documents)
  | check {workspace} (earlier : Untouched setup layout scanned workspace) (uri : String) :
      Untouched setup layout scanned (ensureChecked setup workspace uri).2
  | checkAll {workspace} (earlier : Untouched setup layout scanned workspace) :
      Untouched setup layout scanned (workspace.checkAll setup).2

namespace Untouched

variable {layout : Layout} {scanned : FileTree} {workspace : Workspace}

theorem unedited (untouched : Untouched setup layout scanned workspace) : Unedited setup workspace := by
  induction untouched with
  | new documents => exact .new _ documents
  | check _ uri ih => exact ih.check uri
  | checkAll _ ih => exact ih.checkAll

theorem session (untouched : Untouched setup layout scanned workspace) : Session setup layout scanned workspace := by
  induction untouched with
  | new documents => exact .new documents
  | check _ uri ih => exact ih.check setup.files uri
  | checkAll _ ih => exact ih.checkAll setup.files

theorem traceable (ground : Groundwork (registerLayout {} layout scanned).2.table)
    (untouched : Untouched setup layout scanned workspace) :
    Traceable (registerLayout {} layout scanned).2.table workspace := by
  have load : ∀ (workspace : Workspace) (uri : String), Unedited setup workspace ∧ workspace.Exact ∧ workspace.table.Tidy ∧
      Traceable (registerLayout {} layout scanned).2.table workspace →
      Unedited setup (ensureChecked setup workspace uri).2 ∧ (ensureChecked setup workspace uri).2.Exact ∧
        (ensureChecked setup workspace uri).2.table.Tidy ∧
        Traceable (registerLayout {} layout scanned).2.table (ensureChecked setup workspace uri).2 := by
    rintro workspace uri ⟨unedited, exact, tidy, traceable⟩
    obtain ⟨settled, firm⟩ := unedited.firm
    have tracks : Tracks setup _ workspace (ensureChecked setup workspace uri).2 := loadWithin_tracks ground _ workspace uri
    exact ⟨unedited.check uri, tracks.tidies.exact exact, (tracks.tidies.tidy exact tidy).1,
      (tracks.tracks settled firm exact tidy traceable).1⟩
  induction untouched with
  | new documents =>
    have bare : ∀ address target, target ∉ (newWorkspace layout scanned documents).table.targetsAt address :=
      (isBare_register _).targets
    constructor
    case entries => rfl
    case shown =>
      intro address below usage member
      obtain ⟨path, -, rfl⟩ := ground.modules address usage (List.mem_of_mem_filter member)
      exact absurd rfl below
    case vacant => exact fun address _ _ => List.eq_nil_iff_forall_not_mem.mpr (bare address)
    case owned => exact fun key target stored => absurd stored (bare _ target)
    case traced =>
      rintro uri target - ⟨address, -, -, stored⟩
      exact absurd stored (bare address target)
  | check earlier uri ih =>
    exact (load _ uri ⟨earlier.unedited, earlier.session.reachable.exact, earlier.session.tidy, ih⟩).2.2.2
  | checkAll earlier ih =>
    exact (checkUris_keeps load _ ⟨earlier.unedited, earlier.session.reachable.exact, earlier.session.tidy, ih⟩).2.2.2

end Untouched

/-- Invalidating a document marks all that lead to it. -/
theorem Reaches.mem_invalidate {workspace : Workspace} {uri owner : String} (reaches : workspace.Reaches uri owner) :
    uri ∈ (workspace.invalidate owner).1 := by
  obtain ⟨listed, closed⟩ := workspace.invalidate_closed owner
  induction reaches using ReflTransGen.head_induction_on with
  | refl => exact listed
  | head asked _ ih =>
    obtain ⟨dependencies, known, member⟩ := asked
    obtain ⟨record, found, rfl⟩ := Option.map_eq_some_iff.mp known
    exact closed _ record.errors record.dependencies (by rw [outcome?, found]; rfl) ⟨_, member, ih⟩

/-- Whoever stores the path of a type, in an alias or in a field, is marked when a document that defines
the type is invalidated, if no module has two documents and no document was edited. -/
theorem invalidate_marks_storers {layout : Layout} {scanned : FileTree} {workspace : Workspace}
    (distinct : ∀ {module first second}, (module, first) ∈ (registerLayout {} layout scanned).2.table.moduleUris →
      (module, second) ∈ (registerLayout {} layout scanned).2.table.moduleUris → first = second)
    (untouched : Untouched setup layout scanned workspace) {symbol : Symbol} (member : symbol ∈ workspace.table.symbols)
    (schema : symbol.address.category = .schema) {usage : Usage} (declares : usage ∈ symbol.declarations)
    (entered : usage.kind ≠ .implementation) {target : SymbolPath} (stored : target ∈ symbol.targets) {type : Symbol}
    (found : workspace.table.lookup? target = some type) {definition : Usage} (defines : definition ∈ type.usages)
    (kind : definition.kind = .definition) :
    usage.location.uri ∈ (workspace.invalidate definition.location.uri).1 := by
  have ground := groundwork_register (fun entry member => Layout.plain_of_modulesOf member) distinct
  have traceable := untouched.traceable ground
  have tidy := untouched.session.tidy
  have exact := untouched.session.reachable.exact
  have here := SymbolTable.lookup?_of_mem exact.sorted member
  have declared : usage ∈ workspace.table.declarationsAt symbol.address := SymbolTable.declarationsAt_of_found here ▸ declares
  have stores : SymbolTable.Stores (registerLayout {} layout scanned).2.table workspace.table usage.location.uri target := by
    refine ⟨symbol.address, schema, ?_, SymbolTable.mem_targetsAt.mpr ⟨symbol, here, stored⟩⟩
    by_cases atKey : symbol.address.path.length = 1
    · obtain ⟨key, path⟩ := List.length_eq_one_iff.mp atKey
      have address : symbol.address = .schema key := by rw [SymbolPath.schema, ← schema, ← path]
      rw [address] at declared ⊢
      exact .inl ⟨rfl, (tidy.owned key usage declared entered).zone traceable.entries⟩
    · exact .inr ⟨atKey, usage, declared, rfl⟩
  obtain ⟨⟨key, rfl⟩, traces⟩ := traceable.traced _ _ (untouched.session.reachable.idle.progress _) stores
  have definedAt : definition ∈ workspace.table.declarationsAt (.schema key) := by
    rw [SymbolTable.declarationsAt_of_found found]
    exact List.mem_filter.mpr ⟨defines, by rw [kind]; rfl⟩
  have zone := (tidy.owned key definition definedAt (by rw [kind]; decide)).zone traceable.entries
  obtain ⟨uri, among, reaches⟩ := traces _ zone
  obtain rfl := List.mem_singleton.mp among
  exact reaches.mem_invalidate

def chainFiles : FileTree := ⟨[(["a.sdoc"], .file .empty), (["b.sdoc"], .file .empty), (["c.sdoc"], .file .empty)]⟩

def chainWorkspace : Workspace :=
  { table := Layout.register {} [(⟨["a"]⟩, "file:///a.sdoc"), (⟨["b"]⟩, "file:///b.sdoc"), (⟨["c"]⟩, "file:///c.sdoc")]
    documents :=
      { opened := [⟨"file:///a.sdoc", 1, "use ::b::C; struct A { next: [C] }"⟩, ⟨"file:///b.sdoc", 1, "export use ::c::C;"⟩,
          ⟨"file:///c.sdoc", 1, "use ::a::A; struct C {}"⟩] } }

theorem registerLayout_chain : (registerLayout {} pairLayout chainFiles).2 = { chainWorkspace with documents := {} } := by
  have below : chainFiles.below [] = chainFiles.entries := List.mergeSort_of_pairwise (by decide +kernel)
  have root : chainFiles.resolve? pairLayout.sourceRoot = some [] := by decide +kernel
  have entry : chainFiles.get? pairLayout.sourceRoot = some .directory := by rw [FileTree.get?, root]; rfl
  have paths : pairLayout.discover chainFiles = ["/a.sdoc", "/b.sdoc", "/c.sdoc"] := by
    rw [Layout.discover, root]
    simp only [entry, below]
    decide +kernel
  have modules : pairLayout.modulesOf ["/a.sdoc", "/b.sdoc", "/c.sdoc"] =
      [(⟨["a"]⟩, "file:///a.sdoc"), (⟨["b"]⟩, "file:///b.sdoc"), (⟨["c"]⟩, "file:///c.sdoc")] := by decide +kernel
  rw [registerLayout, Layout.scan, paths, modules]
  rfl

theorem moduleUris_chain {module : ModulePath} {first second : String}
    (one : (module, first) ∈ (registerLayout {} pairLayout chainFiles).2.table.moduleUris)
    (two : (module, second) ∈ (registerLayout {} pairLayout chainFiles).2.table.moduleUris) : first = second := by
  have modules : (registerLayout {} pairLayout chainFiles).2.table.moduleUris =
      [(⟨["a"]⟩, "file:///a.sdoc"), (⟨["b"]⟩, "file:///b.sdoc"), (⟨["c"]⟩, "file:///c.sdoc")] := by
    rw [registerLayout_chain]
    decide +kernel
  rw [modules] at one two
  simp only [List.mem_cons, List.not_mem_nil, or_false, Prod.mk.injEq] at one two
  rcases one with ⟨rfl, rfl⟩ | ⟨rfl, rfl⟩ | ⟨rfl, rfl⟩ <;> simpa [eq_comm] using two

/-- The check of `::a` asked for nothing but `::b`, and the way back from `::c` is a circle. -/
theorem invalidate_marks_storers_chain :
    let workspace := (chainWorkspace.checkAll {}).2
    Untouched {} pairLayout chainFiles workspace ∧
      workspace.dependencies? "file:///a.sdoc" = some ["file:///b.sdoc"] ∧
      (∃ symbol ∈ workspace.table.symbols, symbol.address = ⟨.schema, ["::a::A", "next"]⟩ ∧
        symbol.targets = [.schema "::c::C"] ∧ symbol.declarations.map (fun usage => usage.location.uri) = ["file:///a.sdoc"]) ∧
      "file:///a.sdoc" ∈ (workspace.invalidate "file:///c.sdoc").1 := by
  intro workspace
  have untouched : Untouched {} pairLayout chainFiles workspace := by
    have new : Untouched {} pairLayout chainFiles _ := .new chainWorkspace.documents
    rw [newWorkspace, registerLayout_chain] at new
    exact new.checkAll
  have stored : ∃ symbol ∈ workspace.table.symbols, symbol.address = ⟨.schema, ["::a::A", "next"]⟩ ∧
      symbol.targets = [.schema "::c::C"] ∧
      symbol.declarations.map (fun usage => usage.location.uri) = ["file:///a.sdoc"] ∧
      ∃ usage ∈ symbol.declarations, usage.kind = .definition ∧ usage.location.uri = "file:///a.sdoc" := by decide +kernel
  have defined : ∃ type ∈ workspace.table.symbols, type.address = .schema "::c::C" ∧
      ∃ definition ∈ type.usages, definition.kind = .definition ∧ definition.location.uri = "file:///c.sdoc" := by
    decide +kernel
  obtain ⟨symbol, member, address, targets, places, usage, declares, entered, here⟩ := stored
  obtain ⟨type, listed, there, definition, defines, kind, other⟩ := defined
  have found : workspace.table.lookup? (.schema "::c::C") = some type :=
    there ▸ SymbolTable.lookup?_of_mem untouched.session.reachable.exact.sorted listed
  have among : .schema "::c::C" ∈ symbol.targets := targets ▸ List.mem_singleton_self _
  have marked := invalidate_marks_storers moduleUris_chain untouched member (by rw [address]) declares
    (by rw [entered]; decide) among found defines kind
  rw [here, other] at marked
  exact ⟨untouched, by decide +kernel, ⟨symbol, member, address, targets, places⟩, marked⟩

end Workspace

end SchemaDoc
