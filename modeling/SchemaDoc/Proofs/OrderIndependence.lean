import Mathlib.Data.List.Chain
import Mathlib.Data.List.Perm.Subperm
import Mathlib.Data.Nat.Find
import SchemaDoc.Proofs.FreshOutcomes

/-! Checking does not depend on order or history. Between edits every check leaves the workspace coherent. An
edit marks the documents whose outcome it may change: what stays checked reaches none of them, so that its
outcome is the same at the moment before and at the moment after. In the end all that is checked has its
outcome at the last moment, as it has in a workspace where everything is checked for the first time. -/

namespace SchemaDoc

open Relation (ReflTransGen TransGen)

namespace Workspace

/-- A project whose documents are all there, each the only one of its module, without inject clauses, and
refer to each other in chains that end before loads get too deep. -/
structure Orderly (setup : Setup) (workspace : Workspace) : Prop where
  available : ∀ uri ∈ workspace.moduleDocuments, ∃ document, provided setup workspace uri = .ok document
  distinct : ∀ {module first second}, (module, first) ∈ workspace.table.moduleUris →
    (module, second) ∈ workspace.table.moduleUris → first = second
  uninjected : ∀ uri ∈ workspace.moduleDocuments, ∀ document, provided setup workspace uri = .ok document →
    ∀ clause ∈ (parse document.text setup.trailing).node.children, clause.kind ≠ .injectClause
  acyclic : ∀ uri, ¬TransGen (Refers setup workspace) uri uri
  shallow : ∀ chain : List String, chain.Nodup → (∀ uri ∈ chain, uri ∈ workspace.moduleDocuments) →
    chain.IsChain (Refers setup workspace) → chain.length ≤ setup.limits.maxLoadDepth

theorem mem_moduleDocuments {workspace : Workspace} {uri : String} :
    uri ∈ workspace.moduleDocuments ↔ ∃ module, workspace.table.moduleOfUri? uri = some module := by
  constructor
  · intro member
    obtain ⟨⟨module, _⟩, listed, rfl⟩ := List.mem_map.mp member
    exact Option.isSome_iff_exists.mp (SymbolTable.isSome_moduleOfUri? listed)
  · rintro ⟨module, home⟩
    exact List.mem_map.mpr ⟨_, SymbolTable.mem_moduleUris_of_moduleOfUri? home, rfl⟩

/-- Along a chain no document comes back. -/
theorem Orderly.nodup {setup : Setup} {workspace : Workspace} (orderly : Orderly setup workspace) {chain : List String}
    (refers : chain.IsChain (Refers setup workspace)) : chain.Nodup := by
  have further : chain.IsChain (TransGen (Refers setup workspace)) := refers.imp fun _ _ => .single
  refine further.pairwise.imp ?_
  rintro uri _ circle rfl
  exact orderly.acyclic uri circle

/-- A chain that goes on for `count` documents below `uri`. -/
def ChainBelow (setup : Setup) (workspace : Workspace) (uri : String) (count : Nat) : Prop :=
  ∃ rest : List String, rest.length = count ∧ (uri :: rest).IsChain (Refers setup workspace) ∧
    ∀ other ∈ rest, other ∈ workspace.moduleDocuments

theorem Orderly.lt_of_chainBelow {setup : Setup} {workspace : Workspace} (orderly : Orderly setup workspace)
    {uri : String} {count : Nat} (listed : uri ∈ workspace.moduleDocuments)
    (below : ChainBelow setup workspace uri count) : count < setup.limits.maxLoadDepth := by
  obtain ⟨rest, rfl, refers, members⟩ := below
  exact orderly.shallow (uri :: rest) (orderly.nodup refers) (List.forall_mem_cons.mpr ⟨listed, members⟩) refers

theorem Refers.mem_moduleDocuments {setup : Setup} {workspace : Workspace} {uri other : String}
    (refers : Refers setup workspace uri other) : other ∈ workspace.moduleDocuments := by
  obtain ⟨_, _, _, goal, _, _, _, implemented, _⟩ := refers
  exact List.mem_map.mpr ⟨_, SymbolTable.mem_moduleUris_of_uriOfModule? implemented, rfl⟩

/-- The rank of a document: how long the chains below it are. -/
theorem Orderly.exists_rank {setup : Setup} {workspace : Workspace} (orderly : Orderly setup workspace) :
    ∃ rank : String → Nat, (∀ {uri other}, Refers setup workspace uri other → rank other < rank uri) ∧
      ∀ uri ∈ workspace.moduleDocuments, rank uri < setup.limits.maxLoadDepth := by
  classical
  let rank (uri : String) : Nat := Nat.findGreatest (ChainBelow setup workspace uri) setup.limits.maxLoadDepth
  have longest : ∀ uri, ChainBelow setup workspace uri (rank uri) := fun uri =>
    Nat.findGreatest_spec (Nat.zero_le _) ⟨[], rfl, .singleton uri, by simp⟩
  refine ⟨rank, ?_, fun uri listed => orderly.lt_of_chainBelow listed (longest uri)⟩
  intro uri other refers
  have registered := refers.mem_moduleDocuments
  obtain ⟨rest, length, chain, members⟩ := longest other
  have longer : ChainBelow setup workspace uri (rank other + 1) := by
    refine ⟨other :: rest, by simp [length], ?_, List.forall_mem_cons.mpr ⟨registered, members⟩⟩
    exact List.isChain_cons_cons.mpr ⟨refers, chain⟩
  exact Nat.le_findGreatest (orderly.lt_of_chainBelow registered (longest other)) longer

/-- A project in order is a moment of it. -/
theorem Orderly.exists_moment {base : Setup} {files : FileTree} {origin : SymbolTable} {workspace : Workspace}
    (orderly : Orderly (base.over files) workspace) (ground : Groundwork origin)
    (laid : Laid origin workspace.table) :
    ∃ moment : Moment base origin, moment.files = files ∧ moment.documents = workspace.documents := by
  obtain ⟨rank, falls, shallow⟩ := orderly.exists_rank
  have listed : ∀ {uri module}, origin.moduleOfUri? uri = some module → uri ∈ workspace.moduleDocuments :=
    fun {uri module} home => mem_moduleDocuments.mpr ⟨module, (laid.moduleOfUri? uri).trans home⟩
  have downwards : ∀ {uri other}, Refers (base.over files) (opening origin workspace.documents) uri other →
      rank other < rank uri := by
    rintro uri other ⟨module, document, path, goal, home, provides, leads, implemented, apart⟩
    refine falls ⟨module, document, path, goal, (laid.moduleOfUri? uri).trans home, provides, leads, ?_, apart⟩
    exact (laid.uriOfModule? ground goal.module).trans implemented
  exact ⟨⟨files, workspace.documents, rank, ground, fun home => orderly.available _ (listed home),
    fun home => orderly.uninjected _ (listed home) _, downwards, fun home => shallow _ (listed home)⟩, rfl, rfl⟩

/-- A new workspace that knows the layout and has documents. -/
def newWorkspace (layout : Layout) (scanned : FileTree) (documents : Documents) : Workspace :=
  { (registerLayout {} layout scanned).2 with documents }

structure LaidAlone (table : SymbolTable) : Prop where
  sorted : Sorted table.symbols
  usages : ∀ address, ∀ usage ∈ table.usagesAt address, (∃ uri, usage = SymbolTable.implementation uri) ∧
    ∃ path : ModulePath, path.Plain ∧ address = .schema path.display
  aliases : ∀ address, table.aliasAt address = none

theorem laidAlone_register {modules : List (ModulePath × String)} (plain : ∀ entry ∈ modules, entry.1.Plain) :
    LaidAlone (Layout.register {} modules) := by
  refine Layout.register_induction (motive := LaidAlone) ?_ ?_
  · exact ⟨.nil, fun _ _ member => absurd member List.not_mem_nil, fun _ => rfl⟩
  · intro table laid entry registered
    constructor
    case sorted => exact SymbolTable.sorted_registerModule laid.sorted entry.1 entry.2
    case usages =>
      intro address usage member
      rcases SymbolTable.mem_usagesAt_registerModule laid.sorted member with earlier | ⟨here, rfl⟩
      · exact laid.usages address usage earlier
      · exact ⟨⟨entry.2, rfl⟩, entry.1, plain entry registered, here⟩
    case aliases =>
      intro address
      rw [SymbolTable.aliasAt_registerModule laid.sorted, laid.aliases]

/-- A layout lays the ground. -/
theorem groundwork_register {modules : List (ModulePath × String)} (plain : ∀ entry ∈ modules, entry.1.Plain)
    (distinct : ∀ {module first second}, (module, first) ∈ (Layout.register {} modules).moduleUris →
      (module, second) ∈ (Layout.register {} modules).moduleUris → first = second) :
    Groundwork (Layout.register {} modules) := by
  have laid := laidAlone_register plain
  exact ⟨laid.sorted, fun address usage member => (laid.usages address usage member).1,
    fun address usage member => (laid.usages address usage member).2, laid.aliases, distinct⟩

/-- What an edit marks: the document, and all that depend on what is marked. -/
theorem invalidate_closed (workspace : Workspace) (uri : String) :
    uri ∈ (workspace.invalidate uri).1 ∧ ∀ other errors dependencies,
      workspace.outcome? other = some (errors, dependencies) →
      (∃ asked ∈ dependencies, asked ∈ (workspace.invalidate uri).1) → other ∈ (workspace.invalidate uri).1 := by
  have spreading := Records.spreading_invalidateFrom workspace.records uri
  refine ⟨spreading.mem_iff.mpr .refl, fun other errors dependencies outcome ⟨asked, among, marked⟩ => ?_⟩
  obtain ⟨record, known, same⟩ := Option.map_eq_some_iff.mp outcome
  cases same
  obtain ⟨_, _, records, _⟩ := List.lookup_eq_some_iff.mp known
  have depends : other ∈ workspace.records.dependents asked :=
    Records.mem_dependents.mpr ⟨record, by simp [records], among⟩
  exact spreading.mem_iff.mpr ((spreading.mem_iff.mp marked).head depends)

/-- What is checked behind an edit was not marked. -/
theorem not_mem_invalidate {setup : Setup} {workspace : Workspace} {uri other : String}
    (current : (workspace.invalidate uri).2.Current setup other) : other ∉ (workspace.invalidate uri).1 := by
  intro marked
  obtain ⟨document, record, _, known, checked⟩ := current
  rw [record?_invalidate, if_pos marked] at known
  obtain ⟨earlier, _, rfl⟩ := Option.map_eq_some_iff.mp known
  cases (FileRecord.state_of_isCurrent checked).1

end Workspace

namespace Moment

open Workspace

variable {base : Setup} {origin : SymbolTable} {moment moment' : Moment base origin} {workspace : Workspace}

/-- What is checked and not marked asks for nothing that is marked. -/
theorem Coherent.unmarked (coherent : moment.Coherent workspace) {marked : List String}
    (closed : ∀ uri errors dependencies, workspace.outcome? uri = some (errors, dependencies) →
      (∃ asked ∈ dependencies, asked ∈ marked) → uri ∈ marked)
    {uri other : String} (registered : moment.Registers uri) (current : workspace.Current moment.setup uri)
    (outside : uri ∉ marked) (reached : ReflTransGen moment.Asks uri other) : other ∉ marked := by
  induction reached with
  | refl => exact outside
  | tail earlier asks ih =>
    intro inside
    obtain ⟨also, checked⟩ := coherent.asked registered current earlier
    obtain ⟨errors, dependencies, outcome, member⟩ := asks
    exact ih (closed _ _ _ ((coherent.outcomes also checked).outcome.trans outcome) ⟨_, member, inside⟩)

/-- An edit that is made known leaves a workspace that is coherent at the next moment. -/
theorem Coherent.edit (coherent : moment.Coherent workspace) {uri : String}
    (others : ∀ other ≠ uri, provided moment'.setup moment'.start other = provided moment.setup moment.start other)
    {edited : Workspace} (changed : edited = { workspace with documents := moment'.documents }) :
    moment'.Coherent (edited.invalidate uri).2 := by
  obtain ⟨listed, closed⟩ := edited.invalidate_closed uri
  have table : (edited.invalidate uri).2.table = workspace.table := changed ▸ rfl
  have same : ∀ {other}, other ∉ (edited.invalidate uri).1 →
      (edited.invalidate uri).2.record? other = workspace.record? other := by
    intro other outside
    rw [record?_invalidate, if_neg outside, changed]
    rfl
  have provides : ∀ other, provided moment'.setup (edited.invalidate uri).2 other =
      provided moment'.setup moment'.start other := fun _ => changed ▸ rfl
  have given : ∀ {other}, other ∉ (edited.invalidate uri).1 →
      provided moment'.setup (edited.invalidate uri).2 other = provided moment.setup workspace other := by
    intro other outside
    have apart : other ≠ uri := fun here => outside (here ▸ listed)
    rw [provides, others other apart, coherent.provides]
  have before : ∀ {other}, (edited.invalidate uri).2.Current moment'.setup other →
      workspace.Current moment.setup other := by
    intro other current
    have outside := not_mem_invalidate current
    obtain ⟨document, record, provided, known, checked⟩ := current
    exact ⟨document, record, given outside ▸ provided, same outside ▸ known, checked⟩
  have reaches : ∀ {other}, moment.Registers other → (edited.invalidate uri).2.Current moment'.setup other →
      ∀ owner, ReflTransGen moment.Asks other owner → owner ∉ (edited.invalidate uri).1 := by
    intro other registered current owner
    refine coherent.unmarked ?_ registered (before current) (not_mem_invalidate current)
    rw [changed] at closed ⊢
    exact closed
  have agrees : ∀ {other}, moment.Registers other → (edited.invalidate uri).2.Current moment'.setup other →
      SameOutcome origin other (moment.fresh other) (moment'.fresh other) := by
    intro other registered current
    refine sameOutcome_of_texts registered fun owner reached => ?_
    rw [others owner]
    rintro rfl
    exact reaches registered current owner reached listed
  constructor
  case laid => exact table ▸ coherent.laid
  case provides => exact provides
  case outcomes =>
    intro other registered current
    refine SameOutcome.trans ⟨?_, fun address _ => by rw [table]⟩
      ((coherent.outcomes registered (before current)).trans (agrees registered current))
    rw [outcome?, same (not_mem_invalidate current)]
    rfl
  case closed =>
    intro other asked registered current asks
    obtain ⟨errors, dependencies, outcome, member⟩ := asks
    have asks : moment.Asks other asked :=
      ⟨errors, dependencies, (agrees registered current).outcome.trans outcome, member⟩
    obtain ⟨also, document, record, provided, known, checked⟩ := coherent.closed registered (before current) asks
    have outside := reaches registered current asked (.single asks)
    exact ⟨also, document, record, given outside ▸ provided, same outside ▸ known, checked⟩

theorem Coherent.check_stranger (coherent : moment.Coherent workspace) {document : TextDocument}
    (stranger : origin.moduleOfUri? document.uri = none) (needs : Needs moment.setup workspace document.uri document)
    (load : Loader) : moment.Coherent
      (checkDocument load moment.setup (Workspace.fetch moment.setup workspace document.uri).2.enter document).leave := by
  have apart : ∀ {other}, moment.Registers other → other ≠ document.uri := by
    rintro other ⟨module, home⟩ rfl
    cases stranger.symm.trans home
  obtain ⟨_, _, advances⟩ := (Underway.start needs).advances
  have table := moment.taken_table workspace document
  have laid := coherent.laid.clearUri moment.ground document.uri
  have nowhere : moduleOf (moment.taken workspace document).table document.uri =
      (none, [.ofMessage .undefinedModuleSegment [] (.point 0)]) := by
    rw [table, moduleOf, laid.moduleOfUri?, stranger]
  have others : ∀ {other}, moment.Registers other → ((moment.taken workspace document).conclude document.uri
      (parse document.text moment.setup.trailing).node [.ofMessage .undefinedModuleSegment [] (.point 0)]
      []).leave.record? other = workspace.record? other := by
    intro other registered
    refine (record?_conclude _ _ _ _ _ other).trans ((if_neg (apart registered)).trans ?_)
    exact moment.taken_record? workspace (apart registered)
  rw [taken] at nowhere
  rw [checkDocument]
  dsimp only
  rw [nowhere]
  refine coherent.congr ?_ advances.provides (fun _ registered _ => others registered) ?_ ?_
  · change Laid origin (moment.taken workspace document).table
    exact table ▸ laid
  · intro other address _ zone
    change (moment.taken workspace document).table.viewAt address = _
    obtain ⟨module, _, _, home, _⟩ := id zone
    rw [table]
    exact coherent.laid.viewAt_clearUri_other moment.ground (apart ⟨module, home⟩) zone
  · exact fun other registered current => current.congr (advances.provides other) (others registered)

theorem Coherent.load_stranger (coherent : moment.Coherent workspace) {uri : String}
    (stranger : origin.moduleOfUri? uri = none) (budget : Nat) :
    moment.Coherent (loadWithin moment.setup budget workspace uri).2 := by
  have once : ∀ load isAllowed, moment.Coherent (loadOnce load moment.setup isAllowed workspace uri).2 := by
    intro load isAllowed
    simp only [loadOnce, admission_eq]
    cases verdict : judge uri (provided moment.setup workspace uri) (workspace.record? uri) with
    | settled error => exact (coherent.fetch uri).1
    | admitted document =>
      cases isAllowed with
      | false => exact (coherent.fetch uri).1
      | true =>
        have needs := judge_admitted verdict
        obtain rfl := provided_uri needs.provides
        exact coherent.check_stranger stranger needs load
  cases budget with
  | zero =>
    rw [loadWithin_zero fun workspace _ => (none, workspace)]
    exact once _ false
  | succ budget =>
    rw [loadWithin_succ]
    exact once _ true

theorem Coherent.ensureChecked (coherent : moment.Coherent workspace) (idle : workspace.Idle base.trailing)
    (uri : String) : moment.Coherent (Workspace.ensureChecked moment.setup workspace uri).2 ∧
      (moment.Registers uri → (Workspace.ensureChecked moment.setup workspace uri).1 = none ∧
        (Workspace.ensureChecked moment.setup workspace uri).2.Current moment.setup uri) := by
  rw [Workspace.ensureChecked, idle.depth]
  cases home : origin.moduleOfUri? uri with
  | none =>
    refine ⟨coherent.load_stranger home _, ?_⟩
    rintro ⟨module, found⟩
    cases home.symm.trans found
  | some module =>
    obtain ⟨_, answers⟩ := moment.answers_and_sound ⟨module, home⟩
    obtain ⟨answer, leaves⟩ := answers _ (moment.shallow home) workspace coherent fun other progress =>
      absurd progress (idle.progress other)
    exact ⟨leaves.coherent, fun _ => ⟨answer, leaves.current⟩⟩

/-- In a coherent workspace all documents can be checked one after another. -/
theorem Coherent.checkUris (coherent : moment.Coherent workspace) (idle : workspace.Idle base.trailing)
    {uris : List String} (registered : ∀ uri ∈ uris, moment.Registers uri) :
    (workspace.checkUris moment.setup uris).1 = uris.map (·, none) ∧
      moment.Coherent (workspace.checkUris moment.setup uris).2 ∧
      (workspace.checkUris moment.setup uris).2.Idle base.trailing ∧
      ∀ uri ∈ uris, (workspace.checkUris moment.setup uris).2.Current moment.setup uri := by
  have fold : ∀ (uris : List String) (state : List (String × Option LoadError) × Workspace),
      (∀ uri ∈ uris, moment.Registers uri) → moment.Coherent state.2 → state.2.Idle base.trailing →
      let after := uris.foldl (fun state uri => (state.1 ++ [(uri, (Workspace.ensureChecked moment.setup state.2 uri).1)],
        (Workspace.ensureChecked moment.setup state.2 uri).2)) state
      after.1 = state.1 ++ uris.map (·, none) ∧ moment.Coherent after.2 ∧ after.2.Idle base.trailing ∧
        ∀ uri, uri ∈ uris ∨ state.2.Current moment.setup uri → after.2.Current moment.setup uri := by
    intro uris
    induction uris with
    | nil => exact fun state _ coherent idle => ⟨by simp, coherent, idle, fun uri checked => by simpa using checked⟩
    | cons uri uris ih =>
      intro state registered coherent idle
      rw [List.forall_mem_cons] at registered
      obtain ⟨onward, checks⟩ := coherent.ensureChecked idle uri
      obtain ⟨answer, current⟩ := checks registered.1
      have loads : Loads moment.setup state.2 (Workspace.ensureChecked moment.setup state.2 uri).2 :=
        loadWithin_loads moment.setup _ state.2 uri
      have idle : state.2.Idle moment.setup.trailing := idle
      obtain ⟨results, last, still, checked⟩ := ih (state.1 ++ [(uri, (Workspace.ensureChecked moment.setup
        state.2 uri).1)], _) registered.2 onward (idle.loads loads)
      refine ⟨?_, last, still, fun other among => checked other ?_⟩
      · refine results.trans ?_
        rw [answer, List.append_assoc]
        rfl
      · rw [List.mem_cons, or_assoc] at among
        rcases among with rfl | later | earlier
        · exact .inr current
        · exact .inl later
        · exact .inr (earlier.loads loads).2
  obtain ⟨results, last, still, checked⟩ := fold uris ([], workspace) registered coherent idle
  exact ⟨results.trans (List.nil_append _), last, still, fun uri member => checked uri (.inl member)⟩

/-- Other copies of the same texts make no difference to the order of a project. -/
theorem exists_copy (moment : Moment base origin) {files : FileTree} {documents : Documents}
    (texts : ∀ uri, moment.Registers uri →
      (provided (base.over files) (opening origin documents) uri).map TextDocument.text =
        (provided moment.setup moment.start uri).map TextDocument.text) :
    ∃ copy : Moment base origin, copy.files = files ∧ copy.documents = documents := by
  have original : ∀ {uri module document}, origin.moduleOfUri? uri = some module →
      provided (base.over files) (opening origin documents) uri = .ok document →
      ∃ other, provided moment.setup moment.start uri = .ok other ∧ other.uri = document.uri ∧
        other.text = document.text := by
    intro uri module document home provides
    obtain ⟨other, given⟩ := moment.available home
    have same := texts uri ⟨module, home⟩
    change provided moment.setup moment.start uri = .ok other at given
    rw [provides, given] at same
    exact ⟨other, given, (provided_uri given).trans (provided_uri provides).symm, (Except.ok.inj same).symm⟩
  have available : ∀ {uri module}, origin.moduleOfUri? uri = some module →
      ∃ document, provided (base.over files) (opening origin documents) uri = .ok document := by
    intro uri module home
    obtain ⟨other, given⟩ := moment.available home
    have same := texts uri ⟨module, home⟩
    change provided moment.setup moment.start uri = .ok other at given
    rw [given] at same
    cases provides : provided (base.over files) (opening origin documents) uri with
    | ok document => exact ⟨document, rfl⟩
    | error failure =>
      rw [provides] at same
      cases same
  refine ⟨⟨files, documents, moment.rank, moment.ground, available, ?_, ?_, moment.shallow⟩, rfl, rfl⟩
  · intro uri module document home provides
    obtain ⟨other, given, _, text⟩ := original home provides
    exact text ▸ moment.uninjected home given
  · rintro uri other ⟨module, document, path, goal, home, provides, leads, implemented, apart⟩
    obtain ⟨twin, given, named, text⟩ := original home provides
    have pass : passOf base twin module = passOf base document module := by rw [passOf, passOf, named, text]
    exact moment.falls ⟨module, twin, path, goal, home, given, pass ▸ leads, implemented, apart⟩

end Moment

namespace Workspace

/-- Checks and edits from a new workspace on, each edit made known at once, with the project in order all
the time. An edit may be one of an open document or of its file. -/
inductive Run (base : Setup) (layout : Layout) (scanned : FileTree) : FileTree → Workspace → Prop where
  | new (files : FileTree) (documents : Documents)
      (orderly : Orderly (base.over files) (newWorkspace layout scanned documents)) :
      Run base layout scanned files (newWorkspace layout scanned documents)
  | check {files workspace} (earlier : Run base layout scanned files workspace) (uri : String) :
      Run base layout scanned files (ensureChecked (base.over files) workspace uri).2
  | edit {files workspace} (earlier : Run base layout scanned files workspace) (uri : String) (changed : FileTree)
      (documents : Documents)
      (others : ∀ other ≠ uri, provided (base.over changed) { workspace with documents } other =
        provided (base.over files) workspace other)
      (orderly : Orderly (base.over changed) { workspace with documents }) :
      Run base layout scanned changed (({ workspace with documents } : Workspace).invalidate uri).2

def UpToDate (setup : Setup) (workspace : Workspace) : Prop :=
  ∀ uri, workspace.isChecked uri = true → workspace.Current setup uri

theorem isChecked_iff {workspace : Workspace} {uri : String} :
    workspace.isChecked uri = true ↔ ∃ record, workspace.record? uri = some record ∧ record.state = .checked := by
  rw [isChecked, state, beq_iff_eq]
  cases workspace.record? uri with
  | none => simp
  | some record => simp

theorem UpToDate.loads {setup : Setup} {before after : Workspace} (upToDate : before.UpToDate setup)
    (loads : Loads setup before after) : after.UpToDate setup := by
  intro uri checked
  obtain ⟨taken, advances⟩ := loads.advances
  by_cases member : uri ∈ taken
  · refine (advances.settled uri member).resolve_left fun progress => ?_
    obtain ⟨record, known, state⟩ := isChecked_iff.mp checked
    obtain ⟨other, found, going⟩ := inProgress_iff.mp progress
    cases known.symm.trans found
    rw [state] at going
    cases going
  · have same := advances.records uri member
    refine (upToDate uri ?_).congr (advances.provides uri) same
    rwa [isChecked_iff, same, ← isChecked_iff] at checked

theorem UpToDate.edit {setup after : Setup} {workspace : Workspace} (upToDate : workspace.UpToDate setup) {uri : String}
    {documents : Documents} (others : ∀ other ≠ uri, provided after { workspace with documents } other =
      provided setup workspace other) :
    (({ workspace with documents } : Workspace).invalidate uri).2.UpToDate after := by
  intro other checked
  obtain ⟨record, known, state⟩ := isChecked_iff.mp checked
  rw [record?_invalidate] at known
  split at known
  · obtain ⟨earlier, _, rfl⟩ := Option.map_eq_some_iff.mp known
    cases state
  · next outside =>
    have apart : other ≠ uri := by
      rintro rfl
      exact outside (invalidate_closed _ other).1
    obtain ⟨document, found, provides, here, current⟩ := upToDate other (isChecked_iff.mpr ⟨record, known, state⟩)
    refine ⟨document, found, (others other apart).trans provides, ?_, current⟩
    rw [record?_invalidate, if_neg outside]
    exact here

theorem record?_opening (table : SymbolTable) (documents : Documents) (uri : String) :
    (opening table documents).record? uri = none := rfl

theorem idle_opening (trailing : TrailingPolicy) (table : SymbolTable) (documents : Documents) :
    (opening table documents).Idle trailing :=
  ⟨rfl, fun uri => by simp [inProgress_iff, record?_opening], fun uri record known => by simp [record?_opening] at known⟩

/-- Throughout a run the workspace is coherent at the moment that the run has come to. -/
theorem Run.coherent {base : Setup} {layout : Layout} {scanned files : FileTree} {workspace : Workspace}
    (run : Run base layout scanned files workspace) :
    ∃ moment : Moment base (registerLayout {} layout scanned).2.table, moment.files = files ∧
      moment.Coherent workspace ∧ workspace.Idle base.trailing ∧ workspace.UpToDate (base.over files) := by
  induction run with
  | new files documents orderly =>
    have ground : Groundwork (registerLayout {} layout scanned).2.table :=
      groundwork_register (fun entry member => Layout.plain_of_modulesOf member) orderly.distinct
    obtain ⟨moment, rfl, held⟩ := orderly.exists_moment ground (Laid.refl ground)
    have start : moment.start = newWorkspace layout scanned documents := congrArg (opening _) held
    rw [← start]
    refine ⟨moment, rfl, .start moment, idle_opening base.trailing _ _, fun uri checked => ?_⟩
    obtain ⟨record, known, _⟩ := isChecked_iff.mp checked
    cases known
  | @check files workspace _ uri ih =>
    obtain ⟨moment, rfl, coherent, idle, upToDate⟩ := ih
    have loads : Loads moment.setup workspace (ensureChecked moment.setup workspace uri).2 :=
      loadWithin_loads moment.setup _ workspace uri
    have resting : workspace.Idle moment.setup.trailing := idle
    exact ⟨moment, rfl, (coherent.ensureChecked idle uri).1, resting.loads loads, upToDate.loads loads⟩
  | @edit files workspace _ uri changed documents others orderly ih =>
    obtain ⟨moment, rfl, coherent, idle, upToDate⟩ := ih
    obtain ⟨next, rfl, held⟩ := orderly.exists_moment moment.ground coherent.laid
    have idle : ({ workspace with documents } : Workspace).Idle base.trailing :=
      ⟨idle.depth, idle.progress, idle.faithful⟩
    refine ⟨next, rfl, ?_, idle.invalidate uri, upToDate.edit others⟩
    refine coherent.edit (fun other apart => ?_) (by rw [held])
    have same := (others other apart).trans (coherent.provides other)
    rw [← same, Moment.start, held]
    rfl

theorem mem_sortedUnique {uri : String} {uris : List String} : uri ∈ sortedUnique uris ↔ uri ∈ uris := by
  have fold : ∀ (uris sorted : List String),
      uri ∈ uris.foldl (fun sorted text => Scope.insertUri text sorted) sorted ↔ uri ∈ uris ∨ uri ∈ sorted := by
    intro uris
    induction uris with
    | nil => simp
    | cons first rest ih =>
      intro sorted
      rw [List.foldl_cons, ih, Scope.mem_insertUri, List.mem_cons]
      grind
  simpa [sortedUnique] using fold uris []

theorem diagnostics_congr {trailing : TrailingPolicy} {setup setup' : Setup} {left right : Workspace} {uri : String}
    (faithful : left.Faithful trailing) (faithful' : right.Faithful trailing) (current : left.Current setup uri)
    (current' : right.Current setup' uri)
    (text : (provided setup' right uri).map TextDocument.text = (provided setup left uri).map TextDocument.text)
    (outcome : left.outcome? uri = right.outcome? uri) : left.diagnostics uri = right.diagnostics uri := by
  obtain ⟨document, record, provides, known, checked⟩ := current
  obtain ⟨document', record', provides', known', checked'⟩ := current'
  rw [provides, provides'] at text
  have texts : record.text = record'.text := by
    rw [(FileRecord.state_of_isCurrent checked).2.2, (FileRecord.state_of_isCurrent checked').2.2]
    exact (Except.ok.inj text).symm
  have parseErrors : record.parseErrors = record'.parseErrors := by
    rw [(faithful uri record known).1, (faithful' uri record' known').1, texts]
  rw [outcome?, outcome?, known, known'] at outcome
  obtain ⟨errors, _⟩ := Prod.mk.inj (Option.some.inj outcome)
  rw [diagnostics, diagnostics, known, known']
  dsimp only
  rw [parseErrors, errors]

/-- Checking is independent of order and history: however a run came to have every document checked, it
reports of each what checking all documents for the first time reports, over the same texts. -/
theorem diagnostics_eq_of_checked {base : Setup} {layout : Layout} {scanned files : FileTree} {workspace : Workspace}
    (run : Run base layout scanned files workspace)
    (checked : ∀ uri ∈ workspace.moduleDocuments, workspace.isChecked uri = true)
    {others : FileTree} {documents : Documents}
    (texts : ∀ uri ∈ workspace.moduleDocuments,
      (provided (base.over others) (newWorkspace layout scanned documents) uri).map TextDocument.text =
        (provided (base.over files) workspace uri).map TextDocument.text) :
    let reported := checkAll (base.over others) (newWorkspace layout scanned documents)
    ∀ uri ∈ workspace.moduleDocuments,
      (uri, none) ∈ reported.1 ∧ workspace.diagnostics uri = reported.2.diagnostics uri := by
  intro reported
  obtain ⟨moment, rfl, coherent, idle, upToDate⟩ := run.coherent
  have registers : ∀ {uri}, uri ∈ workspace.moduleDocuments ↔ moment.Registers uri := by
    intro uri
    rw [mem_moduleDocuments, coherent.laid.moduleOfUri?]
    rfl
  have same : ∀ uri, moment.Registers uri →
      (provided (base.over others) (opening (registerLayout {} layout scanned).2.table documents) uri).map
        TextDocument.text = (provided moment.setup moment.start uri).map TextDocument.text := by
    intro uri registered
    rw [← coherent.provides uri]
    exact texts uri (registers.mpr registered)
  obtain ⟨copy, rfl, rfl⟩ := moment.exists_copy same
  have all : ∀ uri ∈ sortedUnique copy.start.moduleDocuments, copy.Registers uri :=
    fun uri member => mem_moduleDocuments.mp (mem_sortedUnique.mp member)
  obtain ⟨results, last, still, current⟩ :=
    (Moment.Coherent.start copy).checkUris (idle_opening base.trailing _ _) all
  change reported.1 = _ at results
  change copy.Coherent reported.2 at last
  intro uri listed
  have registered := registers.mp listed
  have member : uri ∈ sortedUnique copy.start.moduleDocuments :=
    mem_sortedUnique.mpr (mem_moduleDocuments.mpr registered)
  refine ⟨results ▸ List.mem_map.mpr ⟨uri, member, rfl⟩, ?_⟩
  have here := upToDate uri (checked uri listed)
  refine diagnostics_congr idle.faithful still.faithful here (current uri member) ?_ ?_
  · rw [last.provides]
    exact texts uri listed
  · have agrees : SameOutcome _ uri (moment.fresh uri) (copy.fresh uri) :=
      Moment.sameOutcome_of_texts registered fun owner reached => same owner (Moment.rank_of_reached registered reached).1
    exact (((coherent.outcomes registered here).trans agrees).trans
      (last.outcomes registered (current uri member)).symm).outcome

theorem orderly_pair {setup : Setup} {workspace : Workspace} (left right : TextDocument)
    (modules : workspace.table.moduleUris = [(⟨["a"]⟩, left.uri), (⟨["b"]⟩, right.uri)])
    (provides : provided setup workspace left.uri = .ok left ∧ provided setup workspace right.uri = .ok right)
    (uninjected : ∀ document ∈ [left, right], ∀ clause ∈ (parse document.text setup.trailing).node.children,
      clause.kind ≠ .injectClause)
    (silent : ∀ node ∈ (parse right.text setup.trailing).node.preorder, node.child? .path = none)
    (room : 2 ≤ setup.limits.maxLoadDepth) : Orderly setup workspace := by
  have documents : workspace.moduleDocuments = [left.uri, right.uri] := by rw [moduleDocuments, modules]; rfl
  have known : ∀ uri ∈ workspace.moduleDocuments, ∃ document ∈ [left, right], provided setup workspace uri = .ok document := by
    intro uri member
    rw [documents] at member
    rcases List.mem_pair.mp member with rfl | rfl
    · exact ⟨left, by simp, provides.1⟩
    · exact ⟨right, by simp, provides.2⟩
  have oneWay : ∀ {uri other}, Refers setup workspace uri other →
      uri = left.uri ∧ other = right.uri ∧ right.uri ≠ left.uri := by
    intro uri other refers
    obtain ⟨module, document, path, goal, home, given, leads, implemented, apart⟩ := id refers
    have member := mem_moduleDocuments.mpr ⟨module, home⟩
    have also := refers.mem_moduleDocuments
    rw [documents] at member also
    rcases List.mem_pair.mp member with rfl | rfl
    · obtain rfl := (List.mem_pair.mp also).resolve_left apart
      exact ⟨rfl, rfl, apart⟩
    · cases provides.2.symm.trans given
      obtain ⟨parent, inside, found⟩ := leads.onTree
      cases (silent parent inside).symm.trans found
  constructor
  case available => exact fun uri member => (known uri member).imp fun _ found => found.2
  case distinct =>
    intro module first second one two
    rw [modules] at one two
    simp only [List.mem_pair, Prod.mk.injEq] at one two
    rcases one with ⟨rfl, rfl⟩ | ⟨rfl, rfl⟩ <;> simpa [eq_comm] using two
  case uninjected =>
    intro uri member document given
    obtain ⟨other, among, same⟩ := known uri member
    cases same.symm.trans given
    exact uninjected document among
  case acyclic =>
    intro uri circle
    obtain ⟨_, first, _⟩ := TransGen.head'_iff.mp circle
    obtain ⟨_, _, last⟩ := TransGen.tail'_iff.mp circle
    exact (oneWay first).2.2 ((oneWay last).2.1.symm.trans (oneWay first).1)
  case shallow =>
    intro chain once members _
    have inside : chain ⊆ [left.uri, right.uri] := fun uri member => documents ▸ members uri member
    exact (once.subperm inside).length_le.trans room

/-- The document of `::b` loses the type that `::a` uses. -/
theorem diagnostics_eq_of_checked_edited :
    let documents : Documents :=
      { opened := [⟨"file:///a.sdoc", 1, "use ::b::B;"⟩, ⟨"file:///b.sdoc", 2, "struct C {}"⟩] }
    let first := (ensureChecked (({} : Setup).over {}) (pairWorkspace "use ::b::B;" "struct B {}") "file:///a.sdoc").2
    let edited := ({ first with documents }.invalidate "file:///b.sdoc").2
    let workspace := (ensureChecked (({} : Setup).over {}) edited "file:///a.sdoc").2
    let reported := checkAll (({} : Setup).over {}) (newWorkspace pairLayout pairFiles documents)
    Run {} pairLayout pairFiles {} workspace ∧
      (∀ uri ∈ workspace.moduleDocuments, workspace.isChecked uri = true) ∧
      workspace.moduleDocuments = ["file:///a.sdoc", "file:///b.sdoc"] ∧
      (first.diagnostics "file:///a.sdoc").length = 0 ∧ (workspace.diagnostics "file:///a.sdoc").length = 1 ∧
      ∀ uri ∈ workspace.moduleDocuments,
        (uri, none) ∈ reported.1 ∧ workspace.diagnostics uri = reported.2.diagnostics uri := by
  intro documents first edited workspace reported
  have begun : Run {} pairLayout pairFiles {} (pairWorkspace "use ::b::B;" "struct B {}") := by
    have orderly : Orderly (({} : Setup).over {}) (pairWorkspace "use ::b::B;" "struct B {}") :=
      orderly_pair ⟨"file:///a.sdoc", 1, "use ::b::B;"⟩ ⟨"file:///b.sdoc", 1, "struct B {}"⟩ (by decide +kernel) ⟨rfl, rfl⟩
        (by decide +kernel) (by decide +kernel) (by decide)
    have same : newWorkspace pairLayout pairFiles (pairWorkspace "use ::b::B;" "struct B {}").documents =
        pairWorkspace "use ::b::B;" "struct B {}" := by
      rw [newWorkspace, registerLayout_pair]
      rfl
    rw [← same] at orderly ⊢
    exact Run.new {} _ orderly
  have others : ∀ other ≠ "file:///b.sdoc", provided (({} : Setup).over {}) { first with documents } other =
      provided (({} : Setup).over {}) first other := by
    intro other apart
    obtain ⟨_, advances⟩ := (loadWithin_loads (({} : Setup).over {}) _ (pairWorkspace "use ::b::B;" "struct B {}")
      "file:///a.sdoc").advances
    refine Eq.trans ?_ (advances.provides other).symm
    refine (Documents.read_fst ..).trans (Eq.trans ?_ (Documents.read_fst ..).symm)
    simp [Documents.held?, Documents.getOpen?, Documents.find?, documents, pairWorkspace, List.find?_cons, apart.symm]
  have orderly : Orderly (({} : Setup).over {}) { first with documents } :=
    orderly_pair ⟨"file:///a.sdoc", 1, "use ::b::B;"⟩ ⟨"file:///b.sdoc", 2, "struct C {}"⟩ (by decide +kernel) ⟨rfl, rfl⟩
      (by decide +kernel) (by decide +kernel) (by decide)
  have run : Run {} pairLayout pairFiles {} workspace :=
    ((begun.check "file:///a.sdoc").edit "file:///b.sdoc" {} documents others orderly).check "file:///a.sdoc"
  have checked : ∀ uri ∈ workspace.moduleDocuments, workspace.isChecked uri = true := by decide +kernel
  refine ⟨run, checked, by decide +kernel, by decide +kernel, by decide +kernel, ?_⟩
  refine diagnostics_eq_of_checked run checked fun uri _ => ?_
  obtain ⟨_, advances⟩ := (loadWithin_loads (({} : Setup).over {}) _ edited "file:///a.sdoc").advances
  exact congrArg (Except.map TextDocument.text) (advances.provides uri).symm

end Workspace

end SchemaDoc
