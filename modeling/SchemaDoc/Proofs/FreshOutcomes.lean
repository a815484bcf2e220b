import SchemaDoc.Proofs.CoherentWorkspaces

/-! A check in a coherent workspace comes to what it would come to in a new one. Two passes over one text are
run side by side. Their own zones start alike; what they look at elsewhere lies in zones of documents that
were just loaded, or behind aliases of these, and there both workspaces show the outcomes. The induction is
on the rank: loads go to documents of lower rank. -/

namespace SchemaDoc.Moment

open Workspace
open Relation (ReflTransGen)

variable {base : Setup} {origin : SymbolTable} {moment moment' : Moment base origin}
  {document document' : TextDocument} {module : ModulePath} {before before' : Workspace} {load load' : Loader}
  {scope left right : Scope}

def Refers (moment : Moment base origin) (uri other : String) : Prop :=
  Workspace.Refers moment.setup moment.start uri other

theorem Refers.registers {uri other : String} (refers : moment.Refers uri other) : moment.Registers other := by
  obtain ⟨_, _, _, goal, _, _, _, implemented, _⟩ := refers
  have listed := SymbolTable.mem_moduleUris_of_uriOfModule? implemented
  exact Option.isSome_iff_exists.mp (SymbolTable.isSome_moduleOfUri? listed)

structure Has (moment : Moment base origin) (document : TextDocument) (module : ModulePath) : Prop where
  home : origin.moduleOfUri? document.uri = some module
  provides : provided moment.setup moment.start document.uri = .ok document

namespace Has

theorem fits (has : moment.Has document module) : (passOf base document module).Fits origin where
  home := has.home
  legible := ⟨document.text, parse_legible _ _⟩
  own := moment.uninjected has.home has.provides

theorem refers (has : moment.Has document module) {path : Node} {goal : PathTarget}
    (leads : (passOf base document module).Leads path goal) {uri : String}
    (implemented : origin.uriOfModule? goal.module = some uri) (apart : uri ≠ document.uri) :
    moment.Refers document.uri uri :=
  ⟨module, document, path, goal, has.home, has.provides, leads, implemented, apart⟩

/-- Whoever declares the goal of a path implements its module. -/
theorem owner_eq (has : moment.Has document module) {path : Node} {goal : PathTarget}
    (leads : (passOf base document module).Leads path goal) {uri owner : String}
    (implemented : goal.module = module ∧ uri = document.uri ∨ origin.uriOfModule? goal.module = some uri)
    (zone : Zone origin owner goal.address) : owner = uri := by
  obtain ⟨plain, solid, named⟩ := has.fits.goal moment.ground leads
  have listed : (goal.module, uri) ∈ origin.moduleUris := by
    rcases implemented with ⟨rfl, rfl⟩ | implemented
    · exact SymbolTable.mem_moduleUris_of_moduleOfUri? has.home
    · have listed := SymbolTable.mem_moduleUris_of_uriOfModule? implemented
      rwa [ModulePath.parse_display_of_solid plain solid] at listed
  exact moment.ground.zone_of_module plain named listed zone

end Has

/-- What a load of a document leaves behind. The zones of documents on the way are spared. -/
structure Leaves (moment : Moment base origin) (before : Workspace) (uri : String) (after : Workspace) : Prop where
  loads : Loads moment.setup before after
  coherent : moment.Coherent after
  current : after.Current moment.setup uri
  spared : ∀ {other address}, before.InProgress other → Zone origin other address →
    after.table.viewAt address = before.table.viewAt address

/-- The loader brings the document to the checked state, as long as only documents above are on the way. -/
def Answers (moment : Moment base origin) (load : Loader) (uri : String) : Prop :=
  ∀ before, moment.Coherent before → (∀ other, before.InProgress other → moment.rank uri < moment.rank other) →
    (load before uri).1 = none ∧ moment.Leaves before uri (load before uri).2

/-- A check asks only for what its document refers to, and aliases lead behind that. -/
structure Sound (moment : Moment base origin) (uri : String) : Prop where
  asked : ∀ {other}, moment.Asks uri other → moment.Refers uri other
  aliases : ∀ {address target}, Zone origin uri address →
    (moment.fresh uri).table.aliasAt address = some target → moment.Behind (moment.Asks uri) target

def taken (moment : Moment base origin) (before : Workspace) (document : TextDocument) : Workspace :=
  (fetch moment.setup before document.uri).2.enter.takeUp document (parse document.text moment.setup.trailing).errors

theorem taken_table (moment : Moment base origin) (before : Workspace) (document : TextDocument) :
    (moment.taken before document).table = before.table.clearUri document.uri :=
  table_takenUp moment.setup before document.uri document _

theorem taken_record? (moment : Moment base origin) (before : Workspace) {uri : String} (apart : uri ≠ document.uri) :
    (moment.taken before document).record? uri = before.record? uri := by
  obtain ⟨documents, fetched⟩ := fetch_snd moment.setup before document.uri
  rw [taken, record?_takeUp, if_neg apart, fetched]
  rfl

/-- The passes over a document are going on. Its own aliases lead behind the documents asked for so far. -/
structure Going (moment : Moment base origin) (before : Workspace) (document : TextDocument) (module : ModulePath)
    (scope : Scope) : Prop where
  place : scope.uri = document.uri ∧ scope.module = module
  underway : Underway moment.setup before document scope.workspace
  coherent : moment.Coherent scope.workspace
  asked : ∀ {uri}, uri ∈ scope.dependencies →
    moment.Refers document.uri uri ∧ scope.workspace.Current moment.setup uri
  aliases : ∀ {address target}, Zone origin document.uri address →
    scope.workspace.table.aliasAt address = some target → moment.Behind (· ∈ scope.dependencies) target
  waiting : ∀ {uri}, before.InProgress uri → moment.rank document.uri < moment.rank uri
  spared : ∀ {uri address}, before.InProgress uri → Zone origin uri address →
    scope.workspace.table.viewAt address = before.table.viewAt address

/-- A document that needs a check, while only documents above it are on the way. -/
structure Due (moment : Moment base origin) (before : Workspace) (document : TextDocument) (module : ModulePath) : Prop
    extends moment.Has document module where
  coherent : moment.Coherent before
  needs : Needs moment.setup before document.uri document
  waiting : ∀ {uri}, before.InProgress uri → moment.rank document.uri < moment.rank uri

def Resolves (moment : Moment base origin) (document : TextDocument) (module : ModulePath) (scope : Scope)
    (path : Node) (target : SymbolPath) : Prop :=
  (∃ segment, (pathSegments path).getLast? = some segment ∧ target = .schema (module.join segment.1) ∧
    Zone origin document.uri target ∧ Query.sees scope.workspace.table document.uri target = true) ∨
    moment.Behind (· ∈ scope.dependencies) target

namespace Going

theorem not_current (going : moment.Going before document module scope) :
    ¬scope.workspace.Current moment.setup document.uri :=
  fun current => current.not_inProgress ((going.underway.progress document.uri).mpr (.inl rfl))

theorem checked (going : moment.Going before document module scope) (uri : String) (listed : uri ∈ scope.dependencies) :
    moment.Registers uri ∧ scope.workspace.Current moment.setup uri :=
  ⟨(going.asked listed).1.registers, (going.asked listed).2⟩

theorem apart (going : moment.Going before document module scope) {uri : String} (progress : before.InProgress uri) :
    uri ≠ document.uri := by
  rintro rfl
  exact lt_irrefl _ (going.waiting progress)

/-- Taking the document up leaves the zones of the others as they are, and its own as the layout left it. -/
theorem start (due : moment.Due before document module) (errors : List Diagnostic) :
    moment.Going before document module
        { workspace := moment.taken before document, uri := document.uri, module, errors } ∧
      ∀ address, Zone origin document.uri address →
        (moment.taken before document).table.viewAt address = origin.viewAt address := by
  have underway : Underway moment.setup before document (moment.taken before document) := Underway.start due.needs
  have table := moment.taken_table before document
  obtain ⟨_, _, advances⟩ := underway.advances
  have own : ∀ address, Zone origin document.uri address →
      (moment.taken before document).table.viewAt address = origin.viewAt address := by
    intro address zone
    rw [table]
    exact due.coherent.laid.viewAt_clearUri_own moment.ground zone
  have views : ∀ {uri address}, uri ≠ document.uri → Zone origin uri address →
      (moment.taken before document).table.viewAt address = before.table.viewAt address := by
    intro uri address differs zone
    rw [table]
    exact due.coherent.laid.viewAt_clearUri_other moment.ground differs zone
  have foreign : ∀ {uri}, (moment.taken before document).Current moment.setup uri → uri ≠ document.uri := by
    rintro uri current rfl
    exact current.not_inProgress ((underway.progress document.uri).mpr (.inl rfl))
  have idle : ∀ {uri}, before.Current moment.setup uri → uri ≠ document.uri := by
    rintro uri current rfl
    exact due.needs.not_settled (.inr current)
  refine ⟨?_, own⟩
  constructor
  case place => exact ⟨rfl, rfl⟩
  case underway => exact underway
  case coherent =>
    refine due.coherent.congr ?_ advances.provides ?_ ?_ ?_
    · exact table ▸ due.coherent.laid.clearUri moment.ground document.uri
    · exact fun uri _ current => moment.taken_record? before (foreign current)
    · exact fun uri address current zone => views (foreign current) zone
    · exact fun uri _ current => current.congr (advances.provides uri) (moment.taken_record? before (idle current))
  case asked => exact fun listed => by cases listed
  case aliases =>
    intro address target zone linked
    have unlinked := (Prod.mk.inj (own address zone)).2.trans (moment.ground.aliases address)
    cases unlinked.symm.trans linked
  case waiting => exact due.waiting
  case spared =>
    intro uri address progress zone
    refine views ?_ zone
    rintro rfl
    exact lt_irrefl _ (due.waiting progress)

theorem loaded (going : moment.Going before document module scope) {uri : String}
    (refers : moment.Refers document.uri uri) (answers : moment.Answers load uri) :
    (load scope.workspace uri).1 = none ∧ moment.Going before document module (scope.loaded load uri) ∧
      ∀ address, Zone origin document.uri address →
        (scope.loaded load uri).workspace.table.viewAt address = scope.workspace.table.viewAt address := by
  have lower := moment.falls refers
  have above : ∀ other, scope.workspace.InProgress other → moment.rank uri < moment.rank other := by
    intro other progress
    rcases (going.underway.progress other).mp progress with rfl | earlier
    · exact lower
    · exact lower.trans (going.waiting earlier)
  obtain ⟨answer, leaves⟩ := answers scope.workspace going.coherent above
  have own := (going.underway.progress document.uri).mpr (.inl rfl)
  refine ⟨answer, ?_, fun address zone => leaves.spared own zone⟩
  constructor
  case place => exact going.place
  case underway => exact going.underway.load leaves.loads
  case coherent => exact leaves.coherent
  case asked =>
    intro other listed
    rcases Scope.mem_insertUri.mp listed with rfl | earlier
    · exact ⟨refers, leaves.current⟩
    · exact ⟨(going.asked earlier).1, ((going.asked earlier).2.loads leaves.loads).2⟩
  case aliases =>
    intro address target zone linked
    have view := leaves.spared own zone
    change (load scope.workspace uri).2.table.aliasAt address = some target at linked
    rw [(Prod.mk.inj view).2] at linked
    exact (going.aliases zone linked).mono fun other listed =>
      ⟨other, Scope.mem_insertUri.mpr (.inr listed), .refl⟩
  case waiting => exact going.waiting
  case spared =>
    intro other address progress zone
    have further := leaves.spared ((going.underway.progress other).mpr (.inr progress)) zone
    exact further.trans (going.spared progress zone)

theorem write (has : moment.Has document module) (going : moment.Going before document module scope) {creates : Bool}
    {address : SymbolPath} {record : SymbolRecord}
    (writes : (passOf base document module).Writes (moment.Resolves document module) (fun _ _ => True) scope creates address record) :
    moment.Going before document module (scope.write creates address record) := by
  have laid := going.coherent.laid
  have elsewhere : ∀ {uri other}, uri ≠ document.uri → Zone origin uri other →
      (scope.write creates address record).workspace.table.viewAt other = scope.workspace.table.viewAt other := by
    intro uri other differs zone
    refine laid.viewAt_write_outside has.fits writes zone.schema fun own => ?_
    exact differs (moment.ground.zone_unique zone own)
  constructor
  case place => exact going.place
  case underway => exact going.underway.withTable _
  case coherent =>
    refine going.coherent.congr (laid.write moment.ground has.fits writes) (fun _ => rfl) (fun _ _ _ => rfl) ?_
      (fun _ _ current => current)
    intro uri other current zone
    refine elsewhere ?_ zone
    rintro rfl
    exact going.not_current current
  case asked => exact going.asked
  case aliases =>
    intro other target zone linked
    rcases SymbolTable.aliasAt_write laid.sorted creates address record other with same | ⟨rfl, link, given, now⟩
    · exact going.aliases zone (same.symm.trans linked)
    · cases now.symm.trans linked
      rcases has.fits.writes writes with ⟨quiet, _⟩ | ⟨object, _⟩ | ⟨_, declares⟩
      · cases quiet.2.symm.trans given
      · exact absurd zone.schema object
      · obtain ⟨free, path, node, name, last, text, here, resolved⟩ := declares.linked _ given
        refine resolved.resolve_left ?_
        rintro ⟨segment, ending, there, _, seen⟩
        cases ending.symm.trans (pathSegments_getLast? last text)
        rw [there] at seen
        rw [here] at free
        exact absurd (seen.symm.trans free) (by simp)
  case waiting => exact going.waiting
  case spared =>
    intro uri other progress zone
    exact (elsewhere (going.apart progress) zone).trans (going.spared progress zone)

theorem checking (going : moment.Going before document module scope) :
    moment.Going before document module scope.checking := by
  have others : ∀ uri ≠ document.uri, scope.checking.workspace.record? uri = scope.workspace.record? uri := by
    intro uri differs
    rw [Scope.checking, going.place.1, setState, record?_modifyRecord, if_neg differs]
  have underway : Underway moment.setup before document scope.checking.workspace := by
    rw [Scope.checking, going.place.1]
    exact going.underway.checking
  have foreign : ∀ {uri}, scope.workspace.Current moment.setup uri → uri ≠ document.uri := by
    rintro uri current rfl
    exact going.not_current current
  have kept : ∀ {uri}, scope.workspace.Current moment.setup uri → scope.checking.workspace.Current moment.setup uri :=
    fun {uri} current => current.congr rfl (others uri (foreign current))
  refine { going with underway, coherent := ?_, asked := fun listed => ?_ }
  · refine going.coherent.congr going.coherent.laid (fun _ => rfl) ?_ (fun _ _ _ _ => rfl) (fun _ _ => kept)
    intro uri _ current
    refine others uri ?_
    rintro rfl
    exact current.not_inProgress ((underway.progress document.uri).mpr (.inl rfl))
  · exact ⟨(going.asked listed).1, kept (going.asked listed).2⟩

/-- The alias of a name, be it the document's own or that of a document asked for, leads behind these. -/
theorem alias_behind (going : moment.Going before document module scope)
    (sound : ∀ uri ∈ scope.dependencies, moment.Sound uri) {address target : SymbolPath}
    (owners : ∀ owner, Zone origin owner address → owner = document.uri ∨ owner ∈ scope.dependencies)
    (schema : address.category = .schema) (linked : scope.workspace.table.aliasAt address = some target) :
    moment.Behind (· ∈ scope.dependencies) target := by
  by_cases owned : ∃ owner, Zone origin owner address
  · obtain ⟨owner, zone⟩ := owned
    rcases owners owner zone with rfl | listed
    · exact going.aliases zone linked
    · obtain ⟨registered, current⟩ := going.checked owner listed
      have view := (going.coherent.outcomes registered current).views address zone
      rw [(Prod.mk.inj view).2] at linked
      exact ((sound owner listed).aliases zone linked).mono fun uri asks => ⟨owner, listed, .single asks⟩
  · have view := going.coherent.laid.outside address schema fun uri zone => owned ⟨uri, zone⟩
    rw [(Prod.mk.inj view).2, moment.ground.aliases] at linked
    cases linked

theorem resolves (has : moment.Has document module) (going : moment.Going before document module scope)
    (sound : ∀ uri ∈ scope.dependencies, moment.Sound uri) {path : Node} {goal : PathTarget}
    (leads : (passOf base document module).Leads path goal)
    (owners : ∀ owner, Zone origin owner goal.address → owner = document.uri ∨ owner ∈ scope.dependencies)
    (declared : (scope.arrival goal).1 = true) :
    moment.Resolves document module scope path (scope.arrival goal).2.1 := by
  have behind : ∀ {target}, scope.workspace.table.aliasAt goal.address = some target →
      moment.Behind (· ∈ scope.dependencies) target := going.alias_behind sound owners rfl
  have arrives := Scope.arrival_eq going.coherent.laid.sorted fun target linked =>
    going.coherent.aliasAt_behind going.checked (behind linked)
  rw [arrives] at declared ⊢
  split at declared
  · next seen =>
    rw [if_pos seen]
    cases linked : scope.workspace.table.aliasAt goal.address with
    | some target => exact .inr (behind linked)
    | none =>
      by_cases own : Zone origin document.uri goal.address
      · refine .inl ⟨_, (walkPath_inversion leads.walked).1, ?_, own, going.place.1 ▸ seen⟩
        obtain ⟨plain, _, named⟩ := has.fits.goal moment.ground leads
        obtain ⟨home, name, members, implemented, alsoNamed, same⟩ := own
        cases has.home.symm.trans implemented
        obtain ⟨keys, -⟩ := List.cons.inj (SymbolPath.mk.inj same).2
        obtain ⟨modules, -⟩ := ModulePath.join_injective plain (moment.ground.plain implemented).1 named alsoNamed keys
        rw [← modules]
        rfl
      · refine .inr ⟨rfl, fun owner zone => ?_⟩
        have listed := (owners owner zone).resolve_left fun same => own (same ▸ zone)
        obtain ⟨registered, current⟩ := going.checked owner listed
        have view := (going.coherent.outcomes registered current).views goal.address zone
        exact ⟨⟨owner, listed, .refl⟩, (Prod.mk.inj view).2.symm.trans linked⟩
  · cases declared

end Going

structure Alike (moment moment' : Moment base origin) (before before' : Workspace) (document document' : TextDocument)
    (module : ModulePath) (left right : Scope) : Prop where
  here : moment.Going before document module left
  there : moment'.Going before' document' module right
  errors : left.errors = right.errors
  dependencies : left.dependencies = right.dependencies
  views : ∀ {address}, Zone origin document.uri address →
    left.workspace.table.viewAt address = right.workspace.table.viewAt address
  agrees : ∀ uri ∈ left.dependencies, moment.Agrees moment' uri

def Ready (moment : Moment base origin) (load : Loader) (uri : String) : Prop :=
  ∀ other, moment.Refers uri other → moment.Answers load other ∧ moment.Sound other

namespace Alike

/-- Both passes load the same document, and both find its outcome then. -/
theorem loaded (alike : moment.Alike moment' before before' document document' module left right)
    (same : document'.uri = document.uri) {uri : String} (refers : moment.Refers document.uri uri)
    (refers' : moment'.Refers document'.uri uri) (answers : moment.Answers load uri)
    (answers' : moment'.Answers load' uri) (agrees : moment.Agrees moment' uri) :
    (load left.workspace uri).1 = (load' right.workspace uri).1 ∧
      moment.Alike moment' before before' document document' module (left.loaded load uri) (right.loaded load' uri) := by
  obtain ⟨answer, going, views⟩ := alike.here.loaded refers answers
  obtain ⟨answer', going', views'⟩ := alike.there.loaded refers' answers'
  refine ⟨answer.trans answer'.symm, ?_⟩
  constructor
  case here => exact going
  case there => exact going'
  case errors => exact alike.errors
  case dependencies => exact congrArg (Scope.insertUri uri) alike.dependencies
  case views =>
    intro address zone
    rw [views address zone, views' address (same ▸ zone), alike.views zone]
  case agrees =>
    intro other listed
    rcases Scope.mem_insertUri.mp listed with rfl | earlier
    · exact agrees
    · exact alike.agrees other earlier

theorem arrival (alike : moment.Alike moment' before before' document document' module left right)
    (same : document'.uri = document.uri) (ready : moment.Ready load document.uri) {goal : PathTarget}
    (owners : ∀ owner, Zone origin owner goal.address → owner = document.uri ∨ owner ∈ left.dependencies) :
    left.arrival goal = right.arrival goal := by
  have sound : ∀ uri ∈ left.dependencies, moment.Sound uri := fun uri listed => (ready uri (alike.here.asked listed).1).2
  have checked' : ∀ uri, uri ∈ left.dependencies →
      moment'.Registers uri ∧ right.workspace.Current moment'.setup uri :=
    fun uri listed => alike.there.checked uri (alike.dependencies ▸ listed)
  refine Scope.arrival_congr (by rw [alike.here.place.1, alike.there.place.1, same]) alike.here.coherent.laid.sorted
    alike.there.coherent.laid.sorted ?_ ?_
  · by_cases owned : ∃ owner, Zone origin owner goal.address
    · obtain ⟨owner, zone⟩ := owned
      rcases owners owner zone with rfl | listed
      · exact alike.views zone
      · obtain ⟨registered, current⟩ := alike.here.checked owner listed
        obtain ⟨registered', current'⟩ := checked' owner listed
        rw [(alike.here.coherent.outcomes registered current).views _ zone, (alike.agrees owner listed owner .refl).views _ zone,
          (alike.there.coherent.outcomes registered' current').views _ zone]
    · have nobody : ∀ uri, ¬Zone origin uri goal.address := fun uri zone => owned ⟨uri, zone⟩
      rw [alike.here.coherent.laid.outside _ rfl nobody, alike.there.coherent.laid.outside _ rfl nobody]
  · intro target linked
    have behind := alike.here.alias_behind sound owners rfl linked
    exact ⟨alike.here.coherent.aliasAt_behind alike.here.checked behind,
      alike.here.coherent.viewAt_behind alike.there.coherent alike.here.checked checked' alike.agrees behind⟩

theorem sameArrival (has : moment.Has document module)
    (alike : moment.Alike moment' before before' document document' module left right)
    (same : document'.uri = document.uri) (ready : moment.Ready load document.uri) {path : Node} {goal : PathTarget}
    (leads : (passOf base document module).Leads path goal)
    (owners : ∀ owner, Zone origin owner goal.address → owner = document.uri ∨ owner ∈ left.dependencies) :
    Scope.SameArrival (moment.Resolves document module) left right path goal :=
  ⟨alike.arrival same ready owners,
    alike.here.resolves has (fun uri listed => (ready uri (alike.here.asked listed).1).2) leads owners⟩

theorem write (has : moment.Has document module) (has' : moment'.Has document' module)
    (twins : document'.uri = document.uri ∧ document'.text = document.text)
    (alike : moment.Alike moment' before before' document document' module left right) {creates : Bool}
    {address : SymbolPath} {record : SymbolRecord}
    (writes : (passOf base document module).Writes (moment.Resolves document module) (fun _ _ => True) left creates address record) :
    moment.Alike moment' before before' document document' module (left.write creates address record)
      (right.write creates address record) := by
  have laid := alike.here.coherent.laid
  have laid' := alike.there.coherent.laid
  have pass : passOf base document' module = passOf base document module := by rw [passOf, passOf, twins.1, twins.2]
  have sees : ∀ address, Zone origin document.uri address →
      Query.sees left.workspace.table document.uri address = Query.sees right.workspace.table document.uri address := by
    intro address zone
    rw [SymbolTable.sees_eq, SymbolTable.sees_eq, (Prod.mk.inj (alike.views zone)).1]
  have writes' : (passOf base document module).Writes (moment'.Resolves document' module) (fun _ _ => True) right
      creates address record := by
    refine has.fits.transport writes ?_ ?_ ?_ fun _ _ => trivial
    · intro address zone free
      have unseen := (sees address zone).symm.trans (Query.sees_of_declared? free)
      change Query.sees right.workspace.table (passOf base document module).uri address = false at unseen
      simp [Query.declared?, Query.start, unseen]
    · exact fun module => (laid.uriOfModule? moment.ground module).trans (laid'.uriOfModule? moment.ground module).symm
    · rintro path target (⟨segment, last, named, zone, seen⟩ | behind)
      · refine .inl ⟨segment, last, named, twins.1 ▸ zone, ?_⟩
        rw [twins.1, ← sees target zone]
        exact seen
      · exact .inr (alike.dependencies ▸ behind.agree alike.agrees)
  constructor
  case here => exact alike.here.write has writes
  case there => exact alike.there.write has' (pass ▸ writes')
  case errors => exact alike.errors
  case dependencies => exact alike.dependencies
  case views =>
    intro other zone
    exact laid.viewAt_write_same laid' has.fits writes writes' zone.schema (alike.views zone)
  case agrees => exact alike.agrees

end Alike

/-- Two passes over one text see the same, whatever was checked before. -/
theorem coupling (has : moment.Has document module) (has' : moment'.Has document' module)
    (twins : document'.uri = document.uri ∧ document'.text = document.text) (ready : moment.Ready load document.uri)
    (ready' : moment'.Ready load' document'.uri) :
    Coupling (passOf base document module) load load' (moment.Resolves document module) (fun _ _ => True)
      (moment.Agrees moment') (moment.Alike moment' before before' document document' module) := by
  have pass : passOf base document' module = passOf base document module := by rw [passOf, passOf, twins.1, twins.2]
  constructor
  case left => exact fun alike => alike.here.place
  case right => exact fun alike => pass ▸ alike.there.place
  case implementer =>
    intro left right alike goal
    rw [alike.here.coherent.laid.uriOfModule? moment.ground, alike.there.coherent.laid.uriOfModule? moment.ground]
  case sight =>
    intro left right address alike asks
    refine Scope.sight_congr ?_ (Prod.mk.inj (alike.views (has.fits.asks asks))).1
    rw [alike.here.place.1, alike.there.place.1, twins.1]
  case home =>
    intro left right path goal alike leads own
    refine alike.sameArrival has twins.1 ready leads fun owner zone => .inl ?_
    rw [alike.here.coherent.laid.uriOfModule? moment.ground] at own
    exact has.owner_eq leads (own.imp_left fun same => ⟨same, rfl⟩) zone
  case load =>
    intro left right path goal uri alike leads implemented apart agrees
    rw [alike.here.coherent.laid.uriOfModule? moment.ground] at implemented
    have refers := has.refers leads implemented apart
    have refers' := has'.refers (pass ▸ leads) implemented (twins.1 ▸ apart)
    obtain ⟨answer, onward⟩ := alike.loaded twins.1 refers refers' (ready uri refers).1 (ready' uri refers').1 agrees
    refine ⟨answer, onward, fun _ => onward.sameArrival has twins.1 ready leads fun owner zone => .inr ?_⟩
    rw [has.owner_eq leads (.inr implemented) zone]
    exact Scope.mem_insertUri.mpr (.inl rfl)
  case kind => exact fun _ member injects => absurd injects (has.fits.own _ member)
  case learn | retain => exact fun _ _ _ => trivial
  case add =>
    intro left right diagnostic alike _
    refine { alike with here := { alike.here with }, there := { alike.there with }, errors := ?_ }
    exact congrArg (· ++ [diagnostic]) alike.errors
  case write => exact fun alike writes => alike.write has has' twins writes
  case steady =>
    rintro left right path target creates address usage alike resolved kind
    refine resolved.imp_left fun ⟨segment, last, named, zone, seen⟩ => ⟨segment, last, named, zone, ?_⟩
    have quiet : ({ usage := some usage } : SymbolRecord).IsQuiet := by simp [SymbolRecord.IsQuiet, kind]
    have view : (left.write creates address { usage := some usage }).workspace.table.viewAt target =
        left.workspace.table.viewAt target :=
      SymbolTable.viewAt_write_quiet alike.here.coherent.laid.sorted creates address quiet target
    rwa [SymbolTable.sees_eq, (Prod.mk.inj view).1, ← SymbolTable.sees_eq]
  case checking =>
    intro left right alike
    exact { alike with here := alike.here.checking, there := alike.there.checking }

def passes (moment : Moment base origin) (load : Loader) (before : Workspace) (document : TextDocument)
    (module : ModulePath) : Scope :=
  process load moment.setup (moment.taken before document) document.uri module (moduleOf origin document.uri).2
    (parse document.text moment.setup.trailing).node

def concluded (moment : Moment base origin) (document : TextDocument) (scope : Scope) : Workspace :=
  (scope.workspace.conclude document.uri (parse document.text moment.setup.trailing).node scope.errors
    scope.dependencies).leave

theorem checkDocument_eq (due : moment.Due before document module) (load : Loader) :
    (checkDocument load moment.setup (fetch moment.setup before document.uri).2.enter document).leave =
      moment.concluded document (moment.passes load before document module) := by
  have home : moduleOf (moment.taken before document).table document.uri =
      (some module, (moduleOf origin document.uri).2) := by
    have laid := due.coherent.laid.clearUri moment.ground document.uri
    rw [taken_table, moduleOf, moduleOf, laid.moduleOfUri?, due.home]
  rw [taken] at home
  rw [checkDocument]
  dsimp only
  rw [home]
  rfl

theorem loadWithin_of_due (due : moment.Due before document module) (budget : Nat) :
    loadWithin moment.setup (budget + 1) before document.uri =
      (none, moment.concluded document (moment.passes (loadWithin moment.setup budget) before document module)) := by
  have admitted : judge document.uri (provided moment.setup before document.uri) (before.record? document.uri) =
      .admitted document := by
    rw [due.needs.provides]
    cases known : before.record? document.uri with
    | none => rfl
    | some record =>
      have idle : record.state.isInProgress = false := by
        rw [Bool.eq_false_iff]
        exact fun progress => due.needs.idle (inProgress_iff.mpr ⟨record, known, progress⟩)
      simp [judge, due.needs.stale record known, idle]
  rw [loadWithin_succ, loadOnce, admission_eq, admitted, ← checkDocument_eq due]
  rfl

theorem due_start (has : moment.Has document module) : moment.Due moment.start document module where
  toHas := has
  coherent := .start moment
  needs := ⟨has.provides, by simp [inProgress_iff, record?, start, opening], by simp [record?, start, opening]⟩
  waiting progress := by simp [inProgress_iff, record?, start, opening] at progress

theorem fresh_eq (has : moment.Has document module) :
    moment.fresh document.uri = moment.concluded document
      (moment.passes (loadWithin moment.setup (base.limits.maxLoadDepth - 1)) moment.start document module) := by
  have room := moment.shallow has.home
  have depth : moment.setup.limits.maxLoadDepth - moment.start.loadDepth = base.limits.maxLoadDepth - 1 + 1 := by
    change base.limits.maxLoadDepth - 0 = _
    omega
  rw [fresh, ensureChecked, depth, loadWithin_of_due (due_start has)]

/-- The passes over one text come to the same. -/
theorem passes_alike (due : moment.Due before document module) (due' : moment'.Due before' document' module)
    (twins : document'.uri = document.uri ∧ document'.text = document.text) (ready : moment.Ready load document.uri)
    (ready' : moment'.Ready load' document'.uri)
    (agrees : ∀ uri ∈ (moment.passes load before document module).dependencies, moment.Agrees moment' uri) :
    moment.Alike moment' before before' document document' module (moment.passes load before document module)
      (moment'.passes load' before' document' module) := by
  obtain ⟨going, own⟩ := Going.start due (moduleOf origin document.uri).2
  obtain ⟨going', own'⟩ := Going.start due' (moduleOf origin document'.uri).2
  have started : moment.Alike moment' before before' document document' module
      { workspace := moment.taken before document, uri := document.uri, module,
        errors := (moduleOf origin document.uri).2 }
      { workspace := moment'.taken before' document', uri := document'.uri, module,
        errors := (moduleOf origin document'.uri).2 } := by
    constructor
    case here => exact going
    case there => exact going'
    case errors => exact twins.1 ▸ rfl
    case dependencies => rfl
    case views => exact fun {address} zone => (own address zone).trans (own' address (twins.1 ▸ zone)).symm
    case agrees => exact fun uri listed => by cases listed
  have coupled : Coupling (passOf base document module) load load' _ _ _
    (moment.Alike moment' before before' document document' module) :=
    coupling due.toHas due'.toHas twins ready ready'
  rw [passes, passes, twins.1, twins.2]
  rw [twins.1] at started
  exact coupled.process (rfl : base.limits = (passOf base document module).limits) started agrees

namespace Going

theorem outcome? (going : moment.Going before document module scope) :
    (moment.concluded document scope).outcome? document.uri = some (scope.errors, scope.dependencies) := by
  obtain ⟨state, _, known⟩ := going.underway.record
  have record : (moment.concluded document scope).record? document.uri = _ :=
    record?_conclude scope.workspace _ _ _ _ _
  rw [Workspace.outcome?, record, if_pos rfl, known]
  rfl

/-- A check that comes to the outcome of its document leaves the workspace coherent. -/
theorem leaves (due : moment.Due before document module)
    (going : moment.Going before document module scope)
    (same : SameOutcome origin document.uri (moment.concluded document scope) (moment.fresh document.uri)) :
    moment.Leaves before document.uri (moment.concluded document scope) := by
  obtain ⟨loads, current⟩ := going.underway.conclude due.needs.provides due.needs.idle scope.errors scope.dependencies
  have others : ∀ uri ≠ document.uri, (moment.concluded document scope).record? uri = scope.workspace.record? uri :=
    fun uri differs => (record?_conclude _ _ _ _ _ uri).trans (if_neg differs)
  have provides : ∀ uri, provided moment.setup (moment.concluded document scope) uri =
      provided moment.setup scope.workspace uri := fun _ => rfl
  have onward : ∀ {uri}, scope.workspace.Current moment.setup uri →
      (moment.concluded document scope).Current moment.setup uri := by
    intro uri checked
    refine checked.congr (provides uri) (others uri ?_)
    rintro rfl
    exact going.not_current checked
  have back : ∀ {uri}, uri ≠ document.uri → (moment.concluded document scope).Current moment.setup uri →
      scope.workspace.Current moment.setup uri :=
    fun {uri} differs checked => checked.congr rfl (others uri differs).symm
  refine ⟨loads, ?_, current, going.spared⟩
  constructor
  case laid => exact going.coherent.laid
  case provides => exact going.coherent.provides
  case outcomes =>
    intro uri registered checked
    by_cases own : uri = document.uri
    · exact own ▸ same
    · have earlier := going.coherent.outcomes registered (back own checked)
      refine ⟨?_, earlier.views⟩
      rw [Workspace.outcome?, others uri own]
      exact earlier.outcome
  case closed =>
    intro uri other registered checked asks
    by_cases own : uri = document.uri
    · subst own
      obtain ⟨errors, dependencies, outcome, member⟩ := asks
      cases going.outcome?.symm.trans (same.outcome.trans outcome)
      exact ⟨(going.asked member).1.registers, onward (going.asked member).2⟩
    · obtain ⟨also, earlier⟩ := going.coherent.closed registered (back own checked) asks
      exact ⟨also, onward earlier⟩

/-- The outcome of a document is sound. -/
theorem sound (going : moment.Going before document module scope)
    (fresh : moment.fresh document.uri = moment.concluded document scope) : moment.Sound document.uri := by
  have outcome := going.outcome?
  rw [← fresh] at outcome
  constructor
  case asked =>
    rintro other ⟨errors, dependencies, found, member⟩
    cases outcome.symm.trans found
    exact (going.asked member).1
  case aliases =>
    intro address target zone linked
    rw [fresh] at linked
    exact (going.aliases zone linked).mono fun uri listed => ⟨uri, ⟨_, _, outcome, listed⟩, .refl⟩

end Going

/-- Alike passes have the same outcome. -/
theorem Alike.sameOutcome (alike : moment.Alike moment' before before' document document' module left right)
    (same : document'.uri = document.uri) :
    SameOutcome origin document.uri (moment.concluded document left) (moment'.concluded document' right) := by
  refine ⟨?_, fun address zone => alike.views zone⟩
  have outcome := alike.there.outcome?
  rw [same] at outcome
  rw [alike.here.outcome?, outcome, alike.errors, alike.dependencies]

theorem agrees_refl (moment : Moment base origin) (uri : String) : moment.Agrees moment uri :=
  fun _ _ => ⟨rfl, fun _ _ => rfl⟩

/-- The step: where loads of lower documents succeed, so does the check of a document, and it comes to
the outcome of the document. -/
theorem check_leaves (due : moment.Due before document module) (ready : moment.Ready load document.uri)
    (fresh : moment.Ready (loadWithin moment.setup (base.limits.maxLoadDepth - 1)) document.uri) :
    moment.Sound document.uri ∧
      moment.Leaves before document.uri (moment.concluded document (moment.passes load before document module)) := by
  have alike := passes_alike due (due_start due.toHas) ⟨rfl, rfl⟩ ready fresh fun uri _ => moment.agrees_refl uri
  have outcome := fresh_eq due.toHas
  exact ⟨alike.there.sound outcome, alike.here.leaves due (outcome ▸ alike.sameOutcome rfl)⟩

theorem exists_has {uri : String} (registered : moment.Registers uri) :
    ∃ document module, document.uri = uri ∧ moment.Has document module := by
  obtain ⟨module, home⟩ := registered
  obtain ⟨document, provides⟩ := moment.available home
  obtain rfl := provided_uri provides
  exact ⟨document, module, rfl, home, provides⟩

theorem Coherent.fetch (coherent : moment.Coherent before) (uri : String) :
    moment.Coherent (Workspace.fetch moment.setup before uri).2 ∧
      (Workspace.fetch moment.setup before uri).2.table = before.table := by
  obtain ⟨documents, fetched⟩ := fetch_snd moment.setup before uri
  have provides := provided_fetch moment.setup before uri
  rw [fetched] at provides ⊢
  refine ⟨coherent.congr coherent.laid provides (fun _ _ _ => rfl) (fun _ _ _ _ => rfl) ?_, rfl⟩
  exact fun other _ current => current.congr (provides other) rfl

/-- A document that is checked as it is needs no load. -/
theorem load_of_current (coherent : moment.Coherent before) {uri : String}
    (current : before.Current moment.setup uri) (budget : Nat) :
    (loadWithin moment.setup (budget + 1) before uri).1 = none ∧
      moment.Leaves before uri (loadWithin moment.setup (budget + 1) before uri).2 := by
  have settled : judge uri (provided moment.setup before uri) (before.record? uri) = .settled none := by
    obtain ⟨document, record, provides, known, checked⟩ := current
    rw [provides, known, judge, if_pos checked]
  rw [loadWithin_succ, loadOnce, admission_eq, settled]
  have loads := Loads.fetch moment.setup before uri
  obtain ⟨kept, table⟩ := coherent.fetch uri
  exact ⟨rfl, loads, kept, (current.loads loads).2, fun _ _ => by rw [table]⟩

/-- The run: every document is loaded, and its outcome is sound. -/
theorem answers_and_sound (moment : Moment base origin) {uri : String} (registered : moment.Registers uri) :
    moment.Sound uri ∧ ∀ budget, moment.rank uri < budget → moment.Answers (loadWithin moment.setup budget) uri := by
  induction rank : moment.rank uri using Nat.strongRecOn generalizing uri with
  | ind height ih =>
    subst rank
    obtain ⟨document, module, rfl, has⟩ := exists_has registered
    have ready : ∀ budget, moment.rank document.uri ≤ budget →
        moment.Ready (loadWithin moment.setup budget) document.uri := by
      intro budget room other refers
      have lower := moment.falls refers
      obtain ⟨sound, answers⟩ := ih _ lower refers.registers rfl
      exact ⟨answers budget (by omega), sound⟩
    have room := moment.shallow has.home
    have fresh := ready (base.limits.maxLoadDepth - 1) (by omega)
    refine ⟨(check_leaves (due_start has) fresh fresh).1, fun budget enough before coherent waiting => ?_⟩
    -- the ranks on the way are above, so that the document is not among them: there is no circle to report
    obtain ⟨lower, rfl⟩ : ∃ lower, budget = lower + 1 := ⟨budget - 1, by omega⟩
    have provides := (coherent.provides document.uri).trans has.provides
    have idle : ¬before.InProgress document.uri := fun progress => lt_irrefl _ (waiting _ progress)
    by_cases current : before.Current moment.setup document.uri
    · exact load_of_current coherent current lower
    · have due : moment.Due before document module := by
        refine ⟨has, coherent, ⟨provides, idle, fun record known => ?_⟩, fun {uri} => waiting uri⟩
        exact Bool.eq_false_iff.mpr fun checked => current ⟨document, record, provides, known, checked⟩
      rw [loadWithin_of_due due]
      exact ⟨rfl, (check_leaves due (ready lower (by omega)) fresh).2⟩

theorem sound_of_registers (moment : Moment base origin) {uri : String} (registered : moment.Registers uri) :
    moment.Sound uri := (moment.answers_and_sound registered).1

theorem ready_of_registers (moment : Moment base origin) {uri : String} (registered : moment.Registers uri) :
    moment.Ready (loadWithin moment.setup (base.limits.maxLoadDepth - 1)) uri := by
  obtain ⟨document, module, rfl, has⟩ := exists_has registered
  intro other refers
  obtain ⟨sound, answers⟩ := moment.answers_and_sound refers.registers
  have lower := moment.falls refers
  have room := moment.shallow has.home
  exact ⟨answers _ (by omega), sound⟩

theorem rank_of_reached {uri owner : String} (registered : moment.Registers uri)
    (reached : ReflTransGen moment.Asks uri owner) : moment.Registers owner ∧ moment.rank owner ≤ moment.rank uri := by
  induction reached with
  | refl => exact ⟨registered, le_rfl⟩
  | tail _ asks ih =>
    have refers := (moment.sound_of_registers ih.1).asked asks
    exact ⟨refers.registers, (moment.falls refers).le.trans ih.2⟩

/-- Outcomes depend only on the texts of the documents that are asked for. -/
theorem sameOutcome_of_texts {uri : String} (registered : moment.Registers uri)
    (texts : ∀ owner, ReflTransGen moment.Asks uri owner →
      (provided moment'.setup moment'.start owner).map TextDocument.text =
        (provided moment.setup moment.start owner).map TextDocument.text) :
    SameOutcome origin uri (moment.fresh uri) (moment'.fresh uri) := by
  induction rank : moment.rank uri using Nat.strongRecOn generalizing uri with
  | ind height ih =>
    subst rank
    obtain ⟨document, module, rfl, has⟩ := exists_has registered
    have registered' : moment'.Registers document.uri := registered
    obtain ⟨document', module', same, has'⟩ := exists_has registered'
    have home := has'.home
    rw [same, has.home] at home
    cases home
    have twins : document'.uri = document.uri ∧ document'.text = document.text := by
      have text := texts document.uri .refl
      rw [has.provides, ← same, has'.provides] at text
      exact ⟨same, Except.ok.inj text⟩
    have outcome := fresh_eq has
    have ready := moment.ready_of_registers registered
    have going := (passes_alike (due_start has) (due_start has) ⟨rfl, rfl⟩ ready ready fun uri _ => moment.agrees_refl uri).here
    -- what the first pass asks for decides which texts count; the second turns out to ask for the same
    have agrees : ∀ uri ∈ (moment.passes (loadWithin moment.setup (base.limits.maxLoadDepth - 1)) moment.start document
        module).dependencies, moment.Agrees moment' uri := by
      intro uri listed owner reached
      have asks : moment.Asks document.uri uri := ⟨_, _, outcome ▸ going.outcome?, listed⟩
      have lower := moment.falls (going.asked listed).1
      obtain ⟨also, below⟩ := rank_of_reached (going.asked listed).1.registers reached
      exact ih _ (below.trans_lt lower) also (fun other onward => texts other (.head asks (reached.trans onward))) rfl
    have alike := passes_alike (due_start has) (due_start has') twins ready
      (same ▸ moment'.ready_of_registers registered') agrees
    have outcome' := fresh_eq has'
    rw [same] at outcome'
    rw [outcome, outcome']
    exact alike.sameOutcome same

end SchemaDoc.Moment
