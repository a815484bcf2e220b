import Mathlib.Logic.Relation
import SchemaDoc.Proofs.DeclarationZones

/-! Documents that refer to each other downwards only. Each of them has one outcome: what checking it comes
to where nothing was checked before. A workspace is coherent when whatever is checked in it has that
outcome, and so has whatever that asked for. The stale declarations of documents that wait for a check do
no harm: a pass looks at the zone of another document only behind a load of it. -/

namespace SchemaDoc

open Relation (ReflTransGen)

namespace Workspace

/-- The document has a path that leads into a module of another one. -/
def Refers (setup : Setup) (workspace : Workspace) (uri other : String) : Prop :=
  ∃ module document path goal, workspace.table.moduleOfUri? uri = some module ∧
    provided setup workspace uri = .ok document ∧ (passOf setup document module).Leads path goal ∧
    workspace.table.uriOfModule? goal.module = some other ∧ other ≠ uri

def opening (table : SymbolTable) (documents : Documents) : Workspace := { table, documents }

def outcome? (workspace : Workspace) (uri : String) : Option (List Diagnostic × List String) :=
  (workspace.record? uri).map fun record => (record.errors, record.dependencies)

/-- Checking the document came to the same in both workspaces. -/
structure SameOutcome (origin : SymbolTable) (uri : String) (left right : Workspace) : Prop where
  outcome : left.outcome? uri = right.outcome? uri
  views : ∀ address, Zone origin uri address → left.table.viewAt address = right.table.viewAt address

theorem SameOutcome.symm {origin : SymbolTable} {uri : String} {left right : Workspace}
    (same : SameOutcome origin uri left right) : SameOutcome origin uri right left :=
  ⟨same.outcome.symm, fun address zone => (same.views address zone).symm⟩

theorem SameOutcome.trans {origin : SymbolTable} {uri : String} {left middle right : Workspace}
    (first : SameOutcome origin uri left middle) (second : SameOutcome origin uri middle right) :
    SameOutcome origin uri left right :=
  ⟨first.outcome.trans second.outcome, fun address zone => (first.views address zone).trans (second.views address zone)⟩

theorem Current.congr {setup : Setup} {before after : Workspace} {uri : String} (current : before.Current setup uri)
    (provides : provided setup after uri = provided setup before uri)
    (same : after.record? uri = before.record? uri) : after.Current setup uri := by
  obtain ⟨document, record, given, known, checked⟩ := current
  exact ⟨document, record, provides ▸ given, same ▸ known, checked⟩

theorem Current.not_inProgress {setup : Setup} {workspace : Workspace} {uri : String}
    (current : workspace.Current setup uri) : ¬workspace.InProgress uri := by
  obtain ⟨document, record, _, known, checked⟩ := current
  rw [inProgress_iff]
  rintro ⟨other, found, progress⟩
  cases known.symm.trans found
  rw [(FileRecord.state_of_isCurrent checked).1] at progress
  cases progress

theorem Current.loads {setup : Setup} {before after : Workspace} {uri : String} (current : before.Current setup uri)
    (loads : Loads setup before after) :
    after.record? uri = before.record? uri ∧ after.Current setup uri := by
  obtain ⟨taken, advances⟩ := loads.advances
  have same : after.record? uri = before.record? uri := by
    apply advances.records
    intro member
    obtain ⟨document, needs⟩ := advances.needed uri member
    exact needs.not_settled (.inr current)
  exact ⟨same, current.congr (advances.provides uri) same⟩

end Workspace

open Workspace

/-- A project at one moment. Its documents are there and inject nothing, and they refer downwards: each
has a rank, below the depth that loads may have. -/
structure Moment (base : Setup) (origin : SymbolTable) where
  files : FileTree
  documents : Documents
  rank : String → Nat
  ground : Groundwork origin
  available : ∀ {uri module}, origin.moduleOfUri? uri = some module →
    ∃ document, provided (base.over files) (opening origin documents) uri = .ok document
  uninjected : ∀ {uri module document}, origin.moduleOfUri? uri = some module →
    provided (base.over files) (opening origin documents) uri = .ok document →
    ∀ clause ∈ (parse document.text base.trailing).node.children, clause.kind ≠ .injectClause
  falls : ∀ {uri other}, Refers (base.over files) (opening origin documents) uri other → rank other < rank uri
  shallow : ∀ {uri module}, origin.moduleOfUri? uri = some module → rank uri < base.limits.maxLoadDepth

namespace Moment

variable {base : Setup} {origin : SymbolTable}

def setup (moment : Moment base origin) : Setup := base.over moment.files

def start (moment : Moment base origin) : Workspace := opening origin moment.documents

def fresh (moment : Moment base origin) (uri : String) : Workspace :=
  (ensureChecked moment.setup moment.start uri).2

def Asks (moment : Moment base origin) (uri other : String) : Prop :=
  ∃ errors dependencies, (moment.fresh uri).outcome? uri = some (errors, dependencies) ∧ other ∈ dependencies

def Registers (_ : Moment base origin) (uri : String) : Prop := ∃ module, origin.moduleOfUri? uri = some module

/-- Everything checked has its outcome, and everything that it asked for is checked. -/
structure Coherent (moment : Moment base origin) (workspace : Workspace) : Prop where
  laid : Laid origin workspace.table
  provides : ∀ uri, provided moment.setup workspace uri = provided moment.setup moment.start uri
  outcomes : ∀ {uri}, moment.Registers uri → workspace.Current moment.setup uri →
    SameOutcome origin uri workspace (moment.fresh uri)
  closed : ∀ {uri other}, moment.Registers uri → workspace.Current moment.setup uri → moment.Asks uri other →
    moment.Registers other ∧ workspace.Current moment.setup other

/-- Where aliases lead: what they lead to is no alias itself, and is declared by a document that is reached
through those listed, or by none. -/
def Behind (moment : Moment base origin) (Listed : String → Prop) (target : SymbolPath) : Prop :=
  target.category = .schema ∧ ∀ owner, Zone origin owner target →
    (∃ uri, Listed uri ∧ ReflTransGen moment.Asks uri owner) ∧ (moment.fresh owner).table.aliasAt target = none

theorem Behind.mono {moment : Moment base origin} {Listed More : String → Prop} {target : SymbolPath}
    (behind : moment.Behind Listed target)
    (reached : ∀ uri, Listed uri → ∃ other, More other ∧ ReflTransGen moment.Asks other uri) :
    moment.Behind More target := by
  refine ⟨behind.1, fun owner zone => ?_⟩
  obtain ⟨⟨uri, listed, onward⟩, unlinked⟩ := behind.2 owner zone
  obtain ⟨other, more, first⟩ := reached uri listed
  exact ⟨⟨other, more, first.trans onward⟩, unlinked⟩

/-- Documents, and all that they ask for, whose outcomes are the same at two moments. -/
def Agrees (moment moment' : Moment base origin) (uri : String) : Prop :=
  ∀ owner, ReflTransGen moment.Asks uri owner → SameOutcome origin owner (moment.fresh owner) (moment'.fresh owner)

/-- Where outcomes agree, aliases lead behind the same documents. -/
theorem Behind.agree {moment moment' : Moment base origin} {Listed : String → Prop} {target : SymbolPath}
    (behind : moment.Behind Listed target) (agrees : ∀ uri, Listed uri → moment.Agrees moment' uri) :
    moment'.Behind Listed target := by
  refine ⟨behind.1, fun owner zone => ?_⟩
  obtain ⟨⟨uri, listed, reached⟩, unlinked⟩ := behind.2 owner zone
  have same := agrees uri listed
  refine ⟨⟨uri, listed, ?_⟩, ?_⟩
  · clear unlinked zone
    induction reached with
    | refl => exact .refl
    | tail first asks ih =>
      obtain ⟨errors, dependencies, outcome, member⟩ := asks
      exact ih.tail ⟨errors, dependencies, (same _ first).outcome ▸ outcome, member⟩
  · have view := (same owner reached).views target zone
    rw [← (Prod.mk.inj view).2, unlinked]

namespace Coherent

variable {moment moment' : Moment base origin} {workspace before after : Workspace}

theorem start (moment : Moment base origin) : moment.Coherent moment.start where
  laid := Laid.refl moment.ground
  provides _ := rfl
  outcomes _ current := by
    obtain ⟨document, record, _, known, _⟩ := current
    cases known
  closed _ current := by
    obtain ⟨document, record, _, known, _⟩ := current
    cases known

/-- Coherence survives what leaves checked documents and their zones alone. -/
theorem congr (coherent : moment.Coherent before) (laid : Laid origin after.table)
    (provides : ∀ uri, provided moment.setup after uri = provided moment.setup before uri)
    (records : ∀ uri, moment.Registers uri → after.Current moment.setup uri → after.record? uri = before.record? uri)
    (views : ∀ uri address, after.Current moment.setup uri → Zone origin uri address →
      after.table.viewAt address = before.table.viewAt address)
    (kept : ∀ uri, moment.Registers uri → before.Current moment.setup uri → after.Current moment.setup uri) :
    moment.Coherent after := by
  have earlier : ∀ {uri}, moment.Registers uri → after.Current moment.setup uri → before.Current moment.setup uri :=
    fun {uri} registered current => current.congr (provides uri).symm (records uri registered current).symm
  constructor
  case laid => exact laid
  case provides => exact fun uri => (provides uri).trans (coherent.provides uri)
  case outcomes =>
    intro uri registered current
    refine SameOutcome.trans ⟨?_, fun address => views uri address current⟩
      (coherent.outcomes registered (earlier registered current))
    rw [outcome?, records uri registered current]
    rfl
  case closed =>
    intro uri other registered current asks
    obtain ⟨also, checked⟩ := coherent.closed registered (earlier registered current) asks
    exact ⟨also, kept other also checked⟩

theorem asked (coherent : moment.Coherent workspace) {uri other : String} (registered : moment.Registers uri)
    (current : workspace.Current moment.setup uri) (reached : ReflTransGen moment.Asks uri other) :
    moment.Registers other ∧ workspace.Current moment.setup other := by
  induction reached with
  | refl => exact ⟨registered, current⟩
  | tail _ asks ih => exact coherent.closed ih.1 ih.2 asks

/-- Behind documents that are checked, aliases have ended. -/
theorem aliasAt_behind (coherent : moment.Coherent workspace) {Listed : String → Prop} {target : SymbolPath}
    (checked : ∀ uri, Listed uri → moment.Registers uri ∧ workspace.Current moment.setup uri)
    (behind : moment.Behind Listed target) : workspace.table.aliasAt target = none := by
  by_cases owned : ∃ owner, Zone origin owner target
  · obtain ⟨owner, zone⟩ := owned
    obtain ⟨⟨uri, listed, reached⟩, unlinked⟩ := behind.2 owner zone
    obtain ⟨registered, current⟩ := coherent.asked (checked uri listed).1 (checked uri listed).2 reached
    have view := (coherent.outcomes registered current).views target zone
    rw [(Prod.mk.inj view).2, unlinked]
  · have view := coherent.laid.outside target behind.1 fun uri zone => owned ⟨uri, zone⟩
    rw [(Prod.mk.inj view).2, moment.ground.aliases]

/-- Behind documents whose outcomes agree, the same is seen at both moments. -/
theorem viewAt_behind (coherent : moment.Coherent workspace) (coherent' : moment'.Coherent after)
    {Listed : String → Prop} {target : SymbolPath}
    (checked : ∀ uri, Listed uri → moment.Registers uri ∧ workspace.Current moment.setup uri)
    (checked' : ∀ uri, Listed uri → moment'.Registers uri ∧ after.Current moment'.setup uri)
    (agrees : ∀ uri, Listed uri → moment.Agrees moment' uri) (behind : moment.Behind Listed target) :
    workspace.table.viewAt target = after.table.viewAt target := by
  by_cases owned : ∃ owner, Zone origin owner target
  · obtain ⟨owner, zone⟩ := owned
    obtain ⟨⟨uri, listed, reached⟩, _⟩ := behind.2 owner zone
    obtain ⟨⟨uri', listed', reached'⟩, _⟩ := (behind.agree agrees).2 owner zone
    obtain ⟨registered, current⟩ := coherent.asked (checked uri listed).1 (checked uri listed).2 reached
    obtain ⟨registered', current'⟩ := coherent'.asked (checked' uri' listed').1 (checked' uri' listed').2 reached'
    rw [(coherent.outcomes registered current).views target zone, (agrees uri listed owner reached).views target zone,
      (coherent'.outcomes registered' current').views target zone]
  · have nobody : ∀ uri, ¬Zone origin uri target := fun uri zone => owned ⟨uri, zone⟩
    rw [coherent.laid.outside target behind.1 nobody, coherent'.laid.outside target behind.1 nobody]

end Coherent

end Moment

end SchemaDoc
