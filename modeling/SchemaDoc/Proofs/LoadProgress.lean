import SchemaDoc.Proofs.LoadSteps

/-! What a load does to the records. The documents that it takes up were neither on the way nor checked
as they are; in the end they are checked as they are, and all other records are what they were. While a
check is going on, the same holds with the document at hand still on the way. -/

namespace SchemaDoc.Workspace

/-- The last check of the document is over and ran on what the provider has. -/
def Current (setup : Setup) (workspace : Workspace) (uri : String) : Prop :=
  ∃ document record, provided setup workspace uri = .ok document ∧ workspace.record? uri = some record ∧
    record.isCurrent document = true

/-- The document needs no check any more. -/
def Settled (setup : Setup) (workspace : Workspace) (uri : String) : Prop :=
  workspace.InProgress uri ∨ workspace.Current setup uri

/-- What is on record of reading a document is what reading its text gives. -/
def Faithful (trailing : TrailingPolicy) (workspace : Workspace) : Prop :=
  ∀ uri record, workspace.record? uri = some record →
    record.parseErrors = (parse record.text trailing).errors ∧
      (record.state = .checked → record.node = some (parse record.text trailing).node)

theorem FileRecord.state_of_isCurrent {record : FileRecord} {document : TextDocument}
    (current : record.isCurrent document = true) :
    record.state = .checked ∧ record.version = document.version ∧ record.text = document.text := by
  simpa [FileRecord.isCurrent, and_assoc] using current

theorem Needs.not_settled {setup : Setup} {workspace : Workspace} {uri : String} {document : TextDocument}
    (needs : Needs setup workspace uri document) : ¬workspace.Settled setup uri := by
  rintro (progress | ⟨other, record, provides, known, current⟩)
  · exact needs.idle progress
  · rw [needs.provides] at provides
    cases provides
    simp [needs.stale record known] at current

theorem Needs.congr {setup : Setup} {before after : Workspace} {uri : String} {document : TextDocument}
    (needs : Needs setup after uri document) (provides : provided setup after uri = provided setup before uri)
    (same : after.record? uri = before.record? uri) : Needs setup before uri document :=
  ⟨provides ▸ needs.provides, fun progress => needs.idle ((inProgress_congr same).mpr progress), same ▸ needs.stale⟩

theorem Settled.congr {setup : Setup} {before after : Workspace} {uri : String}
    (settled : before.Settled setup uri) (provides : provided setup after uri = provided setup before uri)
    (same : after.record? uri = before.record? uri) : after.Settled setup uri := by
  refine settled.imp (inProgress_congr same).mpr ?_
  rintro ⟨document, record, provided, known, current⟩
  exact ⟨document, record, provides ▸ provided, same ▸ known, current⟩

/-- From one workspace to a later one, within one load or over several: `taken` are the documents that
were taken up, latest first. -/
structure Advances (setup : Setup) (taken : List String) (before after : Workspace) : Prop where
  log : after.log = taken ++ before.log
  provides : ∀ uri, provided setup after uri = provided setup before uri
  needed : ∀ uri ∈ taken, ∃ document, Needs setup before uri document
  once : taken.Nodup
  settled : ∀ uri ∈ taken, after.Settled setup uri
  records : ∀ uri ∉ taken, after.record? uri = before.record? uri

namespace Advances

variable {setup : Setup} {taken : List String} {before after : Workspace}

theorem fetch (setup : Setup) (workspace : Workspace) (uri : String) :
    Advances setup [] workspace (fetch setup workspace uri).2 := by
  obtain ⟨documents, fetched⟩ := fetch_snd setup workspace uri
  have provides := provided_fetch setup workspace uri
  rw [fetched] at provides ⊢
  exact ⟨rfl, provides, by simp, .nil, by simp, fun _ _ => rfl⟩

/-- A settled document is not taken up again. -/
theorem trans {more : List String} {last : Workspace} (first : Advances setup taken before after)
    (second : Advances setup more after last) : Advances setup (more ++ taken) before last := by
  have apart : ∀ uri ∈ more, uri ∉ taken := by
    intro uri member earlier
    obtain ⟨document, needs⟩ := second.needed uri member
    exact needs.not_settled (first.settled uri earlier)
  constructor
  case log => rw [second.log, first.log, List.append_assoc]
  case provides => exact fun uri => (second.provides uri).trans (first.provides uri)
  case needed =>
    intro uri member
    rcases List.mem_append.mp member with later | earlier
    · obtain ⟨document, needs⟩ := second.needed uri later
      exact ⟨document, needs.congr (first.provides uri) (first.records uri (apart uri later))⟩
    · exact first.needed uri earlier
  case once =>
    refine List.nodup_append.mpr ⟨second.once, first.once, ?_⟩
    rintro uri later _ earlier rfl
    exact apart uri later earlier
  case settled =>
    intro uri member
    by_cases later : uri ∈ more
    · exact second.settled uri later
    · have earlier := (List.mem_append.mp member).resolve_left later
      exact (first.settled uri earlier).congr (second.provides uri) (second.records uri later)
  case records =>
    intro uri outside
    rw [List.mem_append, not_or] at outside
    rw [second.records uri outside.1, first.records uri outside.2]

/-- Only a document that was taken up may get another record. -/
theorem amend {other : Workspace} {uri : String} (advances : Advances setup taken before after) (member : uri ∈ taken)
    (log : other.log = after.log) (documents : other.documents = after.documents)
    (records : ∀ v ≠ uri, other.record? v = after.record? v) (settled : other.Settled setup uri) :
    Advances setup taken before other := by
  have provides : ∀ v, provided setup other v = provided setup after v := by simp [provided, documents]
  constructor
  case log => rw [log, advances.log]
  case provides => exact fun v => (provides v).trans (advances.provides v)
  case needed => exact advances.needed
  case once => exact advances.once
  case settled =>
    intro v listed
    by_cases same : v = uri
    · exact same ▸ settled
    · exact (advances.settled v listed).congr (provides v) (records v same)
  case records =>
    intro v outside
    rw [records v fun same => outside (same ▸ member), advances.records v outside]

/-- A document on the way is left alone. -/
theorem record?_of_inProgress {uri : String} (advances : Advances setup taken before after)
    (progress : before.InProgress uri) : after.record? uri = before.record? uri := by
  apply advances.records
  intro member
  obtain ⟨document, needs⟩ := advances.needed uri member
  exact needs.idle progress

end Advances

structure Loads (setup : Setup) (before after : Workspace) : Prop where
  advances : ∃ taken, Advances setup taken before after
  depth : after.loadDepth = before.loadDepth
  progress : ∀ uri, after.InProgress uri ↔ before.InProgress uri
  faithful : before.Faithful setup.trailing → after.Faithful setup.trailing

theorem Loads.fetch (setup : Setup) (workspace : Workspace) (uri : String) :
    Loads setup workspace (Workspace.fetch setup workspace uri).2 := by
  obtain ⟨documents, fetched⟩ := fetch_snd setup workspace uri
  have advances := Advances.fetch setup workspace uri
  rw [fetched] at advances ⊢
  exact ⟨⟨[], advances⟩, rfl, fun _ => Iff.rfl, id⟩

/-- The check of a document that needed one is going on. -/
structure Underway (setup : Setup) (before : Workspace) (document : TextDocument) (current : Workspace) : Prop where
  advances : ∃ taken, document.uri ∈ taken ∧ Advances setup taken before current
  depth : current.loadDepth = before.loadDepth + 1
  progress : ∀ uri, current.InProgress uri ↔ uri = document.uri ∨ before.InProgress uri
  record : ∃ state : FileState, state.isInProgress = true ∧ current.record? document.uri = some
    { version := document.version, text := document.text, state,
      parseErrors := (parse document.text setup.trailing).errors }
  faithful : before.Faithful setup.trailing → current.Faithful setup.trailing

theorem Faithful.congr {trailing : TrailingPolicy} {before after : Workspace} (faithful : before.Faithful trailing)
    {uri : String} (same : ∀ other ≠ uri, after.record? other = before.record? other)
    (own : ∀ record, after.record? uri = some record →
      record.parseErrors = (parse record.text trailing).errors ∧
        (record.state = .checked → record.node = some (parse record.text trailing).node)) :
    after.Faithful trailing := by
  intro other record known
  by_cases here : other = uri
  · subst here
    exact own record known
  · exact faithful other record (same other here ▸ known)

namespace Underway

variable {setup : Setup} {before current : Workspace} {document : TextDocument}

/-- A check starts by taking the document up. -/
theorem start {uri : String} (needs : Needs setup before uri document) :
    Underway setup before document
      ((Workspace.fetch setup before uri).2.enter.takeUp document (parse document.text setup.trailing).errors) := by
  obtain rfl := provided_uri needs.provides
  obtain ⟨documents, fetched⟩ := fetch_snd setup before document.uri
  have provides := provided_fetch setup before document.uri
  rw [fetched] at provides ⊢
  generalize taken : ({ before with documents } : Workspace).enter.takeUp document
    (parse document.text setup.trailing).errors = current
  have record := record?_takeUp ({ before with documents } : Workspace).enter document
    (parse document.text setup.trailing).errors
  rw [taken] at record
  have own := record document.uri
  rw [if_pos rfl] at own
  have others : ∀ other ≠ document.uri, current.record? other = before.record? other := by
    intro other apart
    rw [record, if_neg apart]
    rfl
  have underway : current.InProgress document.uri := inProgress_iff.mpr ⟨_, own, rfl⟩
  constructor
  case advances =>
    refine ⟨[document.uri], List.mem_singleton_self _, ?_⟩
    constructor
    case log => exact taken ▸ rfl
    case provides => exact taken ▸ provides
    case needed => exact fun other member => List.mem_singleton.mp member ▸ ⟨document, needs⟩
    case once => exact List.pairwise_singleton _ _
    case settled => exact fun other member => List.mem_singleton.mp member ▸ .inl underway
    case records => exact fun other outside => others other fun same => outside (List.mem_singleton.mpr same)
  case depth => exact taken ▸ rfl
  case progress =>
    intro other
    by_cases same : other = document.uri
    · exact iff_of_true (same ▸ underway) (.inl same)
    · rw [inProgress_congr (others other same)]
      exact (or_iff_right same).symm
  case record => exact ⟨.parsed, rfl, own⟩
  case faithful =>
    intro faithful
    refine faithful.congr others ?_
    intro known found
    rw [own] at found
    cases found
    exact ⟨rfl, by simp⟩

/-- A nested load leaves the document at hand alone. -/
theorem load {after : Workspace} (underway : Underway setup before document current)
    (loads : Loads setup current after) : Underway setup before document after := by
  obtain ⟨taken, member, advances⟩ := underway.advances
  obtain ⟨more, further⟩ := loads.advances
  have progress := (underway.progress document.uri).mpr (.inl rfl)
  constructor
  case advances => exact ⟨more ++ taken, List.mem_append_right _ member, advances.trans further⟩
  case depth => rw [loads.depth, underway.depth]
  case progress => exact fun uri => (loads.progress uri).trans (underway.progress uri)
  case record => exact further.record?_of_inProgress progress ▸ underway.record
  case faithful => exact fun faithful => loads.faithful (underway.faithful faithful)

/-- The table plays no part. -/
theorem withTable (underway : Underway setup before document current) (table : SymbolTable) :
    Underway setup before document { current with table } := by
  obtain ⟨taken, member, advances⟩ := underway.advances
  have settled := advances.settled document.uri member
  exact { underway with advances := ⟨taken, member, advances.amend member rfl rfl (fun _ _ => rfl) settled⟩ }

theorem checking (underway : Underway setup before document current) :
    Underway setup before document (current.setState document.uri .checking) := by
  obtain ⟨taken, member, advances⟩ := underway.advances
  obtain ⟨state, -, own⟩ := underway.record
  have record := record?_modifyRecord current document.uri
  have others : ∀ other ≠ document.uri, (current.setState document.uri .checking).record? other =
      current.record? other := fun other apart => (record other _).trans (if_neg apart)
  have changed : (current.setState document.uri .checking).record? document.uri = some
      { version := document.version, text := document.text, state := .checking,
        parseErrors := (parse document.text setup.trailing).errors } := by
    rw [setState, record, if_pos rfl, own]
    rfl
  have progress : (current.setState document.uri .checking).InProgress document.uri :=
    inProgress_iff.mpr ⟨_, changed, rfl⟩
  constructor
  case advances => exact ⟨taken, member, advances.amend member rfl rfl others (.inl progress)⟩
  case depth => exact underway.depth
  case progress =>
    intro other
    by_cases same : other = document.uri
    · exact iff_of_true (same ▸ progress) (.inl same)
    · rw [inProgress_congr (others other same), underway.progress]
  case record => exact ⟨.checking, rfl, changed⟩
  case faithful =>
    intro faithful
    refine (underway.faithful faithful).congr others ?_
    intro known found
    rw [changed] at found
    cases found
    exact ⟨rfl, by simp⟩

/-- A check ends with the document checked as it is. -/
theorem conclude (underway : Underway setup before document current)
    (provides : provided setup before document.uri = .ok document) (idle : ¬before.InProgress document.uri)
    (errors : List Diagnostic) (dependencies : List String) :
    let after := (current.conclude document.uri (parse document.text setup.trailing).node errors dependencies).leave
    Loads setup before after ∧ after.Current setup document.uri := by
  intro after
  obtain ⟨taken, member, advances⟩ := underway.advances
  obtain ⟨state, -, own⟩ := underway.record
  have record := record?_conclude current document.uri (parse document.text setup.trailing).node errors dependencies
  have others : ∀ other ≠ document.uri, after.record? other = current.record? other :=
    fun other apart => (record other).trans (if_neg apart)
  have changed := (record document.uri).trans ((if_pos rfl).trans (congrArg (Option.map _) own))
  have finished : after.Current setup document.uri :=
    ⟨document, _, (advances.provides document.uri).trans provides, changed, by simp [FileRecord.isCurrent]⟩
  refine ⟨?_, finished⟩
  constructor
  case advances => exact ⟨taken, advances.amend member rfl rfl others (.inr finished)⟩
  case depth => exact congrArg (· - 1) underway.depth
  case progress =>
    intro other
    by_cases same : other = document.uri
    · subst same
      refine iff_of_false ?_ idle
      rw [inProgress_iff]
      rintro ⟨known, found, progress⟩
      cases changed.symm.trans found
      cases progress
    · rw [inProgress_congr (others other same), underway.progress]
      exact or_iff_right same
  case faithful =>
    intro faithful
    refine (underway.faithful faithful).congr others ?_
    intro known found
    cases changed.symm.trans found
    exact ⟨rfl, fun _ => rfl⟩

/-- Throughout the passes over a document its check is going on. -/
theorem invariant {load : Loader} (loads : ∀ workspace uri, Loads setup workspace (load workspace uri).2)
    (module : ModulePath) :
    (passOf setup document module).Invariant load (fun _ _ _ => True) (fun _ _ => True) fun scope =>
      (scope.uri = document.uri ∧ scope.module = module) ∧ Underway setup before document scope.workspace where
  place holds := holds.1
  arrives _ _ _ := trivial
  learn _ _ _ := trivial
  retain _ _ _ := trivial
  load holds _ _ _ := ⟨holds.1, holds.2.load (loads _ _)⟩
  add holds _ := holds
  write holds _ := ⟨holds.1, holds.2.withTable _⟩
  steady _ _ _ := trivial
  checking {scope} holds := by
    refine ⟨holds.1, ?_⟩
    rw [Scope.checking, holds.1.1]
    exact holds.2.checking

end Underway

/-- The step: a check whose nested loads behave is a load that behaves, and the document is checked as
it is. -/
theorem checkDocument_loads {setup : Setup} {load : Loader} {before : Workspace} {uri : String}
    {document : TextDocument} (loads : ∀ workspace uri, Loads setup workspace (load workspace uri).2)
    (needs : Needs setup before uri document) :
    let after := (checkDocument load setup (fetch setup before uri).2.enter document).leave
    Loads setup before after ∧ after.Current setup uri := by
  obtain rfl := provided_uri needs.provides
  have start := Underway.start needs
  exact checkDocument_ends (fun after => Loads setup before after.leave ∧ after.leave.Current setup document.uri)
    (fun module scope =>
      (scope.uri = document.uri ∧ scope.module = module) ∧ Underway setup before document scope.workspace)
    (fun errors => start.conclude needs.provides needs.idle errors [])
    (fun _ _ _ => ⟨⟨rfl, rfl⟩, start⟩)
    (Underway.invariant loads)
    (fun _ _ holds => holds.2.conclude needs.provides needs.idle _ _)

/-- The run: every load behaves, however many are nested. -/
theorem loadWithin_loads (setup : Setup) (budget : Nat) (workspace : Workspace) (uri : String) :
    Loads setup workspace (loadWithin setup budget workspace uri).2 := by
  apply loadWithin_induction (Loads setup)
  · exact Loads.fetch setup
  · intro load workspace uri document loads needs
    exact (checkDocument_loads loads needs).1

end SchemaDoc.Workspace
