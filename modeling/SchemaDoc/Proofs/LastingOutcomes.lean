import SchemaDoc.Proofs.AttendedChecks

/-! What a check leaves behind lasts: it is found in the end, and until the document is taken up again no other
document touches it. -/

namespace SchemaDoc

open Relation

namespace Workspace

variable {setup : Setup} {before : Workspace} {document : TextDocument} {load : Loader}

def Deed (load : Loader) (registries : RegistrySettings) (declarations : List Node) (scope after : Scope) : Prop :=
  Scope.Entry load scope after ∨ Attends.ActOf load registries declarations scope after

theorem Deed.move {registries : RegistrySettings} {declarations : List Node} {scope after : Scope}
    (deed : Deed load registries declarations scope after) : Scope.Move load scope after :=
  deed.elim Scope.Entry.move (Attends.ActOf.move registries)

section Check

variable (honours : ∀ workspace uri, Honours setup workspace (load workspace uri).2) (sound : before.table.Sound)
  (needs : Needs setup before document.uri document) (module : ModulePath) (Holds : Scope → Prop)
  (start : Holds (startOf setup (fetch setup before document.uri).2.enter document module))
  (checking : ∀ {scope}, Attends setup before document module scope → Holds scope → Holds scope.checking)

include honours sound needs start checking in
/-- What holds at the start of a check and is kept by every entry holds when the declarations are checked. -/
theorem waitedOf_keeps (step : ∀ {scope after}, Attends setup before document module scope →
      Attends setup before document module after → Scope.Entry load scope after → Holds scope → Holds after) :
    Holds (waitedOf load setup (fetch setup before document.uri).2.enter document module) := by
  have begun := Attends.start sound needs module
  have first := hoistedOf_entries honours sound needs module
  have hoisted := begun.entered honours needs.idle first
  exact hoisted.checking.run honours needs.idle Holds Scope.Entry.move step (waitedOf_entries honours sound needs module)
    (checking hoisted (begun.run honours needs.idle Holds Scope.Entry.move step first start))

include honours sound needs start checking in
/-- What holds at the start of a check and is kept by every act holds in the end. -/
theorem endOf_keeps (step : ∀ {scope after}, Attends setup before document module scope →
      Attends setup before document module after →
      Deed load setup.registries (parse document.text setup.trailing).node.children scope after → Holds scope → Holds after) :
    Holds (endOf load setup (fetch setup before document.uri).2.enter document module) := by
  have waited := waitedOf_keeps honours sound needs module Holds start checking
    fun here onward entry => step here onward (.inl entry)
  have attends := waitedOf_attends honours sound needs module
  exact attends.run honours needs.idle Holds (Attends.ActOf.move _) (fun here onward act => step here onward (.inr act))
    (attends.declarations_acts honours needs.idle _) waited

end Check

/-- What a property of workspaces has to guarantee to hold throughout checks. -/
structure Enduring (setup : Setup) (Good : Workspace → Prop) : Prop where
  rest : ∀ {workspace other : Workspace}, (∀ uri, provided setup other uri = provided setup workspace uri) →
    other.table = workspace.table → other.records = workspace.records → Good workspace → Good other
  start : ∀ {before document} (module), before.table.Sound → Needs setup before document.uri document → Good before →
    Good (startOf setup (fetch setup before document.uri).2.enter document module).workspace
  step : ∀ {load before document module scope after}, Attends setup before document module scope →
    Attends setup before document module after → before.table.moduleOfUri? document.uri = some module →
    provided setup before document.uri = .ok document →
    Deed load setup.registries (parse document.text setup.trailing).node.children scope after →
    (∀ uri, Good (load scope.workspace uri).2) → Good scope.workspace → Good after.workspace
  checking : ∀ {before document module} {scope : Scope}, Attends setup before document module scope → Good scope.workspace →
    Good scope.checking.workspace
  alone : ∀ {before document errors}, before.table.Sound → Needs setup before document.uri document →
    before.table.moduleOfUri? document.uri = none →
    let taken := (fetch setup before document.uri).2.enter.takeUp document (parse document.text setup.trailing).errors
    Good taken → Good (taken.conclude document.uri (parse document.text setup.trailing).node errors []).leave
  ends : ∀ {load before document module}, (∀ workspace uri, Honours setup workspace (load workspace uri).2) →
    before.table.Sound → Needs setup before document.uri document → before.table.moduleOfUri? document.uri = some module →
    let last := endOf load setup (fetch setup before document.uri).2.enter document module
    Good last.workspace → Good (last.workspace.conclude document.uri (parse document.text setup.trailing).node last.errors
      last.dependencies).leave

namespace Enduring

variable {Good : Workspace → Prop}

theorem checkDocument (enduring : Enduring setup Good) {uri : String}
    (honours : ∀ workspace uri, Honours setup workspace (load workspace uri).2)
    (loads : ∀ workspace uri, workspace.table.Sound → Good workspace → Good (load workspace uri).2)
    (needs : Needs setup before uri document) (sound : before.table.Sound) (good : Good before) :
    Good (Workspace.checkDocument load setup (fetch setup before uri).2.enter document).leave := by
  obtain rfl := provided_uri needs.provides
  have home : ((fetch setup before document.uri).2.enter.table.clearUri document.uri).moduleOfUri? document.uri =
      before.table.moduleOfUri? document.uri := by
    rw [table_entered, sound.moduleOfUri?_clearUri]
  refine checkDocument_cases (fun workspace uri => (honours workspace uri).loads) needs Good (fun stranger errors => ?_)
    fun module registered => ?_
  · exact enduring.alone sound needs (home ▸ stranger) (enduring.start .root sound needs good)
  · rw [home] at registered
    refine enduring.ends honours sound needs registered ?_
    exact endOf_keeps honours sound needs module (fun scope => Good scope.workspace) (enduring.start module sound needs good)
      enduring.checking fun here onward deed good =>
        enduring.step here onward registered needs.provides deed (fun uri => loads _ uri here.sound good) good

/-- The run: what each step of a check keeps every load keeps. -/
theorem loadWithin (enduring : Enduring setup Good) (budget : Nat) (workspace : Workspace) (uri : String)
    (sound : workspace.table.Sound) (good : Good workspace) : Good (loadWithin setup budget workspace uri).2 := by
  refine (loadWithin_induction (fun before after => Honours setup before after ∧
    (before.table.Sound → Good before → Good after)) ?_ ?_ budget workspace uri).2 sound good
  · intro workspace uri
    refine ⟨Honours.fetch workspace uri, fun _ good => ?_⟩
    have provides := provided_fetch setup workspace uri
    obtain ⟨documents, fetched⟩ := fetch_snd setup workspace uri
    rw [fetched] at provides ⊢
    exact enduring.rest provides rfl rfl good
  · intro load before uri document loads needs
    have honours := fun workspace uri => (loads workspace uri).1
    exact ⟨checkDocument_honours honours needs,
      enduring.checkDocument honours (fun workspace uri => (loads workspace uri).2) needs⟩

theorem ensureChecked (enduring : Enduring setup Good) (workspace : Workspace) (uri : String)
    (good : workspace.table.Sound ∧ Good workspace) :
    (ensureChecked setup workspace uri).2.table.Sound ∧ Good (Workspace.ensureChecked setup workspace uri).2 :=
  ⟨(ensureChecked_honours setup workspace uri).sound good.1, enduring.loadWithin _ workspace uri good.1 good.2⟩

end Enduring

theorem Session.endures {base : Setup} {layout : Layout} {scanned : FileTree} {workspace : Workspace} {Good : Workspace → Prop}
    (enduring : ∀ files, Enduring (base.over files) Good)
    (new : ∀ documents, Good { (registerLayout {} layout scanned).2 with documents })
    (edit : ∀ workspace documents, Good workspace → Good { workspace with documents })
    (invalidate : ∀ workspace uri, Session base layout scanned workspace → Good workspace → Good (workspace.invalidate uri).2)
    (session : Session base layout scanned workspace) : Good workspace := by
  induction session with
  | new documents => exact new documents
  | edit _ documents ih => exact edit _ documents ih
  | check earlier files uri ih => exact ((enduring files).ensureChecked _ uri ⟨earlier.sound.1, ih⟩).2
  | checkAll earlier files ih => exact (checkUris_keeps (enduring files).ensureChecked _ ⟨earlier.sound.1, ih⟩).2
  | invalidate earlier uri ih => exact invalidate _ uri earlier ih

theorem defined_clearUri {table : SymbolTable} {uri key : String} {usage : Usage} (sound : table.Sound)
    (defined : (table.clearUri uri).definitionAt (.schema key) = some usage) (apart : uri ≠ usage.location.uri) :
    table.definitionAt (.schema key) = some usage ∧
      (table.clearUri uri).partAt Symbol.data (.schema key) = table.partAt Symbol.data (.schema key) := by
  obtain ⟨member, kind⟩ := (sound.clearUri uri).definitionAt.mp defined
  rw [SymbolTable.usagesAt_clearUri sound.sorted] at member
  have listed := List.mem_of_mem_filter member
  exact ⟨sound.definitionAt.mpr ⟨listed, kind⟩, SymbolTable.partAt_clearUri (fun _ _ => rfl) sound.sorted listed (by rw [kind]; rfl)
    (by simp [Usage.isCheckedFrom, apart.symm])⟩

theorem defined_write {scope : Scope} {address : SymbolPath} {written : SymbolRecord} {key : String} {usage : Usage}
    (sound : scope.workspace.table.Sound) (creates : Bool) (mine : scope.Mine address written)
    (defined : (scope.write creates address written).workspace.table.definitionAt (.schema key) = some usage)
    (apart : scope.uri ≠ usage.location.uri) :
    scope.workspace.table.definitionAt (.schema key) = some usage ∧
      (scope.write creates address written).workspace.table.partAt Symbol.data (.schema key) =
        scope.workspace.table.partAt Symbol.data (.schema key) := by
  obtain ⟨member, kind⟩ := (mine.sound sound creates).definitionAt.mp defined
  have here : scope.workspace.table.definitionAt (.schema key) = some usage := by
    rcases SymbolTable.usagesAt_of_write sound.sorted creates address written member with old | ⟨-, new⟩
    · exact sound.definitionAt.mpr ⟨old, kind⟩
    · exact absurd (mine.place usage new).symm apart
  exact ⟨here, mine.contents sound creates here apart.symm⟩

/-- What is known of a checked document, from what is on record of it and the table. The acts of other documents
leave it as it is, and the end of a check shows it. -/
structure Lasting (setup : Setup) (Known : String → FileRecord → SymbolTable → Prop) : Prop where
  clear : ∀ {table : SymbolTable} {uri record other}, table.Sound → other ≠ uri → Known uri record table →
    Known uri record (table.clearUri other)
  write : ∀ {scope : Scope} {uri record} (creates : Bool) {address written}, scope.workspace.table.Sound →
    scope.Mine address written → scope.uri ≠ uri → Known uri record scope.workspace.table →
    Known uri record (scope.write creates address written).workspace.table
  alone : ∀ {table : SymbolTable} {uri record}, table.moduleOfUri? uri = none → Known uri record table
  ends : ∀ {load before document module} {record : FileRecord}, (∀ workspace uri, Honours setup workspace (load workspace uri).2) →
    before.table.Sound → Needs setup before document.uri document → before.table.moduleOfUri? document.uri = some module →
    record.text = document.text →
    record.errors = (endOf load setup (fetch setup before document.uri).2.enter document module).errors →
    Known document.uri record (endOf load setup (fetch setup before document.uri).2.enter document module).workspace.table

def NotesIn (Among : FileState → Prop) (Known : String → FileRecord → SymbolTable → Prop) (workspace : Workspace) : Prop :=
  ∀ uri record, workspace.record? uri = some record → Among record.state → Known uri record workspace.table

def Notes (Known : String → FileRecord → SymbolTable → Prop) (workspace : Workspace) : Prop :=
  ∀ uri record, workspace.record? uri = some record → record.state = .checked → Known uri record workspace.table

namespace Lasting

variable {Known : String → FileRecord → SymbolTable → Prop} {Among : FileState → Prop}

theorem conclude {current : Workspace} (underway : Underway setup before document current)
    (notes : current.NotesIn Among Known) (node : Node) (errors : List Diagnostic) (dependencies : List String)
    (own : ∀ record : FileRecord, record.text = document.text → record.errors = errors → Known document.uri record current.table) :
    (current.conclude document.uri node errors dependencies).leave.NotesIn Among Known := by
  intro uri record found among
  have found : (current.conclude document.uri node errors dependencies).record? uri = some record := found
  rw [record?_conclude] at found
  split at found
  · next same =>
    subst same
    obtain ⟨state, -, here⟩ := underway.record
    rw [here] at found
    cases found
    exact own _ rfl rfl
  · exact notes uri record found among

/-- What lasts is known throughout checks, of the documents in any states but those on the way. -/
theorem enduringIn (lasting : Lasting setup Known) (idle : ∀ {state}, Among state → state.isInProgress = false) :
    Enduring setup (NotesIn Among Known) := by
  constructor
  case rest =>
    intro workspace other _ table records notes uri record found among
    rw [record?, records] at found
    exact table ▸ notes uri record found among
  case start =>
    intro before document module sound needs notes uri record found among
    obtain ⟨documents, fetched⟩ := fetch_snd setup before document.uri
    rw [fetched] at found ⊢
    rw [startOf, record?_takeUp] at found
    split at found
    · cases found
      cases idle among
    · next apart => exact lasting.clear sound (Ne.symm apart) (notes uri record found among)
  case step =>
    intro load before document module scope after attends _ _ _ deed loads notes
    cases deed.move with
    | add diagnostic => exact notes
    | load apart => exact loads _
    | write creates mine =>
      intro uri record found among
      refine lasting.write creates attends.sound mine (fun same => ?_) (notes uri record found among)
      obtain ⟨current, here, progress⟩ := inProgress_iff.mp attends.progress
      rw [← attends.place.1, same] at here
      cases here.symm.trans found
      rw [idle among] at progress
      cases progress
  case checking =>
    intro before document module scope _ notes uri record found among
    rw [Scope.checking, setState, record?_modifyRecord] at found
    split at found
    · obtain ⟨earlier, -, rfl⟩ := Option.map_eq_some_iff.mp found
      cases idle among
    · exact notes uri record found among
  case alone =>
    intro before document errors sound needs stranger taken notes
    refine conclude (Underway.start needs) notes _ errors [] fun record _ _ => lasting.alone ?_
    have attends := Attends.start sound needs .root
    exact (SymbolTable.moduleOfUri?_congr attends.entries document.uri).trans stranger
  case ends =>
    intro load before document module honours sound needs registered last notes
    exact conclude (endOf_attends honours sound needs module).underway notes _ _ _
      fun record text errors => lasting.ends honours sound needs registered text errors

theorem enduring (lasting : Lasting setup Known) : Enduring setup (Notes Known) :=
  show Enduring setup (NotesIn (· = .checked) Known) from lasting.enduringIn fun state => by rw [state]; rfl

end Lasting

/-- What is known whatever files there are is known of all checked documents throughout a session. -/
theorem Session.notes {base : Setup} {layout : Layout} {scanned : FileTree} {workspace : Workspace}
    {Known : String → FileRecord → SymbolTable → Prop} (lasting : ∀ files, Lasting (base.over files) Known)
    (session : Session base layout scanned workspace) : workspace.Notes Known := by
  refine session.endures (fun files => (lasting files).enduring) (fun _ _ _ found => by cases found) (fun _ _ notes => notes) ?_
  intro workspace uri _ notes other record found checked
  rw [record?_invalidate] at found
  split at found
  · obtain ⟨earlier, -, rfl⟩ := Option.map_eq_some_iff.mp found
    cases checked
  · exact notes other record found checked

/-- What does not depend on states is known of all documents between operations: none is on the way. -/
theorem Session.notesIdle {base : Setup} {layout : Layout} {scanned : FileTree} {workspace : Workspace}
    {Known : String → FileRecord → SymbolTable → Prop} (lasting : ∀ files, Lasting (base.over files) Known)
    (restate : ∀ {uri record table} state, Known uri record table → Known uri { record with state } table)
    (session : Session base layout scanned workspace) : workspace.NotesIn (·.isInProgress = false) Known := by
  refine session.endures (fun files => (lasting files).enduringIn id) (fun _ _ _ found => by cases found) (fun _ _ notes => notes) ?_
  intro workspace uri session notes other record found idle
  rw [record?_invalidate] at found
  split at found
  · obtain ⟨earlier, here, rfl⟩ := Option.map_eq_some_iff.mp found
    have resting : earlier.state.isInProgress = false := by
      have idle := session.reachable.idle.progress other
      rw [inProgress_iff] at idle
      simpa using fun progress => idle ⟨earlier, here, progress⟩
    exact restate _ (notes other earlier here resting)
  · exact notes other record found idle

theorem checkUris_uris (setup : Setup) (workspace : Workspace) (uris : List String) :
    (workspace.checkUris setup uris).1.map Prod.fst = uris := by
  have behind : ∀ (uris : List String) (state : List (String × Option LoadError) × Workspace),
      (uris.foldl (fun state uri => (state.1 ++ [(uri, (ensureChecked setup state.2 uri).1)],
        (ensureChecked setup state.2 uri).2)) state).1.map Prod.fst = state.1.map Prod.fst ++ uris := by
    intro uris
    induction uris with
    | nil => simp
    | cons uri uris ih =>
      intro state
      rw [List.foldl_cons, ih]
      simp
  exact behind uris ([], workspace)

theorem checkUris_current {workspace : Workspace} {uris : List String} {uri : String}
    (answered : (uri, none) ∈ (workspace.checkUris setup uris).1) : (workspace.checkUris setup uris).2.Current setup uri := by
  have all : ∀ uri, (uri, none) ∈ (workspace.checkUris setup uris).1 → (workspace.checkUris setup uris).2.Current setup uri := by
    refine List.foldlRecOn (motive := fun state : List (String × Option LoadError) × Workspace =>
      ∀ uri, (uri, none) ∈ state.1 → state.2.Current setup uri) _ _ (fun _ member => by cases member) ?_
    intro state current next _ uri member
    rcases List.mem_append.mp member with earlier | new
    · exact ((current uri earlier).loads (ensureChecked_loads setup state.2 next)).2
    · obtain ⟨rfl, success⟩ := Prod.mk.inj (List.mem_singleton.mp new)
      exact ensureChecked_none success.symm
  exact all uri answered

/-- The documents of `::a` and `::b` were checked, and then the one of `::a` was given another text. -/
def editedWorkspace (left right edited : String) : Workspace :=
  (({ ((pairWorkspace left right).checkAll (({} : Setup).over {})).2 with
      documents := { opened := [⟨"file:///a.sdoc", 2, edited⟩, ⟨"file:///b.sdoc", 1, right⟩] } } : Workspace).invalidate
    "file:///a.sdoc").2

theorem pairWorkspace_session (left right : String) : Session {} pairLayout pairFiles (pairWorkspace left right) := by
  have new : Session {} pairLayout pairFiles _ :=
    .new { opened := [⟨"file:///a.sdoc", 1, left⟩, ⟨"file:///b.sdoc", 1, right⟩] }
  rw [registerLayout_pair] at new
  exact new

theorem editedWorkspace_session (left right edited : String) :
    Session {} pairLayout pairFiles (editedWorkspace left right edited) :=
  (((pairWorkspace_session left right).checkAll {}).edit
    { opened := [⟨"file:///a.sdoc", 2, edited⟩, ⟨"file:///b.sdoc", 1, right⟩] }).invalidate "file:///a.sdoc"

end Workspace

end SchemaDoc
