import SchemaDoc.Proofs.Histories

/-! Loads inside loads. The documents on the way are at every call those on the stack of calls; a circle
is reported exactly at a document of that stack, and a document is taken up at most once. -/

namespace SchemaDoc

namespace Workspace

/-- A check asks its loader only while it is going on, so that answers at other times play no part. -/
theorem checkDocument_agrees {setup : Setup} {load other : Loader} {before : Workspace} {uri : String}
    {document : TextDocument} (loads : ∀ workspace uri, Loads setup workspace (load workspace uri).2)
    (needs : Needs setup before uri document)
    (agrees : ∀ {current} uri, Underway setup before document current → load current uri = other current uri) :
    checkDocument load setup (fetch setup before uri).2.enter document =
      checkDocument other setup (fetch setup before uri).2.enter document := by
  obtain rfl := provided_uri needs.provides
  exact checkDocument_congr (fun _ _ _ => ⟨⟨rfl, rfl⟩, Underway.start needs⟩) (Underway.invariant loads)
    fun uri holds => agrees uri holds.2

theorem ensureChecked_loads (setup : Setup) (workspace : Workspace) (uri : String) :
    Loads setup workspace (ensureChecked setup workspace uri).2 :=
  loadWithin_loads setup _ workspace uri

/-- A load is one step with loads inside it: counting down from the limit comes to the same as counting
up to it. -/
theorem ensureChecked_eq (setup : Setup) (workspace : Workspace) (uri : String) :
    ensureChecked setup workspace uri =
      loadOnce (ensureChecked setup) setup (decide (workspace.loadDepth < setup.limits.maxLoadDepth)) workspace uri := by
  rw [ensureChecked]
  cases remaining : setup.limits.maxLoadDepth - workspace.loadDepth with
  | zero =>
    rw [loadWithin_zero (ensureChecked setup), decide_eq_false (by omega)]
  | succ budget =>
    rw [loadWithin_succ, decide_eq_true (by omega)]
    simp only [loadOnce, admission_eq]
    cases verdict : judge uri (provided setup workspace uri) (workspace.record? uri) with
    | settled error => rfl
    | admitted document =>
      have same : checkDocument (loadWithin setup budget) setup (fetch setup workspace uri).2.enter document =
          checkDocument (ensureChecked setup) setup (fetch setup workspace uri).2.enter document := by
        apply checkDocument_agrees (loadWithin_loads setup budget) (judge_admitted verdict)
        intro current uri underway
        have depth := underway.depth
        rw [ensureChecked, show setup.limits.maxLoadDepth - current.loadDepth = budget by omega]
      simp only [same]

theorem judge_circular_iff {setup : Setup} {workspace : Workspace} {uri : String} :
    (∃ other, judge uri (provided setup workspace uri) (workspace.record? uri) = .settled (some (.circular other))) ↔
      (∃ document, provided setup workspace uri = .ok document) ∧ workspace.InProgress uri := by
  cases provides : provided setup workspace uri with
  | error failure => simp [judge]
  | ok document =>
    cases known : workspace.record? uri with
    | none => simp [judge, inProgress_iff, known]
    | some record =>
      rw [judge, inProgress_iff, known]
      by_cases current : record.isCurrent document = true
      · have checked := (FileRecord.state_of_isCurrent current).1
        simp [current, checked, FileState.isInProgress]
      · by_cases progress : record.state.isInProgress = true <;> simp [current, progress]

theorem judge_none {setup : Setup} {workspace : Workspace} {uri : String}
    (verdict : judge uri (provided setup workspace uri) (workspace.record? uri) = .settled none) :
    workspace.Current setup uri := by
  cases provides : provided setup workspace uri with
  | error failure =>
    rw [provides] at verdict
    cases verdict
  | ok document =>
    cases known : workspace.record? uri with
    | none =>
      rw [provides, known] at verdict
      cases verdict
    | some record =>
      rw [provides, known, judge] at verdict
      split at verdict
      · next current => exact ⟨document, record, provides, known, current⟩
      · split at verdict <;> cases verdict

/-- A circle is a document on the way. -/
theorem ensureChecked_circular_iff {setup : Setup} {workspace : Workspace} {uri : String} :
    (∃ other, (ensureChecked setup workspace uri).1 = some (.circular other)) ↔
      (∃ document, provided setup workspace uri = .ok document) ∧ workspace.InProgress uri := by
  rw [← judge_circular_iff, ensureChecked_eq]
  simp only [loadOnce, admission_eq]
  cases judge uri (provided setup workspace uri) (workspace.record? uri) with
  | settled error => simp
  | admitted document =>
    dsimp only
    split <;> simp

theorem loadOnce_none {setup : Setup} {load : Loader} {isAllowed : Bool} {workspace : Workspace} {uri : String}
    (loads : ∀ workspace uri, Loads setup workspace (load workspace uri).2)
    (success : (loadOnce load setup isAllowed workspace uri).1 = none) :
    (loadOnce load setup isAllowed workspace uri).2.Current setup uri := by
  simp only [loadOnce, admission_eq] at success ⊢
  cases verdict : judge uri (provided setup workspace uri) (workspace.record? uri) with
  | settled error =>
    rw [verdict] at success
    cases success
    obtain ⟨document, record, provides, known, current⟩ := judge_none verdict
    have fetched := Advances.fetch setup workspace uri
    exact ⟨document, record, (fetched.provides uri).trans provides, (fetched.records uri (by simp)).trans known, current⟩
  | admitted document =>
    rw [verdict] at success
    dsimp only at success ⊢
    split
    · exact (checkDocument_loads loads (judge_admitted verdict)).2
    · next refused =>
      rw [if_neg refused] at success
      cases success

/-- A load without an error leaves the document checked as it is. -/
theorem loadWithin_none {setup : Setup} {budget : Nat} {workspace : Workspace} {uri : String}
    (success : (loadWithin setup budget workspace uri).1 = none) :
    (loadWithin setup budget workspace uri).2.Current setup uri := by
  cases budget with
  | zero =>
    rw [loadWithin_zero (loadWithin setup 0)] at success ⊢
    exact loadOnce_none (loadWithin_loads setup 0) success
  | succ budget =>
    rw [loadWithin_succ] at success ⊢
    exact loadOnce_none (loadWithin_loads setup budget) success

theorem ensureChecked_none {setup : Setup} {workspace : Workspace} {uri : String}
    (success : (ensureChecked setup workspace uri).1 = none) :
    (ensureChecked setup workspace uri).2.Current setup uri := loadWithin_none success

end Workspace

theorem Scope.recordMentions_log (scope : Scope) (mentions : List ModuleMention) :
    (scope.recordMentions mentions).workspace.log = scope.workspace.log := by
  induction mentions generalizing scope with
  | nil => rfl
  | cons mention mentions ih => exact ih _

namespace Workspace

/-- A run asks its loader for a document of a workspace if another answer to that question alone would
make a difference. -/
def Consults {α : Type} (run : Loader → α) (load : Loader) (workspace : Workspace) (uri : String) : Prop :=
  ∃ other : Loader, (∀ elsewhere v, (elsewhere, v) ≠ (workspace, uri) → other elsewhere v = load elsewhere v) ∧
    run other ≠ run load

/-- A call of the loader: what it is called with, and the documents whose checks it is nested in, the
innermost first. -/
structure Call where
  workspace : Workspace
  uri : String
  stack : List String

/-- The calls within an outermost one: itself, and those made by the check of a call that is admitted. -/
inductive Call.Within (setup : Setup) (workspace : Workspace) (uri : String) : Call → Prop where
  | outermost : Call.Within setup workspace uri ⟨workspace, uri, []⟩
  | nested {call document current asked} (outer : Call.Within setup workspace uri call)
      (admitted : (admission setup call.workspace call.uri).1 = .admitted document)
      (room : call.workspace.loadDepth < setup.limits.maxLoadDepth)
      (consults : Consults (fun load => checkDocument load setup
        (admission setup call.workspace call.uri).2.enter document) (ensureChecked setup) current asked) :
      Call.Within setup workspace uri ⟨current, asked, call.uri :: call.stack⟩

theorem holds_of_consults {setup : Setup} {load : Loader} {workspace current : Workspace} {document : TextDocument}
    {asked : String} {Resolved : Scope → Node → SymbolPath → Prop} {Known : Scope → SymbolPath → Prop}
    {Holds : ModulePath → Scope → Prop}
    (start : ∀ module errors, (workspace.table.clearUri document.uri).moduleOfUri? document.uri = some module →
      Holds module { workspace := workspace.takeUp document (parse document.text setup.trailing).errors,
                     uri := document.uri, module, errors })
    (invariant : ∀ module, (passOf setup document module).Invariant load Resolved Known (Holds module))
    (consults : Consults (fun load => checkDocument load setup workspace document) load current asked) :
    ∃ module scope, Holds module scope ∧ scope.workspace = current := by
  obtain ⟨other, elsewhere, differ⟩ := consults
  by_contra absent
  apply differ
  refine (checkDocument_congr start invariant ?_).symm
  intro module scope uri holds
  refine (elsewhere scope.workspace uri ?_).symm
  rintro ⟨⟩
  exact absent ⟨module, scope, holds, rfl⟩

/-- A document that a check asks for is asked for while the check is going on. -/
theorem underway_of_consults {setup : Setup} {before current : Workspace} {uri asked : String} {document : TextDocument}
    (needs : Needs setup before uri document)
    (consults : Consults (fun load => checkDocument load setup (fetch setup before uri).2.enter document)
      (ensureChecked setup) current asked) : Underway setup before document current := by
  obtain rfl := provided_uri needs.provides
  obtain ⟨module, scope, holds, rfl⟩ := holds_of_consults (fun _ _ _ => ⟨⟨rfl, rfl⟩, Underway.start needs⟩)
    (Underway.invariant (ensureChecked_loads setup)) consults
  exact holds.2

/-- What a check hands on to the calls that it makes holds at every call. -/
theorem Call.Within.carries {setup : Setup} {workspace : Workspace} {uri : String} {call : Call} {Good : Workspace → Prop}
    (within : Call.Within setup workspace uri call) (good : Good workspace)
    (nested : ∀ {before current uri asked document}, Good before → Needs setup before uri document →
      Consults (fun load => checkDocument load setup (fetch setup before uri).2.enter document) (ensureChecked setup)
        current asked → Good current) : Good call.workspace := by
  induction within with
  | outermost => exact good
  | nested outer admitted room consults ih =>
    rw [admission_eq] at admitted consults
    exact nested ih (judge_admitted admitted) consults

/-- The call finds its stack in the workspace. -/
structure Call.Consistent (setup : Setup) (outermost : Workspace) (call : Call) : Prop where
  progress : ∀ uri, call.workspace.InProgress uri ↔ uri ∈ call.stack
  distinct : call.stack.Nodup
  depth : call.stack.length = call.workspace.loadDepth
  bound : call.stack.length ≤ setup.limits.maxLoadDepth
  provides : ∀ uri, provided setup call.workspace uri = provided setup outermost uri

theorem Call.Within.consistent {setup : Setup} {workspace : Workspace} {uri : String} {call : Call}
    (within : Call.Within setup workspace uri call) (idle : workspace.Idle setup.trailing) :
    call.Consistent setup workspace := by
  induction within with
  | outermost =>
    constructor
    case progress => simpa using idle.progress
    case distinct => exact .nil
    case depth => exact idle.depth.symm
    case bound => exact Nat.zero_le _
    case provides => exact fun _ => rfl
  | @nested call document current asked outer admitted room consults ih =>
    rw [admission_eq] at admitted consults
    have needs := judge_admitted admitted
    have underway := underway_of_consults needs consults
    have named := provided_uri needs.provides
    obtain ⟨taken, -, advances⟩ := underway.advances
    constructor
    case progress =>
      intro other
      rw [underway.progress, ih.progress, named, List.mem_cons]
    case distinct =>
      refine List.nodup_cons.mpr ⟨?_, ih.distinct⟩
      rw [← ih.progress]
      exact needs.idle
    case depth => rw [List.length_cons, ih.depth, underway.depth]
    case bound =>
      have depth := ih.depth
      rw [List.length_cons]
      omega
    case provides => exact fun other => (advances.provides other).trans (ih.provides other)

/-- What holds of every call within an outermost one. -/
structure Call.Disciplined (setup : Setup) (outermost : Workspace) (call : Call) : Prop where
  /-- The call is one step with calls of the same loader inside. -/
  unrolls : ensureChecked setup call.workspace call.uri = loadOnce (ensureChecked setup) setup
    (decide (call.workspace.loadDepth < setup.limits.maxLoadDepth)) call.workspace call.uri
  entry : ∀ uri, (call.workspace.state uri).isInProgress = true ↔ uri ∈ call.stack
  exit : ∀ uri, ((ensureChecked setup call.workspace call.uri).2.state uri).isInProgress = true ↔ uri ∈ call.stack
  distinct : call.stack.Nodup
  depth : call.workspace.loadDepth = call.stack.length
  depthAfter : (ensureChecked setup call.workspace call.uri).2.loadDepth = call.stack.length
  bound : call.stack.length ≤ setup.limits.maxLoadDepth
  circular : (∃ uri, (ensureChecked setup call.workspace call.uri).1 = some (.circular uri)) ↔
    (∃ document, provided setup outermost call.uri = .ok document) ∧ call.uri ∈ call.stack

theorem Call.Consistent.disciplined {setup : Setup} {outermost : Workspace} {call : Call}
    (consistent : call.Consistent setup outermost) : call.Disciplined setup outermost := by
  have loads := ensureChecked_loads setup call.workspace call.uri
  constructor
  case unrolls => exact ensureChecked_eq ..
  case entry => exact consistent.progress
  case exit => exact fun uri => (loads.progress uri).trans (consistent.progress uri)
  case distinct => exact consistent.distinct
  case depth => exact consistent.depth.symm
  case depthAfter => rw [loads.depth, consistent.depth]
  case bound => exact consistent.bound
  case circular => rw [ensureChecked_circular_iff, consistent.provides, consistent.progress]

/-- The loader as a state machine, whatever the provider: the stack discipline of every call within an outermost one, and
what the outermost call comes to. -/
theorem ensureChecked_disciplined {base : Setup} {workspace : Workspace} (reachable : Reachable base workspace)
    (files : FileTree) (uri : String) :
    let setup := base.over files
    let answer := (ensureChecked setup workspace uri).1
    let after := (ensureChecked setup workspace uri).2
    (∀ call, Call.Within setup workspace uri call → call.Disciplined setup workspace) ∧
      (∃ taken, after.log = taken ++ workspace.log ∧ taken.Nodup) ∧
      (∀ other, (after.state other).isInProgress = false) ∧
      after.loadDepth = 0 ∧
      (∀ other, answer ≠ some (.circular other)) ∧
      (answer = none → ∃ document record, provided setup workspace uri = .ok document ∧
        after.record? uri = some record ∧ record.state = .checked ∧ record.version = document.version ∧
        record.text = document.text ∧ record.parseErrors = (parse document.text setup.trailing).errors ∧
        record.node = some (parse document.text setup.trailing).node) := by
  intro setup answer after
  have idle : workspace.Idle setup.trailing := reachable.idle
  have loads := ensureChecked_loads setup workspace uri
  obtain ⟨taken, advances⟩ := loads.advances
  refine ⟨fun call within => (within.consistent idle).disciplined, ⟨taken, advances.log, advances.once⟩, ?_, ?_, ?_, ?_⟩
  · exact fun other => Bool.eq_false_iff.mpr ((idle.loads loads).progress other)
  · exact (idle.loads loads).depth
  · intro other circle
    exact idle.progress uri (ensureChecked_circular_iff.mp ⟨other, circle⟩).2
  · intro success
    obtain ⟨document, record, provides, known, current⟩ := ensureChecked_none success
    obtain ⟨checked, version, text⟩ := FileRecord.state_of_isCurrent current
    obtain ⟨errors, node⟩ := (idle.loads loads).faithful uri record known
    rw [text] at errors node
    exact ⟨document, record, (advances.provides uri).symm.trans provides, known, checked, version, text, errors,
      node checked⟩

/-- A use clause on its own has the module of its path loaded. -/
theorem consults_of_use {setup : Setup} {workspace : Workspace} {document : TextDocument} {module : ModulePath}
    {isExport : Bool} {goal : PathTarget} {uri : String}
    (shape : ((parse document.text setup.trailing).node.children.map fun clause =>
      (clause.kind, (clause.child? .path).map (walkPath setup.limits module))) = [(.useClause isExport, some (.ok goal))])
    (placed : (workspace.table.clearUri document.uri).moduleOfUri? document.uri = some module)
    (implemented : (workspace.table.clearUri document.uri).uriOfModule? goal.module = some uri)
    (away : goal.module ≠ module) (apart : uri ≠ document.uri) :
    Consults (fun load => checkDocument load setup workspace document) (ensureChecked setup)
      (workspace.takeUp document (parse document.text setup.trailing).errors) uri := by
  obtain ⟨clause, children, fits⟩ := List.map_eq_singleton_iff.mp shape
  obtain ⟨kind, walk⟩ := Prod.mk.inj fits
  obtain ⟨path, found, walked⟩ := Option.map_eq_some_iff.mp walk
  generalize taken : workspace.takeUp document (parse document.text setup.trailing).errors = start
  have table : start.table = workspace.table.clearUri document.uri := taken ▸ rfl
  rw [← table] at placed implemented
  classical
  -- the answer in place of the true one has a log that the true run does not come to
  let marked : Workspace := { log := "" :: (checkDocument (ensureChecked setup) setup workspace document).log }
  let other : Loader := fun elsewhere v =>
    if (elsewhere, v) = (start, uri) then (some (.notFound uri), marked) else ensureChecked setup elsewhere v
  refine ⟨other, fun elsewhere v differs => if_neg differs, fun same => ?_⟩
  have answer : other start uri = (some (.notFound uri), marked) := if_pos rfl
  have hoisted : ∀ errors, ∃ scope : Scope, scope.workspace.log = marked.log ∧
      Scope.hoist other setup.limits { workspace := start, uri := document.uri, module, errors }
        (parse document.text setup.trailing).node = ([], scope) := by
    intro errors
    have asked : Scope.loadModule other { workspace := start, uri := document.uri, module, errors } goal.module
        path.span = _ := Scope.loadModule_of_other implemented apart path.span
    rw [answer] at asked
    simp only [Scope.hoist, children, List.foldl_cons, List.foldl_nil, Hoisting.step, kind, Hoisting.enterUse, found,
      Scope.resolveEarly, walked, Scope.reachModule, away, if_false, asked, Bool.not_false, if_true]
    refine ⟨_, (Scope.recordMentions_log ..).trans ?_, rfl⟩
    exact congrArg (fun reply : Option LoadError × Workspace => reply.2.log) answer
  have log : (checkDocument other setup workspace document).log = marked.log := by
    simp only [checkDocument, taken, moduleOf, placed]
    generalize (if module.isRoot = true then _ else _ : List Diagnostic) = errors
    obtain ⟨scope, kept, hoisted⟩ := hoisted errors
    simp only [process, hoisted, Scope.check, children, List.foldl_cons, List.foldl_nil, Scope.checkDeclaration, kind]
    exact kept
  have longer := congrArg (List.length ∘ Workspace.log) same
  simp [log, marked] at longer

/-- Two documents that use each other: `::a` asks for `::b`, which asks for `::a` and is told of the
circle. -/
theorem ensureChecked_disciplined_circle :
    let setup : Setup := ({} : Setup).over {}
    let workspace := pairWorkspace "use ::b::B;" "use ::a::A;"
    Reachable {} workspace ∧ ∃ call, Call.Within setup workspace "file:///a.sdoc" call ∧
      call.Disciplined setup workspace ∧ call.uri = "file:///a.sdoc" ∧
      call.stack = ["file:///b.sdoc", "file:///a.sdoc"] ∧
      ∃ uri, (ensureChecked setup call.workspace call.uri).1 = some (.circular uri) := by
  intro setup workspace
  have reachable : Reachable {} workspace := pairWorkspace_reachable {} _ _
  have disciplined := (ensureChecked_disciplined reachable {} "file:///a.sdoc").1
  have left : ((parse "use ::b::B;" .allowed).node.children.map fun clause =>
      (clause.kind, (clause.child? .path).map (walkPath setup.limits ⟨["a"]⟩))) =
      [(.useClause false, some (.ok ⟨⟨["b"]⟩, "B", ⟨9, 10⟩, [⟨⟨["b"]⟩, ⟨6, 7⟩, true⟩]⟩))] := by decide +kernel
  have right : ((parse "use ::a::A;" .allowed).node.children.map fun clause =>
      (clause.kind, (clause.child? .path).map (walkPath setup.limits ⟨["b"]⟩))) =
      [(.useClause false, some (.ok ⟨⟨["a"]⟩, "A", ⟨9, 10⟩, [⟨⟨["a"]⟩, ⟨6, 7⟩, true⟩]⟩))] := by decide +kernel
  have first : Call.Within setup workspace "file:///a.sdoc" ⟨_, "file:///b.sdoc", ["file:///a.sdoc"]⟩ :=
    .nested .outermost rfl (by decide) (consults_of_use left (by decide +kernel) (by decide +kernel) (by decide) (by decide))
  have second : Call.Within setup workspace "file:///a.sdoc"
      ⟨_, "file:///a.sdoc", ["file:///b.sdoc", "file:///a.sdoc"]⟩ :=
    .nested first rfl (by decide) (consults_of_use right (by decide +kernel) (by decide +kernel) (by decide) (by decide))
  have available : provided setup workspace "file:///a.sdoc" = .ok ⟨"file:///a.sdoc", 1, "use ::b::B;"⟩ := rfl
  refine ⟨reachable, _, second, disciplined _ second, rfl, rfl, ?_⟩
  exact (disciplined _ second).circular.mpr ⟨⟨_, available⟩, by simp⟩

end Workspace

end SchemaDoc
