import SchemaDoc.Proofs.InvalidationLoop
import SchemaDoc.Proofs.KeyedEntries
import SchemaDoc.Proofs.PassCoupling

/-! One load, step by step: what a document provider has, when a document is taken up, and what each
change of a workspace does to the records. -/

namespace SchemaDoc

/-- What a property of scopes has to guarantee to hold throughout the passes over a document. -/
structure Pass.Invariant (pass : Pass) (load : Loader) (Resolved : Scope → Node → SymbolPath → Prop)
    (Known : Scope → SymbolPath → Prop) (Holds : Scope → Prop) : Prop where
  place : ∀ {scope}, Holds scope → scope.uri = pass.uri ∧ scope.module = pass.module
  arrives : ∀ {scope path goal}, Holds scope → pass.Leads path goal → (scope.arrival goal).1 = true →
    Resolved scope path (scope.arrival goal).2.1
  learn : ∀ {scope path goal target}, Holds scope → pass.Leads path goal → Resolved scope path target →
    Known (scope.write true target { usage := some { kind := .reference, location := ⟨pass.uri, goal.nameSpan⟩ } }) target
  retain : ∀ {scope after target}, Holds scope → pass.Step load Resolved Known scope after → Known scope target →
    Known after target
  load : ∀ {scope path goal uri}, Holds scope → pass.Leads path goal →
    scope.workspace.table.uriOfModule? goal.module = some uri → uri ≠ pass.uri → Holds (scope.loaded load uri)
  add : ∀ {scope diagnostic}, Holds scope → pass.Reports diagnostic → Holds (scope.add diagnostic)
  write : ∀ {scope creates address record}, Holds scope →
    pass.Writes Resolved Known scope creates address record → Holds (scope.write creates address record)
  steady : ∀ {scope path target creates address usage}, Holds scope → Resolved scope path target →
    usage.kind = .reference → Resolved (scope.write creates address { usage := some usage }) path target
  checking : ∀ {scope}, Holds scope → Holds scope.checking

namespace Pass.Invariant

variable {pass : Pass} {load other : Loader} {Resolved : Scope → Node → SymbolPath → Prop}
  {Known : Scope → SymbolPath → Prop} {Holds : Scope → Prop}

/-- A loader that answers alike wherever the invariant holds cannot be told from the one at hand. -/
theorem coupling (invariant : pass.Invariant load Resolved Known Holds)
    (agrees : ∀ {scope} uri, Holds scope → load scope.workspace uri = other scope.workspace uri) :
    Coupling pass load other Resolved Known (fun _ => True) fun left right => left = right ∧ Holds left := by
  constructor
  case left => exact fun related => invariant.place related.2
  case right => exact fun related => invariant.place (related.1 ▸ related.2)
  case implementer | sight => simp +contextual
  case home =>
    rintro left _ path goal ⟨rfl, holds⟩ leads -
    exact ⟨rfl, invariant.arrives holds leads⟩
  case learn => exact fun related => invariant.learn related.2
  case retain => exact fun related => invariant.retain related.2
  case load =>
    rintro left _ path goal uri ⟨rfl, holds⟩ leads implemented apart -
    have onward := invariant.load holds leads implemented apart
    have same : left.loaded load uri = left.loaded other uri := by simp only [Scope.loaded, agrees uri holds]
    rw [← agrees uri holds]
    exact ⟨rfl, ⟨same, onward⟩, fun _ => ⟨congrArg (Scope.arrival · goal) same, invariant.arrives onward leads⟩⟩
  case kind => simp +contextual
  case add =>
    rintro left _ diagnostic ⟨rfl, holds⟩ reports
    exact ⟨rfl, invariant.add holds reports⟩
  case write =>
    rintro left _ creates address record ⟨rfl, holds⟩ writes
    exact ⟨rfl, invariant.write holds writes⟩
  case steady => exact fun related => invariant.steady related.2
  case checking =>
    rintro left _ ⟨rfl, holds⟩
    exact ⟨rfl, invariant.checking holds⟩

/-- An invariant holds at the end, whichever of the two loaders is asked. -/
theorem process (invariant : pass.Invariant load Resolved Known Holds) {setup : Setup}
    (limits : setup.limits = pass.limits) (workspace : Workspace) (errors : List Diagnostic)
    (start : Holds { workspace, uri := pass.uri, module := pass.module, errors })
    (agrees : ∀ {scope} uri, Holds scope → load scope.workspace uri = other scope.workspace uri) :
    Workspace.process load setup workspace pass.uri pass.module errors pass.root =
        Workspace.process other setup workspace pass.uri pass.module errors pass.root ∧
      Holds (Workspace.process load setup workspace pass.uri pass.module errors pass.root) :=
  (invariant.coupling agrees).process limits ⟨rfl, start⟩ fun _ _ => trivial

/-- A property that every step keeps may be carried along. -/
theorem along (invariant : pass.Invariant load Resolved Known Holds) (Also : Scope → Prop)
    (step : ∀ {scope after}, Holds scope → pass.Step load Resolved Known scope after → Also scope → Also after) :
    pass.Invariant load Resolved Known fun scope => Holds scope ∧ Also scope where
  place holds := invariant.place holds.1
  arrives holds := invariant.arrives holds.1
  learn holds := invariant.learn holds.1
  retain holds := invariant.retain holds.1
  load holds leads implemented apart :=
    ⟨invariant.load holds.1 leads implemented apart, step holds.1 (.load leads implemented apart) holds.2⟩
  add holds reports := ⟨invariant.add holds.1 reports, step holds.1 (.add reports) holds.2⟩
  write holds writes := ⟨invariant.write holds.1 writes, step holds.1 (.write writes) holds.2⟩
  steady holds := invariant.steady holds.1
  checking holds := ⟨invariant.checking holds.1, step holds.1 .checking holds.2⟩

end Pass.Invariant

namespace Workspace

theorem record?_putRecord (workspace : Workspace) (uri other : String) (record : FileRecord) :
    (workspace.putRecord uri record).record? other =
      if other = uri then some record else workspace.record? other := by
  simp only [record?, putRecord]
  by_cases same : other = uri
  · simp [same]
  · rw [if_neg same, List.lookup_cons, beq_false_of_ne same]
    induction workspace.records with
    | nil => rfl
    | cons entry entries ih =>
      obtain ⟨key, value⟩ := entry
      by_cases dropped : key = uri
      · subst dropped
        simp [List.lookup_cons, beq_false_of_ne same, ih]
      · by_cases here : other = key
        · subst here
          simp [dropped]
        · simp [List.lookup_cons, dropped, beq_false_of_ne here, ih]

/-- Changing records in place changes what is found and nothing else. -/
theorem record?_modifyRecord (workspace : Workspace) (uri other : String) (change : FileRecord → FileRecord) :
    (workspace.modifyRecord uri change).record? other =
      if other = uri then (workspace.record? other).map change else workspace.record? other :=
  lookup_adjust uri change workspace.records other

theorem records_invalidate (workspace : Workspace) (uri : String) :
    (workspace.invalidate uri).2.records = workspace.records.unparseAll (workspace.invalidate uri).1 :=
  (Records.spreading_invalidateFrom workspace.records uri).records

theorem record?_invalidate (workspace : Workspace) (uri other : String) :
    (workspace.invalidate uri).2.record? other =
      if other ∈ (workspace.invalidate uri).1 then
        (workspace.record? other).map fun record => { record with state := .unparsed }
      else workspace.record? other := by
  rw [record?, record?, records_invalidate, Records.unparseAll]
  generalize (workspace.invalidate uri).1 = uris
  have inPlace : (fun entry : String × FileRecord =>
      if entry.1 ∈ uris then (entry.1, { entry.2 with state := .unparsed }) else entry) =
      fun entry => (entry.1, (if entry.1 ∈ uris then fun record : FileRecord => { record with state := .unparsed }
        else id) entry.2) := by
    funext entry
    by_cases marked : entry.1 ∈ uris <;> simp [marked]
  rw [inPlace, lookup_map_entries fun key => if key ∈ uris then _ else id]
  by_cases marked : other ∈ uris <;> simp [marked]

theorem record?_takeUp (workspace : Workspace) (document : TextDocument) (errors : List Diagnostic) (other : String) :
    (workspace.takeUp document errors).record? other =
      if other = document.uri then
        some { version := document.version, text := document.text, state := .parsed, parseErrors := errors }
      else workspace.record? other :=
  record?_putRecord _ _ _ _

theorem record?_conclude (workspace : Workspace) (uri : String) (node : Node) (errors : List Diagnostic)
    (dependencies : List String) (other : String) :
    (workspace.conclude uri node errors dependencies).record? other =
      if other = uri then (workspace.record? other).map fun record =>
        { record with state := .checked, node := some node, errors, dependencies }
      else workspace.record? other :=
  record?_modifyRecord _ _ _ _

theorem table_concluded (workspace : Workspace) (uri : String) (node : Node) (errors : List Diagnostic)
    (dependencies : List String) : (workspace.conclude uri node errors dependencies).leave.table = workspace.table := rfl

theorem record?_concluded {workspace : Workspace} {uri : String} {record : FileRecord}
    (known : workspace.record? uri = some record) (node : Node) (errors : List Diagnostic) (dependencies : List String) :
    (workspace.conclude uri node errors dependencies).leave.record? uri =
      some { record with state := .checked, node := some node, errors, dependencies } := by
  have noted := record?_conclude workspace uri node errors dependencies uri
  rw [if_pos rfl, known] at noted
  exact noted

def InProgress (workspace : Workspace) (uri : String) : Prop := (workspace.state uri).isInProgress = true

theorem inProgress_iff {workspace : Workspace} {uri : String} :
    workspace.InProgress uri ↔ ∃ record, workspace.record? uri = some record ∧ record.state.isInProgress = true := by
  rw [InProgress, state]
  cases workspace.record? uri with
  | none => simp [FileState.isInProgress]
  | some record => simp

theorem inProgress_congr {before after : Workspace} {uri : String} (same : after.record? uri = before.record? uri) :
    after.InProgress uri ↔ before.InProgress uri := by
  rw [inProgress_iff, inProgress_iff, same]

/-- The document that the provider has for a uri. -/
def provided (setup : Setup) (workspace : Workspace) (uri : String) : Except DocumentError TextDocument :=
  (setup.provider.read workspace.documents setup.files setup.limits.maxFileSizeBytes uri).map Prod.fst

theorem fetch_fst (setup : Setup) (workspace : Workspace) (uri : String) :
    (fetch setup workspace uri).1 = provided setup workspace uri := by
  rw [fetch, provided]
  split <;> simp_all [Except.map]

theorem fetch_snd (setup : Setup) (workspace : Workspace) (uri : String) :
    ∃ documents, (fetch setup workspace uri).2 = { workspace with documents } := by
  rw [fetch]
  split
  · exact ⟨_, rfl⟩
  · exact ⟨workspace.documents, rfl⟩

theorem table_entered (setup : Setup) (workspace : Workspace) (uri : String) :
    (fetch setup workspace uri).2.enter.table = workspace.table := by
  obtain ⟨documents, fetched⟩ := fetch_snd setup workspace uri
  rw [fetched]
  rfl

theorem table_takenUp (setup : Setup) (workspace : Workspace) (uri : String) (document : TextDocument) (errors : List Diagnostic) :
    ((fetch setup workspace uri).2.enter.takeUp document errors).table = workspace.table.clearUri document.uri :=
  congrArg (fun table => table.clearUri document.uri) (table_entered setup workspace uri)

theorem provided_uri {setup : Setup} {workspace : Workspace} {uri : String} {document : TextDocument}
    (provides : provided setup workspace uri = .ok document) : document.uri = uri := by
  rw [provided] at provides
  cases found : setup.provider.read workspace.documents setup.files setup.limits.maxFileSizeBytes uri with
  | error failure =>
    rw [found] at provides
    cases provides
  | ok answer =>
    rw [found] at provides
    cases provides
    exact setup.provider.read_uri found

/-- Keeping what was read does not change what the provider has. -/
theorem provided_fetch (setup : Setup) (workspace : Workspace) (uri other : String) :
    provided setup (fetch setup workspace uri).2 other = provided setup workspace other := by
  rw [fetch]
  cases found : setup.provider.read workspace.documents setup.files setup.limits.maxFileSizeBytes uri with
  | error failure => rfl
  | ok answer => exact setup.provider.read_after found other

/-- Whether a document has to be processed, by what is provided and what is on record. -/
def judge (uri : String) : Except DocumentError TextDocument → Option FileRecord → Admission
  | .error _, _ => .settled (some (.notFound uri))
  | .ok document, none => .admitted document
  | .ok document, some record =>
    if record.isCurrent document then .settled none
    else if record.state.isInProgress then .settled (some (.circular uri))
    else .admitted document

theorem admission_eq (setup : Setup) (workspace : Workspace) (uri : String) :
    admission setup workspace uri =
      (judge uri (provided setup workspace uri) (workspace.record? uri), (fetch setup workspace uri).2) := by
  obtain ⟨documents, fetched⟩ := fetch_snd setup workspace uri
  rw [admission, ← fetch_fst]
  cases outcome : fetch setup workspace uri with
  | mk answer after =>
    rw [outcome] at fetched
    have same : after.record? uri = workspace.record? uri := by
      change after = _ at fetched
      rw [fetched]
      rfl
    cases answer with
    | error failure => rfl
    | ok document =>
      simp only [same]
      cases workspace.record? uri with
      | none => rfl
      | some record =>
        simp only [judge]
        split
        · rfl
        · split <;> rfl

/-- A document that needs a check: it is provided, not on the way, and not checked as it is. -/
structure Needs (setup : Setup) (workspace : Workspace) (uri : String) (document : TextDocument) : Prop where
  provides : provided setup workspace uri = .ok document
  idle : ¬workspace.InProgress uri
  stale : ∀ record, workspace.record? uri = some record → record.isCurrent document = false

theorem judge_admitted {setup : Setup} {workspace : Workspace} {uri : String} {document : TextDocument}
    (admitted : judge uri (provided setup workspace uri) (workspace.record? uri) = .admitted document) :
    Needs setup workspace uri document := by
  cases provides : provided setup workspace uri with
  | error failure =>
    rw [provides] at admitted
    cases admitted
  | ok found =>
    rw [provides] at admitted
    cases known : workspace.record? uri with
    | none =>
      rw [known] at admitted
      cases admitted
      exact ⟨provides, by simp [inProgress_iff, known], by simp [known]⟩
    | some record =>
      rw [known, judge] at admitted
      split at admitted
      · cases admitted
      · next stale =>
        split at admitted
        · cases admitted
        · next idle =>
          cases admitted
          refine ⟨provides, ?_, ?_⟩
          · simpa [inProgress_iff, known] using idle
          · simpa [known] using stale

theorem admission_admitted {setup : Setup} {workspace : Workspace} {uri : String} {document : TextDocument}
    (provides : provided setup workspace uri = .ok document)
    (stale : ∀ record ∈ workspace.record? uri, record.isCurrent document = false ∧ record.state.isInProgress = false) :
    (admission setup workspace uri).1 = .admitted document := by
  rw [admission_eq, provides]
  cases known : workspace.record? uri with
  | none => rfl
  | some record =>
    obtain ⟨outdated, idle⟩ := stale record known
    simp [judge, outdated, idle]

/-- A load, one step unrolled: `load` does the nested ones, and `isAllowed` tells whether the depth
leaves room for a check. -/
def loadOnce (load : Loader) (setup : Setup) (isAllowed : Bool) : Loader := fun workspace uri =>
  match admission setup workspace uri with
  | (.settled error, workspace) => (error, workspace)
  | (.admitted document, workspace) =>
    if isAllowed then (none, (checkDocument load setup workspace.enter document).leave)
    else (some (.tooDeep setup.limits.maxLoadDepth), workspace)

theorem loadWithin_zero (load : Loader) (setup : Setup) : loadWithin setup 0 = loadOnce load setup false := by
  funext workspace uri
  rw [loadWithin, loadOnce]
  rcases admission setup workspace uri with ⟨error | document, after⟩ <;> rfl

theorem loadWithin_succ (setup : Setup) (budget : Nat) :
    loadWithin setup (budget + 1) = loadOnce (loadWithin setup budget) setup true := by
  funext workspace uri
  rw [loadWithin, loadOnce]
  rcases admission setup workspace uri with ⟨error | document, after⟩ <;> rfl

/-- A relation between the workspaces before and after loads holds if it survives fetching and a check
whose own loads respect it. -/
theorem loadWithin_induction {setup : Setup} (Relates : Workspace → Workspace → Prop)
    (fetches : ∀ workspace uri, Relates workspace (fetch setup workspace uri).2)
    (checks : ∀ {load : Loader} {workspace uri document}, (∀ workspace uri, Relates workspace (load workspace uri).2) →
      Needs setup workspace uri document →
      Relates workspace (checkDocument load setup (fetch setup workspace uri).2.enter document).leave)
    (budget : Nat) (workspace : Workspace) (uri : String) :
    Relates workspace (loadWithin setup budget workspace uri).2 := by
  have once : ∀ (load : Loader) isAllowed, (isAllowed = true → ∀ workspace uri, Relates workspace (load workspace uri).2) →
      ∀ workspace uri, Relates workspace (loadOnce load setup isAllowed workspace uri).2 := by
    intro load isAllowed nested workspace uri
    simp only [loadOnce, admission_eq]
    cases verdict : judge uri (provided setup workspace uri) (workspace.record? uri) with
    | settled error => exact fetches workspace uri
    | admitted document =>
      cases isAllowed with
      | false => exact fetches workspace uri
      | true => exact checks (nested rfl) (judge_admitted verdict)
  induction budget generalizing workspace uri with
  | zero =>
    rw [loadWithin_zero fun workspace _ => (none, workspace)]
    exact once _ false (by simp) workspace uri
  | succ budget ih =>
    rw [loadWithin_succ]
    exact once _ true (fun _ => ih) workspace uri

def passOf (setup : Setup) (document : TextDocument) (module : ModulePath) : Pass :=
  ⟨setup.limits, document.uri, module, (parse document.text setup.trailing).node⟩

theorem moduleOf_eq_some {table : SymbolTable} {uri : String} {module : ModulePath} {errors : List Diagnostic}
    (found : moduleOf table uri = (some module, errors)) : table.moduleOfUri? uri = some module := by
  rw [moduleOf] at found
  split at found
  · cases found
  · next other known =>
    cases found
    exact known

/-- What an invariant of the passes says about a check. A document of no module has no passes. -/
theorem checkDocument_ends {load : Loader} {setup : Setup} {workspace : Workspace} {document : TextDocument}
    {Resolved : Scope → Node → SymbolPath → Prop} {Known : Scope → SymbolPath → Prop} (Ends : Workspace → Prop)
    (Holds : ModulePath → Scope → Prop)
    (alone : ∀ errors, Ends ((workspace.takeUp document (parse document.text setup.trailing).errors).conclude
      document.uri (parse document.text setup.trailing).node errors []))
    (start : ∀ module errors, (workspace.table.clearUri document.uri).moduleOfUri? document.uri = some module →
      Holds module { workspace := workspace.takeUp document (parse document.text setup.trailing).errors,
                     uri := document.uri, module, errors })
    (invariant : ∀ module, (passOf setup document module).Invariant load Resolved Known (Holds module))
    (finish : ∀ module scope, Holds module scope → Ends (scope.workspace.conclude document.uri
      (parse document.text setup.trailing).node scope.errors scope.dependencies)) :
    Ends (checkDocument load setup workspace document) := by
  rw [checkDocument]
  dsimp only
  split
  · exact alone _
  · next module errors found =>
    have begun := start module errors (moduleOf_eq_some found)
    exact finish module _ ((invariant module).process rfl _ errors begun fun _ _ => rfl).2

/-- A check cannot tell loaders apart that answer alike wherever an invariant of its passes holds. -/
theorem checkDocument_congr {load other : Loader} {setup : Setup} {workspace : Workspace} {document : TextDocument}
    {Resolved : Scope → Node → SymbolPath → Prop} {Known : Scope → SymbolPath → Prop} {Holds : ModulePath → Scope → Prop}
    (start : ∀ module errors, (workspace.table.clearUri document.uri).moduleOfUri? document.uri = some module →
      Holds module { workspace := workspace.takeUp document (parse document.text setup.trailing).errors,
                     uri := document.uri, module, errors })
    (invariant : ∀ module, (passOf setup document module).Invariant load Resolved Known (Holds module))
    (agrees : ∀ {module scope} uri, Holds module scope → load scope.workspace uri = other scope.workspace uri) :
    checkDocument load setup workspace document = checkDocument other setup workspace document := by
  simp only [checkDocument]
  split
  · rfl
  · next module errors found =>
    have begun := start module errors (moduleOf_eq_some found)
    have same := ((invariant module).process rfl _ errors begun fun uri holds => agrees uri holds).1
    exact congrArg (fun scope : Scope => scope.workspace.conclude document.uri
      (parse document.text setup.trailing).node scope.errors scope.dependencies) same

end Workspace

end SchemaDoc
