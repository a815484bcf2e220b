import SchemaDoc.Proofs.DocumentCoverage
import SchemaDoc.Proofs.PassStages
import SchemaDoc.Proofs.SettledReferences
import SchemaDoc.Proofs.UsagePlaces

/-! What a document is told about paths that lead nowhere. A path that is resolved adds no diagnostic, a
path that is not adds exactly one; and of a use clause, which may be tried ahead and again later, it is
known in the end whether its alias was entered, or its name was taken, or its path failed. -/

namespace SchemaDoc

namespace Node

theorem contains_of_mem_preorder {root node : Node} (wellFormed : root.isWellFormed = true) (member : node ∈ root.preorder) :
    root.span.contains node.span = true := by
  have handed : ∀ node : Node, node.isWellFormed = true ∧ root.span.contains node.span = true → ∀ child ∈ node.children,
      child.isWellFormed = true ∧ root.span.contains child.span = true := by
    rintro node ⟨own, within⟩ child among
    obtain ⟨-, inside, -, each⟩ := isWellFormed_iff.mp own
    exact ⟨each child among, Span.contains_trans within (inside child among)⟩
  exact (forall_preorder_of_handed handed ⟨wellFormed, Span.contains_refl _⟩ node member).2

end Node

theorem Span.slice_of_empty {span : Span} {text : String} (empty : span.stop ≤ span.start) : span.slice text = "" := by
  have width : min span.stop text.utf8ByteSize - min span.start (min span.stop text.utf8ByteSize) = 0 := by omega
  simp only [Span.slice, width, takeBytes]
  split <;> rfl

theorem IsWrittenAt.visible {text name : String} {span : Span} (written : IsWrittenAt text name span) :
    span.start < span.stop := by
  by_contra empty
  have nothing := written.slice
  rw [Span.slice_of_empty (by omega)] at nothing
  exact written.word.1 (by rw [← nothing]; rfl)

theorem parse_children (text : String) (trailing : TrailingPolicy) :
    (parse text trailing).node.children.Pairwise (fun first second => first.span.Apart second.span) ∧
      ∀ child ∈ (parse text trailing).node.children, child.isWellFormed = true := by
  obtain ⟨found, outline, _, result⟩ := parse_outline text trailing
  obtain ⟨pieces, tiles, same⟩ := outline.tiles
  have apart := same.pairwise tiles.apart fun apart => apart.symm
  rw [result]
  refine ⟨List.pairwise_map.mp (apart.sublist (List.sublist_append_left _ _)), ?_⟩
  intro child member
  exact (outline.laid.mem member).wellFormed

theorem parse_apart {text : String} {trailing : TrailingPolicy} {front back : List Node} {declaration : Node}
    (children : (parse text trailing).node.children = front ++ declaration :: back) :
    ∀ other ∈ front ++ back, other ∈ (parse text trailing).node.children ∧ other.span.Apart declaration.span := by
  obtain ⟨apart, -⟩ := parse_children text trailing
  rw [children, List.pairwise_append, List.pairwise_cons] at apart
  intro other member
  rw [children]
  rcases List.mem_append.mp member with ahead | behind
  · exact ⟨List.mem_append_left _ ahead, apart.2.2 other ahead declaration List.mem_cons_self⟩
  · exact ⟨List.mem_append_right _ (List.mem_cons_of_mem _ behind), (apart.2.1.1 other behind).symm⟩

/-- What is said about a path that leads nowhere. -/
def unresolvedMessages : List Message :=
  [.pathTooDeep, .superFromRoot, .unknownModule, .circularModuleDependency, .unknownIdentifier]

def Diagnostic.IsUnresolved (diagnostic : Diagnostic) : Prop :=
  ∃ message ∈ unresolvedMessages, ∃ arguments span, diagnostic = .ofMessage message arguments span

def Node.IsPart (path : Node) (span : Span) : Prop := span = path.span ∨ ∃ child ∈ path.children, span = child.span

def Scope.Reported (before : Scope) (path : Node) (after : Scope) : Prop :=
  ∃ diagnostic : Diagnostic, diagnostic.IsUnresolved ∧ path.IsPart diagnostic.span ∧
    after.errors = before.errors ++ [diagnostic]

namespace Scope

variable {load : Loader} {limits : Limits} {scope : Scope} {path : Node}

theorem reported_report {before : Scope} (same : scope.errors = before.errors) {message : Message}
    (among : message ∈ unresolvedMessages) (arguments : List String) {span : Span} (part : path.IsPart span) :
    before.Reported path (scope.report message arguments span) :=
  ⟨.ofMessage message arguments span, ⟨message, among, arguments, span, rfl⟩, part, congrArg (· ++ _) same⟩

@[simp] theorem recordMentions_errors (scope : Scope) (mentions : List ModuleMention) :
    (scope.recordMentions mentions).errors = scope.errors := by
  induction mentions generalizing scope with
  | nil => rfl
  | cons mention mentions ih => exact ih _

theorem reachModule_errors (load : Loader) (scope : Scope) (goal : PathTarget) (path : Node) :
    (scope.reachModule load goal path.span).1 = true ∧ (scope.reachModule load goal path.span).2.errors = scope.errors ∨
      (scope.reachModule load goal path.span).1 = false ∧
        scope.Reported path (scope.reachModule load goal path.span).2 := by
  rw [reachModule]
  split
  · exact .inl ⟨rfl, rfl⟩
  · cases implemented : scope.workspace.table.uriOfModule? goal.module with
    | none =>
      simp only [loadModule, implemented]
      exact .inr ⟨trivial, reported_report rfl (by decide) _ (.inl rfl)⟩
    | some uri =>
      by_cases own : uri = scope.uri
      · simp only [loadModule, implemented, if_pos own]
        exact .inl ⟨trivial, trivial⟩
      · rw [loadModule_of_other implemented own]
        split
        · exact .inl ⟨rfl, rfl⟩
        · next failure _ =>
          have among : failureMessage failure ∈ unresolvedMessages := by cases failure <;> simp [failureMessage, unresolvedMessages]
          exact .inr ⟨rfl, reported_report rfl among _ (.inl rfl)⟩

theorem isPart_nameSpan {module : ModulePath} {goal : PathTarget} (walked : walkPath limits module path = .ok goal) :
    path.IsPart goal.nameSpan := by
  obtain ⟨child, among, same⟩ := mem_pathSegments (List.mem_of_getLast? (walkPath_inversion walked).1)
  exact .inr ⟨child, among, same.symm⟩

theorem resolveEarly_errors (load : Loader) (limits : Limits) (scope : Scope) (path : Node) :
    (scope.resolveEarly load limits path).1 = .failed ∧ scope.Reported path (scope.resolveEarly load limits path).2 ∨
      (scope.resolveEarly load limits path).1 ≠ .failed ∧
        (scope.resolveEarly load limits path).2.errors = scope.errors := by
  cases walked : walkPath limits scope.module path with
  | error failure =>
    simp only [resolveEarly, walked]
    exact .inr ⟨by simp, trivial⟩
  | ok goal =>
    simp only [resolveEarly, walked]
    rcases reachModule_errors load scope goal path with ⟨reached, same⟩ | ⟨stopped, reported⟩
    · simp only [reached, Bool.not_true, Bool.false_eq_true, if_false]
      split
      · exact .inr ⟨by simp, same⟩
      · exact .inr ⟨by simp, (recordMentions_errors ..).trans same⟩
    · rw [stopped]
      simp only [Bool.not_false, if_true]
      obtain ⟨diagnostic, unresolved, part, added⟩ := reported
      exact .inl ⟨trivial, diagnostic, unresolved, part, by simpa using added⟩

/-- Resolving a path with segments adds a diagnostic exactly where it gives nothing, as long as what is
behind the aliases of a name that is seen is seen, too. -/
theorem resolvePath_errors (some : pathSegments path ≠ [])
    (seen : ∀ goal, walkPath limits scope.module path = .ok goal →
      ((scope.recordMentions goal.mentions).reachModule load goal path.span).1 = true →
      (((scope.recordMentions goal.mentions).reachModule load goal path.span).2.arrival goal).1 = true →
      (((scope.recordMentions goal.mentions).reachModule load goal path.span).2.arrival goal).2.2 = true) :
    (scope.resolvePath load limits path).1 = none ∧ scope.Reported path (scope.resolvePath load limits path).2 ∨
      (∃ target, (scope.resolvePath load limits path).1 = Option.some target) ∧
        (scope.resolvePath load limits path).2.errors = scope.errors := by
  cases walked : walkPath limits scope.module path with
  | error failure =>
    simp only [resolvePath, walked]
    rcases walkPath_error walked with ⟨_, empty⟩ | ⟨_, rfl | ⟨child, among, rfl⟩⟩
    · exact absurd empty some
    · have told : scope.Reported path (scope.report .pathTooDeep [toString limits.maxPathDepth] path.span) :=
        reported_report rfl (by decide) _ (.inl rfl)
      exact .inl ⟨trivial, told⟩
    · have told : scope.Reported path (scope.report .superFromRoot [] child.span) :=
        reported_report rfl (by decide) _ (.inr ⟨child, among, rfl⟩)
      exact .inl ⟨trivial, told⟩
  | ok goal =>
    have seen := seen goal walked
    have reach := reachModule_errors load (scope.recordMentions goal.mentions) goal path
    simp only [resolvePath, walked]
    simp only [Reported, recordMentions_errors] at reach
    generalize (scope.recordMentions goal.mentions).reachModule load goal path.span = reached at *
    obtain ⟨flag, after⟩ := reached
    rcases reach with ⟨rfl, same⟩ | ⟨rfl, reported⟩
    · simp only [Bool.not_true, Bool.false_eq_true, if_false]
      cases declared : (after.query goal.address).isDeclared with
      | false =>
        have unknown : (after.query goal.address).isUnknown = true := by simpa [Query.isUnknown, query, Query.start] using declared
        simp only [unknown, if_true]
        exact .inl ⟨trivial, reported_report same (by decide) _ (isPart_nameSpan walked)⟩
      | true =>
        have known : (after.query goal.address).isUnknown = false := by simpa [Query.isUnknown, query, Query.start] using declared
        simp only [known, Bool.false_eq_true, if_false]
        have visible := seen rfl declared
        refine .inr ⟨⟨(after.arrival goal).2.1, ?_⟩, same⟩
        change (if (after.arrival goal).2.2 = true then Option.some (after.arrival goal).2.1 else none) = _
        rw [if_pos visible]
    · simp only [Bool.not_false, if_true]
      exact .inl ⟨trivial, reported⟩

/-- A path with segments comes to nothing if and only if one diagnostic is added, and none is added if it
comes to something. -/
structure ReportsOnce (load : Loader) (limits : Limits) (scope : Scope) (path : Node) : Prop where
  failure : (scope.resolvePath load limits path).1 = none ↔
    ∃ diagnostic, (scope.resolvePath load limits path).2.errors = scope.errors ++ [diagnostic]
  success : ∀ target, (scope.resolvePath load limits path).1 = Option.some target →
    (scope.resolvePath load limits path).2.errors = scope.errors

end Scope

namespace Workspace.Steadily

variable {setup : Setup} {before : Workspace} {document : TextDocument} {module : ModulePath} {scope : Scope} {load : Loader}

def aside (path : Node) : Node := ⟨.document, path.span, none, [path.tagged .path]⟩

theorem resolvePath_errors (settled : before.AllSettled setup)
    (firms : ∀ workspace uri, Firms setup workspace (load workspace uri).2)
    (steadily : Steadily setup before document module scope) (limits : Limits) {path : Node} (some : pathSegments path ≠ []) :
    (scope.resolvePath load limits path).1 = none ∧ scope.Reported path (scope.resolvePath load limits path).2 ∨
      (∃ target, (scope.resolvePath load limits path).1 = Option.some target) ∧
        (scope.resolvePath load limits path).2.errors = scope.errors := by
  apply Scope.resolvePath_errors some
  intro goal walked reached declared
  have coupling := (invariant settled firms limits document module (aside path)).alone
  have leads : (Pass.mk limits document.uri module (aside path)).Leads (path.tagged .path) goal := by
    refine ⟨⟨aside path, Node.self_mem_preorder _, ?_⟩, ?_⟩
    · simp [aside, Node.child?, Node.tagged]
    · rw [← steadily.place.2]
      exact walked
  have mentioned := (coupling.recordMentions leads (fun _ member => member) ⟨rfl, steadily⟩).1
  have onward := (coupling.reachModule leads mentioned fun _ _ => trivial).2.1.2
  exact (onward.firm.arrival declared).2.2

theorem reportsOnce (settled : before.AllSettled setup) (firms : ∀ workspace uri, Firms setup workspace (load workspace uri).2)
    (steadily : Steadily setup before document module scope) (limits : Limits) {path : Node} (some : pathSegments path ≠ []) :
    scope.ReportsOnce load limits path := by
  rcases steadily.resolvePath_errors settled firms limits some with ⟨nothing, diagnostic, _, _, added⟩ | ⟨⟨target, found⟩, same⟩
  · exact ⟨iff_of_true nothing ⟨diagnostic, added⟩, fun target found => by simp [nothing] at found⟩
  · refine ⟨iff_of_false (by simp [found]) ?_, fun _ _ => same⟩
    rintro ⟨diagnostic, added⟩
    simp [same] at added

end Workspace.Steadily

/-- The diagnostic marks some text of the node. -/
def Diagnostic.marks (diagnostic : Diagnostic) (node : Node) : Bool :=
  node.span.contains diagnostic.span && decide (diagnostic.span.start < diagnostic.span.stop)

def Scope.marksOf (scope : Scope) (clause : Node) : List Diagnostic := scope.errors.filter (·.marks clause)

structure Node.IsForeign (clause declaration : Node) : Prop where
  wellFormed : declaration.isWellFormed = true
  apart : declaration.span.Apart clause.span

theorem Node.IsForeign.marks {clause declaration node : Node} (foreign : clause.IsForeign declaration)
    (member : node ∈ declaration.preorder) {diagnostic : Diagnostic} (place : diagnostic.span = node.span) :
    diagnostic.marks clause = false := by
  have inside := Span.contains_iff.mp (contains_of_mem_preorder foreign.wellFormed member)
  have apart := foreign.apart
  rw [Bool.eq_false_iff]
  intro marks
  simp only [Diagnostic.marks, Bool.and_eq_true, decide_eq_true_eq, Span.contains_iff, place] at marks
  unfold Span.Apart at apart
  omega

def Node.solo (declaration : Node) : Node := ⟨.document, declaration.span, none, [declaration]⟩

theorem Node.IsForeign.solo {clause declaration node : Node} (foreign : clause.IsForeign declaration)
    (member : node ∈ declaration.solo.preorder) {diagnostic : Diagnostic} (place : diagnostic.span = node.span) :
    diagnostic.marks clause = false := by
  rcases mem_preorder.mp member with rfl | below
  · exact foreign.marks (self_mem_preorder declaration) place
  · obtain ⟨child, among, deeper⟩ := mem_forestPreorder.mp below
    obtain rfl := List.mem_singleton.mp among
    exact foreign.marks deeper place

namespace Workspace

/-- Nothing is said about the clause any more, and the table has only grown. -/
structure Past (clause : Node) (before after : Scope) : Prop where
  grows : before.workspace.table.Grows after.workspace.table
  marks : after.marksOf clause = before.marksOf clause

theorem Past.refl (clause : Node) (scope : Scope) : Past clause scope scope := ⟨.refl _, rfl⟩

theorem Past.trans {clause : Node} {first second third : Scope} (earlier : Past clause first second)
    (later : Past clause second third) : Past clause first third :=
  ⟨earlier.grows.trans later.grows, later.marks.trans earlier.marks⟩

namespace Steadily

variable {setup : Setup} {before : Workspace} {document : TextDocument} {module : ModulePath} {scope : Scope} {load : Loader}
  {clause declaration : Node}

theorem past_invariant (settled : before.AllSettled setup)
    (firms : ∀ workspace uri, Firms setup workspace (load workspace uri).2) (foreign : clause.IsForeign declaration)
    (limits : Limits) (origin : Scope) :
    (Pass.mk limits document.uri module declaration.solo).Invariant load Pass.Ends Pass.Anchors
      fun scope => Steadily setup before document module scope ∧ Past clause origin scope := by
  apply (invariant settled firms limits document module declaration.solo).along
  intro scope after steadily step past
  refine past.trans ⟨steadily.step settled firms step, ?_⟩
  cases step with
  | add reports =>
    obtain ⟨node, member, place⟩ := reports
    simp [Scope.marksOf, Scope.add, foreign.solo member place]
  | load leads implemented apart => rfl
  | write writes => rfl
  | checking => rfl

private theorem foldl_past {σ : Type} (scopeOf : σ → Scope) (step : σ → Node → σ) {declarations : List Node}
    (each : ∀ {state declaration}, declaration ∈ declarations → Steadily setup before document module (scopeOf state) →
      Steadily setup before document module (scopeOf (step state declaration)) ∧
        Past clause (scopeOf state) (scopeOf (step state declaration)))
    {state : σ} (steadily : Steadily setup before document module (scopeOf state)) :
    Steadily setup before document module (scopeOf (declarations.foldl step state)) ∧
      Past clause (scopeOf state) (scopeOf (declarations.foldl step state)) := by
  induction declarations generalizing state with
  | nil => exact ⟨steadily, .refl ..⟩
  | cons declaration declarations ih =>
    obtain ⟨onward, past⟩ := each (.head _) steadily
    obtain ⟨ended, further⟩ := ih (fun member => each (.tail _ member)) onward
    exact ⟨ended, past.trans further⟩

theorem hoist_foreign (settled : before.AllSettled setup) (firms : ∀ workspace uri, Firms setup workspace (load workspace uri).2)
    (limits : Limits) {declarations : List Node} (foreign : ∀ declaration ∈ declarations, clause.IsForeign declaration)
    {hoisting : Hoisting} (steadily : Steadily setup before document module hoisting.scope) :
    Steadily setup before document module (declarations.foldl (Hoisting.step load limits) hoisting).scope ∧
      Past clause hoisting.scope (declarations.foldl (Hoisting.step load limits) hoisting).scope := by
  refine foldl_past Hoisting.scope _ (fun member steadily => ?_) steadily
  exact (past_invariant settled firms (foreign _ member) limits _).step (List.mem_singleton_self _) ⟨steadily, .refl ..⟩

theorem uses_foreign (settled : before.AllSettled setup) (firms : ∀ workspace uri, Firms setup workspace (load workspace uri).2)
    (limits : Limits) {clauses : List Node} (foreign : ∀ other ∈ clauses, clause.IsForeign other)
    (steadily : Steadily setup before document module scope) :
    Steadily setup before document module (clauses.foldl (Scope.checkUse load limits) scope) ∧
      Past clause scope (clauses.foldl (Scope.checkUse load limits) scope) := by
  refine foldl_past id _ (fun member steadily => ?_) steadily
  exact (past_invariant settled firms (foreign _ member) limits _).checkUse (List.mem_singleton_self _) ⟨steadily, .refl ..⟩

theorem declarations_foreign (settled : before.AllSettled setup)
    (firms : ∀ workspace uri, Firms setup workspace (load workspace uri).2) {declarations : List Node}
    (each : ∀ declaration ∈ declarations, clause.IsForeign declaration ∨ declaration = clause) {isExport : Bool}
    (kind : clause.kind = .useClause isExport) (steadily : Steadily setup before document module scope) :
    Past clause scope (declarations.foldl (Scope.checkDeclaration load setup) scope) := by
  refine (foldl_past id _ (fun {scope declaration} member steadily => ?_) steadily).2
  rcases each _ member with foreign | rfl
  · exact (past_invariant settled firms foreign setup.limits _).checkDeclaration rfl (List.mem_singleton_self _)
      ⟨steadily, .refl ..⟩
  · have passed : scope.checkDeclaration load setup declaration = scope := by rw [Scope.checkDeclaration, kind]
    simp only [id, passed]
    exact ⟨steadily, .refl ..⟩

end Steadily

end Workspace

inductive UseOutcome where
  | entered
  | duplicated
  | unresolved

/-- A use clause with the last segment of its path and the name that it brings. Whatever is said about
the path marks text of the clause. -/
structure Node.Brings (clause path last : Node) (name : String) : Prop where
  found : clause.child? .path = some path
  segments : pathSegments path ≠ []
  ends : path.children.getLast? = some last
  text : last.textValue? = some name
  inside : ∀ span, path.IsPart span → clause.span.contains span = true ∧ span.start < span.stop

/-- The alias stands in the table, as the clause declares it. -/
structure SymbolTable.HasAlias (table : SymbolTable) (uri : String) (module : ModulePath) (clause last : Node)
    (name : String) : Prop where
  usage : ∃ usage ∈ table.usagesAt (.schema (module.join name)), usage.kind = .declaration ∧
    usage.location = ⟨uri, last.span⟩ ∧ usage.fullSpan = some clause.span
  linked : table.aliasAt (.schema (module.join name)) ≠ none

/-- The outcome of a clause, by the table and by what is said about the clause. -/
def UseOutcome.Holds (table : SymbolTable) (uri : String) (module : ModulePath) (clause last : Node) (name : String)
    (told : List Diagnostic) : UseOutcome → Prop
  | .entered => told = [] ∧ table.HasAlias uri module clause last name
  | .duplicated => ∃ existing, told = [SchemaDoc.duplicated name last.span existing]
  | .unresolved => ∃ diagnostic : Diagnostic, diagnostic.IsUnresolved ∧ told = [diagnostic]

theorem duplicated_severity (name : String) (span : Span) (existing : Symbol) :
    (duplicated name span existing).severity = .warning := by
  rw [duplicated]
  split <;> rfl

theorem UseOutcome.Holds.unique {table : SymbolTable} {uri : String} {module : ModulePath} {clause last : Node}
    {name : String} {told : List Diagnostic} {first second : UseOutcome}
    (here : first.Holds table uri module clause last name told)
    (there : second.Holds table uri module clause last name told) : first = second := by
  have differ : ∀ {diagnostic : Diagnostic} {existing}, diagnostic.IsUnresolved →
      diagnostic ≠ SchemaDoc.duplicated name last.span existing := by
    rintro diagnostic existing ⟨message, _, arguments, span, rfl⟩ same
    have severity := congrArg Diagnostic.severity same
    rw [duplicated_severity] at severity
    cases severity
  cases first <;> cases second
  case entered.entered | duplicated.duplicated | unresolved.unresolved => rfl
  case entered.duplicated =>
    obtain ⟨existing, told⟩ := there
    cases here.1.symm.trans told
  case entered.unresolved =>
    obtain ⟨diagnostic, _, told⟩ := there
    cases here.1.symm.trans told
  case duplicated.entered =>
    obtain ⟨existing, told⟩ := here
    cases there.1.symm.trans told
  case duplicated.unresolved =>
    obtain ⟨existing, told⟩ := here
    obtain ⟨diagnostic, unresolved, also⟩ := there
    exact absurd (List.cons.inj (also.symm.trans told)).1 (differ unresolved)
  case unresolved.entered =>
    obtain ⟨diagnostic, _, told⟩ := here
    cases there.1.symm.trans told
  case unresolved.duplicated =>
    obtain ⟨diagnostic, unresolved, told⟩ := here
    obtain ⟨existing, also⟩ := there
    exact absurd (List.cons.inj (told.symm.trans also)).1 (differ unresolved)

theorem UseOutcome.Holds.past {uri : String} {module : ModulePath} {clause last : Node} {name : String} {before after : Scope}
    {outcome : UseOutcome} (past : Workspace.Past clause before after)
    (holds : outcome.Holds before.workspace.table uri module clause last name (before.marksOf clause)) :
    outcome.Holds after.workspace.table uri module clause last name (after.marksOf clause) := by
  rw [past.marks]
  cases outcome with
  | entered =>
    obtain ⟨usage, member, kind, place⟩ := holds.2.usage
    have declared := SymbolTable.isDeclaredAt_of_mem member (by rw [kind]; rfl)
    refine ⟨holds.1, ⟨usage, past.grows.usages _ member, kind, place⟩, fun plain => ?_⟩
    exact holds.2.linked ((past.grows.aliases _ declared).mp plain)
  | duplicated => exact holds
  | unresolved => exact holds

namespace Scope

variable {scope : Scope} {clause path last : Node} {name : String}

theorem marks_of_part (brings : clause.Brings path last name) {diagnostic : Diagnostic} (part : path.IsPart diagnostic.span) :
    diagnostic.marks clause = true := by
  obtain ⟨inside, visible⟩ := brings.inside _ part
  simp [Diagnostic.marks, inside, visible]

theorem Reported.outcome {before after : Scope} (brings : clause.Brings path last name) (reported : before.Reported path after)
    (silent : before.marksOf clause = []) (uri : String) (module : ModulePath) :
    UseOutcome.unresolved.Holds after.workspace.table uri module clause last name (after.marksOf clause) := by
  obtain ⟨diagnostic, unresolved, part, added⟩ := reported
  refine ⟨diagnostic, unresolved, ?_⟩
  rw [marksOf] at silent
  rw [marksOf, added, List.filter_append, silent]
  simp [marks_of_part brings part]

def aliasRecord (scope : Scope) (clause last : Node) (visibility : Visibility) (target : SymbolPath) : SymbolRecord :=
  { usage := some
      { kind := .declaration, location := scope.locate last.span, fullSpan := some clause.span, visibility }
    relations := { aliasOf := some target } }

theorem declareAlias_eq (found : clause.child? .path = some path) (ends : path.children.getLast? = some last)
    (text : last.textValue? = some name) (target : SymbolPath) :
    ∃ visibility, scope.declareAlias clause target = scope.declare (.schema (scope.module.join name)) name last.span
      (scope.aliasRecord clause last visibility target) := by
  simp only [declareAlias, found, Option.bind_some, ends, text]
  exact ⟨_, rfl⟩

theorem declareAlias_outcome (brings : clause.Brings path last name) (sorted : Sorted scope.workspace.table.symbols)
    (silent : scope.marksOf clause = []) (target : SymbolPath) :
    ∃ outcome : UseOutcome, outcome.Holds (scope.declareAlias clause target).workspace.table scope.uri scope.module clause
      last name ((scope.declareAlias clause target).marksOf clause) := by
  obtain ⟨visibility, declares⟩ := scope.declareAlias_eq brings.found brings.ends brings.text target
  rw [declares]
  cases existing : (scope.query (.schema (scope.module.join name))).declared? with
  | some symbol =>
    have part : path.IsPart (duplicated name last.span symbol).span := by
      rw [Coupling.duplicated_span]
      exact .inr ⟨last, List.mem_of_getLast? brings.ends, rfl⟩
    rw [marksOf] at silent
    simp only [declare, existing]
    refine ⟨.duplicated, symbol, ?_⟩
    simp [marksOf, Scope.add, silent, marks_of_part brings part]
  | none =>
    have somewhere := SymbolPath.schema_path_ne (scope.module.join name)
    have appended := SymbolTable.usagesAt_enter sorted somewhere (scope.aliasRecord clause last visibility target)
      (.schema (scope.module.join name))
    have linked := SymbolTable.aliasAt_enter sorted somewhere (scope.aliasRecord clause last visibility target)
      (.schema (scope.module.join name))
    rw [if_pos rfl] at appended linked
    rw [Coupling.declare_of_free existing]
    refine ⟨.entered, silent, ⟨_, appended ▸ List.mem_append_right _ (List.mem_singleton_self _), rfl, rfl, rfl⟩, ?_⟩
    intro plain
    cases plain.symm.trans linked

end Scope

namespace Workspace.Steadily

variable {setup : Setup} {before : Workspace} {document : TextDocument} {module : ModulePath} {scope : Scope} {load : Loader}
  {clause path last : Node} {name : String}

/-- Tried ahead, a clause has its outcome or waits without a word. -/
theorem step_outcome (settled : before.AllSettled setup) (firms : ∀ workspace uri, Firms setup workspace (load workspace uri).2)
    (brings : clause.Brings path last name) {isExport : Bool} (kind : clause.kind = .useClause isExport) (limits : Limits)
    {hoisting : Hoisting} (steadily : Steadily setup before document module hoisting.scope)
    (silent : hoisting.scope.marksOf clause = []) :
    let after := hoisting.step load limits clause
    after.deferred = hoisting.deferred ∧ (∃ outcome : UseOutcome, outcome.Holds after.scope.workspace.table document.uri
        module clause last name (after.scope.marksOf clause)) ∨
      after.deferred = hoisting.deferred ++ [clause] ∧ after.scope.marksOf clause = [] := by
  have onTree : clause.solo.HasPath path :=
    ⟨clause, Node.mem_preorder_of_child (List.mem_singleton_self _), brings.found⟩
  have resolving := (invariant settled firms limits document module clause.solo).resolveEarly onTree steadily
  have told := Scope.resolveEarly_errors load limits hoisting.scope path
  have entering : hoisting.step load limits clause = hoisting.enterUse load limits clause := by
    rw [Hoisting.step, kind]
  simp only [entering, Hoisting.enterUse, brings.found]
  dsimp only at resolving
  cases answer : hoisting.scope.resolveEarly load limits path with
  | mk outcome after =>
    simp only [answer] at resolving told
    cases outcome with
    | resolved target =>
      obtain ⟨_, same⟩ := told.resolve_left (by simp)
      have still : after.marksOf clause = [] := by rw [Scope.marksOf, same]; exact silent
      obtain ⟨outcome, holds⟩ := Scope.declareAlias_outcome brings resolving.firm.sorted still target
      rw [resolving.place.1, resolving.place.2] at holds
      exact .inl ⟨rfl, outcome, holds⟩
    | failed =>
      obtain ⟨_, reported⟩ := told.resolve_right (by simp)
      exact .inl ⟨rfl, .unresolved, reported.outcome brings silent document.uri module⟩
    | pending =>
      obtain ⟨_, same⟩ := told.resolve_left (by simp)
      refine .inr ⟨rfl, ?_⟩
      rw [Scope.marksOf, same]
      exact silent

theorem checkUse_outcome (settled : before.AllSettled setup)
    (firms : ∀ workspace uri, Firms setup workspace (load workspace uri).2) (brings : clause.Brings path last name)
    (limits : Limits) (steadily : Steadily setup before document module scope) (silent : scope.marksOf clause = []) :
    ∃ outcome : UseOutcome, outcome.Holds (scope.checkUse load limits clause).workspace.table document.uri module clause
      last name ((scope.checkUse load limits clause).marksOf clause) := by
  have onTree : clause.solo.HasPath path :=
    ⟨clause, Node.mem_preorder_of_child (List.mem_singleton_self _), brings.found⟩
  have resolving := (invariant settled firms limits document module clause.solo).resolvePath onTree steadily
  have told := steadily.resolvePath_errors settled firms limits brings.segments
  simp only [Scope.checkUse, brings.found]
  dsimp only at resolving
  cases answer : scope.resolvePath load limits path with
  | mk target after =>
    simp only [answer] at resolving told
    rcases told with ⟨rfl, reported⟩ | ⟨⟨target, rfl⟩, same⟩
    · exact ⟨.unresolved, reported.outcome brings silent document.uri module⟩
    · have still : after.marksOf clause = [] := by rw [Scope.marksOf, same]; exact silent
      obtain ⟨outcome, holds⟩ := Scope.declareAlias_outcome brings resolving.firm.sorted still target
      rw [resolving.place.1, resolving.place.2] at holds
      exact ⟨outcome, holds⟩

/-- Behind the first pass a use clause has its outcome, or it waits among others without a word. -/
theorem hoisted_outcome (settled : before.AllSettled setup)
    (firms : ∀ workspace uri, Firms setup workspace (load workspace uri).2) {earlier later : List Node}
    (front : ∀ declaration ∈ earlier, clause.IsForeign declaration) (back : ∀ declaration ∈ later, clause.IsForeign declaration)
    (brings : clause.Brings path last name) {isExport : Bool} (kind : clause.kind = .useClause isExport) (limits : Limits)
    (steadily : Steadily setup before document module scope) (silent : scope.marksOf clause = []) :
    let after := (earlier ++ clause :: later).foldl (Hoisting.step load limits) { scope }
    Steadily setup before document module after.scope ∧
      ((∀ other ∈ after.deferred, clause.IsForeign other) ∧ (∃ outcome : UseOutcome, outcome.Holds
          after.scope.workspace.table document.uri module clause last name (after.scope.marksOf clause)) ∨
        after.scope.marksOf clause = [] ∧ ∃ others more, after.deferred = others ++ clause :: more ∧
          (∀ other ∈ others, clause.IsForeign other) ∧ ∀ other ∈ more, clause.IsForeign other) := by
  obtain ⟨others, ahead, waiting⟩ := Hoisting.foldl_step_deferred load limits earlier { scope }
  have start : Steadily setup before document module ({ scope } : Hoisting).scope := steadily
  obtain ⟨begun, past⟩ := hoist_foreign settled firms limits front start
  simp only [List.foldl_append, List.foldl_cons]
  generalize earlier.foldl (Hoisting.step load limits) { scope } = upTo at begun past waiting ⊢
  have tried := step_outcome settled firms brings kind limits begun (past.marks.trans silent)
  have onward := (invariant settled firms limits document module clause.solo).step (List.mem_singleton_self _) begun
  obtain ⟨more, behind, deferred⟩ := Hoisting.foldl_step_deferred load limits later (upTo.step load limits clause)
  obtain ⟨ended, still⟩ := hoist_foreign settled firms limits back onward
  have foreignOthers : ∀ other ∈ others, clause.IsForeign other := fun other among => front other (ahead.subset among)
  have foreignMore : ∀ other ∈ more, clause.IsForeign other := fun other among => back other (behind.subset among)
  -- what the clause came to when it was tried decides whether it is among those that wait
  refine ⟨ended, tried.imp ?_ ?_⟩
  · rintro ⟨same, outcome, holds⟩
    refine ⟨fun other among => ?_, outcome, holds.past still⟩
    rw [deferred, same, waiting, List.nil_append, List.mem_append] at among
    exact among.elim (foreignOthers other) (foreignMore other)
  · rintro ⟨added, quiet⟩
    refine ⟨still.marks.trans quiet, others, more, ?_, foreignOthers, foreignMore⟩
    rw [deferred, added, waiting]
    simp

/-- Behind the passes every use clause has its outcome: one that was settled ahead stays what it was, one
that had to wait is settled when its turn comes, and the other declarations have no part in it. -/
theorem checked_outcome (settled : before.AllSettled setup)
    (firms : ∀ workspace uri, Firms setup workspace (load workspace uri).2) {root : Node}
    (apart : root.children.Pairwise fun first second => first.span.Apart second.span)
    (wellFormed : ∀ child ∈ root.children, child.isWellFormed = true) (member : clause ∈ root.children)
    (brings : clause.Brings path last name) {isExport : Bool} (kind : clause.kind = .useClause isExport)
    (steadily : Steadily setup before document module scope) (silent : scope.marksOf clause = []) :
    let final := (Pass.mk setup.limits document.uri module root).checked load setup scope root.children
    ∃ outcome : UseOutcome, outcome.Holds final.workspace.table document.uri module clause last name
      (final.marksOf clause) := by
  have own := invariant settled firms setup.limits document module clause.solo
  obtain ⟨earlier, later, split⟩ := List.append_of_mem member
  have others : ∀ declaration ∈ earlier ++ later, clause.IsForeign declaration := by
    intro declaration among
    rw [split, List.pairwise_middle fun apart => apart.symm] at apart
    refine ⟨wellFormed declaration ?_, (List.rel_of_pairwise_cons apart among).symm⟩
    rw [split]
    exact (List.mem_append.mp among).elim (List.mem_append_left _) fun behind =>
      List.mem_append_right _ (List.mem_cons_of_mem _ behind)
  obtain ⟨front, back⟩ := List.forall_mem_append.mp others
  have each : ∀ declaration ∈ root.children, clause.IsForeign declaration ∨ declaration = clause := by
    intro declaration among
    rw [split, List.mem_append, List.mem_cons] at among
    rcases among with ahead | rfl | behind
    · exact .inl (front _ ahead)
    · exact .inr rfl
    · exact .inl (back _ behind)
  obtain ⟨begun, hoisted⟩ := hoisted_outcome settled firms front back brings kind setup.limits steadily silent
  rw [← split] at begun hoisted
  have checking := own.checking begun
  simp only [Pass.checked, Pass.waited, Pass.deferred, Pass.hoisted]
  generalize root.children.foldl (Hoisting.step load setup.limits) { scope } = after at begun hoisted checking ⊢
  have finish : ∀ {scope : Scope}, Steadily setup before document module scope → (∃ outcome : UseOutcome,
      outcome.Holds scope.workspace.table document.uri module clause last name (scope.marksOf clause)) →
      ∃ outcome : UseOutcome, outcome.Holds (root.children.foldl (Scope.checkDeclaration load setup) scope).workspace.table
        document.uri module clause last name ((root.children.foldl (Scope.checkDeclaration load setup) scope).marksOf clause) := by
    rintro scope steadily ⟨outcome, holds⟩
    exact ⟨outcome, holds.past (declarations_foreign settled firms each kind steadily)⟩
  rcases hoisted with ⟨foreign, outcome, holds⟩ | ⟨quiet, others, more, deferred, before, behind⟩
  · obtain ⟨steadily, past⟩ := uses_foreign settled firms setup.limits foreign checking
    exact finish steadily ⟨outcome, UseOutcome.Holds.past past holds⟩
  · obtain ⟨steadily, past⟩ := uses_foreign settled firms setup.limits before checking
    have late := checkUse_outcome settled firms brings setup.limits steadily (past.marks.trans quiet)
    obtain ⟨outcome, holds⟩ := late
    obtain ⟨waited, still⟩ := uses_foreign settled firms setup.limits behind (own.checkUse (List.mem_singleton_self _) steadily)
    rw [deferred, List.foldl_append, List.foldl_cons]
    exact finish waited ⟨outcome, holds.past still⟩

end Workspace.Steadily

/-- The path of a use clause that is read off a text ends in a name, and all of it stands in the clause. -/
theorem Node.AllLegible.brings {text : String} {root clause path : Node} (all : root.AllLegible text)
    (member : clause ∈ root.children) (wellFormed : clause.isWellFormed = true) (found : clause.child? .path = some path)
    (segments : pathSegments path ≠ []) : ∃ last name, clause.Brings path last name := by
  have within : path ∈ clause.children := mem_of_child? found
  have onTree : path ∈ root.preorder := preorder_trans (mem_preorder_of_child within) (mem_preorder_of_child member)
  have role : path.role = some .path := by simpa using List.find?_some found
  obtain ⟨fromRoot, kind⟩ := ((all path onTree).2 .path role).2 rfl
  have spelled := (all path onTree).1
  rw [kind] at spelled
  have visible : ∀ child ∈ path.children, child.span.start < child.span.stop := by
    intro child among
    obtain ⟨value, kind⟩ := spelled child among
    exact (all.identifier (preorder_trans (mem_preorder_of_child among) onTree) kind).visible
  have inside : ∀ child ∈ path.children, path.span.contains child.span = true :=
    (isWellFormed_iff.mp ((isWellFormed_iff.mp wellFormed).2.2.2 path within)).2.1
  have whole := contains_of_mem_preorder wellFormed (mem_preorder_of_child within)
  have some : path.children ≠ [] := by
    intro empty
    simp [pathSegments, empty] at segments
  obtain ⟨last, ends⟩ : ∃ last, path.children.getLast? = Option.some last := ⟨_, List.getLast?_eq_some_getLast some⟩
  have among := List.mem_of_getLast? ends
  obtain ⟨name, kind⟩ := spelled last among
  refine ⟨last, name, found, segments, ends, by rw [textValue?, kind], ?_⟩
  rintro span (rfl | ⟨child, member, rfl⟩)
  · have wide := Span.contains_iff.mp (inside last among)
    have short := visible last among
    exact ⟨whole, by omega⟩
  · exact ⟨Span.contains_trans whole (inside child member), visible child member⟩

namespace Workspace

variable {setup : Setup}

theorem ensureChecked_firms (setup : Setup) (workspace : Workspace) (uri : String) :
    Firms setup workspace (ensureChecked setup workspace uri).2 := loadWithin_firms setup _ workspace uri

theorem Call.Within.firm {workspace : Workspace} {uri : String} {call : Call} (within : Call.Within setup workspace uri call)
    (unedited : Unedited setup workspace) : call.workspace.AllSettled setup ∧ call.workspace.Firm := by
  refine @Call.Within.carries setup workspace uri call (fun workspace => workspace.AllSettled setup ∧ workspace.Firm) within
    unedited.firm ?_
  rintro before current uri asked document ⟨settled, firm⟩ needs consults
  obtain ⟨module, scope, steadily, rfl⟩ := holds_of_consults
    (fun module errors _ => Steadily.start settled firm needs module errors)
    (fun module => Steadily.invariant settled (ensureChecked_firms setup) setup.limits document module _) consults
  exact ⟨steadily.settled settled, steadily.firm⟩

theorem moduleOf_point (table : SymbolTable) (uri : String) :
    ∀ diagnostic ∈ (moduleOf table uri).2, diagnostic.span = .point 0 := by
  rw [moduleOf]
  split
  · simp [Diagnostic.ofMessage]
  · split <;> simp [Diagnostic.ofMessage, Diagnostic.withSeverity]

theorem moduleOf_marks (table : SymbolTable) (uri : String) (clause : Node) :
    (moduleOf table uri).2.filter (·.marks clause) = [] := by
  rw [List.filter_eq_nil_iff]
  intro diagnostic member
  simp [Diagnostic.marks, moduleOf_point table uri diagnostic member, Span.point]

/-- What every check in a run without edits reports, of a document that implements a module. Wherever a
path is resolved it comes to nothing if and only if one diagnostic is added, and each use clause ends in
one way: its alias is entered without a word, its name was taken, or its path has failed. -/
theorem resolutions_reported_once {workspace : Workspace} (unedited : Unedited setup workspace) {uri : String} {call : Call}
    (within : Call.Within setup workspace uri call) {document : TextDocument}
    (admitted : (admission setup call.workspace call.uri).1 = .admitted document) {module : ModulePath}
    (registered : call.workspace.table.moduleOfUri? document.uri = some module) :
    let entered := (admission setup call.workspace call.uri).2.enter
    let after := checkDocument (ensureChecked setup) setup entered document
    (∀ scope, (passOf setup document module).Stage (ensureChecked setup) setup (startOf setup entered document module) scope →
      ∀ path, pathSegments path ≠ [] → scope.ReportsOnce (ensureChecked setup) setup.limits path) ∧
    ∃ record, after.record? document.uri = some record ∧
      ∀ clause ∈ (parse document.text setup.trailing).node.children, ∀ isExport path,
        clause.kind = .useClause isExport → clause.child? .path = some path → pathSegments path ≠ [] →
        ∃ last name, path.children.getLast? = some last ∧ last.textValue? = some name ∧
          ∃! outcome : UseOutcome, outcome.Holds after.table document.uri module clause last name
            (record.errors.filter (·.marks clause)) := by
  intro entered after
  obtain ⟨settled, firm⟩ := within.firm unedited
  have arrived : entered = (fetch setup call.workspace call.uri).2.enter := by simp only [entered, admission_eq]
  rw [admission_eq] at admitted
  have needs := judge_admitted admitted
  have start : Steadily setup call.workspace document module (startOf setup entered document module) := by
    rw [arrived]
    exact Steadily.start settled firm needs module _
  have invariant := Steadily.invariant settled (ensureChecked_firms setup) setup.limits document module
    (parse document.text setup.trailing).node
  refine ⟨fun scope stage path segments => ?_, ?_⟩
  · exact (invariant.stage rfl start stage).reportsOnce settled (ensureChecked_firms setup) setup.limits segments
  have table : entered.table = call.workspace.table := by
    obtain ⟨documents, fetched⟩ := fetch_snd setup call.workspace call.uri
    rw [arrived, fetched]
    rfl
  have still : (entered.table.clearUri document.uri).moduleOfUri? document.uri = some module := by
    rw [table, SymbolTable.moduleOfUri?_eq, SymbolTable.entries_clearUri firm.sorted firm.laid,
      ← SymbolTable.moduleOfUri?_eq]
    exact registered
  have ended : after = _ := checkDocument_eq_endOf still invariant start
  have last : Steadily setup call.workspace document module (endOf (ensureChecked setup) setup entered document module) :=
    invariant.checked rfl start (List.prefix_refl _)
  obtain ⟨earlier, known⟩ := Option.isSome_iff_exists.mp last.known
  obtain ⟨record, noted, errors⟩ : ∃ record, after.record? document.uri = some record ∧
      record.errors = (endOf (ensureChecked setup) setup entered document module).errors := by
    rw [ended, record?_conclude, if_pos rfl, known]
    exact ⟨_, rfl, rfl⟩
  obtain ⟨apart, wellFormed⟩ := parse_children document.text setup.trailing
  refine ⟨record, noted, ?_⟩
  intro clause member isExport path kind found segments
  obtain ⟨last, name, brings⟩ := (parse_legible document.text setup.trailing).brings member (wellFormed clause member) found
    segments
  refine ⟨last, name, brings.ends, brings.text, ?_⟩
  obtain ⟨outcome, holds⟩ := Steadily.checked_outcome settled (ensureChecked_firms setup) apart wellFormed member brings kind
    start (moduleOf_marks ..)
  rw [errors, ended]
  exact ⟨outcome, holds, fun other also => also.unique holds⟩

/-- Four clauses: one is entered, one finds nothing when it is tried again, one has no module and one
brings the name of the first. The module that they use asks for theirs in turn. -/
theorem resolutions_reported_once_circle :
    let text := "use ::b::X; use ::b::Y; use ::c::Z; use ::b::X;"
    let workspace := pairWorkspace text "use ::a::X; struct X {}"
    let document : TextDocument := ⟨"file:///a.sdoc", 1, text⟩
    let after := checkDocument (ensureChecked {}) {} (admission {} workspace document.uri).2.enter document
    Unedited {} workspace ∧ Call.Within {} workspace document.uri ⟨workspace, document.uri, []⟩ ∧
      (admission {} workspace document.uri).1 = .admitted document ∧
      workspace.table.moduleOfUri? document.uri = some ⟨["a"]⟩ ∧
      (after.record? document.uri).map (fun record => record.errors.map Diagnostic.span) =
        some [⟨28, 34⟩, ⟨45, 46⟩, ⟨21, 22⟩] ∧
      (∀ scope, (passOf {} document ⟨["a"]⟩).Stage (ensureChecked {}) {}
          (startOf {} (admission {} workspace document.uri).2.enter document ⟨["a"]⟩) scope →
        ∀ path, pathSegments path ≠ [] → scope.ReportsOnce (ensureChecked {}) {} path) ∧
      ∃ record, after.record? document.uri = some record ∧ ∀ clause ∈ (parse text .allowed).node.children,
        ∀ isExport path, clause.kind = .useClause isExport → clause.child? .path = some path → pathSegments path ≠ [] →
        ∃ last name, path.children.getLast? = some last ∧ last.textValue? = some name ∧
          ∃! outcome : UseOutcome, outcome.Holds after.table document.uri ⟨["a"]⟩ clause last name
            (record.errors.filter (·.marks clause)) := by
  intro text workspace document after
  have unedited : Unedited {} workspace := .new _ _
  have within : Call.Within {} workspace document.uri ⟨workspace, document.uri, []⟩ := .outermost
  have admitted : (admission {} workspace document.uri).1 = .admitted document := rfl
  have registered : workspace.table.moduleOfUri? document.uri = some ⟨["a"]⟩ := by decide +kernel
  exact ⟨unedited, within, admitted, registered, by decide +kernel,
    resolutions_reported_once unedited within admitted registered⟩

/-- A document of no module is told so and no more: its use clause has none of the outcomes. -/
theorem unregistered_use_without_outcome :
    let text := "use ::a::X;"
    let document : TextDocument := ⟨"file:///project/x.sdoc", 1, text⟩
    let workspace : Workspace := { table := Layout.register {} [], documents := { opened := [document] } }
    let after := checkDocument (ensureChecked {}) {} (admission {} workspace document.uri).2.enter document
    Unedited {} workspace ∧ (admission {} workspace document.uri).1 = .admitted document ∧
      ∃ record, after.record? document.uri = some record ∧ ∃ clause ∈ (parse text .allowed).node.children, ∃ path,
        clause.kind = .useClause false ∧ clause.child? .path = some path ∧ pathSegments path ≠ [] ∧
        ∀ (outcome : UseOutcome) (module : ModulePath) (last : Node) (name : String),
          ¬ outcome.Holds after.table document.uri module clause last name (record.errors.filter (·.marks clause)) := by
  intro text document workspace after
  have unedited : Unedited {} workspace := .new _ _
  obtain ⟨record, known, pointed⟩ : ∃ record, after.record? document.uri = some record ∧
      record.errors.map Diagnostic.span = [.point 0] := ⟨_, rfl, by decide +kernel⟩
  have shape : ((parse text .allowed).node.children.map fun clause =>
      (clause.kind, (clause.child? .path).map pathSegments)) =
      [(.useClause false, some [("a", ⟨6, 7⟩), ("X", ⟨9, 10⟩)])] := by decide +kernel
  obtain ⟨clause, children, fits⟩ := List.map_eq_singleton_iff.mp shape
  obtain ⟨kind, segments⟩ := Prod.mk.inj fits
  obtain ⟨path, found, spelled⟩ := Option.map_eq_some_iff.mp segments
  refine ⟨unedited, rfl, record, known, clause, by simp [children], path, kind, found, by simp [spelled], ?_⟩
  obtain ⟨diagnostic, only, place⟩ := List.map_eq_singleton_iff.mp pointed
  have silent : record.errors.filter (·.marks clause) = [] := by simp [only, Diagnostic.marks, place, Span.point]
  rintro (_ | _ | _) module last name holds
  case entered =>
    obtain ⟨usage, member, _⟩ := holds.2.usage
    have nothing : after.table.usagesAt (.schema (module.join name)) = [] := rfl
    rw [nothing] at member
    cases member
  case duplicated =>
    obtain ⟨existing, told⟩ := holds
    cases silent.symm.trans told
  case unresolved =>
    obtain ⟨diagnostic, _, told⟩ := holds
    cases silent.symm.trans told

end Workspace

end SchemaDoc
