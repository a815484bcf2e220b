import SchemaDoc.Proofs.PassSteps

/-! Two runs of the passes over one document, side by side. What a pass does is decided by the answers
of its loader and by a few questions to the table. If a relation between scopes makes those answers
alike, and survives what the passes write, then both runs take the same branches and the relation holds
at the end. An invariant of one run is the case in which both runs are the same. -/

namespace SchemaDoc

def Scope.SameArrival (Resolved : Scope → Node → SymbolPath → Prop) (left right : Scope) (path : Node) (goal : PathTarget) :
    Prop :=
  left.arrival goal = right.arrival goal ∧ ((left.arrival goal).1 = true → Resolved left path (left.arrival goal).2.1)

/-- What a relation between the scopes of two runs has to guarantee. `Wanted` holds of the documents
that the first run lists in the end: of no other document has a load to be accounted for. -/
structure Coupling (pass : Pass) (load load' : Loader) (Resolved : Scope → Node → SymbolPath → Prop)
    (Known : Scope → SymbolPath → Prop) (Wanted : String → Prop) (Related : Scope → Scope → Prop) : Prop where
  left : ∀ {left right}, Related left right → left.uri = pass.uri ∧ left.module = pass.module
  right : ∀ {left right}, Related left right → right.uri = pass.uri ∧ right.module = pass.module
  implementer : ∀ {left right}, Related left right → ∀ module,
    left.workspace.table.uriOfModule? module = right.workspace.table.uriOfModule? module
  sight : ∀ {left right address}, Related left right → pass.Asks (Pass.Ever Resolved) address →
    left.sight address = right.sight address
  home : ∀ {left right path goal}, Related left right → pass.Leads path goal →
    (goal.module = pass.module ∨ left.workspace.table.uriOfModule? goal.module = some pass.uri) →
    Scope.SameArrival Resolved left right path goal
  learn : ∀ {left right path goal target}, Related left right → pass.Leads path goal → Resolved left path target →
    Known (left.write true target { usage := some { kind := .reference, location := ⟨pass.uri, goal.nameSpan⟩ } }) target
  retain : ∀ {left right after target}, Related left right → pass.Step load Resolved Known left after →
    Known left target → Known after target
  load : ∀ {left right path goal uri}, Related left right → pass.Leads path goal →
    left.workspace.table.uriOfModule? goal.module = some uri → uri ≠ pass.uri → Wanted uri →
    (load left.workspace uri).1 = (load' right.workspace uri).1 ∧
      Related (left.loaded load uri) (right.loaded load' uri) ∧
      ((load left.workspace uri).1 = none →
        Scope.SameArrival Resolved (left.loaded load uri) (right.loaded load' uri) path goal)
  kind : ∀ {left right clause}, Related left right → clause ∈ pass.root.children → clause.kind = .injectClause →
    ∀ target, Scope.declaredKind left.workspace.table target = Scope.declaredKind right.workspace.table target
  add : ∀ {left right diagnostic}, Related left right → pass.Reports diagnostic →
    Related (left.add diagnostic) (right.add diagnostic)
  write : ∀ {left right creates address record}, Related left right →
    pass.Writes Resolved Known left creates address record →
    Related (left.write creates address record) (right.write creates address record)
  steady : ∀ {left right path target creates address usage}, Related left right → Resolved left path target →
    usage.kind = .reference → Resolved (left.write creates address { usage := some usage }) path target
  checking : ∀ {left right}, Related left right → Related left.checking right.checking

namespace Coupling

open Scope

variable {pass : Pass} {load load' : Loader} {Resolved : Scope → Node → SymbolPath → Prop}
  {Known : Scope → SymbolPath → Prop} {Wanted : String → Prop} {Related : Scope → Scope → Prop} {left right : Scope}

theorem locate (coupling : Coupling pass load load' Resolved Known Wanted Related) (related : Related left right)
    (span : Span) : left.locate span = ⟨pass.uri, span⟩ ∧ right.locate span = ⟨pass.uri, span⟩ := by
  simp only [Scope.locate, (coupling.left related).1, (coupling.right related).1, and_self]

theorem remembering (coupling : Coupling pass load load' Resolved Known Wanted Related) (Kept : SymbolPath → Prop) :
    Coupling pass load load' Resolved Known Wanted fun left right =>
      Related left right ∧ ∀ target, Kept target → Known left target := by
  constructor
  case left => exact fun related => coupling.left related.1
  case right => exact fun related => coupling.right related.1
  case implementer => exact fun related => coupling.implementer related.1
  case sight => exact fun related => coupling.sight related.1
  case home => exact fun related => coupling.home related.1
  case load =>
    intro left right path goal uri related leads implemented apart wanted
    obtain ⟨answer, onward, arrives⟩ := coupling.load related.1 leads implemented apart wanted
    refine ⟨answer, ⟨onward, fun target kept => ?_⟩, arrives⟩
    exact coupling.retain related.1 (.load leads implemented apart) (related.2 target kept)
  case kind => exact fun related => coupling.kind related.1
  case add =>
    intro left right diagnostic related reports
    exact ⟨coupling.add related.1 reports, fun target kept => coupling.retain related.1 (.add reports) (related.2 target kept)⟩
  case write =>
    intro left right creates address record related writes
    exact ⟨coupling.write related.1 writes,
      fun target kept => coupling.retain related.1 (.write writes) (related.2 target kept)⟩
  case steady => exact fun related => coupling.steady related.1
  case learn => exact fun related => coupling.learn related.1
  case retain => exact fun related => coupling.retain related.1
  case checking =>
    intro left right related
    exact ⟨coupling.checking related.1, fun target kept => coupling.retain related.1 .checking (related.2 target kept)⟩

theorem duplicated_span (name : String) (span : Span) (existing : Symbol) :
    (duplicated name span existing).span = span := by
  rw [duplicated]
  split <;> rfl

theorem duplicated_congr {first second : Symbol} (same : first.firstDeclaration? = second.firstDeclaration?)
    (name : String) (span : Span) : duplicated name span first = duplicated name span second := by
  simp only [duplicated, same]

theorem declare_of_free {scope : Scope} {address : SymbolPath} (free : (scope.query address).declared? = none)
    (name : String) (span : Span) (record : SymbolRecord) :
    scope.declare address name span record = scope.write true address record := by
  simp only [Scope.declare, free, Query.ifDeclared, Option.isSome_none, Bool.false_eq_true, if_false]
  rfl

theorem declare (coupling : Coupling pass load load' Resolved Known Wanted Related) (related : Related left right)
    {address : SymbolPath} (asked : pass.Asks (Pass.Ever Resolved) address) {name : String} {node : Node}
    (member : node ∈ pass.root.preorder) {record : SymbolRecord}
    (writes : (left.query address).declared? = none → pass.Writes Resolved Known left true address record) :
    Related (left.declare address name node.span record) (right.declare address name node.span record) := by
  have seen : (left.query address).declared?.map Symbol.firstDeclaration? =
      (right.query address).declared?.map Symbol.firstDeclaration? :=
    congrArg Prod.fst (coupling.sight related asked)
  cases here : (left.query address).declared? with
  | none =>
    have there : (right.query address).declared? = none := by simpa [here] using seen.symm
    rw [declare_of_free here, declare_of_free there]
    exact coupling.write related (writes here)
  | some existing =>
    obtain ⟨other, there, same⟩ : ∃ other, (right.query address).declared? = some other ∧
        other.firstDeclaration? = existing.firstDeclaration? := by
      simpa [here] using seen.symm
    simp only [Scope.declare, here, there, duplicated_congr same]
    exact coupling.add related ⟨node, member, duplicated_span ..⟩

theorem recordMentions (coupling : Coupling pass load load' Resolved Known Wanted Related) {path : Node} {goal : PathTarget}
    (leads : pass.Leads path goal) {mentions : List ModuleMention} (members : ∀ mention ∈ mentions, mention ∈ goal.mentions)
    (related : Related left right) :
    Related (left.recordMentions mentions) (right.recordMentions mentions) ∧
      ∀ path target, Resolved left path target → Resolved (left.recordMentions mentions) path target := by
  induction mentions generalizing left right with
  | nil => exact ⟨related, fun _ _ resolved => resolved⟩
  | cons mention mentions ih =>
    rw [List.forall_mem_cons] at members
    have written := coupling.write related (.mention leads members.1)
    obtain ⟨onward, kept⟩ := ih members.2 written
    have places := coupling.locate related mention.span
    simp only [Scope.recordMentions, List.foldl_cons, places.1, places.2]
    exact ⟨onward, fun path target resolved => kept path target (coupling.steady related resolved rfl)⟩

/-- Loading comes out the same on both sides, and then the goal looks the same. -/
theorem reachModule (coupling : Coupling pass load load' Resolved Known Wanted Related) {path : Node} {goal : PathTarget}
    (leads : pass.Leads path goal) (related : Related left right)
    (wanted : ∀ uri ∈ (left.reachModule load goal path.span).2.dependencies, Wanted uri) :
    (left.reachModule load goal path.span).1 = (right.reachModule load' goal path.span).1 ∧
      Related (left.reachModule load goal path.span).2 (right.reachModule load' goal path.span).2 ∧
      ((left.reachModule load goal path.span).1 = true →
        SameArrival Resolved (left.reachModule load goal path.span).2 (right.reachModule load' goal path.span).2
          path goal) := by
  have names := coupling.left related
  have others := coupling.right related
  by_cases own : goal.module = pass.module
  · rw [Scope.reachModule, Scope.reachModule, if_pos (names.2 ▸ own), if_pos (others.2 ▸ own)]
    exact ⟨rfl, related, fun _ => coupling.home related leads (.inl own)⟩
  · rw [Scope.reachModule, if_neg (names.2 ▸ own)] at wanted ⊢
    rw [Scope.reachModule, if_neg (others.2 ▸ own)]
    have implements := coupling.implementer related goal.module
    cases implemented : left.workspace.table.uriOfModule? goal.module with
    | none =>
      simp only [Scope.loadModule, ← implements, implemented]
      exact ⟨trivial, coupling.add related ⟨path, leads.onTree.mem, rfl⟩, by simp⟩
    | some uri =>
      by_cases same : uri = pass.uri
      · simp only [Scope.loadModule, ← implements, implemented, names.1, others.1, same, if_true]
        exact ⟨trivial, related, fun _ => coupling.home related leads (.inr (same ▸ implemented))⟩
      · rw [loadModule_of_other implemented (names.1 ▸ same)] at wanted ⊢
        rw [loadModule_of_other (implements ▸ implemented) (others.1 ▸ same)]
        have listed : Wanted uri := by
          refine wanted uri ?_
          split <;> exact mem_insertUri.mpr (.inl rfl)
        obtain ⟨answer, onward, arrives⟩ := coupling.load related leads implemented same listed
        rw [← answer]
        cases outcome : (load left.workspace uri).1 with
        | none => exact ⟨rfl, onward, fun _ => arrives outcome⟩
        | some failure => exact ⟨rfl, coupling.add onward ⟨path, leads.onTree.mem, rfl⟩, by simp⟩

theorem arrival_table (scope : Scope) (goal : PathTarget) :
    scope.withTable ((scope.query goal.address).elseResolveAlias.elseEnter (scope.reference goal.nameSpan)).table =
      scope.write true (scope.arrival goal).2.1 (scope.reference goal.nameSpan) := by
  have pending : (scope.query goal.address).elseResolveAlias.isHandled = false := by
    rw [Query.elseResolveAlias]
    split <;> rfl
  have untouched : (scope.query goal.address).elseResolveAlias.table = scope.workspace.table := by
    rw [Query.elseResolveAlias]
    split <;> rfl
  simp only [Scope.arrival, Query.elseEnter, Query.otherwise, pending, Bool.false_eq_true, if_false, Query.enter,
    Query.refresh, untouched, Scope.write, if_true]

theorem reference (coupling : Coupling pass load load' Resolved Known Wanted Related) {path : Node} {goal : PathTarget}
    (leads : pass.Leads path goal) (related : Related left right)
    (arrives : SameArrival Resolved left right path goal) (declared : (left.arrival goal).1 = true) :
    Related (left.write true (left.arrival goal).2.1 (left.reference goal.nameSpan))
        (right.write true (right.arrival goal).2.1 (right.reference goal.nameSpan)) ∧
      Resolved (left.write true (left.arrival goal).2.1 (left.reference goal.nameSpan)) path
        (left.arrival goal).2.1 ∧
      Known (left.write true (left.arrival goal).2.1 (left.reference goal.nameSpan)) (left.arrival goal).2.1 := by
  have places := coupling.locate related goal.nameSpan
  have resolved := arrives.2 declared
  simp only [Scope.reference, places.1, places.2, ← arrives.1]
  exact ⟨coupling.write related (.reference leads resolved), coupling.steady related resolved rfl,
    coupling.learn related leads resolved⟩

theorem resolvePath (coupling : Coupling pass load load' Resolved Known Wanted Related) {path : Node}
    (onTree : pass.root.HasPath path) (related : Related left right)
    (wanted : ∀ uri ∈ (left.resolvePath load pass.limits path).2.dependencies, Wanted uri) :
    (left.resolvePath load pass.limits path).1 = (right.resolvePath load' pass.limits path).1 ∧
      Related (left.resolvePath load pass.limits path).2 (right.resolvePath load' pass.limits path).2 ∧
      ∀ target, (left.resolvePath load pass.limits path).1 = some target →
        Resolved (left.resolvePath load pass.limits path).2 path target ∧
          Known (left.resolvePath load pass.limits path).2 target := by
  have names := coupling.left related
  have others := coupling.right related
  cases walked : walkPath pass.limits pass.module path with
  | error failure =>
    simp only [Scope.resolvePath, names.2, others.2, walked]
    refine ⟨trivial, ?_, by simp⟩
    rcases walkPath_error walked with ⟨rfl, _⟩ | ⟨_, rfl | ⟨child, among, rfl⟩⟩
    · exact related
    · exact coupling.add related ⟨path, onTree.mem, rfl⟩
    · exact coupling.add related ⟨child, Node.preorder_trans (Node.mem_preorder_of_child among) onTree.mem, rfl⟩
  | ok goal =>
    have leads : pass.Leads path goal := ⟨onTree, walked⟩
    rw [resolvePath_dependencies (names.2 ▸ walked)] at wanted
    simp only [Scope.resolvePath, names.2, others.2, walked]
    obtain ⟨flag, onward, arrives⟩ := coupling.reachModule leads
      (coupling.recordMentions leads (fun _ member => member) related).1 wanted
    rw [← flag]
    cases reached : ((left.recordMentions goal.mentions).reachModule load goal path.span).1 with
    | false => exact ⟨rfl, onward, by simp⟩
    | true =>
      have same := arrives reached
      generalize ((left.recordMentions goal.mentions).reachModule load goal path.span).2 = left at *
      generalize ((right.recordMentions goal.mentions).reachModule load' goal path.span).2 = right at *
      have declares : (left.query goal.address).isDeclared = (right.query goal.address).isDeclared :=
        congrArg Prod.fst same.1
      simp only [Bool.not_true, Bool.false_eq_true, if_false, arrival_table]
      cases declared : (left.query goal.address).isDeclared with
      | false =>
        have unknown : (left.query goal.address).isUnknown = true ∧ (right.query goal.address).isUnknown = true := by
          simp [Query.isUnknown, Scope.query, Query.start] at declared declares ⊢
          exact ⟨declared, declares ▸ declared⟩
        simp only [unknown.1, unknown.2, if_true]
        exact ⟨trivial, coupling.add onward (leads.reports rfl), by simp⟩
      | true =>
        have known : (left.query goal.address).isUnknown = false ∧ (right.query goal.address).isUnknown = false := by
          simp [Query.isUnknown, Scope.query, Query.start] at declared declares ⊢
          exact ⟨declared, declares ▸ declared⟩
        simp only [known.1, known.2, Bool.false_eq_true, if_false]
        have places : (left.arrival goal).2 = (right.arrival goal).2 := congrArg Prod.snd same.1
        obtain ⟨written, reached⟩ := coupling.reference leads onward same declared
        refine ⟨?_, written, ?_⟩
        · change (if (left.arrival goal).2.2 = true then some (left.arrival goal).2.1 else none) =
            (if (right.arrival goal).2.2 = true then some (right.arrival goal).2.1 else none)
          rw [places]
        · intro target
          change (if (left.arrival goal).2.2 = true then some (left.arrival goal).2.1 else none) = some target → _
          split
          · rintro ⟨⟩
            exact reached
          · simp

theorem resolveEarly (coupling : Coupling pass load load' Resolved Known Wanted Related) {path : Node}
    (onTree : pass.root.HasPath path) (related : Related left right)
    (wanted : ∀ uri ∈ (left.resolveEarly load pass.limits path).2.dependencies, Wanted uri) :
    (left.resolveEarly load pass.limits path).1 = (right.resolveEarly load' pass.limits path).1 ∧
      Related (left.resolveEarly load pass.limits path).2 (right.resolveEarly load' pass.limits path).2 ∧
      ∀ target, (left.resolveEarly load pass.limits path).1 = .resolved target →
        Resolved (left.resolveEarly load pass.limits path).2 path target ∧
          Known (left.resolveEarly load pass.limits path).2 target := by
  have names := coupling.left related
  have others := coupling.right related
  cases walked : walkPath pass.limits pass.module path with
  | error failure =>
    simp only [Scope.resolveEarly, names.2, others.2, walked]
    exact ⟨trivial, related, by simp⟩
  | ok goal =>
    have leads : pass.Leads path goal := ⟨onTree, walked⟩
    rw [resolveEarly_dependencies (names.2 ▸ walked)] at wanted
    simp only [Scope.resolveEarly, names.2, others.2, walked]
    obtain ⟨flag, onward, arrives⟩ := coupling.reachModule leads related wanted
    rw [← flag]
    cases reached : (left.reachModule load goal path.span).1 with
    | false => exact ⟨rfl, (coupling.recordMentions leads (fun _ member => member) onward).1, by simp⟩
    | true =>
      have same := arrives reached
      generalize (left.reachModule load goal path.span).2 = left at *
      generalize (right.reachModule load' goal path.span).2 = right at *
      have declares : (left.query goal.address).isDeclared = (right.query goal.address).isDeclared :=
        congrArg Prod.fst same.1
      simp only [Bool.not_true, Bool.false_eq_true, if_false, arrival_table, ← declares]
      cases declared : (left.query goal.address).isDeclared with
      | false =>
        simp only [Bool.not_false, if_true]
        exact ⟨trivial, onward, by simp⟩
      | true =>
        simp only [Bool.not_true, Bool.false_eq_true, if_false]
        obtain ⟨written, resolved, known⟩ := coupling.reference leads onward same declared
        obtain ⟨⟨mentioned, remembered⟩, kept⟩ := (coupling.remembering (· = (left.arrival goal).2.1)).recordMentions leads
          (fun _ member => member) ⟨written, fun target same => same ▸ known⟩
        refine ⟨congrArg EarlyResolution.resolved (congrArg (fun found => found.2.1) same.1), mentioned, ?_⟩
        rintro target ⟨⟩
        exact ⟨kept path _ resolved, remembered _ rfl⟩

theorem declareAlias (coupling : Coupling pass load load' Resolved Known Wanted Related) {clause path : Node}
    {target : SymbolPath} (member : clause ∈ pass.root.children) (found : clause.child? .path = some path)
    (resolved : Resolved left path target ∧ Known left target) (related : Related left right) :
    Related (left.declareAlias clause target) (right.declareAlias clause target) := by
  simp only [Scope.declareAlias, found, Option.bind_some]
  split
  · exact related
  · next last final =>
    split
    · exact related
    · next name text =>
      have places := coupling.locate related last.span
      have names := coupling.left related
      simp only [names.2, (coupling.right related).2, places.1, places.2]
      have onTree : pass.root.HasPath path := ⟨clause, Node.mem_preorder_of_child member, found⟩
      apply coupling.declare related (.name (.used member found final text))
        (Node.preorder_trans (Node.mem_preorder_of_child (List.mem_of_getLast? final)) onTree.mem)
      intro free
      rw [query, names.1] at free
      exact .use member found final text free resolved.1 _ resolved.2

theorem enterType (coupling : Coupling pass load load' Resolved Known Wanted Related) {declaration : Node}
    (member : declaration ∈ pass.root.children) {subcategory : Subcategory} (sort : declaration.sort? = some subcategory)
    (related : Related left right) :
    Related (Hoisting.enterType left declaration subcategory) (Hoisting.enterType right declaration subcategory) := by
  simp only [Hoisting.enterType]
  split
  · exact related
  · next identifier found =>
    split
    · exact related
    · next name text =>
      have places := coupling.locate related identifier.span
      have names := coupling.left related
      simp only [names.2, (coupling.right related).2, places.1, places.2]
      apply coupling.declare related (.name (.declared member found text)) (Node.mem_of_named member found)
      intro free
      rw [query, names.1] at free
      exact .type member found text free sort

structure Hoisted (pass : Pass) (Related : Scope → Scope → Prop) (left right : Hoisting) : Prop where
  scopes : Related left.scope right.scope
  modules : left.modules = right.modules
  deferred : left.deferred = right.deferred
  listed : ∀ clause ∈ left.deferred, clause ∈ pass.root.children

theorem enterModule (coupling : Coupling pass load load' Resolved Known Wanted Related) {left right : Hoisting}
    {declaration : Node} (member : declaration ∈ pass.root.children) (hoisted : Hoisted pass Related left right) :
    Hoisted pass Related (left.enterModule declaration) (right.enterModule declaration) := by
  have related := hoisted.scopes
  simp only [Hoisting.enterModule, ← hoisted.modules]
  split
  · exact hoisted
  · next identifier found =>
    split
    · exact hoisted
    · next name text =>
      have places := coupling.locate related identifier.span
      split
      · next first _ =>
        have firsts := coupling.locate related first
        simp only [Hoisting.duplicatedModule, firsts.1, firsts.2]
        exact ⟨coupling.add related ⟨identifier, Node.mem_of_named member found, rfl⟩, rfl, hoisted.deferred, hoisted.listed⟩
      · have names := coupling.left related
        have implements := coupling.implementer related (pass.module.child name)
        simp only [names.2, (coupling.right related).2, ← implements]
        refine { hoisted with scopes := ?_, modules := rfl }
        dsimp only
        split
        · exact coupling.add related ⟨identifier, Node.mem_of_named member found, rfl⟩
        · next known =>
          rw [places.1, places.2]
          refine coupling.write related (.module member found text ?_)
          simpa [Option.isSome_iff_ne_none] using known

theorem enterUse (coupling : Coupling pass load load' Resolved Known Wanted Related) {left right : Hoisting} {clause : Node}
    (member : clause ∈ pass.root.children) (hoisted : Hoisted pass Related left right)
    (wanted : ∀ uri ∈ (left.enterUse load pass.limits clause).scope.dependencies, Wanted uri) :
    Hoisted pass Related (left.enterUse load pass.limits clause) (right.enterUse load' pass.limits clause) := by
  cases found : clause.child? .path with
  | none =>
    simp only [Hoisting.enterUse, found]
    exact hoisted
  | some path =>
    have onTree : pass.root.HasPath path := ⟨clause, Node.mem_preorder_of_child member, found⟩
    have listed : ∀ uri ∈ (left.scope.resolveEarly load pass.limits path).2.dependencies, Wanted uri := by
      intro uri asked
      apply wanted uri
      simp only [Hoisting.enterUse, found]
      split
      all_goals
        next outcome =>
          rw [outcome] at asked
          simpa using asked
    obtain ⟨same, onward, resolves⟩ := coupling.resolveEarly onTree hoisted.scopes listed
    simp only [Hoisting.enterUse, found]
    cases here : left.scope.resolveEarly load pass.limits path with
    | mk outcome scope =>
      cases there : right.scope.resolveEarly load' pass.limits path with
      | mk outcome' scope' =>
        simp only [here, there] at same onward resolves
        subst same
        cases outcome with
        | resolved target =>
          exact { hoisted with scopes := coupling.declareAlias member found (resolves target rfl) onward }
        | failed => exact { hoisted with scopes := onward }
        | pending =>
          refine ⟨onward, hoisted.modules, congrArg (· ++ [clause]) hoisted.deferred, ?_⟩
          intro other waiting
          rcases List.mem_append.mp waiting with waiting | waiting
          · exact hoisted.listed other waiting
          · exact List.mem_singleton.mp waiting ▸ member

theorem step (coupling : Coupling pass load load' Resolved Known Wanted Related) {left right : Hoisting} {declaration : Node}
    (member : declaration ∈ pass.root.children) (hoisted : Hoisted pass Related left right)
    (wanted : ∀ uri ∈ (left.step load pass.limits declaration).scope.dependencies, Wanted uri) :
    Hoisted pass Related (left.step load pass.limits declaration) (right.step load' pass.limits declaration) := by
  rw [Hoisting.step] at wanted ⊢
  rw [Hoisting.step]
  split
  · next kind => exact { hoisted with scopes := coupling.enterType member (by rw [Node.sort?, kind]) hoisted.scopes }
  · next kind => exact { hoisted with scopes := coupling.enterType member (by rw [Node.sort?, kind]) hoisted.scopes }
  · exact coupling.enterModule member hoisted
  · next kind =>
    rw [kind] at wanted
    exact coupling.enterUse member hoisted wanted
  · exact hoisted

end Coupling

/-- Two runs over the same items stay related, as long as the first one lists wanted documents only. -/
theorem foldl_related {α σ : Type} {step step' : σ → α → σ} (listed : σ → List String) (Wanted : String → Prop)
    (Related : σ → σ → Prop) {items : List α} (grows : ∀ state item, listed state ⊆ listed (step state item))
    (advance : ∀ {left right item}, item ∈ items → Related left right →
      (∀ uri ∈ listed (step left item), Wanted uri) → Related (step left item) (step' right item))
    {left right : σ} (related : Related left right) (wanted : ∀ uri ∈ listed (items.foldl step left), Wanted uri) :
    Related (items.foldl step left) (items.foldl step' right) := by
  induction items generalizing left right with
  | nil => exact related
  | cons item items ih =>
    have onward := advance (.head _) related fun uri asked => wanted uri (foldl_grows listed grows items _ asked)
    exact ih (fun member => advance (.tail _ member)) onward wanted

namespace Coupling

open Scope

variable {pass : Pass} {load load' : Loader} {Resolved : Scope → Node → SymbolPath → Prop}
  {Known : Scope → SymbolPath → Prop} {Wanted : String → Prop} {Related : Scope → Scope → Prop} {left right : Scope}

theorem hoist (coupling : Coupling pass load load' Resolved Known Wanted Related) (related : Related left right)
    (wanted : ∀ uri ∈ (left.hoist load pass.limits pass.root).2.dependencies, Wanted uri) :
    (left.hoist load pass.limits pass.root).1 = (right.hoist load' pass.limits pass.root).1 ∧
      (∀ clause ∈ (left.hoist load pass.limits pass.root).1, clause ∈ pass.root.children) ∧
      Related (left.hoist load pass.limits pass.root).2 (right.hoist load' pass.limits pass.root).2 := by
  have start : Hoisted pass Related { scope := left } { scope := right } := ⟨related, rfl, rfl, by simp⟩
  have hoisted : Hoisted pass Related (pass.root.children.foldl (Hoisting.step load pass.limits) { scope := left })
      (pass.root.children.foldl (Hoisting.step load' pass.limits) { scope := right }) :=
    foldl_related (fun hoisting => hoisting.scope.dependencies) Wanted (Hoisted pass Related)
      (Hoisting.step_grows load pass.limits) coupling.step start wanted
  exact ⟨hoisted.deferred, hoisted.listed, hoisted.scopes⟩

mutual

theorem typeData (coupling : Coupling pass load load' Resolved Known Wanted Related) {left right : Scope} (node : Node)
    (member : node ∈ pass.root.preorder) (related : Related left right)
    (wanted : ∀ uri ∈ (Scope.typeData load pass.limits node left).2.dependencies, Wanted uri) :
    (Scope.typeData load pass.limits node left).1 = (Scope.typeData load' pass.limits node right).1 ∧
      Related (Scope.typeData load pass.limits node left).2 (Scope.typeData load' pass.limits node right).2 ∧
      ∀ target ∈ (Scope.typeData load pass.limits node left).1.targets,
        Known (Scope.typeData load pass.limits node left).2 target := by
  cases node with
  | mk kind span role children =>
    have inside : ∀ child ∈ (Node.mk kind span role children).children, child ∈ pass.root.preorder :=
      fun child below => Node.preorder_trans (Node.mem_preorder_of_child below) member
    cases kind with
    | listType =>
      obtain ⟨same, onward⟩ := coupling.innerType children inside related wanted
      exact ⟨congrArg SchemaType.list same, onward⟩
    | optionalType =>
      obtain ⟨same, onward⟩ := coupling.innerType children inside related wanted
      exact ⟨congrArg SchemaType.optional same, onward⟩
    | referenceType =>
      simp only [Scope.typeData] at wanted ⊢
      cases found : children.find? fun child => child.role == some .path with
      | none => exact ⟨rfl, related, fun target among => by cases among⟩
      | some path =>
        simp only [found] at wanted ⊢
        obtain ⟨same, onward, resolves⟩ := coupling.resolvePath ⟨_, member, found⟩ related wanted
        refine ⟨congrArg SchemaType.reference same, onward, fun target among => ?_⟩
        exact (resolves target (Option.mem_toList.mp among)).2
    | literalType =>
      simp only [Scope.typeData]
      refine ⟨trivial, related, fun target among => ?_⟩
      cases value : (children.find? fun child => child.role == some .value).bind Node.literalValue? <;>
        (rw [value] at among; cases among)
    | _ => exact ⟨rfl, related, fun target among => by cases among⟩
termination_by structural node

theorem innerType (coupling : Coupling pass load load' Resolved Known Wanted Related) {left right : Scope}
    (nodes : List Node) (members : ∀ node ∈ nodes, node ∈ pass.root.preorder) (related : Related left right)
    (wanted : ∀ uri ∈ (Scope.innerType load pass.limits nodes left).2.dependencies, Wanted uri) :
    (Scope.innerType load pass.limits nodes left).1 = (Scope.innerType load' pass.limits nodes right).1 ∧
      Related (Scope.innerType load pass.limits nodes left).2 (Scope.innerType load' pass.limits nodes right).2 ∧
      ∀ target ∈ (Scope.innerType load pass.limits nodes left).1.targets,
        Known (Scope.innerType load pass.limits nodes left).2 target := by
  cases nodes with
  | nil => exact ⟨rfl, related, fun target among => by cases among⟩
  | cons node nodes =>
    rw [List.forall_mem_cons] at members
    rw [Scope.innerType] at wanted ⊢
    rw [Scope.innerType]
    split
    · next role =>
      rw [if_pos role] at wanted
      exact coupling.typeData node members.1 related wanted
    · next role =>
      rw [if_neg role] at wanted
      exact coupling.innerType nodes members.2 related wanted
termination_by structural nodes

end

/-- What a field's chain leaves: nothing where the field is declared, else a write. -/
theorem enterField_eq (scope : Scope) (container : SymbolPath) (key pair : Node) (name : String)
    (subcategory : Subcategory) (data : Option SchemaType) :
    scope.enterField container key pair name subcategory data =
      match (scope.query (container.member name)).declared? with
      | some symbol => (false, scope.add (duplicated name key.span symbol))
      | none => (true, scope.write true (container.member name)
          { subcategory := some subcategory
            desc := pair.doc?
            data
            usage := some
              { kind := .definition, location := scope.locate key.span, fullSpan := some pair.span } }) := by
  change (match (scope.query (container.member name)).declared? with
    | some symbol => (false, scope.add (duplicated name key.span symbol))
    | none => (true, scope.withTable ((scope.query (container.member name)).ifDeclared.otherwise _).table)) = _
  cases free : (scope.query (container.member name)).declared? with
  | some symbol => rfl
  | none =>
    simp only [Query.ifDeclared, free, Option.isSome_none, Bool.false_eq_true, if_false]
    rfl

theorem enterField (coupling : Coupling pass load load' Resolved Known Wanted Related) {container : SymbolPath}
    (inside : pass.Container (Pass.Ever Resolved) container) {key pair : Node} (member : pair ∈ pass.root.preorder)
    (found : pair.child? .key = some key) {name : String} (text : key.textValue? = some name)
    (subcategory : Subcategory) {data : Option SchemaType}
    (known : ∀ type ∈ data, ∀ target ∈ type.targets, Known left target) (related : Related left right) :
    (left.enterField container key pair name subcategory data).1 =
        (right.enterField container key pair name subcategory data).1 ∧
      Related (left.enterField container key pair name subcategory data).2
        (right.enterField container key pair name subcategory data).2 := by
  have seen : (left.query (container.member name)).declared?.map Symbol.firstDeclaration? =
      (right.query (container.member name)).declared?.map Symbol.firstDeclaration? :=
    congrArg Prod.fst (coupling.sight related (.field inside name))
  have places := coupling.locate related key.span
  rw [enterField_eq, enterField_eq, places.1, places.2]
  cases here : (left.query (container.member name)).declared? with
  | none =>
    have there : (right.query (container.member name)).declared? = none := by simpa [here] using seen.symm
    rw [there]
    rw [query, (coupling.left related).1] at here
    exact ⟨rfl, coupling.write related (.field inside member found text here subcategory data known)⟩
  | some existing =>
    obtain ⟨other, there, same⟩ : ∃ other, (right.query (container.member name)).declared? = some other ∧
        other.firstDeclaration? = existing.firstDeclaration? := by
      simpa [here] using seen.symm
    rw [there]
    simp only [duplicated_congr same]
    have place := Node.preorder_trans (Node.mem_preorder_of_child (Node.mem_of_child? found)) member
    exact ⟨trivial, coupling.add related ⟨key, place, duplicated_span ..⟩⟩

theorem fieldType (coupling : Coupling pass load load' Resolved Known Wanted Related) {pair : Node}
    (member : pair ∈ pass.root.preorder) (related : Related left right)
    (wanted : ∀ uri ∈ (left.fieldType load pass.limits pair).2.dependencies, Wanted uri) :
    (left.fieldType load pass.limits pair).1 = (right.fieldType load' pass.limits pair).1 ∧
      Related (left.fieldType load pass.limits pair).2 (right.fieldType load' pass.limits pair).2 ∧
      ∀ type ∈ (left.fieldType load pass.limits pair).1, ∀ target ∈ type.targets,
        Known (left.fieldType load pass.limits pair).2 target := by
  rw [Scope.fieldType] at wanted ⊢
  rw [Scope.fieldType]
  cases found : pair.child? .value with
  | none => exact ⟨rfl, related, by simp⟩
  | some value =>
    rw [found] at wanted
    have below := Node.preorder_trans (Node.mem_preorder_of_child (Node.mem_of_child? found)) member
    obtain ⟨same, onward, known⟩ := coupling.typeData value below related wanted
    exact ⟨congrArg some same, onward, by simpa using known⟩

structure Listed (Known : Scope → SymbolPath → Prop) (Related : Scope → Scope → Prop)
    (left right : List (String × SchemaType) × Scope) : Prop where
  fields : left.1 = right.1
  scopes : Related left.2 right.2
  known : ∀ target ∈ SchemaType.fieldTargets left.1, Known left.2 target

theorem structField (coupling : Coupling pass load load' Resolved Known Wanted Related) {container : SymbolPath}
    (inside : pass.Container (Pass.Ever Resolved) container) {left right : List (String × SchemaType) × Scope} {pair : Node}
    (member : pair ∈ pass.root.preorder) (listed : Listed Known Related left right)
    (wanted : ∀ uri ∈ (Scope.structField load pass.limits container left pair).2.dependencies, Wanted uri) :
    Listed Known Related (Scope.structField load pass.limits container left pair)
      (Scope.structField load' pass.limits container right pair) := by
  obtain ⟨fields, left⟩ := left
  obtain ⟨fields', right⟩ := right
  obtain rfl : fields = fields' := listed.fields
  cases found : pair.child? .key with
  | none =>
    simp only [Scope.structField, found]
    exact listed
  | some key =>
    have asks : ∀ uri ∈ (left.fieldType load pass.limits pair).2.dependencies, Wanted uri := by
      intro uri asked
      apply wanted uri
      simp only [Scope.structField, found]
      split
      · exact asked
      · split <;> simpa using asked
    obtain ⟨same, ⟨onward, kept⟩, known⟩ := (coupling.remembering (· ∈ SchemaType.fieldTargets fields)).fieldType
      member ⟨listed.scopes, listed.known⟩ asks
    simp only [Scope.structField, found, ← same]
    cases text : key.textValue? with
    | none => exact ⟨rfl, onward, kept⟩
    | some name =>
      obtain ⟨flag, entered, remembered⟩ := (coupling.remembering fun target => target ∈ SchemaType.fieldTargets fields ∨
        ∃ type ∈ (left.fieldType load pass.limits pair).1, target ∈ type.targets).enterField inside member found text
          .compoundKey known ⟨onward, fun target either => either.elim (kept target) (Exists.elim · fun type own =>
            known type own.1 target own.2)⟩
      simp only [← flag]
      split
      · next type _ given =>
        refine ⟨rfl, entered, fun target among => remembered target ?_⟩
        rw [SchemaType.fieldTargets_append, List.mem_append] at among
        exact among.imp_right fun own => ⟨type, given, by simpa [SchemaType.fieldTargets] using own⟩
      · exact ⟨rfl, entered, fun target among => remembered target (.inl among)⟩

theorem structFields (coupling : Coupling pass load load' Resolved Known Wanted Related) {container : SymbolPath}
    (inside : pass.Container (Pass.Ever Resolved) container) {body : Node} (member : body ∈ pass.root.preorder)
    (related : Related left right)
    (wanted : ∀ uri ∈ (left.structFields load pass.limits container body).2.dependencies, Wanted uri) :
    Listed Known Related (left.structFields load pass.limits container body)
      (right.structFields load' pass.limits container body) := by
  refine foldl_related (fun state : List (String × SchemaType) × Scope => state.2.dependencies) Wanted
    (Listed Known Related) (Scope.structField_grows load pass.limits container) ?_
    ⟨rfl, related, fun target among => by cases among⟩ wanted
  intro left right pair below listed
  exact coupling.structField inside (Node.preorder_trans (Node.mem_preorder_of_child below) member) listed

theorem enumValue (coupling : Coupling pass load load' Resolved Known Wanted Related) {container : SymbolPath}
    (inside : pass.Container (Pass.Ever Resolved) container) {left right : List (String × Option LiteralValue) × Scope} {pair : Node}
    (member : pair ∈ pass.root.preorder) (related : left.1 = right.1 ∧ Related left.2 right.2) :
    (Scope.enumValue container left pair).1 = (Scope.enumValue container right pair).1 ∧
      Related (Scope.enumValue container left pair).2 (Scope.enumValue container right pair).2 := by
  obtain ⟨values, left⟩ := left
  obtain ⟨values', right⟩ := right
  obtain ⟨rfl, related⟩ : values = values' ∧ Related left right := related
  simp only [Scope.enumValue]
  cases found : pair.child? .key with
  | none => exact ⟨rfl, related⟩
  | some key =>
    cases text : key.textValue? with
    | none => exact ⟨by simp only [text], by simpa only [text] using related⟩
    | some name =>
      simp only [text]
      have literal : ∀ type ∈ ((pair.child? .value).bind Node.literalValue?).map SchemaType.literal,
          ∀ target ∈ type.targets, Known left target := by
        intro type given target among
        obtain ⟨value, _, rfl⟩ := Option.map_eq_some_iff.mp given
        cases among
      obtain ⟨flag, entered⟩ := coupling.enterField inside member found text .enumKey literal related
      simp only [← flag]
      exact ⟨trivial, entered⟩

theorem enumValues (coupling : Coupling pass load load' Resolved Known Wanted Related) {container : SymbolPath}
    (inside : pass.Container (Pass.Ever Resolved) container) {body : Node} (member : body ∈ pass.root.preorder)
    (related : Related left right) :
    (left.enumValues container body).1 = (right.enumValues container body).1 ∧
      Related (left.enumValues container body).2 (right.enumValues container body).2 := by
  refine foldl_related (fun _ : List (String × Option LiteralValue) × Scope => []) Wanted
    (fun left right => left.1 = right.1 ∧ Related left.2 right.2) (fun _ _ => List.Subset.refl _) ?_ ⟨rfl, related⟩ (by simp)
  intro left right pair below values _
  exact coupling.enumValue inside (Node.preorder_trans (Node.mem_preorder_of_child below) member) values

theorem owned? (coupling : Coupling pass load load' Resolved Known Wanted Related) {declaration : Node}
    (member : declaration ∈ pass.root.children) (related : Related left right) :
    left.owned? declaration = right.owned? declaration ∧
      ∀ {address body}, left.owned? declaration = some (address, body) →
        (∃ node name, pass.Names node name ∧ address = .schema (pass.module.join name)) ∧ body ∈ pass.root.preorder := by
  simp only [Scope.owned?, (coupling.left related).2, (coupling.right related).2]
  split
  · next identifier body found holds =>
    cases text : identifier.textValue? with
    | none => simp
    | some name =>
      have names : pass.Names identifier name := .declared member found text
      have places := coupling.locate related identifier.span
      have defined := congrArg Prod.snd (coupling.sight related (.name names))
      dsimp only [Scope.sight] at defined
      simp only [Option.bind_some, ownsDefinition, defined, places.1, places.2, true_and]
      intro address own result
      split at result
      · cases result
        exact ⟨⟨identifier, name, names, rfl⟩, Node.preorder_trans
          (Node.mem_preorder_of_child (Node.mem_of_child? holds)) (Node.mem_preorder_of_child member)⟩
      · cases result
  · simp

theorem checkUse (coupling : Coupling pass load load' Resolved Known Wanted Related) {clause : Node}
    (member : clause ∈ pass.root.children) (related : Related left right)
    (wanted : ∀ uri ∈ (left.checkUse load pass.limits clause).dependencies, Wanted uri) :
    Related (left.checkUse load pass.limits clause) (right.checkUse load' pass.limits clause) := by
  cases found : clause.child? .path with
  | none =>
    simp only [Scope.checkUse, found]
    exact related
  | some path =>
    have onTree : pass.root.HasPath path := ⟨clause, Node.mem_preorder_of_child member, found⟩
    have listed : ∀ uri ∈ (left.resolvePath load pass.limits path).2.dependencies, Wanted uri := by
      intro uri asked
      apply wanted uri
      simp only [Scope.checkUse, found]
      split
      all_goals
        next outcome =>
          rw [outcome] at asked
          simpa using asked
    obtain ⟨same, onward, resolves⟩ := coupling.resolvePath onTree related listed
    simp only [Scope.checkUse, found]
    cases here : left.resolvePath load pass.limits path with
    | mk outcome scope =>
      cases there : right.resolvePath load' pass.limits path with
      | mk outcome' scope' =>
        simp only [here, there] at same onward resolves
        subst same
        cases outcome with
        | none => exact onward
        | some target => exact coupling.declareAlias member found (resolves target rfl) onward

theorem checkStruct (coupling : Coupling pass load load' Resolved Known Wanted Related) {declaration : Node}
    (member : declaration ∈ pass.root.children) (related : Related left right)
    (wanted : ∀ uri ∈ (left.checkStruct load pass.limits declaration).dependencies, Wanted uri) :
    Related (left.checkStruct load pass.limits declaration) (right.checkStruct load' pass.limits declaration) := by
  obtain ⟨same, owns⟩ := coupling.owned? member related
  simp only [Scope.checkStruct, ← same] at wanted ⊢
  cases owned : left.owned? declaration with
  | none => exact related
  | some owner =>
    obtain ⟨address, body⟩ := owner
    obtain ⟨⟨node, name, names, rfl⟩, below⟩ := owns owned
    rw [owned] at wanted
    have listed := coupling.structFields (.own names) below related wanted
    dsimp only
    rw [← listed.fields]
    exact coupling.write listed.scopes (.data names (.struct _) listed.known)

theorem checkEnum (coupling : Coupling pass load load' Resolved Known Wanted Related) {declaration : Node}
    (member : declaration ∈ pass.root.children) (kind : Option EnumKind) (related : Related left right) :
    Related (left.checkEnum declaration kind) (right.checkEnum declaration kind) := by
  obtain ⟨same, owns⟩ := coupling.owned? member related
  simp only [Scope.checkEnum, ← same]
  cases owned : left.owned? declaration with
  | none => exact related
  | some owner =>
    obtain ⟨address, body⟩ := owner
    obtain ⟨⟨node, name, names, rfl⟩, below⟩ := owns owned
    obtain ⟨values, entered⟩ := coupling.enumValues (.own names) below related
    dsimp only
    rw [← values]
    exact coupling.write entered (.data names _ fun target among => by cases among)

theorem enterObjects (coupling : Coupling pass load load' Resolved Known Wanted Related) (registry : String)
    {target : Option SymbolPath} (objects : List (String × Span)) (known : ∀ found ∈ target, Known left found)
    (related : Related left right) :
    Related (objects.foldl (enterObject registry target) left) (objects.foldl (enterObject registry target) right) := by
  induction objects generalizing left right with
  | nil => exact related
  | cons object objects ih =>
    have places := coupling.locate related object.2
    have writes : pass.Writes Resolved Known left true _ _ := .object registry object.1 object.2 target known
    simp only [List.foldl_cons, enterObject, places.1, places.2]
    exact ih (fun found given => coupling.retain related (.write writes) (known found given)) (coupling.write related writes)

theorem checkDescribes (coupling : Coupling pass load load' Resolved Known Wanted Related) {setup : Setup}
    (limits : setup.limits = pass.limits) {clause : Node} (member : clause ∈ pass.root.children)
    (related : Related left right)
    (wanted : ∀ uri ∈ (left.checkDescribes load setup clause).dependencies, Wanted uri) :
    Related (left.checkDescribes load setup clause) (right.checkDescribes load' setup clause) := by
  simp only [Scope.checkDescribes] at wanted ⊢
  split
  · next path registry found listed =>
    simp only [found, listed] at wanted
    split
    · exact related
    · next name named =>
      simp only [named] at wanted
      split
      · exact related
      · next known =>
        simp only [if_neg known, enterObjects_dependencies, limits] at wanted
        have onTree : pass.root.HasPath path := ⟨clause, Node.mem_preorder_of_child member, found⟩
        obtain ⟨same, onward, resolves⟩ := coupling.resolvePath onTree related wanted
        simp only [limits, ← same]
        exact coupling.enterObjects name _ (fun found given => (resolves found given).2) onward
  · exact related

theorem checkInject (coupling : Coupling pass load load' Resolved Known Wanted Related) {clause : Node}
    (member : clause ∈ pass.root.children) (injects : clause.kind = .injectClause) (related : Related left right)
    (wanted : ∀ uri ∈ (left.checkInject load pass.limits clause).dependencies, Wanted uri) :
    Related (left.checkInject load pass.limits clause) (right.checkInject load' pass.limits clause) := by
  cases holds : clause.child? .definition with
  | none =>
    simp only [Scope.checkInject, holds]
    exact related
  | some definition =>
    have below := Node.preorder_trans (Node.mem_preorder_of_child (Node.mem_of_child? holds))
      (Node.mem_preorder_of_child member)
    simp only [Scope.checkInject, holds] at wanted ⊢
    split
    · next subcategory kind path injected found =>
      simp only [injected, found] at wanted
      have listed : ∀ uri ∈ (left.resolvePath load pass.limits path).2.dependencies, Wanted uri := by
        intro uri asked
        apply wanted uri
        split
        · next outcome => rwa [outcome] at asked
        · next target scope outcome =>
          rw [outcome] at asked
          split
          · exact asked
          · split
            · exact asked
            · split
              · exact scope.structFields_grows _ _ _ _ asked
              · exact scope.enumValues_grows _ _ asked
      obtain ⟨same, onward, resolves⟩ := coupling.resolvePath ⟨definition, below, found⟩ related listed
      cases here : left.resolvePath load pass.limits path with
      | mk outcome left =>
        cases there : right.resolvePath load' pass.limits path with
        | mk outcome' right =>
          simp only [here, there] at same onward resolves wanted
          subst same
          cases outcome with
          | none => exact onward
          | some target =>
            have kinds := coupling.kind onward member injects target
            have container : pass.Container (Pass.Ever Resolved) target :=
              .injected member injects ⟨_, (resolves target rfl).1⟩
            simp only [← kinds] at wanted ⊢
            split
            · exact coupling.add onward ⟨path, Node.HasPath.mem ⟨definition, below, found⟩, rfl⟩
            · next matching =>
              rw [if_neg matching] at wanted
              cases holdsBody : definition.child? .body with
              | none => exact onward
              | some body =>
                have inside := Node.preorder_trans (Node.mem_preorder_of_child (Node.mem_of_child? holdsBody)) below
                rw [holdsBody] at wanted
                dsimp only at wanted ⊢
                split
                · exact (coupling.structFields container inside onward wanted).scopes
                · exact (coupling.enumValues container inside onward).2
    · exact related

theorem checkDeclaration (coupling : Coupling pass load load' Resolved Known Wanted Related) {setup : Setup}
    (limits : setup.limits = pass.limits) {declaration : Node} (member : declaration ∈ pass.root.children)
    (related : Related left right)
    (wanted : ∀ uri ∈ (left.checkDeclaration load setup declaration).dependencies, Wanted uri) :
    Related (left.checkDeclaration load setup declaration) (right.checkDeclaration load' setup declaration) := by
  simp only [Scope.checkDeclaration] at wanted ⊢
  split
  · next kind =>
    simp only [kind, limits] at wanted ⊢
    exact coupling.checkStruct member related wanted
  · exact coupling.checkEnum member _ related
  · next kind =>
    simp only [kind] at wanted
    exact coupling.checkDescribes limits member related wanted
  · next kind =>
    simp only [kind, limits] at wanted ⊢
    exact coupling.checkInject member kind related wanted
  · exact related

theorem check (coupling : Coupling pass load load' Resolved Known Wanted Related) {setup : Setup}
    (limits : setup.limits = pass.limits) {deferred : List Node}
    (members : ∀ clause ∈ deferred, clause ∈ pass.root.children) (related : Related left right)
    (wanted : ∀ uri ∈ (left.check load setup pass.root deferred).dependencies, Wanted uri) :
    Related (left.check load setup pass.root deferred) (right.check load' setup pass.root deferred) := by
  have uses : Related (deferred.foldl (Scope.checkUse load setup.limits) left)
      (deferred.foldl (Scope.checkUse load' setup.limits) right) := by
    refine foldl_related dependencies Wanted Related (checkUse_grows load setup.limits) ?_ related ?_
    · intro left right clause waiting related
      simp only [limits]
      exact coupling.checkUse (members clause waiting) related
    · intro uri asked
      exact wanted uri (foldl_grows _ (checkDeclaration_grows load setup) pass.root.children _ asked)
  exact foldl_related dependencies Wanted Related (checkDeclaration_grows load setup)
    (coupling.checkDeclaration limits) uses wanted

/-- Both passes over a document, in two workspaces and with two loaders, end in related scopes. -/
theorem process (coupling : Coupling pass load load' Resolved Known Wanted Related) {setup : Setup}
    (limits : setup.limits = pass.limits) {workspace workspace' : Workspace} {errors : List Diagnostic}
    (related : Related { workspace, uri := pass.uri, module := pass.module, errors }
      { workspace := workspace', uri := pass.uri, module := pass.module, errors })
    (wanted : ∀ uri ∈ (Workspace.process load setup workspace pass.uri pass.module errors pass.root).dependencies,
      Wanted uri) :
    Related (Workspace.process load setup workspace pass.uri pass.module errors pass.root)
      (Workspace.process load' setup workspace' pass.uri pass.module errors pass.root) := by
  have entered : ∀ {scope : Scope}, scope.uri = pass.uri →
      { scope with workspace := scope.workspace.setState pass.uri .checking } = scope.checking := by
    intro scope uri
    rw [Scope.checking, uri]
  simp only [Workspace.process, limits] at wanted ⊢
  obtain ⟨same, members, hoisted⟩ := coupling.hoist related fun uri asked => wanted uri (check_grows _ _ _ _ _ asked)
  rw [entered (coupling.left hoisted).1] at wanted ⊢
  rw [entered (coupling.right hoisted).1, ← same]
  exact coupling.check limits members (coupling.checking hoisted) wanted

end Coupling

end SchemaDoc
