import Mathlib.Data.List.Basic
import SchemaDoc.Proofs.NodePlacement
import SchemaDoc.Workspace.Load

/-! What the passes over one document ask of the table, and what they write. The documents that a pass
has asked for are never taken off its list, so whatever it loads is listed in the end. -/

namespace SchemaDoc

namespace Node

theorem mem_preorder_of_child {node child : Node} (member : child ∈ node.children) : child ∈ node.preorder :=
  mem_preorder.mpr (.inr (mem_forestPreorder.mpr ⟨child, member, child.self_mem_preorder⟩))

theorem preorder_trans {outer inner middle : Node} (below : inner ∈ middle.preorder)
    (member : middle ∈ outer.preorder) : inner ∈ outer.preorder := by
  have handed : ∀ node : Node, (∀ other ∈ node.preorder, other ∈ outer.preorder) →
      ∀ child ∈ node.children, ∀ other ∈ child.preorder, other ∈ outer.preorder :=
    fun _ all => (forall_mem_preorder.mp all).2
  exact forall_preorder_of_handed handed (fun _ member => member) middle member inner below

theorem mem_of_child? {node child : Node} {role : Role} (found : node.child? role = some child) :
    child ∈ node.children := List.mem_of_find?_eq_some found

/-- What a declaration defines, if it defines a type. -/
def sort? (declaration : Node) : Option Subcategory :=
  match declaration.kind with
  | .struct => some .compound
  | .enum _ => some .enum
  | _ => none

/-- A path that some node of the tree refers to something with. -/
def HasPath (root path : Node) : Prop := ∃ parent ∈ root.preorder, parent.child? .path = some path

theorem HasPath.mem {root path : Node} (onTree : root.HasPath path) : path ∈ root.preorder := by
  obtain ⟨parent, below, found⟩ := onTree
  exact preorder_trans (mem_preorder_of_child (mem_of_child? found)) below

theorem mem_of_named {root declaration node : Node} {role : Role} (member : declaration ∈ root.children)
    (found : declaration.child? role = some node) : node ∈ root.preorder :=
  preorder_trans (mem_preorder_of_child (mem_of_child? found)) (mem_preorder_of_child member)

end Node

theorem mem_pathSegments {path : Node} {name : String} {span : Span} (member : (name, span) ∈ pathSegments path) :
    ∃ child ∈ path.children, child.span = span := by
  obtain ⟨child, among, spelled⟩ := List.mem_filterMap.mp member
  obtain ⟨value, _, same⟩ := Option.map_eq_some_iff.mp spelled
  cases same
  exact ⟨child, among, rfl⟩

/-- A path that leads somewhere names it with its last segment. -/
theorem walkPath_inversion {limits : Limits} {module : ModulePath} {path : Node} {goal : PathTarget}
    (walked : walkPath limits module path = .ok goal) :
    (pathSegments path).getLast? = some (goal.name, goal.nameSpan) ∧
      ∃ start, (start = module ∨ start = .root) ∧
        walkModules start (pathSegments path).dropLast = .ok (goal.module, goal.mentions) := by
  rw [walkPath] at walked
  dsimp only at walked
  cases last : (pathSegments path).getLast? with
  | none =>
    rw [last] at walked
    cases walked
  | some segment =>
    obtain ⟨name, span⟩ := segment
    rw [last] at walked
    dsimp only at walked
    split at walked
    · cases walked
    · have arrived : ∀ start, (start = module ∨ start = .root) →
          (walkModules start (pathSegments path).dropLast).map (fun result =>
            ({ module := result.1, name, nameSpan := span, mentions := result.2 } : PathTarget)) = .ok goal →
          some (name, span) = some (goal.name, goal.nameSpan) ∧ ∃ start, (start = module ∨ start = .root) ∧
            walkModules start (pathSegments path).dropLast = .ok (goal.module, goal.mentions) := by
        intro start chosen walked
        cases walking : walkModules start (pathSegments path).dropLast with
        | error failure =>
          rw [walking] at walked
          cases walked
        | ok result =>
          rw [walking] at walked
          cases walked
          exact ⟨rfl, start, chosen, walking⟩
      split at walked
      · exact arrived _ (.inr rfl) walked
      · exact arrived _ (.inl rfl) walked

theorem walkModules_error {start : ModulePath} {segments : List (String × Span)} {failure : WalkError}
    (failed : walkModules start segments = .error failure) :
    ∃ name span, (name, span) ∈ segments ∧ failure = .aboveRoot span := by
  induction segments generalizing start with
  | nil => cases failed
  | cons first rest ih =>
    obtain ⟨segment, span⟩ := first
    have further : ∀ {middle : ModulePath} {mention : ModuleMention},
        (walkModules middle rest).map (fun result => (result.1, mention :: result.2)) = .error failure →
        ∃ name place, (name, place) ∈ (segment, span) :: rest ∧ failure = .aboveRoot place := by
      intro middle mention failed
      cases walking : walkModules middle rest with
      | ok result =>
        rw [walking] at failed
        cases failed
      | error other =>
        rw [walking] at failed
        cases failed
        obtain ⟨name, place, member, same⟩ := ih walking
        exact ⟨name, place, List.mem_cons_of_mem _ member, same⟩
    rw [walkModules] at failed
    split at failed
    · split at failed
      · cases failed
        exact ⟨segment, span, List.mem_cons_self, rfl⟩
      · exact further failed
    · exact further failed

/-- A path that leads nowhere has no segments, or it says where it went wrong: as a whole, or at a segment. -/
theorem walkPath_error {limits : Limits} {module : ModulePath} {path : Node} {failure : WalkError}
    (failed : walkPath limits module path = .error failure) :
    failure = .empty ∧ pathSegments path = [] ∨
      pathSegments path ≠ [] ∧ (failure = .tooDeep limits.maxPathDepth path.span ∨
        ∃ child ∈ path.children, failure = .aboveRoot child.span) := by
  rw [walkPath] at failed
  dsimp only at failed
  cases last : (pathSegments path).getLast? with
  | none =>
    rw [last] at failed
    cases failed
    exact .inl ⟨rfl, List.getLast?_eq_none_iff.mp last⟩
  | some segment =>
    have some : pathSegments path ≠ [] := by
      rintro empty
      rw [empty] at last
      cases last
    rw [last] at failed
    dsimp only at failed
    refine .inr ⟨some, ?_⟩
    split at failed
    · cases failed
      exact .inl rfl
    · have stopped : ∀ {α : Type} {finish : ModulePath × List ModuleMention → α} {start : ModulePath},
          (walkModules start (pathSegments path).dropLast).map finish = .error failure →
          walkModules start (pathSegments path).dropLast = .error failure := by
        intro α finish start failed
        cases walking : walkModules start (pathSegments path).dropLast with
        | ok result =>
          rw [walking] at failed
          cases failed
        | error other =>
          rw [walking] at failed
          cases failed
          rfl
      obtain ⟨name, span, member, rfl⟩ := walkModules_error (stopped failed)
      obtain ⟨child, among, rfl⟩ := mem_pathSegments (List.dropLast_subset _ member)
      exact .inr ⟨child, among, rfl⟩

namespace SchemaType

mutual

def targets : SchemaType → List SymbolPath
  | .list item => item.targets
  | .optional inner => inner.targets
  | .reference path => path.toList
  | .struct fields => fieldTargets fields
  | .primitive _ | .literal _ | .enum _ _ => []

def fieldTargets : List (String × SchemaType) → List SymbolPath
  | [] => []
  | (_, type) :: fields => type.targets ++ fieldTargets fields

end

theorem fieldTargets_append (first second : List (String × SchemaType)) :
    fieldTargets (first ++ second) = fieldTargets first ++ fieldTargets second := by
  induction first with
  | nil => rfl
  | cons field fields ih => simp [fieldTargets, ih]

end SchemaType

/-- One document on its way through the passes. -/
structure Pass where
  limits : Limits
  uri : String
  module : ModulePath
  root : Node

namespace Scope

def write (scope : Scope) (creates : Bool) (address : SymbolPath) (record : SymbolRecord) : Scope :=
  scope.withTable (if creates then scope.workspace.table.enter address record
    else scope.workspace.table.amend address record)

def loaded (load : Loader) (scope : Scope) (uri : String) : Scope :=
  { scope with
    workspace := (load scope.workspace uri).2
    dependencies := insertUri uri scope.dependencies }

def failureMessage : LoadError → Message
  | .circular _ => .circularModuleDependency
  | _ => .unknownModule

theorem loadModule_of_other {load : Loader} {scope : Scope} {module : ModulePath} {uri : String}
    (implemented : scope.workspace.table.uriOfModule? module = some uri) (other : uri ≠ scope.uri) (span : Span) :
    scope.loadModule load module span = match (load scope.workspace uri).1 with
      | none => (true, scope.loaded load uri)
      | some failure =>
        (false, (scope.loaded load uri).report (failureMessage failure) [Message.quote module.display] span) := by
  simp only [loadModule, implemented, if_neg other]
  split
  · next success => rw [success]; rfl
  · next failure => rw [failure]; rfl
  · next error other failure =>
    rw [failure]
    cases error with
    | circular uri => exact absurd rfl (other uri)
    | notFound uri => rfl
    | tooDeep limit => rfl

def checking (scope : Scope) : Scope :=
  { scope with workspace := scope.workspace.setState scope.uri .checking }

/-- All that a declaration asks about its address: the first declaration that is seen there, and the
definition. -/
def sight (scope : Scope) (address : SymbolPath) : Option (Option Usage) × Option Usage :=
  ((scope.query address).declared?.map Symbol.firstDeclaration?,
    (scope.workspace.table.lookup? address).bind Symbol.definition?)

/-- All that a path asks at its goal: whether that is declared, where its aliases lead, and whether
that is declared, too. -/
def arrival (scope : Scope) (goal : PathTarget) : Bool × SymbolPath × Bool :=
  let query := scope.query goal.address
  let found := query.elseResolveAlias.elseEnter (scope.reference goal.nameSpan)
  (query.isDeclared, found.address, found.isDeclared)

end Scope

namespace Pass

inductive Names (pass : Pass) : Node → String → Prop where
  | declared {declaration node name} (member : declaration ∈ pass.root.children)
      (found : declaration.child? .identifier = some node) (text : node.textValue? = some name) : Names pass node name
  | used {clause path node name} (member : clause ∈ pass.root.children)
      (found : clause.child? .path = some path) (last : path.children.getLast? = some node)
      (text : node.textValue? = some name) : Names pass node name

/-- A symbol that fields are entered at: a type of the document, or what an inject clause names. Here
`Resolved` holds of what paths were resolved to at any time. -/
inductive Container (pass : Pass) (Resolved : Node → SymbolPath → Prop) : SymbolPath → Prop where
  | own {node name} (names : pass.Names node name) : Container pass Resolved (.schema (pass.module.join name))
  | injected {clause path target} (member : clause ∈ pass.root.children) (kind : clause.kind = .injectClause)
      (resolved : Resolved path target) : Container pass Resolved target

inductive Asks (pass : Pass) (Resolved : Node → SymbolPath → Prop) : SymbolPath → Prop where
  | name {node name} (names : pass.Names node name) : Asks pass Resolved (.schema (pass.module.join name))
  | field {container} (inside : pass.Container Resolved container) (name : String) :
      Asks pass Resolved (container.member name)

/-- A path of the document and where it leads. -/
structure Leads (pass : Pass) (path : Node) (goal : PathTarget) : Prop where
  onTree : pass.root.HasPath path
  walked : walkPath pass.limits pass.module path = .ok goal

def Ever (Resolved : Scope → Node → SymbolPath → Prop) (path : Node) (target : SymbolPath) : Prop :=
  ∃ scope, Resolved scope path target

/-- The writes of the passes. Here `Resolved` holds of what a path has just been resolved to, and `Known`
of what paths were resolved to earlier in the run. -/
inductive Writes (pass : Pass) (Resolved : Scope → Node → SymbolPath → Prop) (Known : Scope → SymbolPath → Prop)
    (scope : Scope) : Bool → SymbolPath → SymbolRecord → Prop where
  | type {declaration node name subcategory} (member : declaration ∈ pass.root.children)
      (found : declaration.child? .identifier = some node) (text : node.textValue? = some name)
      (free : (Query.start scope.workspace.table pass.uri (.schema (pass.module.join name))).declared? = none)
      (sort : declaration.sort? = some subcategory) :
      Writes pass Resolved Known scope true (.schema (pass.module.join name))
        { subcategory := some subcategory
          desc := declaration.doc?
          usage := some
            { kind := .definition, location := ⟨pass.uri, node.span⟩, fullSpan := some declaration.span } }
  | module {declaration node name} (member : declaration ∈ pass.root.children)
      (found : declaration.child? .identifier = some node) (text : node.textValue? = some name)
      (known : (scope.workspace.table.uriOfModule? (pass.module.child name)).isSome) :
      Writes pass Resolved Known scope false (.schema (pass.module.child name).display)
        { usage := some
            { kind := .declaration, location := ⟨pass.uri, node.span⟩, fullSpan := some declaration.span } }
  | use {clause path node name target} (member : clause ∈ pass.root.children)
      (found : clause.child? .path = some path) (last : path.children.getLast? = some node)
      (text : node.textValue? = some name)
      (free : (Query.start scope.workspace.table pass.uri (.schema (pass.module.join name))).declared? = none)
      (resolved : Resolved scope path target) (visibility : Visibility) (known : Known scope target) :
      Writes pass Resolved Known scope true (.schema (pass.module.join name))
        { usage := some
            { kind := .declaration, location := ⟨pass.uri, node.span⟩, fullSpan := some clause.span, visibility }
          relations := { aliasOf := some target } }
  | mention {path goal mention} (leads : pass.Leads path goal) (member : mention ∈ goal.mentions) :
      Writes pass Resolved Known scope false (.schema mention.module.display)
        { usage := some
            { kind := .reference, location := ⟨pass.uri, mention.span⟩, renamable := mention.renamable } }
  | reference {path goal target} (leads : pass.Leads path goal) (resolved : Resolved scope path target) :
      Writes pass Resolved Known scope true target
        { usage := some { kind := .reference, location := ⟨pass.uri, goal.nameSpan⟩ } }
  | field {container key pair name} (inside : pass.Container (Ever Resolved) container) (member : pair ∈ pass.root.preorder)
      (found : pair.child? .key = some key) (text : key.textValue? = some name)
      (free : (Query.start scope.workspace.table pass.uri (container.member name)).declared? = none)
      (subcategory : Subcategory) (data : Option SchemaType)
      (known : ∀ type ∈ data, ∀ target ∈ type.targets, Known scope target) :
      Writes pass Resolved Known scope true (container.member name)
        { subcategory := some subcategory
          desc := pair.doc?
          data
          usage := some
            { kind := .definition, location := ⟨pass.uri, key.span⟩, fullSpan := some pair.span } }
  | data {node name} (names : pass.Names node name) (type : SchemaType)
      (known : ∀ target ∈ type.targets, Known scope target) :
      Writes pass Resolved Known scope false (.schema (pass.module.join name)) { data := some type }
  | object (registry name : String) (span : Span) (target : Option SymbolPath)
      (known : ∀ found ∈ target, Known scope found) :
      Writes pass Resolved Known scope true ⟨.description registry, [name]⟩
        { usage := some { kind := .definition, location := ⟨pass.uri, span⟩ }
          relations := { describedBy := target } }

def Reports (pass : Pass) (diagnostic : Diagnostic) : Prop := ∃ node ∈ pass.root.preorder, diagnostic.span = node.span

inductive Step (pass : Pass) (load : Loader) (Resolved : Scope → Node → SymbolPath → Prop)
    (Known : Scope → SymbolPath → Prop) (scope : Scope) : Scope → Prop where
  | add {diagnostic} (reports : pass.Reports diagnostic) : Step pass load Resolved Known scope (scope.add diagnostic)
  | load {path goal uri} (leads : pass.Leads path goal)
      (implemented : scope.workspace.table.uriOfModule? goal.module = some uri) (apart : uri ≠ pass.uri) :
      Step pass load Resolved Known scope (scope.loaded load uri)
  | write {creates address record} (writes : pass.Writes Resolved Known scope creates address record) :
      Step pass load Resolved Known scope (scope.write creates address record)
  | checking : Step pass load Resolved Known scope scope.checking

theorem Leads.reports {pass : Pass} {path : Node} {goal : PathTarget} (leads : pass.Leads path goal)
    {diagnostic : Diagnostic} (place : diagnostic.span = goal.nameSpan) : pass.Reports diagnostic := by
  obtain ⟨child, among, same⟩ := mem_pathSegments (List.mem_of_getLast? (walkPath_inversion leads.walked).1)
  exact ⟨child, Node.preorder_trans (Node.mem_preorder_of_child among) leads.onTree.mem, place.trans same.symm⟩

end Pass

namespace Scope

theorem mem_insertUri {uri other : String} {uris : List String} :
    other ∈ insertUri uri uris ↔ other = uri ∨ other ∈ uris := by
  induction uris with
  | nil => simp [insertUri]
  | cons first rest ih =>
    rw [insertUri]
    split
    · simp
    · next same =>
      rw [Std.LawfulEqOrd.eq_of_compare same]
      simp
    · rw [List.mem_cons, ih, List.mem_cons]
      grind

@[simp] theorem recordMentions_dependencies (scope : Scope) (mentions : List ModuleMention) :
    (scope.recordMentions mentions).dependencies = scope.dependencies := by
  induction mentions generalizing scope with
  | nil => rfl
  | cons mention mentions ih => exact ih _

@[simp] theorem declare_dependencies (scope : Scope) (address : SymbolPath) (name : String) (span : Span)
    (record : SymbolRecord) : (scope.declare address name span record).dependencies = scope.dependencies := by
  simp only [declare]
  split <;> rfl

@[simp] theorem declareAlias_dependencies (scope : Scope) (clause : Node) (target : SymbolPath) :
    (scope.declareAlias clause target).dependencies = scope.dependencies := by
  simp only [declareAlias]
  split
  · rfl
  · split
    · rfl
    · exact declare_dependencies ..

theorem loadModule_grows (load : Loader) (scope : Scope) (module : ModulePath) (span : Span) :
    scope.dependencies ⊆ (scope.loadModule load module span).2.dependencies := by
  intro listed member
  cases implemented : scope.workspace.table.uriOfModule? module with
  | none =>
    simp only [loadModule, implemented]
    exact member
  | some uri =>
    by_cases own : uri = scope.uri
    · simpa only [loadModule, implemented, if_pos own] using member
    · rw [loadModule_of_other implemented own]
      split <;> exact mem_insertUri.mpr (.inr member)

theorem reachModule_grows (load : Loader) (scope : Scope) (goal : PathTarget) (span : Span) :
    scope.dependencies ⊆ (scope.reachModule load goal span).2.dependencies := by
  rw [reachModule]
  split
  · exact List.Subset.refl _
  · exact loadModule_grows ..

/-- Nothing is asked for behind the load of a path. -/
theorem resolvePath_dependencies {load : Loader} {limits : Limits} {scope : Scope} {path : Node} {goal : PathTarget}
    (walked : walkPath limits scope.module path = .ok goal) :
    (scope.resolvePath load limits path).2.dependencies =
      ((scope.recordMentions goal.mentions).reachModule load goal path.span).2.dependencies := by
  simp only [resolvePath, walked]
  split
  · rfl
  · split <;> rfl

theorem resolvePath_grows (load : Loader) (limits : Limits) (scope : Scope) (path : Node) :
    scope.dependencies ⊆ (scope.resolvePath load limits path).2.dependencies := by
  cases walked : walkPath limits scope.module path with
  | ok goal =>
    rw [resolvePath_dependencies walked, ← recordMentions_dependencies scope goal.mentions]
    exact reachModule_grows ..
  | error failure =>
    simp only [resolvePath, walked]
    cases failure.diagnostic? <;> exact List.Subset.refl _

theorem resolveEarly_dependencies {load : Loader} {limits : Limits} {scope : Scope} {path : Node} {goal : PathTarget}
    (walked : walkPath limits scope.module path = .ok goal) :
    (scope.resolveEarly load limits path).2.dependencies =
      (scope.reachModule load goal path.span).2.dependencies := by
  simp only [resolveEarly, walked]
  split
  · exact recordMentions_dependencies ..
  · split
    · rfl
    · exact recordMentions_dependencies ..

theorem resolveEarly_grows (load : Loader) (limits : Limits) (scope : Scope) (path : Node) :
    scope.dependencies ⊆ (scope.resolveEarly load limits path).2.dependencies := by
  cases walked : walkPath limits scope.module path with
  | ok goal =>
    rw [resolveEarly_dependencies walked]
    exact reachModule_grows ..
  | error failure =>
    simp only [resolveEarly, walked]
    exact List.Subset.refl _

end Scope

/-- What every step lists, the whole run lists. -/
theorem foldl_grows {α σ : Type} {step : σ → α → σ} (listed : σ → List String)
    (grows : ∀ state item, listed state ⊆ listed (step state item)) (items : List α) (state : σ) :
    listed state ⊆ listed (items.foldl step state) := by
  induction items generalizing state with
  | nil => exact List.Subset.refl _
  | cons item items ih => exact List.Subset.trans (grows state item) (ih _)

namespace Hoisting

theorem enterUse_grows (load : Loader) (limits : Limits) (hoisting : Hoisting) (clause : Node) :
    hoisting.scope.dependencies ⊆ (hoisting.enterUse load limits clause).scope.dependencies := by
  rw [enterUse]
  split
  · exact List.Subset.refl _
  · next path _ =>
    have grows := hoisting.scope.resolveEarly_grows load limits path
    split
    all_goals
      next resolved =>
        rw [resolved] at grows
        simpa using grows

theorem enterModule_dependencies (hoisting : Hoisting) (declaration : Node) :
    (hoisting.enterModule declaration).scope.dependencies = hoisting.scope.dependencies := by
  simp only [enterModule]
  split
  · rfl
  · split
    · rfl
    · split
      · rfl
      · dsimp only
        split <;> rfl

theorem enterType_dependencies (scope : Scope) (declaration : Node) (subcategory : Subcategory) :
    (enterType scope declaration subcategory).dependencies = scope.dependencies := by
  rw [enterType]
  split
  · rfl
  · split
    · rfl
    · exact Scope.declare_dependencies ..

theorem step_grows (load : Loader) (limits : Limits) (hoisting : Hoisting) (declaration : Node) :
    hoisting.scope.dependencies ⊆ (hoisting.step load limits declaration).scope.dependencies := by
  rw [step]
  split
  · exact (enterType_dependencies ..).symm ▸ List.Subset.refl _
  · exact (enterType_dependencies ..).symm ▸ List.Subset.refl _
  · exact (enterModule_dependencies ..).symm ▸ List.Subset.refl _
  · exact enterUse_grows ..
  · exact List.Subset.refl _

end Hoisting

namespace Scope

mutual

theorem typeData_scope (load : Loader) (limits : Limits) (node : Node) (scope : Scope) :
    (typeData load limits node scope).2 = scope ∨
      ∃ path, (typeData load limits node scope).2 = (scope.resolvePath load limits path).2 := by
  cases node with
  | mk kind span role children =>
    cases kind with
    | listType | optionalType => exact innerType_scope load limits children scope
    | referenceType =>
      simp only [typeData]
      split
      · exact .inl rfl
      · next path _ => exact .inr ⟨path, rfl⟩
    | _ => exact .inl rfl
termination_by structural node

theorem innerType_scope (load : Loader) (limits : Limits) (nodes : List Node) (scope : Scope) :
    (innerType load limits nodes scope).2 = scope ∨
      ∃ path, (innerType load limits nodes scope).2 = (scope.resolvePath load limits path).2 := by
  cases nodes with
  | nil => exact .inl rfl
  | cons node nodes =>
    rw [innerType]
    split
    · exact typeData_scope load limits node scope
    · exact innerType_scope load limits nodes scope
termination_by structural nodes

end

theorem typeData_grows (load : Loader) (limits : Limits) (node : Node) (scope : Scope) :
    scope.dependencies ⊆ (typeData load limits node scope).2.dependencies := by
  obtain same | ⟨path, same⟩ := typeData_scope load limits node scope
  · rw [same]
    exact List.Subset.refl _
  · rw [same]
    exact resolvePath_grows ..

@[simp] theorem enterField_dependencies (scope : Scope) (container : SymbolPath) (key pair : Node) (name : String)
    (subcategory : Subcategory) (data : Option SchemaType) :
    (scope.enterField container key pair name subcategory data).2.dependencies = scope.dependencies := by
  simp only [enterField]
  split <;> rfl

theorem fieldType_grows (load : Loader) (limits : Limits) (scope : Scope) (pair : Node) :
    scope.dependencies ⊆ (scope.fieldType load limits pair).2.dependencies := by
  rw [fieldType]
  split
  · exact List.Subset.refl _
  · exact typeData_grows ..

theorem structField_grows (load : Loader) (limits : Limits) (container : SymbolPath)
    (state : List (String × SchemaType) × Scope) (pair : Node) :
    state.2.dependencies ⊆ (structField load limits container state pair).2.dependencies := by
  obtain ⟨fields, scope⟩ := state
  simp only [structField]
  split
  · exact List.Subset.refl _
  · split
    · exact fieldType_grows ..
    · split <;> simpa using scope.fieldType_grows load limits pair

theorem structFields_grows (load : Loader) (limits : Limits) (scope : Scope) (container : SymbolPath) (body : Node) :
    scope.dependencies ⊆ (scope.structFields load limits container body).2.dependencies :=
  foldl_grows (fun state : List (String × SchemaType) × Scope => state.2.dependencies)
    (structField_grows load limits container) body.children ([], scope)

theorem checkUse_grows (load : Loader) (limits : Limits) (scope : Scope) (clause : Node) :
    scope.dependencies ⊆ (scope.checkUse load limits clause).dependencies := by
  rw [checkUse]
  split
  · exact List.Subset.refl _
  · next path _ =>
    have grows := scope.resolvePath_grows load limits path
    split
    all_goals
      next resolved =>
        rw [resolved] at grows
        simpa using grows

theorem enumValue_dependencies (container : SymbolPath) (state : List (String × Option LiteralValue) × Scope)
    (pair : Node) : (enumValue container state pair).2.dependencies = state.2.dependencies := by
  obtain ⟨values, scope⟩ := state
  simp only [enumValue]
  split
  · rfl
  · split
    · rfl
    · exact enterField_dependencies ..

theorem enumValues_grows (scope : Scope) (container : SymbolPath) (body : Node) :
    scope.dependencies ⊆ (scope.enumValues container body).2.dependencies :=
  foldl_grows (fun state : List (String × Option LiteralValue) × Scope => state.2.dependencies)
    (fun state pair => (enumValue_dependencies container state pair).symm ▸ List.Subset.refl _) body.children ([], scope)

theorem checkStruct_grows (load : Loader) (limits : Limits) (scope : Scope) (declaration : Node) :
    scope.dependencies ⊆ (scope.checkStruct load limits declaration).dependencies := by
  rw [checkStruct]
  split
  · exact List.Subset.refl _
  · exact structFields_grows ..

theorem checkEnum_grows (scope : Scope) (declaration : Node) (kind : Option EnumKind) :
    scope.dependencies ⊆ (scope.checkEnum declaration kind).dependencies := by
  rw [checkEnum]
  split
  · exact List.Subset.refl _
  · exact enumValues_grows ..

theorem enterObjects_dependencies (registry : String) (target : Option SymbolPath) (scope : Scope)
    (objects : List (String × Span)) :
    (objects.foldl (enterObject registry target) scope).dependencies = scope.dependencies := by
  induction objects generalizing scope with
  | nil => rfl
  | cons object objects ih => exact ih _

theorem checkDescribes_grows (load : Loader) (setup : Setup) (scope : Scope) (clause : Node) :
    scope.dependencies ⊆ (scope.checkDescribes load setup clause).dependencies := by
  rw [checkDescribes]
  split
  · next path registry _ _ =>
    split
    · exact List.Subset.refl _
    · split
      · exact List.Subset.refl _
      · dsimp only
        rw [enterObjects_dependencies]
        exact scope.resolvePath_grows load setup.limits path
  · exact List.Subset.refl _

theorem checkInject_grows (load : Loader) (limits : Limits) (scope : Scope) (clause : Node) :
    scope.dependencies ⊆ (scope.checkInject load limits clause).dependencies := by
  rw [checkInject]
  split
  · exact List.Subset.refl _
  · split
    · next subcategory kind path _ _ =>
      have grows := scope.resolvePath_grows load limits path
      split
      · next resolved => rwa [resolved] at grows
      · next resolved =>
        rw [resolved] at grows
        dsimp only
        split
        · exact grows
        · split
          · exact grows
          · split
            · exact List.Subset.trans grows (structFields_grows ..)
            · exact List.Subset.trans grows (enumValues_grows ..)
    · exact List.Subset.refl _

theorem checkDeclaration_grows (load : Loader) (setup : Setup) (scope : Scope) (declaration : Node) :
    scope.dependencies ⊆ (scope.checkDeclaration load setup declaration).dependencies := by
  rw [checkDeclaration]
  split
  · exact checkStruct_grows ..
  · exact checkEnum_grows ..
  · exact checkDescribes_grows ..
  · exact checkInject_grows ..
  · exact List.Subset.refl _

theorem check_grows (load : Loader) (setup : Setup) (scope : Scope) (document : Node) (deferred : List Node) :
    scope.dependencies ⊆ (scope.check load setup document deferred).dependencies :=
  List.Subset.trans (foldl_grows dependencies (checkUse_grows load setup.limits) deferred scope)
    (foldl_grows dependencies (checkDeclaration_grows load setup) document.children _)

end Scope

end SchemaDoc
