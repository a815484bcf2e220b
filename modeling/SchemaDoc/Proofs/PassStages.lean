import SchemaDoc.Proofs.LoadStack

/-! The scopes that the passes over a document go through on their way. An invariant holds at all of
them, not only at the end. -/

namespace SchemaDoc

namespace Hoisting

theorem step_deferred (load : Loader) (limits : Limits) (hoisting : Hoisting) (declaration : Node) :
    (hoisting.step load limits declaration).deferred = hoisting.deferred ∨
      (∃ isExport, declaration.kind = .useClause isExport) ∧
        (hoisting.step load limits declaration).deferred = hoisting.deferred ++ [declaration] := by
  rw [step]
  split
  · exact .inl rfl
  · exact .inl rfl
  · rw [enterModule]
    dsimp only
    split
    · exact .inl rfl
    · split
      · exact .inl rfl
      · split <;> exact .inl rfl
  · next isExport kind =>
    rw [enterUse]
    split
    · exact .inl rfl
    · split
      · exact .inl rfl
      · exact .inl rfl
      · exact .inr ⟨⟨isExport, kind⟩, rfl⟩
  · exact .inl rfl

theorem step_scope (load : Loader) (limits : Limits) (hoisting : Hoisting) (declaration : Node) :
    (hoisting.step load limits declaration).scope =
      (({ hoisting with deferred := [] } : Hoisting).step load limits declaration).scope := by
  rw [step, step]
  split
  · rfl
  · rfl
  · rw [enterModule, enterModule]
    dsimp only
    split
    · rfl
    · split
      · rfl
      · split <;> rfl
  · rw [enterUse, enterUse]
    dsimp only
    split
    · rfl
    · split <;> rfl
  · rfl

theorem foldl_step_deferred (load : Loader) (limits : Limits) (declarations : List Node) (hoisting : Hoisting) :
    ∃ more, more.Sublist declarations ∧
      (declarations.foldl (step load limits) hoisting).deferred = hoisting.deferred ++ more := by
  induction declarations generalizing hoisting with
  | nil => exact ⟨[], .slnil, (List.append_nil _).symm⟩
  | cons declaration declarations ih =>
    obtain ⟨more, sublist, waiting⟩ := ih (hoisting.step load limits declaration)
    rw [List.foldl_cons, waiting]
    rcases hoisting.step_deferred load limits declaration with same | ⟨-, added⟩
    · exact ⟨more, sublist.cons declaration, by rw [same]⟩
    · exact ⟨declaration :: more, sublist.cons_cons declaration, by rw [added, List.append_assoc]; rfl⟩

end Hoisting

namespace Pass

variable {pass : Pass} {load : Loader} {setup : Setup} {start scope : Scope}

def hoisted (pass : Pass) (load : Loader) (start : Scope) (declarations : List Node) : Hoisting :=
  declarations.foldl (Hoisting.step load pass.limits) { scope := start }

/-- The use clauses that have to wait for the second pass. -/
def deferred (pass : Pass) (load : Loader) (start : Scope) : List Node :=
  (pass.hoisted load start pass.root.children).deferred

/-- The second pass behind some of the clauses that had to wait. -/
def waited (pass : Pass) (load : Loader) (start : Scope) (clauses : List Node) : Scope :=
  clauses.foldl (Scope.checkUse load pass.limits) (pass.hoisted load start pass.root.children).scope.checking

/-- The second pass behind all clauses that had to wait and some declarations. -/
def checked (pass : Pass) (load : Loader) (setup : Setup) (start : Scope) (declarations : List Node) : Scope :=
  declarations.foldl (Scope.checkDeclaration load setup) (pass.waited load start (pass.deferred load start))

/-- The scopes at which the passes declare the names of the module and resolve paths. -/
inductive Stage (pass : Pass) (load : Loader) (setup : Setup) (start : Scope) : Scope → Prop where
  | hoisting {declarations} (front : declarations <+: pass.root.children) :
      Stage pass load setup start (pass.hoisted load start declarations).scope
  | early {declarations clause isExport path} (front : declarations ++ [clause] <+: pass.root.children)
      (kind : clause.kind = .useClause isExport) (found : clause.child? .path = some path) :
      Stage pass load setup start ((pass.hoisted load start declarations).scope.resolveEarly load pass.limits path).2
  | waiting {clauses} (front : clauses <+: pass.deferred load start) :
      Stage pass load setup start (pass.waited load start clauses)
  | late {clauses clause path} (front : clauses ++ [clause] <+: pass.deferred load start)
      (found : clause.child? .path = some path) :
      Stage pass load setup start ((pass.waited load start clauses).resolvePath load pass.limits path).2
  | checking {declarations} (front : declarations <+: pass.root.children) :
      Stage pass load setup start (pass.checked load setup start declarations)
  | field {declarations declaration address body pairs} (front : declarations ++ [declaration] <+: pass.root.children)
      (owned : (pass.checked load setup start declarations).owned? declaration = some (address, body))
      (inside : pairs <+: body.children) :
      Stage pass load setup start
        (pairs.foldl (Scope.structField load pass.limits address) ([], pass.checked load setup start declarations)).2
  | injected {declarations clause definition path target scope body pairs}
      (front : declarations ++ [clause] <+: pass.root.children) (kind : clause.kind = .injectClause)
      (holds : clause.child? .definition = some definition) (found : definition.child? .path = some path)
      (resolved : (pass.checked load setup start declarations).resolvePath load pass.limits path = (some target, scope))
      (given : definition.child? .body = some body) (inside : pairs <+: body.children) :
      Stage pass load setup start (pairs.foldl (Scope.structField load pass.limits target) ([], scope)).2

theorem deferred_subset (pass : Pass) (load : Loader) (start : Scope) :
    ∀ clause ∈ pass.deferred load start, clause ∈ pass.root.children := by
  obtain ⟨more, sublist, waiting⟩ := Hoisting.foldl_step_deferred load pass.limits pass.root.children { scope := start }
  intro clause member
  rw [deferred, hoisted, waiting] at member
  exact sublist.subset (by simpa using member)

theorem kind_of_deferred (pass : Pass) (load : Loader) (start : Scope) :
    ∀ clause ∈ pass.deferred load start, ∃ isExport, clause.kind = .useClause isExport := by
  refine List.foldlRecOn (motive := fun hoisting : Hoisting =>
    ∀ clause ∈ hoisting.deferred, ∃ isExport, clause.kind = .useClause isExport) pass.root.children _ (by simp) ?_
  intro hoisting waiting declaration _ clause member
  rcases hoisting.step_deferred load pass.limits declaration with same | ⟨kind, added⟩
  · exact waiting clause (same ▸ member)
  · rw [added, List.mem_append, List.mem_singleton] at member
    rcases member with earlier | rfl
    · exact waiting clause earlier
    · exact kind

namespace Invariant

variable {Resolved : Scope → Node → SymbolPath → Prop} {Known : Scope → SymbolPath → Prop} {Holds : Scope → Prop}

theorem alone (invariant : pass.Invariant load Resolved Known Holds) :
    Coupling pass load load Resolved Known (fun _ => True) fun left right => left = right ∧ Holds left :=
  invariant.coupling fun _ _ => rfl

theorem step (invariant : pass.Invariant load Resolved Known Holds) {declaration : Node}
    (member : declaration ∈ pass.root.children) {hoisting : Hoisting} (holds : Holds hoisting.scope) :
    Holds (hoisting.step load pass.limits declaration).scope := by
  rw [Hoisting.step_scope]
  have fresh : Coupling.Hoisted pass (fun left right => left = right ∧ Holds left) { hoisting with deferred := [] }
      { hoisting with deferred := [] } := ⟨⟨rfl, holds⟩, rfl, rfl, by simp⟩
  exact (invariant.alone.step member fresh fun _ _ => trivial).scopes.2

theorem resolveEarly (invariant : pass.Invariant load Resolved Known Holds) {path : Node}
    (onTree : pass.root.HasPath path) (holds : Holds scope) : Holds (scope.resolveEarly load pass.limits path).2 :=
  (invariant.alone.resolveEarly onTree ⟨rfl, holds⟩ fun _ _ => trivial).2.1.2

theorem resolvePath (invariant : pass.Invariant load Resolved Known Holds) {path : Node}
    (onTree : pass.root.HasPath path) (holds : Holds scope) : Holds (scope.resolvePath load pass.limits path).2 :=
  (invariant.alone.resolvePath onTree ⟨rfl, holds⟩ fun _ _ => trivial).2.1.2

theorem checkUse (invariant : pass.Invariant load Resolved Known Holds) {clause : Node}
    (member : clause ∈ pass.root.children) (holds : Holds scope) : Holds (scope.checkUse load pass.limits clause) :=
  (invariant.alone.checkUse member ⟨rfl, holds⟩ fun _ _ => trivial).2

theorem checkDeclaration (invariant : pass.Invariant load Resolved Known Holds) (limits : setup.limits = pass.limits)
    {declaration : Node} (member : declaration ∈ pass.root.children) (holds : Holds scope) :
    Holds (scope.checkDeclaration load setup declaration) :=
  (invariant.alone.checkDeclaration limits member ⟨rfl, holds⟩ fun _ _ => trivial).2

theorem structFields (invariant : pass.Invariant load Resolved Known Holds) {container : SymbolPath}
    (inside : pass.Container (Ever Resolved) container) {pairs : List Node}
    (members : ∀ pair ∈ pairs, pair ∈ pass.root.preorder) (holds : Holds scope) :
    Holds (pairs.foldl (Scope.structField load pass.limits container) ([], scope)).2 := by
  have listed : Coupling.Listed Known (fun left right => left = right ∧ Holds left)
      (pairs.foldl (Scope.structField load pass.limits container) ([], scope))
      (pairs.foldl (Scope.structField load pass.limits container) ([], scope)) := by
    refine List.foldlRecOn (motive := fun state => Coupling.Listed Known (fun left right => left = right ∧ Holds left)
      state state) pairs _ ⟨rfl, ⟨rfl, holds⟩, fun target among => by cases among⟩ ?_
    intro state listed pair member
    exact invariant.alone.structField inside (members pair member) listed fun _ _ => trivial
  exact listed.scopes.2

theorem hoisted (invariant : pass.Invariant load Resolved Known Holds) (holds : Holds start) {declarations : List Node}
    (front : declarations <+: pass.root.children) : Holds (pass.hoisted load start declarations).scope := by
  refine List.foldlRecOn (motive := fun hoisting : Hoisting => Holds hoisting.scope) declarations _ holds ?_
  exact fun hoisting holds declaration member => invariant.step (front.subset member) holds

theorem waited (invariant : pass.Invariant load Resolved Known Holds) (holds : Holds start) {clauses : List Node}
    (front : clauses <+: pass.deferred load start) : Holds (pass.waited load start clauses) := by
  have begun := invariant.checking (invariant.hoisted holds (List.prefix_refl _))
  refine List.foldlRecOn (motive := Holds) clauses _ begun ?_
  exact fun scope holds clause member => invariant.checkUse (pass.deferred_subset load start clause (front.subset member)) holds

theorem checked (invariant : pass.Invariant load Resolved Known Holds) (limits : setup.limits = pass.limits)
    (holds : Holds start) {declarations : List Node} (front : declarations <+: pass.root.children) :
    Holds (pass.checked load setup start declarations) := by
  refine List.foldlRecOn (motive := Holds) declarations _ (invariant.waited holds (List.prefix_refl _)) ?_
  exact fun scope holds declaration member => invariant.checkDeclaration limits (front.subset member) holds

/-- An invariant holds at every stage of the passes. -/
theorem stage (invariant : pass.Invariant load Resolved Known Holds) (limits : setup.limits = pass.limits)
    (holds : Holds start) (stage : pass.Stage load setup start scope) : Holds scope := by
  have last : ∀ {front : List Node} {item : Node} {items : List Node}, front ++ [item] <+: items → item ∈ items :=
    fun front => front.subset (List.mem_append_right _ (List.mem_singleton_self _))
  have shorter : ∀ {front : List Node} {item : Node} {items : List Node}, front ++ [item] <+: items → front <+: items :=
    fun front => (List.prefix_append _ _).trans front
  cases stage with
  | hoisting front => exact invariant.hoisted holds front
  | @early declarations clause isExport path front kind found =>
    have onTree : pass.root.HasPath path := ⟨clause, Node.mem_preorder_of_child (last front), found⟩
    exact invariant.resolveEarly onTree (invariant.hoisted holds (shorter front))
  | waiting front => exact invariant.waited holds front
  | @late clauses clause path front found =>
    have member := pass.deferred_subset load start clause (last front)
    have onTree : pass.root.HasPath path := ⟨clause, Node.mem_preorder_of_child member, found⟩
    exact invariant.resolvePath onTree (invariant.waited holds (shorter front))
  | checking front => exact invariant.checked limits holds front
  | field front owned inside =>
    have here := invariant.checked limits holds (shorter front)
    obtain ⟨⟨node, name, names, rfl⟩, below⟩ := (invariant.alone.owned? (last front) ⟨rfl, here⟩).2 owned
    refine invariant.structFields (.own names) (fun pair member => ?_) here
    exact Node.preorder_trans (Node.mem_preorder_of_child (inside.subset member)) below
  | @injected declarations clause definition path target scope body pairs front kind defines found resolved given inside =>
    have here := invariant.checked limits holds (shorter front)
    have below := Node.mem_of_named (last front) defines
    obtain ⟨_, onward, resolves⟩ := invariant.alone.resolvePath ⟨definition, below, found⟩ ⟨rfl, here⟩ fun _ _ => trivial
    simp only [resolved] at onward resolves
    refine invariant.structFields (.injected (last front) kind ⟨_, (resolves target rfl).1⟩) (fun pair member => ?_) onward.2
    exact Node.preorder_trans (Node.mem_preorder_of_child (inside.subset member))
      (Node.preorder_trans (Node.mem_preorder_of_child (Node.mem_of_child? given)) below)

end Invariant

theorem process_eq (limits : setup.limits = pass.limits) {workspace : Workspace} {errors : List Diagnostic}
    (begins : start = { workspace, uri := pass.uri, module := pass.module, errors })
    (place : (pass.hoisted load start pass.root.children).scope.uri = pass.uri) :
    Workspace.process load setup workspace pass.uri pass.module errors pass.root =
      pass.checked load setup start pass.root.children := by
  rw [Workspace.process, limits, ← begins]
  dsimp only [Scope.hoist, Scope.check]
  rw [checked, waited, deferred, hoisted, Scope.checking, ← limits]
  rw [hoisted, ← limits] at place
  rw [place]

end Pass

namespace Workspace

variable {setup : Setup} {load : Loader} {workspace : Workspace} {document : TextDocument} {module : ModulePath}
  {Resolved : Scope → Node → SymbolPath → Prop} {Known : Scope → SymbolPath → Prop}

/-- The scope that the passes over a document of a module start from. -/
def startOf (setup : Setup) (workspace : Workspace) (document : TextDocument) (module : ModulePath) : Scope :=
  { workspace := workspace.takeUp document (parse document.text setup.trailing).errors
    uri := document.uri
    module
    errors := (moduleOf (workspace.table.clearUri document.uri) document.uri).2 }

theorem table_startOf (setup : Setup) (workspace : Workspace) (uri : String) (document : TextDocument) (module : ModulePath) :
    (startOf setup (fetch setup workspace uri).2.enter document module).workspace.table = workspace.table.clearUri document.uri :=
  table_takenUp setup workspace uri document _

def endOf (load : Loader) (setup : Setup) (workspace : Workspace) (document : TextDocument) (module : ModulePath) : Scope :=
  (passOf setup document module).checked load setup (startOf setup workspace document module)
    (parse document.text setup.trailing).node.children

theorem checkDocument_eq_endOf {Holds : Scope → Prop}
    (registered : (workspace.table.clearUri document.uri).moduleOfUri? document.uri = some module)
    (invariant : (passOf setup document module).Invariant load Resolved Known Holds)
    (start : Holds (startOf setup workspace document module)) :
    checkDocument load setup workspace document =
      (endOf load setup workspace document module).workspace.conclude document.uri
        (parse document.text setup.trailing).node (endOf load setup workspace document module).errors
        (endOf load setup workspace document module).dependencies := by
  have found : moduleOf (workspace.takeUp document (parse document.text setup.trailing).errors).table document.uri =
      (some module, (moduleOf (workspace.table.clearUri document.uri) document.uri).2) := by
    change moduleOf (workspace.table.clearUri document.uri) document.uri = _
    rw [moduleOf, registered]
  have place := (invariant.place (invariant.hoisted start (List.prefix_refl _))).1
  have finished := (passOf setup document module).process_eq rfl rfl place
  rw [checkDocument]
  dsimp only
  rw [found]
  exact congrArg (fun scope : Scope => scope.workspace.conclude document.uri
    (parse document.text setup.trailing).node scope.errors scope.dependencies) finished

end Workspace

end SchemaDoc
