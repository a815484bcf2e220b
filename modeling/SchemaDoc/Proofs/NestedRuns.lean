import SchemaDoc.Proofs.LastingOutcomes

/-! The loads inside a check. A check sees its loader only where it asks for a document, so that loaders which answer
alike there bring it to the same end. What every act keeps therefore holds wherever a document is asked for. -/

namespace SchemaDoc

open Relation

namespace Workspace

/-- What holds of the scopes of a check, whatever it does next, with two loaders that answer alike there. -/
structure Alike (setup : Setup) (before : Workspace) (document : TextDocument) (module : ModulePath) (load other : Loader)
    (declarations : List Node) (Holds : Scope → Prop) : Prop where
  honours : ∀ workspace uri, Honours setup workspace (load workspace uri).2
  idle : ¬before.InProgress document.uri
  attends : ∀ {scope}, Holds scope → Attends setup before document module scope
  deed : ∀ {scope after}, Holds scope → Deed load setup.registries declarations scope after → Holds after
  checking : ∀ {scope}, Holds scope → Holds scope.checking
  agrees : ∀ {scope}, Holds scope → ∀ uri, load scope.workspace uri = other scope.workspace uri

namespace Alike

variable {setup : Setup} {before : Workspace} {document : TextDocument} {module : ModulePath} {load other : Loader}
  {declarations : List Node} {Holds : Scope → Prop} {scope after : Scope}

section Paths

variable (alike : Alike setup before document module load other declarations Holds)

include alike

theorem deeds {Acts : Scope → Scope → Prop} (deed : ∀ {scope after}, Acts scope after → Deed load setup.registries declarations scope after)
    (acts : ReflTransGen Acts scope after) (holds : Holds scope) : Holds after := by
  induction acts with
  | refl => exact holds
  | tail _ act ih => exact alike.deed ih (deed act)

theorem calms (calms : ReflTransGen (Scope.Calm load) scope after) : Holds scope → Holds after :=
  alike.deeds (fun calm => .inl (.calm calm)) calms

theorem acts {declaration : Node} (member : declaration ∈ declarations)
    (acts : ReflTransGen (Scope.Act load setup.registries declaration) scope after) : Holds scope → Holds after :=
  alike.deeds (fun act => .inr ⟨declaration, member, act⟩) acts

theorem reachModule (holds : Holds scope) (goal : PathTarget) (span : Span) :
    scope.reachModule load goal span = scope.reachModule other goal span := by
  simp only [Scope.reachModule, Scope.loadModule, alike.agrees holds]

theorem resolvePath (holds : Holds scope) (limits : Limits) (path : Node) :
    scope.resolvePath load limits path = scope.resolvePath other limits path := by
  cases walked : walkPath limits scope.module path with
  | error failure => simp only [Scope.resolvePath, walked]
  | ok goal =>
    have mentioned := alike.calms (scope.recordMentions_calm load goal.mentions) holds
    simp only [Scope.resolvePath, walked, alike.reachModule mentioned]

theorem resolveEarly (holds : Holds scope) (limits : Limits) (path : Node) :
    scope.resolveEarly load limits path = scope.resolveEarly other limits path := by
  cases walked : walkPath limits scope.module path with
  | error failure => simp only [Scope.resolveEarly, walked]
  | ok goal => simp only [Scope.resolveEarly, walked, alike.reachModule holds]

end Paths

mutual

theorem typeData (alike : Alike setup before document module load other declarations Holds) (holds : Holds scope) (limits : Limits)
    (node : Node) : scope.typeData load limits node = scope.typeData other limits node := by
  cases node with
  | mk kind span role children =>
    cases kind with
    | listType | optionalType => simp only [Scope.typeData, innerType alike holds limits children]
    | referenceType =>
      simp only [Scope.typeData]
      split
      · rfl
      · rw [alike.resolvePath holds]
    | _ => rfl
termination_by structural node

theorem innerType (alike : Alike setup before document module load other declarations Holds) (holds : Holds scope) (limits : Limits)
    (nodes : List Node) : Scope.innerType load limits nodes scope = Scope.innerType other limits nodes scope := by
  cases nodes with
  | nil => rfl
  | cons node nodes =>
    rw [Scope.innerType, Scope.innerType]
    split
    · exact typeData alike holds limits node
    · exact innerType alike holds limits nodes
termination_by structural nodes

end

section Declarations

variable (alike : Alike setup before document module load other declarations Holds)

include alike

theorem structField (holds : Holds scope) (limits : Limits) (container : SymbolPath) (fields : List (String × SchemaType)) (pair : Node) :
    Scope.structField load limits container (fields, scope) pair = Scope.structField other limits container (fields, scope) pair := by
  have typed : scope.fieldType load limits pair = scope.fieldType other limits pair := by
    rw [Scope.fieldType, Scope.fieldType]
    split
    · rfl
    · rw [alike.typeData holds]
  rw [Scope.structField, Scope.structField, typed]

variable {declaration : Node} (member : declaration ∈ declarations)

include member

theorem structFields {key : String} (holds : Holds scope) (site : Attends.Site setup before document module declaration key scope)
    (limits : Limits) (body : Node) :
    scope.structFields load limits (.schema key) body = scope.structFields other limits (.schema key) body := by
  have along : ∀ (pairs : List Node) (state : List (String × SchemaType) × Scope), Holds state.2 →
      Attends.Site setup before document module declaration key state.2 →
      pairs.foldl (Scope.structField load limits (.schema key)) state =
        pairs.foldl (Scope.structField other limits (.schema key)) state := by
    intro pairs
    induction pairs with
    | nil => exact fun _ _ _ => by rw [List.foldl_nil, List.foldl_nil]
    | cons pair pairs ih =>
      intro state holds site
      have first := site.structField alike.honours alike.idle setup.registries limits state.1 pair
      have same := alike.structField holds limits (.schema key) state.1 pair
      rw [List.foldl_cons, List.foldl_cons, ← same]
      exact ih _ (alike.acts member first holds) (site.acts alike.honours alike.idle first)
  exact along body.children ([], scope) holds site

theorem checkInject (holds : Holds scope) (limits : Limits) (kind : declaration.kind = .injectClause) :
    scope.checkInject load limits declaration = scope.checkInject other limits declaration := by
  rw [Scope.checkInject, Scope.checkInject]
  split
  · rfl
  · split
    · next path _ _ =>
      obtain ⟨calm, arrives⟩ := scope.resolvePath_calm load limits path
      rw [← alike.resolvePath holds]
      have onward := alike.calms calm holds
      split
      · rfl
      · next target after outcome =>
        rw [outcome] at onward arrives
        obtain ⟨middle, goal, arrived, -⟩ := arrives target rfl
        obtain ⟨key, address⟩ := Scope.arrival_key (alike.attends (alike.calms arrived.calm holds)).sound goal
        have site : Attends.Site setup before document module declaration key after := ⟨alike.attends onward, .inr kind⟩
        simp only [arrived.address, address, alike.structFields member onward site]
    · rfl

theorem checkDeclaration (holds : Holds scope) :
    scope.checkDeclaration load setup declaration = scope.checkDeclaration other setup declaration := by
  rw [Scope.checkDeclaration, Scope.checkDeclaration]
  split
  · next kind =>
    rw [Scope.checkStruct, Scope.checkStruct]
    split
    · rfl
    · next address body owned =>
      obtain ⟨identifier, name, usage, found, -, -, rfl, defined, place⟩ := Scope.owned?_eq_some owned
      rw [alike.structFields member holds ⟨alike.attends holds, .inl ⟨identifier, usage, found, defined, place⟩⟩]
  · rfl
  · simp only [Scope.checkDescribes, alike.resolvePath holds]
  · next kind => exact alike.checkInject member holds _ kind
  · rfl

end Declarations

section Passes

variable (alike : Alike setup before document module load other declarations Holds)

include alike

theorem step (limits : Limits) {hoisting : Hoisting} (holds : Holds hoisting.scope) (declaration : Node) :
    hoisting.step load limits declaration = hoisting.step other limits declaration := by
  simp only [Hoisting.step, Hoisting.enterUse, alike.resolveEarly holds]

theorem hoisted (limits : Limits) (children : List Node) {hoisting : Hoisting} (holds : Holds hoisting.scope) :
    children.foldl (Hoisting.step load limits) hoisting = children.foldl (Hoisting.step other limits) hoisting ∧
      Holds (children.foldl (Hoisting.step load limits) hoisting).scope := by
  induction children generalizing hoisting with
  | nil => exact ⟨by rw [List.foldl_nil, List.foldl_nil], holds⟩
  | cons declaration children ih =>
    have entries := hoisting.step_entries limits (fun calm => (alike.attends (alike.calms calm holds)).sound) declaration
    obtain ⟨same, onward⟩ := ih (alike.deeds .inl entries holds)
    rw [List.foldl_cons, List.foldl_cons, ← alike.step limits holds]
    exact ⟨same, onward⟩

theorem uses (limits : Limits) (clauses : List Node) (holds : Holds scope) :
    clauses.foldl (Scope.checkUse load limits) scope = clauses.foldl (Scope.checkUse other limits) scope ∧
      Holds (clauses.foldl (Scope.checkUse load limits) scope) := by
  induction clauses generalizing scope with
  | nil => exact ⟨by rw [List.foldl_nil, List.foldl_nil], holds⟩
  | cons clause clauses ih =>
    have entries := scope.checkUse_entries limits (fun calm => (alike.attends (alike.calms calm holds)).sound) clause
    have same : scope.checkUse load limits clause = scope.checkUse other limits clause := by
      simp only [Scope.checkUse, alike.resolvePath holds]
    rw [List.foldl_cons, List.foldl_cons, ← same]
    exact ih (alike.deeds .inl entries holds)

theorem checked (children : List Node) (listed : children ⊆ declarations) (holds : Holds scope) :
    children.foldl (Scope.checkDeclaration load setup) scope = children.foldl (Scope.checkDeclaration other setup) scope := by
  induction children generalizing scope with
  | nil => rw [List.foldl_nil, List.foldl_nil]
  | cons declaration children ih =>
    obtain ⟨member, rest⟩ := List.cons_subset.mp listed
    have acts : ReflTransGen (Scope.Act load setup.registries declaration) scope _ :=
      (alike.attends holds).checkDeclaration_acts alike.honours alike.idle
    rw [List.foldl_cons, List.foldl_cons, ← alike.checkDeclaration member holds]
    exact ih rest (alike.acts member acts holds)

theorem process {workspace : Workspace} {errors : List Diagnostic} {root : Node} (all : root.children = declarations)
    (start : Holds { workspace, uri := document.uri, module, errors }) :
    Workspace.process load setup workspace document.uri module errors root =
      Workspace.process other setup workspace document.uri module errors root := by
  let begun : Hoisting := { scope := { workspace, uri := document.uri, module, errors } }
  have begins : Holds begun.scope := start
  obtain ⟨first, hoisted⟩ := alike.hoisted setup.limits root.children begins
  simp only [Workspace.process, Scope.hoist, Scope.check]
  rw [← first]
  generalize root.children.foldl (Hoisting.step load setup.limits) begun = hoisting at hoisted ⊢
  have checking : { hoisting.scope with workspace := hoisting.scope.workspace.setState document.uri .checking } =
      hoisting.scope.checking := by simp only [Scope.checking, (alike.attends hoisted).place.1]
  obtain ⟨second, waited⟩ := alike.uses setup.limits hoisting.deferred (alike.checking hoisted)
  rw [checking, ← second]
  exact alike.checked root.children (all ▸ List.Subset.refl _) waited

end Passes

end Alike

/-- What every step of a check keeps holds in the workspaces that the check asks for documents in. -/
theorem Enduring.consulted {setup : Setup} {Good : Workspace → Prop} (enduring : Enduring setup Good) {before current : Workspace}
    {uri asked : String} {document : TextDocument} (good : before.table.Sound ∧ Good before)
    (needs : Needs setup before uri document)
    (consults : Consults (fun load => Workspace.checkDocument load setup (fetch setup before uri).2.enter document)
      (Workspace.ensureChecked setup) current asked) : current.table.Sound ∧ Good current := by
  obtain ⟨other, elsewhere, differ⟩ := consults
  obtain rfl := provided_uri needs.provides
  obtain ⟨sound, good⟩ := good
  by_contra absent
  apply differ
  simp only [Workspace.checkDocument]
  split
  · rfl
  · next module errors found =>
    have registered := moduleOf_eq_some found
    rw [table_takenUp, sound.moduleOfUri?_clearUri] at registered
    have honours := ensureChecked_honours setup
    have alike : Alike setup before document module (Workspace.ensureChecked setup) other
        (parse document.text setup.trailing).node.children
        fun scope => Attends setup before document module scope ∧ Good scope.workspace := by
      constructor
      case honours => exact honours
      case idle => exact needs.idle
      case attends => exact And.left
      case deed =>
        rintro scope after ⟨attends, good⟩ deed
        have onward := attends.move honours needs.idle deed.move
        exact ⟨onward, enduring.step attends onward registered needs.provides deed
          (fun uri => (enduring.ensureChecked scope.workspace uri ⟨attends.sound, good⟩).2) good⟩
      case checking =>
        rintro scope ⟨attends, good⟩
        exact ⟨attends.checking, enduring.checking attends good⟩
      case agrees =>
        rintro scope ⟨attends, good⟩ uri
        refine (elsewhere scope.workspace uri ?_).symm
        rintro ⟨⟩
        exact absent ⟨attends.sound, good⟩
    have start := Attends.start sound needs module
    have begins : Attends setup before document module
        { workspace := (fetch setup before document.uri).2.enter.takeUp document (parse document.text setup.trailing).errors,
          uri := document.uri, module, errors } := { start with }
    have same := alike.process rfl ⟨begins, enduring.start module sound needs good⟩
    exact congrArg (fun scope : Scope => scope.workspace.conclude document.uri
      (parse document.text setup.trailing).node scope.errors scope.dependencies) same.symm

/-- A document is asked for only where what lasts still holds. -/
theorem Call.Within.endures {setup : Setup} {workspace : Workspace} {uri : String} {call : Call} {Good : Workspace → Prop}
    (within : Call.Within setup workspace uri call) (enduring : Enduring setup Good) (good : workspace.table.Sound ∧ Good workspace) :
    call.workspace.table.Sound ∧ Good call.workspace :=
  @Call.Within.carries setup workspace uri call (fun workspace => workspace.table.Sound ∧ Good workspace) within good
    fun good needs consults => enduring.consulted good needs consults

end Workspace

end SchemaDoc
