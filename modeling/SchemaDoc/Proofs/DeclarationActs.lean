import Mathlib.Logic.Relation
import SchemaDoc.Proofs.PassStages
import SchemaDoc.Proofs.SoundTables
import SchemaDoc.Proofs.UsagePlaces

/-! What each declaration of a document does while the document is checked, act by act. Resolving paths only
reports, loads and refers. The first pass also declares names that are free, and the second one enters members,
fills in the types that its own document defines, and defines objects. -/

namespace SchemaDoc

open Relation

theorem SymbolPath.member_ne_schema (key name other : String) : (SymbolPath.schema key).member name ≠ .schema other := by
  intro same
  cases congrArg (fun address => address.path.length) same

namespace Scope

/-- What an act of a document may write: usages of its own, and the contents of a type that it defines itself. -/
structure Mine (scope : Scope) (address : SymbolPath) (record : SymbolRecord) : Prop where
  place : ∀ usage ∈ record.usage, usage.location.uri = scope.uri
  checked : ∀ usage ∈ record.usage, usage.kind ≠ .implementation ∧ usage.contributor = .checker
  linked : ∀ link, record.relations.aliasOf = some link → ∃ key, link = .schema key
  free : ∀ usage ∈ record.usage, usage.kind = .definition → ∀ key, address = .schema key →
    usage.visibility = .exported ∧ (scope.query address).declared? = none
  named : record.subcategory = none ∨ address.path.length ≠ 1 ∨ (scope.query address).declared? = none
  filled : ∀ key, address = .schema key → record.data = none ∨ ∃ usage,
    scope.workspace.table.definitionAt (.schema key) = some usage ∧ usage.location.uri = scope.uri

namespace Mine

variable {scope : Scope} {address : SymbolPath} {record : SymbolRecord}

theorem sound (mine : scope.Mine address record) (sound : scope.workspace.table.Sound) (creates : Bool) :
    (scope.write creates address record).workspace.table.Sound := by
  refine sound.write creates mine.checked mine.linked fun usage member kind key same => ?_
  obtain ⟨exported, free⟩ := mine.free usage member kind key same
  subst same
  exact ⟨exported, fun _ => sound.undefined free⟩

theorem entries (mine : scope.Mine address record) (sound : scope.workspace.table.Sound) (creates : Bool) :
    (scope.write creates address record).workspace.table.entries = scope.workspace.table.entries :=
  SymbolTable.entries_write sound.sorted creates (fun usage member => (mine.checked usage member).1)
    (mine.named.imp_right (Or.imp_right fun free _ => sound.unimplemented free))

theorem contents (mine : scope.Mine address record) (sound : scope.workspace.table.Sound) (creates : Bool) {key : String}
    {usage : Usage} (defined : scope.workspace.table.definitionAt (.schema key) = some usage)
    (elsewhere : usage.location.uri ≠ scope.uri) :
    (scope.write creates address record).workspace.table.partAt Symbol.data (.schema key) =
      scope.workspace.table.partAt Symbol.data (.schema key) := by
  refine SymbolTable.partAt_write sound.sorted creates address record (fun _ => rfl) fun here symbol => ?_
  rcases mine.filled key here.symm with empty | ⟨other, also, own⟩
  · simp [SymbolRecord.apply, empty]
  · cases also.symm.trans defined
    exact absurd own elsewhere

end Mine

/-- What every act comes to: a report, a load, or a write. -/
inductive Move (load : Loader) (scope : Scope) : Scope → Prop where
  | add (diagnostic : Diagnostic) : Move load scope (scope.add diagnostic)
  | load {uri} (apart : uri ≠ scope.uri) : Move load scope (scope.loaded load uri)
  | write (creates : Bool) {address : SymbolPath} {record : SymbolRecord} (mine : scope.Mine address record) :
      Move load scope (scope.write creates address record)

inductive Calm (load : Loader) (scope : Scope) : Scope → Prop where
  | add (diagnostic : Diagnostic) : Calm load scope (scope.add diagnostic)
  | load {uri} (apart : uri ≠ scope.uri) : Calm load scope (scope.loaded load uri)
  | refer (creates : Bool) (address : SymbolPath) (span : Span) (renamable : Bool) :
      Calm load scope (scope.write creates address
        { usage := some { kind := .reference, location := scope.locate span, renamable } })

theorem Calm.move {load : Loader} {scope after : Scope} (calm : Calm load scope after) : Move load scope after := by
  cases calm with
  | add diagnostic => exact .add diagnostic
  | load apart => exact .load apart
  | refer creates address span renamable =>
    exact .write creates ⟨by simp [locate], by simp, by simp, by simp, .inl rfl, fun _ _ => .inl rfl⟩

theorem recordMentions_calm (load : Loader) (scope : Scope) (mentions : List ModuleMention) :
    ReflTransGen (Calm load) scope (scope.recordMentions mentions) := by
  induction mentions generalizing scope with
  | nil => exact .refl
  | cons mention mentions ih =>
    exact .head (.refer false (.schema mention.module.display) mention.span mention.renamable) (ih _)

theorem loadModule_calm (load : Loader) (scope : Scope) (module : ModulePath) (span : Span) :
    ReflTransGen (Calm load) scope (scope.loadModule load module span).2 := by
  cases implemented : scope.workspace.table.uriOfModule? module with
  | none =>
    simp only [loadModule, implemented]
    exact .single (.add _)
  | some uri =>
    by_cases own : uri = scope.uri
    · simp only [loadModule, implemented, own, if_true]
      exact .refl
    · rw [loadModule_of_other implemented own]
      have loaded : ReflTransGen (Calm load) scope (scope.loaded load uri) := .single (.load own)
      split
      · exact loaded
      · exact loaded.tail (.add _)

theorem reachModule_calm (load : Loader) (scope : Scope) (goal : PathTarget) (span : Span) :
    ReflTransGen (Calm load) scope (scope.reachModule load goal span).2 := by
  rw [reachModule]
  split
  · exact .refl
  · exact scope.loadModule_calm load goal.module span

structure Arrives (load : Loader) (limits : Limits) (scope : Scope) (path : Node) (target : SymbolPath) (middle : Scope)
    (goal : PathTarget) : Prop where
  walked : walkPath limits scope.module path = .ok goal
  calm : ReflTransGen (Calm load) scope middle
  address : target = (middle.arrival goal).2.1

def referred (scope : Scope) (goal : PathTarget) : Scope :=
  scope.write true (scope.arrival goal).2.1 (scope.reference goal.nameSpan)

theorem referred_calm (load : Loader) (scope : Scope) (goal : PathTarget) : Calm load scope (scope.referred goal) :=
  .refer true (scope.arrival goal).2.1 goal.nameSpan true

theorem resolvePath_calm (load : Loader) (limits : Limits) (scope : Scope) (path : Node) :
    ReflTransGen (Calm load) scope (scope.resolvePath load limits path).2 ∧
      ∀ target, (scope.resolvePath load limits path).1 = some target → ∃ middle goal,
        scope.Arrives load limits path target middle goal ∧ (scope.resolvePath load limits path).2 = middle.referred goal := by
  cases walked : walkPath limits scope.module path with
  | error failure =>
    simp only [resolvePath, walked]
    refine ⟨?_, by simp⟩
    cases failure.diagnostic? with
    | none => exact .refl
    | some diagnostic => exact .single (.add diagnostic)
  | ok goal =>
    have reached := (recordMentions_calm load scope goal.mentions).trans (reachModule_calm load _ goal path.span)
    simp only [resolvePath, walked]
    cases arrived : ((scope.recordMentions goal.mentions).reachModule load goal path.span).1 with
    | false => exact ⟨reached, by simp⟩
    | true =>
      generalize ((scope.recordMentions goal.mentions).reachModule load goal path.span).2 = middle at reached ⊢
      simp only [Bool.not_true, Bool.false_eq_true, if_false, Coupling.arrival_table]
      split
      · exact ⟨reached.tail (.add _), by simp⟩
      · refine ⟨reached.tail (middle.referred_calm load goal), fun target => ?_⟩
        change (if (middle.arrival goal).2.2 = true then some (middle.arrival goal).2.1 else none) = some target → _
        split
        · rintro ⟨⟩
          exact ⟨middle, goal, ⟨walked, reached, rfl⟩, rfl⟩
        · simp

theorem resolveEarly_calm (load : Loader) (limits : Limits) (scope : Scope) (path : Node) :
    ReflTransGen (Calm load) scope (scope.resolveEarly load limits path).2 ∧
      ∀ target, (scope.resolveEarly load limits path).1 = .resolved target → ∃ middle goal,
        scope.Arrives load limits path target middle goal := by
  cases walked : walkPath limits scope.module path with
  | error failure =>
    simp only [resolveEarly, walked]
    exact ⟨.refl, by simp⟩
  | ok goal =>
    have reached := reachModule_calm load scope goal path.span
    simp only [resolveEarly, walked]
    cases arrived : (scope.reachModule load goal path.span).1 with
    | false => exact ⟨reached.trans (recordMentions_calm load _ goal.mentions), by simp⟩
    | true =>
      generalize (scope.reachModule load goal path.span).2 = middle at reached ⊢
      simp only [Bool.not_true, Bool.false_eq_true, if_false, Coupling.arrival_table]
      split
      · exact ⟨reached, by simp⟩
      · refine ⟨(reached.tail (middle.referred_calm load goal)).trans (recordMentions_calm load _ goal.mentions), ?_⟩
        rintro target ⟨⟩
        exact ⟨middle, goal, walked, reached, rfl⟩

theorem typeData_calm (load : Loader) (limits : Limits) (node : Node) (scope : Scope) :
    ReflTransGen (Calm load) scope (typeData load limits node scope).2 := by
  obtain same | ⟨path, same⟩ := typeData_scope load limits node scope
  · rw [same]
  · rw [same]
    exact (scope.resolvePath_calm load limits path).1

theorem fieldType_calm (load : Loader) (limits : Limits) (scope : Scope) (pair : Node) :
    ReflTransGen (Calm load) scope (scope.fieldType load limits pair).2 := by
  rw [fieldType]
  split
  · exact .refl
  · exact typeData_calm load limits _ scope

theorem arrival_key {scope : Scope} (sound : scope.workspace.table.Sound) (goal : PathTarget) :
    ∃ key, (scope.arrival goal).2.1 = .schema key := by
  obtain ⟨steps, chased⟩ := scope.arrival_chase goal
  obtain ⟨key, last⟩ := sound.chase steps (goal.module.join goal.name)
  exact ⟨key, chased.trans last⟩

/-- An act of the first pass, or of a use clause that had to wait. -/
inductive Entry (load : Loader) (scope : Scope) : Scope → Prop where
  | calm {after} (calm : Calm load scope after) : Entry load scope after
  | declare {name record} (mine : scope.Mine (.schema (scope.module.join name)) record) :
      Entry load scope (scope.write true (.schema (scope.module.join name)) record)
  | module (path : ModulePath) (span full : Span) :
      Entry load scope (scope.write false (.schema path.display)
        { usage := some { kind := .declaration, location := scope.locate span, fullSpan := some full } })

theorem Entry.move {load : Loader} {scope after : Scope} (entry : Entry load scope after) : Move load scope after := by
  cases entry with
  | calm calm => exact calm.move
  | declare mine => exact .write true mine
  | module path span full =>
    exact .write false ⟨by simp [locate], by simp, by simp, by simp, .inl rfl, fun _ _ => .inl rfl⟩

theorem entries_of_calm {load : Loader} {scope after : Scope} (calm : ReflTransGen (Calm load) scope after) :
    ReflTransGen (Entry load) scope after := ReflTransGen.mono (fun _ _ => .calm) scope after calm

theorem declare_entry {load : Loader} {scope : Scope} {name : String} {record : SymbolRecord}
    (mine : (scope.query (.schema (scope.module.join name))).declared? = none →
      scope.Mine (.schema (scope.module.join name)) record) (span : Span) :
    Entry load scope (scope.declare (.schema (scope.module.join name)) name span record) := by
  cases free : (scope.query (.schema (scope.module.join name))).declared? with
  | some existing =>
    simp only [declare, free]
    exact .calm (.add _)
  | none =>
    rw [Coupling.declare_of_free free]
    exact .declare (mine free)

theorem declareAlias_entry (load : Loader) (scope : Scope) (clause : Node) {target : SymbolPath}
    (linked : ∃ key, target = .schema key) : ReflTransGen (Entry load) scope (scope.declareAlias clause target) := by
  rw [declareAlias]
  split
  · exact .refl
  · split
    · exact .refl
    · exact .single (declare_entry (fun _ =>
        ⟨by simp [locate], by simp, by simpa using linked, by simp, .inl rfl, fun _ _ => .inl rfl⟩) _)

theorem checkUse_entries {load : Loader} (limits : Limits) (scope : Scope)
    (sound : ∀ {after}, ReflTransGen (Calm load) scope after → after.workspace.table.Sound) (clause : Node) :
    ReflTransGen (Entry load) scope (scope.checkUse load limits clause) := by
  rw [checkUse]
  split
  · exact .refl
  · next path found =>
    obtain ⟨calm, arrives⟩ := scope.resolvePath_calm load limits path
    split
    · next outcome =>
      rw [outcome] at calm
      exact entries_of_calm calm
    · next target after outcome =>
      rw [outcome] at calm arrives
      obtain ⟨middle, goal, arrived, -⟩ := arrives target rfl
      obtain ⟨key, address⟩ := arrival_key (sound arrived.calm) goal
      exact (entries_of_calm calm).trans (after.declareAlias_entry load clause ⟨key, arrived.address.trans address⟩)

end Scope

namespace Hoisting

open Scope

theorem step_entries {load : Loader} (limits : Limits) (hoisting : Hoisting)
    (sound : ∀ {after}, ReflTransGen (Calm load) hoisting.scope after → after.workspace.table.Sound)
    (declaration : Node) : ReflTransGen (Entry load) hoisting.scope (hoisting.step load limits declaration).scope := by
  have type : ∀ subcategory, ReflTransGen (Entry load) hoisting.scope (enterType hoisting.scope declaration subcategory) := by
    intro subcategory
    rw [enterType]
    split
    · exact .refl
    · split
      · exact .refl
      · exact .single (declare_entry (fun free =>
          ⟨by simp [locate], by simp, by simp, by simp [free], .inr (.inr free), fun _ _ => .inl rfl⟩) _)
  rw [step]
  split
  · exact type .compound
  · exact type .enum
  · rw [enterModule]
    dsimp only
    split
    · exact .refl
    · split
      · exact .refl
      · split
        · exact .single (.calm (.add _))
        · dsimp only
          split
          · exact .single (.calm (.add _))
          · exact .single (.module _ _ _)
  · rw [enterUse]
    split
    · exact .refl
    · next path found =>
      obtain ⟨calm, arrives⟩ := hoisting.scope.resolveEarly_calm load limits path
      split
      · next target after outcome =>
        rw [outcome] at calm arrives
        obtain ⟨middle, goal, arrived⟩ := arrives target rfl
        obtain ⟨key, address⟩ := arrival_key (sound arrived.calm) goal
        exact (entries_of_calm calm).trans (after.declareAlias_entry load declaration ⟨key, arrived.address.trans address⟩)
      · next outcome =>
        rw [outcome] at calm
        exact entries_of_calm calm
      · next outcome =>
        rw [outcome] at calm
        exact entries_of_calm calm
  · exact .refl

end Hoisting

namespace Node

/-- The objects that a describes clause is about, in known registries only, with their places. -/
def describes (registries : RegistrySettings) (clause : Node) : List (SymbolPath × Span) :=
  match clause.child? .path, clause.child? .registry with
  | some path, some registry =>
    match Scope.resourceName? registries registry with
    | none => []
    | some name =>
      if registries.isKnown name then
        (Scope.describedObjects registries clause path).map fun object => (⟨.description name, [object.1]⟩, object.2)
      else []
  | _, _ => []

theorem isObject_of_describes {registries : RegistrySettings} {clause : Node} {address : SymbolPath} {span : Span}
    (named : (address, span) ∈ clause.describes registries) : ∃ registry name, address = ⟨.description registry, [name]⟩ := by
  rw [describes] at named
  split at named
  · split at named
    · cases named
    · next name _ =>
      split at named
      · obtain ⟨object, -, same⟩ := List.mem_map.mp named
        cases same
        exact ⟨name, object.1, rfl⟩
      · cases named
  · cases named

end Node

namespace Scope

def Defines (scope : Scope) (declaration : Node) (key : String) : Prop :=
  ∃ identifier usage, declaration.child? .identifier = some identifier ∧
    scope.workspace.table.definitionAt (.schema key) = some usage ∧ usage.location = scope.locate identifier.span

def Cites (scope : Scope) (clause : Node) (target : SymbolPath) : Prop :=
  ∃ path name span, clause.child? .path = some path ∧ (pathSegments path).getLast? = some (name, span) ∧
    { kind := .reference, location := scope.locate span } ∈ scope.workspace.table.usagesAt target

/-- An act of the second pass for one declaration. -/
inductive Act (load : Loader) (registries : RegistrySettings) (declaration : Node) (scope : Scope) : Scope → Prop where
  | calm {after} (calm : Calm load scope after) : Act load registries declaration scope after
  | field {key name record span full} (site : scope.Defines declaration key ∨ declaration.kind = .injectClause)
      (free : (scope.query ((SymbolPath.schema key).member name)).declared? = none)
      (given : record.usage = some { kind := .definition, location := scope.locate span, fullSpan := some full })
      (bare : record.relations = {}) :
      Act load registries declaration scope (scope.write true ((SymbolPath.schema key).member name) record)
  | data {key} (defines : scope.Defines declaration key) (type : SchemaType) :
      Act load registries declaration scope (scope.write false (.schema key) { data := some type })
  | object {address span target} (kind : declaration.kind = .describesClause)
      (named : (address, span) ∈ declaration.describes registries) (cites : ∀ found ∈ target, scope.Cites declaration found) :
      Act load registries declaration scope (scope.write true address
        { usage := some { kind := .definition, location := scope.locate span }, relations := { describedBy := target } })

theorem Act.move {load : Loader} {registries : RegistrySettings} {declaration : Node} {scope after : Scope}
    (act : Act load registries declaration scope after) : Move load scope after := by
  cases act with
  | calm calm => exact calm.move
  | field site free given bare =>
    exact .write true ⟨by simp [given, locate], by simp [given], by simp [bare],
      fun _ _ _ _ same => absurd same (SymbolPath.member_ne_schema _ _ _), .inr (.inr free),
      fun _ same => absurd same (SymbolPath.member_ne_schema _ _ _)⟩
  | @data key defines type =>
    refine .write false ⟨by simp, by simp, by simp, by simp, .inl rfl, ?_⟩
    rintro other same
    obtain ⟨identifier, usage, -, defined, place⟩ := defines
    exact .inr ⟨usage, same ▸ defined, by rw [place]; rfl⟩
  | object kind named cites =>
    obtain ⟨registry, name, rfl⟩ := Node.isObject_of_describes named
    exact .write true ⟨by simp [locate], by simp, by simp, fun _ _ _ _ same => (by cases same), .inl rfl,
      fun _ same => (by cases same)⟩

theorem owned?_eq_some {scope : Scope} {declaration body : Node} {address : SymbolPath}
    (owned : scope.owned? declaration = some (address, body)) :
    ∃ identifier name usage, declaration.child? .identifier = some identifier ∧ declaration.child? .body = some body ∧
      identifier.textValue? = some name ∧ address = .schema (scope.module.join name) ∧
      scope.workspace.table.definitionAt address = some usage ∧ usage.location = scope.locate identifier.span := by
  rw [owned?] at owned
  split at owned
  · next identifier inner found holds =>
    obtain ⟨name, text, result⟩ := Option.bind_eq_some_iff.mp owned
    dsimp only at result
    split at result
    · next owns =>
      cases result
      rw [ownsDefinition, ← SymbolTable.definitionAt_eq, Option.any_eq_true] at owns
      obtain ⟨usage, defined, place⟩ := owns
      exact ⟨identifier, name, usage, found, holds, text, rfl, defined, by simpa using place⟩
    · cases result
  · cases owned

end Scope

end SchemaDoc
