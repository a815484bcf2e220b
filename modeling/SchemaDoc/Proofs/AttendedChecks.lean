import SchemaDoc.Proofs.DeclarationActs
import SchemaDoc.Proofs.OrderIndependence
import SchemaDoc.Proofs.SoleDeclarations

/-! The check of a document as a run of acts. All along the table is sound, and what the documents on the way
have entered stays. -/

namespace SchemaDoc

open Relation

namespace Workspace

/-- What loads do for the documents that are on the way: they leave a sound table, with the modules, with all that
these documents have entered so far, and with the contents of the types that they define. -/
structure Honours (setup : Setup) (before after : Workspace) : Prop where
  loads : Loads setup before after
  sound : before.table.Sound → after.table.Sound
  entries : before.table.Sound → after.table.entries = before.table.entries
  own : before.table.Sound → ∀ {uri}, before.InProgress uri → ∀ address,
    (after.table.usagesAt address).filter (·.isCheckedFrom uri) = (before.table.usagesAt address).filter (·.isCheckedFrom uri)
  contents : before.table.Sound → ∀ {uri}, before.InProgress uri → ∀ {key usage},
    before.table.definitionAt (.schema key) = some usage → usage.isCheckedFrom uri = true →
    after.table.partAt Symbol.data (.schema key) = before.table.partAt Symbol.data (.schema key)

structure Attends (setup : Setup) (before : Workspace) (document : TextDocument) (module : ModulePath) (scope : Scope) :
    Prop where
  place : scope.uri = document.uri ∧ scope.module = module
  underway : Underway setup before document scope.workspace
  sound : scope.workspace.table.Sound
  entries : scope.workspace.table.entries = before.table.entries
  own : ∀ {uri}, before.InProgress uri → ∀ address, (scope.workspace.table.usagesAt address).filter (·.isCheckedFrom uri) =
    (before.table.usagesAt address).filter (·.isCheckedFrom uri)
  contents : ∀ {uri}, before.InProgress uri → ∀ {key usage}, before.table.definitionAt (.schema key) = some usage →
    usage.isCheckedFrom uri = true →
    scope.workspace.table.partAt Symbol.data (.schema key) = before.table.partAt Symbol.data (.schema key)

namespace Attends

variable {setup : Setup} {before : Workspace} {document : TextDocument} {module : ModulePath} {scope after : Scope}
  {load : Loader}

theorem progress (attends : Attends setup before document module scope) : scope.workspace.InProgress document.uri :=
  (attends.underway.progress document.uri).mpr (.inl rfl)

theorem locate (attends : Attends setup before document module scope) (span : Span) :
    scope.locate span = ⟨document.uri, span⟩ := by rw [Scope.locate, attends.place.1]

/-- What a document on the way defined is still what defines it. -/
theorem defined (attends : Attends setup before document module scope) {uri : String} (progress : before.InProgress uri)
    {key : String} {usage : Usage} (defined : before.table.definitionAt (.schema key) = some usage)
    (checked : usage.isCheckedFrom uri = true) : scope.workspace.table.definitionAt (.schema key) = some usage := by
  have member : usage ∈ (scope.workspace.table.usagesAt (.schema key)).filter (·.isCheckedFrom uri) := by
    rw [attends.own progress]
    exact List.mem_filter.mpr ⟨List.mem_of_find?_eq_some defined, checked⟩
  exact attends.sound.definitionAt.mpr ⟨List.mem_of_mem_filter member, by simpa using List.find?_some defined⟩

theorem write (attends : Attends setup before document module scope) (idle : ¬before.InProgress document.uri)
    (creates : Bool) {target : SymbolPath} {record : SymbolRecord} (mine : scope.Mine target record) :
    Attends setup before document module (scope.write creates target record) := by
  have sound := attends.sound
  refine ⟨attends.place, attends.underway.withTable _, mine.sound sound creates,
    (mine.entries sound creates).trans attends.entries, fun {uri} progress address => ?_,
    fun {uri} progress {key usage} defined checked => ?_⟩
  · obtain ⟨added, appended, given⟩ := SymbolTable.usagesAt_write sound.sorted creates target record address
    have foreign : added.filter (·.isCheckedFrom uri) = [] := by
      refine List.filter_eq_nil_iff.mpr fun usage new => ?_
      have here := mine.place usage (given usage new).2
      rw [attends.place.1] at here
      have apart : document.uri ≠ uri := fun same => idle (same ▸ progress)
      simp [Usage.isCheckedFrom, here, apart]
    change ((if creates then scope.workspace.table.enter target record
      else scope.workspace.table.amend target record).usagesAt address).filter _ = _
    rw [appended, List.filter_append, foreign, List.append_nil, attends.own progress]
  · refine (mine.contents sound creates (attends.defined progress defined checked) fun own => idle ?_).trans
      (attends.contents progress defined checked)
    have here : usage.location.uri = uri := by simp_all [Usage.isCheckedFrom]
    rwa [← attends.place.1, ← own, here]

variable (honours : ∀ workspace uri, Honours setup workspace (load workspace uri).2)
  (idle : ¬before.InProgress document.uri)

include honours idle in
theorem move (attends : Attends setup before document module scope) (move : Scope.Move load scope after) :
    Attends setup before document module after := by
  cases move with
  | add diagnostic => exact { attends with }
  | @load uri apart =>
    have nested := honours scope.workspace uri
    have sound := attends.sound
    refine ⟨attends.place, attends.underway.load nested.loads, nested.sound sound, (nested.entries sound).trans attends.entries,
      fun {other} progress address => ?_, fun {other} progress {key usage} defined checked => ?_⟩
    · have still := (attends.underway.progress other).mpr (.inr progress)
      exact (nested.own sound still address).trans (attends.own progress address)
    · have still := (attends.underway.progress other).mpr (.inr progress)
      exact (nested.contents sound still (attends.defined progress defined checked) checked).trans
        (attends.contents progress defined checked)
  | write creates mine => exact attends.write idle creates mine

theorem checking (attends : Attends setup before document module scope) :
    Attends setup before document module scope.checking := by
  refine ⟨attends.place, ?_, attends.sound, attends.entries, attends.own, attends.contents⟩
  rw [Scope.checking, attends.place.1]
  exact attends.underway.checking

include honours idle in
/-- What holds of a scope holds behind a run if each step keeps it. -/
theorem run {Acts : Scope → Scope → Prop} (Holds : Scope → Prop) (moves : ∀ {scope after}, Acts scope after → Scope.Move load scope after)
    (keeps : ∀ {scope after}, Attends setup before document module scope → Attends setup before document module after →
      Acts scope after → Holds scope → Holds after)
    (attends : Attends setup before document module scope) (acts : ReflTransGen Acts scope after) (holds : Holds scope) :
    Holds after := by
  have both : Attends setup before document module after ∧ Holds after := by
    induction acts with
    | refl => exact ⟨attends, holds⟩
    | tail _ act ih =>
      have onward := ih.1.move honours idle (moves act)
      exact ⟨onward, keeps ih.1 onward act ih.2⟩
  exact both.2

include honours idle in
theorem moves (attends : Attends setup before document module scope) (moves : ReflTransGen (Scope.Move load) scope after) :
    Attends setup before document module after := by
  induction moves with
  | refl => exact attends
  | tail _ move ih => exact ih.move honours idle move

include honours idle in
theorem calms (attends : Attends setup before document module scope) (calms : ReflTransGen (Scope.Calm load) scope after) :
    Attends setup before document module after :=
  attends.moves honours idle (ReflTransGen.mono (fun _ _ => Scope.Calm.move) _ _ calms)

include honours in
/-- What the document itself has entered stays throughout its check. -/
theorem usage_kept (attends : Attends setup before document module scope) (move : Scope.Move load scope after)
    {address : SymbolPath} {usage : Usage} (member : usage ∈ scope.workspace.table.usagesAt address)
    (checked : usage.isCheckedFrom document.uri = true) : usage ∈ after.workspace.table.usagesAt address := by
  cases move with
  | add diagnostic => exact member
  | @load uri apart =>
    have own := (honours scope.workspace uri).own attends.sound attends.progress address
    exact List.mem_of_mem_filter (own ▸ List.mem_filter.mpr ⟨member, checked⟩)
  | @write creates target record mine =>
    exact SymbolTable.usagesAt_subset_write attends.sound.sorted creates target record address member

include honours in
theorem definition_kept (attends : Attends setup before document module scope) (move : Scope.Move load scope after)
    (onward : Attends setup before document module after) {key : String} {usage : Usage}
    (defined : scope.workspace.table.definitionAt (.schema key) = some usage) (own : usage.location.uri = document.uri) :
    after.workspace.table.definitionAt (.schema key) = some usage := by
  obtain ⟨member, kind⟩ := attends.sound.definitionAt.mp defined
  have checked : usage.isCheckedFrom document.uri = true := by
    simp [Usage.isCheckedFrom, own, (attends.sound.shown member kind).2]
  exact onward.sound.definitionAt.mpr ⟨attends.usage_kept honours move member checked, kind⟩

include honours in
theorem defines_kept (attends : Attends setup before document module scope) (move : Scope.Move load scope after)
    (onward : Attends setup before document module after) {declaration : Node} {key : String}
    (defines : scope.Defines declaration key) : after.Defines declaration key := by
  obtain ⟨identifier, usage, found, defined, place⟩ := defines
  rw [attends.locate] at place
  exact ⟨identifier, usage, found, attends.definition_kept honours move onward defined (by rw [place]),
    place.trans (onward.locate _).symm⟩

include honours in
theorem cites_kept (attends : Attends setup before document module scope) (move : Scope.Move load scope after)
    (onward : Attends setup before document module after) {clause : Node} {target : SymbolPath}
    (cites : scope.Cites clause target) : after.Cites clause target := by
  obtain ⟨path, name, span, found, last, member⟩ := cites
  rw [attends.locate] at member
  have kept := attends.usage_kept honours move member (by simp [Usage.isCheckedFrom])
  exact ⟨path, name, span, found, last, (onward.locate span).symm ▸ kept⟩

include honours in
theorem declaredBy_calm (attends : Attends setup before document module scope) (calm : Scope.Calm load scope after)
    (address : SymbolPath) :
    after.workspace.table.declaredBy document.uri address = scope.workspace.table.declaredBy document.uri address := by
  cases calm with
  | add diagnostic => rfl
  | @load uri apart => exact SymbolTable.declaredBy_congr ((honours scope.workspace uri).own attends.sound attends.progress address)
  | refer creates target span renamable =>
    exact SymbolTable.declaredBy_write attends.sound.sorted creates fun _ usage given => by cases given; exact .inl rfl

include honours in
theorem declaredBy_entry (attends : Attends setup before document module scope) (entry : Scope.Entry load scope after)
    {address : SymbolPath} (apart : ∀ key, address ≠ .schema key) :
    after.workspace.table.declaredBy document.uri address = scope.workspace.table.declaredBy document.uri address := by
  cases entry with
  | calm calm => exact attends.declaredBy_calm honours calm address
  | declare mine => exact SymbolTable.declaredBy_write attends.sound.sorted true fun here => absurd here (apart _)
  | module path span full => exact SymbolTable.declaredBy_write attends.sound.sorted false fun here => absurd here (apart _)

include honours in
theorem contents_calm (attends : Attends setup before document module scope) (calm : Scope.Calm load scope after)
    {key : String} {usage : Usage} (defined : scope.workspace.table.definitionAt (.schema key) = some usage)
    (own : usage.location.uri = document.uri) :
    after.workspace.table.partAt Symbol.data (.schema key) = scope.workspace.table.partAt Symbol.data (.schema key) := by
  cases calm with
  | add diagnostic => rfl
  | @load uri apart =>
    obtain ⟨member, kind⟩ := attends.sound.definitionAt.mp defined
    exact (honours scope.workspace uri).contents attends.sound attends.progress defined
      (by simp [Usage.isCheckedFrom, own, (attends.sound.shown member kind).2])
  | refer creates target span renamable =>
    exact SymbolTable.partAt_write attends.sound.sorted creates target _ (fun _ => rfl) fun _ _ => rfl

end Attends

end Workspace

namespace Workspace.Attends

open Scope

variable {setup : Setup} {before : Workspace} {document : TextDocument} {module : ModulePath} {scope after : Scope}
  {load : Loader} (honours : ∀ workspace uri, Honours setup workspace (load workspace uri).2)
  (idle : ¬before.InProgress document.uri) {registries : RegistrySettings} {declaration : Node} {key : String}

structure Site (setup : Setup) (before : Workspace) (document : TextDocument) (module : ModulePath) (declaration : Node)
    (key : String) (scope : Scope) : Prop where
  attends : Attends setup before document module scope
  site : scope.Defines declaration key ∨ declaration.kind = .injectClause

include honours idle in
theorem Site.act (site : Site setup before document module declaration key scope)
    (act : Act load registries declaration scope after) : Site setup before document module declaration key after := by
  have onward := site.attends.move honours idle act.move
  exact ⟨onward, site.site.imp_left fun defines => site.attends.defines_kept honours act.move onward defines⟩

include honours idle in
theorem Site.acts (site : Site setup before document module declaration key scope)
    (acts : ReflTransGen (Act load registries declaration) scope after) :
    Site setup before document module declaration key after := by
  induction acts with
  | refl => exact site
  | tail _ act ih => exact ih.act honours idle act

theorem Site.enterField (site : Site setup before document module declaration key scope) (node pair : Node) (name : String)
    (subcategory : Subcategory) (data : Option SchemaType) :
    Act load registries declaration scope (scope.enterField (.schema key) node pair name subcategory data).2 := by
  rw [Coupling.enterField_eq]
  cases free : (scope.query ((SymbolPath.schema key).member name)).declared? with
  | some existing => exact .calm (.add _)
  | none => exact .field site.site free rfl rfl

variable (registries)

include honours idle in
theorem Site.structField (site : Site setup before document module declaration key scope) (limits : Limits)
    (fields : List (String × SchemaType)) (pair : Node) :
    ReflTransGen (Act load registries declaration) scope (structField load limits (.schema key) (fields, scope) pair).2 := by
  rw [Scope.structField]
  cases pair.child? .key with
  | none => exact .refl
  | some node =>
    have typed : ReflTransGen (Act load registries declaration) scope (scope.fieldType load limits pair).2 :=
      ReflTransGen.mono (fun _ _ => .calm) _ _ (scope.fieldType_calm load limits pair)
    dsimp only
    cases text : node.textValue? with
    | none => exact typed
    | some name =>
      have there := site.acts honours idle typed
      have entered := typed.tail (there.enterField node pair name .compoundKey (scope.fieldType load limits pair).1)
      dsimp only
      split <;> exact entered

include honours idle in
theorem Site.structFields (site : Site setup before document module declaration key scope) (limits : Limits)
    (fields : List (String × SchemaType)) (pairs : List Node) :
    ReflTransGen (Act load registries declaration) scope
      (pairs.foldl (Scope.structField load limits (.schema key)) (fields, scope)).2 := by
  induction pairs generalizing scope fields with
  | nil => exact .refl
  | cons pair pairs ih =>
    have first := site.structField honours idle registries limits fields pair
    exact first.trans (ih (site.acts honours idle first) _)

theorem Site.enumValue (site : Site setup before document module declaration key scope)
    (values : List (String × Option LiteralValue)) (pair : Node) :
    ReflTransGen (Act load registries declaration) scope (enumValue (.schema key) (values, scope) pair).2 := by
  rw [Scope.enumValue]
  cases pair.child? .key with
  | none => exact .refl
  | some node =>
    dsimp only
    cases node.textValue? with
    | none => exact .refl
    | some name => exact .single (site.enterField node pair name .enumKey _)

include honours idle in
theorem Site.enumValues (site : Site setup before document module declaration key scope)
    (values : List (String × Option LiteralValue)) (pairs : List Node) :
    ReflTransGen (Act load registries declaration) scope (pairs.foldl (Scope.enumValue (.schema key)) (values, scope)).2 := by
  induction pairs generalizing scope values with
  | nil => exact .refl
  | cons pair pairs ih =>
    have first : ReflTransGen (Act load registries declaration) scope _ := site.enumValue registries values pair
    exact first.trans (ih (site.acts honours idle first) _)

include honours idle in
/-- A declaration that owns its symbol enters the members and then says what they come to. -/
theorem owned_acts (attends : Attends setup before document module scope) (kind : declaration.kind ≠ .injectClause) {body : Node}
    {address : SymbolPath} (owned : scope.owned? declaration = some (address, body)) {filled : Scope} (type : SchemaType)
    (members : ∀ key, address = .schema key → Site setup before document module declaration key scope →
      ReflTransGen (Act load registries declaration) scope filled) :
    ReflTransGen (Act load registries declaration) scope (filled.amend address { data := some type }) := by
  obtain ⟨identifier, name, usage, found, -, -, rfl, defined, place⟩ := owned?_eq_some owned
  have site : Site setup before document module declaration (scope.module.join name) scope :=
    ⟨attends, .inl ⟨identifier, usage, found, defined, place⟩⟩
  have entered := members _ rfl site
  exact entered.tail (.data ((site.acts honours idle entered).site.resolve_right kind) type)

include honours idle in
theorem enterObjects_acts (attends : Attends setup before document module scope) {registry : String} {target : Option SymbolPath}
    (kind : declaration.kind = .describesClause) {objects : List (String × Span)}
    (named : ∀ object ∈ objects, (⟨.description registry, [object.1]⟩, object.2) ∈ declaration.describes registries)
    (cites : ∀ found ∈ target, scope.Cites declaration found) :
    ReflTransGen (Act load registries declaration) scope (objects.foldl (enterObject registry target) scope) := by
  induction objects generalizing scope with
  | nil => exact .refl
  | cons object objects ih =>
    rw [List.forall_mem_cons] at named
    have first : Act load registries declaration scope (enterObject registry target scope object) := .object kind named.1 cites
    have onward := attends.move honours idle first.move
    refine .head first (ih onward named.2 fun found given => ?_)
    exact attends.cites_kept honours first.move onward (cites found given)

include honours idle in
/-- What a describes clause does: it resolves its path, and then defines its objects one after another. -/
theorem checkDescribes_acts (attends : Attends setup before document module scope) (kind : declaration.kind = .describesClause) :
    ReflTransGen (Act load setup.registries declaration) scope (scope.checkDescribes load setup declaration) := by
  rw [checkDescribes]
  split
  · next path registry found listed =>
    split
    · exact .refl
    · next name named =>
      split
      · exact .refl
      · next known =>
        obtain ⟨calm, arrives⟩ := scope.resolvePath_calm load setup.limits path
        have resolving : ReflTransGen (Act load setup.registries declaration) scope _ := ReflTransGen.mono (fun _ _ => .calm) _ _ calm
        refine resolving.trans ((attends.calms honours idle calm).enterObjects_acts honours idle setup.registries kind ?_ ?_)
        · intro object member
          have isKnown : setup.registries.isKnown name = true := by simpa using known
          simp only [Node.describes, found, listed, named, isKnown, if_true]
          exact List.mem_map.mpr ⟨object, member, rfl⟩
        · intro target given
          obtain ⟨middle, goal, arrived, same⟩ := arrives target given
          refine ⟨path, goal.name, goal.nameSpan, found, (walkPath_inversion arrived.walked).1, ?_⟩
          have there := attends.calms honours idle arrived.calm
          obtain ⟨key, address⟩ := arrival_key there.sound goal
          have appended := SymbolTable.usagesAt_enter there.sound.sorted (address ▸ SymbolPath.schema_path_ne key)
            (middle.reference goal.nameSpan) (middle.arrival goal).2.1
          rw [if_pos rfl] at appended
          rw [same, arrived.address]
          exact appended ▸ List.mem_append_right _ (List.mem_singleton_self _)
  · exact .refl

include honours idle in
theorem checkInject_acts (attends : Attends setup before document module scope) (limits : Limits)
    (kind : declaration.kind = .injectClause) :
    ReflTransGen (Act load registries declaration) scope (scope.checkInject load limits declaration) := by
  rw [checkInject]
  split
  · exact .refl
  · next definition holds =>
    split
    · next subcategory values path injected found =>
      obtain ⟨calm, arrives⟩ := scope.resolvePath_calm load limits path
      have resolving : ReflTransGen (Act load registries declaration) scope _ := ReflTransGen.mono (fun _ _ => .calm) _ _ calm
      have onward := attends.calms honours idle calm
      split
      · next outcome =>
        rw [outcome] at resolving
        exact resolving
      · next target after outcome =>
        rw [outcome] at resolving arrives onward
        obtain ⟨middle, goal, arrived, -⟩ := arrives target rfl
        obtain ⟨key, address⟩ := arrival_key (attends.calms honours idle arrived.calm).sound goal
        have site : Site setup before document module declaration key after := ⟨onward, .inr kind⟩
        dsimp only
        split
        · exact resolving.tail (.calm (.add _))
        · split
          · exact resolving
          · next body _ =>
            rw [arrived.address, address]
            split
            · exact resolving.trans (site.structFields honours idle registries limits [] body.children)
            · exact resolving.trans (site.enumValues honours idle registries [] body.children)
    · exact .refl

include honours idle in
theorem checkDeclaration_acts (attends : Attends setup before document module scope) :
    ReflTransGen (Act load setup.registries declaration) scope (scope.checkDeclaration load setup declaration) := by
  rw [checkDeclaration]
  split
  · next kind =>
    rw [checkStruct]
    split
    · exact .refl
    · next address body owned =>
      refine attends.owned_acts honours idle setup.registries (by simp [kind]) owned _ fun key same site => ?_
      subst same
      exact site.structFields honours idle setup.registries setup.limits [] body.children
  · next values kind =>
    rw [checkEnum]
    split
    · exact .refl
    · next address body owned =>
      refine attends.owned_acts honours idle setup.registries (by simp [kind]) owned _ fun key same site => ?_
      subst same
      exact site.enumValues honours idle setup.registries [] body.children
  · next kind => exact attends.checkDescribes_acts honours idle kind
  · next kind => exact attends.checkInject_acts honours idle setup.registries setup.limits kind
  · exact .refl

include honours idle in
theorem entered (attends : Attends setup before document module scope) (entries : ReflTransGen (Entry load) scope after) :
    Attends setup before document module after :=
  attends.moves honours idle (ReflTransGen.mono (fun _ _ => Entry.move) _ _ entries)

include honours idle in
theorem hoist_entries (limits : Limits) (declarations : List Node) {hoisting : Hoisting}
    (attends : Attends setup before document module hoisting.scope) :
    ReflTransGen (Entry load) hoisting.scope (declarations.foldl (Hoisting.step load limits) hoisting).scope := by
  induction declarations generalizing hoisting with
  | nil => exact .refl
  | cons declaration declarations ih =>
    have first := hoisting.step_entries limits (fun calm => (attends.calms honours idle calm).sound) declaration
    exact first.trans (ih (attends.entered honours idle first))

include honours idle in
theorem uses_entries (limits : Limits) (clauses : List Node) (attends : Attends setup before document module scope) :
    ReflTransGen (Entry load) scope (clauses.foldl (Scope.checkUse load limits) scope) := by
  induction clauses generalizing scope with
  | nil => exact .refl
  | cons clause clauses ih =>
    have first := scope.checkUse_entries limits (fun calm => (attends.calms honours idle calm).sound) clause
    exact first.trans (ih (attends.entered honours idle first))

def ActOf (load : Loader) (registries : RegistrySettings) (declarations : List Node) (scope after : Scope) : Prop :=
  ∃ declaration ∈ declarations, Act load registries declaration scope after

theorem ActOf.move {declarations : List Node} (act : ActOf load registries declarations scope after) : Move load scope after := by
  obtain ⟨declaration, -, act⟩ := act
  exact act.move

include honours idle in
theorem acted (attends : Attends setup before document module scope) {declarations : List Node}
    (acts : ReflTransGen (ActOf load registries declarations) scope after) : Attends setup before document module after :=
  attends.moves honours idle (ReflTransGen.mono (fun _ _ => ActOf.move registries) _ _ acts)

include honours idle in
theorem declarations_acts (declarations : List Node) (attends : Attends setup before document module scope) :
    ReflTransGen (ActOf load setup.registries declarations) scope (declarations.foldl (checkDeclaration load setup) scope) := by
  induction declarations generalizing scope with
  | nil => exact .refl
  | cons declaration declarations ih =>
    have first : ReflTransGen (Act load setup.registries declaration) scope _ := attends.checkDeclaration_acts honours idle
    have head : ReflTransGen (ActOf load setup.registries (declaration :: declarations)) scope _ :=
      ReflTransGen.mono (fun _ _ act => ⟨declaration, List.mem_cons_self, act⟩) _ _ first
    refine head.trans (ReflTransGen.mono ?_ _ _ (ih (attends.acted honours idle setup.registries head)))
    exact fun _ _ ⟨other, member, act⟩ => ⟨other, List.mem_cons_of_mem _ member, act⟩

end Workspace.Attends

namespace Workspace

variable {setup : Setup} {before : Workspace} {document : TextDocument} {load : Loader}

def hoistedOf (load : Loader) (setup : Setup) (workspace : Workspace) (document : TextDocument) (module : ModulePath) : Scope :=
  ((passOf setup document module).hoisted load (startOf setup workspace document module)
    (parse document.text setup.trailing).node.children).scope

def waitedOf (load : Loader) (setup : Setup) (workspace : Workspace) (document : TextDocument) (module : ModulePath) : Scope :=
  (passOf setup document module).waited load (startOf setup workspace document module)
    ((passOf setup document module).deferred load (startOf setup workspace document module))

theorem endOf_eq (load : Loader) (setup : Setup) (workspace : Workspace) (document : TextDocument) (module : ModulePath) :
    endOf load setup workspace document module =
      (parse document.text setup.trailing).node.children.foldl (Scope.checkDeclaration load setup)
        (waitedOf load setup workspace document module) := rfl

theorem declaredBy_startOf (sorted : Sorted before.table.symbols) (setup : Setup) (document : TextDocument) (module : ModulePath)
    (address : SymbolPath) : (startOf setup (fetch setup before document.uri).2.enter document module).workspace.table.declaredBy
      document.uri address = [] := by
  rw [table_startOf, SymbolTable.declaredBy_clearUri sorted, if_pos rfl]

theorem Attends.start (sound : before.table.Sound) (needs : Needs setup before document.uri document) (module : ModulePath) :
    Attends setup before document module (startOf setup (fetch setup before document.uri).2.enter document module) := by
  have table := table_startOf setup before document.uri document module
  refine ⟨⟨rfl, rfl⟩, Underway.start needs, table ▸ sound.clearUri document.uri, table ▸ sound.entries_clearUri document.uri, fun {uri} progress address => ?_,
    fun {uri} progress {key usage} defined checked => ?_⟩
  · have apart : document.uri ≠ uri := fun same => needs.idle (same ▸ progress)
    rw [table, SymbolTable.usagesAt_clearUri sound.sorted, List.filter_filter]
    refine List.filter_congr fun usage _ => ?_
    by_cases here : usage.location.uri = uri <;> simp [Usage.isCheckedFrom, here, apart.symm]
  · have apart : uri ≠ document.uri := fun same => needs.idle (same ▸ progress)
    obtain ⟨member, kind⟩ := sound.definitionAt.mp defined
    rw [table]
    exact SymbolTable.partAt_clearUri (fun _ _ => rfl) sound.sorted member (by rw [kind]; rfl)
      (SymbolTable.isCheckedFrom_apart checked apart)

section Check

variable (honours : ∀ workspace uri, Honours setup workspace (load workspace uri).2) (sound : before.table.Sound)
  (needs : Needs setup before document.uri document) (module : ModulePath)

include honours sound needs in
theorem hoistedOf_entries :
    ReflTransGen (Scope.Entry load) (startOf setup (fetch setup before document.uri).2.enter document module)
      (hoistedOf load setup (fetch setup before document.uri).2.enter document module) := by
  have start : Attends setup before document module
      (Hoisting.mk (startOf setup (fetch setup before document.uri).2.enter document module) [] []).scope := .start sound needs module
  exact start.hoist_entries honours needs.idle setup.limits _

include honours sound needs in
theorem waitedOf_entries :
    ReflTransGen (Scope.Entry load) (hoistedOf load setup (fetch setup before document.uri).2.enter document module).checking
      (waitedOf load setup (fetch setup before document.uri).2.enter document module) :=
  ((Attends.start sound needs module).entered honours needs.idle
    (hoistedOf_entries honours sound needs module)).checking.uses_entries honours needs.idle setup.limits _

include honours sound needs in
theorem waitedOf_attends : Attends setup before document module
    (waitedOf load setup (fetch setup before document.uri).2.enter document module) :=
  (((Attends.start sound needs module).entered honours needs.idle
    (hoistedOf_entries honours sound needs module)).checking).entered honours needs.idle
      (waitedOf_entries honours sound needs module)

include honours sound needs in
theorem endOf_attends : Attends setup before document module
    (endOf load setup (fetch setup before document.uri).2.enter document module) := by
  have waited := waitedOf_attends honours sound needs module
  exact waited.acted honours needs.idle setup.registries (waited.declarations_acts honours needs.idle _)

end Check

/-- What a check ends in: what its passes come to, or nothing at all for a document of no module. -/
theorem checkDocument_cases (loads : ∀ workspace uri, Loads setup workspace (load workspace uri).2)
    (needs : Needs setup before document.uri document) (Ends : Workspace → Prop)
    (alone : ((fetch setup before document.uri).2.enter.table.clearUri document.uri).moduleOfUri? document.uri = none →
      ∀ errors, Ends (((fetch setup before document.uri).2.enter.takeUp document
        (parse document.text setup.trailing).errors).conclude document.uri (parse document.text setup.trailing).node errors []).leave)
    (passes : ∀ module, ((fetch setup before document.uri).2.enter.table.clearUri document.uri).moduleOfUri? document.uri =
        some module →
      Ends ((endOf load setup (fetch setup before document.uri).2.enter document module).workspace.conclude document.uri
        (parse document.text setup.trailing).node
        (endOf load setup (fetch setup before document.uri).2.enter document module).errors
        (endOf load setup (fetch setup before document.uri).2.enter document module).dependencies).leave) :
    Ends (checkDocument load setup (fetch setup before document.uri).2.enter document).leave := by
  cases registered : ((fetch setup before document.uri).2.enter.table.clearUri document.uri).moduleOfUri? document.uri with
  | some module =>
    have start : (startOf setup (fetch setup before document.uri).2.enter document module).uri = document.uri ∧
        (startOf setup (fetch setup before document.uri).2.enter document module).module = module := ⟨rfl, rfl⟩
    rw [checkDocument_eq_endOf registered (Underway.invariant loads module) ⟨start, Underway.start needs⟩]
    exact passes module registered
  | none =>
    rw [checkDocument]
    dsimp only
    have unknown : moduleOf ((fetch setup before document.uri).2.enter.takeUp document
        (parse document.text setup.trailing).errors).table document.uri =
        (none, [.ofMessage .undefinedModuleSegment [] (.point 0)]) := by
      change moduleOf ((fetch setup before document.uri).2.enter.table.clearUri document.uri) document.uri = _
      rw [moduleOf, registered]
    rw [unknown]
    exact alone registered _

theorem Honours.fetch (workspace : Workspace) (uri : String) : Honours setup workspace (fetch setup workspace uri).2 := by
  have loads := Loads.fetch setup workspace uri
  obtain ⟨documents, fetched⟩ := fetch_snd setup workspace uri
  rw [fetched] at loads ⊢
  exact ⟨loads, fun sound => sound, fun _ => rfl, fun _ _ _ _ => rfl, fun _ _ _ _ _ _ _ => rfl⟩

theorem checkDocument_honours {uri : String} (honours : ∀ workspace uri, Honours setup workspace (load workspace uri).2)
    (needs : Needs setup before uri document) :
    Honours setup before (checkDocument load setup (Workspace.fetch setup before uri).2.enter document).leave := by
  obtain rfl := provided_uri needs.provides
  have loads := fun workspace uri => (honours workspace uri).loads
  have ends := fun sound : before.table.Sound => checkDocument_cases loads needs
    (fun after => ∃ module scope, Attends setup before document module scope ∧ after.table = scope.workspace.table)
    (fun _ errors => ⟨.root, _, Attends.start sound needs .root, rfl⟩)
    (fun module _ => ⟨module, _, endOf_attends honours sound needs module, table_concluded ..⟩)
  refine ⟨(checkDocument_loads loads needs).1, fun sound => ?_, fun sound => ?_, fun sound => ?_, fun sound => ?_⟩
  all_goals
    obtain ⟨module, scope, attends, table⟩ := ends sound
    rw [table]
  · exact attends.sound
  · exact attends.entries
  · exact attends.own
  · exact attends.contents

theorem loadWithin_honours (setup : Setup) (budget : Nat) (workspace : Workspace) (uri : String) :
    Honours setup workspace (loadWithin setup budget workspace uri).2 := by
  apply loadWithin_induction (Honours setup)
  · exact Honours.fetch
  · exact checkDocument_honours

theorem ensureChecked_honours (setup : Setup) (workspace : Workspace) (uri : String) :
    Honours setup workspace (ensureChecked setup workspace uri).2 := loadWithin_honours setup _ workspace uri

theorem LaidAlone.sound {table : SymbolTable} (laid : LaidAlone table) : table.Sound := by
  have implemented : ∀ {address usage}, usage ∈ table.usagesAt address → usage.kind ≠ .definition := by
    intro address usage member
    obtain ⟨⟨uri, rfl⟩, -⟩ := laid.usages address usage member
    nofun
  refine ⟨laid.sorted, fun {address target} link => ?_, fun member kind => absurd kind (implemented member),
    fun member _ kind => absurd kind (implemented member), fun {address usage} member _ => ?_⟩
  · rw [laid.aliases] at link
    cases link
  · obtain ⟨isLaid, path, -, here⟩ := laid.usages address usage member
    exact ⟨isLaid, _, here⟩

/-- Throughout a session the table is sound, with the modules of the layout. -/
theorem Session.sound {base : Setup} {layout : Layout} {scanned : FileTree} {workspace : Workspace}
    (session : Session base layout scanned workspace) :
    workspace.table.Sound ∧ workspace.table.entries = (registerLayout {} layout scanned).2.table.entries := by
  have load : ∀ files (workspace : Workspace) (uri : String), workspace.table.Sound ∧
      workspace.table.entries = (registerLayout {} layout scanned).2.table.entries →
      (ensureChecked (base.over files) workspace uri).2.table.Sound ∧
        (ensureChecked (base.over files) workspace uri).2.table.entries = (registerLayout {} layout scanned).2.table.entries := by
    rintro files workspace uri ⟨sound, entries⟩
    have honours := ensureChecked_honours (base.over files) workspace uri
    exact ⟨honours.sound sound, (honours.entries sound).trans entries⟩
  induction session with
  | new documents => exact ⟨(laidAlone_register fun entry member => Layout.plain_of_modulesOf member).sound, rfl⟩
  | edit _ documents ih => exact ih
  | check _ files uri ih => exact load files _ uri ih
  | checkAll _ files ih => exact checkUris_keeps (load files) _ ih
  | invalidate _ uri ih => exact ih

end Workspace

end SchemaDoc
