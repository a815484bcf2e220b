import SchemaDoc.Proofs.LastingOutcomes

/-! Descriptions follow the texts. Each describes clause defines its objects once, whatever other documents say of
them. What an object is described by is kept in one place for all clauses: that is sure to come from a clause that is
there as long as a single document describes the object. -/

namespace SchemaDoc

open Relation

namespace Node

def described (registries : RegistrySettings) (declaration : Node) : List (SymbolPath × Span) :=
  if declaration.kind = .describesClause then declaration.describes registries else []

def objects (registries : RegistrySettings) (root : Node) : List (SymbolPath × Span) :=
  root.children.flatMap (described registries)

end Node

/-- The usages by which a document defines an object, one for each time that it describes it. -/
def definitionsOf (uri : String) (address : SymbolPath) (objects : List (SymbolPath × Span)) : List Usage :=
  (objects.filter fun object => object.1 = address).map fun object => { kind := .definition, location := ⟨uri, object.2⟩ }

theorem definitionsOf_append (uri : String) (address : SymbolPath) (first second : List (SymbolPath × Span)) :
    definitionsOf uri address (first ++ second) = definitionsOf uri address first ++ definitionsOf uri address second := by
  simp [definitionsOf]

namespace Scope

variable {load : Loader} {scope : Scope}

def objectRecord (scope : Scope) (span : Span) (target : Option SymbolPath) : SymbolRecord :=
  { usage := some { kind := .definition, location := scope.locate span }, relations := { describedBy := target } }

theorem enterObject_eq (scope : Scope) (registry : String) (target : Option SymbolPath) (object : String × Span) :
    enterObject registry target scope object =
      scope.write true ⟨.description registry, [object.1]⟩ (scope.objectRecord object.2 target) := rfl

theorem enterObjects_declaredBy (sorted : Sorted scope.workspace.table.symbols) (registry : String) (target : Option SymbolPath)
    (objects : List (String × Span)) (address : SymbolPath) :
    (objects.foldl (enterObject registry target) scope).workspace.table.declaredBy scope.uri address =
      scope.workspace.table.declaredBy scope.uri address ++
        definitionsOf scope.uri address (objects.map fun object => (⟨.description registry, [object.1]⟩, object.2)) := by
  induction objects generalizing scope with
  | nil => simp [definitionsOf]
  | cons object objects ih =>
    have onward : Sorted (enterObject registry target scope object).workspace.table.symbols :=
      SymbolTable.sorted_write sorted true _ _
    have entered : (enterObject registry target scope object).workspace.table.declaredBy scope.uri address =
        scope.workspace.table.declaredBy scope.uri address ++
          definitionsOf scope.uri address [(⟨.description registry, [object.1]⟩, object.2)] := by
      rw [enterObject_eq]
      by_cases here : address = ⟨.description registry, [object.1]⟩
      · subst here
        have added : (scope.write true ⟨.description registry, [object.1]⟩ (scope.objectRecord object.2 target)).workspace.table.declaredBy
            scope.uri ⟨.description registry, [object.1]⟩ = _ :=
          SymbolTable.declaredBy_enter sorted (List.cons_ne_nil _ _) rfl rfl (by simp [Usage.isCheckedFrom, locate])
        rw [added]
        simp [definitionsOf, locate]
      · have kept : (scope.write true ⟨.description registry, [object.1]⟩ (scope.objectRecord object.2 target)).workspace.table.declaredBy
            scope.uri address = _ := SymbolTable.declaredBy_write sorted true fun same => absurd same here
        rw [kept]
        simp [definitionsOf, Ne.symm here]
    have rest := ih onward
    rw [List.foldl_cons, List.map_cons, ← List.singleton_append, definitionsOf_append, ← List.append_assoc, ← entered]
    exact rest

end Scope

namespace Workspace

open Scope

namespace Attends

variable {setup : Setup} {before : Workspace} {document : TextDocument} {module : ModulePath} {scope after : Scope}
  {load : Loader} (honours : ∀ workspace uri, Honours setup workspace (load workspace uri).2)
  (idle : ¬before.InProgress document.uri) {declaration : Node} {address : SymbolPath} (apart : address.category ≠ .schema)

include honours idle in
theorem declaredBy_calms (attends : Attends setup before document module scope) (calms : ReflTransGen (Calm load) scope after)
    (address : SymbolPath) :
    after.workspace.table.declaredBy document.uri address = scope.workspace.table.declaredBy document.uri address := by
  induction calms with
  | refl => rfl
  | tail first calm ih => exact ((attends.calms honours idle first).declaredBy_calm honours calm address).trans ih

include honours apart in
theorem declaredBy_act (attends : Attends setup before document module scope) {registries : RegistrySettings}
    (kind : declaration.kind ≠ .describesClause) (act : Act load registries declaration scope after) :
    after.workspace.table.declaredBy document.uri address = scope.workspace.table.declaredBy document.uri address := by
  have sorted := attends.sound.sorted
  cases act with
  | calm calm => exact attends.declaredBy_calm honours calm address
  | field site free given bare =>
    refine SymbolTable.declaredBy_write sorted true fun here => absurd (congrArg SymbolPath.category here) apart
  | data defines type =>
    exact SymbolTable.declaredBy_write sorted false fun here => absurd (congrArg SymbolPath.category here) apart
  | object describes named cites => exact absurd describes kind

include honours idle apart in
/-- A declaration defines the objects that it describes. -/
theorem checkDeclaration_declaredBy (attends : Attends setup before document module scope) :
    (scope.checkDeclaration load setup declaration).workspace.table.declaredBy document.uri address =
      scope.workspace.table.declaredBy document.uri address ++
        definitionsOf document.uri address (declaration.described setup.registries) := by
  by_cases kind : declaration.kind = .describesClause
  · rw [Node.described, if_pos kind, Node.describes, checkDeclaration, kind]
    dsimp only
    rw [checkDescribes]
    cases declaration.child? .path with
    | none => simp [definitionsOf]
    | some path =>
      cases declaration.child? .registry with
      | none => simp [definitionsOf]
      | some registry =>
        dsimp only
        cases resourceName? setup.registries registry with
        | none => simp [definitionsOf]
        | some name =>
          dsimp only
          cases setup.registries.isKnown name with
          | false => simp [definitionsOf]
          | true =>
            have calm := (scope.resolvePath_calm load setup.limits path).1
            have onward := attends.calms honours idle calm
            have defined := enterObjects_declaredBy onward.sound.sorted name (scope.resolvePath load setup.limits path).1
              (describedObjects setup.registries declaration path) address
            rw [onward.place.1, attends.declaredBy_calms honours idle calm] at defined
            exact defined
  · rw [Node.described, if_neg kind]
    have acts : ReflTransGen (Act load setup.registries declaration) scope (scope.checkDeclaration load setup declaration) :=
      attends.checkDeclaration_acts honours idle
    have kept := attends.run honours idle
      (fun after => after.workspace.table.declaredBy document.uri address = scope.workspace.table.declaredBy document.uri address)
      Act.move (fun here _ act same => (here.declaredBy_act honours apart kind act).trans same) acts rfl
    rw [kept]
    exact (List.append_nil _).symm

include honours idle apart in
theorem declarations_declaredBy (attends : Attends setup before document module scope) (declarations : List Node) :
    (declarations.foldl (checkDeclaration load setup) scope).workspace.table.declaredBy document.uri address =
      scope.workspace.table.declaredBy document.uri address ++
        definitionsOf document.uri address (declarations.flatMap (Node.described setup.registries)) := by
  induction declarations generalizing scope with
  | nil => simp [definitionsOf]
  | cons declaration declarations ih =>
    have acts : ReflTransGen (Act load setup.registries declaration) scope (scope.checkDeclaration load setup declaration) :=
      attends.checkDeclaration_acts honours idle
    have onward := attends.moves honours idle (ReflTransGen.mono (fun _ _ => Act.move) _ _ acts)
    rw [List.foldl_cons, ih onward, attends.checkDeclaration_declaredBy honours idle apart, List.flatMap_cons, definitionsOf_append,
      List.append_assoc]

end Attends

variable {setup : Setup} {before : Workspace} {document : TextDocument} {load : Loader}

/-- A check defines exactly the objects that the text describes. -/
theorem endOf_declaredBy (honours : ∀ workspace uri, Honours setup workspace (load workspace uri).2) (sound : before.table.Sound)
    (needs : Needs setup before document.uri document) (module : ModulePath) {address : SymbolPath} (apart : address.category ≠ .schema) :
    (endOf load setup (fetch setup before document.uri).2.enter document module).workspace.table.declaredBy document.uri address =
      definitionsOf document.uri address ((parse document.text setup.trailing).node.objects setup.registries) := by
  have blank := waitedOf_keeps honours sound needs module
    (fun scope => scope.workspace.table.declaredBy document.uri address = [])
    (declaredBy_startOf sound.sorted setup document module address) (fun _ none => none)
    fun attends _ entry none =>
      (attends.declaredBy_entry honours entry fun key same => apart (congrArg SymbolPath.category same)).trans none
  rw [endOf_eq, (waitedOf_attends honours sound needs module).declarations_declaredBy honours needs.idle apart, blank,
    List.nil_append, Node.objects]

def DescriptionsFollow (trailing : TrailingPolicy) (registries : RegistrySettings) (uri : String) (record : FileRecord)
    (table : SymbolTable) : Prop :=
  ∀ module, table.moduleOfUri? uri = some module → ∀ address, address.category ≠ .schema →
    table.declaredBy uri address = definitionsOf uri address ((parse record.text trailing).node.objects registries)

theorem descriptionsFollow_lasting (setup : Setup) : Lasting setup (DescriptionsFollow setup.trailing setup.registries) := by
  constructor
  case clear =>
    intro table uri record other sound away follow module home address apart
    rw [SymbolTable.declaredBy_clearUri sound.sorted, if_neg away.symm]
    rw [sound.moduleOfUri?_clearUri] at home
    exact follow module home address apart
  case write =>
    intro scope uri record creates target written sound mine away follow module home address apart
    rw [SymbolTable.moduleOfUri?_congr (mine.entries sound creates)] at home
    refine (SymbolTable.declaredBy_write sound.sorted creates fun _ usage given => .inr ?_).trans (follow module home address apart)
    simp [Usage.isCheckedFrom, mine.place usage given, away]
  case alone =>
    intro table uri record stranger module home
    rw [stranger] at home
    cases home
  case ends =>
    intro load before document module record honours sound needs registered text errors other home address apart
    rw [text]
    exact endOf_declaredBy honours sound needs module apart

end Workspace

namespace SymbolTable

def describedAt (table : SymbolTable) (address : SymbolPath) : Option SymbolPath :=
  table.partAt (fun symbol => symbol.relations.describedBy) address

theorem describedAt_enter {table : SymbolTable} (sorted : Sorted table.symbols) {target : SymbolPath} (nonempty : target.path ≠ [])
    (record : SymbolRecord) :
    (table.enter target record).describedAt target = (record.relations.describedBy <|> table.describedAt target) := by
  rw [describedAt, describedAt, partAt, partAt, enter, lookup?_modify _ target record.apply fun _ => rfl, if_pos rfl,
    lookup?_ensure sorted nonempty, if_pos (self_mem_approach nonempty)]
  cases table.lookup? target <;> simp [SymbolRecord.apply]

/-- Behind a clearing an object is described only if it is still declared. -/
theorem describedAt_of_clearUri {table : SymbolTable} (sorted : Sorted table.symbols) {uri : String} {address target : SymbolPath}
    (described : (table.clearUri uri).describedAt address = some target) :
    table.describedAt address = some target ∧ (table.clearUri uri).isDeclaredAt address = true := by
  rw [isDeclaredAt, usagesAt_clearUri sorted, usagesAt]
  rw [describedAt, partAt] at described ⊢
  obtain same | ⟨gone, -⟩ := lookup?_clearUri sorted uri address
  · rw [same] at described
    cases found : table.lookup? address with
    | none => simp [found] at described
    | some symbol =>
      rw [found, Option.map_some, Option.bind_some, Symbol.clearUri, Symbol.settle] at described
      split at described
      · next declared => exact ⟨described, declared⟩
      · cases described
  · rw [gone] at described
    cases described

end SymbolTable

namespace Workspace

open Scope

structure Leaves (address : SymbolPath) (scope after : Scope) : Prop where
  records : after.workspace.records = scope.workspace.records
  declarations : after.workspace.table.declarationsAt address = scope.workspace.table.declarationsAt address
  described : after.workspace.table.describedAt address = scope.workspace.table.describedAt address
  usages : ∀ {other usage}, usage ∈ scope.workspace.table.usagesAt other → usage ∈ after.workspace.table.usagesAt other

theorem leaves_write {scope : Scope} (sorted : Sorted scope.workspace.table.symbols) (creates : Bool) {target address : SymbolPath}
    {record : SymbolRecord} (quiet : address = target →
      (∀ usage ∈ record.usage, usage.kind = .reference) ∧ record.relations.describedBy = none) :
    Leaves address scope (scope.write creates target record) := by
  refine ⟨rfl, ?_, ?_, fun {other usage} member => ?_⟩
  · obtain ⟨added, appended, given⟩ := SymbolTable.usagesAt_write sorted creates target record address
    have nothing : added.filter (fun usage => usage.kind.isDeclaring) = [] := by
      refine List.filter_eq_nil_iff.mpr fun usage new => ?_
      obtain ⟨here, written⟩ := given usage new
      simp [(quiet here).1 usage written, UsageKind.isDeclaring]
    change (SymbolTable.usagesAt (if creates then _ else _) address).filter _ = _
    rw [appended, List.filter_append, nothing, List.append_nil]
    rfl
  · exact SymbolTable.partAt_write sorted creates target record (fun _ => rfl) fun here symbol => by
      simp [SymbolRecord.apply, (quiet here).2]
  · exact SymbolTable.usagesAt_subset_write sorted creates target record other member

/-- What an act of a check does to an object: it may load, or describe the object, or leave it alone. -/
theorem Deed.object_cases {setup : Setup} {before : Workspace} {document : TextDocument} {module : ModulePath} {scope after : Scope}
    {load : Loader} {registries : RegistrySettings} {declarations : List Node} {address : SymbolPath}
    (attends : Attends setup before document module scope) (apart : address.category ≠ .schema)
    (deed : Deed load registries declarations scope after) :
    (∃ uri, after.workspace = (load scope.workspace uri).2) ∨
      (∃ declaration ∈ declarations, ∃ span target, declaration.kind = .describesClause ∧
        (address, span) ∈ declaration.describes registries ∧ (∀ found ∈ target, scope.Cites declaration found) ∧
        after = scope.write true address (scope.objectRecord span target)) ∨
      Leaves address scope after := by
  have sorted := attends.sound.sorted
  have elsewhere : ∀ {target : SymbolPath}, target.category = .schema → address ≠ target := by
    rintro target schema rfl
    exact apart schema
  have calmly : ∀ {after}, Calm load scope after → (∃ uri, after.workspace = (load scope.workspace uri).2) ∨ Leaves address scope after := by
    intro after calm
    cases calm with
    | add diagnostic => exact .inr ⟨rfl, rfl, rfl, fun member => member⟩
    | load away => exact .inl ⟨_, rfl⟩
    | refer creates target span renamable =>
      exact .inr (leaves_write sorted creates fun _ => ⟨fun usage given => by cases given; rfl, rfl⟩)
  rcases deed with entry | ⟨declaration, member, act⟩
  · cases entry with
    | calm calm => exact (calmly calm).imp_right .inr
    | declare mine => exact .inr (.inr (leaves_write sorted true fun here => absurd here (elsewhere rfl)))
    | module path span full => exact .inr (.inr (leaves_write sorted false fun here => absurd here (elsewhere rfl)))
  · cases act with
    | calm calm => exact (calmly calm).imp_right .inr
    | field site free given bare => exact .inr (.inr (leaves_write sorted true fun here => absurd here (elsewhere rfl)))
    | data defines type => exact .inr (.inr (leaves_write sorted false fun here => absurd here (elsewhere rfl)))
    | @object other span target kind named cites =>
      by_cases here : address = other
      · subst here
        exact .inr (.inl ⟨declaration, member, span, target, kind, named, cites, rfl⟩)
      · exact .inr (.inr (leaves_write sorted true fun same => absurd same here))

def ObjectsRegistered (workspace : Workspace) : Prop :=
  ∀ address, address.category ≠ .schema → ∀ usage ∈ workspace.table.declarationsAt address,
    ∃ module, workspace.table.moduleOfUri? usage.location.uri = some module

theorem ObjectsRegistered.conclude {workspace : Workspace} (registered : workspace.ObjectsRegistered) (uri : String) (node : Node)
    (errors : List Diagnostic) (dependencies : List String) :
    (workspace.conclude uri node errors dependencies).leave.ObjectsRegistered := registered

theorem objectsRegistered_enduring (setup : Setup) : Enduring setup ObjectsRegistered := by
  constructor
  case rest =>
    intro workspace other _ table _ registered
    rw [ObjectsRegistered, table]
    exact registered
  case start =>
    intro before document module sound needs registered address apart usage member
    rw [table_startOf, SymbolTable.declarationsAt, List.mem_filter, SymbolTable.usagesAt_clearUri sound.sorted] at member
    rw [table_startOf, sound.moduleOfUri?_clearUri]
    exact registered address apart usage (List.mem_filter.mpr ⟨List.mem_of_mem_filter member.1, member.2⟩)
  case step =>
    intro load before document module scope after attends onward home _ deed loads registered address apart usage member
    have same := SymbolTable.moduleOfUri?_congr (onward.entries.trans attends.entries.symm)
    rcases deed.object_cases attends apart with ⟨uri, loaded⟩ | ⟨declaration, -, span, target, -, -, -, rfl⟩ | leaves
    · rw [loaded] at member ⊢
      exact loads uri address apart usage member
    · rw [same]
      rw [SymbolTable.declarationsAt, List.mem_filter] at member
      rcases SymbolTable.usagesAt_of_write attends.sound.sorted true _ _ member.1 with old | ⟨-, new⟩
      · exact registered address apart usage (List.mem_filter.mpr ⟨old, member.2⟩)
      · cases new
        rw [SymbolTable.moduleOfUri?_congr attends.entries]
        refine ⟨module, ?_⟩
        change before.table.moduleOfUri? scope.uri = some module
        rw [attends.place.1, home]
    · rw [same]
      exact registered address apart usage (leaves.declarations ▸ member)
  case checking => exact fun _ registered => registered
  case alone => exact fun _ _ _ registered => registered.conclude _ _ _ _
  case ends => exact fun _ _ _ _ registered => registered.conclude _ _ _ _

/-- Of the documents of all modules only the owner describes the object. -/
def DescribedOnlyIn (setup : Setup) (owner : String) (address : SymbolPath) (workspace : Workspace) : Prop :=
  ∀ uri ∈ workspace.moduleDocuments, uri ≠ owner → ∀ document, provided setup workspace uri = .ok document →
    ∀ object ∈ (parse document.text setup.trailing).node.objects setup.registries, object.1 ≠ address

theorem DescribedOnlyIn.congr {setup : Setup} {owner : String} {address : SymbolPath} {workspace other : Workspace}
    (only : DescribedOnlyIn setup owner address other) (entries : other.table.entries = workspace.table.entries)
    (provides : ∀ uri, provided setup other uri = provided setup workspace uri) :
    DescribedOnlyIn setup owner address workspace := by
  intro uri listed away document provided
  rw [mem_moduleDocuments, ← SymbolTable.moduleOfUri?_congr entries, ← mem_moduleDocuments] at listed
  exact only uri listed away document ((provides uri).trans provided)

/-- A describes clause names the object, and its path leads to the target: there its last segment is a reference. -/
def Names (registries : RegistrySettings) (table : SymbolTable) (owner : String) (root : Node) (address target : SymbolPath) : Prop :=
  ∃ clause ∈ root.children, clause.kind = .describesClause ∧ (∃ span, (address, span) ∈ clause.describes registries) ∧
    ∃ path name span, clause.child? .path = some path ∧ (pathSegments path).getLast? = some (name, span) ∧
      { kind := .reference, location := ⟨owner, span⟩ } ∈ table.usagesAt target

theorem Names.mono {registries : RegistrySettings} {table after : SymbolTable} {owner : String} {root : Node}
    {address target : SymbolPath} (names : Names registries table owner root address target)
    (kept : ∀ usage ∈ table.usagesAt target, usage.isCheckedFrom owner = true → usage ∈ after.usagesAt target) :
    Names registries after owner root address target := by
  obtain ⟨clause, listed, kind, named, path, name, span, found, last, member⟩ := names
  exact ⟨clause, listed, kind, named, path, name, span, found, last, kept _ member (by simp [Usage.isCheckedFrom])⟩

/-- The object is declared by its owner, and described by what a clause of the owner's text leads to. -/
structure Recalls (setup : Setup) (owner : String) (address : SymbolPath) (workspace : Workspace) : Prop where
  sole : ∀ usage ∈ workspace.table.declarationsAt address, usage.isCheckedFrom owner = true
  names : ∀ record, workspace.record? owner = some record → record.state ≠ .unparsed →
    ∀ target, workspace.table.describedAt address = some target →
      Names setup.registries workspace.table owner (parse record.text setup.trailing).node address target

namespace Recalls

variable {setup : Setup} {owner : String} {address : SymbolPath} {workspace other before : Workspace} {document : TextDocument}

theorem congr (recalls : Recalls setup owner address workspace) (table : other.table = workspace.table)
    (records : ∀ record, other.record? owner = some record → record.state ≠ .unparsed →
      ∃ earlier, workspace.record? owner = some earlier ∧ earlier.state ≠ .unparsed ∧ earlier.text = record.text) :
    Recalls setup owner address other := by
  refine ⟨table ▸ recalls.sole, fun record found state target described => ?_⟩
  obtain ⟨earlier, known, parsed, text⟩ := records record found state
  rw [table] at described ⊢
  exact text ▸ recalls.names earlier known parsed target described

theorem takeUp (recalls : Recalls setup owner address before) (sound : before.table.Sound) (entered : Workspace)
    (table : entered.table = before.table) (records : entered.records = before.records) (document : TextDocument)
    (errors : List Diagnostic) :
    Recalls setup owner address (entered.takeUp document errors) := by
  have cleared : (entered.takeUp document errors).table = before.table.clearUri document.uri := by rw [← table]; rfl
  have usages := SymbolTable.usagesAt_clearUri sound.sorted document.uri
  have sole : ∀ usage ∈ (before.table.clearUri document.uri).declarationsAt address, usage.isCheckedFrom owner = true := by
    intro usage member
    rw [SymbolTable.declarationsAt, usages, List.mem_filter] at member
    exact recalls.sole usage (List.mem_filter.mpr ⟨List.mem_of_mem_filter member.1, member.2⟩)
  refine ⟨cleared ▸ sole, fun record found state target described => ?_⟩
  rw [cleared] at described ⊢
  obtain ⟨earlier, declared⟩ := SymbolTable.describedAt_of_clearUri sound.sorted described
  rw [record?_takeUp] at found
  split at found
  · next same =>
    obtain ⟨usage, member, declaring⟩ := List.any_eq_true.mp declared
    have own := sole usage (List.mem_filter.mpr ⟨member, declaring⟩)
    rw [usages, List.mem_filter] at member
    rw [same] at own
    simp [own] at member
  · next away =>
    rw [record?, records] at found
    refine (recalls.names record found state target earlier).mono fun usage member own => ?_
    rw [usages, List.mem_filter]
    exact ⟨member, by rw [SymbolTable.isCheckedFrom_apart own away]; rfl⟩

theorem modifyRecord (recalls : Recalls setup owner address workspace) {uri : String} (progress : workspace.InProgress uri)
    (change : FileRecord → FileRecord) (text : ∀ record, (change record).text = record.text) :
    Recalls setup owner address (workspace.modifyRecord uri change) := by
  refine recalls.congr rfl fun record found state => ?_
  rw [record?_modifyRecord] at found
  split at found
  · next same =>
    obtain ⟨earlier, known, rfl⟩ := Option.map_eq_some_iff.mp found
    refine ⟨earlier, known, fun unparsed => ?_, (text earlier).symm⟩
    obtain ⟨current, here, going⟩ := inProgress_iff.mp progress
    cases (same ▸ known).symm.trans here
    rw [unparsed] at going
    cases going
  · exact ⟨record, found, state, rfl⟩

section Step

variable {module : ModulePath} {scope after : Scope} (attends : Attends setup before document module scope)

include attends in
theorem describe (recalls : Recalls setup owner address scope.workspace) (own : document.uri = owner) {declaration : Node}
    (member : declaration ∈ (parse document.text setup.trailing).node.children) {span : Span} {target : Option SymbolPath}
    (kind : declaration.kind = .describesClause) (named : (address, span) ∈ declaration.describes setup.registries)
    (cites : ∀ found ∈ target, scope.Cites declaration found) :
    Recalls setup owner address (scope.write true address (scope.objectRecord span target)).workspace := by
  have sorted := attends.sound.sorted
  have grows : ∀ {other usage}, usage ∈ scope.workspace.table.usagesAt other →
      usage ∈ (scope.write true address (scope.objectRecord span target)).workspace.table.usagesAt other :=
    fun listed => SymbolTable.usagesAt_subset_write sorted true address _ _ listed
  constructor
  case sole =>
    intro usage listed
    rw [SymbolTable.declarationsAt, List.mem_filter] at listed
    rcases SymbolTable.usagesAt_of_write sorted true _ _ listed.1 with old | ⟨-, new⟩
    · exact recalls.sole usage (List.mem_filter.mpr ⟨old, listed.2⟩)
    · cases new
      simp [Usage.isCheckedFrom, attends.locate, own]
  case names =>
    intro record found state goal described
    obtain ⟨registry, object, rfl⟩ := Node.isObject_of_describes named
    have now : (scope.workspace.table.enter ⟨.description registry, [object]⟩ (scope.objectRecord span target)).describedAt
        ⟨.description registry, [object]⟩ = _ := SymbolTable.describedAt_enter sorted (List.cons_ne_nil _ _) _
    have described := now.symm.trans described
    cases target with
    | none => exact (recalls.names record found state goal described).mono fun usage listed _ => grows listed
    | some link =>
      obtain rfl : link = goal := Option.some.inj described
      obtain ⟨current, -, here⟩ := attends.underway.record
      rw [own] at here
      cases here.symm.trans found
      obtain ⟨path, name, place, path?, last, listed⟩ := cites link rfl
      rw [attends.locate, own] at listed
      exact ⟨declaration, member, kind, ⟨span, named⟩, path, name, place, path?, last, grows listed⟩

theorem leave (recalls : Recalls setup owner address scope.workspace) (leaves : Leaves address scope after) :
    Recalls setup owner address after.workspace := by
  refine ⟨leaves.declarations ▸ recalls.sole, fun record found state target described => ?_⟩
  rw [record?, leaves.records] at found
  rw [leaves.described] at described
  exact (recalls.names record found state target described).mono fun usage listed _ => leaves.usages listed

end Step

theorem enduring (setup : Setup) (owner : String) {address : SymbolPath} (apart : address.category ≠ .schema) :
    Enduring setup fun workspace => DescribedOnlyIn setup owner address workspace → Recalls setup owner address workspace := by
  have within : ∀ {before document module scope}, Attends setup before document module scope →
      ∀ uri, provided setup scope.workspace uri = provided setup before uri := by
    intro before document module scope attends
    obtain ⟨taken, -, advances⟩ := attends.underway.advances
    exact advances.provides
  have concluded : ∀ {workspace : Workspace} {uri}, workspace.InProgress uri →
      (DescribedOnlyIn setup owner address workspace → Recalls setup owner address workspace) → ∀ node errors dependencies,
      DescribedOnlyIn setup owner address (workspace.conclude uri node errors dependencies).leave →
      Recalls setup owner address (workspace.conclude uri node errors dependencies).leave := by
    intro workspace uri progress good node errors dependencies only
    have noted := (good only).modifyRecord progress
      (fun record => { record with state := .checked, node := some node, errors, dependencies }) fun _ => rfl
    exact noted.congr rfl fun record found state => ⟨record, found, state, rfl⟩
  constructor
  case rest =>
    intro workspace other provides table records good only
    refine (good (only.congr (by rw [table]) provides)).congr table fun record found state => ⟨record, ?_, state, rfl⟩
    rwa [record?, records] at found
  case start =>
    intro before document module sound needs good only
    have start := Attends.start sound needs module
    have recalls := good (only.congr start.entries (within start))
    obtain ⟨documents, fetched⟩ := fetch_snd setup before document.uri
    rw [fetched]
    exact recalls.takeUp sound { before with documents }.enter rfl rfl document _
  case step =>
    intro load before document module scope after attends onward home provides deed loads good only
    have before := only.congr onward.entries (within onward)
    have recalls := good (only.congr (onward.entries.trans attends.entries.symm)
      fun uri => (within onward uri).trans (within attends uri).symm)
    rcases deed.object_cases attends apart with ⟨uri, loaded⟩ | ⟨declaration, member, span, target, kind, named, cites, rfl⟩ | leaves
    · rw [loaded] at only ⊢
      exact loads uri only
    · refine recalls.describe attends (Classical.byContradiction fun away => ?_) member kind named cites
      have listed : (address, span) ∈ (parse document.text setup.trailing).node.objects setup.registries :=
        List.mem_flatMap.mpr ⟨declaration, member, by rwa [Node.described, if_pos kind]⟩
      exact before document.uri (mem_moduleDocuments.mpr ⟨module, home⟩) away document provides _ listed rfl
    · exact recalls.leave leaves
  case checking =>
    intro before document module scope attends good only
    exact (good only).modifyRecord (attends.place.1 ▸ attends.progress) (fun record => { record with state := .checking }) fun _ => rfl
  case alone =>
    intro before document errors sound needs _ taken good
    exact concluded (Attends.start sound needs .root).progress good _ _ _
  case ends =>
    intro load before document module honours sound needs _ last good
    exact concluded (endOf_attends honours sound needs module).progress good _ _ _

end Recalls

/-- The workspaces of a session in which at every check the object is described by one document only. -/
inductive SoloSession (base : Setup) (layout : Layout) (scanned : FileTree) (owner : String) (address : SymbolPath) :
    Workspace → Prop where
  | new (documents : Documents) :
      SoloSession base layout scanned owner address { (registerLayout {} layout scanned).2 with documents }
  | edit {workspace} (earlier : SoloSession base layout scanned owner address workspace) (documents : Documents) :
      SoloSession base layout scanned owner address { workspace with documents }
  | check {workspace} (earlier : SoloSession base layout scanned owner address workspace) (files : FileTree)
      (only : DescribedOnlyIn (base.over files) owner address workspace) (uri : String) :
      SoloSession base layout scanned owner address (ensureChecked (base.over files) workspace uri).2
  | checkAll {workspace} (earlier : SoloSession base layout scanned owner address workspace) (files : FileTree)
      (only : DescribedOnlyIn (base.over files) owner address workspace) :
      SoloSession base layout scanned owner address (workspace.checkAll (base.over files)).2
  | invalidate {workspace} (earlier : SoloSession base layout scanned owner address workspace) (uri : String) :
      SoloSession base layout scanned owner address (workspace.invalidate uri).2

namespace SoloSession

variable {base : Setup} {layout : Layout} {scanned : FileTree} {owner : String} {address : SymbolPath} {workspace : Workspace}

theorem session (solo : SoloSession base layout scanned owner address workspace) : Session base layout scanned workspace := by
  induction solo with
  | new documents => exact .new documents
  | edit _ documents ih => exact ih.edit documents
  | check _ files _ uri ih => exact ih.check files uri
  | checkAll _ files _ ih => exact ih.checkAll files
  | invalidate _ uri ih => exact ih.invalidate uri

theorem recalls (apart : address.category ≠ .schema) (solo : SoloSession base layout scanned owner address workspace) :
    Recalls base owner address workspace := by
  have load : ∀ files (workspace : Workspace) (uri : String), workspace.table.Sound ∧
      DescribedOnlyIn (base.over files) owner address workspace ∧ Recalls base owner address workspace →
      (ensureChecked (base.over files) workspace uri).2.table.Sound ∧
        DescribedOnlyIn (base.over files) owner address (ensureChecked (base.over files) workspace uri).2 ∧
        Recalls base owner address (ensureChecked (base.over files) workspace uri).2 := by
    rintro files workspace uri ⟨sound, only, recalls⟩
    have honours := ensureChecked_honours (base.over files) workspace uri
    obtain ⟨taken, advances⟩ := honours.loads.advances
    have still : DescribedOnlyIn (base.over files) owner address (ensureChecked (base.over files) workspace uri).2 :=
      only.congr (honours.entries sound).symm fun uri => (advances.provides uri).symm
    have kept := ((Recalls.enduring (base.over files) owner apart).ensureChecked workspace uri
      ⟨sound, fun _ => ⟨recalls.sole, recalls.names⟩⟩).2 still
    exact ⟨honours.sound sound, still, kept.sole, kept.names⟩
  induction solo with
  | new documents =>
    refine ⟨fun usage member => ?_, fun record found => by cases found⟩
    obtain ⟨-, path, -, here⟩ := (laidAlone_register fun entry member => Layout.plain_of_modulesOf member).usages address usage
      (List.mem_of_mem_filter member)
    exact absurd (congrArg SymbolPath.category here) apart
  | edit _ documents ih => exact ih.congr rfl fun record found state => ⟨record, found, state, rfl⟩
  | check earlier files only uri ih => exact (load files _ uri ⟨earlier.session.sound.1, only, ih⟩).2.2
  | checkAll earlier files only ih => exact (checkUris_keeps (load files) _ ⟨earlier.session.sound.1, only, ih⟩).2.2
  | @invalidate workspace _ uri ih =>
    refine ih.congr rfl fun record found state => ?_
    rw [record?_invalidate] at found
    split at found
    · obtain ⟨earlier, -, rfl⟩ := Option.map_eq_some_iff.mp found
      exact absurd rfl state
    · exact ⟨record, found, state, rfl⟩

end SoloSession

theorem Session.objectsRegistered {base : Setup} {layout : Layout} {scanned : FileTree} {workspace : Workspace}
    (session : Session base layout scanned workspace) : workspace.ObjectsRegistered := by
  refine session.endures (fun files => objectsRegistered_enduring (base.over files)) (fun documents => ?_)
    (fun _ _ registered => registered) fun _ _ _ registered => registered
  intro address apart usage member
  obtain ⟨-, path, -, here⟩ := (laidAlone_register fun entry member => Layout.plain_of_modulesOf member).usages address usage
    (List.mem_of_mem_filter member)
  exact absurd (congrArg SymbolPath.category here) apart

/-- Throughout a session, behind a check of all documents, objects are defined in documents of modules, by each of them
once for each time that its text describes the object, in order. If only one document has ever described the object,
what it is described by is what a clause in the text of that document leads to. -/
theorem descriptions_follow_text {base : Setup} {layout : Layout} {scanned : FileTree} {workspace : Workspace}
    (session : Session base layout scanned workspace) (files : FileTree) {address : SymbolPath} (apart : address.category ≠ .schema) :
    let checked := workspace.checkAll (base.over files)
    (∀ usage ∈ checked.2.table.declarationsAt address, usage.location.uri ∈ checked.2.moduleDocuments) ∧
      (∀ uri document, (uri, none) ∈ checked.1 → provided (base.over files) checked.2 uri = .ok document →
        (checked.2.table.declarationsAt address).filter (fun usage => usage.location.uri == uri) =
          definitionsOf uri address ((parse document.text base.trailing).node.objects base.registries)) ∧
      ∀ owner document, SoloSession base layout scanned owner address workspace →
        DescribedOnlyIn (base.over files) owner address workspace → (owner, none) ∈ checked.1 →
        provided (base.over files) checked.2 owner = .ok document → ∀ target,
        checked.2.table.describedAt address = some target →
          Names base.registries checked.2.table owner (parse document.text base.trailing).node address target := by
  intro checked
  have after : Session base layout scanned checked.2 := session.checkAll files
  have current : ∀ {uri document}, (uri, none) ∈ checked.1 → provided (base.over files) checked.2 uri = .ok document →
      ∃ record, checked.2.record? uri = some record ∧ record.state = .checked ∧ record.text = document.text := by
    intro uri document answered provides
    have settled : checked.2.Current (base.over files) uri := checkUris_current answered
    obtain ⟨_, record, also, found, current⟩ := settled
    cases provides.symm.trans also
    obtain ⟨state, -, text⟩ := FileRecord.state_of_isCurrent current
    exact ⟨record, found, state, text⟩
  refine ⟨fun usage member => ?_, fun uri document answered provides => ?_,
    fun owner document solo only answered provides target described => ?_⟩
  · exact mem_moduleDocuments.mpr (after.objectsRegistered address apart usage member)
  · obtain ⟨record, found, state, text⟩ := current answered provides
    have notes : checked.2.Notes (DescriptionsFollow base.trailing base.registries) :=
      after.notes fun files => descriptionsFollow_lasting (base.over files)
    have asked : checked.1.map Prod.fst = sortedUnique workspace.moduleDocuments := checkUris_uris (base.over files) workspace _
    have listed : uri ∈ sortedUnique workspace.moduleDocuments := asked ▸ List.mem_map_of_mem answered
    obtain ⟨module, home⟩ := mem_moduleDocuments.mp (mem_sortedUnique.mp listed)
    rw [← SymbolTable.moduleOfUri?_congr (after.sound.2.trans session.sound.2.symm)] at home
    rw [after.sound.1.declarationsAt_filter fun key same => apart (congrArg SymbolPath.category same), ← text]
    exact notes uri record found state module home address apart
  · obtain ⟨record, found, state, text⟩ := current answered provides
    have recalls := (solo.checkAll files only).recalls apart
    exact text ▸ recalls.names record found (by rw [state]; nofun) target described

theorem describedOnlyIn_pair {setup : Setup} {address : SymbolPath} {workspace : Workspace} (right : TextDocument)
    (modules : workspace.moduleDocuments = ["file:///a.sdoc", "file:///b.sdoc"])
    (provides : provided setup workspace "file:///b.sdoc" = .ok right)
    (silent : ∀ object ∈ (parse right.text setup.trailing).node.objects setup.registries, object.1 ≠ address) :
    DescribedOnlyIn setup "file:///a.sdoc" address workspace := by
  intro uri listed away document provided
  rw [modules] at listed
  obtain rfl : uri = "file:///b.sdoc" := by simpa [away] using listed
  cases provides.symm.trans provided
  exact silent

theorem editedWorkspace_soloSession {owner left right : String} {address : SymbolPath} (edited : String)
    (only : DescribedOnlyIn (({} : Setup).over {}) owner address (pairWorkspace left right)) :
    SoloSession {} pairLayout pairFiles owner address (editedWorkspace left right edited) := by
  have begun : SoloSession {} pairLayout pairFiles owner address (pairWorkspace left right) := by
    have new : SoloSession {} pairLayout pairFiles owner address _ :=
      .new { opened := [⟨"file:///a.sdoc", 1, left⟩, ⟨"file:///b.sdoc", 1, right⟩] }
    rw [registerLayout_pair] at new
    exact new
  exact ((begun.checkAll {} only).edit
    { opened := [⟨"file:///a.sdoc", 2, edited⟩, ⟨"file:///b.sdoc", 1, right⟩] }).invalidate "file:///a.sdoc"

/-- The text of `::a` describes the object by another type, and once more by one that there is not. -/
theorem descriptions_follow_text_edited :
    let address : SymbolPath := ⟨.description "core:item", ["core:x"]⟩
    let left := "struct S {} S describes item[x];"
    let right := "struct R {} R describes item[y];"
    let text := "struct T {} T describes item[x, y]; Missing describes item[x];"
    let workspace := editedWorkspace left right text
    Session {} pairLayout pairFiles workspace ∧
      SoloSession {} pairLayout pairFiles "file:///a.sdoc" address workspace ∧
      DescribedOnlyIn (({} : Setup).over {}) "file:///a.sdoc" address workspace ∧
      (((workspace.checkAll (({} : Setup).over {})).2.table.declarationsAt address).filter
        fun usage => usage.location.uri == "file:///a.sdoc").map (fun usage => usage.location.span) = [⟨29, 30⟩, ⟨59, 60⟩] ∧
      Names {} (workspace.checkAll (({} : Setup).over {})).2.table "file:///a.sdoc" (parse text .allowed).node address
        (.schema "::a::T") := by
  intro address left right text workspace
  have silent : ∀ object ∈ (parse right .allowed).node.objects {}, object.1 ≠ address := by decide +kernel
  have solo : SoloSession {} pairLayout pairFiles "file:///a.sdoc" address workspace := editedWorkspace_soloSession text
    (describedOnlyIn_pair ⟨"file:///b.sdoc", 1, right⟩ (by decide +kernel) (by decide +kernel) silent)
  have only : DescribedOnlyIn (({} : Setup).over {}) "file:///a.sdoc" address workspace :=
    describedOnlyIn_pair ⟨"file:///b.sdoc", 1, right⟩ (by decide +kernel) (by decide +kernel) silent
  have facts : ("file:///a.sdoc", none) ∈ (workspace.checkAll (({} : Setup).over {})).1 ∧
      provided (({} : Setup).over {}) (workspace.checkAll (({} : Setup).over {})).2 "file:///a.sdoc" =
        .ok ⟨"file:///a.sdoc", 2, text⟩ ∧
      (workspace.checkAll (({} : Setup).over {})).2.table.describedAt address = some (.schema "::a::T") := by decide +kernel
  obtain ⟨answered, provides, described⟩ := facts
  obtain ⟨-, defined, names⟩ := descriptions_follow_text solo.session {} (by decide : address.category ≠ .schema)
  have named := names "file:///a.sdoc" ⟨"file:///a.sdoc", 2, text⟩ solo only answered provides (.schema "::a::T") described
  have twice := defined "file:///a.sdoc" ⟨"file:///a.sdoc", 2, text⟩ answered provides
  refine ⟨solo.session, solo, only, ?_, named⟩
  rw [twice]
  decide +kernel

/-- The only clause that is left is that of `::b`, which leads nowhere. The object is still described by what the clause
led to that `::a` had before. -/
theorem description_outlives_its_clause :
    let address : SymbolPath := ⟨.description "core:item", ["core:x"]⟩
    let right := "Missing describes item[x];"
    let workspace := editedWorkspace "struct S {} S describes item[x];" right "struct S {}"
    Session {} pairLayout pairFiles workspace ∧
      (workspace.checkAll {}).1 = [("file:///a.sdoc", none), ("file:///b.sdoc", none)] ∧
      (parse "struct S {}" .allowed).node.objects {} = [] ∧ (parse right .allowed).node.objects {} = [(address, ⟨23, 24⟩)] ∧
      ((workspace.checkAll {}).2.table.declarationsAt address).map Usage.location = [⟨"file:///b.sdoc", ⟨23, 24⟩⟩] ∧
      ((workspace.checkAll {}).2.diagnostics "file:///b.sdoc").map Diagnostic.span = [⟨0, 7⟩] ∧
      (workspace.checkAll {}).2.table.describedAt address = some (.schema "::a::S") ∧
      ((pairWorkspace "struct S {}" right).checkAll {}).2.table.describedAt address = none := by
  intro address right workspace
  exact ⟨editedWorkspace_session _ _ _, by decide +kernel⟩

end Workspace

end SchemaDoc
