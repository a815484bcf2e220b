import SchemaDoc.Proofs.LastingOutcomes
import SchemaDoc.Proofs.ReportedResolutions

/-! The fields of a struct follow its text: the first pair of each name is listed, in order, if it has a type. A
pair is passed over only where another document entered a member of that name before, and then a warning says so. -/

namespace SchemaDoc

open Relation

/-- The type without what its references lead to. -/
def SchemaType.unlinked : SchemaType → SchemaType
  | .list item => .list item.unlinked
  | .optional inner => .optional inner.unlinked
  | .reference _ => .reference none
  | type => type

namespace Node

mutual

/-- The type that an expression stands for, with nothing looked up. -/
def typeShape : Node → SchemaType
  | ⟨kind, _, _, children⟩ =>
    match kind with
    | .primitiveType primitive => .primitive primitive
    | .listType => .list (innerShape children)
    | .optionalType => .optional (innerShape children)
    | .literalType =>
      (((children.find? fun child => child.role == some .value).bind literalValue?).map SchemaType.literal).getD .any
    | .referenceType => .reference none
    | _ => .any

def innerShape : List Node → SchemaType
  | [] => .any
  | child :: children => if child.role = some .type then child.typeShape else innerShape children

end

def field? (pair : Node) : Option (String × Option SchemaType) :=
  (pair.child? .key).bind fun key => key.textValue?.map fun name => (name, (pair.child? .value).map typeShape)

end Node

mutual

theorem Scope.typeData_unlinked (load : Loader) (limits : Limits) (node : Node) (scope : Scope) :
    (typeData load limits node scope).1.unlinked = node.typeShape := by
  cases node with
  | mk kind span role children =>
    cases kind with
    | listType => exact congrArg SchemaType.list (innerType_unlinked load limits children scope)
    | optionalType => exact congrArg SchemaType.optional (innerType_unlinked load limits children scope)
    | literalType =>
      simp only [typeData, Node.typeShape]
      cases (children.find? fun child => child.role == some .value).bind Node.literalValue? <;> rfl
    | referenceType =>
      simp only [typeData, Node.typeShape]
      split <;> rfl
    | _ => rfl
termination_by structural node

theorem Scope.innerType_unlinked (load : Loader) (limits : Limits) (nodes : List Node) (scope : Scope) :
    (innerType load limits nodes scope).1.unlinked = Node.innerShape nodes := by
  cases nodes with
  | nil => rfl
  | cons node nodes =>
    rw [innerType, Node.innerShape]
    split
    · exact typeData_unlinked load limits node scope
    · exact innerType_unlinked load limits nodes scope
termination_by structural nodes

end

theorem Scope.fieldType_unlinked (load : Loader) (limits : Limits) (scope : Scope) (pair : Node) :
    (scope.fieldType load limits pair).1.map SchemaType.unlinked = (pair.child? .value).map Node.typeShape := by
  rw [fieldType]
  cases pair.child? .value with
  | none => rfl
  | some value => exact congrArg some (typeData_unlinked load limits value scope)

def noteFirst (noted : List (String × Option SchemaType)) (field : String × Option SchemaType) :
    List (String × Option SchemaType) :=
  if field.1 ∈ noted.map Prod.fst then noted else noted ++ [field]

def firstFields (pairs : List Node) : List (String × Option SchemaType) := (pairs.filterMap Node.field?).foldl noteFirst []

/-- The fields that a struct of these pairs has: the first of each name, if it has a type. -/
def typedFields (pairs : List Node) : List (String × SchemaType) :=
  (firstFields pairs).filterMap fun field => field.2.map fun type => (field.1, type)

theorem firstFields_append (pairs : List Node) (pair : Node) :
    firstFields (pairs ++ [pair]) = pair.field?.elim (firstFields pairs) (noteFirst (firstFields pairs)) := by
  rw [firstFields, List.filterMap_append, List.foldl_append, ← firstFields]
  cases field : pair.field? <;> simp [field]

/-- The pair has a name that another document entered before, as a warning says. -/
def Displaced (uri : String) (told : List Diagnostic) (pair : Node) : Prop :=
  ∃ key name first, pair.child? .key = some key ∧ key.textValue? = some name ∧ first.location.uri ≠ uri ∧
    repeated name key.span first ∈ told

/-- What remains of pairs: all but some that are displaced. -/
inductive Remains (uri : String) (told : List Diagnostic) : List Node → List Node → Prop where
  | nil : Remains uri told [] []
  | keep {pairs rest} (earlier : Remains uri told pairs rest) (pair : Node) : Remains uri told (pairs ++ [pair]) (rest ++ [pair])
  | drop {pairs rest pair} (earlier : Remains uri told pairs rest) (displaced : Displaced uri told pair) :
      Remains uri told (pairs ++ [pair]) rest

namespace Remains

variable {uri : String} {told more : List Diagnostic} {pairs rest : List Node}

theorem mono (grows : told ⊆ more) (remains : Remains uri told pairs rest) : Remains uri more pairs rest := by
  induction remains with
  | nil => exact .nil
  | keep _ pair ih => exact ih.keep pair
  | drop _ displaced ih =>
    obtain ⟨key, name, first, found, text, elsewhere, warned⟩ := displaced
    exact ih.drop ⟨key, name, first, found, text, elsewhere, grows warned⟩

theorem eq_of_none (remains : Remains uri told pairs rest) (none : ∀ pair ∈ pairs, ¬Displaced uri told pair) : rest = pairs := by
  induction remains with
  | nil => rfl
  | keep _ pair ih => rw [ih fun other member => none other (List.mem_append_left _ member)]
  | drop _ displaced _ => exact absurd displaced (none _ (List.mem_append_right _ (List.mem_singleton_self _)))

end Remains

/-- The contents of a struct with this body, as the document is told. -/
def Fills (uri : String) (told : List Diagnostic) (body : Node) (data : Option SchemaType) : Prop :=
  ∃ fields rest, data = some (.struct fields) ∧ Remains uri told body.children rest ∧
    fields.map (fun field => (field.1, field.2.unlinked)) = typedFields rest

theorem Fills.mono {uri : String} {told more : List Diagnostic} {body : Node} {data : Option SchemaType} (grows : told ⊆ more)
    (fills : Fills uri told body data) : Fills uri more body data := by
  obtain ⟨fields, rest, filled, remains, same⟩ := fills
  exact ⟨fields, rest, filled, remains.mono grows, same⟩

theorem Scope.Move.errors_subset {load : Loader} {scope after : Scope} (move : Scope.Move load scope after) :
    scope.errors ⊆ after.errors := by
  cases move with
  | add diagnostic => exact List.subset_append_left _ _
  | load apart => exact List.Subset.refl _
  | write creates mine => exact List.Subset.refl _

namespace Scope

theorem declared?_first {scope : Scope} {address : SymbolPath} {existing : Symbol}
    (declared : (scope.query address).declared? = some existing) :
    ∃ first ∈ scope.workspace.table.declarationsAt address, existing.firstDeclaration? = some first := by
  have seen := congrArg Prod.fst (scope.sight_eq address)
  rw [sight, declared] at seen
  dsimp only [Option.map_some] at seen
  split at seen
  · next sees =>
    rw [SymbolTable.sees_eq, List.any_eq_true] at sees
    obtain ⟨usage, member, -⟩ := sees
    obtain ⟨first, rest, list⟩ := List.exists_cons_of_ne_nil (List.ne_nil_of_mem member)
    exact ⟨first, list ▸ List.mem_cons_self, by rw [Option.some.inj seen, list]; rfl⟩
  · cases seen

theorem declaredBy_of_free {scope : Scope} {address : SymbolPath} (free : (scope.query address).declared? = none) :
    scope.workspace.table.declaredBy scope.uri address = [] := by
  refine List.eq_nil_iff_forall_not_mem.mpr fun usage listed => ?_
  obtain ⟨member, declaring, checked⟩ := SymbolTable.mem_declaredBy.mp listed
  have unseen := Query.sees_of_declared? free
  rw [SymbolTable.sees_eq] at unseen
  have dark := List.any_eq_false.mp unseen usage (List.mem_filter.mpr ⟨member, declaring⟩)
  simp_all [Usage.isCheckedFrom]

end Scope

namespace Workspace.Attends

open Scope

variable {setup : Setup} {before : Workspace} {document : TextDocument} {module : ModulePath} {scope after : Scope}
  {load : Loader} (honours : ∀ workspace uri, Honours setup workspace (load workspace uri).2)
  (idle : ¬before.InProgress document.uri) {declaration : Node} {key : String} {pairs : List Node}
  {fields : List (String × SchemaType)}

/-- The pairs of a body are entered so far: the document has a member of each name that remains. -/
structure Filling (setup : Setup) (before : Workspace) (document : TextDocument) (module : ModulePath) (declaration : Node)
    (key : String) (pairs : List Node) (fields : List (String × SchemaType)) (scope : Scope) : Prop where
  site : Site setup before document module declaration key scope
  follows : ∃ rest, Remains document.uri scope.errors pairs rest ∧
    fields.map (fun field => (field.1, field.2.unlinked)) = typedFields rest ∧
    ∀ name, name ∈ (firstFields rest).map Prod.fst ↔
      scope.workspace.table.declaredBy document.uri ((SymbolPath.schema key).member name) ≠ []

include honours idle in
theorem Filling.calms (filling : Filling setup before document module declaration key pairs fields scope)
    (calms : ReflTransGen (Calm load) scope after) : Filling setup before document module declaration key pairs fields after := by
  induction calms with
  | refl => exact filling
  | tail _ calm ih =>
    obtain ⟨rest, remains, same, names⟩ := ih.follows
    have act : Act load setup.registries declaration _ _ := .calm calm
    refine ⟨ih.site.act honours idle act, rest, remains.mono calm.move.errors_subset, same, fun name => ?_⟩
    rw [ih.site.attends.declaredBy_calm honours calm]
    exact names name

theorem Filling.skip (filling : Filling setup before document module declaration key pairs fields scope) {pair : Node}
    (none : pair.field? = none) : Filling setup before document module declaration key (pairs ++ [pair]) fields scope := by
  obtain ⟨rest, remains, same, names⟩ := filling.follows
  have firsts : firstFields (rest ++ [pair]) = firstFields rest := by rw [firstFields_append, none]; rfl
  exact ⟨filling.site, rest ++ [pair], remains.keep pair, by rw [typedFields, firsts]; exact same, firsts ▸ names⟩

/-- A pair whose name is taken: by a pair in front of it, or by another document. -/
theorem Filling.pass (filling : Filling setup before document module declaration key pairs fields scope) {pair node : Node}
    {name : String} (found : pair.child? .key = some node) (text : node.textValue? = some name) {existing : Symbol}
    (taken : (scope.query ((SymbolPath.schema key).member name)).declared? = some existing) :
    Filling setup before document module declaration key (pairs ++ [pair]) fields
      (scope.add (duplicated name node.span existing)) := by
  obtain ⟨rest, remains, same, names⟩ := filling.follows
  have told := remains.mono (List.subset_append_left scope.errors [duplicated name node.span existing])
  have site : Site setup before document module declaration key (scope.add (duplicated name node.span existing)) :=
    ⟨{ filling.site.attends with }, filling.site.site⟩
  have field : pair.field? = some (name, (pair.child? .value).map Node.typeShape) := by
    rw [Node.field?, found, Option.bind_some, text, Option.map_some]
  by_cases noted : name ∈ (firstFields rest).map Prod.fst
  · have firsts : firstFields (rest ++ [pair]) = firstFields rest := by
      rw [firstFields_append, field]
      exact if_pos noted
    exact ⟨site, rest ++ [pair], told.keep pair, by rw [typedFields, firsts]; exact same, firsts ▸ names⟩
  · obtain ⟨first, listed, head⟩ := declared?_first taken
    have member := List.mem_of_mem_filter listed
    have free := not_not.mp (mt (names name).mpr noted)
    have elsewhere : first.location.uri ≠ document.uri := by
      intro here
      have entered := site.attends.sound.entered (SymbolPath.member_ne_schema key name) member
      have own : first ∈ scope.workspace.table.declaredBy document.uri ((SymbolPath.schema key).member name) :=
        SymbolTable.mem_declaredBy.mpr ⟨member, (List.mem_filter.mp listed).2, by simp [Usage.isCheckedFrom, here, entered]⟩
      rw [free] at own
      cases own
    have warning : duplicated name node.span existing = repeated name node.span first := by
      simp only [duplicated, head]
      rfl
    refine ⟨site, rest, told.drop ⟨node, name, first, found, text, elsewhere, ?_⟩, same, names⟩
    exact List.mem_append_right _ (warning ▸ List.mem_singleton_self _)

/-- A pair whose name is free is entered, and listed if it has a type. -/
theorem Filling.enter (filling : Filling setup before document module declaration key pairs fields scope) {pair node : Node}
    {name : String} (found : pair.child? .key = some node) (text : node.textValue? = some name) {record : SymbolRecord}
    (free : (scope.query ((SymbolPath.schema key).member name)).declared? = none)
    (given : record.usage = some { kind := .definition, location := scope.locate node.span, fullSpan := some pair.span })
    (type : Option SchemaType) (shape : type.map SchemaType.unlinked = (pair.child? .value).map Node.typeShape)
    (site : Site setup before document module declaration key (scope.write true ((SymbolPath.schema key).member name) record)) :
    Filling setup before document module declaration key (pairs ++ [pair]) (fields ++ type.toList.map fun type => (name, type))
      (scope.write true ((SymbolPath.schema key).member name) record) := by
  obtain ⟨rest, remains, same, names⟩ := filling.follows
  have place := filling.site.attends.place.1
  have sorted := filling.site.attends.sound.sorted
  have blank := declaredBy_of_free free
  rw [place] at blank
  have new : name ∉ (firstFields rest).map Prod.fst := fun noted => (names name).mp noted blank
  have firsts : firstFields (rest ++ [pair]) = firstFields rest ++ [(name, type.map SchemaType.unlinked)] := by
    rw [firstFields_append, Node.field?, found, Option.bind_some, text, Option.map_some, shape]
    exact if_neg new
  refine ⟨site, rest ++ [pair], remains.keep pair, ?_, fun other => ?_⟩
  · rw [typedFields, firsts, List.filterMap_append, List.map_append, same, typedFields]
    cases type <;> rfl
  · rw [firsts, List.map_append, List.mem_append]
    by_cases here : other = name
    · subst here
      have entered : (scope.write true ((SymbolPath.schema key).member other) record).workspace.table.declaredBy document.uri
          ((SymbolPath.schema key).member other) = _ :=
        SymbolTable.declaredBy_enter sorted (by simp [SymbolPath.member, SymbolPath.schema]) given rfl
          (by simp [Usage.isCheckedFrom, Scope.locate, place])
      simp [entered]
    · have apart : (SymbolPath.schema key).member other ≠ (SymbolPath.schema key).member name := by
        intro alike
        exact here (by simpa [SymbolPath.member, SymbolPath.schema] using alike)
      have kept : (scope.write true ((SymbolPath.schema key).member name) record).workspace.table.declaredBy document.uri
          ((SymbolPath.schema key).member other) = _ :=
        SymbolTable.declaredBy_write sorted true fun same => absurd same apart
      rw [kept, ← names other]
      simp [here]

include honours idle in
theorem Filling.structField (filling : Filling setup before document module declaration key pairs fields scope) (limits : Limits)
    (pair : Node) :
    Filling setup before document module declaration key (pairs ++ [pair])
      (structField load limits (.schema key) (fields, scope) pair).1 (Scope.structField load limits (.schema key) (fields, scope) pair).2 := by
  rw [Scope.structField]
  cases found : pair.child? .key with
  | none => exact filling.skip (by rw [Node.field?, found, Option.bind_none])
  | some node =>
    have typed := filling.calms honours idle (scope.fieldType_calm load limits pair)
    have shape := scope.fieldType_unlinked load limits pair
    dsimp only
    generalize scope.fieldType load limits pair = result at typed shape ⊢
    cases text : node.textValue? with
    | none => exact typed.skip (by rw [Node.field?, found, Option.bind_some, text, Option.map_none])
    | some name =>
      have act : Act load setup.registries declaration result.2
          (result.2.enterField (.schema key) node pair name .compoundKey result.1).2 :=
        typed.site.enterField node pair name .compoundKey result.1
      have onward := typed.site.act honours idle act
      dsimp only
      rw [Coupling.enterField_eq] at onward ⊢
      cases taken : (result.2.query ((SymbolPath.schema key).member name)).declared? with
      | some existing => exact typed.pass found text taken
      | none =>
        rw [taken] at onward
        have entered := typed.enter found text taken rfl result.1 shape onward
        cases type : result.1 with
        | none => simpa [type] using entered
        | some type => simpa [type] using entered

include honours idle in
theorem Filling.structFields (filling : Filling setup before document module declaration key pairs fields scope) (limits : Limits)
    (more : List Node) :
    Filling setup before document module declaration key (pairs ++ more)
      (more.foldl (Scope.structField load limits (.schema key)) (fields, scope)).1
      (more.foldl (Scope.structField load limits (.schema key)) (fields, scope)).2 := by
  induction more generalizing pairs fields scope with
  | nil => simpa using filling
  | cons pair more ih =>
    have next := ih (filling.structField honours idle limits pair)
    rwa [List.append_assoc] at next

/-- No two declarations have their identifiers at one place. -/
theorem identifier_apart {text name : String} {trailing : TrailingPolicy} {front back : List Node} {declaration identifier : Node}
    (children : (parse text trailing).node.children = front ++ declaration :: back)
    (found : declaration.child? .identifier = some identifier) (named : identifier.textValue? = some name) {other node : Node}
    (member : other ∈ front ++ back) (also : other.child? .identifier = some node) : node.span ≠ identifier.span := by
  obtain ⟨-, wellFormed⟩ := parse_children text trailing
  obtain ⟨whole, away⟩ := parse_apart children other member
  have onTree : declaration ∈ (parse text trailing).node.children := by simp [children]
  have visible := ((parse_legible text trailing).named (Node.mem_preorder_of_child onTree) found named).visible
  have inside := Span.contains_iff.mp (Node.contains_of_mem_preorder (wellFormed declaration onTree)
    (Node.mem_preorder_of_child (Node.mem_of_child? found)))
  have outside := Span.contains_iff.mp (Node.contains_of_mem_preorder (wellFormed other whole)
    (Node.mem_preorder_of_child (Node.mem_of_child? also)))
  intro same
  rw [same] at outside
  unfold Span.Apart at away
  omega

theorem defines_unique {other identifier : Node} (found : declaration.child? .identifier = some identifier)
    (defines : scope.Defines declaration key) (also : scope.Defines other key) :
    ∃ node, other.child? .identifier = some node ∧ node.span = identifier.span := by
  obtain ⟨_, usage, here, defined, place⟩ := defines
  obtain ⟨node, _, there, defined', place'⟩ := also
  cases found.symm.trans here
  cases defined.symm.trans defined'
  exact ⟨node, there, congrArg Location.span (place'.symm.trans place)⟩

theorem defines_iff (attends : Attends setup before document module scope) :
    scope.Defines declaration key ↔ ∃ identifier, declaration.child? .identifier = some identifier ∧
      ∃ usage ∈ scope.workspace.table.declaredBy document.uri (.schema key), usage.kind = .definition ∧
        usage.location = ⟨document.uri, identifier.span⟩ := by
  constructor
  · rintro ⟨identifier, usage, found, defined, place⟩
    obtain ⟨member, kind⟩ := attends.sound.definitionAt.mp defined
    rw [attends.locate] at place
    refine ⟨identifier, found, usage, SymbolTable.mem_declaredBy.mpr ⟨member, by rw [kind]; rfl, ?_⟩, kind, place⟩
    simp [Usage.isCheckedFrom, place, (attends.sound.shown member kind).2]
  · rintro ⟨identifier, found, usage, listed, kind, place⟩
    exact ⟨identifier, usage, found, attends.sound.definitionAt.mpr ⟨(SymbolTable.mem_declaredBy.mp listed).1, kind⟩,
      place.trans (attends.locate _).symm⟩

include honours in
theorem defines_act (attends : Attends setup before document module scope) (onward : Attends setup before document module after)
    {registries : RegistrySettings} {other : Node} (act : Act load registries other scope after) :
    after.Defines declaration key ↔ scope.Defines declaration key := by
  have same : after.workspace.table.declaredBy document.uri (.schema key) =
      scope.workspace.table.declaredBy document.uri (.schema key) := by
    have sorted := attends.sound.sorted
    cases act with
    | calm calm => exact attends.declaredBy_calm honours calm _
    | field site free given bare =>
      exact SymbolTable.declaredBy_write sorted true fun here => absurd here.symm (SymbolPath.member_ne_schema _ _ _)
    | data defines type => exact SymbolTable.declaredBy_write sorted false fun _ usage given => by cases given
    | object kind named cites =>
      obtain ⟨registry, name, rfl⟩ := Node.isObject_of_describes named
      exact SymbolTable.declaredBy_write sorted true fun here => by cases here
  rw [attends.defines_iff, onward.defines_iff, same]

include honours idle in
theorem defines_acts (attends : Attends setup before document module scope) {registries : RegistrySettings} {other : Node}
    (acts : ReflTransGen (Act load registries other) scope after) :
    after.Defines declaration key ↔ scope.Defines declaration key := by
  induction acts with
  | refl => rfl
  | tail first act ih =>
    have here := attends.moves honours idle (ReflTransGen.mono (fun _ _ => Act.move) _ _ first)
    exact (here.defines_act honours (here.move honours idle act.move) act).trans ih

/-- If the declaration defines the type, its document has entered no member of it yet. -/
def Unfilled (document : TextDocument) (declaration : Node) (key : String) (scope : Scope) : Prop :=
  scope.Defines declaration key → ∀ name,
    scope.workspace.table.declaredBy document.uri ((SymbolPath.schema key).member name) = []

def Filled (document : TextDocument) (declaration body : Node) (key : String) (scope : Scope) : Prop :=
  scope.Defines declaration key → Fills document.uri scope.errors body (scope.workspace.table.partAt Symbol.data (.schema key))

section Others

variable {registries : RegistrySettings} {identifier other : Node} (found : declaration.child? .identifier = some identifier)
  (apart : ∀ node, other.child? .identifier = some node → node.span ≠ identifier.span)

include honours found apart in
theorem unfilled_act (attends : Attends setup before document module scope) (onward : Attends setup before document module after)
    (uninjected : other.kind ≠ .injectClause) (act : Act load registries other scope after)
    (unfilled : Unfilled document declaration key scope) : Unfilled document declaration key after := by
  intro defines name
  rw [attends.defines_act honours onward act] at defines
  have none := unfilled defines name
  have sorted := attends.sound.sorted
  cases act with
  | calm calm => exact (attends.declaredBy_calm honours calm _).trans none
  | @field target _ _ _ _ site free given bare =>
    refine (SymbolTable.declaredBy_write sorted true fun here => ?_).trans none
    have same : key = target := by
      simpa [SymbolPath.member, SymbolPath.schema] using congrArg (fun address => address.path.head?) here
    subst same
    obtain ⟨node, also, alike⟩ := defines_unique found defines (site.resolve_right uninjected)
    exact absurd alike (apart node also)
  | data _ type =>
    exact (SymbolTable.declaredBy_write sorted false fun here => absurd here (SymbolPath.member_ne_schema _ _ _)).trans none
  | object kind named cites =>
    obtain ⟨registry, object, rfl⟩ := Node.isObject_of_describes named
    exact (SymbolTable.declaredBy_write sorted true fun here => by cases here).trans none

include honours found apart in
theorem contents_act (attends : Attends setup before document module scope) (act : Act load registries other scope after)
    (defines : scope.Defines declaration key) :
    after.workspace.table.partAt Symbol.data (.schema key) = scope.workspace.table.partAt Symbol.data (.schema key) := by
  have sorted := attends.sound.sorted
  cases act with
  | calm calm =>
    obtain ⟨_, usage, _, defined, place⟩ := defines
    exact attends.contents_calm honours calm defined (by rw [place, attends.locate])
  | field site free given bare =>
    exact SymbolTable.partAt_write sorted true _ _ (fun _ => rfl) fun here => absurd here.symm (SymbolPath.member_ne_schema _ _ _)
  | data also type =>
    refine SymbolTable.partAt_write sorted false _ _ (fun _ => rfl) fun here => ?_
    cases here
    obtain ⟨node, there, alike⟩ := defines_unique found defines also
    exact absurd alike (apart node there)
  | object kind named cites =>
    obtain ⟨registry, object, rfl⟩ := Node.isObject_of_describes named
    exact SymbolTable.partAt_write sorted true _ _ (fun _ => rfl) fun here => by cases here

include honours found apart in
/-- Another declaration does not change what the type has. -/
theorem filled_act (attends : Attends setup before document module scope) (onward : Attends setup before document module after)
    {body : Node} (act : Act load registries other scope after) (filled : Filled document declaration body key scope) :
    Filled document declaration body key after := by
  intro defines
  rw [attends.defines_act honours onward act] at defines
  rw [attends.contents_act honours found apart act defines]
  exact (filled defines).mono act.move.errors_subset

end Others

theorem owned?_of_defines (attends : Attends setup before document module scope) {identifier body : Node} {name : String}
    (found : declaration.child? .identifier = some identifier) (named : identifier.textValue? = some name)
    (holds : declaration.child? .body = some body) (defines : scope.Defines declaration (module.join name)) :
    scope.owned? declaration = some (.schema (module.join name), body) := by
  obtain ⟨node, usage, also, defined, place⟩ := defines
  cases found.symm.trans also
  have owns : scope.ownsDefinition (.schema (module.join name)) identifier = true := by
    rw [ownsDefinition, ← SymbolTable.definitionAt_eq, defined]
    simp [place]
  simp [owned?, found, holds, named, attends.place.2, owns]

include honours idle in
theorem checkStruct_filled (attends : Attends setup before document module scope) {identifier body : Node} {name : String}
    (kind : declaration.kind = .struct) (found : declaration.child? .identifier = some identifier)
    (named : identifier.textValue? = some name) (holds : declaration.child? .body = some body)
    (unfilled : Unfilled document declaration (module.join name) scope) :
    Filled document declaration body (module.join name) (scope.checkDeclaration load setup declaration) := by
  intro defines
  have acts : ReflTransGen (Act load setup.registries declaration) scope (scope.checkDeclaration load setup declaration) :=
    attends.checkDeclaration_acts honours idle
  have here := (attends.defines_acts honours idle acts).mp defines
  have filling : Filling setup before document module declaration (module.join name) [] [] scope :=
    ⟨⟨attends, .inl here⟩, [], .nil, rfl, fun other => by simp [firstFields, unfilled here other]⟩
  have filled := filling.structFields honours idle setup.limits body.children
  have owned := attends.owned?_of_defines found named holds here
  rw [checkDeclaration, kind]
  simp only [checkStruct, owned, Scope.structFields]
  generalize body.children.foldl (Scope.structField load setup.limits (.schema (module.join name))) ([], scope) = result at filled ⊢
  obtain ⟨rest, remains, same, -⟩ := filled.follows
  obtain ⟨_, usage, _, defined, _⟩ := filled.site.site.resolve_right (by simp [kind])
  rw [SymbolTable.definitionAt_eq] at defined
  obtain ⟨symbol, present, -⟩ := Option.bind_eq_some_iff.mp defined
  exact ⟨result.1, rest, SymbolTable.partAt_amend Symbol.data present _, remains, same⟩

end Workspace.Attends

namespace Workspace

open Attends

variable {setup : Setup} {before : Workspace} {document : TextDocument} {load : Loader}

section Check

variable (honours : ∀ workspace uri, Honours setup workspace (load workspace uri).2) (sound : before.table.Sound)
  (needs : Needs setup before document.uri document) (module : ModulePath)

include honours sound needs in
theorem waitedOf_unfilled (declaration : Node) (key : String) :
    Unfilled document declaration key (waitedOf load setup (fetch setup before document.uri).2.enter document module) := by
  have blank := waitedOf_keeps honours sound needs module
    (fun scope => ∀ name, scope.workspace.table.declaredBy document.uri ((SymbolPath.schema key).member name) = [])
    (fun name => declaredBy_startOf sound.sorted setup document module _) (fun _ none => none)
    fun attends _ entry none name =>
      (attends.declaredBy_entry honours entry fun other => SymbolPath.member_ne_schema key name other).trans (none name)
  exact fun _ => blank

include honours sound needs in
theorem endOf_filled {declaration identifier body : Node} {name : String}
    (listed : declaration ∈ (parse document.text setup.trailing).node.children) (kind : declaration.kind = .struct)
    (found : declaration.child? .identifier = some identifier) (named : identifier.textValue? = some name)
    (holds : declaration.child? .body = some body)
    (uninjected : ∀ clause ∈ (parse document.text setup.trailing).node.children, clause.kind ≠ .injectClause) :
    Filled document declaration body (module.join name)
      (endOf load setup (fetch setup before document.uri).2.enter document module) := by
  obtain ⟨front, back, children⟩ := List.append_of_mem listed
  have apart : ∀ other ∈ front ++ back, ∀ node, other.child? .identifier = some node → node.span ≠ identifier.span :=
    fun other member node also => identifier_apart children found named member also
  have waited := waitedOf_attends honours sound needs module
  rw [endOf_eq, children, List.foldl_append, List.foldl_cons]
  have before := waited.declarations_acts honours needs.idle front
  have reached := waited.acted honours needs.idle setup.registries before
  have unfilled := waited.run honours needs.idle (Unfilled document declaration (module.join name)) (ActOf.move _)
    (fun here onward ⟨other, ahead, act⟩ => here.unfilled_act honours found (apart other (List.mem_append_left _ ahead)) onward
      (uninjected other (by simp [children, ahead])) act) before (waitedOf_unfilled honours sound needs module declaration _)
  have filled := reached.checkStruct_filled honours needs.idle kind found named holds unfilled
  have own := ReflTransGen.mono (fun _ _ => Scope.Act.move) _ _
    (reached.checkDeclaration_acts honours needs.idle : ReflTransGen (Scope.Act load setup.registries declaration) _ _)
  have passed := reached.moves honours needs.idle own
  exact passed.run honours needs.idle (Filled document declaration body (module.join name)) (ActOf.move _)
    (fun here onward ⟨other, behind, act⟩ => here.filled_act honours found (apart other (List.mem_append_right _ behind)) onward act)
    (passed.declarations_acts honours needs.idle back) filled

end Check

/-- The declaration is a struct with this body that owns its symbol. -/
structure OwnsStruct (table : SymbolTable) (uri : String) (root : Node) (key : String) (declaration body : Node) : Prop where
  listed : declaration ∈ root.children
  kind : declaration.kind = .struct
  holds : declaration.child? .body = some body
  defined : ∃ module identifier name usage, table.moduleOfUri? uri = some module ∧
    declaration.child? .identifier = some identifier ∧ identifier.textValue? = some name ∧ key = module.join name ∧
    table.definitionAt (.schema key) = some usage ∧ usage.location = ⟨uri, identifier.span⟩

/-- A declaration still defines its symbol where the modules are the same and its definition is. -/
theorem defines_congr {table after : SymbolTable} {uri key : String} {declaration : Node} (entries : after.entries = table.entries)
    (kept : ∀ usage, after.definitionAt (.schema key) = some usage → usage.location.uri = uri →
      table.definitionAt (.schema key) = some usage)
    (defined : ∃ module identifier name usage, after.moduleOfUri? uri = some module ∧
      declaration.child? .identifier = some identifier ∧ identifier.textValue? = some name ∧ key = module.join name ∧
      after.definitionAt (.schema key) = some usage ∧ usage.location = ⟨uri, identifier.span⟩) :
    ∃ module identifier name usage, table.moduleOfUri? uri = some module ∧
      declaration.child? .identifier = some identifier ∧ identifier.textValue? = some name ∧ key = module.join name ∧
      table.definitionAt (.schema key) = some usage ∧ usage.location = ⟨uri, identifier.span⟩ := by
  obtain ⟨module, identifier, name, usage, home, found, named, same, here, place⟩ := defined
  exact ⟨module, identifier, name, usage, (SymbolTable.moduleOfUri?_congr entries uri) ▸ home, found, named, same,
    kept usage here (by rw [place]), place⟩

theorem OwnsStruct.congr {table after : SymbolTable} {uri key : String} {root declaration body : Node}
    (owns : OwnsStruct after uri root key declaration body) (entries : after.entries = table.entries)
    (defined : ∀ usage, after.definitionAt (.schema key) = some usage → usage.location.uri = uri →
      table.definitionAt (.schema key) = some usage) : OwnsStruct table uri root key declaration body :=
  { owns with defined := defines_congr entries defined owns.defined }

def FieldsFollow (trailing : TrailingPolicy) (uri : String) (record : FileRecord) (table : SymbolTable) : Prop :=
  (∀ clause ∈ (parse record.text trailing).node.children, clause.kind ≠ .injectClause) →
    ∀ key declaration body, OwnsStruct table uri (parse record.text trailing).node key declaration body →
      Fills uri record.errors body (table.partAt Symbol.data (.schema key))

theorem fieldsFollow_lasting (setup : Setup) : Lasting setup (FieldsFollow setup.trailing) := by
  constructor
  case clear =>
    intro table uri record other sound apart follow uninjected key declaration body owns
    obtain ⟨_, _, _, usage, _, _, _, _, defined, place⟩ := owns.defined
    have kept := fun {usage : Usage} (defined : (table.clearUri other).definitionAt (.schema key) = some usage)
        (here : usage.location.uri = uri) => defined_clearUri sound defined (here ▸ apart)
    rw [(kept defined (by rw [place])).2]
    exact follow uninjected key declaration body (owns.congr (sound.entries_clearUri other) fun usage defined here => (kept defined here).1)
  case write =>
    intro scope uri record creates address written sound mine apart follow uninjected key declaration body owns
    obtain ⟨_, _, _, usage, _, _, _, _, defined, place⟩ := owns.defined
    have kept := fun {usage : Usage}
        (defined : (scope.write creates address written).workspace.table.definitionAt (.schema key) = some usage)
        (here : usage.location.uri = uri) => defined_write sound creates mine defined (here ▸ apart)
    rw [(kept defined (by rw [place])).2]
    exact follow uninjected key declaration body (owns.congr (mine.entries sound creates) fun usage defined here => (kept defined here).1)
  case alone =>
    intro table uri record stranger uninjected key declaration body owns
    obtain ⟨_, _, _, _, home, _⟩ := owns.defined
    rw [stranger] at home
    cases home
  case ends =>
    intro load before document module record honours sound needs registered text errors uninjected key declaration body owns
    rw [text] at uninjected owns
    have attends := endOf_attends honours sound needs module
    obtain ⟨other, identifier, name, usage, home, found, named, rfl, defined, place⟩ := owns.defined
    have same : other = module := by
      rw [SymbolTable.moduleOfUri?_congr attends.entries, registered] at home
      exact (Option.some.inj home).symm
    subst same
    rw [errors]
    exact endOf_filled honours sound needs other owns.listed owns.kind found named owns.holds uninjected
      ⟨identifier, usage, found, defined, place.trans (attends.locate _).symm⟩

/-- Throughout a session, behind a check of all documents, each struct that owns its symbol, in a document without
inject clauses, has the fields that its body says, but for those that were displaced by members of other documents. Of
these the document is warned; if there are none, the fields are exactly those of the body. -/
theorem own_fields_follow_text {base : Setup} {layout : Layout} {scanned : FileTree} {workspace : Workspace}
    (session : Session base layout scanned workspace) (files : FileTree) :
    let checked := workspace.checkAll (base.over files)
    ∀ uri document, (uri, none) ∈ checked.1 → provided (base.over files) checked.2 uri = .ok document →
      (∀ clause ∈ (parse document.text base.trailing).node.children, clause.kind ≠ .injectClause) →
      ∀ key declaration body, OwnsStruct checked.2.table uri (parse document.text base.trailing).node key declaration body →
        ∃ symbol, checked.2.table.lookup? (.schema key) = some symbol ∧
          Fills uri (checked.2.diagnostics uri) body symbol.data ∧
          ((∀ pair ∈ body.children, ¬Displaced uri (checked.2.diagnostics uri) pair) →
            ∃ fields, symbol.data = some (.struct fields) ∧
              fields.map (fun field => (field.1, field.2.unlinked)) = typedFields body.children) := by
  intro checked uri document answered provides uninjected key declaration body owns
  have notes : checked.2.Notes (FieldsFollow base.trailing) :=
    (session.checkAll files).notes fun files => fieldsFollow_lasting (base.over files)
  have settled : checked.2.Current (base.over files) uri := checkUris_current answered
  obtain ⟨_, record, also, found, current⟩ := settled
  cases provides.symm.trans also
  obtain ⟨state, -, text⟩ := FileRecord.state_of_isCurrent current
  have fills := notes uri record found state (text ▸ uninjected) key declaration body (text ▸ owns)
  obtain ⟨_, _, _, _, _, _, _, _, defined, _⟩ := owns.defined
  rw [SymbolTable.definitionAt_eq] at defined
  obtain ⟨symbol, present, -⟩ := Option.bind_eq_some_iff.mp defined
  rw [SymbolTable.partAt, present, Option.bind_some] at fills
  have reported : checked.2.diagnostics uri = record.parseErrors ++ record.errors := by rw [diagnostics, found]
  have fills : Fills uri (checked.2.diagnostics uri) body symbol.data := by
    rw [reported]
    exact fills.mono (List.subset_append_right _ _)
  refine ⟨symbol, present, fills, fun none => ?_⟩
  obtain ⟨fields, rest, data, remains, same⟩ := fills
  exact ⟨fields, data, remains.eq_of_none none ▸ same⟩

def fieldNames : SchemaType → List String
  | .struct fields => fields.map Prod.fst
  | _ => []

/-- What `::b` once injected keeps `y` from being a field of `S`, and the second `x` is none. -/
theorem own_fields_follow_text_injected :
    let text := "struct S { x: int, x: S, y: int, z: [S] }"
    let workspace := editedWorkspace "struct S { x: int }" "inject struct ::a::S { y: int }" text
    Session {} pairLayout pairFiles workspace ∧ ∃ declaration body symbol,
      OwnsStruct (workspace.checkAll (({} : Setup).over {})).2.table "file:///a.sdoc" (parse text .allowed).node "::a::S"
        declaration body ∧
      (workspace.checkAll (({} : Setup).over {})).2.table.lookup? (.schema "::a::S") = some symbol ∧
      symbol.data.map fieldNames = some ["x", "z"] ∧ (typedFields body.children).map Prod.fst = ["x", "y", "z"] ∧
      Fills "file:///a.sdoc" ((workspace.checkAll (({} : Setup).over {})).2.diagnostics "file:///a.sdoc") body symbol.data := by
  intro text workspace
  have session : Session {} pairLayout pairFiles workspace := editedWorkspace_session _ _ _
  have facts : (∃ declaration ∈ (parse text .allowed).node.children, declaration.kind = .struct ∧
        (∃ body ∈ declaration.child? .body, (typedFields body.children).map Prod.fst = ["x", "y", "z"]) ∧
        ∃ identifier ∈ declaration.child? .identifier, identifier.textValue? = some "S" ∧
        ∃ usage ∈ (workspace.checkAll (({} : Setup).over {})).2.table.definitionAt (.schema "::a::S"),
          usage.location = ⟨"file:///a.sdoc", identifier.span⟩) ∧
      (workspace.checkAll (({} : Setup).over {})).2.table.moduleOfUri? "file:///a.sdoc" = some ⟨["a"]⟩ ∧
      ("file:///a.sdoc", none) ∈ (workspace.checkAll (({} : Setup).over {})).1 ∧
      provided (({} : Setup).over {}) (workspace.checkAll (({} : Setup).over {})).2 "file:///a.sdoc" =
        .ok ⟨"file:///a.sdoc", 2, text⟩ ∧
      (((workspace.checkAll (({} : Setup).over {})).2.table.lookup? (.schema "::a::S")).bind Symbol.data).map fieldNames =
        some ["x", "z"] := by decide +kernel
  obtain ⟨⟨declaration, listed, kind, ⟨body, holds, names⟩, identifier, found, named, usage, defined, place⟩, home, answered, provides,
    fields⟩ := facts
  have owns : OwnsStruct (workspace.checkAll (({} : Setup).over {})).2.table "file:///a.sdoc" (parse text .allowed).node "::a::S"
      declaration body := ⟨listed, kind, holds, ⟨["a"]⟩, identifier, "S", usage, home, found, named, by decide, defined, place⟩
  obtain ⟨symbol, present, fills, -⟩ := own_fields_follow_text session {} "file:///a.sdoc" ⟨"file:///a.sdoc", 2, text⟩
    answered provides (by decide +kernel) "::a::S" declaration body owns
  rw [present] at fields
  exact ⟨session, declaration, body, symbol, owns, present, fields, names, fills⟩

/-- The text of `::a` has a second field, which a first check lists. Behind the edit it is lost to what `::b` injected
under that name into the struct as it was. -/
theorem own_field_lost_to_stale_injection :
    let text := "struct S { x: int, y: int }"
    let injection := "inject struct ::a::S { y: int }"
    let workspace := editedWorkspace "struct S { x: int }" injection text
    Session {} pairLayout pairFiles workspace ∧
      (workspace.checkAll {}).1 = [("file:///a.sdoc", none), ("file:///b.sdoc", none)] ∧
      (∃ declaration ∈ (parse text .allowed).node.children, declaration.kind = .struct ∧
        (∃ body ∈ declaration.child? .body, (typedFields body.children).map Prod.fst = ["x", "y"]) ∧
        ∃ identifier ∈ declaration.child? .identifier, identifier.textValue? = some "S" ∧
        ∃ usage ∈ (workspace.checkAll {}).2.table.definitionAt (.schema "::a::S"),
          usage.location = ⟨"file:///a.sdoc", identifier.span⟩) ∧
      (∀ clause ∈ (parse text .allowed).node.children, clause.kind ≠ .injectClause) ∧
      ((workspace.checkAll {}).2.table.partAt Symbol.data (.schema "::a::S")).map fieldNames = some ["x"] ∧
      (((pairWorkspace text injection).checkAll {}).2.table.partAt Symbol.data (.schema "::a::S")).map fieldNames =
        some ["x", "y"] := by
  intro text injection workspace
  exact ⟨editedWorkspace_session _ _ _, by decide +kernel⟩

end Workspace

end SchemaDoc
