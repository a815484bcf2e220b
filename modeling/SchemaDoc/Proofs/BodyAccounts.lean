import SchemaDoc.Proofs.OwnFields
import SchemaDoc.Proofs.StillPlaces

/-! An account of the pairs in the body of a type. A pair is entered as a member, or a warning points to the first
declaration of the member that is there already; and what is listed of the type is what its pairs have entered. Only
a warning that points into another document may be out of date in the end: that document may have been taken up anew
while the types of later pairs were looked up. -/

namespace SchemaDoc

open Relation

def SymbolTable.holds (table : SymbolTable) (address : SymbolPath) (location : Location) : Bool :=
  (table.usagesAt address).any fun usage => usage.kind == .definition && usage.location == location

theorem SymbolTable.holds_iff {table : SymbolTable} {address : SymbolPath} {location : Location} :
    table.holds address location = true ↔
      ∃ usage ∈ table.usagesAt address, usage.kind = .definition ∧ usage.location = location := by
  simp [holds]

abbrev Node.Bears (declaration : Node) (table : SymbolTable) (uri : String) (module : ModulePath) (kind : Kind) (name : String) : Prop :=
  declaration.kind = kind ∧ (declaration.child? .body).isSome ∧
    ∃ identifier ∈ declaration.child? .identifier, identifier.textValue? = some name ∧
      ∃ usage ∈ table.definitionAt (.schema (module.join name)), usage.location = ⟨uri, identifier.span⟩

structure Node.Keyed (pair key : Node) (name : String) : Prop where
  found : pair.child? .key = some key
  text : key.textValue? = some name

/-- How the pairs of a body are read: what the member of a pair has to contain, what is listed of it, and what the
list amounts to. -/
structure Reading (β : Type) where
  fits : Node → Option SchemaType → Prop
  item : Node → Option SchemaType → Option β
  whole : List (String × β) → SchemaType

namespace Reading

/-- The body of a struct: a field is listed if it has a type. -/
def fields : Reading SchemaType where
  fits pair data := data.map SchemaType.unlinked = (pair.child? .value).map Node.typeShape
  item _ data := data
  whole := .struct

def literal? (pair : Node) : Option LiteralValue := (pair.child? .value).bind Node.literalValue?

/-- The body of an enum: every value is listed. -/
def values (kind : Option EnumKind) : Reading (Option LiteralValue) where
  fits pair data := data = (literal? pair).map SchemaType.literal
  item pair _ := some (literal? pair)
  whole := .enum kind

variable {β : Type} (reading : Reading β)

/-- What is listed of a pair, if the document has entered it. -/
def listing? (table : SymbolTable) (uri key : String) (pair : Node) : Option (String × β) :=
  (pair.child? .key).bind fun node => node.textValue?.bind fun name =>
    if table.holds ((SymbolPath.schema key).member name) ⟨uri, node.span⟩ then
      (reading.item pair (table.partAt Symbol.data ((SymbolPath.schema key).member name))).map fun item => (name, item)
    else none

variable {reading} {table : SymbolTable} {uri key : String} {pair node : Node} {name : String}

theorem listing?_of_keyed (keyed : pair.Keyed node name) : reading.listing? table uri key pair =
    if table.holds ((SymbolPath.schema key).member name) ⟨uri, node.span⟩ then
      (reading.item pair (table.partAt Symbol.data ((SymbolPath.schema key).member name))).map fun item => (name, item)
    else none := by
  rw [listing?, keyed.found, Option.bind_some, keyed.text, Option.bind_some]

theorem listing?_of_bare (bare : ∀ node name, ¬pair.Keyed node name) : reading.listing? table uri key pair = none := by
  rw [listing?]
  cases found : pair.child? .key with
  | none => rfl
  | some node =>
    cases text : node.textValue? with
    | none => rw [Option.bind_some, text, Option.bind_none]
    | some name => exact absurd ⟨found, text⟩ (bare node name)

theorem listing?_eq_some {listed : String × β} (some : reading.listing? table uri key pair = some listed) :
    ∃ node, pair.Keyed node listed.1 ∧ table.holds ((SymbolPath.schema key).member listed.1) ⟨uri, node.span⟩ = true := by
  obtain ⟨node, found, named⟩ := Option.bind_eq_some_iff.mp some
  obtain ⟨name, text, entered⟩ := Option.bind_eq_some_iff.mp named
  split at entered
  · next holds =>
    obtain ⟨item, -, rfl⟩ := Option.map_eq_some_iff.mp entered
    exact ⟨node, ⟨found, text⟩, holds⟩
  · cases entered

end Reading

namespace Workspace

/-- What has become of a pair: the document has entered it, and nothing is said about it; or it has not, and one
warning points to the first declaration of the member, unless that stood in a document taken up anew since. -/
inductive Verdict {β : Type} (reading : Reading β) (before : Workspace) (uri key : String) (pair node : Node) (name : String)
    (after : Workspace) (errors : List Diagnostic) : Prop where
  | entered (holds : after.table.holds ((SymbolPath.schema key).member name) ⟨uri, node.span⟩ = true)
      (silent : errors.filter (·.span == node.span) = [])
      (fits : reading.fits pair (after.table.partAt Symbol.data ((SymbolPath.schema key).member name)))
  | rejected (first : Usage) (absent : after.table.holds ((SymbolPath.schema key).member name) ⟨uri, node.span⟩ = false)
      (told : errors.filter (·.span == node.span) = [repeated name node.span first])
      (leads : (after.table.declarationsAt ((SymbolPath.schema key).member name)).head? = some first ∨
        first.location.uri ≠ uri ∧ before.TookUp after first.location.uri)

theorem Verdict.congr {β : Type} {reading : Reading β} {before after other : Workspace} {uri key name : String} {pair node : Node}
    {errors : List Diagnostic} (table : other.table = after.table) (log : other.log = after.log)
    (verdict : Verdict reading before uri key pair node name after errors) :
    Verdict reading before uri key pair node name other errors := by
  cases verdict with
  | entered holds silent fits => exact .entered (table ▸ holds) silent (table ▸ fits)
  | rejected first absent told leads =>
    exact .rejected first (table ▸ absent) told (leads.imp (fun head => table ▸ head)
      (And.imp_right fun ⟨taken, along, member⟩ => ⟨taken, log.trans along, member⟩))

structure Fresh (uri key : String) (node : Node) (name : String) (scope : Scope) : Prop where
  silent : scope.errors.filter (·.span == node.span) = []
  absent : scope.workspace.table.holds ((SymbolPath.schema key).member name) ⟨uri, node.span⟩ = false

namespace Still

variable {uri key : String} {place : Span} {earlier later : Scope}

theorem holds (still : Still uri place earlier later) (key name : String) :
    later.workspace.table.holds ((SymbolPath.schema key).member name) ⟨uri, place⟩ =
      earlier.workspace.table.holds ((SymbolPath.schema key).member name) ⟨uri, place⟩ := by
  rw [Bool.eq_iff_iff, SymbolTable.holds_iff, SymbolTable.holds_iff]
  constructor
  · rintro ⟨usage, member, kind, here⟩
    exact ⟨usage, still.entered member kind here, kind, here⟩
  · rintro ⟨usage, member, kind, here⟩
    exact ⟨usage, still.own member (by rw [here]), kind, here⟩

theorem fresh {node : Node} {name : String} (still : Still uri node.span earlier later) (fresh : Fresh uri key node name earlier) :
    Fresh uri key node name later :=
  ⟨still.told.trans fresh.silent, (still.holds key name).trans fresh.absent⟩

end Still

namespace Tends

variable {β : Type} {reading : Reading β} {setup : Setup} {before : Workspace} {document : TextDocument}
  {module : ModulePath} {scope earlier later : Scope} {load : Loader} {key name : String} {pair node : Node}

theorem declaredBy_of_holds (tends : Tends setup before document module scope) {place : Span}
    (holds : scope.workspace.table.holds ((SymbolPath.schema key).member name) ⟨document.uri, place⟩ = true) :
    scope.workspace.table.declaredBy document.uri ((SymbolPath.schema key).member name) ≠ [] := by
  obtain ⟨usage, member, kind, here⟩ := SymbolTable.holds_iff.mp holds
  have contributor := tends.neat.sound.entered (SymbolPath.member_ne_schema key name) member
  exact List.ne_nil_of_mem (SymbolTable.mem_declaredBy.mpr
    ⟨member, by rw [kind]; rfl, by simp [Usage.isCheckedFrom, here, contributor]⟩)

theorem tookUp (tends : Tends setup before document module earlier)
    {more : List String} (log : later.workspace.log = more ++ earlier.workspace.log) {uri : String} (member : uri ∈ more) :
    before.TookUp later.workspace uri := by
  obtain ⟨taken, -, advances⟩ := tends.underway.advances
  exact ⟨more ++ taken, by rw [log, advances.log, List.append_assoc], List.mem_append_left _ member⟩

theorem listing?_still (tends : Tends setup before document module earlier)
    (still : ∀ {node name}, pair.Keyed node name → Still document.uri node.span earlier later) :
    reading.listing? later.workspace.table document.uri key pair = reading.listing? earlier.workspace.table document.uri key pair := by
  by_cases some : ∃ node name, pair.Keyed node name
  · obtain ⟨node, name, keyed⟩ := some
    rw [Reading.listing?_of_keyed keyed, Reading.listing?_of_keyed keyed, (still keyed).holds]
    split
    · next holds => rw [(still keyed).contents (tends.declaredBy_of_holds holds)]
    · rfl
  · have bare : ∀ node name, ¬pair.Keyed node name := fun node name keyed => some ⟨node, name, keyed⟩
    rw [Reading.listing?_of_bare bare, Reading.listing?_of_bare bare]

/-- A verdict stands, but that the document of a first declaration may be taken up anew. -/
theorem verdict_still (tends : Tends setup before document module earlier) (onward : Tends setup before document module later)
    (still : Still document.uri node.span earlier later)
    (verdict : Verdict reading before document.uri key pair node name earlier.workspace earlier.errors) :
    Verdict reading before document.uri key pair node name later.workspace later.errors := by
  cases verdict with
  | entered holds silent fits =>
    refine .entered ((still.holds key name).trans holds) (still.told.trans silent) ?_
    rwa [still.contents (tends.declaredBy_of_holds holds)]
  | rejected first absent told leads =>
    refine .rejected first ((still.holds key name).trans absent) (still.told.trans told) ?_
    rcases leads with head | ⟨elsewhere, took⟩
    · obtain ⟨more, log, outside, stays⟩ := still.stays
      obtain ⟨member, declaring⟩ := List.mem_filter.mp (List.mem_of_head? head)
      by_cases moved : first.location.uri ∈ more
      · exact .inr ⟨fun here => outside (here ▸ moved), tends.tookUp log moved⟩
      · exact .inl (onward.neat.head?_of_mem (List.mem_filter.mpr ⟨stays _ first member moved, declaring⟩))
    · exact .inr ⟨elsewhere, still.tookUp took⟩

def fieldRecord (scope : Scope) (node pair : Node) (subcategory : Subcategory) (data : Option SchemaType) : SymbolRecord :=
  { subcategory := some subcategory
    desc := pair.doc?
    data
    usage := some { kind := .definition, location := scope.locate node.span, fullSpan := some pair.span } }

theorem enterField_taken {existing : Symbol} (taken : (scope.query ((SymbolPath.schema key).member name)).declared? = some existing)
    (node pair : Node) (subcategory : Subcategory) (data : Option SchemaType) :
    ∃ first ∈ scope.workspace.table.declarationsAt ((SymbolPath.schema key).member name),
      scope.enterField (.schema key) node pair name subcategory data = (false, scope.add (repeated name node.span first)) := by
  obtain ⟨first, member, head⟩ := Scope.declared?_first taken
  refine ⟨first, member, ?_⟩
  rw [Coupling.enterField_eq, taken]
  simp only [duplicated, head]
  rfl

/-- The verdict falls when the field is entered: its name is taken, or the member is new. -/
theorem enterField_verdict (tends : Tends setup before document module scope) (keyed : pair.Keyed node name)
    (fresh : Fresh document.uri key node name scope) (subcategory : Subcategory) {data : Option SchemaType} (fits : reading.fits pair data) :
    let result := scope.enterField (.schema key) node pair name subcategory data
    Verdict reading before document.uri key pair node name result.2.workspace result.2.errors ∧
      reading.listing? result.2.workspace.table document.uri key pair =
        if result.1 then (reading.item pair data).map fun item => (name, item) else none := by
  intro result
  obtain ⟨silent, absent⟩ := fresh
  rw [Reading.listing?_of_keyed keyed]
  cases free : (scope.query ((SymbolPath.schema key).member name)).declared? with
  | some existing =>
    obtain ⟨first, member, rejects⟩ := enterField_taken free node pair subcategory data
    have told : (scope.add (repeated name node.span first)).errors.filter (·.span == node.span) = [repeated name node.span first] := by
      have here : (repeated name node.span first).span = node.span := rfl
      rw [Scope.add, List.filter_append, silent]
      simp [here]
    simp only [result, rejects]
    exact ⟨.rejected first absent told (.inl (tends.neat.head?_of_mem member)), if_neg (by simp [Scope.add, absent])⟩
  | none =>
    have enters : result = (true, scope.write true ((SymbolPath.schema key).member name)
        (fieldRecord scope node pair subcategory data)) := by
      simp only [result, Coupling.enterField_eq, free]
      rfl
    have somewhere : ((SymbolPath.schema key).member name).path ≠ [] := by simp [SymbolPath.schema, SymbolPath.member]
    have sorted := tends.neat.sound.sorted
    rw [Scope.query, tends.place.1] at free
    have vacant := tends.neat.vacant (tends.neat.undeclared free)
    have holds : (scope.workspace.table.enter ((SymbolPath.schema key).member name)
        (fieldRecord scope node pair subcategory data)).holds ((SymbolPath.schema key).member name) ⟨document.uri, node.span⟩ = true := by
      rw [SymbolTable.holds, SymbolTable.usagesAt_enter sorted somewhere, if_pos rfl, fieldRecord, tends.locate]
      simp
    have contents : (scope.workspace.table.enter ((SymbolPath.schema key).member name)
        (fieldRecord scope node pair subcategory data)).partAt Symbol.data ((SymbolPath.schema key).member name) = data :=
      SymbolTable.partAt_enter_vacant sorted somewhere vacant _
    rw [enters]
    refine ⟨.entered holds silent (contents.symm ▸ fits), ?_⟩
    change (if (scope.workspace.table.enter _ _).holds _ _ = true then _ else _) = _
    rw [if_pos holds, if_pos rfl]
    exact congrArg (fun data => (reading.item pair data).map _) contents

end Tends

end Workspace

namespace Scope

open Workspace

variable {load : Loader} {limits : Limits} {container : SymbolPath} {scope : Scope} {pair node : Node} {name : String}

theorem structField_eq (keyed : pair.Keyed node name) (listed : List (String × SchemaType)) :
    let typed := scope.fieldType load limits pair
    let entered := typed.2.enterField container node pair name .compoundKey typed.1
    structField load limits container (listed, scope) pair =
      (listed ++ (if entered.1 then (Reading.fields.item pair typed.1).map fun item => (name, item) else none).toList, entered.2) := by
  simp only [structField, keyed.found, keyed.text, Reading.fields]
  generalize scope.fieldType load limits pair = typed
  generalize typed.2.enterField container node pair name .compoundKey typed.1 = entered
  cases entered.1 <;> cases typed.1 <;> simp

theorem structField_bare (bare : ∀ node name, ¬pair.Keyed node name) (listed : List (String × SchemaType)) :
    (structField load limits container (listed, scope) pair).1 = listed := by
  rw [structField]
  cases found : pair.child? .key with
  | none => rfl
  | some node =>
    cases text : node.textValue? with
    | none => simp only [text]
    | some name => exact absurd ⟨found, text⟩ (bare node name)

theorem enumValue_eq (kind : Option EnumKind) (keyed : pair.Keyed node name) (listed : List (String × Option LiteralValue)) :
    let data := (Reading.literal? pair).map SchemaType.literal
    let entered := scope.enterField container node pair name .enumKey data
    enumValue container (listed, scope) pair =
      (listed ++ (if entered.1 then ((Reading.values kind).item pair data).map fun item => (name, item) else none).toList,
        entered.2) := by
  intro data entered
  simp only [enumValue, keyed.found, keyed.text, Reading.values]
  change (if entered.1 = true then listed ++ [(name, Reading.literal? pair)] else listed, entered.2) = _
  cases entered.1 <;> simp

theorem enumValue_bare (bare : ∀ node name, ¬pair.Keyed node name) (listed : List (String × Option LiteralValue)) :
    (enumValue container (listed, scope) pair).1 = listed := by
  rw [enumValue]
  cases found : pair.child? .key with
  | none => rfl
  | some node =>
    cases text : node.textValue? with
    | none => simp only [text]
    | some name => exact absurd ⟨found, text⟩ (bare node name)

end Scope

namespace Workspace

namespace Tends

variable {β : Type} {reading : Reading β} {setup : Setup} {before : Workspace} {document : TextDocument}
  {module : ModulePath} {scope : Scope} {load : Loader} {pair : Node}

def injecting (pair : Node) : Node := ⟨.document, pair.span, none, [⟨.injectClause, pair.span, none, [pair]⟩]⟩

theorem mem_injecting (pair : Node) : pair ∈ (injecting pair).preorder :=
  Node.preorder_trans (Node.mem_preorder_of_child (List.mem_singleton_self pair))
    (Node.mem_preorder_of_child (List.mem_singleton_self _) :
      (⟨.injectClause, pair.span, none, [pair]⟩ : Node) ∈ (injecting pair).preorder)

theorem avoids_injecting {place : Span} (avoids : pair.Avoids place) : (injecting pair).Avoids place :=
  (avoids.around .injectClause none).around .document none

theorem container_injecting (limits : Limits) (uri : String) (module : ModulePath) (scope : Scope) (pair : Node) (key : String) :
    (Pass.mk limits uri module (injecting pair)).Container (Pass.Ever Pass.ToKey) (.schema key) :=
  .injected (List.mem_singleton_self _) rfl (⟨scope, key, rfl⟩ : Pass.Ever Pass.ToKey pair (.schema key))

/-- The value of the pair stands beside its key. -/
def Parted (pair : Node) : Prop :=
  ∀ {node name}, pair.Keyed node name → ∀ value, pair.child? .value = some value → value.Avoids node.span

structure Takes (reading : Reading β) (setup : Setup) (before : Workspace) (document : TextDocument) (module : ModulePath)
    (declaration : Node) (key : String) (step : List (String × β) × Scope → Node → List (String × β) × Scope) : Prop where
  keeps : ∀ {listed scope} (pair), Tends setup before document module scope →
    Tends setup before document module (step (listed, scope) pair).2
  still : ∀ {listed scope pair place}, pair.Avoids place → Tends setup before document module scope →
    Still document.uri place scope (step (listed, scope) pair).2
  site : ∀ {listed scope} (pair), Attends.Site setup before document module declaration key scope →
    Attends.Site setup before document module declaration key (step (listed, scope) pair).2
  bare : ∀ {listed scope pair}, (∀ node name, ¬pair.Keyed node name) → (step (listed, scope) pair).1 = listed
  turn : ∀ {listed scope pair node name}, Parted pair → pair.Keyed node name → Tends setup before document module scope →
    Fresh document.uri key node name scope →
    Verdict reading before document.uri key pair node name (step (listed, scope) pair).2.workspace
        (step (listed, scope) pair).2.errors ∧
      (step (listed, scope) pair).1 =
        listed ++ (reading.listing? (step (listed, scope) pair).2.workspace.table document.uri key pair).toList

section Takes

variable (safeguards : Safeguards setup load) (idle : ¬before.InProgress document.uri) (declaration : Node) (key : String)

include safeguards idle

theorem takes_structField :
    Takes .fields setup before document module declaration key (Scope.structField load setup.limits (.schema key)) := by
  constructor
  case keeps =>
    intro listed scope pair tends
    have entering := (invariant safeguards.honours safeguards.retains idle setup.limits module (injecting pair)).alone.structField
      (container_injecting _ _ _ scope pair key) (mem_injecting pair)
      (⟨rfl, ⟨rfl, tends⟩, fun _ _ => trivial⟩ : Coupling.Listed _ _ (listed, scope) (listed, scope)) fun _ _ => trivial
    exact entering.scopes.2
  case still =>
    intro listed scope pair place avoids tends
    have entering := (still_invariant safeguards idle (avoids_injecting avoids) setup.limits module scope).alone.structField
      (container_injecting _ _ _ scope pair key) (mem_injecting pair)
      (⟨rfl, ⟨rfl, tends, .refl ..⟩, fun _ _ => trivial⟩ : Coupling.Listed _ _ (listed, scope) (listed, scope)) fun _ _ => trivial
    exact entering.scopes.2.2
  case site =>
    intro listed scope pair site
    exact site.acts safeguards.honours idle (site.structField safeguards.honours idle setup.registries setup.limits listed pair)
  case bare => exact fun bare => Scope.structField_bare bare _
  case turn =>
    intro listed scope pair node name parted keyed tends fresh
    have typing := (invariant safeguards.honours safeguards.retains idle setup.limits module (injecting pair)).alone.fieldType
      (mem_injecting pair) ⟨rfl, tends⟩ fun _ _ => trivial
    have typed : Tends setup before document module (scope.fieldType load setup.limits pair).2 := typing.2.1.2
    have quiet : Still document.uri node.span scope (scope.fieldType load setup.limits pair).2 := by
      rw [Scope.fieldType]
      cases given : pair.child? .value with
      | none => exact .refl ..
      | some value =>
        have reading := (still_invariant safeguards idle (parted keyed value given).solo setup.limits module scope).alone.typeData
          value (Node.mem_preorder_of_child (List.mem_singleton_self value)) ⟨rfl, tends, .refl ..⟩ fun _ _ => trivial
        exact reading.2.1.2.2
    have fits : Reading.fields.fits pair (scope.fieldType load setup.limits pair).1 :=
      scope.fieldType_unlinked load setup.limits pair
    obtain ⟨verdict, entry⟩ := typed.enterField_verdict keyed (quiet.fresh fresh) .compoundKey fits
    rw [Scope.structField_eq keyed]
    exact ⟨verdict, congrArg (fun entry => listed ++ entry.toList) entry.symm⟩

theorem takes_enumValue (kind : Option EnumKind) :
    Takes (.values kind) setup before document module declaration key (Scope.enumValue (.schema key)) := by
  constructor
  case keeps =>
    intro listed scope pair tends
    have entering := (invariant safeguards.honours safeguards.retains idle setup.limits module (injecting pair)).alone.enumValue
      (container_injecting _ _ _ scope pair key) (mem_injecting pair)
      (⟨rfl, rfl, tends⟩ : (listed, scope).1 = (listed, scope).1 ∧ (scope = scope ∧ _))
    exact entering.2.2
  case still =>
    intro listed scope pair place avoids tends
    have entering := (still_invariant safeguards idle (avoids_injecting avoids) setup.limits module scope).alone.enumValue
      (container_injecting _ _ _ scope pair key) (mem_injecting pair)
      (⟨rfl, rfl, tends, .refl ..⟩ : (listed, scope).1 = (listed, scope).1 ∧ (scope = scope ∧ _))
    exact entering.2.2.2
  case site =>
    intro listed scope pair site
    exact site.acts safeguards.honours idle (site.enumValue setup.registries listed pair)
  case bare => exact fun bare => Scope.enumValue_bare bare _
  case turn =>
    intro listed scope pair node name _ keyed tends fresh
    have fits : (Reading.values kind).fits pair ((Reading.literal? pair).map SchemaType.literal) := rfl
    obtain ⟨verdict, entry⟩ := tends.enterField_verdict keyed fresh .enumKey fits
    rw [Scope.enumValue_eq kind keyed]
    exact ⟨verdict, congrArg (fun entry => listed ++ entry.toList) entry.symm⟩

end Takes

structure Beside (first second : Node) : Prop where
  left : ∀ {node name}, second.Keyed node name → first.Avoids node.span
  right : ∀ {node name}, first.Keyed node name → second.Avoids node.span

/-- The pairs in front are accounted for, and nothing is said yet of those behind. -/
structure Entering (reading : Reading β) (setup : Setup) (before : Workspace) (document : TextDocument) (module : ModulePath)
    (declaration : Node) (key : String) (front rest : List Node) (state : List (String × β) × Scope) : Prop where
  tends : Tends setup before document module state.2
  site : Attends.Site setup before document module declaration key state.2
  accounted : ∀ pair ∈ front, ∀ {node name}, pair.Keyed node name →
    Verdict reading before document.uri key pair node name state.2.workspace state.2.errors
  listed : state.1 = front.filterMap (reading.listing? state.2.workspace.table document.uri key)
  ahead : ∀ pair ∈ rest, ∀ {node name}, pair.Keyed node name → Fresh document.uri key node name state.2

section Entering

variable {declaration : Node} {key : String} {front rest : List Node} {state : List (String × β) × Scope}
  {take : List (String × β) × Scope → Node → List (String × β) × Scope}

/-- The step: one pair is accounted for, and nothing happens to the others. -/
theorem Entering.step (takes : Takes reading setup before document module declaration key take)
    (entering : Entering reading setup before document module declaration key front (pair :: rest) state) (parted : Parted pair)
    (apart : ∀ other ∈ front ++ rest, ∀ {node name}, other.Keyed node name → pair.Avoids node.span) :
    Entering reading setup before document module declaration key (front ++ [pair]) rest (take state pair) := by
  obtain ⟨listed, scope⟩ := state
  have tends : Tends setup before document module scope := entering.tends
  have onward : Tends setup before document module (take (listed, scope) pair).2 := takes.keeps pair tends
  have still : ∀ other ∈ front ++ rest, ∀ {node name}, other.Keyed node name →
      Still document.uri node.span scope (take (listed, scope) pair).2 :=
    fun other member _ _ keyed => takes.still (apart other member keyed) tends
  have kept : front.filterMap (reading.listing? (take (listed, scope) pair).2.workspace.table document.uri key) =
      front.filterMap (reading.listing? scope.workspace.table document.uri key) :=
    List.filterMap_congr fun other member => tends.listing?_still fun keyed => still other (List.mem_append_left _ member) keyed
  have earlier : listed = front.filterMap (reading.listing? scope.workspace.table document.uri key) := entering.listed
  constructor
  case tends => exact onward
  case site => exact takes.site pair entering.site
  case accounted =>
    intro other member node name keyed
    rcases List.mem_append.mp member with ahead | here
    · exact tends.verdict_still onward (still other (List.mem_append_left _ ahead) keyed) (entering.accounted other ahead keyed)
    · obtain rfl := List.mem_singleton.mp here
      exact (takes.turn parted keyed tends (entering.ahead _ List.mem_cons_self keyed)).1
  case listed =>
    rw [List.filterMap_append, kept, ← earlier, List.filterMap_eq_flatMap_toList _ [pair],
      List.flatMap_singleton]
    by_cases some : ∃ node name, pair.Keyed node name
    · obtain ⟨node, name, keyed⟩ := some
      exact (takes.turn parted keyed tends (entering.ahead _ List.mem_cons_self keyed)).2
    · have bare : ∀ node name, ¬pair.Keyed node name := fun node name keyed => some ⟨node, name, keyed⟩
      rw [takes.bare bare, Reading.listing?_of_bare bare]
      exact (List.append_nil _).symm
  case ahead =>
    intro other member node name keyed
    exact (still other (List.mem_append_right _ member) keyed).fresh (entering.ahead other (List.mem_cons_of_mem _ member) keyed)

/-- The run: in the end all pairs are accounted for. -/
theorem Entering.run (takes : Takes reading setup before document module declaration key take)
    (entering : Entering reading setup before document module declaration key front rest state)
    (parted : ∀ pair ∈ rest, Parted pair) (apart : (front ++ rest).Pairwise Beside) :
    Entering reading setup before document module declaration key (front ++ rest) [] (rest.foldl take state) := by
  induction rest generalizing front state with
  | nil => simpa using entering
  | cons pair rest ih =>
    obtain ⟨-, behind, across⟩ := List.pairwise_append.mp apart
    have away : ∀ other ∈ front ++ rest, ∀ {node name}, other.Keyed node name → pair.Avoids node.span := by
      intro other member node name keyed
      rcases List.mem_append.mp member with ahead | later
      · exact (across other ahead pair List.mem_cons_self).right keyed
      · exact (List.rel_of_pairwise_cons behind later).left keyed
    have next := entering.step takes (parted pair List.mem_cons_self) away
    have onward := ih next (fun other later => parted other (List.mem_cons_of_mem _ later)) (by simpa using apart)
    simpa using onward

end Entering

end Tends

section Parsed

variable {text : String} {trailing : TrailingPolicy} {declaration body pair node : Node} {name : String}

structure KeyIn (declaration body pair node : Node) (name : String) : Prop where
  holds : declaration.child? .body = some body
  inside : pair ∈ body.children
  keyed : pair.Keyed node name

namespace KeyIn

variable (member : declaration ∈ (parse text trailing).node.children) (place : KeyIn declaration body pair node name)

include member

theorem mem_body (holds : declaration.child? .body = some body) : body ∈ (parse text trailing).node.preorder :=
  Node.preorder_trans (Node.mem_preorder_of_child (Node.mem_of_child? holds)) (Node.mem_preorder_of_child member)

theorem mem_pair (holds : declaration.child? .body = some body) (inside : pair ∈ body.children) :
    pair ∈ (parse text trailing).node.preorder :=
  Node.preorder_trans (Node.mem_preorder_of_child inside) (mem_body member holds)

include place

theorem visible : node.span.start < node.span.stop :=
  parsed_key (mem_pair member place.holds place.inside) place.keyed.found place.keyed.text

theorem within_pair : pair.span.contains node.span = true :=
  Node.contains_of_mem_preorder (parsed_wellFormed (mem_pair member place.holds place.inside))
    (Node.mem_preorder_of_child (Node.mem_of_child? place.keyed.found))

theorem within_body : body.span.contains node.span = true :=
  Span.contains_trans (Node.contains_of_mem_preorder (parsed_wellFormed (mem_body member place.holds))
    (Node.mem_preorder_of_child place.inside)) (place.within_pair member)

theorem within_declaration : declaration.span.contains node.span = true :=
  Span.contains_trans (Node.contains_of_mem_preorder (parsed_wellFormed (Node.mem_preorder_of_child member))
    (Node.mem_preorder_of_child (Node.mem_of_child? place.holds))) (place.within_body member)

theorem named {identifier : Node} (found : declaration.child? .identifier = some identifier) : identifier.span ≠ node.span := by
  have apart := parsed_roles (Node.mem_preorder_of_child member) found place.holds (by decide)
  have inside := Span.contains_iff.mp (place.within_body member)
  have visible := place.visible member
  intro same
  rw [same] at apart
  unfold Span.Apart at apart
  omega

end KeyIn

theorem KeyIn.others {front back : List Node} (children : (parse text trailing).node.children = front ++ declaration :: back)
    (place : KeyIn declaration body pair node name) : ∀ other ∈ front ++ back, other.Avoids node.span := by
  have member : declaration ∈ (parse text trailing).node.children := by simp [children]
  intro other among
  obtain ⟨whole, apart⟩ := parse_apart children other among
  exact .of_apart ((parse_children text trailing).2 other whole) apart (place.within_declaration member) (place.visible member)

theorem parsed_parted (member : pair ∈ (parse text trailing).node.preorder) : Tends.Parted pair := by
  intro node name keyed value given
  have apart := (parsed_roles member keyed.found given (by decide)).symm
  have wellFormed := parsed_wellFormed (Node.preorder_trans (Node.mem_preorder_of_child (Node.mem_of_child? given)) member)
  exact .of_apart wellFormed apart (Span.contains_refl _) (parsed_key member keyed.found keyed.text)

theorem parsed_beside (member : body ∈ (parse text trailing).node.preorder) : body.children.Pairwise Tends.Beside := by
  have pairs : ∀ pair ∈ body.children, pair ∈ (parse text trailing).node.preorder :=
    fun pair inside => Node.preorder_trans (Node.mem_preorder_of_child inside) member
  have avoids : ∀ first ∈ body.children, ∀ second ∈ body.children, first.span.Apart second.span →
      ∀ {node name}, second.Keyed node name → first.Avoids node.span := by
    intro first one second two apart node name keyed
    exact .of_apart (parsed_wellFormed (pairs first one)) apart (Node.contains_of_mem_preorder (parsed_wellFormed (pairs second two))
      (Node.mem_preorder_of_child (Node.mem_of_child? keyed.found))) (parsed_key (pairs second two) keyed.found keyed.text)
  refine (parsed_siblings member).imp_of_mem ?_
  intro first second one two apart
  exact ⟨avoids first one second two apart, avoids second two first one apart.symm⟩

end Parsed

/-- The body of a type is accounted for: all its pairs are, and the type lists what they have entered, nothing under
the same name twice. -/
structure BodyAccount {β : Type} (reading : Reading β) (before : Workspace) (uri key : String) (body : Node) (after : Workspace)
    (errors : List Diagnostic) : Prop where
  pairs : ∀ pair ∈ body.children, ∀ {node name}, pair.Keyed node name →
    Verdict reading before uri key pair node name after errors
  listed : after.table.partAt Symbol.data (.schema key) =
    some (reading.whole (body.children.filterMap (reading.listing? after.table uri key)))
  distinct : ((body.children.filterMap (reading.listing? after.table uri key)).map Prod.fst).Nodup

theorem BodyAccount.congr {β : Type} {reading : Reading β} {before after other : Workspace} {uri key : String} {body : Node}
    {errors : List Diagnostic} (table : other.table = after.table) (log : other.log = after.log)
    (account : BodyAccount reading before uri key body after errors) : BodyAccount reading before uri key body other errors :=
  ⟨fun pair inside _ _ keyed => (account.pairs pair inside keyed).congr table log, table ▸ account.listed, table ▸ account.distinct⟩

theorem distinct_entries {β : Type} {reading : Reading β} {table : SymbolTable} (neat : table.Neat) {pairs : List Node}
    (beside : pairs.Pairwise Tends.Beside) (uri key : String) :
    ((pairs.filterMap (reading.listing? table uri key)).map Prod.fst).Nodup := by
  rw [List.Nodup, List.pairwise_map, List.pairwise_filterMap]
  refine beside.imp ?_
  rintro first second apart ⟨name, _⟩ here ⟨other, _⟩ there (rfl : name = other)
  obtain ⟨node, keyed, holds⟩ := Reading.listing?_eq_some here
  obtain ⟨node', keyed', holds'⟩ := Reading.listing?_eq_some there
  obtain ⟨usage, member, kind, place⟩ := SymbolTable.holds_iff.mp holds
  obtain ⟨usage', member', kind', place'⟩ := SymbolTable.holds_iff.mp holds'
  obtain rfl : usage = usage' :=
    neat.lone (List.mem_filter.mpr ⟨member, by rw [kind]; rfl⟩) (List.mem_filter.mpr ⟨member', by rw [kind']; rfl⟩)
  exact apart.left keyed' node (Node.mem_preorder_of_child (Node.mem_of_child? keyed.found))
    (congrArg Location.span (place.symm.trans place'))

namespace Tends

variable {β : Type} {reading : Reading β} {setup : Setup} {before : Workspace} {document : TextDocument}
  {module : ModulePath} {earlier later : Scope} {key : String} {body : Node}

/-- An account stands if nothing happens to the pairs and to what the type lists. -/
theorem account_still (tends : Tends setup before document module earlier) (onward : Tends setup before document module later)
    (still : ∀ pair ∈ body.children, ∀ {node name}, pair.Keyed node name → Still document.uri node.span earlier later)
    (contents : later.workspace.table.partAt Symbol.data (.schema key) = earlier.workspace.table.partAt Symbol.data (.schema key))
    (account : BodyAccount reading before document.uri key body earlier.workspace earlier.errors) :
    BodyAccount reading before document.uri key body later.workspace later.errors := by
  have same : body.children.filterMap (reading.listing? later.workspace.table document.uri key) =
      body.children.filterMap (reading.listing? earlier.workspace.table document.uri key) :=
    List.filterMap_congr fun pair inside => tends.listing?_still fun keyed => still pair inside keyed
  refine ⟨fun pair inside _ _ keyed => ?_, by rw [contents, same, account.listed], same ▸ account.distinct⟩
  exact tends.verdict_still onward (still pair inside keyed) (account.pairs pair inside keyed)

/-- A declaration accounts for the body of a type that it owns. -/
theorem Takes.account {declaration : Node} {take : List (String × β) × Scope → Node → List (String × β) × Scope}
    (takes : Takes reading setup before document module declaration key take) (kind : declaration.kind ≠ .injectClause)
    {scope : Scope} (tends : Tends setup before document module scope)
    (site : Attends.Site setup before document module declaration key scope)
    (fresh : ∀ pair ∈ body.children, ∀ {node name}, pair.Keyed node name → Fresh document.uri key node name scope)
    (parted : ∀ pair ∈ body.children, Parted pair) (beside : body.children.Pairwise Beside) {last : Scope}
    (ends : last = (body.children.foldl take ([], scope)).2.amend (.schema key)
      { data := some (reading.whole (body.children.foldl take ([], scope)).1) })
    (onward : Tends setup before document module last) :
    BodyAccount reading before document.uri key body last.workspace last.errors := by
  have begun : Entering reading setup before document module declaration key [] body.children ([], scope) :=
    ⟨tends, site, fun _ none => (by cases none), rfl, fresh⟩
  have entering := begun.run takes parted beside
  rw [List.nil_append] at entering
  generalize body.children.foldl take ([], scope) = entered at *
  subst ends
  have sorted := entering.tends.neat.sound.sorted
  have still : ∀ place, Still document.uri place entered.2
      (entered.2.amend (.schema key) { data := some (reading.whole entered.1) }) :=
    fun place => .write sorted false _ fun key name => SymbolPath.member_ne_schema key name _
  obtain ⟨_, usage, _, defined, _⟩ := entering.site.site.resolve_right kind
  rw [SymbolTable.definitionAt_eq] at defined
  obtain ⟨symbol, present, -⟩ := Option.bind_eq_some_iff.mp defined
  refine ⟨fun pair inside _ _ keyed => ?_, ?_, distinct_entries onward.neat beside document.uri key⟩
  · exact entering.tends.verdict_still onward (still _) (entering.accounted pair inside keyed)
  · refine (SymbolTable.partAt_amend Symbol.data present _).trans (congrArg (fun listed => some (reading.whole listed)) ?_)
    exact entering.listed.trans (List.filterMap_congr fun pair _ => (entering.tends.listing?_still fun _ => still _).symm)

end Tends

namespace Attends

variable {setup : Setup} {before : Workspace} {document : TextDocument} {module : ModulePath} {scope : Scope} {load : Loader}
  (honours : ∀ workspace uri, Honours setup workspace (load workspace uri).2) (idle : ¬before.InProgress document.uri)
  {declaration : Node} {key : String}

include honours idle

theorem defines_declarations (attends : Attends setup before document module scope) (others : List Node) :
    (others.foldl (Scope.checkDeclaration load setup) scope).Defines declaration key ↔ scope.Defines declaration key := by
  induction others generalizing scope with
  | nil => rfl
  | cons other others ih =>
    have acts : ReflTransGen (Scope.Act load setup.registries other) scope _ := attends.checkDeclaration_acts honours idle
    have onward := attends.moves honours idle (ReflTransGen.mono (fun _ _ => Scope.Act.move) _ _ acts)
    exact (ih onward).trans (attends.defines_acts honours idle acts)

theorem contents_declarations (attends : Attends setup before document module scope) {identifier : Node}
    (found : declaration.child? .identifier = some identifier) {others : List Node}
    (apart : ∀ other ∈ others, ∀ node, other.child? .identifier = some node → node.span ≠ identifier.span)
    (defines : scope.Defines declaration key) :
    (others.foldl (Scope.checkDeclaration load setup) scope).workspace.table.partAt Symbol.data (.schema key) =
      scope.workspace.table.partAt Symbol.data (.schema key) := by
  refine (attends.run honours idle (fun after => after.Defines declaration key ∧
    after.workspace.table.partAt Symbol.data (.schema key) = scope.workspace.table.partAt Symbol.data (.schema key))
    (ActOf.move setup.registries) ?_ (attends.declarations_acts honours idle others) ⟨defines, rfl⟩).2
  rintro middle after here onward ⟨other, member, act⟩ ⟨defines, same⟩
  exact ⟨(here.defines_act honours onward act).mpr defines,
    (here.contents_act honours found (apart other member) act defines).trans same⟩

end Attends

section Check

variable {β : Type} {reading : Reading β} {setup : Setup} {before : Workspace} {document : TextDocument} {load : Loader}
  (safeguards : Safeguards setup load) (neat : before.table.Neat) (needs : Needs setup before document.uri document)
  (module : ModulePath)

/-- At the start of a check nothing is said of the document, and nothing entered by it. -/
theorem startOf_fresh (neat : before.table.Neat) {node : Node} (visible : node.span.start < node.span.stop) (key name : String) :
    Fresh document.uri key node name (startOf setup (fetch setup before document.uri).2.enter document module) := by
  constructor
  case silent =>
    refine List.filter_eq_nil_iff.mpr fun diagnostic told => ?_
    have pointed := moduleOf_point _ _ diagnostic told
    rw [beq_iff_eq, pointed]
    intro here
    rw [← here] at visible
    exact absurd visible (Nat.lt_irrefl 0)
  case absent =>
    rw [table_startOf, Bool.eq_false_iff]
    intro holds
    obtain ⟨usage, member, -, here⟩ := SymbolTable.holds_iff.mp holds
    rw [SymbolTable.usagesAt_clearUri neat.sound.sorted] at member
    obtain ⟨listed, kept⟩ := List.mem_filter.mp member
    have contributor := neat.sound.entered (SymbolPath.member_ne_schema key name) listed
    simp [Usage.isCheckedFrom, here, contributor] at kept

include safeguards neat needs

/-- Where the declaration is reached nothing is said yet of its keys. -/
theorem reached_fresh {declaration body : Node} {front back : List Node}
    (children : (parse document.text setup.trailing).node.children = front ++ declaration :: back)
    (kind : declaration.kind = .struct ∨ ∃ values, declaration.kind = .enum values) {pair node : Node} {name : String}
    (place : KeyIn declaration body pair node name) (key : String) :
    Fresh document.uri key node name (front.foldl (Scope.checkDeclaration load setup)
      (waitedOf load setup (fetch setup before document.uri).2.enter document module)) := by
  have member : declaration ∈ (parse document.text setup.trailing).node.children := by simp [children]
  have others := place.others children
  have each : ∀ other ∈ (parse document.text setup.trailing).node.children,
      other.Avoids node.span ∨ Tends.NamedApart other node.span := by
    intro other among
    rw [children, List.mem_append, List.mem_cons] at among
    rcases among with ahead | rfl | behind
    · exact .inl (others other (List.mem_append_left _ ahead))
    · exact .inr ⟨kind, fun identifier found => place.named member found⟩
    · exact .inl (others other (List.mem_append_right _ behind))
  obtain ⟨waited, still⟩ := waitedOf_still safeguards neat needs module each
  obtain ⟨-, passed⟩ := Tends.declarations_still safeguards needs.idle
    (fun other ahead => others other (List.mem_append_left _ ahead)) waited
  exact passed.fresh (still.fresh (startOf_fresh module neat (place.visible member) key name))

theorem checked_tends {front back : List Node} (children : (parse document.text setup.trailing).node.children = front ++ back) :
    Tends setup before document module (front.foldl (Scope.checkDeclaration load setup)
      (waitedOf load setup (fetch setup before document.uri).2.enter document module)) :=
  (Tends.invariant safeguards.honours safeguards.retains needs.idle setup.limits module
    (parse document.text setup.trailing).node).checked rfl (Tends.start neat needs module _ : Tends setup before document module
      (startOf setup (fetch setup before document.uri).2.enter document module)) ⟨back, children.symm⟩

/-- A type that its declaration owns in the end is accounted for. -/
theorem endOf_accounted {declaration identifier body : Node} {name : String} (kind : declaration.kind = .struct ∨
      ∃ values, declaration.kind = .enum values)
    (listed : declaration ∈ (parse document.text setup.trailing).node.children)
    (found : declaration.child? .identifier = some identifier) (named : identifier.textValue? = some name)
    (holds : declaration.child? .body = some body) {take : List (String × β) × Scope → Node → List (String × β) × Scope}
    (takes : Tends.Takes reading setup before document module declaration (module.join name) take)
    (checks : ∀ scope, scope.owned? declaration = some (.schema (module.join name), body) →
      scope.checkDeclaration load setup declaration =
        (body.children.foldl take ([], scope)).2.amend (.schema (module.join name))
          { data := some (reading.whole (body.children.foldl take ([], scope)).1) })
    (defines : (endOf load setup (fetch setup before document.uri).2.enter document module).Defines declaration (module.join name)) :
    BodyAccount reading before document.uri (module.join name) body
      (endOf load setup (fetch setup before document.uri).2.enter document module).workspace
      (endOf load setup (fetch setup before document.uri).2.enter document module).errors := by
  obtain ⟨front, back, children⟩ := List.append_of_mem listed
  have honours := safeguards.honours
  have apart : ∀ other ∈ front ++ back, ∀ node, other.child? .identifier = some node → node.span ≠ identifier.span :=
    fun other member node also => Attends.identifier_apart children found named member also
  have keyIn : ∀ pair ∈ body.children, ∀ {node name'}, pair.Keyed node name' → KeyIn declaration body pair node name' :=
    fun pair inside _ _ keyed => ⟨holds, inside, keyed⟩
  have ahead := checked_tends safeguards neat needs module children
  have fresh := fun {pair node name'} (place : KeyIn declaration body pair node name') =>
    reached_fresh safeguards neat needs module children kind place (module.join name)
  have here := checked_tends safeguards neat needs module
    (children.trans (by simp) : _ = (front ++ [declaration]) ++ back)
  have waited := waitedOf_attends honours neat.sound needs module
  have last := checked_tends safeguards neat needs module (children.trans (List.append_nil _).symm)
  have reached := waited.acted honours needs.idle setup.registries (waited.declarations_acts honours needs.idle front)
  rw [endOf_eq, children, List.foldl_append, List.foldl_cons] at defines ⊢
  rw [List.foldl_append, List.foldl_cons] at last
  rw [List.foldl_append, List.foldl_cons, List.foldl_nil] at here
  generalize front.foldl (Scope.checkDeclaration load setup)
    (waitedOf load setup (fetch setup before document.uri).2.enter document module) = scope at *
  have own : ReflTransGen (Scope.Act load setup.registries declaration) scope _ := reached.checkDeclaration_acts honours needs.idle
  have passed := reached.moves honours needs.idle (ReflTransGen.mono (fun _ _ => Scope.Act.move) _ _ own)
  have defined := (passed.defines_declarations honours needs.idle back).mp defines
  have owns := (reached.defines_acts honours needs.idle own).mp defined
  have uninjected : declaration.kind ≠ .injectClause := by
    rcases kind with kind | ⟨values, kind⟩ <;> simp [kind]
  have account := takes.account uninjected ahead ⟨reached, .inl owns⟩ (fun pair inside _ _ keyed => fresh (keyIn pair inside keyed))
    (fun pair inside => parsed_parted (KeyIn.mem_pair listed holds inside)) (parsed_beside (KeyIn.mem_body listed holds))
    (checks scope (reached.owned?_of_defines found named holds owns)) here
  refine here.account_still last (fun pair inside _ _ keyed => ?_) ?_ account
  · exact (Tends.declarations_still safeguards needs.idle (fun other member =>
      (keyIn pair inside keyed).others children other (List.mem_append_right _ member)) here).2
  · exact passed.contents_declarations honours needs.idle found (fun other member =>
      apart other (List.mem_append_right _ member)) defined

end Check

structure OwnsBody (table : SymbolTable) (uri : String) (root : Node) (key : String) (declaration body : Node) : Prop where
  listed : declaration ∈ root.children
  holds : declaration.child? .body = some body
  defined : ∃ module identifier name usage, table.moduleOfUri? uri = some module ∧
    declaration.child? .identifier = some identifier ∧ identifier.textValue? = some name ∧ key = module.join name ∧
    table.definitionAt (.schema key) = some usage ∧ usage.location = ⟨uri, identifier.span⟩

section Check

variable {setup : Setup} {before : Workspace} {document : TextDocument} {load : Loader} (safeguards : Safeguards setup load)
  (neat : before.table.Neat) (needs : Needs setup before document.uri document)

include safeguards neat needs

/-- What is known in the end of a type of a document that implements a module. -/
theorem endOf_accounts {module : ModulePath} (registered : before.table.moduleOfUri? document.uri = some module) {key : String}
    {declaration body : Node} (owns : OwnsBody (endOf load setup (fetch setup before document.uri).2.enter document module).workspace.table
      document.uri (parse document.text setup.trailing).node key declaration body) :
    let last := endOf load setup (fetch setup before document.uri).2.enter document module
    (declaration.kind = .struct → BodyAccount .fields before document.uri key body last.workspace last.errors) ∧
      ∀ kind, declaration.kind = .enum kind → BodyAccount (.values kind) before document.uri key body last.workspace last.errors := by
  have attends := endOf_attends safeguards.honours neat.sound needs module
  obtain ⟨other, identifier, name, usage, home, found, named, rfl, defined, place⟩ := owns.defined
  obtain rfl : other = module := by
    rw [SymbolTable.moduleOfUri?_congr attends.entries, registered] at home
    exact (Option.some.inj home).symm
  have defines : (endOf load setup (fetch setup before document.uri).2.enter document other).Defines declaration (other.join name) :=
    ⟨identifier, usage, found, defined, place.trans (attends.locate _).symm⟩
  constructor
  · intro kind
    refine endOf_accounted safeguards neat needs other (.inl kind) owns.listed found named owns.holds
      (Tends.takes_structField safeguards needs.idle declaration _) (fun scope owned => ?_) defines
    rw [Scope.checkDeclaration, kind]
    simp only [Scope.checkStruct, owned, Scope.structFields]
    rfl
  · intro values kind
    refine endOf_accounted safeguards neat needs other (.inr ⟨values, kind⟩) owns.listed found named owns.holds
      (Tends.takes_enumValue safeguards needs.idle declaration _ values) (fun scope owned => ?_) defines
    rw [Scope.checkDeclaration, kind]
    simp only [Scope.checkEnum, owned, Scope.enumValues]
    rfl

theorem checkDocument_accounts :
    let after := (checkDocument load setup (fetch setup before document.uri).2.enter document).leave
    ∃ record, after.record? document.uri = some record ∧ ∀ key declaration body,
      OwnsBody after.table document.uri (parse document.text setup.trailing).node key declaration body →
        (declaration.kind = .struct → BodyAccount .fields before document.uri key body after record.errors) ∧
        ∀ kind, declaration.kind = .enum kind → BodyAccount (.values kind) before document.uri key body after record.errors := by
  intro after
  refine checkDocument_cases (fun workspace uri => (safeguards.honours workspace uri).loads) needs (fun after =>
    ∃ record, after.record? document.uri = some record ∧ ∀ key declaration body,
      OwnsBody after.table document.uri (parse document.text setup.trailing).node key declaration body →
        (declaration.kind = .struct → BodyAccount .fields before document.uri key body after record.errors) ∧
        ∀ kind, declaration.kind = .enum kind → BodyAccount (.values kind) before document.uri key body after record.errors)
    (fun stranger errors => ?_) fun module registered => ?_
  · obtain ⟨state, -, known⟩ := (Underway.start needs).record
    refine ⟨_, record?_concluded known _ _ _, fun key declaration body owns => ?_⟩
    obtain ⟨_, _, _, _, home, _⟩ := owns.defined
    cases stranger.symm.trans home
  · have attends := endOf_attends safeguards.honours neat.sound needs module
    obtain ⟨state, -, known⟩ := attends.underway.record
    refine ⟨_, record?_concluded known _ _ _, fun key declaration body owns => ?_⟩
    rw [table_concluded] at owns
    rw [table_entered, neat.sound.moduleOfUri?_clearUri] at registered
    obtain ⟨struct, enum⟩ := endOf_accounts safeguards neat needs registered owns
    generalize endOf load setup (fetch setup before document.uri).2.enter document module = last at struct enum ⊢
    refine ⟨fun kind => (struct kind).congr ?_ ?_, fun values kind => (enum values kind).congr ?_ ?_⟩ <;> rfl

end Check

theorem admitted_accounts {setup : Setup} {before : Workspace} {uri : String} {document : TextDocument} {load : Loader}
    (safeguards : Safeguards setup load) (neat : before.table.Neat) (admitted : (admission setup before uri).1 = .admitted document) :
    let after := (checkDocument load setup (admission setup before uri).2.enter document).leave
    ∃ record, after.record? document.uri = some record ∧ ∀ key declaration body,
      OwnsBody after.table document.uri (parse document.text setup.trailing).node key declaration body →
        (declaration.kind = .struct → BodyAccount .fields before document.uri key body after record.errors) ∧
        ∀ kind, declaration.kind = .enum kind → BodyAccount (.values kind) before document.uri key body after record.errors := by
  rw [admission_eq] at admitted ⊢
  have needs := judge_admitted admitted
  obtain rfl := provided_uri needs.provides
  exact checkDocument_accounts safeguards neat needs

/-- Whenever a document is checked, in whatever state, the body of each struct and of each enum that owns its symbol in
the end is accounted for. Each pair that has a key is entered, without a word, or one warning at the key points to the
first declaration of the member, never both; and what is listed of the type is what its pairs have entered, in order
and each name once. Only a warning that points into another document, one that was taken up anew while this check went
on, may have lost what it points to. -/
theorem bodies_accounted {base : Setup} {workspace : Workspace} (reachable : Reachable base workspace) (files : FileTree)
    {uri : String} {call : Call} (within : Call.Within (base.over files) workspace uri call) {document : TextDocument}
    (admitted : (admission (base.over files) call.workspace call.uri).1 = .admitted document) :
    let entered := (admission (base.over files) call.workspace call.uri).2.enter
    let after := (checkDocument (ensureChecked (base.over files)) (base.over files) entered document).leave
    ∃ record, after.record? document.uri = some record ∧ ∀ key declaration body,
      OwnsBody after.table document.uri (parse document.text base.trailing).node key declaration body →
        (declaration.kind = .struct → BodyAccount .fields call.workspace document.uri key body after record.errors) ∧
        ∀ kind, declaration.kind = .enum kind →
          BodyAccount (.values kind) call.workspace document.uri key body after record.errors :=
  admitted_accounts (ensureChecked_safeguards (base.over files)) (within.neat reachable.neat) admitted

/-- The documents of `::a` and `::b` were checked, and then both were given other texts. -/
def reopenedWorkspace (left right edited other : String) : Workspace :=
  { ((pairWorkspace left right).checkAll (({} : Setup).over {})).2 with
    documents := { opened := [⟨"file:///a.sdoc", 2, edited⟩, ⟨"file:///b.sdoc", 2, other⟩] } }

theorem reopenedWorkspace_reachable (left right edited other : String) : Reachable {} (reopenedWorkspace left right edited other) :=
  ((pairWorkspace_reachable {} left right).checkAll {}).edit _

theorem exists_ownsBody {table : SymbolTable} {uri name : String} {root : Node} {module : ModulePath} {kind : Node.Kind}
    (home : table.moduleOfUri? uri = some module) (bears : ∃ declaration ∈ root.children, declaration.Bears table uri module kind name) :
    ∃ declaration body, declaration.kind = kind ∧ OwnsBody table uri root (module.join name) declaration body := by
  obtain ⟨declaration, listed, is, bodied, identifier, found, named, usage, defined, place⟩ := bears
  obtain ⟨body, holds⟩ := Option.isSome_iff_exists.mp bodied
  exact ⟨declaration, body, is, listed, holds, module, identifier, name, usage, home, found, named, rfl, defined, place⟩

def memberNames : SchemaType → List String
  | .struct fields => fields.map Prod.fst
  | .enum _ values => values.map Prod.fst
  | _ => []

/-- A key in quotes repeats a name, and one name is taken by what `::b` injects. -/
theorem bodies_accounted_injected :
    let text := "struct S \x7b x: int, \"x\": S, y: int, z: [S] \x7d enum(int) E \x7b A = 1, \"A\" = 2 \x7d"
    let injection := "inject struct ::a::S { y: int }"
    let workspace := reopenedWorkspace "struct S { x: int }" injection text injection
    let document : TextDocument := ⟨"file:///a.sdoc", 2, text⟩
    let after := (checkDocument (ensureChecked (({} : Setup).over {})) (({} : Setup).over {})
      (admission (({} : Setup).over {}) workspace document.uri).2.enter document).leave
    Reachable {} workspace ∧ (admission (({} : Setup).over {}) workspace document.uri).1 = .admitted document ∧
      ∃ record, after.record? document.uri = some record ∧
        (∃ declaration body, declaration.kind = .struct ∧
          OwnsBody after.table document.uri (parse text .allowed).node "::a::S" declaration body ∧
          (after.table.partAt Symbol.data (.schema "::a::S")).map memberNames = some ["x", "z"] ∧
          BodyAccount .fields workspace document.uri "::a::S" body after record.errors) ∧
        ∃ declaration body, declaration.kind = .enum (some .int) ∧
          OwnsBody after.table document.uri (parse text .allowed).node "::a::E" declaration body ∧
          (after.table.partAt Symbol.data (.schema "::a::E")).map memberNames = some ["A"] ∧
          BodyAccount (.values (some .int)) workspace document.uri "::a::E" body after record.errors := by
  intro text injection workspace document after
  have reachable : Reachable {} workspace := reopenedWorkspace_reachable _ _ _ _
  have within : Call.Within (({} : Setup).over {}) workspace document.uri ⟨workspace, document.uri, []⟩ := .outermost
  have admitted : (admission (({} : Setup).over {}) workspace document.uri).1 = .admitted document :=
    admission_admitted (by decide +kernel) (by decide +kernel)
  obtain ⟨record, known, accounts⟩ := bodies_accounted reachable {} within admitted
  have facts : (∃ declaration ∈ (parse text .allowed).node.children, declaration.Bears after.table "file:///a.sdoc" ⟨["a"]⟩ .struct "S") ∧
      (∃ declaration ∈ (parse text .allowed).node.children, declaration.Bears after.table "file:///a.sdoc" ⟨["a"]⟩ (.enum (some .int)) "E") ∧
      after.table.moduleOfUri? "file:///a.sdoc" = some ⟨["a"]⟩ ∧
      (after.table.partAt Symbol.data (.schema "::a::S")).map memberNames = some ["x", "z"] ∧
      (after.table.partAt Symbol.data (.schema "::a::E")).map memberNames = some ["A"] := by decide +kernel
  obtain ⟨struct, enum, home, fields, values⟩ := facts
  obtain ⟨declaration, body, kind, owns⟩ := exists_ownsBody home struct
  obtain ⟨declaration', body', kind', owns'⟩ := exists_ownsBody home enum
  exact ⟨reachable, admitted, record, known,
    ⟨declaration, body, kind, owns, fields, (accounts _ declaration body owns).1 kind⟩,
    declaration', body', kind', owns', values, (accounts _ declaration' body' owns').2 _ kind'⟩

/-- A field that is lost for nothing: it is neither entered, nor does the warning at its key point to a declaration of the
member, since there is none. The one that it points to was injected by `::b`, which is taken up anew for the type of the
next field. -/
theorem field_lost_to_member_taken_back :
    let text := "struct S { y: int, z: ::b::T }"
    let workspace := reopenedWorkspace "struct S { x: int }" "inject struct ::a::S { y: int }" text "struct T {}"
    let document : TextDocument := ⟨"file:///a.sdoc", 2, text⟩
    let after := (checkDocument (ensureChecked {}) {} (admission {} workspace document.uri).2.enter document).leave
    Reachable {} workspace ∧ (admission {} workspace document.uri).1 = .admitted document ∧
      ∃ record declaration body, after.record? document.uri = some record ∧ declaration.kind = .struct ∧
        OwnsBody after.table document.uri (parse text .allowed).node "::a::S" declaration body ∧
        ∃ pair ∈ body.children, ∃ node, pair.Keyed node "y" ∧
          after.table.declarationsAt ((SymbolPath.schema "::a::S").member "y") = [] ∧
          ∃ first, record.errors.filter (·.span == node.span) = [repeated "y" node.span first] := by
  intro text workspace document after
  have reachable : Reachable {} workspace := reopenedWorkspace_reachable _ _ _ _
  have admitted : (admission {} workspace document.uri).1 = .admitted document :=
    admission_admitted (by decide +kernel) (by decide +kernel)
  have facts : (∃ declaration ∈ (parse text .allowed).node.children, declaration.Bears after.table document.uri ⟨["a"]⟩ .struct "S" ∧
        ∃ body ∈ declaration.child? .body, ∃ pair ∈ body.children, ∃ node ∈ pair.child? .key, node.textValue? = some "y") ∧
      after.table.moduleOfUri? document.uri = some ⟨["a"]⟩ ∧
      after.table.usagesAt ((SymbolPath.schema "::a::S").member "y") = [] := by decide +kernel
  obtain ⟨⟨declaration, listed, ⟨kind, -, identifier, found, named, usage, defined, place⟩, body, holds, pair, inside, node, first,
    spelled⟩, home, nothing⟩ := facts
  have owns : OwnsBody after.table document.uri (parse text .allowed).node "::a::S" declaration body :=
    ⟨listed, holds, ⟨["a"]⟩, identifier, "S", usage, home, found, named, rfl, defined, place⟩
  have keyed : pair.Keyed node "y" := ⟨first, spelled⟩
  have undeclared : after.table.declarationsAt ((SymbolPath.schema "::a::S").member "y") = [] := by
    rw [SymbolTable.declarationsAt, nothing, List.filter_nil]
  obtain ⟨record, known, accounts⟩ := admitted_accounts (ensureChecked_safeguards {}) reachable.neat admitted
  refine ⟨reachable, admitted, record, declaration, body, known, kind, owns, pair, inside, node, keyed, undeclared, ?_⟩
  cases ((accounts _ declaration body owns).1 kind).pairs pair inside keyed with
  | entered entered => rw [SymbolTable.holds, nothing] at entered; cases entered
  | rejected first _ told => exact ⟨first, told⟩

end Workspace

end SchemaDoc
