import SchemaDoc.Proofs.TableViews
import SchemaDoc.Proofs.UsagePlaces

/-! Who may declare what. The addresses of the schema fall into zones, one for each document that a layout
registers: the names in its module and their members. Without inject clauses a document declares in its own
zone only. A table is laid over the one that the layout left when every zone holds what the layout put there
and, behind it, what checking its document added. -/

namespace SchemaDoc

/-- What a layout leaves in an empty table, with no module implemented twice. -/
structure Groundwork (origin : SymbolTable) : Prop where
  sorted : Sorted origin.symbols
  usages : ∀ address, ∀ usage ∈ origin.usagesAt address, ∃ uri, usage = SymbolTable.implementation uri
  modules : ∀ address, ∀ usage ∈ origin.usagesAt address,
    ∃ path : ModulePath, path.Plain ∧ address = .schema path.display
  aliases : ∀ address, origin.aliasAt address = none
  distinct : ∀ {module first second}, (module, first) ∈ origin.moduleUris → (module, second) ∈ origin.moduleUris →
    first = second

/-- The addresses of what the document declares: the names in its module and their members. -/
def Zone (origin : SymbolTable) (uri : String) (address : SymbolPath) : Prop :=
  ∃ module name members, origin.moduleOfUri? uri = some module ∧ IsPlain name ∧
    address = ⟨.schema, module.join name :: members⟩

theorem Zone.schema {origin : SymbolTable} {uri : String} {address : SymbolPath} (zone : Zone origin uri address) :
    address.category = .schema := by
  obtain ⟨_, _, _, _, _, rfl⟩ := zone
  rfl

namespace SymbolTable

theorem mem_moduleUris {table : SymbolTable} {symbol : Symbol} (member : symbol ∈ table.modules) {uri : String}
    (implements : uri ∈ implementers symbol) : (ModulePath.parse symbol.identifier, uri) ∈ table.moduleUris :=
  List.mem_flatMap.mpr ⟨symbol, member, List.mem_map.mpr ⟨uri, implements, rfl⟩⟩

theorem mem_moduleUris_of_moduleOfUri? {table : SymbolTable} {uri : String} {module : ModulePath}
    (implemented : table.moduleOfUri? uri = some module) : (module, uri) ∈ table.moduleUris := by
  obtain ⟨symbol, found, rfl⟩ := Option.map_eq_some_iff.mp implemented
  exact mem_moduleUris (List.mem_of_find?_eq_some found) (by simpa using List.find?_some found)

theorem mem_moduleUris_of_uriOfModule? {table : SymbolTable} {uri : String} {module : ModulePath}
    (implemented : table.uriOfModule? module = some uri) :
    (ModulePath.parse module.display, uri) ∈ table.moduleUris := by
  obtain ⟨symbol, found, chosen⟩ := Option.bind_eq_some_iff.mp implemented
  obtain ⟨kind, first⟩ := Option.ite_none_right_eq_some.mp chosen
  have address : symbol.address = .schema module.display := symbolAt?_address found
  have member : symbol ∈ table.modules := by
    have among : symbol ∈ table.symbols := List.mem_of_find?_eq_some found
    refine List.mem_filter.mpr ⟨List.mem_filter.mpr ⟨among, ?_⟩, by simpa using kind⟩
    simp [address, SymbolPath.schema]
  have listed := mem_moduleUris member (List.mem_of_head? first)
  rwa [Symbol.identifier, address] at listed

theorem isSome_moduleOfUri? {table : SymbolTable} {uri : String} {module : ModulePath}
    (listed : (module, uri) ∈ table.moduleUris) : (table.moduleOfUri? uri).isSome := by
  obtain ⟨symbol, member, inside⟩ := List.mem_flatMap.mp listed
  obtain ⟨other, implements, same⟩ := List.mem_map.mp inside
  cases same
  rw [moduleOfUri?, Option.isSome_map, List.find?_isSome]
  exact ⟨symbol, member, by simpa using implements⟩

end SymbolTable

section Zones

variable {origin : SymbolTable} (ground : Groundwork origin)

include ground

theorem Groundwork.plain {uri : String} {module : ModulePath} (implemented : origin.moduleOfUri? uri = some module) :
    module.Plain ∧ module.Solid := by
  obtain ⟨symbol, found, rfl⟩ := Option.map_eq_some_iff.mp implemented
  refine ⟨?_, ModulePath.solid_parse _⟩
  have implements : uri ∈ SymbolTable.implementers symbol := by simpa using List.find?_some found
  obtain ⟨usage, listed, -⟩ := List.mem_map.mp implements
  have among : symbol ∈ origin.symbols := List.mem_of_mem_filter (List.mem_of_mem_filter (List.mem_of_find?_eq_some found))
  have used : usage ∈ origin.usagesAt symbol.address := by
    rw [SymbolTable.usagesAt, SymbolTable.lookup?_of_mem ground.sorted among]
    exact List.mem_of_mem_filter listed
  obtain ⟨path, plain, address⟩ := ground.modules symbol.address usage used
  rw [Symbol.identifier, address]
  exact ModulePath.plain_parse_display plain

/-- Who else declares in a module implements it. -/
theorem Groundwork.zone_of_module {module : ModulePath} (plain : module.Plain) {name : String} (named : IsPlain name)
    {members : List String} {uri owner : String} (listed : (module, owner) ∈ origin.moduleUris)
    (zone : Zone origin uri ⟨.schema, module.join name :: members⟩) : uri = owner := by
  obtain ⟨other, called, below, implemented, alsoNamed, same⟩ := zone
  obtain ⟨keys, -⟩ := List.cons.inj (SymbolPath.mk.inj same).2
  obtain ⟨rfl, -⟩ := ModulePath.join_injective plain (ground.plain implemented).1 named alsoNamed keys
  exact ground.distinct (SymbolTable.mem_moduleUris_of_moduleOfUri? implemented) listed

theorem Groundwork.zone_unique {first second : String} {address : SymbolPath} (zone : Zone origin first address)
    (also : Zone origin second address) : first = second := by
  obtain ⟨module, name, members, implemented, named, rfl⟩ := also
  exact ground.zone_of_module (ground.plain implemented).1 named
    (SymbolTable.mem_moduleUris_of_moduleOfUri? implemented) zone

theorem Groundwork.declarations {address : SymbolPath} {usage : Usage} (member : usage ∈ origin.declarationsAt address) :
    ∃ uri, usage = SymbolTable.implementation uri :=
  ground.usages address usage (List.mem_of_mem_filter member)

end Zones

/-- The table is that of the layout with what checks have added. -/
structure Laid (origin table : SymbolTable) : Prop where
  sorted : Sorted table.symbols
  entries : table.entries = origin.entries
  implementations : ∀ address, ∀ usage ∈ table.usagesAt address, usage.kind = .implementation →
    ∃ uri, usage = SymbolTable.implementation uri
  own : ∀ uri address, Zone origin uri address →
    (table.declarationsAt address).filter (fun usage => !usage.isCheckedFrom uri) = origin.declarationsAt address
  aliases : ∀ uri address, Zone origin uri address → table.aliasAt address ≠ none →
    origin.declarationsAt address = [] ∧ table.declarationsAt address ≠ []
  outside : ∀ address, address.category = .schema → (∀ uri, ¬Zone origin uri address) →
    table.viewAt address = origin.viewAt address

namespace Laid

variable {origin table : SymbolTable}

theorem refl (ground : Groundwork origin) : Laid origin origin where
  sorted := ground.sorted
  entries := rfl
  implementations address usage member _ := ground.usages address usage member
  own uri address _ := by
    refine List.filter_eq_self.mpr fun usage member => ?_
    obtain ⟨other, rfl⟩ := ground.declarations member
    rfl
  aliases uri address _ linked := absurd (ground.aliases address) linked
  outside _ _ _ := rfl

theorem moduleOfUri? (laid : Laid origin table) (uri : String) : table.moduleOfUri? uri = origin.moduleOfUri? uri := by
  rw [SymbolTable.moduleOfUri?_eq, SymbolTable.moduleOfUri?_eq, laid.entries]

theorem uriOfModule? (ground : Groundwork origin) (laid : Laid origin table) (module : ModulePath) :
    table.uriOfModule? module = origin.uriOfModule? module := by
  rw [SymbolTable.uriOfModule?_eq laid.sorted, SymbolTable.uriOfModule?_eq ground.sorted, laid.entries]

/-- What declares an address is of the layout or of the document whose zone it is. -/
theorem declaration (ground : Groundwork origin) (laid : Laid origin table) {uri : String} {address : SymbolPath}
    (zone : Zone origin uri address) {usage : Usage} (member : usage ∈ table.declarationsAt address) :
    usage.isCheckedFrom uri = true ∨ ∃ other, usage = SymbolTable.implementation other := by
  by_cases checked : usage.isCheckedFrom uri = true
  · exact .inl checked
  · have kept : usage ∈ origin.declarationsAt address := by
      rw [← laid.own uri address zone]
      exact List.mem_filter.mpr ⟨member, by simpa using checked⟩
    exact .inr (ground.declarations kept)

/-- An address that its document does not see declared is not declared at all. -/
theorem declarationsAt_of_free (ground : Groundwork origin) (laid : Laid origin table) {uri : String}
    {address : SymbolPath} (zone : Zone origin uri address) (free : Query.sees table uri address = false) :
    table.declarationsAt address = [] := by
  rw [SymbolTable.sees_eq] at free
  refine List.eq_nil_iff_forall_not_mem.mpr fun usage member => ?_
  have unseen := List.any_eq_false.mp free usage member
  rcases laid.declaration ground zone member with checked | ⟨other, rfl⟩
  · simp only [Usage.isCheckedFrom, Bool.and_eq_true] at checked
    simp [checked.2] at unseen
  · simp [SymbolTable.implementation] at unseen

end Laid

namespace Laid

variable {origin table : SymbolTable}

theorem layout_of_kind (laid : Laid origin table) (address : SymbolPath) :
    ∀ usage ∈ table.usagesAt address, usage.kind = .implementation → usage.contributor = .layout := by
  intro usage member kind
  obtain ⟨uri, rfl⟩ := laid.implementations address usage member kind
  rfl

theorem declarationsAt_clearUri (laid : Laid origin table) (uri : String) (address : SymbolPath) :
    (table.clearUri uri).declarationsAt address =
      (table.declarationsAt address).filter fun usage => !usage.isCheckedFrom uri := by
  rw [SymbolTable.declarationsAt, SymbolTable.usagesAt_clearUri laid.sorted, List.filter_filter,
    SymbolTable.declarationsAt, List.filter_filter]
  simp only [Bool.and_comm]

/-- Nothing changes where no declaration is taken back. -/
theorem viewAt_clearUri_of_kept (laid : Laid origin table) {uri : String} {address : SymbolPath}
    (kept : ∀ usage ∈ table.declarationsAt address, usage.isCheckedFrom uri = false)
    (declared : table.aliasAt address ≠ none → table.declarationsAt address ≠ []) :
    (table.clearUri uri).viewAt address = table.viewAt address := by
  have same : (table.clearUri uri).declarationsAt address = table.declarationsAt address := by
    rw [laid.declarationsAt_clearUri, List.filter_eq_self]
    intro usage member
    simp [kept usage member]
  rw [SymbolTable.viewAt, same, SymbolTable.aliasAt_clearUri laid.sorted, SymbolTable.viewAt]
  split
  · rfl
  · next undeclared =>
    rw [SymbolTable.isDeclaredAt_iff, same] at undeclared
    rw [not_imp_comm.mp declared undeclared]

theorem viewAt_clearUri_other (ground : Groundwork origin) (laid : Laid origin table) {uri other : String}
    (apart : other ≠ uri) {address : SymbolPath} (zone : Zone origin other address) :
    (table.clearUri uri).viewAt address = table.viewAt address := by
  refine laid.viewAt_clearUri_of_kept ?_ fun linked => (laid.aliases other address zone linked).2
  intro usage member
  rcases laid.declaration ground zone member with checked | ⟨_, rfl⟩
  · simp only [Usage.isCheckedFrom, Bool.and_eq_true, beq_iff_eq] at checked
    simp [Usage.isCheckedFrom, checked.2, apart]
  · rfl

theorem viewAt_clearUri_own (ground : Groundwork origin) (laid : Laid origin table) {uri : String}
    {address : SymbolPath} (zone : Zone origin uri address) :
    (table.clearUri uri).viewAt address = origin.viewAt address := by
  have same : (table.clearUri uri).declarationsAt address = origin.declarationsAt address := by
    rw [laid.declarationsAt_clearUri, laid.own uri address zone]
  rw [SymbolTable.viewAt, same, SymbolTable.aliasAt_clearUri laid.sorted, SymbolTable.viewAt, ground.aliases]
  split
  · next declared =>
    rw [SymbolTable.isDeclaredAt_iff, same] at declared
    by_cases linked : table.aliasAt address = none
    · rw [linked]
    · exact absurd (laid.aliases uri address zone linked).1 declared
  · rfl

theorem clearUri (ground : Groundwork origin) (laid : Laid origin table) (uri : String) :
    Laid origin (table.clearUri uri) := by
  constructor
  case sorted => exact SymbolTable.sorted_clearUri laid.sorted uri
  case entries => rw [SymbolTable.entries_clearUri laid.sorted laid.layout_of_kind, laid.entries]
  case implementations =>
    intro address usage member
    rw [SymbolTable.usagesAt_clearUri laid.sorted] at member
    exact laid.implementations address usage (List.mem_of_mem_filter member)
  case own =>
    intro other address zone
    by_cases same : other = uri
    · subst same
      rw [laid.declarationsAt_clearUri, laid.own other address zone, List.filter_eq_self]
      intro usage member
      obtain ⟨_, rfl⟩ := ground.declarations member
      rfl
    · have view := laid.viewAt_clearUri_other ground same zone
      rw [(Prod.mk.inj view).1, laid.own other address zone]
  case aliases =>
    intro other address zone linked
    by_cases same : other = uri
    · subst same
      have view := laid.viewAt_clearUri_own ground zone
      rw [(Prod.mk.inj view).2, ground.aliases] at linked
      exact absurd rfl linked
    · have view := laid.viewAt_clearUri_other ground same zone
      rw [(Prod.mk.inj view).2] at linked
      rw [(Prod.mk.inj view).1]
      exact laid.aliases other address zone linked
  case outside =>
    intro address schema nobody
    have view := laid.outside address schema nobody
    rw [← view]
    refine laid.viewAt_clearUri_of_kept ?_ ?_
    · intro usage member
      rw [(Prod.mk.inj view).1] at member
      obtain ⟨_, rfl⟩ := ground.declarations member
      rfl
    · intro linked
      rw [(Prod.mk.inj view).2, ground.aliases] at linked
      exact absurd rfl linked

end Laid

structure Pass.Fits (pass : Pass) (origin : SymbolTable) : Prop where
  home : origin.moduleOfUri? pass.uri = some pass.module
  legible : ∃ text, pass.root.AllLegible text
  own : ∀ clause ∈ pass.root.children, clause.kind ≠ .injectClause

namespace Pass

variable {origin : SymbolTable} {pass : Pass} {Resolved : Scope → Node → SymbolPath → Prop}
  {Known : Scope → SymbolPath → Prop} {scope : Scope}
  {creates : Bool} {address : SymbolPath} {record : SymbolRecord}

theorem Fits.zone (fits : pass.Fits origin) {node : Node} {name : String} (names : pass.Names node name)
    (members : List String) : Zone origin pass.uri ⟨.schema, pass.module.join name :: members⟩ := by
  obtain ⟨text, legible⟩ := fits.legible
  exact ⟨_, name, members, fits.home, (names.isWrittenAt legible).word.isPlain, rfl⟩

theorem Fits.container (fits : pass.Fits origin) {Ever : Node → SymbolPath → Prop} {container : SymbolPath}
    (inside : pass.Container Ever container) :
    ∃ node name, pass.Names node name ∧ container = .schema (pass.module.join name) := by
  cases inside with
  | own names => exact ⟨_, _, names, rfl⟩
  | injected member kind _ => exact absurd kind (fits.own _ member)

theorem Fits.asks (fits : pass.Fits origin) {Ever : Node → SymbolPath → Prop} (asks : pass.Asks Ever address) :
    Zone origin pass.uri address := by
  cases asks with
  | name names => exact fits.zone names []
  | field inside name =>
    obtain ⟨node, name, names, rfl⟩ := fits.container inside
    exact fits.zone names _

theorem Fits.goal (ground : Groundwork origin) (fits : pass.Fits origin) {path : Node} {goal : PathTarget}
    (leads : pass.Leads path goal) : goal.module.Plain ∧ goal.module.Solid ∧ IsPlain goal.name := by
  obtain ⟨text, legible⟩ := fits.legible
  obtain ⟨plain, solid⟩ := ground.plain fits.home
  refine ⟨(leads.walk legible plain).1, ?_, (leads.name legible).word.isPlain⟩
  obtain ⟨_, start, chosen, walked⟩ := walkPath_inversion leads.walked
  have words : ∀ segment ∈ (pathSegments path).dropLast, IsWord segment.1 := fun segment among =>
    (legible.segment leads.onTree (List.dropLast_subset _ among)).word
  have origin : start.Solid := by
    rcases chosen with rfl | rfl
    · exact solid
    · exact fun _ member => by cases member
  exact (walkModules_visits ModulePath.Solid.parent (fun segment among _ solid => solid.child (words segment among).1)
    origin walked).1

structure Declares (pass : Pass) (Resolved : Scope → Node → SymbolPath → Prop) (scope : Scope) (creates : Bool)
    (address : SymbolPath) (record : SymbolRecord) : Prop where
  present : creates = true ∨ (scope.workspace.table.lookup? address).isSome
  usage : ∃ usage, record.usage = some usage ∧ usage.kind.isDeclaring = true ∧ usage.isCheckedFrom pass.uri = true
  kept : record.subcategory = none ∨ address.path.length ≠ 1 ∨
    Query.sees scope.workspace.table pass.uri address = false
  linked : ∀ target, record.relations.aliasOf = some target →
    Query.sees scope.workspace.table pass.uri address = false ∧
      ∃ path node name, path.children.getLast? = some node ∧ node.textValue? = some name ∧
        address = .schema (pass.module.join name) ∧ Resolved scope path target

/-- What a pass writes is quiet, or about an object, or a declaration in its own zone. -/
theorem Fits.writes (fits : pass.Fits origin) (writes : pass.Writes Resolved Known scope creates address record) :
    record.IsQuiet ∧ record.subcategory = none ∨ address.category ≠ .schema ∧ record.subcategory = none ∨
      Zone origin pass.uri address ∧ pass.Declares Resolved scope creates address record := by
  cases writes with
  | type member found value free sort =>
    refine .inr (.inr ⟨fits.zone (.declared member found value) [], ?_⟩)
    exact ⟨.inl rfl, ⟨_, rfl, rfl, by simp [Usage.isCheckedFrom]⟩, .inr (.inr (Query.sees_of_declared? free)), by simp⟩
  | @module declaration node name member found value known =>
    refine .inr (.inr ⟨fits.zone (.declared member found value) [], ?_⟩)
    have present : (scope.workspace.table.lookup? (.schema (pass.module.child name).display)).isSome := by
      obtain ⟨uri, implemented⟩ := Option.isSome_iff_exists.mp known
      obtain ⟨symbol, here, _⟩ := Option.bind_eq_some_iff.mp implemented
      rw [here]
      rfl
    exact ⟨.inr present, ⟨_, rfl, rfl, by simp [Usage.isCheckedFrom]⟩, .inl rfl, by simp⟩
  | @use clause path node name target member found last value free resolved visibility =>
    refine .inr (.inr ⟨fits.zone (.used member found last value) [], ?_⟩)
    refine ⟨.inl rfl, ⟨_, rfl, rfl, by simp [Usage.isCheckedFrom]⟩, .inl rfl, ?_⟩
    rintro _ ⟨⟩
    exact ⟨Query.sees_of_declared? free, path, node, name, last, value, rfl, resolved⟩
  | mention leads member => exact .inl ⟨by simp [SymbolRecord.IsQuiet], rfl⟩
  | reference leads resolved => exact .inl ⟨by simp [SymbolRecord.IsQuiet], rfl⟩
  | @field container key pair name inside member found value free subcategory data =>
    obtain ⟨node, called, names, rfl⟩ := fits.container inside
    refine .inr (.inr ⟨fits.zone names _, ?_⟩)
    exact ⟨.inl rfl, ⟨_, rfl, rfl, by simp [Usage.isCheckedFrom]⟩, .inr (.inl (by simp [SymbolPath.member, SymbolPath.schema])),
      by simp⟩
  | data names type => exact .inl ⟨by simp [SymbolRecord.IsQuiet], rfl⟩
  | object registry name span target => exact .inr (.inl ⟨by simp, rfl⟩)

/-- The same is written in another scope where the same is free, implemented and resolved. -/
theorem Fits.transport (fits : pass.Fits origin) {Resolved' : Scope → Node → SymbolPath → Prop}
    {Known' : Scope → SymbolPath → Prop} {other : Scope}
    (writes : pass.Writes Resolved Known scope creates address record)
    (free : ∀ address, Zone origin pass.uri address →
      (Query.start scope.workspace.table pass.uri address).declared? = none →
      (Query.start other.workspace.table pass.uri address).declared? = none)
    (known : ∀ module, scope.workspace.table.uriOfModule? module = other.workspace.table.uriOfModule? module)
    (resolves : ∀ path target, Resolved scope path target → Resolved' other path target)
    (remembers : ∀ target, Known scope target → Known' other target) :
    pass.Writes Resolved' Known' other creates address record := by
  cases writes with
  | type member found value unseen sort =>
    exact .type member found value (free _ (fits.zone (.declared member found value) []) unseen) sort
  | module member found value implemented => exact .module member found value (known _ ▸ implemented)
  | use member found last value unseen resolved visibility known =>
    exact .use member found last value (free _ (fits.zone (.used member found last value) []) unseen)
      (resolves _ _ resolved) visibility (remembers _ known)
  | mention leads member => exact .mention leads member
  | reference leads resolved => exact .reference leads (resolves _ _ resolved)
  | field inside member found value unseen subcategory data known =>
    obtain ⟨node, called, names, rfl⟩ := fits.container inside
    exact .field (.own names) member found value (free _ (fits.zone names _) unseen) subcategory data
      fun type given target among => remembers target (known type given target among)
  | data names type known => exact .data names type fun target among => remembers target (known target among)
  | object registry name span target known =>
    exact .object registry name span target fun found given => remembers found (known found given)

end Pass

namespace Laid

variable {origin : SymbolTable} {pass : Pass} {Resolved : Scope → Node → SymbolPath → Prop}
  {Known : Scope → SymbolPath → Prop} {scope : Scope}
  {creates : Bool} {address : SymbolPath} {record : SymbolRecord}

theorem viewAt_write_outside (laid : Laid origin scope.workspace.table) (fits : pass.Fits origin)
    (writes : pass.Writes Resolved Known scope creates address record) {other : SymbolPath} (schema : other.category = .schema)
    (foreign : ¬Zone origin pass.uri other) :
    (scope.write creates address record).workspace.table.viewAt other = scope.workspace.table.viewAt other := by
  rcases fits.writes writes with ⟨quiet, _⟩ | ⟨object, _⟩ | ⟨zone, _⟩
  · exact SymbolTable.viewAt_write_quiet laid.sorted creates address quiet other
  · refine SymbolTable.viewAt_write_apart laid.sorted creates address record ?_
    rintro rfl
    exact object schema
  · refine SymbolTable.viewAt_write_apart laid.sorted creates address record ?_
    rintro rfl
    exact foreign zone

/-- What a declaration adds in the zone. -/
theorem viewAt_declares (laid : Laid origin scope.workspace.table) (zone : Zone origin pass.uri address)
    (declares : pass.Declares Resolved scope creates address record) {usage : Usage} (used : record.usage = some usage)
    (declaring : usage.kind.isDeclaring = true) :
    (scope.write creates address record).workspace.table.viewAt address =
      (scope.workspace.table.declarationsAt address ++ [usage],
        record.relations.aliasOf <|> scope.workspace.table.aliasAt address) := by
  have some : address.path ≠ [] := by
    obtain ⟨_, _, _, _, _, rfl⟩ := zone
    exact List.cons_ne_nil _ _
  have view := SymbolTable.viewAt_write_here laid.sorted creates some declares.present record
  rw [used] at view
  refine view.trans ?_
  simp [declaring]

theorem viewAt_write_same {Resolved' : Scope → Node → SymbolPath → Prop} {Known' : Scope → SymbolPath → Prop} {twin : Scope}
    (laid : Laid origin scope.workspace.table) (laid' : Laid origin twin.workspace.table) (fits : pass.Fits origin)
    (writes : pass.Writes Resolved Known scope creates address record)
    (writes' : pass.Writes Resolved' Known' twin creates address record) {other : SymbolPath} (schema : other.category = .schema)
    (same : scope.workspace.table.viewAt other = twin.workspace.table.viewAt other) :
    (scope.write creates address record).workspace.table.viewAt other =
      (twin.write creates address record).workspace.table.viewAt other := by
  have apart : other ≠ address → (scope.write creates address record).workspace.table.viewAt other =
      (twin.write creates address record).workspace.table.viewAt other := by
    intro differs
    have left := SymbolTable.viewAt_write_apart laid.sorted creates address record differs
    have right := SymbolTable.viewAt_write_apart laid'.sorted creates address record differs
    exact left.trans (same.trans right.symm)
  rcases fits.writes writes with ⟨quiet, _⟩ | ⟨object, _⟩ | ⟨zone, declares⟩
  · have left := SymbolTable.viewAt_write_quiet laid.sorted creates address quiet other
    have right := SymbolTable.viewAt_write_quiet laid'.sorted creates address quiet other
    exact left.trans (same.trans right.symm)
  · exact apart fun here => object (here ▸ schema)
  · by_cases here : other = address
    · subst here
      obtain ⟨usage, used, declaring, _⟩ := declares.usage
      have declares' : pass.Declares Resolved' twin creates other record := by
        rcases fits.writes writes' with ⟨quiet, _⟩ | ⟨object, _⟩ | ⟨_, declares'⟩
        · rw [quiet.1 usage used] at declaring
          cases declaring
        · exact absurd schema object
        · exact declares'
      obtain ⟨declarations, links⟩ := Prod.mk.inj same
      rw [laid.viewAt_declares zone declares used declaring, laid'.viewAt_declares zone declares' used declaring,
        declarations, links]
    · exact apart here

/-- Only what is seen of the schema counts. -/
theorem congr {table after : SymbolTable} (laid : Laid origin table) (sorted : Sorted after.symbols)
    (entries : after.entries = table.entries)
    (implementations : ∀ address, ∀ usage ∈ after.usagesAt address, usage.kind = .implementation →
      ∃ uri, usage = SymbolTable.implementation uri)
    (views : ∀ address : SymbolPath, address.category = .schema → after.viewAt address = table.viewAt address) :
    Laid origin after := by
  have seen : ∀ uri address, Zone origin uri address → after.declarationsAt address = table.declarationsAt address ∧
      after.aliasAt address = table.aliasAt address :=
    fun uri address zone => Prod.mk.inj (views address zone.schema)
  refine ⟨sorted, entries.trans laid.entries, implementations, ?_, ?_, ?_⟩
  · intro uri address zone
    rw [(seen uri address zone).1, laid.own uri address zone]
  · intro uri address zone
    rw [(seen uri address zone).1, (seen uri address zone).2]
    exact laid.aliases uri address zone
  · intro address schema nobody
    rw [views address schema, laid.outside address schema nobody]

theorem implementations_write (laid : Laid origin scope.workspace.table)
    (writes : pass.Writes Resolved Known scope creates address record) (other : SymbolPath) :
    ∀ usage ∈ (scope.write creates address record).workspace.table.usagesAt other,
      usage.kind = .implementation → ∃ uri, usage = SymbolTable.implementation uri := by
  intro usage member kind
  obtain ⟨added, same, given⟩ := SymbolTable.usagesAt_write laid.sorted creates address record other
  rcases List.mem_append.mp (same ▸ member) with earlier | new
  · exact laid.implementations other usage earlier kind
  · exact absurd kind (writes.kind_ne usage (given usage new).2)

/-- A declaration changes what is seen at its own address only, and there it adds itself. -/
theorem write_declares (ground : Groundwork origin) (laid : Laid origin scope.workspace.table)
    (writes : pass.Writes Resolved Known scope creates address record) (zone : Zone origin pass.uri address)
    (declares : pass.Declares Resolved scope creates address record) :
    Laid origin (scope.write creates address record).workspace.table := by
  obtain ⟨usage, used, declaring, checked⟩ := declares.usage
  obtain ⟨declared, linked⟩ := Prod.mk.inj (laid.viewAt_declares zone declares used declaring)
  have apart : ∀ other, other ≠ address →
      (scope.write creates address record).workspace.table.viewAt other = scope.workspace.table.viewAt other :=
    fun other differs => SymbolTable.viewAt_write_apart laid.sorted creates address record differs
  constructor
  case sorted => exact SymbolTable.sorted_write laid.sorted creates address record
  case entries =>
    refine (SymbolTable.entries_write laid.sorted creates writes.kind_ne ?_).trans laid.entries
    refine declares.kept.imp_right (Or.imp_right fun free usage member kind => ?_)
    have among : usage ∈ scope.workspace.table.declarationsAt address :=
      List.mem_filter.mpr ⟨member, by rw [kind]; rfl⟩
    rw [laid.declarationsAt_of_free ground zone free] at among
    cases among
  case implementations => exact laid.implementations_write writes
  case own =>
    intro uri other owner
    by_cases same : other = address
    · subst same
      obtain rfl := ground.zone_unique owner zone
      rw [declared, List.filter_append, laid.own _ other owner]
      simp [checked]
    · rw [(Prod.mk.inj (apart other same)).1]
      exact laid.own uri other owner
  case aliases =>
    intro uri other owner leads
    by_cases same : other = address
    · subst same
      obtain rfl := ground.zone_unique owner zone
      rw [declared]
      refine ⟨?_, by simp⟩
      cases link : record.relations.aliasOf with
      | some target =>
        have nothing := laid.declarationsAt_of_free ground zone (declares.linked target link).1
        rw [← laid.own _ other zone, nothing]
        rfl
      | none =>
        rw [linked, link] at leads
        exact (laid.aliases _ other zone (by simpa using leads)).1
    · rw [(Prod.mk.inj (apart other same)).2] at leads
      rw [(Prod.mk.inj (apart other same)).1]
      exact laid.aliases uri other owner leads
  case outside =>
    intro other schema nobody
    have differs : other ≠ address := fun same => nobody pass.uri (same ▸ zone)
    exact (apart other differs).trans (laid.outside other schema nobody)

/-- Passes leave the table laid over that of the layout. -/
theorem write (ground : Groundwork origin) (laid : Laid origin scope.workspace.table) (fits : pass.Fits origin)
    (writes : pass.Writes Resolved Known scope creates address record) :
    Laid origin (scope.write creates address record).workspace.table := by
  have unseen : record.subcategory = none → (∀ other : SymbolPath, other.category = .schema →
      (scope.write creates address record).workspace.table.viewAt other = scope.workspace.table.viewAt other) →
      Laid origin (scope.write creates address record).workspace.table := fun kept =>
    laid.congr (SymbolTable.sorted_write laid.sorted creates address record)
      (SymbolTable.entries_write laid.sorted creates writes.kind_ne (.inl kept)) (laid.implementations_write writes)
  rcases fits.writes writes with ⟨quiet, kept⟩ | ⟨object, kept⟩ | ⟨zone, declares⟩
  · exact unseen kept fun other _ => SymbolTable.viewAt_write_quiet laid.sorted creates address quiet other
  · refine unseen kept fun other schema => ?_
    exact SymbolTable.viewAt_write_apart laid.sorted creates address record fun same => object (same ▸ schema)
  · exact laid.write_declares ground writes zone declares

end Laid

end SchemaDoc
