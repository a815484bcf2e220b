import SchemaDoc.Proofs.LegibleTree
import SchemaDoc.Proofs.ModuleNames
import SchemaDoc.Proofs.UsageFrame

/-! Every usage that checking put at a symbol stands where its text says the name of the symbol. The
spans come from a tree that can be read off its text; aliases lead to symbols of the same name, so that
a path may be redirected; and taking a document up takes its usages back before its text changes. -/

namespace SchemaDoc

structure IsWrittenAt (text : String) (name : String) (span : Span) : Prop where
  within : span.IsWithin text
  slice : span.slice text = name
  word : IsWord name

theorem IsWord.isPlain {text : String} (word : IsWord text) : IsPlain text := isPlain_of_word word.2

namespace Node

theorem AllLegible.identifier {text : String} {root node : Node} {name : String} (all : root.AllLegible text)
    (member : node ∈ root.preorder) (kind : node.kind = .identifier name) : IsWrittenAt text name node.span := by
  have own := (all node member).1
  rw [kind] at own
  exact ⟨own.1, own.2.1, own.2.2⟩

theorem textValue?_of_identifier {node : Node} {value name : String} (kind : node.kind = .identifier value)
    (text : node.textValue? = some name) : node.kind = .identifier name := by
  rw [textValue?, kind] at text
  cases text
  exact kind

theorem AllLegible.named {text : String} {root parent node : Node} {name : String} (all : root.AllLegible text)
    (member : parent ∈ root.preorder) (found : parent.child? .identifier = some node)
    (value : node.textValue? = some name) : IsWrittenAt text name node.span := by
  have inside := preorder_trans (mem_preorder_of_child (mem_of_child? found)) member
  have role : node.role = some .identifier := by simpa using List.find?_some found
  obtain ⟨other, kind⟩ := ((all node inside).2 .identifier role).1 rfl
  exact all.identifier inside (textValue?_of_identifier kind value)

theorem AllLegible.segment {text : String} {root path : Node} (all : root.AllLegible text) (onTree : root.HasPath path)
    {name : String} {span : Span} (member : (name, span) ∈ pathSegments path) : IsWrittenAt text name span := by
  obtain ⟨parent, below, found⟩ := onTree
  have inside := preorder_trans (mem_preorder_of_child (mem_of_child? found)) below
  have role : path.role = some .path := by simpa using List.find?_some found
  have legible := all path inside
  obtain ⟨fromRoot, kind⟩ := (legible.2 .path role).2 rfl
  have segments := legible.1
  rw [kind] at segments
  obtain ⟨child, among, spelled⟩ := List.mem_filterMap.mp member
  obtain ⟨value, text, same⟩ := Option.map_eq_some_iff.mp spelled
  cases same
  obtain ⟨other, kind⟩ := segments child among
  exact all.identifier (preorder_trans (mem_preorder_of_child among) inside) (textValue?_of_identifier kind text)

theorem AllLegible.key {text : String} {root pair key : Node} {name : String} (all : root.AllLegible text)
    (member : pair ∈ root.preorder) (found : pair.child? .key = some key) (value : key.textValue? = some name) :
    key.span.IsWithin text ∧ (key.span.slice text = name ∨ IsLiteralOf (key.span.slice text) name) := by
  have inside := preorder_trans (mem_preorder_of_child (mem_of_child? found)) member
  have own := (all key inside).1
  rw [textValue?] at value
  split at value
  · next spelled kind =>
    cases value
    rw [kind] at own
    exact ⟨own.1, .inl own.2.1⟩
  · next spelled kind =>
    cases value
    rw [kind] at own
    exact ⟨own.1, .inr own.2⟩
  · cases value

end Node

theorem pathSegments_getLast? {path node : Node} {name : String} (last : path.children.getLast? = some node)
    (text : node.textValue? = some name) : (pathSegments path).getLast? = some (name, node.span) := by
  obtain ⟨others, children⟩ := List.getLast?_eq_some_iff.mp last
  simp [pathSegments, children, List.filterMap_append, text]

/-- What survives going up and down holds of every module on the way. Each mention stands at a segment,
which leads to the module or is `super`. -/
theorem walkModules_visits {Good : ModulePath → Prop} {segments : List (String × Span)}
    (up : ∀ {module parent : ModulePath}, Good module → module.parent? = some parent → Good parent)
    (down : ∀ segment ∈ segments, ∀ {module : ModulePath}, Good module → Good (module.child segment.1))
    {start last : ModulePath} {mentions : List ModuleMention} (good : Good start)
    (walked : walkModules start segments = .ok (last, mentions)) :
    Good last ∧ ∀ mention ∈ mentions, ∃ segment, (segment, mention.span) ∈ segments ∧
      if mention.renamable then ∃ module, Good module ∧ mention.module = module.child segment
      else segment = superSegment := by
  induction segments generalizing start last mentions with
  | nil =>
    cases walked
    exact ⟨good, by simp⟩
  | cons first rest ih =>
    obtain ⟨segment, span⟩ := first
    have own := down _ List.mem_cons_self good
    have others : ∀ segment ∈ rest, ∀ {module : ModulePath}, Good module → Good (module.child segment.1) :=
      fun other member => down other (List.mem_cons_of_mem _ member)
    have joined : ∀ {middle mention}, Good middle → mention.span = span →
        (if mention.renamable then ∃ module, Good module ∧ mention.module = module.child segment
          else segment = superSegment) →
        (walkModules middle rest).map (fun result => (result.1, mention :: result.2)) = .ok (last, mentions) →
        Good last ∧ ∀ mention ∈ mentions, ∃ name, (name, mention.span) ∈ (segment, span) :: rest ∧
          if mention.renamable then ∃ module, Good module ∧ mention.module = module.child name
          else name = superSegment := by
      intro middle mention further place leading walked
      cases walking : walkModules middle rest with
      | error failure =>
        rw [walking] at walked
        cases walked
      | ok result =>
        rw [walking] at walked
        cases walked
        obtain ⟨goal, rest⟩ := ih others further walking
        refine ⟨goal, ?_⟩
        intro other member
        rcases List.mem_cons.mp member with rfl | member
        · exact ⟨segment, place ▸ List.mem_cons_self, leading⟩
        · obtain ⟨name, among, spelled⟩ := rest other member
          exact ⟨name, List.mem_cons_of_mem _ among, spelled⟩
    rw [walkModules] at walked
    by_cases isSuper : segment = superSegment
    · rw [if_pos isSuper] at walked
      cases above : start.parent? with
      | none =>
        rw [above] at walked
        cases walked
      | some parent =>
        rw [above] at walked
        exact joined (up good above) rfl (by simpa using isSuper) walked
    · rw [if_neg isSuper] at walked
      exact joined own rfl (by simpa using ⟨start, good, rfl⟩) walked

/-- Modules on the way of a path are plain as long as its segments are words. -/
theorem Pass.Leads.walk {pass : Pass} {text : String} {path : Node} {goal : PathTarget} (leads : pass.Leads path goal)
    (legible : pass.root.AllLegible text) (plain : pass.module.Plain) :
    goal.module.Plain ∧ ∀ mention ∈ goal.mentions, ∃ segment, IsWrittenAt text segment mention.span ∧
      if mention.renamable then ModulePath.lastSegment? mention.module.display = some segment
      else segment = superSegment := by
  obtain ⟨_, start, chosen, walked⟩ := walkPath_inversion leads.walked
  have written : ∀ segment ∈ (pathSegments path).dropLast, IsWrittenAt text segment.1 segment.2 :=
    fun segment among => legible.segment leads.onTree (List.dropLast_subset _ among)
  have origin : start.Plain := by
    rcases chosen with rfl | rfl
    · exact plain
    · exact ModulePath.plain_root
  obtain ⟨goalPlain, mentions⟩ := walkModules_visits ModulePath.Plain.parent
    (fun segment among _ plain => plain.child (written segment among).word.isPlain) origin walked
  refine ⟨goalPlain, fun mention member => ?_⟩
  obtain ⟨segment, among, leading⟩ := mentions mention member
  have word := (written _ among).word
  refine ⟨segment, written _ among, ?_⟩
  by_cases renamable : mention.renamable = true
  · rw [if_pos renamable] at leading ⊢
    obtain ⟨module, good, same⟩ := leading
    rw [same]
    exact ModulePath.lastSegment?_join good word.isPlain word.1
  · rw [if_neg renamable] at leading ⊢
    exact leading

theorem Pass.Leads.name {pass : Pass} {text : String} {path : Node} {goal : PathTarget} (leads : pass.Leads path goal)
    (legible : pass.root.AllLegible text) : IsWrittenAt text goal.name goal.nameSpan :=
  legible.segment leads.onTree (List.mem_of_getLast? (walkPath_inversion leads.walked).1)

/-- A path arrives at the end of some alias links. -/
theorem Scope.arrival_chase (scope : Scope) (goal : PathTarget) :
    ∃ steps, (scope.arrival goal).2.1 = Query.chase scope.workspace.table steps goal.address := by
  have entered : ∀ (query : Query) (record : SymbolRecord), (query.elseEnter record).address = query.address := by
    intro query record
    rw [Query.elseEnter, Query.otherwise]
    split <;> rfl
  rw [Scope.arrival]
  dsimp only
  rw [entered, Query.elseResolveAlias]
  split
  · exact ⟨0, rfl⟩
  · exact ⟨_, rfl⟩

/-- What a usage of a symbol has to spell: the last segment of its key, or the name of the member, be it
as a string. -/
def SymbolPath.IsSpelled (address : SymbolPath) (written : String) : Prop :=
  match address.path with
  | [] => False
  | [key] => ModulePath.lastSegment? key = some written
  | _ :: member :: members =>
    let name := (member :: members).getLast (List.cons_ne_nil _ _)
    written = name ∨ IsLiteralOf written name

/-- The usage lies inside of the text and spells its symbol there; one that cannot be renamed is `super`. -/
def Usage.IsExactIn (usage : Usage) (text : String) (address : SymbolPath) : Prop :=
  usage.location.span.IsWithin text ∧
    if usage.renamable then address.IsSpelled (usage.location.span.slice text)
    else usage.location.span.slice text = superSegment

namespace Pass

def Keeps (_ : Scope) (path : Node) (target : SymbolPath) : Prop :=
  ∃ key segment, target = .schema key ∧ (pathSegments path).getLast? = some segment ∧
    ModulePath.lastSegment? key = some segment.1

variable {pass : Pass} {text : String} {scope : Scope} {creates : Bool} {address : SymbolPath}
  {record : SymbolRecord} {Known : Scope → SymbolPath → Prop}

theorem Names.isWrittenAt (legible : pass.root.AllLegible text) {node : Node} {name : String}
    (names : pass.Names node name) : IsWrittenAt text name node.span := by
  cases names with
  | declared member found value => exact legible.named (Node.mem_preorder_of_child member) found value
  | @used clause path _ _ member found last value =>
    have onTree : pass.root.HasPath path := ⟨clause, Node.mem_preorder_of_child member, found⟩
    exact legible.segment onTree (List.mem_of_getLast? (pathSegments_getLast? last value))

theorem Container.isSchema {container : SymbolPath} (inside : pass.Container (Ever Keeps) container) :
    ∃ key, container = .schema key := by
  cases inside with
  | own names => exact ⟨_, rfl⟩
  | injected _ _ resolved =>
    obtain ⟨_, key, _, same, _⟩ := resolved
    exact ⟨key, same⟩

theorem isExactIn_of_written {usage : Usage} {name : String} (written : IsWrittenAt text name usage.location.span)
    {key : String} (renamable : usage.renamable = true) (spelled : ModulePath.lastSegment? key = some name) :
    usage.IsExactIn text (.schema key) := by
  refine ⟨written.within, ?_⟩
  rw [if_pos renamable, written.slice]
  exact spelled

/-- What the passes write at a symbol of the schema is exact. -/
theorem Writes.isExactIn (legible : pass.root.AllLegible text) (plain : pass.module.Plain)
    (writes : pass.Writes Keeps Known scope creates address record) (schema : address.category = .schema) :
    ∀ usage ∈ record.usage, usage.IsExactIn text address := by
  have named : ∀ {node name}, pass.Names node name →
      ModulePath.lastSegment? (pass.module.join name) = some name := by
    intro node name names
    have written := names.isWrittenAt legible
    exact ModulePath.lastSegment?_join plain written.word.isPlain written.word.1
  rintro usage used
  cases writes with
  | type member found value free sort | module member found value known =>
    cases used
    have names := Names.declared member found value
    exact isExactIn_of_written (names.isWrittenAt legible) rfl (named names)
  | use member found last value free resolved visibility =>
    cases used
    have names := Names.used member found last value
    exact isExactIn_of_written (names.isWrittenAt legible) rfl (named names)
  | @mention path goal mention leads member =>
    cases used
    obtain ⟨segment, written, spelling⟩ := (leads.walk legible plain).2 mention member
    refine ⟨written.within, ?_⟩
    dsimp only
    rw [written.slice]
    exact spelling
  | @reference path goal target leads resolved =>
    cases used
    obtain ⟨key, segment, rfl, last, spelled⟩ := resolved
    cases last.symm.trans (walkPath_inversion leads.walked).1
    exact isExactIn_of_written (leads.name legible) rfl spelled
  | field inside member found value free subcategory data =>
    cases used
    obtain ⟨key, rfl⟩ := inside.isSchema
    exact legible.key member found value
  | data names type => cases used
  | object registry name span target => cases schema

/-- The alias that is written leads to a symbol of the same name. -/
theorem Writes.alias_kept (legible : pass.root.AllLegible text) (plain : pass.module.Plain)
    (writes : pass.Writes Keeps Known scope creates address record) {target : SymbolPath}
    (linked : record.relations.aliasOf = some target) :
    ∃ key other, address = .schema key ∧ target = .schema other ∧
      ModulePath.lastSegment? other = ModulePath.lastSegment? key := by
  cases writes with
  | use member found last value free resolved visibility =>
    cases linked
    have written := (Names.used member found last value).isWrittenAt legible
    obtain ⟨key, segment, rfl, ending, spelled⟩ := resolved
    cases ending.symm.trans (pathSegments_getLast? last value)
    refine ⟨_, key, rfl, rfl, ?_⟩
    rw [spelled, ModulePath.lastSegment?_join plain written.word.isPlain written.word.1]
  | _ => cases linked

end Pass

namespace Workspace

/-- The usages are exact in the texts last checked, aliases keep the name, and modules are plain. -/
structure Exact (workspace : Workspace) : Prop where
  sorted : Sorted workspace.table.symbols
  usages : ∀ address usage, address.category = .schema → usage ∈ workspace.table.usagesAt address →
    usage.contributor = .checker →
    ∃ text, workspace.text? usage.location.uri = some text ∧ usage.IsExactIn text address
  aliases : ∀ key target, workspace.table.aliasAt (.schema key) = some target →
    ∃ other, target = .schema other ∧ ModulePath.lastSegment? other = ModulePath.lastSegment? key
  modules : ∀ address usage, usage ∈ workspace.table.usagesAt address → usage.kind = .implementation →
    ∃ path : ModulePath, path.Plain ∧ address = .schema path.display

namespace Exact

variable {workspace other : Workspace}

theorem congr (exact : workspace.Exact) (table : other.table = workspace.table)
    (texts : ∀ uri, other.text? uri = workspace.text? uri) : other.Exact where
  sorted := table ▸ exact.sorted
  usages address usage schema member checked := by
    rw [texts]
    exact exact.usages address usage schema (table ▸ member) checked
  aliases := table ▸ exact.aliases
  modules := table ▸ exact.modules

theorem fetched (exact : workspace.Exact) (setup : Setup) (uri : String) : (Workspace.fetch setup workspace uri).2.Exact := by
  obtain ⟨documents, fetched⟩ := fetch_snd setup workspace uri
  rw [fetched]
  exact exact.congr rfl fun _ => rfl

/-- Taking a document up takes its usages back. -/
theorem takeUp (exact : workspace.Exact) (document : TextDocument) (errors : List Diagnostic) :
    (workspace.takeUp document errors).Exact := by
  have cleared : (workspace.takeUp document errors).table = workspace.table.clearUri document.uri := rfl
  have kept : ∀ {address usage}, usage ∈ (workspace.takeUp document errors).table.usagesAt address →
      usage ∈ workspace.table.usagesAt address ∧ usage.isCheckedFrom document.uri = false := by
    intro address usage member
    rw [cleared, SymbolTable.usagesAt_clearUri exact.sorted] at member
    simpa using List.mem_filter.mp member
  constructor
  case sorted => exact SymbolTable.sorted_clearUri exact.sorted document.uri
  case usages =>
    intro address usage schema member checked
    obtain ⟨earlier, foreign⟩ := kept member
    have apart : usage.location.uri ≠ document.uri := by simpa [Usage.isCheckedFrom, checked] using foreign
    have same : (workspace.takeUp document errors).text? usage.location.uri = workspace.text? usage.location.uri := by
      rw [text?, text?, record?_takeUp, if_neg apart]
    rw [same]
    exact exact.usages address usage schema earlier checked
  case aliases =>
    intro key target linked
    rw [cleared, SymbolTable.aliasAt_clearUri exact.sorted] at linked
    exact exact.aliases key target (Option.ite_none_right_eq_some.mp linked).2
  case modules =>
    intro address usage member implements
    exact exact.modules address usage (kept member).1 implements

theorem chase_kept (exact : workspace.Exact) (steps : Nat) (key : String) :
    ∃ other, Query.chase workspace.table steps (.schema key) = .schema other ∧
      ModulePath.lastSegment? other = ModulePath.lastSegment? key := by
  induction steps generalizing key with
  | zero => exact ⟨key, rfl, rfl⟩
  | succ steps ih =>
    rw [Query.chase]
    cases linked : workspace.table.aliasAt (.schema key) with
    | none =>
      rw [SymbolTable.aliasAt] at linked
      rw [linked]
      exact ⟨key, rfl, rfl⟩
    | some target =>
      obtain ⟨next, rfl, kept⟩ := exact.aliases key target linked
      rw [SymbolTable.aliasAt] at linked
      rw [linked]
      obtain ⟨other, reached, same⟩ := ih next
      exact ⟨other, reached, same.trans kept⟩

/-- What a pass writes in the name of its document is exact in the text at hand. -/
theorem write {pass : Pass} {scope : Scope} {text : String} {creates : Bool} {address : SymbolPath}
    {record : SymbolRecord} {Known : Scope → SymbolPath → Prop} (exact : scope.workspace.Exact) (legible : pass.root.AllLegible text)
    (plain : pass.module.Plain) (known : scope.workspace.text? pass.uri = some text)
    (writes : pass.Writes Pass.Keeps Known scope creates address record) :
    (scope.write creates address record).workspace.Exact := by
  have appended := SymbolTable.usagesAt_write exact.sorted creates address record
  constructor
  case sorted => exact SymbolTable.sorted_write exact.sorted creates address record
  case usages =>
    intro other usage schema member checked
    obtain ⟨added, same, given⟩ := appended other
    rcases List.mem_append.mp (same ▸ member) with earlier | new
    · exact exact.usages other usage schema earlier checked
    · obtain ⟨rfl, written⟩ := given usage new
      obtain ⟨place, _⟩ := writes.usage_place usage written
      exact ⟨text, place ▸ known, writes.isExactIn legible plain schema usage written⟩
  case aliases =>
    intro key target linked
    rcases SymbolTable.aliasAt_write exact.sorted creates address record (.schema key) with same | ⟨rfl, link, given, now⟩
    · exact exact.aliases key target (same.symm.trans linked)
    · obtain ⟨own, other, here, there, kept⟩ := writes.alias_kept legible plain given
      cases here
      cases now.symm.trans linked
      exact ⟨other, there, kept⟩
  case modules =>
    intro other usage member implements
    obtain ⟨added, same, given⟩ := appended other
    rcases List.mem_append.mp (same ▸ member) with earlier | new
    · exact exact.modules other usage earlier implements
    · exact absurd implements (writes.kind_ne usage (given usage new).2)

/-- The module of a document is plain. -/
theorem plain_of_moduleOfUri? (exact : workspace.Exact) {uri : String} {module : ModulePath}
    (implemented : workspace.table.moduleOfUri? uri = some module) : module.Plain := by
  obtain ⟨symbol, found, rfl⟩ := Option.map_eq_some_iff.mp implemented
  have member := List.mem_of_find?_eq_some found
  have implements : uri ∈ SymbolTable.implementers symbol := by simpa using List.find?_some found
  obtain ⟨usage, listed, -⟩ := List.mem_map.mp implements
  obtain ⟨used, kind⟩ := List.mem_filter.mp listed
  have among : symbol ∈ workspace.table.symbols := List.mem_of_mem_filter (List.mem_of_mem_filter member)
  have usages : usage ∈ workspace.table.usagesAt symbol.address := by
    rw [SymbolTable.usagesAt, SymbolTable.lookup?_of_mem exact.sorted among]
    exact used
  obtain ⟨path, plain, address⟩ := exact.modules symbol.address usage usages (by simpa using kind)
  rw [Symbol.identifier, address]
  exact ModulePath.plain_parse_display plain

/-- What a path is resolved to bears its name. -/
theorem arrival_kept {pass : Pass} {scope : Scope} {text : String} {path : Node} {goal : PathTarget}
    (exact : scope.workspace.Exact) (legible : pass.root.AllLegible text) (plain : pass.module.Plain)
    (leads : pass.Leads path goal) : Pass.Keeps scope path (scope.arrival goal).2.1 := by
  have written := leads.name legible
  obtain ⟨steps, same⟩ := scope.arrival_chase goal
  obtain ⟨key, reached, kept⟩ := exact.chase_kept steps (goal.module.join goal.name)
  refine ⟨key, _, same.trans reached, (walkPath_inversion leads.walked).1, ?_⟩
  rw [kept, ModulePath.lastSegment?_join (leads.walk legible plain).1 written.word.isPlain written.word.1]

/-- Throughout the passes over a document of a plain module all usages are exact. -/
theorem invariant {setup : Setup} {load : Loader} (before : Workspace) {document : TextDocument}
    (loads : ∀ workspace uri, Loads setup workspace (load workspace uri).2)
    (exacts : ∀ workspace uri, workspace.Exact → (load workspace uri).2.Exact) (module : ModulePath) :
    (passOf setup document module).Invariant load Pass.Keeps (fun _ _ => True) fun scope =>
      module.Plain ∧ (scope.uri = document.uri ∧ scope.module = module) ∧
        Underway setup before document scope.workspace ∧ scope.workspace.Exact := by
  have legible : (passOf setup document module).root.AllLegible document.text := parse_legible _ _
  constructor
  case place => exact fun holds => holds.2.1
  case arrives =>
    rintro scope path goal ⟨plain, place, underway, exact⟩ leads -
    exact exact.arrival_kept legible plain leads
  case learn | retain => exact fun _ _ _ => trivial
  case load =>
    rintro scope path goal uri ⟨plain, place, underway, exact⟩ leads - -
    exact ⟨plain, place, underway.load (loads _ _), exacts _ _ exact⟩
  case add => exact fun holds _ => holds
  case write =>
    rintro scope creates address record ⟨plain, place, underway, exact⟩ writes
    obtain ⟨state, -, known⟩ := underway.record
    refine ⟨plain, place, underway.withTable _, ?_⟩
    exact exact.write legible plain (congrArg (Option.map FileRecord.text) known) writes
  case steady => exact fun _ kept _ => kept
  case checking =>
    rintro scope ⟨plain, place, underway, exact⟩
    obtain ⟨-, further⟩ := (Underway.invariant loads module).checking ⟨place, underway⟩
    refine ⟨plain, place, further, exact.congr rfl fun uri => ?_⟩
    rw [Scope.checking, text?, text?, setState, record?_modifyRecord]
    split
    · rw [Option.map_map]
      rfl
    · rfl

theorem conclude (exact : workspace.Exact) (uri : String) (node : Node) (errors : List Diagnostic)
    (dependencies : List String) : (workspace.conclude uri node errors dependencies).Exact := by
  refine exact.congr rfl fun other => ?_
  rw [text?, text?, record?_conclude]
  split
  · rw [Option.map_map]
    rfl
  · rfl

end Exact

/-- A check leaves all usages exact. -/
theorem checkDocument_exact {setup : Setup} {load : Loader} {before : Workspace} {uri : String} {document : TextDocument}
    (nested : ∀ workspace uri, Loads setup workspace (load workspace uri).2 ∧
      (workspace.Exact → (load workspace uri).2.Exact)) (needs : Needs setup before uri document) (exact : before.Exact) :
    (checkDocument load setup (fetch setup before uri).2.enter document).leave.Exact := by
  have start := Underway.start needs
  have entered : (Workspace.fetch setup before uri).2.enter.Exact := (exact.fetched setup uri).congr rfl fun _ => rfl
  have taken := entered.takeUp document (parse document.text setup.trailing).errors
  refine checkDocument_ends (fun after => after.leave.Exact) _ ?_ ?_
    (Exact.invariant before (fun workspace uri => (nested workspace uri).1) fun workspace uri => (nested workspace uri).2) ?_
  · exact fun errors => (taken.conclude _ _ _ _).congr rfl fun _ => rfl
  · exact fun module errors implemented => ⟨taken.plain_of_moduleOfUri? implemented, ⟨rfl, rfl⟩, start, taken⟩
  · exact fun module scope holds => (holds.2.2.2.conclude _ _ _ _).congr rfl fun _ => rfl

/-- A load leaves all usages exact. -/
theorem loadWithin_exact (setup : Setup) (budget : Nat) (workspace : Workspace) (uri : String) :
    Loads setup workspace (loadWithin setup budget workspace uri).2 ∧
      (workspace.Exact → (loadWithin setup budget workspace uri).2.Exact) := by
  apply loadWithin_induction fun before after => Loads setup before after ∧ (before.Exact → after.Exact)
  · intro workspace uri
    exact ⟨Loads.fetch setup workspace uri, fun exact => exact.fetched setup uri⟩
  · intro load before uri document nested needs
    exact ⟨(checkDocument_loads (fun workspace uri => (nested workspace uri).1) needs).1, checkDocument_exact nested needs⟩

/-- A layout puts only plain modules into the table. -/
theorem Exact.register {workspace : Workspace} (exact : workspace.Exact) {modules : List (ModulePath × String)}
    (plain : ∀ entry ∈ modules, entry.1.Plain) :
    ({ workspace with table := Layout.register workspace.table modules } : Workspace).Exact := by
  have cleared : ({ workspace with table := workspace.table.clearLayout } : Workspace).Exact := by
    constructor
    case sorted => exact SymbolTable.sorted_clearLayout exact.sorted
    case usages =>
      intro address usage schema member
      exact exact.usages address usage schema (SymbolTable.mem_usagesAt_clearLayout exact.sorted member)
    case aliases =>
      intro key target linked
      rcases SymbolTable.aliasAt_clearLayout exact.sorted (.schema key) with none | same
      · cases none.symm.trans linked
      · exact exact.aliases key target (same.symm.trans linked)
    case modules =>
      intro address usage member
      exact exact.modules address usage (SymbolTable.mem_usagesAt_clearLayout exact.sorted member)
  refine Layout.register_induction (motive := fun table => ({ workspace with table } : Workspace).Exact) cleared ?_
  intro table exact entry registered
  constructor
  case sorted => exact SymbolTable.sorted_registerModule exact.sorted entry.1 entry.2
  case usages =>
    intro address usage schema member checked
    rcases SymbolTable.mem_usagesAt_registerModule exact.sorted member with earlier | ⟨_, rfl⟩
    · exact exact.usages address usage schema earlier checked
    · cases checked
  case aliases =>
    intro key target linked
    exact exact.aliases key target ((SymbolTable.aliasAt_registerModule exact.sorted _ _ _).symm.trans linked)
  case modules =>
    intro address usage member implements
    rcases SymbolTable.mem_usagesAt_registerModule exact.sorted member with earlier | ⟨here, _⟩
    · exact exact.modules address usage earlier implements
    · exact ⟨entry.1, plain entry registered, here⟩

theorem Reachable.exact {setup : Setup} {workspace : Workspace} (reachable : Reachable setup workspace) :
    workspace.Exact := by
  refine reachable.invariant Exact ?_ ?_ ?_ ?_ ?_
  · have nothing : ∀ address, ({} : Workspace).table.lookup? address = none := fun _ => rfl
    exact ⟨.nil, by simp [SymbolTable.usagesAt, nothing], by simp [SymbolTable.aliasAt, nothing],
      by simp [SymbolTable.usagesAt, nothing]⟩
  · exact fun workspace layout files exact => exact.register fun entry member => Layout.plain_of_modulesOf member
  · exact fun workspace documents exact => exact.congr rfl fun _ => rfl
  · exact fun workspace files uri => (loadWithin_exact (setup.over files) _ workspace uri).2
  · intro workspace uri exact
    refine exact.congr rfl fun other => ?_
    rw [text?, text?, record?_invalidate]
    split
    · rw [Option.map_map]
      rfl
    · rfl

/-- Usages are safe to go to and to rename: each one that checking put at a symbol of the schema, or at a
member of one, lies inside of the text last checked and spells the name there, or `super`. -/
theorem usage_isExactIn_checked_text {setup : Setup} {workspace : Workspace} (reachable : Reachable setup workspace)
    {symbol : Symbol} (member : symbol ∈ workspace.table.symbols) (schema : symbol.address.category = .schema)
    {usage : Usage} (used : usage ∈ symbol.usages) (checked : usage.contributor = .checker) :
    ∃ text, workspace.text? usage.location.uri = some text ∧ usage.IsExactIn text symbol.address := by
  have exact := reachable.exact
  refine exact.usages symbol.address usage schema ?_ checked
  rw [SymbolTable.usagesAt, SymbolTable.lookup?_of_mem exact.sorted member]
  exact used

/-- The type of a field is a name that an alias redirects to the other document. -/
theorem usage_isExactIn_checked_text_redirected :
    let workspace := (ensureChecked (({} : Setup).over {}) (pairWorkspace
      "use super::b::B;\nstruct S \x7b \"f\": B \x7d" "struct B \x7b\x7d") "file:///a.sdoc").2
    Reachable {} workspace ∧ ∃ symbol ∈ workspace.table.symbols, symbol.address = .schema "::b::B" ∧
      ∃ usage ∈ symbol.usages, usage.location = ⟨"file:///a.sdoc", ⟨33, 34⟩⟩ ∧ usage.contributor = .checker ∧
        ∃ text, workspace.text? usage.location.uri = some text ∧ usage.IsExactIn text symbol.address := by
  intro workspace
  have reachable : Reachable {} workspace := (pairWorkspace_reachable {} _ _).check {} "file:///a.sdoc"
  have referred : ∃ symbol ∈ workspace.table.symbols, symbol.address = .schema "::b::B" ∧
      ∃ usage ∈ symbol.usages, usage.location = ⟨"file:///a.sdoc", ⟨33, 34⟩⟩ ∧ usage.contributor = .checker := by
    decide +kernel
  obtain ⟨symbol, member, address, usage, used, location, checked⟩ := referred
  exact ⟨reachable, symbol, member, address, usage, used, location, checked,
    usage_isExactIn_checked_text reachable member (by rw [address]; rfl) used checked⟩

end Workspace

end SchemaDoc
