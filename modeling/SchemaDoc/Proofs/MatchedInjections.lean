import SchemaDoc.Proofs.CompleteTree
import SchemaDoc.Proofs.DeclaredTypes
import SchemaDoc.Proofs.NestedRuns
import SchemaDoc.Proofs.BodyAccounts
import SchemaDoc.Proofs.ReportedResolutions

/-! Injections into types. The sort of a type is on record from the start of the check of its document, but the kind of an
enum only from where its body is checked. An inject clause that comes earlier is judged without that kind. -/

namespace SchemaDoc

open Relation

namespace Parser

theorem draft_body {trailing : TrailingPolicy} {cursor : Cursor} {found : Draft} (drafted : draft trailing cursor = some found) :
    (∃ node ∈ found.parts.nodes, node.role = some .body) ∨ found.kind ≠ .struct ∧ ∀ kind, found.kind ≠ .enum kind := by
  have embodied : ∀ (front : Fragment) (grammar : PairGrammar),
      ∃ node ∈ (front.andThen (body trailing grammar)).nodes, node.role = some .body := fun front grammar =>
    ⟨_, List.mem_append_right _ (List.mem_singleton_self _), rfl⟩
  rw [draft] at drafted
  split at drafted
  · cases drafted
    exact .inl (embodied _ _)
  · cases drafted
    exact .inl (embodied _ _)
  · cases drafted
    exact .inr ⟨by simp [moduleDeclaration], by simp [moduleDeclaration]⟩
  · cases drafted
    exact .inr (by rw [useClause]; split <;> simp)
  · cases drafted
    exact .inr (by rw [useClause]; split <;> simp)
  · cases drafted
    exact .inr ⟨by simp [injectClause], by simp [injectClause]⟩
  · split at drafted
    · cases drafted
      exact .inr ⟨by simp [describesClause], by simp [describesClause]⟩
    · cases drafted
  · cases drafted
    exact .inr ⟨by simp [describesClause], by simp [describesClause]⟩

end Parser

theorem Node.kind_of_sort? {declaration : Node} (typed : declaration.sort?.isSome) :
    declaration.kind = .struct ∨ ∃ values, declaration.kind = .enum values := by
  rw [sort?] at typed
  split at typed
  · next kind => exact .inl kind
  · next kind => exact .inr ⟨_, kind⟩
  · cases typed

def Node.Bodied (declaration : Node) : Prop := declaration.sort?.isSome → (declaration.child? .body).isSome

namespace Parser

theorem declaration_bodied {trailing : TrailingPolicy} {doc : Option Node} {cursor : Cursor} {parsed : Parsed}
    (read : declaration trailing doc cursor = some parsed) : parsed.node.Bodied := by
  obtain ⟨found, drafted, rfl⟩ := Option.map_eq_some_iff.mp read
  intro typed
  rcases draft_body drafted with ⟨node, among, role⟩ | ⟨struct, enum⟩
  · exact List.find?_isSome.mpr ⟨node, List.mem_append_right _ among, by simp [role]⟩
  · rcases Node.kind_of_sort? typed with kind | ⟨values, kind⟩
    · exact absurd kind struct
    · exact absurd kind (enum values)

theorem topLevel_bodied (trailing : TrailingPolicy) (cursor : Cursor) : ∀ node ∈ (topLevel trailing cursor).nodes, node.Bodied := by
  intro node member
  rw [topLevel] at member
  dsimp only at member
  split at member
  · next read =>
    cases List.mem_singleton.mp member
    exact declaration_bodied read
  · cases found : cursor.readDocComments? with
    | none => simp [found, looseDoc, Fragment.andThen, Fragment.empty, strayLine_nodes] at member
    | some docs =>
      obtain ⟨doc, next⟩ := docs
      obtain ⟨text, last, rfl, -⟩ := Cursor.readDocComments?_reads found
      simp only [found, looseDoc, Fragment.andThen, strayLine_nodes, List.append_nil, List.mem_singleton] at member
      subst member
      exact fun typed => by cases typed

theorem declarations_bodied (trailing : TrailingPolicy) (fuel : Nat) (cursor : Cursor) :
    ∀ node ∈ (declarations trailing fuel cursor).nodes, node.Bodied := by
  induction fuel generalizing cursor with
  | zero => exact fun node none => by cases none
  | succ fuel ih =>
    intro node member
    rw [declarations] at member
    split at member
    · cases member
    · exact (List.mem_append.mp member).elim (topLevel_bodied trailing _ node) (ih _ node)

end Parser

theorem parse_bodied (text : String) (trailing : TrailingPolicy) : ∀ declaration ∈ (parse text trailing).node.children,
    declaration.Bodied := Parser.declarations_bodied trailing _ _

/-- The kind of an enum that a declaration states. -/
def Node.enumKind? (declaration : Node) : Option EnumKind :=
  match declaration.kind with
  | .enum kind => kind
  | _ => none

def SchemaType.enumKind? : SchemaType → Option EnumKind
  | .enum kind _ => kind
  | _ => none

/-- The kind of an enum that is on record at a key. -/
def SymbolTable.kindAt (table : SymbolTable) (key : String) : Option EnumKind :=
  (table.partAt Symbol.data (.schema key)).bind SchemaType.enumKind?

theorem Scope.declaredKind_eq (table : SymbolTable) (key : String) :
    declaredKind table (.schema key) = (table.partAt Symbol.subcategory (.schema key), table.kindAt key) := by
  rw [declaredKind, SymbolTable.kindAt, SymbolTable.partAt, SymbolTable.partAt]
  cases table.lookup? (.schema key) with
  | none => rfl
  | some symbol =>
    cases data : symbol.data with
    | none => simp [data]
    | some type => cases type <;> simp [data, SchemaType.enumKind?]

namespace Scope

/-- An inject clause goes together with a declaration: both are of a struct, or both of an enum, of the same kind where
both state one. -/
def Matches (declared : Option Subcategory × Option EnumKind) (injected : Subcategory × Option EnumKind) : Prop :=
  declared.1 = some injected.1 ∧ ∀ kind ∈ declared.2, ∀ other ∈ injected.2, kind = other

def inject (load : Loader) (limits : Limits) (scope : Scope) (target : SymbolPath) (subcategory : Subcategory)
    (definition : Node) : Scope :=
  match definition.child? .body with
  | none => scope
  | some body =>
    match subcategory with
    | .compound => (scope.structFields load limits target body).2
    | _ => (scope.enumValues target body).2

/-- The error about an inject clause that does not go together with a declaration. Kinds of enums are told if they are why. -/
def unmatched (declared : Option Subcategory × Option EnumKind) (injected : Subcategory × Option EnumKind) (span : Span) :
    Diagnostic :=
  let differ := kindsDiffer declared.2 injected.2
  .ofMessage .unmatchedInjection
    [kindLabel declared.1 (if differ then declared.2 else none),
      kindLabel (some injected.1) (if differ then injected.2 else none)] span

/-- What comes of an inject clause whose path is resolved: its fields are entered, or one error stands at the path and nothing
else has changed. -/
structure Judges (load : Loader) (limits : Limits) (declared : Option Subcategory × Option EnumKind)
    (injected : Subcategory × Option EnumKind) (definition path : Node) (target : SymbolPath) (scope after : Scope) : Prop where
  entered : Matches declared injected → after = scope.inject load limits target injected.1 definition
  rejected : ¬Matches declared injected → after = { scope with errors := scope.errors ++ [unmatched declared injected path.span] }

theorem kindsDiffer_eq_false {first second : Option EnumKind} :
    kindsDiffer first second = false ↔ ∀ kind ∈ first, ∀ other ∈ second, kind = other := by
  cases first <;> cases second <;> simp [kindsDiffer]

theorem matches_iff {declared : Option Subcategory × Option EnumKind} {injected : Subcategory × Option EnumKind} :
    Matches declared injected ↔ (declared.1 != some injected.1 || kindsDiffer declared.2 injected.2) = false := by
  rw [Matches, ← kindsDiffer_eq_false]
  simp

variable {load : Loader} {limits : Limits} {scope resolved : Scope} {path : Node} {target : SymbolPath}

theorem errors_of_resolved (resolves : scope.resolvePath load limits path = (some target, resolved)) :
    resolved.errors = scope.errors := by
  cases walked : walkPath limits scope.module path with
  | error failure => simp [resolvePath, walked] at resolves
  | ok goal =>
    have reach := reachModule_errors load (scope.recordMentions goal.mentions) goal path
    simp only [resolvePath, walked] at resolves
    generalize (scope.recordMentions goal.mentions).reachModule load goal path.span = reached at *
    obtain ⟨flag, after⟩ := reached
    rcases reach with ⟨rfl, same⟩ | ⟨rfl, -⟩
    · simp only [Bool.not_true, Bool.false_eq_true, if_false] at resolves
      split at resolves
      · cases resolves
      · obtain ⟨-, rfl⟩ := Prod.mk.inj resolves
        exact same.trans (scope.recordMentions_errors goal.mentions)
    · cases resolves

/-- An inject clause is judged by what is known of its target. -/
theorem checkInject_judges {clause definition : Node} {injected : Subcategory × Option EnumKind}
    (holds : clause.child? .definition = some definition) (found : definition.child? .path = some path)
    (given : injected? definition = some injected) (resolves : scope.resolvePath load limits path = (some target, resolved)) :
    Judges load limits (declaredKind resolved.workspace.table target) injected definition path target resolved
      (scope.checkInject load limits clause) := by
  have judged : scope.checkInject load limits clause =
      if (declaredKind resolved.workspace.table target).1 != some injected.1 ||
          kindsDiffer (declaredKind resolved.workspace.table target).2 injected.2 then
        resolved.add (unmatched (declaredKind resolved.workspace.table target) injected path.span)
      else resolved.inject load limits target injected.1 definition := by
    simp only [checkInject, holds, found, given, resolves]
    rfl
  rw [judged]
  constructor
  · intro matching
    rw [matches_iff.mp matching]
    rfl
  · intro apart
    rw [matches_iff, Bool.not_eq_false] at apart
    rw [if_pos apart]
    rfl

end Scope

namespace Workspace

variable {setup : Setup} {before : Workspace} {document : TextDocument} {load : Loader}

namespace Attends

open Scope

variable {module : ModulePath} {scope : Scope} {declaration identifier body : Node} {name : String}
  (honours : ∀ workspace uri, Honours setup workspace (load workspace uri).2) (idle : ¬before.InProgress document.uri)
  (typed : declaration.sort?.isSome) (found : declaration.child? .identifier = some identifier)
  (named : identifier.textValue? = some name) (holds : declaration.child? .body = some body)

include honours idle typed found named holds

/-- A type that owns its symbol puts its kind on record. -/
theorem checkDeclaration_kindAt (attends : Attends setup before document module scope)
    (defines : scope.Defines declaration (module.join name)) :
    (scope.checkDeclaration load setup declaration).workspace.table.kindAt (module.join name) = declaration.enumKind? := by
  have owned := attends.owned?_of_defines found named holds defines
  have site : Site setup before document module declaration (module.join name) scope := ⟨attends, .inl defines⟩
  have written : ∀ {filled : Scope} (type : SchemaType), declaration.kind ≠ .injectClause →
      ReflTransGen (Act load setup.registries declaration) scope filled →
      (filled.amend (.schema (module.join name)) { data := some type }).workspace.table.kindAt (module.join name) = type.enumKind? := by
    intro filled type kind acts
    obtain ⟨_, usage, _, defined, _⟩ := (site.acts honours idle acts).site.resolve_right kind
    rw [SymbolTable.definitionAt_eq] at defined
    obtain ⟨symbol, present, -⟩ := Option.bind_eq_some_iff.mp defined
    exact congrArg (Option.bind · SchemaType.enumKind?) (SymbolTable.partAt_amend Symbol.data present { data := some type })
  rcases Node.kind_of_sort? typed with kind | ⟨values, kind⟩
  · simp only [checkDeclaration, kind, checkStruct, owned, Node.enumKind?]
    exact written _ (by simp [kind]) (site.structFields honours idle setup.registries setup.limits [] body.children)
  · simp only [checkDeclaration, kind, checkEnum, owned, Node.enumKind?]
    exact written _ (by simp [kind]) (site.enumValues honours idle setup.registries [] body.children)

/-- What a type has put on record is still there behind further declarations. -/
theorem kindAt_declarations {front back : List Node} (attends : Attends setup before document module scope)
    (apart : ∀ other ∈ back, ∀ node, other.child? .identifier = some node → node.span ≠ identifier.span)
    (defines : ((front ++ declaration :: back).foldl (checkDeclaration load setup) scope).Defines declaration (module.join name)) :
    ((front ++ declaration :: back).foldl (checkDeclaration load setup) scope).workspace.table.kindAt (module.join name) =
      declaration.enumKind? := by
  rw [List.foldl_append, List.foldl_cons] at defines ⊢
  have reached := attends.acted honours idle setup.registries (attends.declarations_acts honours idle front)
  have own : ReflTransGen (Act load setup.registries declaration) _ _ := reached.checkDeclaration_acts honours idle
  have passed := reached.moves honours idle (ReflTransGen.mono (fun _ _ => Act.move) _ _ own)
  have defined := (passed.defines_declarations honours idle back).mp defines
  have contents := passed.contents_declarations honours idle found apart defined
  have known := reached.checkDeclaration_kindAt honours idle typed found named holds
    ((reached.defines_acts honours idle own).mp defined)
  exact (congrArg (Option.bind · SchemaType.enumKind?) contents).trans known

end Attends

/-- Each type of a checked document that owns its symbol has put on record what kind it states. -/
def KindsFollow (trailing : TrailingPolicy) (uri : String) (record : FileRecord) (table : SymbolTable) : Prop :=
  ∀ key declaration body, declaration.sort?.isSome →
    OwnsBody table uri (parse record.text trailing).node key declaration body → table.kindAt key = declaration.enumKind?

theorem OwnsBody.congr {table after : SymbolTable} {uri key : String} {root declaration body : Node}
    (owns : OwnsBody after uri root key declaration body) (entries : after.entries = table.entries)
    (defined : ∀ usage, after.definitionAt (.schema key) = some usage → usage.location.uri = uri →
      table.definitionAt (.schema key) = some usage) : OwnsBody table uri root key declaration body :=
  { owns with defined := defines_congr entries defined owns.defined }

theorem kindsFollow_lasting (setup : Setup) : Lasting setup (KindsFollow setup.trailing) := by
  constructor
  case clear =>
    intro table uri record other sound apart follow key declaration body typed owns
    obtain ⟨_, _, _, usage, _, _, _, _, defined, place⟩ := owns.defined
    have kept := fun {usage : Usage} (defined : (table.clearUri other).definitionAt (.schema key) = some usage)
        (here : usage.location.uri = uri) => defined_clearUri sound defined (here ▸ apart)
    rw [SymbolTable.kindAt, (kept defined (by rw [place])).2]
    exact follow key declaration body typed (owns.congr (sound.entries_clearUri other) fun usage defined here => (kept defined here).1)
  case write =>
    intro scope uri record creates address written sound mine apart follow key declaration body typed owns
    obtain ⟨_, _, _, usage, _, _, _, _, defined, place⟩ := owns.defined
    have kept := fun {usage : Usage}
        (defined : (scope.write creates address written).workspace.table.definitionAt (.schema key) = some usage)
        (here : usage.location.uri = uri) => defined_write sound creates mine defined (here ▸ apart)
    rw [SymbolTable.kindAt, (kept defined (by rw [place])).2]
    exact follow key declaration body typed (owns.congr (mine.entries sound creates) fun usage defined here => (kept defined here).1)
  case alone =>
    intro table uri record stranger key declaration body typed owns
    obtain ⟨_, _, _, _, home, _⟩ := owns.defined
    rw [stranger] at home
    cases home
  case ends =>
    intro load before document module record honours sound needs registered text errors key declaration body typed owns
    rw [text] at owns
    have attends := endOf_attends honours sound needs module
    have waited := waitedOf_attends honours sound needs module
    obtain ⟨other, identifier, name, usage, home, found, named, rfl, defined, place⟩ := owns.defined
    have same : other = module := by
      rw [SymbolTable.moduleOfUri?_congr attends.entries, registered] at home
      exact (Option.some.inj home).symm
    subst same
    have defines : (endOf load setup (fetch setup before document.uri).2.enter document other).Defines declaration (other.join name) :=
      ⟨identifier, usage, found, defined, place.trans (attends.locate _).symm⟩
    obtain ⟨front, back, children⟩ := List.append_of_mem owns.listed
    rw [endOf_eq, children] at defines ⊢
    exact waited.kindAt_declarations honours needs.idle typed found named owns.holds
      (fun other behind node also => Attends.identifier_apart children found named (List.mem_append_right _ behind) also) defines

namespace Attends

open Scope

variable {module : ModulePath} {scope after : Scope} {declaration : Node} {key : String}
  (honours : ∀ workspace uri, Honours setup workspace (load workspace uri).2) (idle : ¬before.InProgress document.uri)

include honours idle

/-- Resolving a path leaves on record what the types of the document have put there. -/
theorem kindAt_calms (attends : Attends setup before document module scope) (calms : ReflTransGen (Calm load) scope after)
    (known : scope.Defines declaration key → scope.workspace.table.kindAt key = declaration.enumKind?) :
    after.Defines declaration key → after.workspace.table.kindAt key = declaration.enumKind? := by
  refine attends.run honours idle (fun after => after.Defines declaration key → after.workspace.table.kindAt key = declaration.enumKind?)
    Calm.move ?_ calms known
  intro scope after here onward calm known defines
  have act : Act load setup.registries declaration scope after := .calm calm
  have defined := (here.defines_act honours onward act).mp defines
  obtain ⟨_, usage, _, found, place⟩ := id defined
  rw [here.locate] at place
  have contents := here.contents_calm honours calm found (by rw [place])
  exact (congrArg (Option.bind · SchemaType.enumKind?) contents).trans (known defined)

end Attends

/-- A check of the document has come to an inject clause behind the earlier declarations, and the path of the clause leads
to a type. -/
structure Injecting (setup : Setup) (before : Workspace) (document : TextDocument) (module : ModulePath) (earlier : List Node)
    (clause definition path : Node) (injected : Subcategory × Option EnumKind) (key : String) (usage : Usage)
    (scope resolved : Scope) : Prop where
  front : earlier ++ [clause] <+: (parse document.text setup.trailing).node.children
  reached : scope = (passOf setup document module).checked (ensureChecked setup) setup
    (startOf setup (admission setup before document.uri).2.enter document module) earlier
  kind : clause.kind = .injectClause
  holds : clause.child? .definition = some definition
  found : definition.child? .path = some path
  given : Scope.injected? definition = some injected
  resolves : scope.resolvePath (ensureChecked setup) setup.limits path = (some (.schema key), resolved)
  defined : resolved.workspace.table.definitionAt (.schema key) = some usage

namespace Injecting

variable {module : ModulePath} {earlier : List Node} {clause definition path : Node} {injected : Subcategory × Option EnumKind}
  {key : String} {usage : Usage} {scope resolved : Scope} (needs : Needs setup before document.uri document)
  (injecting : Injecting setup before document module earlier clause definition path injected key usage scope resolved)

include injecting

theorem scope_eq : scope = (passOf setup document module).checked (ensureChecked setup) setup
    (startOf setup (fetch setup before document.uri).2.enter document module) earlier := by
  have reached := injecting.reached
  rwa [admission_eq] at reached

theorem resolved_eq : (scope.resolvePath (ensureChecked setup) setup.limits path).2 = resolved := congrArg Prod.snd injecting.resolves

theorem listed : earlier ⊆ (parse document.text setup.trailing).node.children :=
  fun _ member => injecting.front.subset (List.mem_append_left _ member)

include needs

theorem attests (neat : before.table.Neat) (declared : before.Declared setup.trailing)
    (registered : before.table.moduleOfUri? document.uri = some module) : Attests setup before document module resolved := by
  have onTree : (parse document.text setup.trailing).node.HasPath path := ⟨definition, Node.mem_of_named
    (injecting.front.subset (List.mem_append_right _ (List.mem_singleton_self _))) injecting.holds, injecting.found⟩
  have home : ((fetch setup before document.uri).2.enter.table.clearUri document.uri).moduleOfUri? document.uri = some module := by
    rw [table_entered, neat.sound.moduleOfUri?_clearUri, registered]
  have begun : Attests setup before document module
      (startOf setup (fetch setup before document.uri).2.enter document module) := Attests.start neat declared needs home _
  have invariant := Attests.invariant (ensureChecked_declares setup) needs.idle module
  rw [← injecting.resolved_eq, injecting.scope_eq]
  exact invariant.resolvePath onTree (invariant.checked rfl begun ((List.prefix_append _ _).trans injecting.front))

theorem endures {Good : Workspace → Prop} (enduring : Enduring setup Good) (good : before.table.Sound ∧ Good before)
    (registered : before.table.moduleOfUri? document.uri = some module) : Good resolved.workspace := by
  have honours := ensureChecked_honours setup
  have step : ∀ {scope after}, Attends setup before document module scope → Attends setup before document module after →
      Deed (ensureChecked setup) setup.registries (parse document.text setup.trailing).node.children scope after →
      Good scope.workspace → Good after.workspace := fun here onward deed good =>
    enduring.step here onward registered needs.provides deed (fun uri => (enduring.ensureChecked _ uri ⟨here.sound, good⟩).2) good
  have waited := waitedOf_keeps honours good.1 needs module (fun scope => Good scope.workspace)
    (enduring.start module good.1 needs good.2) enduring.checking fun here onward entry => step here onward (.inl entry)
  have attends := waitedOf_attends honours good.1 needs module
  have acts := attends.declarations_acts honours needs.idle earlier
  have reached := attends.run honours needs.idle (fun scope => Good scope.workspace) (Attends.ActOf.move _)
    (fun here onward ⟨other, member, act⟩ => step here onward (.inr ⟨other, injecting.listed member, act⟩)) acts waited
  rw [← injecting.resolved_eq, injecting.scope_eq]
  exact (attends.acted honours needs.idle setup.registries acts).run honours needs.idle (fun scope => Good scope.workspace)
    Scope.Calm.move (fun here onward calm => step here onward (.inl (.calm calm)))
    (Scope.resolvePath_calm (ensureChecked setup) setup.limits _ path).1 reached

/-- A type of the document itself has its kind on record if it stands in front of the clause. -/
theorem kindAt_ahead (sound : before.table.Sound) {declaration identifier body : Node} {name : String}
    (ahead : declaration ∈ earlier) (typed : declaration.sort?.isSome) (found : declaration.child? .identifier = some identifier)
    (named : identifier.textValue? = some name) (holds : declaration.child? .body = some body)
    (defines : resolved.Defines declaration (module.join name)) :
    resolved.workspace.table.kindAt (module.join name) = declaration.enumKind? := by
  have honours := ensureChecked_honours setup
  have waited := waitedOf_attends honours sound needs module
  have attends := waited.acted honours needs.idle setup.registries (waited.declarations_acts honours needs.idle earlier)
  have calms := (scope.resolvePath_calm (ensureChecked setup) setup.limits path).1
  rw [injecting.resolved_eq, injecting.scope_eq] at calms
  refine attends.kindAt_calms honours needs.idle calms (fun defined => ?_) defines
  obtain ⟨front, back, rfl⟩ := List.append_of_mem ahead
  obtain ⟨rest, children⟩ := injecting.front
  have whole : (parse document.text setup.trailing).node.children = front ++ declaration :: (back ++ clause :: rest) := by
    rw [← children]
    simp
  exact waited.kindAt_declarations honours needs.idle typed found named holds (fun other behind node also =>
    Attends.identifier_apart whole found named (List.mem_append_right _ (List.mem_append_left _ behind)) also) defined

/-- The kind of the target is on record if its document is not on the way, or has come past the declaration. -/
theorem kindAt_settled (neat : before.table.Neat) (declared : before.Declared setup.trailing)
    (kinds : before.NotesIn (·.isInProgress = false) (KindsFollow setup.trailing))
    (registered : before.table.moduleOfUri? document.uri = some module) {record : FileRecord} {declaration : Node}
    (backs : resolved.workspace.Backs setup.trailing key usage record declaration)
    (settled : record.state.isInProgress = false ∨ usage.location.uri = document.uri ∧ declaration ∈ earlier) :
    resolved.workspace.table.kindAt key = declaration.enumKind? := by
  have attests := injecting.attests needs neat declared registered
  obtain ⟨other, identifier, name, home, found, named, rfl, same⟩ := backs.named
  have place : usage.location = ⟨usage.location.uri, identifier.span⟩ := by rw [same]
  obtain ⟨body, bodied⟩ :=
    Option.isSome_iff_exists.mp (parse_bodied record.text setup.trailing declaration backs.listed backs.some)
  rcases settled with idle | ⟨own, ahead⟩
  · have notes := injecting.endures needs ((kindsFollow_lasting setup).enduringIn id) ⟨neat.sound, kinds⟩ registered
    exact notes _ record backs.known idle _ declaration body backs.some
      ⟨backs.listed, bodied, other, identifier, name, usage, home, found, named, rfl, injecting.defined, place⟩
  · rw [own] at home place
    obtain rfl : other = module := Option.some.inj (home.symm.trans attests.home)
    refine injecting.kindAt_ahead needs neat.sound ahead backs.some found named bodied
      ⟨identifier, usage, found, injecting.defined, ?_⟩
    rw [place, Scope.locate, attests.tends.place.1]

end Injecting

/-- Whenever a check comes to an inject clause whose path leads to a type, the clause is judged by the declaration that the
type has in the text: if both are of a struct, or both of an enum, and of the same kind where both state one, the fields are
entered, and in every other case one error stands at the path, and nothing else has changed. Only the kind of an enum may
be mistaken, and only as long as its body waits to be checked: as long as its document is on the way, and if that is the
document of the clause, has not come past the declaration. -/
theorem injections_matched {base : Setup} {layout : Layout} {scanned : FileTree} {workspace : Workspace}
    (session : Session base layout scanned workspace) (files : FileTree) {uri : String} {call : Call}
    (within : Call.Within (base.over files) workspace uri call) {document : TextDocument}
    (admitted : (admission (base.over files) call.workspace call.uri).1 = .admitted document) {module : ModulePath}
    (registered : call.workspace.table.moduleOfUri? document.uri = some module) {earlier : List Node}
    {clause definition path : Node} {injected : Subcategory × Option EnumKind} {key : String} {usage : Usage}
    {scope resolved : Scope} (injecting : Injecting (base.over files) call.workspace document module earlier clause definition path
      injected key usage scope resolved) :
    let known := resolved.workspace.table.kindAt key
    ∃ record declaration, resolved.workspace.Backs base.trailing key usage record declaration ∧
      (record.state.isInProgress = false ∨ usage.location.uri = document.uri ∧ declaration ∈ earlier →
        known = declaration.enumKind?) ∧
      resolved.errors = scope.errors ∧
      Scope.Judges (ensureChecked (base.over files)) base.limits (declaration.sort?, known) injected definition path (.schema key)
        resolved (scope.checkDeclaration (ensureChecked (base.over files)) (base.over files) clause) := by
  rw [admission_eq] at admitted
  have asked := judge_admitted admitted
  have needs : Needs (base.over files) call.workspace document.uri document := (provided_uri asked.provides) ▸ asked
  have lasting := kindsFollow_lasting (base.over files)
  have kinds : workspace.NotesIn (·.isInProgress = false) (KindsFollow base.trailing) :=
    session.notesIdle (fun files => kindsFollow_lasting (base.over files)) fun _ follow => follow
  obtain ⟨neat, declared⟩ := within.declared session.reachable.neat session.declared
  obtain ⟨-, notes⟩ := within.endures (lasting.enduringIn id) ⟨session.sound.1, kinds⟩
  obtain ⟨record, declaration, backs⟩ :=
    (injecting.attests needs neat declared registered).declared key usage injecting.defined
  have judges := Scope.checkInject_judges injecting.holds injecting.found injecting.given injecting.resolves
  rw [Scope.declaredKind_eq, backs.sorted] at judges
  refine ⟨record, declaration, backs, injecting.kindAt_settled needs neat declared notes registered backs,
    Scope.errors_of_resolved injecting.resolves, ?_⟩
  rw [Scope.checkDeclaration, injecting.kind]
  exact judges

/-- A clause of another kind than the enum in front of it: one error stands at its path, and it enters nothing. -/
theorem injections_matched_behind :
    let text := "enum(string) E \x7b\x7d inject enum(int) E { A = 1 }"
    let workspace := pairWorkspace text ""
    let document : TextDocument := ⟨"file:///a.sdoc", 1, text⟩
    let setup := ({} : Setup).over {}
    Session {} pairLayout pairFiles workspace ∧ (admission setup workspace document.uri).1 = .admitted document ∧
      ∃ earlier clause definition path usage scope resolved,
        Injecting setup workspace document ⟨["a"]⟩ earlier clause definition path (.enum, some .int) "::a::E" usage
          scope resolved ∧
        scope.checkDeclaration (ensureChecked setup) setup clause =
          { resolved with errors := scope.errors ++ [Scope.unmatched (some .enum, some .string) (.enum, some .int) path.span] } := by
  intro text workspace document setup
  have session : Session {} pairLayout pairFiles workspace := pairWorkspace_session _ _
  have within : Call.Within setup workspace document.uri ⟨workspace, document.uri, []⟩ := .outermost
  have admitted : (admission setup workspace document.uri).1 = .admitted document :=
    admission_admitted (by decide +kernel) (by decide +kernel)
  let root := (parse text .allowed).node
  let scope := (passOf setup document ⟨["a"]⟩).checked (ensureChecked setup) setup
    (startOf setup (admission setup workspace document.uri).2.enter document ⟨["a"]⟩) root.children.dropLast
  have facts : (∀ declaration ∈ root.children.dropLast, declaration.sort? = some .enum ∧ declaration.enumKind? = some .string) ∧
      ∃ clause ∈ root.children.getLast?, clause.kind = .injectClause ∧ clause.child? .identifier = none ∧
        ∃ definition ∈ clause.child? .definition, Scope.injected? definition = some (.enum, some .int) ∧
        ∃ path ∈ definition.child? .path,
          (scope.resolvePath (ensureChecked setup) {} path).1 = some (.schema "::a::E") ∧
          ((scope.resolvePath (ensureChecked setup) {} path).2.workspace.record? document.uri).map FileRecord.text =
            some text ∧
          ∃ usage ∈ (scope.resolvePath (ensureChecked setup) {} path).2.workspace.table.definitionAt (.schema "::a::E"),
            usage.location.uri = document.uri := by decide +kernel
  obtain ⟨enums, clause, last, kind, nameless, definition, holds, given, path, found, target, current, usage, defined, own⟩ := facts
  have children : root.children.dropLast ++ [clause] = root.children := List.dropLast_append_getLast? clause last
  have injecting : Injecting setup workspace document ⟨["a"]⟩ root.children.dropLast clause definition path
      (.enum, some .int) "::a::E" usage scope (scope.resolvePath (ensureChecked setup) {} path).2 :=
    { front := ⟨[], (List.append_nil _).trans children⟩
      reached := rfl
      kind, holds, found, given, defined
      resolves := Prod.ext target rfl }
  have registered : workspace.table.moduleOfUri? document.uri = some ⟨["a"]⟩ := by decide +kernel
  obtain ⟨record, declaration, backs, settled, errors, judges⟩ :=
    injections_matched session {} within admitted registered injecting
  have spoken : record.text = text := by
    have known := backs.known
    rw [own] at known
    simpa [known] using current
  have ahead : declaration ∈ root.children.dropLast := by
    have listed := backs.listed
    rw [spoken] at listed
    replace listed : declaration ∈ root.children := listed
    rw [← children, List.mem_append, List.mem_singleton] at listed
    obtain ⟨_, identifier, _, _, named, _⟩ := backs.named
    refine listed.resolve_right fun same => ?_
    rw [same, nameless] at named
    cases named
  obtain ⟨sort, states⟩ := enums declaration ahead
  rw [sort, settled (.inr ⟨own, ahead⟩), states] at judges
  refine ⟨session, admitted, _, clause, definition, path, usage, scope, _, injecting, ?_⟩
  rw [judges.rejected (by simp [Scope.Matches]), errors]

/-- The same clause in front of the enum: nothing is said, and its field is a member of an enum of another kind. -/
theorem injection_ahead_of_enum_accepted :
    let workspace := pairWorkspace "inject enum(int) E { A = 1 } enum(string) E \x7b\x7d" ""
    Session {} pairLayout pairFiles workspace ∧
      (workspace.checkAll {}).1 = [("file:///a.sdoc", none), ("file:///b.sdoc", none)] ∧
      (workspace.checkAll {}).2.diagnostics "file:///a.sdoc" = [] ∧
      (workspace.checkAll {}).2.table.kindAt "::a::E" = some .string ∧
      (workspace.checkAll {}).2.table.holds ((SymbolPath.schema "::a::E").member "A") ⟨"file:///a.sdoc", ⟨21, 22⟩⟩ = true := by
  intro workspace
  exact ⟨pairWorkspace_session _ _, by decide +kernel⟩

end Workspace

end SchemaDoc
