import SchemaDoc.Proofs.SoleMembers

/-! Where types come from. Whatever defines a name of a module is a declaration in the text that its document was last
taken up with, and the symbol is of the sort that is declared there. -/

namespace SchemaDoc

namespace Pass

variable {pass : Pass} {Known : Scope → SymbolPath → Prop} {scope : Scope} {creates : Bool} {address : SymbolPath}
  {record : SymbolRecord}

theorem Writes.keeps_entries (writes : pass.Writes ToKey Known scope creates address record)
    (sound : scope.workspace.table.Sound) :
    (scope.write creates address record).workspace.table.entries = scope.workspace.table.entries := by
  refine SymbolTable.entries_write sound.sorted creates writes.kind_ne ?_
  cases writes with
  | type member found text free sort => exact .inr (.inr fun usage listed => sound.unimplemented free listed)
  | field inside member found text free subcategory data known =>
    obtain ⟨key, rfl⟩ := inside.key
    exact .inr (.inl (by simp [SymbolPath.schema, SymbolPath.member]))
  | _ => exact .inl rfl

/-- A definition of a name is written by the declaration of a type, or it is not of a name. -/
theorem Writes.defines {key : String} {usage : Usage} (writes : pass.Writes ToKey Known scope creates (.schema key) record)
    (given : record.usage = some usage) (kind : usage.kind = .definition) :
    creates = true ∧ (Query.start scope.workspace.table pass.uri (.schema key)).declared? = none ∧
      ∃ declaration ∈ pass.root.children, ∃ identifier name, declaration.child? .identifier = some identifier ∧
        identifier.textValue? = some name ∧ key = pass.module.join name ∧ usage.location = ⟨pass.uri, identifier.span⟩ ∧
        record.subcategory.isSome ∧ declaration.sort? = record.subcategory := by
  generalize here : SymbolPath.schema key = address at writes
  cases writes with
  | type member found text free sort =>
    cases here
    cases given
    exact ⟨rfl, free, _, member, _, _, found, text, rfl, rfl, rfl, sort⟩
  | field inside member found text free subcategory data known =>
    obtain ⟨container, rfl⟩ := inside.key
    exact absurd here.symm (SymbolPath.member_ne_schema _ _ _)
  | object => cases here
  | data => cases given
  | module | use | mention | reference =>
    cases given
    cases kind

/-- Other writes at a name leave its sort alone. -/
theorem Writes.unsorted {key : String} (writes : pass.Writes ToKey Known scope creates (.schema key) record) :
    record.subcategory = none ∨ (Query.start scope.workspace.table pass.uri (.schema key)).declared? = none := by
  generalize here : SymbolPath.schema key = address at writes
  cases writes with
  | type member found text free sort => exact .inr (here ▸ free)
  | field inside member found text free subcategory data known => exact .inr (here ▸ free)
  | _ => exact .inl rfl

end Pass

namespace Workspace

/-- What a usage defines is declared in the text of its document, there and of this sort. -/
structure Backs (trailing : TrailingPolicy) (workspace : Workspace) (key : String) (usage : Usage) (record : FileRecord)
    (declaration : Node) : Prop where
  known : workspace.record? usage.location.uri = some record
  listed : declaration ∈ (parse record.text trailing).node.children
  named : ∃ module identifier name, workspace.table.moduleOfUri? usage.location.uri = some module ∧
    declaration.child? .identifier = some identifier ∧ identifier.textValue? = some name ∧ key = module.join name ∧
    identifier.span = usage.location.span
  some : declaration.sort?.isSome
  sorted : workspace.table.partAt Symbol.subcategory (.schema key) = declaration.sort?

def Declared (trailing : TrailingPolicy) (workspace : Workspace) : Prop :=
  ∀ key usage, workspace.table.definitionAt (.schema key) = some usage →
    ∃ record declaration, workspace.Backs trailing key usage record declaration

variable {setup : Setup} {before : Workspace} {document : TextDocument} {module : ModulePath} {load : Loader}
  {trailing : TrailingPolicy} {workspace after : Workspace}

theorem Declared.congr (declared : workspace.Declared trailing) (table : after.table = workspace.table)
    (texts : ∀ uri record, workspace.record? uri = some record → ∃ other, after.record? uri = some other ∧ other.text = record.text) :
    after.Declared trailing := by
  intro key usage defined
  rw [table] at defined
  obtain ⟨record, declaration, backs⟩ := declared key usage defined
  obtain ⟨other, known, text⟩ := texts _ record backs.known
  refine ⟨other, declaration, known, text ▸ backs.listed, ?_, backs.some, ?_⟩
  · rw [table]
    exact backs.named
  · rw [table]
    exact backs.sorted

theorem Declared.fetched (declared : workspace.Declared trailing) (setup : Setup) (uri : String) :
    (fetch setup workspace uri).2.Declared trailing := by
  obtain ⟨documents, fetched⟩ := fetch_snd setup workspace uri
  rw [fetched]
  exact declared.congr rfl fun _ record known => ⟨record, known, rfl⟩

theorem Declared.entered (declared : workspace.Declared trailing) : workspace.enter.Declared trailing :=
  declared.congr rfl fun _ record known => ⟨record, known, rfl⟩

theorem Declared.takeUp (declared : workspace.Declared trailing) (sound : workspace.table.Sound) (document : TextDocument)
    (errors : List Diagnostic) : (workspace.takeUp document errors).Declared trailing := by
  intro key usage defined
  change (workspace.table.clearUri document.uri).definitionAt (.schema key) = Option.some usage at defined
  obtain ⟨member, kind⟩ := (sound.clearUri document.uri).definitionAt.mp defined
  rw [SymbolTable.usagesAt_clearUri sound.sorted] at member
  obtain ⟨listed, kept⟩ := List.mem_filter.mp member
  have elsewhere : usage.isCheckedFrom document.uri = false := by simpa using kept
  have apart : usage.location.uri ≠ document.uri := by
    intro here
    simp [Usage.isCheckedFrom, here, (sound.shown listed kind).2] at elsewhere
  obtain ⟨record, declaration, backs⟩ := declared key usage (sound.definitionAt.mpr ⟨listed, kind⟩)
  refine ⟨record, declaration, ?_, backs.listed, ?_, backs.some, ?_⟩
  · rw [record?_takeUp, if_neg apart]
    exact backs.known
  · obtain ⟨module, identifier, name, home, rest⟩ := backs.named
    exact ⟨module, identifier, name, (sound.moduleOfUri?_clearUri document.uri _).trans home, rest⟩
  · exact (SymbolTable.partAt_clearUri (fun _ _ => rfl) sound.sorted listed (by rw [kind]; rfl) elsewhere).trans backs.sorted

/-- A check of a document of the module, in a workspace where all that is defined is declared. -/
structure Attests (setup : Setup) (before : Workspace) (document : TextDocument) (module : ModulePath) (scope : Scope) : Prop where
  tends : Tends setup before document module scope
  home : scope.workspace.table.moduleOfUri? document.uri = some module
  declared : scope.workspace.Declared setup.trailing

structure Declares (setup : Setup) (before after : Workspace) : Prop where
  honours : Honours setup before after
  retains : Retains before after
  declared : before.table.Neat → before.Declared setup.trailing → after.Declared setup.trailing

namespace Attests

variable {scope : Scope}

/-- A write declares what it defines. -/
theorem write {creates : Bool} {address : SymbolPath} {record : SymbolRecord} {limits : Limits}
    {Known : Scope → SymbolPath → Prop} (attests : Attests setup before document module scope)
    (writes : (Pass.mk limits document.uri module (parse document.text setup.trailing).node).Writes Pass.ToKey Known scope
      creates address record) :
    (scope.write creates address record).workspace.Declared setup.trailing := by
  have sound := attests.tends.neat.sound
  have entries := writes.keeps_entries sound
  have home : ∀ uri, (scope.write creates address record).workspace.table.moduleOfUri? uri =
      scope.workspace.table.moduleOfUri? uri := SymbolTable.moduleOfUri?_congr entries
  intro key usage defined
  obtain ⟨member, kind⟩ := (writes.sound sound).definitionAt.mp defined
  rcases SymbolTable.usagesAt_of_write sound.sorted creates address record member with old | ⟨rfl, given⟩
  · have earlier := sound.definitionAt.mpr ⟨old, kind⟩
    obtain ⟨text, declaration, backs⟩ := attests.declared key usage earlier
    refine ⟨text, declaration, backs.known, backs.listed, by simpa only [home] using backs.named, backs.some, ?_⟩
    refine (SymbolTable.partAt_write sound.sorted creates address record (fun _ => rfl) fun here symbol => ?_).trans backs.sorted
    subst here
    have none : record.subcategory = none :=
      writes.unsorted.resolve_right fun free => absurd kind (sound.undefined free old)
    simp [SymbolRecord.apply, none]
  · obtain ⟨rfl, -, declaration, listed, identifier, name, found, text, rfl, place, some, sort⟩ := writes.defines given kind
    obtain ⟨file, known, current⟩ : ∃ file, scope.workspace.record? document.uri = Option.some file ∧ file.text = document.text := by
      obtain ⟨state, -, known⟩ := attests.tends.underway.record
      exact ⟨_, known, rfl⟩
    refine ⟨file, declaration, by rw [place]; exact known, current ▸ listed,
      ⟨module, identifier, name, ?_, found, text, rfl, ?_⟩, sort ▸ some, ?_⟩
    · rw [home, place]
      exact attests.home
    · rw [place]
    · obtain ⟨symbol, present⟩ := Option.isSome_iff_exists.mp
        (SymbolTable.isSome_lookup?_ensure sound.sorted (SymbolPath.schema_path_ne (module.join name)))
      refine (SymbolTable.partAt_amend Symbol.subcategory present record).trans ?_
      obtain ⟨subcategory, given⟩ := Option.isSome_iff_exists.mp some
      simp [SymbolRecord.apply, sort, given]

/-- The step: throughout the passes over a document all that is defined is declared. -/
theorem invariant (declares : ∀ workspace uri, Declares setup workspace (load workspace uri).2)
    (idle : ¬before.InProgress document.uri) (module : ModulePath) :
    (passOf setup document module).Invariant load Pass.ToKey (fun _ _ => True) (Attests setup before document module) := by
  have tended := Tends.invariant (fun workspace uri => (declares workspace uri).honours)
    (fun workspace uri => (declares workspace uri).retains) idle setup.limits module (parse document.text setup.trailing).node
  constructor
  case place => exact fun attests => attests.tends.place
  case arrives => exact fun attests => tended.arrives attests.tends
  case learn | retain => exact fun _ _ _ => trivial
  case steady => exact fun _ resolved _ => resolved
  case load =>
    intro scope path goal asked attests leads implemented apart
    have declares := declares scope.workspace asked
    refine ⟨tended.load attests.tends leads implemented apart, ?_, declares.declared attests.tends.neat attests.declared⟩
    exact (SymbolTable.moduleOfUri?_congr (declares.honours.entries attests.tends.neat.sound) document.uri).trans attests.home
  case add => exact fun attests reports => ⟨tended.add attests.tends reports, attests.home, attests.declared⟩
  case write =>
    intro scope creates address record attests writes
    refine ⟨tended.write attests.tends writes, ?_, attests.write writes⟩
    exact (SymbolTable.moduleOfUri?_congr (writes.keeps_entries attests.tends.neat.sound) document.uri).trans attests.home
  case checking =>
    intro scope attests
    refine ⟨tended.checking attests.tends, attests.home, attests.declared.congr rfl fun uri record known => ?_⟩
    rw [Scope.checking, setState, record?_modifyRecord]
    split
    · exact ⟨{ record with state := .checking }, by rw [known]; rfl, rfl⟩
    · exact ⟨record, known, rfl⟩

theorem start (neat : before.table.Neat) (declared : before.Declared setup.trailing)
    (needs : Needs setup before document.uri document)
    (registered : ((fetch setup before document.uri).2.enter.table.clearUri document.uri).moduleOfUri? document.uri = some module)
    (errors : List Diagnostic) :
    Attests setup before document module
      { workspace := (fetch setup before document.uri).2.enter.takeUp document (parse document.text setup.trailing).errors
        uri := document.uri, module, errors } := by
  refine ⟨Tends.start neat needs module errors, registered, (declared.fetched setup document.uri).entered.takeUp ?_ document _⟩
  rw [table_entered]
  exact neat.sound

end Attests

theorem Declared.conclude (declared : workspace.Declared trailing) (uri : String) (node : Node) (errors : List Diagnostic)
    (dependencies : List String) : (workspace.conclude uri node errors dependencies).leave.Declared trailing := by
  refine declared.congr rfl fun other record known => ?_
  change ∃ after, (workspace.conclude uri node errors dependencies).record? other = some after ∧ _
  rw [record?_conclude]
  split
  · exact ⟨{ record with state := .checked, node := some node, errors, dependencies }, by rw [known]; rfl, rfl⟩
  · exact ⟨record, known, rfl⟩

theorem checkDocument_declares {uri : String} (declares : ∀ workspace uri, Declares setup workspace (load workspace uri).2)
    (needs : Needs setup before uri document) (neat : before.table.Neat) (declared : before.Declared setup.trailing) :
    (checkDocument load setup (fetch setup before uri).2.enter document).leave.Declared setup.trailing := by
  obtain rfl := provided_uri needs.provides
  refine checkDocument_ends (fun after => after.leave.Declared setup.trailing) (Attests setup before document) (fun errors => ?_)
    (fun module errors registered => Attests.start neat declared needs registered errors)
    (Attests.invariant declares needs.idle) (fun module scope attests => Declared.conclude attests.declared _ _ _ _)
  have sound : (fetch setup before document.uri).2.enter.table.Sound := by
    rw [table_entered]
    exact neat.sound
  exact Declared.conclude ((declared.fetched setup document.uri).entered.takeUp sound document _) _ _ _ _

/-- The run: every load leaves what is defined declared. -/
theorem ensureChecked_declares (setup : Setup) (workspace : Workspace) (uri : String) :
    Declares setup workspace (ensureChecked setup workspace uri).2 := by
  refine loadWithin_induction (Declares setup) (fun workspace uri => ?_) (fun {load before uri document} declares needs => ?_) _
    workspace uri
  · exact ⟨Honours.fetch workspace uri, Retains.fetch setup workspace uri, fun _ declared => declared.fetched setup uri⟩
  · have honours := fun workspace uri => (declares workspace uri).honours
    exact ⟨checkDocument_honours honours needs,
      checkDocument_retains honours (fun workspace uri => (declares workspace uri).retains) needs,
      checkDocument_declares declares needs⟩

/-- Throughout a session all that is defined is declared. -/
theorem Session.declared {base : Setup} {layout : Layout} {scanned : FileTree} {workspace : Workspace}
    (session : Session base layout scanned workspace) : workspace.Declared base.trailing := by
  have load : ∀ files (workspace : Workspace) (uri : String), workspace.table.Neat ∧ workspace.Declared base.trailing →
      (ensureChecked (base.over files) workspace uri).2.table.Neat ∧
        (ensureChecked (base.over files) workspace uri).2.Declared base.trailing := by
    rintro files workspace uri ⟨neat, declared⟩
    have declares := ensureChecked_declares (base.over files) workspace uri
    exact ⟨declares.retains.neat neat, declares.declared neat declared⟩
  induction session with
  | new documents =>
    intro key usage defined
    have laid : LaidAlone (registerLayout {} layout scanned).2.table :=
      laidAlone_register fun entry member => Layout.plain_of_modulesOf member
    obtain ⟨member, kind⟩ := laid.sound.definitionAt.mp defined
    obtain ⟨⟨uri, rfl⟩, -⟩ := laid.usages _ usage member
    cases kind
  | edit _ documents ih => exact ih.congr rfl fun _ record known => ⟨record, known, rfl⟩
  | check earlier files uri ih => exact (load files _ uri ⟨earlier.reachable.neat, ih⟩).2
  | checkAll earlier files ih => exact (checkUris_keeps (load files) _ ⟨earlier.reachable.neat, ih⟩).2
  | @invalidate workspace _ uri ih =>
    refine ih.congr rfl fun other record known => ?_
    rw [record?_invalidate]
    split
    · exact ⟨{ record with state := .unparsed }, by rw [known]; rfl, rfl⟩
    · exact ⟨record, known, rfl⟩

/-- A document is asked for only where all that is defined is declared. -/
theorem Call.Within.declared {uri : String} {call : Call} (within : Call.Within setup workspace uri call)
    (neat : workspace.table.Neat) (declared : workspace.Declared setup.trailing) :
    call.workspace.table.Neat ∧ call.workspace.Declared setup.trailing := by
  refine @Call.Within.carries setup workspace uri call
    (fun workspace => workspace.table.Neat ∧ workspace.Declared setup.trailing) within ⟨neat, declared⟩ ?_
  rintro before current uri asked document ⟨neat, declared⟩ needs consults
  obtain rfl := provided_uri needs.provides
  obtain ⟨module, scope, attests, rfl⟩ := holds_of_consults
    (fun module errors registered => Attests.start neat declared needs registered errors)
    (Attests.invariant (ensureChecked_declares setup) needs.idle) consults
  exact ⟨attests.tends.neat, attests.declared⟩

end Workspace

end SchemaDoc
