import SchemaDoc.Proofs.AttendedChecks

/-! Members of types. A member is entered where its name is free, so that it is declared once at most; and what
the documents on the way have entered stays what it is, whatever is loaded meanwhile. -/

namespace SchemaDoc

namespace SymbolTable

/-- A sound table in which a member is declared at most once, for all to see, and in which nothing is known of
members that are not declared. -/
structure Neat (table : SymbolTable) : Prop where
  sound : table.Sound
  exported : ∀ {key name usage}, usage ∈ table.declarationsAt ((SymbolPath.schema key).member name) →
    usage.visibility = .exported
  lone : ∀ {key name first second}, first ∈ table.declarationsAt ((SymbolPath.schema key).member name) →
    second ∈ table.declarationsAt ((SymbolPath.schema key).member name) → first = second
  vacant : ∀ {key name}, table.declarationsAt ((SymbolPath.schema key).member name) = [] →
    table.partAt Symbol.data ((SymbolPath.schema key).member name) = none

theorem declarationsAt_congr {table after : SymbolTable} {address : SymbolPath}
    (same : after.lookup? address = table.lookup? address) : after.declarationsAt address = table.declarationsAt address := by
  rw [declarationsAt, declarationsAt, usagesAt, usagesAt, same]

/-- Where something is entered that declares it, a symbol that was not declared has the one declaration. -/
theorem declarationsAt_enter {table : SymbolTable} (sorted : Sorted table.symbols) {target : SymbolPath}
    (somewhere : target.path ≠ []) {record : SymbolRecord} {usage : Usage} (given : record.usage = some usage)
    (declaring : usage.kind.isDeclaring = true) :
    (table.enter target record).declarationsAt target = table.declarationsAt target ++ [usage] := by
  rw [declarationsAt, usagesAt_enter sorted somewhere, if_pos rfl, given, List.filter_append, ← declarationsAt]
  simp [declaring]

theorem partAt_enter_vacant {table : SymbolTable} (sorted : Sorted table.symbols) {target : SymbolPath}
    (somewhere : target.path ≠ []) (vacant : table.partAt Symbol.data target = none) (record : SymbolRecord) :
    (table.enter target record).partAt Symbol.data target = record.data := by
  obtain ⟨symbol, found⟩ := Option.isSome_iff_exists.mp (isSome_lookup?_ensure sorted somewhere)
  have empty : symbol.data = none := by
    rw [lookup?_ensure sorted somewhere, if_pos (self_mem_approach somewhere)] at found
    rw [partAt] at vacant
    cases here : table.lookup? target with
    | none =>
      rw [here] at found
      cases found
      rfl
    | some other =>
      rw [here] at found vacant
      cases found
      exact vacant
  refine (partAt_amend Symbol.data found record).trans ?_
  simp [SymbolRecord.apply, empty]

theorem declarationsAt_write_apart {table : SymbolTable} (sorted : Sorted table.symbols) (creates : Bool)
    {target address : SymbolPath} (record : SymbolRecord) (apart : address ≠ target) :
    (if creates then table.enter target record else table.amend target record).declarationsAt address =
      table.declarationsAt address := by
  obtain ⟨added, appended, given⟩ := usagesAt_write sorted creates target record address
  have nothing : added = [] := List.eq_nil_iff_forall_not_mem.mpr fun usage new => apart (given usage new).1
  rw [declarationsAt, appended, nothing, List.append_nil, ← declarationsAt]

namespace Sound

variable {table : SymbolTable}

theorem registerModule (sound : table.Sound) (path : ModulePath) (uri : String) : (table.registerModule path uri).Sound := by
  have earlier : ∀ {address usage}, usage ∈ (table.registerModule path uri).usagesAt address → usage.kind = .definition →
      usage ∈ table.usagesAt address := by
    intro address usage member kind
    rcases mem_usagesAt_registerModule sound.sorted member with old | ⟨-, rfl⟩
    · exact old
    · cases kind
  refine ⟨sorted_registerModule sound.sorted path uri, fun link => ?_, fun member kind => sound.shown (earlier member kind) kind,
    fun first second kind kind' => sound.sole (earlier first kind) (earlier second kind') kind kind', fun member laid => ?_⟩
  · rw [aliasAt_registerModule sound.sorted] at link
    exact sound.linked link
  · rcases mem_usagesAt_registerModule sound.sorted member with old | ⟨here, rfl⟩
    · exact sound.laid old laid
    · exact ⟨⟨uri, rfl⟩, path.display, here⟩

theorem clearLayout (sound : table.Sound) : table.clearLayout.Sound := by
  have earlier : ∀ {address usage}, usage ∈ table.clearLayout.usagesAt address → usage ∈ table.usagesAt address :=
    mem_usagesAt_clearLayout sound.sorted
  refine ⟨sorted_clearLayout sound.sorted, fun link => ?_, fun member => sound.shown (earlier member),
    fun first second => sound.sole (earlier first) (earlier second), fun member => sound.laid (earlier member)⟩
  rcases aliasAt_clearLayout sound.sorted _ with none | same
  · cases none.symm.trans link
  · exact sound.linked (same.symm.trans link)

end Sound

namespace Neat

variable {table after : SymbolTable}

theorem empty : ({} : SymbolTable).Neat := by
  have none : ∀ address, ({} : SymbolTable).usagesAt address = [] := fun _ => rfl
  have undeclared : ∀ address, ({} : SymbolTable).declarationsAt address = [] := fun _ => rfl
  constructor
  case sound =>
    constructor
    case sorted => exact .nil
    case linked => exact fun link => by cases link
    case shown | sole | laid => simp [none]
  case exported | lone => simp [undeclared]
  case vacant => exact fun _ => rfl

/-- Members are as they were, or gone. -/
theorem thinned (neat : table.Neat) (sound : after.Sound)
    (thin : ∀ key name, after.lookup? ((SymbolPath.schema key).member name) = table.lookup? ((SymbolPath.schema key).member name) ∨
      after.lookup? ((SymbolPath.schema key).member name) = none) : after.Neat := by
  have earlier : ∀ {key name usage}, usage ∈ after.declarationsAt ((SymbolPath.schema key).member name) →
      usage ∈ table.declarationsAt ((SymbolPath.schema key).member name) := by
    intro key name usage member
    rcases thin key name with same | gone
    · exact declarationsAt_congr same ▸ member
    · rw [declarationsAt_of_none gone] at member
      cases member
  refine ⟨sound, fun member => neat.exported (earlier member), fun first second => neat.lone (earlier first) (earlier second),
    fun {key name} none => ?_⟩
  rcases thin key name with same | gone
  · rw [declarationsAt_congr same] at none
    rw [partAt, same]
    exact neat.vacant none
  · rw [partAt, gone, Option.bind_none]

theorem registerModule (neat : table.Neat) (path : ModulePath) (uri : String) : (table.registerModule path uri).Neat := by
  refine neat.thinned (neat.sound.registerModule path uri) fun key name => ?_
  have apart := SymbolPath.member_ne_schema key name path.display
  have offWay : (SymbolPath.schema key).member name ∉ approach (.schema path.display) := by
    intro onWay
    obtain ⟨count, -, here⟩ := List.mem_map.mp onWay
    have length := congrArg (fun address => address.path.length) here
    simp [SymbolPath.schema, SymbolPath.member] at length
  refine .inl ?_
  rw [lookup?_registerModule, if_neg apart, lookup?_ensure neat.sound.sorted (SymbolPath.schema_path_ne _), if_neg offWay,
    Option.or_none]

theorem clearLayout (neat : table.Neat) : table.clearLayout.Neat := by
  refine neat.thinned neat.sound.clearLayout fun key name => ?_
  obtain ⟨keeps, found⟩ := lookup?_clearLayout neat.sound.sorted ((SymbolPath.schema key).member name)
  rw [found]
  cases here : table.lookup? ((SymbolPath.schema key).member name) with
  | none => exact .inl rfl
  | some symbol =>
    have address : symbol.address = (SymbolPath.schema key).member name := symbolAt?_address here
    have same : unlaid symbol = symbol := by simp [unlaid, isSchemaKey, address, SymbolPath.schema, SymbolPath.member]
    rw [Option.map_some, same, Option.filter_some]
    split
    · exact .inl rfl
    · exact .inr rfl

theorem register (neat : table.Neat) (modules : List (ModulePath × String)) : (Layout.register table modules).Neat :=
  Layout.register_induction neat.clearLayout fun _ neat entry _ => neat.registerModule entry.1 entry.2

theorem clearUri (neat : table.Neat) (uri : String) : (table.clearUri uri).Neat := by
  have sorted := neat.sound.sorted
  have earlier : ∀ {address usage}, usage ∈ (table.clearUri uri).declarationsAt address → usage ∈ table.declarationsAt address := by
    intro address usage member
    rw [declarationsAt, usagesAt_clearUri sorted, List.filter_filter] at member
    obtain ⟨listed, both⟩ := List.mem_filter.mp member
    exact List.mem_filter.mpr ⟨listed, (Bool.and_eq_true_iff.mp both).1⟩
  refine ⟨neat.sound.clearUri uri, fun member => neat.exported (earlier member),
    fun first second => neat.lone (earlier first) (earlier second), fun {key name} none => ?_⟩
  rcases lookup?_clearUri sorted uri ((SymbolPath.schema key).member name) with same | ⟨gone, -⟩
  · rw [partAt, same]
    cases here : table.lookup? ((SymbolPath.schema key).member name) with
    | none => rfl
    | some symbol =>
      rw [here, Option.map_some] at same
      have undeclared : (symbol.clearUri uri).declarations = [] := (declarationsAt_of_found same).symm.trans none
      rw [Option.map_some, Option.bind_some]
      rw [Symbol.clearUri, Symbol.declarations, settle_usages] at undeclared
      rw [Symbol.clearUri, Symbol.settle, if_neg ?_]
      rw [Symbol.isDeclared, Bool.not_eq_true]
      exact List.any_eq_false.mpr fun usage member declaring =>
        List.filter_eq_nil_iff.mp undeclared usage member declaring
  · rw [partAt, gone, Option.bind_none]

/-- A name that is free is declared nowhere: members are there for all to see. -/
theorem undeclared (neat : table.Neat) {uri key name : String}
    (free : (Query.start table uri ((SymbolPath.schema key).member name)).declared? = none) :
    table.declarationsAt ((SymbolPath.schema key).member name) = [] := by
  have unseen := Query.sees_of_declared? free
  rw [sees_eq] at unseen
  refine List.eq_nil_iff_forall_not_mem.mpr fun usage member => ?_
  have dark := List.any_eq_false.mp unseen usage member
  simp [neat.exported member] at dark

theorem head?_of_mem (neat : table.Neat) {key name : String} {usage : Usage}
    (member : usage ∈ table.declarationsAt ((SymbolPath.schema key).member name)) :
    (table.declarationsAt ((SymbolPath.schema key).member name)).head? = some usage := by
  cases list : table.declarationsAt ((SymbolPath.schema key).member name) with
  | nil => simp [list] at member
  | cons first rest => rw [List.head?_cons, neat.lone (list ▸ List.mem_cons_self : first ∈ _) member]

/-- What a write has to keep to: a member is entered where its name is free. -/
theorem write (neat : table.Neat) (creates : Bool) {target : SymbolPath} {record : SymbolRecord}
    (sound : (if creates then table.enter target record else table.amend target record).Sound)
    (enters : ∀ key name, target = (SymbolPath.schema key).member name → creates = true ∧ table.declarationsAt target = [] ∧
      ∃ usage, record.usage = some usage ∧ usage.visibility = .exported ∧ usage.kind.isDeclaring = true) :
    (if creates then table.enter target record else table.amend target record).Neat := by
  have sorted := neat.sound.sorted
  have cases : ∀ key name, (SymbolPath.schema key).member name ≠ target ∨
      ∃ usage, (if creates then table.enter target record else table.amend target record).declarationsAt
        ((SymbolPath.schema key).member name) = [usage] ∧ usage.visibility = .exported := by
    intro key name
    by_cases here : (SymbolPath.schema key).member name = target
    · subst here
      obtain ⟨rfl, free, usage, given, exported, declaring⟩ := enters key name rfl
      refine .inr ⟨usage, ?_, exported⟩
      rw [if_pos rfl, declarationsAt_enter sorted (by simp [SymbolPath.schema, SymbolPath.member]) given declaring, free]
      rfl
    · exact .inl here
  refine ⟨sound, fun {key name usage} member => ?_, fun {key name first second} one two => ?_, fun {key name} none => ?_⟩
  all_goals rcases cases key name with apart | ⟨entered, alone, exported⟩
  · rw [declarationsAt_write_apart sorted creates record apart] at member
    exact neat.exported member
  · rw [alone] at member
    rwa [List.mem_singleton.mp member]
  · rw [declarationsAt_write_apart sorted creates record apart] at one two
    exact neat.lone one two
  · rw [alone] at one two
    rw [List.mem_singleton.mp one, List.mem_singleton.mp two]
  · rw [declarationsAt_write_apart sorted creates record apart] at none
    rw [partAt_write sorted creates target record (fun _ => rfl) fun here => absurd here apart]
    exact neat.vacant none
  · cases alone.symm.trans none

end Neat

end SymbolTable

namespace Pass

def ToKey (_ : Scope) (_ : Node) (target : SymbolPath) : Prop := ∃ key, target = .schema key

variable {pass : Pass} {Known : Scope → SymbolPath → Prop} {scope : Scope} {creates : Bool} {address : SymbolPath}
  {record : SymbolRecord}

theorem Container.key (inside : pass.Container (Ever ToKey) address) : ∃ key, address = .schema key := by
  cases inside with
  | own names => exact ⟨_, rfl⟩
  | injected member kind resolved => exact resolved.choose_spec

/-- A member is written only where a field is entered under a name that is free. -/
theorem Writes.enters {key name : String}
    (writes : pass.Writes ToKey Known scope creates ((SymbolPath.schema key).member name) record) :
    creates = true ∧ (Query.start scope.workspace.table pass.uri ((SymbolPath.schema key).member name)).declared? = none ∧
      ∃ pair ∈ pass.root.preorder, ∃ node, pair.child? .key = some node ∧
        record.usage = some { kind := .definition, location := ⟨pass.uri, node.span⟩, fullSpan := some pair.span } := by
  generalize here : (SymbolPath.schema key).member name = address at writes
  cases writes with
  | field inside member found text free subcategory data known => exact ⟨rfl, free, _, member, _, found, rfl⟩
  | type | module | use | mention | data => exact absurd here (SymbolPath.member_ne_schema _ _ _)
  | reference leads resolved =>
    obtain ⟨other, same⟩ := resolved
    exact absurd (here.trans same) (SymbolPath.member_ne_schema _ _ _)
  | object => cases here

theorem Writes.sound (writes : pass.Writes ToKey Known scope creates address record) (sound : scope.workspace.table.Sound) :
    (scope.write creates address record).workspace.table.Sound := by
  refine sound.write creates (fun usage given => ⟨writes.kind_ne usage given, (writes.usage_place usage given).2⟩) ?_ ?_
  · cases writes with
    | use member found last text free resolved visibility known =>
      rintro link ⟨⟩
      exact resolved
    | _ => nofun
  · intro usage given kind key here
    cases writes with
    | type member found text free sort =>
      cases given
      exact ⟨rfl, fun other listed => sound.undefined free listed⟩
    | field inside member found text free subcategory data known =>
      obtain ⟨container, rfl⟩ := inside.key
      exact absurd here (SymbolPath.member_ne_schema _ _ _)
    | object => cases here
    | data => cases given
    | module | use | mention | reference =>
      cases given
      cases kind

theorem Writes.neat (writes : pass.Writes ToKey Known scope creates address record) (neat : scope.workspace.table.Neat) :
    (scope.write creates address record).workspace.table.Neat := by
  refine neat.write creates (writes.sound neat.sound) ?_
  rintro key name rfl
  obtain ⟨creating, free, _, _, _, _, given⟩ := writes.enters
  exact ⟨creating, neat.undeclared free, _, given, rfl, rfl⟩

end Pass

namespace Workspace

/-- Loads leave members in order, and those alone that the documents on the way have entered. -/
structure Retains (before after : Workspace) : Prop where
  neat : before.table.Neat → after.table.Neat
  contents : before.table.Neat → ∀ {uri}, before.InProgress uri → ∀ {key name},
    before.table.declaredBy uri ((SymbolPath.schema key).member name) ≠ [] →
    after.table.partAt Symbol.data ((SymbolPath.schema key).member name) =
      before.table.partAt Symbol.data ((SymbolPath.schema key).member name)

structure Tends (setup : Setup) (before : Workspace) (document : TextDocument) (module : ModulePath) (scope : Scope) :
    Prop where
  place : scope.uri = document.uri ∧ scope.module = module
  underway : Underway setup before document scope.workspace
  neat : scope.workspace.table.Neat
  own : ∀ {uri}, before.InProgress uri → ∀ address, (scope.workspace.table.usagesAt address).filter (·.isCheckedFrom uri) =
    (before.table.usagesAt address).filter (·.isCheckedFrom uri)
  contents : ∀ {uri}, before.InProgress uri → ∀ {key name},
    before.table.declaredBy uri ((SymbolPath.schema key).member name) ≠ [] →
    scope.workspace.table.partAt Symbol.data ((SymbolPath.schema key).member name) =
      before.table.partAt Symbol.data ((SymbolPath.schema key).member name)

namespace Tends

variable {setup : Setup} {before : Workspace} {document : TextDocument} {module : ModulePath} {scope : Scope} {load : Loader}

theorem progress (tends : Tends setup before document module scope) : scope.workspace.InProgress document.uri :=
  (tends.underway.progress document.uri).mpr (.inl rfl)

theorem locate (tends : Tends setup before document module scope) (span : Span) : scope.locate span = ⟨document.uri, span⟩ := by
  rw [Scope.locate, tends.place.1]

/-- Writing leaves the contents of members alone that are declared. -/
theorem partAt_kept {pass : Pass} {Known : Scope → SymbolPath → Prop} {creates : Bool} {address : SymbolPath}
    {record : SymbolRecord} (tends : Tends setup before document module scope)
    (writes : pass.Writes Pass.ToKey Known scope creates address record) {uri key name : String}
    (declared : scope.workspace.table.declaredBy uri ((SymbolPath.schema key).member name) ≠ []) :
    (scope.write creates address record).workspace.table.partAt Symbol.data ((SymbolPath.schema key).member name) =
      scope.workspace.table.partAt Symbol.data ((SymbolPath.schema key).member name) := by
  refine SymbolTable.partAt_write tends.neat.sound.sorted creates address record (fun _ => rfl) fun here => ?_
  subst here
  obtain ⟨-, free, -⟩ := writes.enters
  obtain ⟨usage, listed⟩ := List.exists_mem_of_ne_nil _ declared
  obtain ⟨member, declaring, -⟩ := SymbolTable.mem_declaredBy.mp listed
  have among : usage ∈ scope.workspace.table.declarationsAt ((SymbolPath.schema key).member name) :=
    List.mem_filter.mpr ⟨member, declaring⟩
  rw [tends.neat.undeclared free] at among
  cases among

theorem start (neat : before.table.Neat) (needs : Needs setup before document.uri document) (module : ModulePath)
    (errors : List Diagnostic) :
    Tends setup before document module
      { workspace := (fetch setup before document.uri).2.enter.takeUp document (parse document.text setup.trailing).errors
        uri := document.uri, module, errors } := by
  have attends := Attends.start neat.sound needs module
  have table := table_takenUp setup before document.uri document (parse document.text setup.trailing).errors
  refine ⟨⟨rfl, rfl⟩, attends.underway, table ▸ neat.clearUri document.uri, attends.own, fun {uri} progress {key name} declared => ?_⟩
  have apart : uri ≠ document.uri := fun same => needs.idle (same ▸ progress)
  obtain ⟨usage, listed⟩ := List.exists_mem_of_ne_nil _ declared
  obtain ⟨member, declaring, checked⟩ := SymbolTable.mem_declaredBy.mp listed
  dsimp only
  rw [table]
  exact SymbolTable.partAt_clearUri (fun _ _ => rfl) neat.sound.sorted member declaring
    (SymbolTable.isCheckedFrom_apart checked apart)

/-- Throughout the passes over a document members are in order, whatever tree the passes go over. -/
theorem invariant (honours : ∀ workspace uri, Honours setup workspace (load workspace uri).2)
    (retains : ∀ workspace uri, Retains workspace (load workspace uri).2) (idle : ¬before.InProgress document.uri)
    (limits : Limits) (module : ModulePath) (root : Node) :
    (Pass.mk limits document.uri module root).Invariant load Pass.ToKey (fun _ _ => True)
      (Tends setup before document module) := by
  constructor
  case place => exact fun tends => tends.place
  case arrives => exact fun tends _ _ => Scope.arrival_key tends.neat.sound _
  case learn | retain => exact fun _ _ _ => trivial
  case steady => exact fun _ resolved _ => resolved
  case load =>
    intro scope path goal asked tends _ _ _
    have sound := tends.neat.sound
    have honours := honours scope.workspace asked
    have retains := retains scope.workspace asked
    refine ⟨tends.place, tends.underway.load honours.loads, retains.neat tends.neat, fun {uri} progress address => ?_,
      fun {uri} progress {key name} declared => ?_⟩
    all_goals have still := (tends.underway.progress uri).mpr (.inr progress)
    · exact (honours.own sound still address).trans (tends.own progress address)
    · refine (retains.contents tends.neat still ?_).trans (tends.contents progress declared)
      rwa [SymbolTable.declaredBy_congr (tends.own progress _)]
  case add => exact fun tends _ => { tends with }
  case write =>
    intro scope creates address record tends writes
    refine ⟨tends.place, tends.underway.withTable _, writes.neat tends.neat, fun {uri} progress other => ?_,
      fun {uri} progress {key name} declared => ?_⟩
    · obtain ⟨added, appended, given⟩ := SymbolTable.usagesAt_write tends.neat.sound.sorted creates address record other
      have foreign : added.filter (·.isCheckedFrom uri) = [] := by
        refine List.filter_eq_nil_iff.mpr fun usage new => ?_
        have here : usage.location.uri = document.uri := (writes.usage_place usage (given usage new).2).1
        have apart : document.uri ≠ uri := fun same => idle (same ▸ progress)
        simp [Usage.isCheckedFrom, here, apart]
      change ((if creates then scope.workspace.table.enter address record
        else scope.workspace.table.amend address record).usagesAt other).filter _ = _
      rw [appended, List.filter_append, foreign, List.append_nil, tends.own progress]
    · have still : scope.workspace.table.declaredBy uri ((SymbolPath.schema key).member name) ≠ [] := by
        rwa [SymbolTable.declaredBy_congr (tends.own progress _)]
      exact (tends.partAt_kept writes still).trans (tends.contents progress declared)
  case checking =>
    intro scope tends
    refine ⟨tends.place, ?_, tends.neat, tends.own, tends.contents⟩
    rw [Scope.checking, tends.place.1]
    exact tends.underway.checking

end Tends

theorem Retains.fetch (setup : Setup) (workspace : Workspace) (uri : String) :
    Retains workspace (Workspace.fetch setup workspace uri).2 := by
  obtain ⟨documents, fetched⟩ := fetch_snd setup workspace uri
  rw [fetched]
  exact ⟨fun neat => neat, fun _ _ _ _ _ _ => rfl⟩

theorem checkDocument_retains {setup : Setup} {before : Workspace} {uri : String} {document : TextDocument} {load : Loader}
    (honours : ∀ workspace uri, Honours setup workspace (load workspace uri).2)
    (retains : ∀ workspace uri, Retains workspace (load workspace uri).2) (needs : Needs setup before uri document) :
    Retains before (checkDocument load setup (fetch setup before uri).2.enter document).leave := by
  obtain rfl := provided_uri needs.provides
  have ends := fun neat : before.table.Neat => checkDocument_ends
    (fun after => ∃ module scope, Tends setup before document module scope ∧ after.table = scope.workspace.table)
    (Tends setup before document) (fun errors => ⟨.root, _, Tends.start neat needs .root errors, rfl⟩)
    (fun module errors _ => Tends.start neat needs module errors)
    (fun module => Tends.invariant honours retains needs.idle setup.limits module (parse document.text setup.trailing).node)
    (fun module scope tends => ⟨module, scope, tends, rfl⟩)
  refine ⟨fun neat => ?_, fun neat => ?_⟩
  all_goals
    obtain ⟨module, scope, tends, table⟩ := ends neat
    change (checkDocument load setup (fetch setup before document.uri).2.enter document).leave.table = _ at table
    rw [table]
  · exact tends.neat
  · exact tends.contents

structure Safeguards (setup : Setup) (load : Loader) : Prop where
  honours : ∀ workspace uri, Honours setup workspace (load workspace uri).2
  retains : ∀ workspace uri, Retains workspace (load workspace uri).2
  spares : ∀ workspace uri, Sorted workspace.table.symbols → ∃ taken, Spares taken workspace (load workspace uri).2

theorem loadWithin_safeguards (setup : Setup) (budget : Nat) : Safeguards setup (loadWithin setup budget) := by
  refine ⟨loadWithin_honours setup budget, fun workspace uri => ?_, loadWithin_spares setup budget⟩
  refine (loadWithin_induction (fun before after => Honours setup before after ∧ Retains before after) ?_ ?_ budget workspace uri).2
  · intro workspace uri
    exact ⟨Honours.fetch workspace uri, Retains.fetch setup workspace uri⟩
  · intro load before uri document both needs
    have honours := fun workspace uri => (both workspace uri).1
    exact ⟨checkDocument_honours honours needs, checkDocument_retains honours (fun workspace uri => (both workspace uri).2) needs⟩

theorem ensureChecked_safeguards (setup : Setup) : Safeguards setup (ensureChecked setup) := by
  refine ⟨fun workspace uri => ?_, fun workspace uri => ?_, fun workspace uri => ?_⟩
  · exact (loadWithin_safeguards setup _).honours workspace uri
  · exact (loadWithin_safeguards setup _).retains workspace uri
  · exact (loadWithin_safeguards setup _).spares workspace uri

theorem Reachable.neat {setup : Setup} {workspace : Workspace} (reachable : Reachable setup workspace) : workspace.table.Neat := by
  refine reachable.invariant (fun workspace => workspace.table.Neat) .empty ?_ ?_ ?_ ?_
  · exact fun workspace layout files neat => neat.register _
  · exact fun _ _ neat => neat
  · exact fun workspace files uri neat => ((ensureChecked_safeguards (setup.over files)).retains workspace uri).neat neat
  · exact fun _ _ neat => neat

/-- A document is asked for only where members are in order. -/
theorem Call.Within.neat {setup : Setup} {workspace : Workspace} {uri : String} {call : Call}
    (within : Call.Within setup workspace uri call) (neat : workspace.table.Neat) : call.workspace.table.Neat := by
  refine @Call.Within.carries setup workspace uri call (fun workspace => workspace.table.Neat) within neat ?_
  intro before current uri asked document neat needs consults
  obtain rfl := provided_uri needs.provides
  have safeguards := ensureChecked_safeguards setup
  obtain ⟨module, scope, tends, rfl⟩ := holds_of_consults (fun module errors _ => Tends.start neat needs module errors)
    (fun module => Tends.invariant safeguards.honours safeguards.retains needs.idle setup.limits module
      (parse document.text setup.trailing).node) consults
  exact tends.neat

end Workspace

end SchemaDoc
