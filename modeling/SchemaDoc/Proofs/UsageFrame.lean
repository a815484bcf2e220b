import SchemaDoc.Proofs.Histories
import SchemaDoc.Proofs.SymbolTableLaws

/-! What a load leaves alone in the table: the usages that a layout put there, and those in documents
that were not taken up. -/

namespace SchemaDoc

/-- A usage that checking the documents `taken` has no say in. -/
def Usage.isOutside (usage : Usage) (taken : List String) : Bool :=
  usage.contributor == .layout || !taken.contains usage.location.uri

theorem Usage.isOutside_append (usage : Usage) (more taken : List String) :
    usage.isOutside (more ++ taken) = (usage.isOutside more && usage.isOutside taken) := by
  simp only [isOutside, List.contains_append, Bool.not_or]
  cases usage.contributor == .layout <;> rfl

theorem filter_eq_of_imp {α : Type} (finer : α → Bool) {coarser : α → Bool} (implies : ∀ item, finer item = true → coarser item = true)
    {left right : List α} (same : left.filter coarser = right.filter coarser) :
    left.filter finer = right.filter finer := by
  have merged : ∀ items : List α, items.filter finer = (items.filter coarser).filter finer := by
    intro items
    rw [List.filter_filter]
    refine List.filter_congr fun item _ => ?_
    cases fine : finer item with
    | false => rfl
    | true => rw [implies item fine]; rfl
  rw [merged left, merged right, same]

/-- Everything that a pass writes it writes in the name of its document. -/
theorem Pass.Writes.usage_place {pass : Pass} {Resolved : Scope → Node → SymbolPath → Prop}
    {Known : Scope → SymbolPath → Prop} {scope : Scope} {creates : Bool} {address : SymbolPath} {record : SymbolRecord}
    (writes : pass.Writes Resolved Known scope creates address record) :
    ∀ usage ∈ record.usage, usage.location.uri = pass.uri ∧ usage.contributor = .checker := by
  cases writes <;> simp

theorem Pass.Writes.kind_ne {pass : Pass} {Resolved : Scope → Node → SymbolPath → Prop}
    {Known : Scope → SymbolPath → Prop} {scope : Scope} {creates : Bool} {address : SymbolPath} {record : SymbolRecord}
    (writes : pass.Writes Resolved Known scope creates address record) :
    ∀ usage ∈ record.usage, usage.kind ≠ .implementation := by
  cases writes <;> simp

/-- Writing appends at most the usage that is written, where it is written. -/
theorem SymbolTable.usagesAt_write {table : SymbolTable} (sorted : Sorted table.symbols) (creates : Bool)
    (target : SymbolPath) (record : SymbolRecord) (address : SymbolPath) :
    ∃ added, (if creates then table.enter target record else table.amend target record).usagesAt address =
      table.usagesAt address ++ added ∧ ∀ usage ∈ added, address = target ∧ usage ∈ record.usage := by
  have amended : ∃ added, (table.amend target record).usagesAt address = table.usagesAt address ++ added ∧
      ∀ usage ∈ added, address = target ∧ usage ∈ record.usage := by
    refine ⟨_, usagesAt_amend table target record address, ?_⟩
    intro usage member
    split at member
    · next here => exact ⟨here.1, by simpa using member⟩
    · cases member
  cases creates with
  | false => exact amended
  | true =>
    by_cases nowhere : target.path = []
    · rw [if_pos rfl, enter_eq_amend nowhere]
      exact amended
    · refine ⟨_, usagesAt_enter sorted nowhere record address, ?_⟩
      intro usage member
      split at member
      · next here => exact ⟨here, by simpa using member⟩
      · cases member

theorem SymbolTable.aliasAt_write {table : SymbolTable} (sorted : Sorted table.symbols) (creates : Bool)
    (target : SymbolPath) (record : SymbolRecord) (address : SymbolPath) :
    (if creates then table.enter target record else table.amend target record).aliasAt address =
        table.aliasAt address ∨
      address = target ∧ ∃ link, record.relations.aliasOf = some link ∧
        (if creates then table.enter target record else table.amend target record).aliasAt address = some link := by
  have merged : ∀ {after : SymbolTable},
      after.aliasAt address = (record.relations.aliasOf <|> table.aliasAt address) → address = target →
      after.aliasAt address = table.aliasAt address ∨
        address = target ∧ ∃ link, record.relations.aliasOf = some link ∧ after.aliasAt address = some link := by
    intro after same here
    cases link : record.relations.aliasOf with
    | none => exact .inl (by simpa [link] using same)
    | some link' => exact .inr ⟨here, link', rfl, by simpa [link] using same⟩
  have amended : (table.amend target record).aliasAt address = table.aliasAt address ∨
      address = target ∧ ∃ link, record.relations.aliasOf = some link ∧
        (table.amend target record).aliasAt address = some link := by
    have law := aliasAt_amend table target record address
    split at law
    · next here => exact merged law here.1
    · exact .inl law
  cases creates with
  | false => exact amended
  | true =>
    by_cases nowhere : target.path = []
    · rw [if_pos rfl, enter_eq_amend nowhere]
      exact amended
    · have law := aliasAt_enter sorted nowhere record address
      split at law
      · next here => exact merged law here
      · exact .inl law

theorem SymbolTable.sorted_write {table : SymbolTable} (sorted : Sorted table.symbols) (creates : Bool)
    (target : SymbolPath) (record : SymbolRecord) :
    Sorted (if creates then table.enter target record else table.amend target record).symbols := by
  cases creates with
  | false => exact sorted_amend sorted target record
  | true => exact sorted_enter sorted target record

namespace Workspace

/-- The usages outside `taken` are the same list before and after, at every address. -/
structure Spares (taken : List String) (before after : Workspace) : Prop where
  log : after.log = taken ++ before.log
  sorted : Sorted after.table.symbols
  usages : ∀ address, (after.table.usagesAt address).filter (·.isOutside taken) =
    (before.table.usagesAt address).filter (·.isOutside taken)

namespace Spares

variable {taken : List String} {before after : Workspace}

theorem trans {more : List String} {last : Workspace} (first : Spares taken before after)
    (second : Spares more after last) : Spares (more ++ taken) before last := by
  refine ⟨by rw [second.log, first.log, List.append_assoc], second.sorted, fun address => ?_⟩
  have later := filter_eq_of_imp (·.isOutside (more ++ taken))
    (fun usage outside => by simp_all [Usage.isOutside_append]) (second.usages address)
  have earlier := filter_eq_of_imp (·.isOutside (more ++ taken))
    (fun usage outside => by simp_all [Usage.isOutside_append]) (first.usages address)
  exact later.trans earlier

/-- Only the table and the log count. -/
theorem congr {other : Workspace} (spares : Spares taken before after) (table : other.table = after.table)
    (log : other.log = after.log) : Spares taken before other :=
  ⟨log.trans spares.log, table ▸ spares.sorted, table ▸ spares.usages⟩

/-- Taking a document up takes back only what checking it put there. -/
theorem takeUp (entered : Workspace) (sorted : Sorted before.table.symbols) (table : entered.table = before.table)
    (log : entered.log = before.log) (document : TextDocument) (errors : List Diagnostic) :
    Spares [document.uri] before (entered.takeUp document errors) := by
  have cleared : (entered.takeUp document errors).table = before.table.clearUri document.uri := by
    rw [← table]
    rfl
  constructor
  case log =>
    rw [← log]
    rfl
  case sorted => exact cleared ▸ SymbolTable.sorted_clearUri sorted document.uri
  case usages =>
    intro address
    rw [cleared, SymbolTable.usagesAt_clearUri sorted, List.filter_filter]
    refine List.filter_congr fun usage _ => ?_
    simp only [Usage.isOutside, Usage.isCheckedFrom, List.contains_cons, List.contains_nil, Bool.or_false]
    cases usage.contributor <;> simp

/-- Writing in the name of a document that was taken up changes nothing outside. -/
theorem write {pass : Pass} {Resolved : Scope → Node → SymbolPath → Prop} {Known : Scope → SymbolPath → Prop}
    {creates : Bool} {address : SymbolPath} {record : SymbolRecord} {scope : Scope} (spares : Spares taken before scope.workspace) (member : pass.uri ∈ taken)
    (writes : pass.Writes Resolved Known scope creates address record) :
    Spares taken before (scope.write creates address record).workspace := by
  refine ⟨spares.log, SymbolTable.sorted_write spares.sorted creates address record, fun other => ?_⟩
  obtain ⟨added, appended, from_record⟩ := SymbolTable.usagesAt_write spares.sorted creates address record other
  have inside : added.filter (·.isOutside taken) = [] := by
    refine List.filter_eq_nil_iff.mpr fun usage listed => ?_
    obtain ⟨place, contributor⟩ := writes.usage_place usage (from_record usage listed).2
    simp [Usage.isOutside, place, contributor, member]
  change ((if creates then scope.workspace.table.enter address record
    else scope.workspace.table.amend address record).usagesAt other).filter _ = _
  rw [appended, List.filter_append, inside, List.append_nil, spares.usages]

/-- Throughout the passes over a document, what is outside of the documents taken up is spared. -/
theorem invariant {setup : Setup} {load : Loader} {document : TextDocument}
    (spares : ∀ workspace uri, Sorted workspace.table.symbols → ∃ taken, Spares taken workspace (load workspace uri).2)
    (module : ModulePath) :
    (passOf setup document module).Invariant load (fun _ _ _ => True) (fun _ _ => True) fun scope =>
      (scope.uri = document.uri ∧ scope.module = module) ∧
        ∃ taken, document.uri ∈ taken ∧ Spares taken before scope.workspace := by
  constructor
  case place => exact fun holds => holds.1
  case arrives | learn | retain => exact fun _ _ _ => trivial
  case load =>
    rintro scope path goal asked ⟨place, taken, member, current⟩ - - -
    obtain ⟨more, further⟩ := spares scope.workspace asked current.sorted
    exact ⟨place, more ++ taken, List.mem_append_right _ member, current.trans further⟩
  case add => exact fun holds _ => holds
  case write =>
    rintro scope creates address record ⟨place, taken, member, current⟩ writes
    exact ⟨place, taken, member, current.write member writes⟩
  case steady => exact fun _ _ _ => trivial
  case checking =>
    rintro scope ⟨place, taken, member, current⟩
    exact ⟨place, taken, member, current.congr rfl rfl⟩

end Spares

/-- A load spares what it has no say in. -/
theorem loadWithin_spares (setup : Setup) (budget : Nat) (workspace : Workspace) (uri : String) :
    Sorted workspace.table.symbols →
      ∃ taken, Spares taken workspace (loadWithin setup budget workspace uri).2 := by
  apply loadWithin_induction fun before after => Sorted before.table.symbols → ∃ taken, Spares taken before after
  · intro workspace uri sorted
    obtain ⟨documents, fetched⟩ := fetch_snd setup workspace uri
    rw [fetched]
    exact ⟨[], rfl, sorted, fun _ => rfl⟩
  · intro load before uri document spares needs sorted
    obtain ⟨documents, fetched⟩ := fetch_snd setup before uri
    rw [fetched]
    have start := Spares.takeUp ({ before with documents } : Workspace).enter sorted rfl rfl document
      (parse document.text setup.trailing).errors
    exact checkDocument_ends (fun after => ∃ taken, Spares taken before after.leave)
      (fun module scope => (scope.uri = document.uri ∧ scope.module = module) ∧
        ∃ taken, document.uri ∈ taken ∧ Spares taken before scope.workspace)
      (fun errors => ⟨_, start.congr rfl rfl⟩)
      (fun _ _ _ => ⟨⟨rfl, rfl⟩, _, List.mem_singleton_self _, start⟩)
      (Spares.invariant spares)
      (fun _ _ ⟨_, taken, _, finish⟩ => ⟨taken, finish.congr rfl rfl⟩)

theorem sorted_register {table : SymbolTable} (sorted : Sorted table.symbols) (modules : List (ModulePath × String)) :
    Sorted (Layout.register table modules).symbols := by
  refine Layout.register_induction (motive := fun table => Sorted table.symbols)
    (SymbolTable.sorted_clearLayout sorted) ?_
  exact fun table sorted entry _ => SymbolTable.sorted_registerModule sorted entry.1 entry.2

theorem Reachable.sorted {setup : Setup} {workspace : Workspace} (reachable : Reachable setup workspace) :
    Sorted workspace.table.symbols := by
  refine reachable.invariant (fun workspace => Sorted workspace.table.symbols) ?_ ?_ ?_ ?_ ?_
  · exact .nil
  · exact fun workspace layout files sorted => sorted_register sorted _
  · exact fun _ _ sorted => sorted
  · intro workspace files uri sorted
    obtain ⟨taken, spares⟩ := loadWithin_spares (setup.over files) _ workspace uri sorted
    exact spares.sorted
  · exact fun _ _ sorted => sorted

/-- No usage is lost or moved by checking other documents: `taken` are the documents that the load takes
up, and outside of them every address keeps its usages in order, and every document its record. -/
theorem ensureChecked_spares_others {base : Setup} {workspace : Workspace} (reachable : Reachable base workspace)
    (files : FileTree) (uri : String) :
    let after := (ensureChecked (base.over files) workspace uri).2
    ∃ taken, after.log = taken ++ workspace.log ∧
      (∀ address, (after.table.usagesAt address).filter (·.isOutside taken) =
        (workspace.table.usagesAt address).filter (·.isOutside taken)) ∧
      (∀ address usage,
        (workspace.table.usagesAt address).count usage < (after.table.usagesAt address).count usage →
          usage.location.uri ∈ taken) ∧
      ∀ other ∉ taken, after.record? other = workspace.record? other := by
  intro after
  obtain ⟨taken, spares⟩ := loadWithin_spares (base.over files) _ workspace uri reachable.sorted
  obtain ⟨listed, advances⟩ := (loadWithin_loads (base.over files) _ workspace uri).advances
  have same : listed = taken := List.append_cancel_right (advances.log.symm.trans spares.log)
  subst same
  refine ⟨listed, spares.log, spares.usages, ?_, advances.records⟩
  intro address usage grown
  by_contra outside
  have kept : usage.isOutside listed = true := by simp [Usage.isOutside, outside]
  have counted : ∀ usages : List Usage, (usages.filter (·.isOutside listed)).count usage = usages.count usage :=
    fun usages => List.count_filter kept
  have counts := congrArg (List.count usage) (spares.usages address)
  rw [counted, counted] at counts
  exact grown.ne counts.symm

/-- The document of `::b` is checked again, while `::a` still refers to what it declares. -/
theorem ensureChecked_spares_others_again :
    let workspace := ((ensureChecked (({} : Setup).over {}) (pairWorkspace "use ::b::B;" "struct B {}")
      "file:///a.sdoc").2.invalidate "file:///b.sdoc").2
    let after := (ensureChecked (({} : Setup).over {}) workspace "file:///b.sdoc").2
    Reachable {} workspace ∧
      ((workspace.table.usagesAt (.schema "::b::B")).map fun usage => usage.location.uri) =
        ["file:///b.sdoc", "file:///a.sdoc"] ∧
      ∃ taken, after.log = taken ++ workspace.log ∧
        (∀ address, (after.table.usagesAt address).filter (·.isOutside taken) =
          (workspace.table.usagesAt address).filter (·.isOutside taken)) ∧
        (∀ address usage,
          (workspace.table.usagesAt address).count usage < (after.table.usagesAt address).count usage →
            usage.location.uri ∈ taken) ∧
        ∀ other ∉ taken, after.record? other = workspace.record? other := by
  intro workspace after
  have reachable : Reachable {} workspace :=
    ((pairWorkspace_reachable {} "use ::b::B;" "struct B {}").check {} "file:///a.sdoc").invalidate "file:///b.sdoc"
  exact ⟨reachable, by decide +kernel, ensureChecked_spares_others reachable {} "file:///b.sdoc"⟩

end Workspace

end SchemaDoc
