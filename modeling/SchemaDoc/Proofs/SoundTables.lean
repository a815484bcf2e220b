import SchemaDoc.Proofs.TableViews

/-! Tables in which no name is defined twice. What defines a name is found at once there, and stays whatever
else is written. -/

namespace SchemaDoc

namespace SymbolTable

/-- The usage that defines the symbol at an address. -/
def definitionAt (table : SymbolTable) (address : SymbolPath) : Option Usage :=
  (table.usagesAt address).find? fun usage => usage.kind == .definition

/-- A part of the symbol at an address, if it has one. -/
def partAt {α : Type} (part : Symbol → Option α) (table : SymbolTable) (address : SymbolPath) : Option α :=
  (table.lookup? address).bind part

theorem definitionAt_eq (table : SymbolTable) (address : SymbolPath) :
    table.definitionAt address = (table.lookup? address).bind Symbol.definition? := by
  rw [definitionAt, usagesAt]
  cases table.lookup? address <;> rfl

section Write

variable {table : SymbolTable} (sorted : Sorted table.symbols) (creates : Bool) (target : SymbolPath) (record : SymbolRecord)

include sorted in
/-- A write that leaves a part of symbols alone leaves it alone everywhere, also where it makes symbols. -/
theorem partAt_write {α : Type} {part : Symbol → Option α} (blank : ∀ address, part { address } = none) {address : SymbolPath}
    (same : address = target → ∀ symbol, part (record.apply symbol) = part symbol) :
    (if creates then table.enter target record else table.amend target record).partAt part address =
      table.partAt part address := by
  have amended : ∀ origin : SymbolTable, (origin.amend target record).partAt part address = origin.partAt part address := by
    intro origin
    rw [partAt, partAt, amend, lookup?_modify origin target record.apply fun _ => rfl]
    split
    · next here => cases origin.lookup? address <;> simp [same here]
    · rfl
  cases creates with
  | false => exact amended table
  | true =>
    refine (amended (table.ensure target)).trans ?_
    by_cases nowhere : target.path = []
    · rw [ensure, if_pos (by simp [nowhere])]
    · rw [partAt, partAt, lookup?_ensure sorted nowhere]
      cases table.lookup? address with
      | some symbol => rfl
      | none => by_cases onWay : address ∈ approach target <;> simp [onWay, blank]

include sorted in
theorem usagesAt_subset_write (address : SymbolPath) :
    table.usagesAt address ⊆ (if creates then table.enter target record else table.amend target record).usagesAt address := by
  obtain ⟨added, appended, -⟩ := usagesAt_write sorted creates target record address
  exact appended ▸ List.subset_append_left _ _

include sorted in
theorem usagesAt_of_write {address : SymbolPath} {usage : Usage}
    (member : usage ∈ (if creates then table.enter target record else table.amend target record).usagesAt address) :
    usage ∈ table.usagesAt address ∨ address = target ∧ record.usage = some usage := by
  obtain ⟨added, appended, given⟩ := usagesAt_write sorted creates target record address
  exact (List.mem_append.mp (appended ▸ member)).imp_right (given usage)

end Write

theorem partAt_amend {α : Type} (part : Symbol → Option α) {table : SymbolTable} {address : SymbolPath} {symbol : Symbol}
    (found : table.lookup? address = some symbol) (record : SymbolRecord) :
    (table.amend address record).partAt part address = part (record.apply symbol) := by
  rw [partAt, amend, lookup?_modify table address record.apply fun _ => rfl, if_pos rfl, found]
  rfl

theorem partAt_clearUri {α : Type} {part : Symbol → Option α}
    (usageless : ∀ symbol usages, part { symbol with usages } = part symbol) {table : SymbolTable}
    (sorted : Sorted table.symbols) {uri : String} {address : SymbolPath} {usage : Usage}
    (member : usage ∈ table.usagesAt address) (declaring : usage.kind.isDeclaring = true)
    (kept : usage.isCheckedFrom uri = false) : (table.clearUri uri).partAt part address = table.partAt part address := by
  cases found : table.lookup? address with
  | none => simp [usagesAt, found] at member
  | some symbol =>
    have listed : usage ∈ symbol.usages := by simpa [usagesAt, found] using member
    have stays : usage ∈ symbol.usages.filter fun usage => !usage.isCheckedFrom uri :=
      List.mem_filter.mpr ⟨listed, by simp [kept]⟩
    rcases lookup?_clearUri sorted uri address with same | ⟨-, other, here, empty⟩
    · have declared : Symbol.isDeclared { symbol with usages := symbol.usages.filter fun usage => !usage.isCheckedFrom uri } =
          true := List.any_eq_true.mpr ⟨usage, stays, declaring⟩
      rw [partAt, partAt, same, found, Option.map_some, Option.bind_some, Option.bind_some, Symbol.clearUri, Symbol.settle,
        if_pos declared, usageless]
    · cases found.symm.trans here
      rw [clearUri_usages] at empty
      rw [empty] at stays
      cases stays

theorem moduleOfUri?_congr {table after : SymbolTable} (entries : after.entries = table.entries) (uri : String) :
    after.moduleOfUri? uri = table.moduleOfUri? uri := by
  rw [moduleOfUri?_eq, entries, ← moduleOfUri?_eq]

theorem isCheckedFrom_apart {usage : Usage} {uri other : String} (checked : usage.isCheckedFrom uri = true) (apart : uri ≠ other) :
    usage.isCheckedFrom other = false := by
  simp only [Usage.isCheckedFrom, Bool.and_eq_true, beq_iff_eq] at checked
  simp [Usage.isCheckedFrom, checked.2, apart]

def declaredBy (table : SymbolTable) (uri : String) (address : SymbolPath) : List Usage :=
  (table.usagesAt address).filter fun usage => usage.kind.isDeclaring && usage.isCheckedFrom uri

theorem mem_declaredBy {table : SymbolTable} {uri : String} {address : SymbolPath} {usage : Usage} :
    usage ∈ table.declaredBy uri address ↔
      usage ∈ table.usagesAt address ∧ usage.kind.isDeclaring = true ∧ usage.isCheckedFrom uri = true := by
  simp [declaredBy]

theorem declaredBy_congr {table after : SymbolTable} {uri : String} {address : SymbolPath}
    (same : (after.usagesAt address).filter (·.isCheckedFrom uri) = (table.usagesAt address).filter (·.isCheckedFrom uri)) :
    after.declaredBy uri address = table.declaredBy uri address :=
  filter_eq_of_imp _ (fun _ both => (Bool.and_eq_true_iff.mp both).2) same

theorem declaredBy_write {table : SymbolTable} (sorted : Sorted table.symbols) (creates : Bool) {target : SymbolPath}
    {record : SymbolRecord} {uri : String} {address : SymbolPath}
    (silent : address = target → ∀ usage ∈ record.usage, usage.kind = .reference ∨ usage.isCheckedFrom uri = false) :
    (if creates then table.enter target record else table.amend target record).declaredBy uri address =
      table.declaredBy uri address := by
  obtain ⟨added, appended, given⟩ := usagesAt_write sorted creates target record address
  rw [declaredBy, appended, List.filter_append, ← declaredBy]
  have nothing : added.filter (fun usage => usage.kind.isDeclaring && usage.isCheckedFrom uri) = [] := by
    refine List.filter_eq_nil_iff.mpr fun usage new => ?_
    obtain ⟨here, written⟩ := given usage new
    rcases silent here usage written with kind | elsewhere
    · simp [kind, UsageKind.isDeclaring]
    · simp [elsewhere]
  rw [nothing, List.append_nil]

theorem declaredBy_enter {table : SymbolTable} (sorted : Sorted table.symbols) {target : SymbolPath} (nonempty : target.path ≠ [])
    {record : SymbolRecord} {usage : Usage} (given : record.usage = some usage) (declaring : usage.kind.isDeclaring = true)
    {uri : String} (checked : usage.isCheckedFrom uri = true) :
    (table.enter target record).declaredBy uri target = table.declaredBy uri target ++ [usage] := by
  rw [declaredBy, usagesAt_enter sorted nonempty, if_pos rfl, given, List.filter_append, ← declaredBy]
  simp [declaring, checked]

/-- A clearing takes back all of one document and nothing of others. -/
theorem declaredBy_clearUri {table : SymbolTable} (sorted : Sorted table.symbols) (uri other : String) (address : SymbolPath) :
    (table.clearUri other).declaredBy uri address = if uri = other then [] else table.declaredBy uri address := by
  rw [declaredBy, usagesAt_clearUri sorted, List.filter_filter]
  split
  · next same =>
    subst same
    exact List.filter_eq_nil_iff.mpr fun usage _ => by simp
  · next apart =>
    refine List.filter_congr fun usage _ => ?_
    by_cases here : usage.location.uri = uri <;> simp [Usage.isCheckedFrom, here, apart]

/-- In a table that a layout and checks have filled, links lead to names of modules, no name is defined twice,
and all that the layout put there are implementations of modules. -/
structure Sound (table : SymbolTable) : Prop where
  sorted : Sorted table.symbols
  linked : ∀ {address target}, table.aliasAt address = some target → ∃ key, target = .schema key
  shown : ∀ {key usage}, usage ∈ table.usagesAt (.schema key) → usage.kind = .definition →
    usage.visibility = .exported ∧ usage.contributor = .checker
  sole : ∀ {key first second}, first ∈ table.usagesAt (.schema key) → second ∈ table.usagesAt (.schema key) →
    first.kind = .definition → second.kind = .definition → first = second
  laid : ∀ {address usage}, usage ∈ table.usagesAt address → usage.kind = .implementation ∨ usage.contributor = .layout →
    (∃ uri, usage = implementation uri) ∧ ∃ key, address = .schema key

namespace Sound

variable {table : SymbolTable}

theorem definitionAt (sound : table.Sound) {key : String} {usage : Usage} :
    table.definitionAt (.schema key) = some usage ↔ usage ∈ table.usagesAt (.schema key) ∧ usage.kind = .definition := by
  constructor
  · intro defined
    exact ⟨List.mem_of_find?_eq_some defined, by simpa using List.find?_some defined⟩
  · rintro ⟨member, kind⟩
    cases found : table.definitionAt (.schema key) with
    | none => exact absurd kind (by simpa using List.find?_eq_none.mp found usage member)
    | some other =>
      exact congrArg some (sound.sole (List.mem_of_find?_eq_some found) member (by simpa using List.find?_some found) kind)

theorem entered (sound : table.Sound) {address : SymbolPath} (apart : ∀ key, address ≠ .schema key) {usage : Usage}
    (member : usage ∈ table.usagesAt address) : usage.contributor = .checker := by
  cases contributor : usage.contributor with
  | checker => rfl
  | layout =>
    obtain ⟨-, key, here⟩ := sound.laid member (.inr contributor)
    exact absurd here (apart key)

theorem declarationsAt_filter (sound : table.Sound) {address : SymbolPath} (apart : ∀ key, address ≠ .schema key) (uri : String) :
    (table.declarationsAt address).filter (fun usage => usage.location.uri == uri) = table.declaredBy uri address := by
  rw [declarationsAt, declaredBy, List.filter_filter]
  refine List.filter_congr fun usage member => ?_
  simp [Usage.isCheckedFrom, sound.entered apart member, Bool.and_comm]

theorem chase (sound : table.Sound) (steps : Nat) (key : String) : ∃ last, Query.chase table steps (.schema key) = .schema last := by
  induction steps generalizing key with
  | zero => exact ⟨key, rfl⟩
  | succ steps ih =>
    rw [Query.chase]
    split
    · exact ⟨key, rfl⟩
    · next target link =>
      obtain ⟨next, rfl⟩ := sound.linked link
      exact ih next

/-- Where a name is free nothing defines it. -/
theorem undefined (sound : table.Sound) {uri key : String}
    (free : (Query.start table uri (.schema key)).declared? = none) {usage : Usage}
    (member : usage ∈ table.usagesAt (.schema key)) : usage.kind ≠ .definition := by
  intro kind
  have unseen := Query.sees_of_declared? free
  rw [sees_eq] at unseen
  have dark := List.any_eq_false.mp unseen usage (List.mem_filter.mpr ⟨member, by rw [kind]; rfl⟩)
  simp [(sound.shown member kind).1] at dark

theorem unimplemented (sound : table.Sound) {uri : String} {address : SymbolPath}
    (free : (Query.start table uri address).declared? = none) {usage : Usage} (member : usage ∈ table.usagesAt address) :
    usage.kind ≠ .implementation := by
  intro kind
  obtain ⟨⟨other, rfl⟩, -⟩ := sound.laid member (.inl kind)
  have unseen := Query.sees_of_declared? free
  rw [sees_eq] at unseen
  have dark := List.any_eq_false.mp unseen _ (List.mem_filter.mpr ⟨member, rfl⟩)
  exact dark rfl

theorem entries_clearUri (sound : table.Sound) (uri : String) : (table.clearUri uri).entries = table.entries := by
  refine SymbolTable.entries_clearUri sound.sorted (fun address usage member kind => ?_) uri
  obtain ⟨⟨other, rfl⟩, -⟩ := sound.laid member (.inl kind)
  rfl

theorem moduleOfUri?_clearUri (sound : table.Sound) (uri other : String) :
    (table.clearUri uri).moduleOfUri? other = table.moduleOfUri? other :=
  moduleOfUri?_congr (sound.entries_clearUri uri) other

theorem clearUri (sound : table.Sound) (uri : String) : (table.clearUri uri).Sound := by
  have earlier : ∀ {address usage}, usage ∈ (table.clearUri uri).usagesAt address → usage ∈ table.usagesAt address := by
    intro address usage member
    rw [usagesAt_clearUri sound.sorted] at member
    exact List.mem_of_mem_filter member
  refine ⟨sorted_clearUri sound.sorted uri, fun link => ?_, fun member => sound.shown (earlier member),
    fun first second => sound.sole (earlier first) (earlier second), fun member => sound.laid (earlier member)⟩
  rw [aliasAt_clearUri sound.sorted] at link
  split at link
  · exact sound.linked link
  · cases link

/-- What a write has to keep to: a name is defined where it was free, and for all to see. -/
theorem write (sound : table.Sound) (creates : Bool) {target : SymbolPath} {record : SymbolRecord}
    (checked : ∀ usage ∈ record.usage, usage.kind ≠ .implementation ∧ usage.contributor = .checker)
    (linked : ∀ link, record.relations.aliasOf = some link → ∃ key, link = .schema key)
    (defines : ∀ usage ∈ record.usage, usage.kind = .definition → ∀ key, target = .schema key →
      usage.visibility = .exported ∧ ∀ other ∈ table.usagesAt target, other.kind ≠ .definition) :
    (if creates then table.enter target record else table.amend target record).Sound := by
  refine ⟨sorted_write sound.sorted creates target record, fun {address goal} link => ?_, fun {key usage} member kind => ?_,
    fun {key first second} one two kind kind' => ?_, fun {address usage} member laid => ?_⟩
  · rcases aliasAt_write sound.sorted creates target record address with same | ⟨-, other, given, here⟩
    · exact sound.linked (same ▸ link)
    · cases here.symm.trans link
      exact linked _ given
  · rcases usagesAt_of_write sound.sorted creates target record member with old | ⟨here, written⟩
    · exact sound.shown old kind
    · exact ⟨(defines usage written kind key here.symm).1, (checked usage written).2⟩
  · rcases usagesAt_of_write sound.sorted creates target record one with old | ⟨here, written⟩ <;>
      rcases usagesAt_of_write sound.sorted creates target record two with old' | ⟨here', written'⟩
    · exact sound.sole old old' kind kind'
    · exact absurd kind ((defines second written' kind' key here'.symm).2 first (here' ▸ old))
    · exact absurd kind' ((defines first written kind key here.symm).2 second (here ▸ old'))
    · exact Option.mem_unique written written'
  · rcases usagesAt_of_write sound.sorted creates target record member with old | ⟨-, written⟩
    · exact sound.laid old laid
    · obtain ⟨unlaid, contributor⟩ := checked usage written
      rw [contributor] at laid
      exact absurd laid (by simpa using unlaid)

end Sound

end SymbolTable

end SchemaDoc
