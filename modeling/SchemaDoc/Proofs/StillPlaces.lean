import SchemaDoc.Proofs.ReportedResolutions
import SchemaDoc.Proofs.SoleMembers

/-! A place of a document while the rest of the document is checked. Nothing is said about the place and no member
is entered from there; and what the table holds stays in it, but for what other documents take back when they are
taken up again. -/

namespace SchemaDoc

namespace Node

theorem isWellFormed_of_mem_preorder {root node : Node} (wellFormed : root.isWellFormed = true) (member : node ∈ root.preorder) :
    node.isWellFormed = true :=
  forall_preorder_of_handed (fun _ own => (isWellFormed_iff.mp own).2.2.2) wellFormed node member

theorem pairwise_of_ordered {nodes : List Node} (inOrder : ordered nodes = true)
    (forward : ∀ node ∈ nodes, node.span.start ≤ node.span.stop) :
    nodes.Pairwise fun first second => first.span.stop ≤ second.span.start := by
  induction nodes with
  | nil => exact .nil
  | cons first rest ih =>
    rw [List.forall_mem_cons] at forward
    cases rest with
    | nil => exact List.pairwise_singleton _ _
    | cons second rest =>
      simp only [ordered, Bool.and_eq_true, decide_eq_true_eq] at inOrder
      have behind := ih inOrder.2 forward.2
      refine .cons (fun other member => ?_) behind
      rcases List.mem_cons.mp member with rfl | later
      · exact inOrder.1
      · have next := List.rel_of_pairwise_cons behind later
        have width := forward.2 second List.mem_cons_self
        omega

def Avoids (node : Node) (place : Span) : Prop := ∀ inner ∈ node.preorder, inner.span ≠ place

theorem Avoids.of_apart {node : Node} {outer place : Span} (wellFormed : node.isWellFormed = true)
    (apart : node.span.Apart outer) (inside : outer.contains place = true) (visible : place.start < place.stop) :
    node.Avoids place := by
  rintro inner member rfl
  have within := Span.contains_iff.mp (contains_of_mem_preorder wellFormed member)
  rw [Span.contains_iff] at inside
  unfold Span.Apart at apart
  omega

theorem Avoids.around {node : Node} {place : Span} (avoids : node.Avoids place) (kind : Kind) (role : Option Role) :
    (⟨kind, node.span, role, [node]⟩ : Node).Avoids place := by
  refine forall_mem_preorder.mpr ⟨avoids node node.self_mem_preorder, ?_⟩
  intro child among
  obtain rfl := List.mem_singleton.mp among
  exact avoids

theorem Avoids.solo {node : Node} {place : Span} (avoids : node.Avoids place) : node.solo.Avoids place := avoids.around .document none

end Node

section Parsed

variable {text : String} {trailing : TrailingPolicy} {parent : Node}

theorem parsed_wellFormed (member : parent ∈ (parse text trailing).node.preorder) : parent.isWellFormed = true :=
  Node.isWellFormed_of_mem_preorder (parse_wellFormed text trailing).2.2.1 member

/-- Siblings stand one behind the other. -/
theorem parsed_siblings (member : parent ∈ (parse text trailing).node.preorder) :
    parent.children.Pairwise fun first second => first.span.Apart second.span := by
  obtain ⟨-, -, wellFormed, spans, -⟩ := parse_wellFormed text trailing
  obtain ⟨-, -, inOrder, -⟩ := Node.isWellFormed_iff.mp (parsed_wellFormed member)
  refine (Node.pairwise_of_ordered inOrder fun child among => ?_).imp .inl
  have below := Node.preorder_trans (Node.mem_preorder_of_child among) member
  exact (spans child below child.span List.mem_cons_self).ordered

instance : Std.Symm fun first second : Node => first.span.Apart second.span := ⟨fun _ _ => Or.symm⟩

theorem parsed_roles (member : parent ∈ (parse text trailing).node.preorder) {role other : Node.Role} {first second : Node}
    (here : parent.child? role = some first) (there : parent.child? other = some second) (differ : role ≠ other) :
    first.span.Apart second.span := by
  have role : first.role = some role := by simpa using List.find?_some here
  have role' : second.role = some other := by simpa using List.find?_some there
  refine (parsed_siblings member).forall (Node.mem_of_child? here) (Node.mem_of_child? there) ?_
  rintro rfl
  exact differ (Option.some.inj (role.symm.trans role'))

theorem parsed_key (member : parent ∈ (parse text trailing).node.preorder) {key : Node} {name : String}
    (found : parent.child? .key = some key) (spelled : key.textValue? = some name) : key.span.start < key.span.stop := by
  have below := Node.preorder_trans (Node.mem_preorder_of_child (Node.mem_of_child? found)) member
  have own := (parse_legible text trailing key below).1
  by_contra empty
  have nothing : key.span.slice text = "" := Span.slice_of_empty (Nat.le_of_not_lt empty)
  rw [Node.textValue?] at spelled
  split at spelled
  · next kind =>
    rw [kind] at own
    exact own.2.2.1 (by rw [← own.2.1, nothing]; rfl)
  · next kind =>
    rw [kind] at own
    obtain ⟨parsed, read, -⟩ := own.2
    rw [nothing] at read
    cases read
  · cases spelled

end Parsed

namespace Workspace

/-- The document was taken up on the way from one workspace to the other. -/
def TookUp (before after : Workspace) (uri : String) : Prop := ∃ taken, after.log = taken ++ before.log ∧ uri ∈ taken

/-- From one scope of a check to a later one, nothing is said about a place of the document, and no member is
entered from there. What the table holds it still holds, unless its document was taken up meanwhile. -/
structure Still (uri : String) (place : Span) (earlier later : Scope) : Prop where
  stays : ∃ more, later.workspace.log = more ++ earlier.workspace.log ∧ uri ∉ more ∧
    ∀ address, ∀ usage ∈ earlier.workspace.table.usagesAt address, usage.location.uri ∉ more →
      usage ∈ later.workspace.table.usagesAt address
  contents : ∀ {key name}, earlier.workspace.table.declaredBy uri ((SymbolPath.schema key).member name) ≠ [] →
    later.workspace.table.partAt Symbol.data ((SymbolPath.schema key).member name) =
      earlier.workspace.table.partAt Symbol.data ((SymbolPath.schema key).member name)
  told : later.errors.filter (·.span == place) = earlier.errors.filter (·.span == place)
  entered : ∀ {key name usage}, usage ∈ later.workspace.table.usagesAt ((SymbolPath.schema key).member name) →
    usage.kind = .definition → usage.location = ⟨uri, place⟩ →
    usage ∈ earlier.workspace.table.usagesAt ((SymbolPath.schema key).member name)

namespace Still

variable {uri : String} {place : Span} {first second third scope : Scope}

theorem refl (uri : String) (place : Span) (scope : Scope) : Still uri place scope scope :=
  ⟨⟨[], rfl, by simp, fun _ _ member _ => member⟩, fun _ => rfl, rfl, fun member _ _ => member⟩

theorem checking (uri : String) (place : Span) (scope : Scope) : Still uri place scope scope.checking := by
  obtain ⟨stays, contents, told, entered⟩ := refl uri place scope
  exact ⟨stays, contents, told, entered⟩

/-- What the document itself has entered stays. -/
theorem own (still : Still uri place first second) {address : SymbolPath} {usage : Usage}
    (member : usage ∈ first.workspace.table.usagesAt address) (here : usage.location.uri = uri) :
    usage ∈ second.workspace.table.usagesAt address := by
  obtain ⟨more, -, absent, stays⟩ := still.stays
  exact stays address usage member (here ▸ absent)

theorem trans (earlier : Still uri place first second) (later : Still uri place second third) : Still uri place first third := by
  obtain ⟨more, log, absent, stays⟩ := earlier.stays
  obtain ⟨further, log', absent', stays'⟩ := later.stays
  refine ⟨⟨further ++ more, by rw [log', log, List.append_assoc], by simp [absent, absent'], ?_⟩, fun declared => ?_,
    later.told.trans earlier.told, fun member kind here => earlier.entered (later.entered member kind here) kind here⟩
  · intro address usage member outside
    rw [List.mem_append, not_or] at outside
    exact stays' address usage (stays address usage member outside.2) outside.1
  · refine (later.contents ?_).trans (earlier.contents declared)
    obtain ⟨usage, listed⟩ := List.exists_mem_of_ne_nil _ declared
    obtain ⟨member, declaring, checked⟩ := SymbolTable.mem_declaredBy.mp listed
    have here : usage.location.uri = uri := by simp_all [Usage.isCheckedFrom]
    exact List.ne_nil_of_mem (SymbolTable.mem_declaredBy.mpr ⟨earlier.own member here, declaring, checked⟩)

theorem add {diagnostic : Diagnostic} (apart : diagnostic.span ≠ place) : Still uri place scope (scope.add diagnostic) := by
  refine ⟨⟨[], rfl, by simp, fun _ _ member _ => member⟩, fun _ => rfl, ?_, fun member _ _ => member⟩
  simp [Scope.add, apart]

/-- Writing elsewhere than into a member. -/
theorem write (sorted : Sorted scope.workspace.table.symbols) (creates : Bool) {address : SymbolPath} (record : SymbolRecord)
    (apart : ∀ key name, (SymbolPath.schema key).member name ≠ address) :
    Still uri place scope (scope.write creates address record) := by
  refine ⟨⟨[], rfl, by simp, fun other usage member _ => ?_⟩, fun {key name} _ => ?_, rfl, fun {key name usage} member _ _ => ?_⟩
  · exact SymbolTable.usagesAt_subset_write sorted creates address record other member
  · exact SymbolTable.partAt_write sorted creates address record (fun _ => rfl) fun here => absurd here (apart key name)
  · exact (SymbolTable.usagesAt_of_write sorted creates address record member).resolve_right fun new => apart key name new.1

theorem tookUp {before : Workspace} {other : String} (still : Still uri place first second)
    (took : before.TookUp first.workspace other) : before.TookUp second.workspace other := by
  obtain ⟨more, log, -, -⟩ := still.stays
  obtain ⟨taken, earlier, member⟩ := took
  exact ⟨more ++ taken, by rw [log, earlier, List.append_assoc], List.mem_append_right _ member⟩

end Still

namespace Tends

variable {setup : Setup} {before : Workspace} {document : TextDocument} {module : ModulePath} {scope after : Scope}
  {load : Loader} {place : Span} {root : Node} {limits : Limits}

/-- The step: a pass over a tree that avoids a place does nothing there. -/
theorem still_step (safeguards : Safeguards setup load) (avoids : root.Avoids place)
    (tends : Tends setup before document module scope)
    (step : (Pass.mk limits document.uri module root).Step load Pass.ToKey (fun _ _ => True) scope after) :
    Still document.uri place scope after := by
  have sorted := tends.neat.sound.sorted
  cases step with
  | add reports =>
    obtain ⟨node, member, same⟩ := reports
    exact .add (same ▸ avoids node member)
  | @load path goal asked leads implemented apart =>
    have honours := safeguards.honours scope.workspace asked
    have retains := safeguards.retains scope.workspace asked
    obtain ⟨taken, spares⟩ := safeguards.spares scope.workspace asked sorted
    obtain ⟨listed, advances⟩ := honours.loads.advances
    obtain rfl : listed = taken := List.append_cancel_right (advances.log.symm.trans spares.log)
    refine ⟨⟨listed, spares.log, fun member => ?_, fun address usage member outside => ?_⟩, fun declared => ?_, rfl,
      fun {key name usage} member kind here => ?_⟩
    · obtain ⟨other, needs⟩ := advances.needed _ member
      exact needs.idle tends.progress
    · have kept : usage ∈ (scope.workspace.table.usagesAt address).filter (·.isOutside listed) :=
        List.mem_filter.mpr ⟨member, by simp [Usage.isOutside, outside]⟩
      rw [← spares.usages address] at kept
      exact List.mem_of_mem_filter kept
    · exact retains.contents tends.neat tends.progress declared
    · have checked : usage.isCheckedFrom document.uri = true := by
        have contributor := (honours.sound tends.neat.sound).entered (SymbolPath.member_ne_schema key name) member
        simp [Usage.isCheckedFrom, here, contributor]
      have own := honours.own tends.neat.sound tends.progress ((SymbolPath.schema key).member name)
      exact List.mem_of_mem_filter (own ▸ List.mem_filter.mpr ⟨member, checked⟩)
  | @write creates address record writes =>
    refine ⟨⟨[], rfl, by simp, fun other usage member _ => ?_⟩, tends.partAt_kept writes, rfl,
      fun {key name usage} member _ here => ?_⟩
    · exact SymbolTable.usagesAt_subset_write sorted creates address record other member
    · rcases SymbolTable.usagesAt_of_write sorted creates address record member with old | ⟨same, given⟩
      · exact old
      · subst same
        obtain ⟨-, -, pair, below, node, found, written⟩ := writes.enters
        cases written.symm.trans given
        cases here
        exact absurd rfl (avoids node (Node.preorder_trans (Node.mem_preorder_of_child (Node.mem_of_child? found)) below))
  | checking =>
    exact ⟨⟨[], rfl, by simp, fun _ _ member _ => member⟩, fun _ => rfl, rfl, fun member _ _ => member⟩

/-- The run: so do whole passes over such a tree. -/
theorem still_invariant (safeguards : Safeguards setup load) (idle : ¬before.InProgress document.uri) (avoids : root.Avoids place)
    (limits : Limits) (module : ModulePath) (origin : Scope) :
    (Pass.mk limits document.uri module root).Invariant load Pass.ToKey (fun _ _ => True)
      fun scope => Tends setup before document module scope ∧ Still document.uri place origin scope :=
  (invariant safeguards.honours safeguards.retains idle limits module root).along _
    fun tends step still => still.trans (tends.still_step safeguards avoids step)

structure NamedApart (declaration : Node) (place : Span) : Prop where
  kind : declaration.kind = .struct ∨ ∃ values, declaration.kind = .enum values
  apart : ∀ identifier, declaration.child? .identifier = some identifier → identifier.span ≠ place

theorem enterType_still (tends : Tends setup before document module scope) {declaration : Node}
    (named : NamedApart declaration place) (subcategory : Subcategory) :
    Still document.uri place scope (Hoisting.enterType scope declaration subcategory) := by
  rw [Hoisting.enterType]
  split
  · exact .refl ..
  · next identifier found =>
    split
    · exact .refl ..
    · next name _ =>
      cases free : (scope.query (.schema (scope.module.join name))).declared? with
      | some existing =>
        simp only [Scope.declare, free]
        exact .add (by rw [Coupling.duplicated_span]; exact named.apart identifier found)
      | none =>
        rw [Coupling.declare_of_free free]
        exact .write tends.neat.sound.sorted true _ fun key name => SymbolPath.member_ne_schema key name _

section Passes

variable (safeguards : Safeguards setup load) (idle : ¬before.InProgress document.uri)

include safeguards idle

theorem hoist_still (limits : Limits) {declarations : List Node}
    (each : ∀ other ∈ declarations, other.Avoids place ∨ NamedApart other place) {hoisting : Hoisting}
    (tends : Tends setup before document module hoisting.scope) :
    Tends setup before document module (declarations.foldl (Hoisting.step load limits) hoisting).scope ∧
      Still document.uri place hoisting.scope (declarations.foldl (Hoisting.step load limits) hoisting).scope := by
  refine List.foldlRecOn (motive := fun state : Hoisting => Tends setup before document module state.scope ∧
    Still document.uri place hoisting.scope state.scope) declarations _ ⟨tends, .refl ..⟩ ?_
  rintro state ⟨tends, still⟩ other member
  rcases each other member with avoids | named
  · exact (still_invariant safeguards idle avoids.solo limits module _).step (List.mem_singleton_self _) ⟨tends, still⟩
  · have onward := (invariant safeguards.honours safeguards.retains idle limits module other.solo).step
      (List.mem_singleton_self _) tends
    refine ⟨onward, still.trans ?_⟩
    rcases named.kind with kind | ⟨values, kind⟩
    all_goals
      rw [Hoisting.step, kind]
      exact tends.enterType_still named _

theorem uses_still (limits : Limits) {clauses : List Node} (each : ∀ other ∈ clauses, other.Avoids place)
    (tends : Tends setup before document module scope) :
    Tends setup before document module (clauses.foldl (Scope.checkUse load limits) scope) ∧
      Still document.uri place scope (clauses.foldl (Scope.checkUse load limits) scope) := by
  refine List.foldlRecOn (motive := fun state => Tends setup before document module state ∧
    Still document.uri place scope state) clauses _ ⟨tends, .refl ..⟩ ?_
  intro state both other member
  exact (still_invariant safeguards idle (each other member).solo limits module _).checkUse (List.mem_singleton_self _) both

theorem declarations_still {declarations : List Node} (each : ∀ other ∈ declarations, other.Avoids place)
    (tends : Tends setup before document module scope) :
    Tends setup before document module (declarations.foldl (Scope.checkDeclaration load setup) scope) ∧
      Still document.uri place scope (declarations.foldl (Scope.checkDeclaration load setup) scope) := by
  refine List.foldlRecOn (motive := fun state => Tends setup before document module state ∧
    Still document.uri place scope state) declarations _ ⟨tends, .refl ..⟩ ?_
  intro state both other member
  exact (still_invariant safeguards idle (each other member).solo setup.limits module _).checkDeclaration rfl
    (List.mem_singleton_self _) both

end Passes

end Tends

/-- Until the declarations are checked, nothing happens at a place inside a type. -/
theorem waitedOf_still {setup : Setup} {before : Workspace} {document : TextDocument} {load : Loader} {place : Span}
    (safeguards : Safeguards setup load) (neat : before.table.Neat) (needs : Needs setup before document.uri document)
    (module : ModulePath) (each : ∀ other ∈ (parse document.text setup.trailing).node.children,
      other.Avoids place ∨ Tends.NamedApart other place) :
    let entered := (fetch setup before document.uri).2.enter
    Tends setup before document module (waitedOf load setup entered document module) ∧
      Still document.uri place (startOf setup entered document module) (waitedOf load setup entered document module) := by
  intro entered
  have start : Tends setup before document module ({ scope := startOf setup entered document module } : Hoisting).scope :=
    Tends.start neat needs module _
  obtain ⟨tends, still⟩ := start.hoist_still safeguards needs.idle setup.limits each
  have clauses : ∀ clause ∈ (passOf setup document module).deferred load (startOf setup entered document module),
      clause.Avoids place := by
    intro clause waiting
    refine (each clause (Pass.deferred_subset _ load _ clause waiting)).resolve_right fun named => ?_
    obtain ⟨isExport, kind⟩ := Pass.kind_of_deferred _ load _ clause waiting
    rcases named.kind with struct | ⟨values, enum⟩
    · cases kind.symm.trans struct
    · cases kind.symm.trans enum
  have checking := (Tends.invariant safeguards.honours safeguards.retains needs.idle setup.limits module
    (parse document.text setup.trailing).node).checking tends
  have quiet := Still.checking document.uri place (hoistedOf load setup entered document module)
  obtain ⟨ended, behind⟩ := Tends.uses_still safeguards needs.idle setup.limits clauses checking
  exact ⟨ended, still.trans (quiet.trans behind)⟩

end Workspace

end SchemaDoc
