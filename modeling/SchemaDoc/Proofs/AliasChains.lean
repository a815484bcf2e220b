import Mathlib.Data.List.Perm.Subperm
import Mathlib.Logic.Relation
import SchemaDoc.Proofs.Histories
import SchemaDoc.Proofs.TableViews

/-! Chains of aliases, while documents change at will. A document is checked against what the others left
in the table, some of it from texts that are gone; then a use clause can make a symbol an alias of itself.
No other circle comes about: a link is always made to the end of a chain. -/

namespace SchemaDoc

namespace SymbolTable

def Links (table : SymbolTable) (address target : SymbolPath) : Prop := table.aliasAt address = some target

def Hops (table : SymbolTable) (address target : SymbolPath) : Prop := table.Links address target ∧ target ≠ address

def IsEnd (table : SymbolTable) (address : SymbolPath) : Prop := ∀ target, table.Links address target → target = address

/-- Aliases of other symbols do not lead in a circle. -/
def IsChained (table : SymbolTable) : Prop := ∀ address, ¬Relation.TransGen table.Hops address address

variable {table after : SymbolTable} {address target : SymbolPath}

theorem isEnd_iff : table.IsEnd address ↔ ∀ target, ¬table.Hops address target := by
  simp [IsEnd, Hops]

theorem IsEnd.not_transGen (isEnd : table.IsEnd address) : ¬Relation.TransGen table.Hops address target := by
  intro leads
  obtain ⟨next, hops, _⟩ := Relation.TransGen.head'_iff.mp leads
  exact isEnd_iff.mp isEnd next hops

theorem IsChained.mono (chained : table.IsChained)
    (fewer : ∀ {address target}, after.Links address target → table.Links address target) : after.IsChained := by
  have hops : after.Hops ≤ table.Hops := fun _ _ hops => ⟨fewer hops.1, hops.2⟩
  exact fun address circle => chained address (Relation.TransGen.mono hops _ _ circle)

/-- A circle of links is one of a single symbol. -/
theorem IsChained.links_self (chained : table.IsChained) (circle : Relation.TransGen table.Links address address) :
    table.Links address address := by
  have shorten : ∀ {first last}, Relation.ReflTransGen table.Links first last → Relation.ReflTransGen table.Hops first last := by
    intro first last leads
    induction leads with
    | refl => exact .refl
    | @tail middle last _ links ih =>
      by_cases same : last = middle
      · exact same ▸ ih
      · exact ih.tail ⟨links, same⟩
  obtain ⟨next, links, back⟩ := Relation.TransGen.head'_iff.mp circle
  by_cases same : next = address
  · exact same ▸ links
  · exact absurd (Relation.TransGen.head' ⟨links, same⟩ (shorten back)) (chained address)

theorem chase_succ (table : SymbolTable) (steps : Nat) (address : SymbolPath) :
    Query.chase table (steps + 1) address = match table.aliasAt address with
      | none => address
      | some target => Query.chase table steps target := rfl

theorem chase_of_isEnd (isEnd : table.IsEnd address) (steps : Nat) : Query.chase table steps address = address := by
  induction steps with
  | zero => rfl
  | succ steps ih =>
    rw [chase_succ]
    cases linked : table.aliasAt address with
    | none => rfl
    | some target =>
      obtain rfl := isEnd target linked
      exact ih

theorem mem_addresses_of_links (links : table.Links address target) : address ∈ table.symbols.map Symbol.address := by
  obtain ⟨symbol, found, _⟩ := Option.bind_eq_some_iff.mp links
  have here : symbol.address = address := by simpa using List.find?_some found
  exact List.mem_map.mpr ⟨symbol, List.mem_of_find?_eq_some found, here⟩

theorem isEnd_chase_of_passed (chained : table.IsChained) {steps : Nat} {passed : List SymbolPath} (once : passed.Nodup)
    (known : passed ⊆ table.symbols.map Symbol.address)
    (leads : ∀ earlier ∈ passed, Relation.TransGen table.Hops earlier address) (enough : table.size ≤ steps + passed.length) :
    table.IsEnd (Query.chase table steps address) := by
  -- on the steps that are left; the symbols passed lead to the address at hand, so none is met again
  induction steps generalizing address passed with
  | zero =>
    rw [Query.chase, isEnd_iff]
    intro target hops
    have all : passed.Perm (table.symbols.map Symbol.address) := by
      apply (List.subperm_of_subset once known).perm_of_length_le
      rw [List.length_map]
      change table.size ≤ _
      omega
    exact chained address (leads address (all.mem_iff.mpr (mem_addresses_of_links hops.1)))
  | succ steps ih =>
    by_cases isEnd : table.IsEnd address
    · rwa [chase_of_isEnd isEnd]
    · obtain ⟨target, hops⟩ : ∃ target, table.Hops address target := by simpa [isEnd_iff] using isEnd
      rw [chase_succ, show table.aliasAt address = some target from hops.1]
      apply @ih target (address :: passed)
      · exact List.nodup_cons.mpr ⟨fun member => chained address (leads address member), once⟩
      · exact List.cons_subset.mpr ⟨mem_addresses_of_links hops.1, known⟩
      · rw [List.forall_mem_cons]
        exact ⟨.single hops, fun earlier member => (leads earlier member).tail hops⟩
      · rw [List.length_cons]
        omega

theorem IsChained.isEnd_chase (chained : table.IsChained) (address : SymbolPath) :
    table.IsEnd (Query.chase table table.size address) :=
  isEnd_chase_of_passed chained List.nodup_nil (List.nil_subset _) (by simp) (by simp)

/-- A link to an end makes no circle, whatever it replaces. -/
theorem IsChained.link (chained : table.IsChained) (address : SymbolPath) (isEnd : table.IsEnd target)
    (links : ∀ {first second}, after.Links first second → table.Links first second ∨ first = address ∧ second = target) :
    after.IsChained := by
  have stays : target ≠ address → after.IsEnd target := by
    intro apart next linked
    rcases links linked with old | ⟨here, _⟩
    · exact isEnd next old
    · exact absurd here apart
  have onward : ∀ {first last}, Relation.TransGen after.Hops first last →
      Relation.TransGen table.Hops first last ∨ last = target ∧ target ≠ address := by
    intro first last leads
    induction leads with
    | single hops =>
      rcases links hops.1 with old | ⟨rfl, rfl⟩
      · exact .inl (.single ⟨old, hops.2⟩)
      · exact .inr ⟨rfl, hops.2⟩
    | tail _ hops ih =>
      rcases ih with earlier | ⟨rfl, apart⟩
      · rcases links hops.1 with old | ⟨rfl, rfl⟩
        · exact .inl (earlier.tail ⟨old, hops.2⟩)
        · exact .inr ⟨rfl, hops.2⟩
      · exact absurd hops (isEnd_iff.mp (stays apart) _)
  intro first circle
  rcases onward circle with old | ⟨rfl, apart⟩
  · exact chained first old
  · exact (stays apart).not_transGen circle

end SymbolTable

namespace Pass

def Closes (scope : Scope) (_ : Node) (target : SymbolPath) : Prop := scope.workspace.table.IsEnd target

end Pass

namespace Workspace

structure Chained (workspace : Workspace) : Prop where
  sorted : Sorted workspace.table.symbols
  chained : workspace.table.IsChained

namespace Chained

variable {workspace : Workspace}

theorem takeUp (chained : workspace.Chained) (document : TextDocument) (errors : List Diagnostic) :
    (workspace.takeUp document errors).Chained := by
  refine ⟨SymbolTable.sorted_clearUri chained.sorted document.uri, chained.chained.mono ?_⟩
  intro address target links
  change (workspace.table.clearUri document.uri).aliasAt address = some target at links
  rw [SymbolTable.aliasAt_clearUri chained.sorted] at links
  exact (Option.ite_none_right_eq_some.mp links).2

theorem write {pass : Pass} {scope : Scope} {creates : Bool} {address : SymbolPath} {record : SymbolRecord}
    {Known : Scope → SymbolPath → Prop} (chained : scope.workspace.Chained)
    (writes : pass.Writes Pass.Closes Known scope creates address record) :
    (scope.write creates address record).workspace.Chained := by
  refine ⟨SymbolTable.sorted_write chained.sorted creates address record, ?_⟩
  have links := SymbolTable.aliasAt_write chained.sorted creates address record
  cases given : record.relations.aliasOf with
  | none =>
    refine chained.chained.mono fun {first second} linked => ?_
    rcases links first with same | ⟨_, link, written, _⟩
    · exact same.symm.trans linked
    · cases given.symm.trans written
  | some target =>
    have isEnd : scope.workspace.table.IsEnd target := by
      cases writes with
      | use member found last text free resolved visibility known =>
        cases given
        exact resolved
      | _ => cases given
    refine chained.chained.link address isEnd fun {first second} linked => ?_
    rcases links first with same | ⟨here, link, written, now⟩
    · exact .inl (same.symm.trans linked)
    · cases given.symm.trans written
      exact .inr ⟨here, (Option.some.inj (now.symm.trans linked)).symm⟩

theorem arrival {scope : Scope} (chained : scope.workspace.Chained) {goal : PathTarget}
    (declared : (scope.arrival goal).1 = true) : scope.workspace.table.IsEnd (scope.arrival goal).2.1 := by
  have reached : (scope.arrival goal).2.1 =
      Query.chase scope.workspace.table scope.workspace.table.size goal.address := by
    change Query.sees scope.workspace.table scope.uri goal.address = true at declared
    simp [Scope.arrival, Scope.query, Query.start, declared, Query.elseResolveAlias, Query.elseEnter, Query.otherwise,
      Query.enter, Query.refresh]
  rw [reached]
  exact chained.chained.isEnd_chase goal.address

theorem invariant {load : Loader} (pass : Pass) (loads : ∀ workspace uri, workspace.Chained → (load workspace uri).2.Chained) :
    pass.Invariant load Pass.Closes (fun _ _ => True)
      fun scope => (scope.uri = pass.uri ∧ scope.module = pass.module) ∧ scope.workspace.Chained := by
  constructor
  case place => exact fun holds => holds.1
  case arrives => exact fun holds _ declared => holds.2.arrival declared
  case learn | retain => exact fun _ _ _ => trivial
  case load => exact fun holds _ _ _ => ⟨holds.1, loads _ _ holds.2⟩
  case add => exact fun holds _ => holds
  case write => exact fun holds writes => ⟨holds.1, holds.2.write writes⟩
  case steady =>
    intro scope path target creates address usage holds isEnd kind next links
    rcases SymbolTable.aliasAt_write holds.2.sorted creates address { usage := some usage } target with same | ⟨_, _, given, _⟩
    · exact isEnd next (same.symm.trans links)
    · cases given
  case checking => exact fun holds => ⟨holds.1, holds.2.sorted, holds.2.chained⟩

end Chained

theorem loadWithin_chained (setup : Setup) (budget : Nat) (workspace : Workspace) (uri : String) :
    workspace.Chained → (loadWithin setup budget workspace uri).2.Chained := by
  apply loadWithin_induction fun before after => before.Chained → after.Chained
  · intro workspace uri chained
    obtain ⟨documents, fetched⟩ := fetch_snd setup workspace uri
    rw [fetched]
    exact ⟨chained.sorted, chained.chained⟩
  · intro load before uri document nested needs chained
    have entered : (fetch setup before uri).2.enter.Chained := by
      obtain ⟨documents, fetched⟩ := fetch_snd setup before uri
      rw [fetched]
      exact ⟨chained.sorted, chained.chained⟩
    have taken := entered.takeUp document (parse document.text setup.trailing).errors
    refine checkDocument_ends (fun after => after.leave.Chained) _ ?_ ?_
      (fun module => Chained.invariant (passOf setup document module) nested) ?_
    · exact fun errors => ⟨taken.sorted, taken.chained⟩
    · exact fun module errors _ => ⟨⟨rfl, rfl⟩, taken⟩
    · exact fun module scope holds => ⟨holds.2.sorted, holds.2.chained⟩

theorem Chained.register {workspace : Workspace} (chained : workspace.Chained) (modules : List (ModulePath × String)) :
    ({ workspace with table := Layout.register workspace.table modules } : Workspace).Chained := by
  have cleared : ({ workspace with table := workspace.table.clearLayout } : Workspace).Chained := by
    refine ⟨SymbolTable.sorted_clearLayout chained.sorted, chained.chained.mono fun {address target} links => ?_⟩
    rcases SymbolTable.aliasAt_clearLayout chained.sorted address with none | same
    · cases none.symm.trans links
    · exact same.symm.trans links
  refine Layout.register_induction (motive := fun table => ({ workspace with table } : Workspace).Chained) cleared ?_
  intro table chained entry _
  refine ⟨SymbolTable.sorted_registerModule chained.sorted entry.1 entry.2, chained.chained.mono fun links => ?_⟩
  exact (SymbolTable.aliasAt_registerModule chained.sorted _ _ _).symm.trans links

theorem Reachable.chained {setup : Setup} {workspace : Workspace} (reachable : Reachable setup workspace) :
    workspace.Chained := by
  refine reachable.invariant Chained ?_ ?_ ?_ ?_ ?_
  · refine ⟨.nil, fun address circle => ?_⟩
    obtain ⟨next, hops, _⟩ := Relation.TransGen.head'_iff.mp circle
    cases hops.1
  · exact fun workspace layout files chained => chained.register _
  · exact fun workspace documents chained => ⟨chained.sorted, chained.chained⟩
  · exact fun workspace files uri => loadWithin_chained (setup.over files) _ workspace uri
  · exact fun workspace uri chained => ⟨chained.sorted, chained.chained⟩

/-- The only circle that aliases ever lead in is that of a symbol that is its own alias, and following
them ends at such a symbol or at one that is no alias. -/
theorem alias_circles_are_self_links {setup : Setup} {workspace : Workspace} (reachable : Reachable setup workspace) :
    (∀ address, Relation.TransGen workspace.table.Links address address ↔ workspace.table.Links address address) ∧
      ∀ address, let last := Query.chase workspace.table workspace.table.size address
        workspace.table.aliasAt last = none ∨ workspace.table.Links last last := by
  have chained := reachable.chained.chained
  refine ⟨fun address => ⟨chained.links_self, .single⟩, fun address => ?_⟩
  have isEnd := chained.isEnd_chase address
  generalize Query.chase workspace.table workspace.table.size address = last at isEnd
  cases linked : workspace.table.aliasAt last with
  | none => exact .inl linked
  | some target =>
    obtain rfl := isEnd target linked
    exact .inr linked

/-- The module `::a` exports what `::b` declares; then `::b` changes to export what `::a` exports, and is
checked while the alias of `::a` is still the old one. -/
def swappedWorkspace : Workspace :=
  let checked := ((pairWorkspace "export use ::b::X;" "struct X {}").checkAll {}).2
  (ensureChecked {} { checked with documents := { opened :=
    [⟨"file:///a.sdoc", 1, "export use ::b::X;"⟩, ⟨"file:///b.sdoc", 2, "export use ::a::X;"⟩] } } "file:///b.sdoc").2

theorem swappedWorkspace_reachable : Reachable {} swappedWorkspace :=
  (((pairWorkspace_reachable {} _ _).checkAll {}).edit _).check {} "file:///b.sdoc"

theorem swappedWorkspace_links :
    swappedWorkspace.table.Links (.schema "::a::X") (.schema "::b::X") ∧
      swappedWorkspace.table.Links (.schema "::b::X") (.schema "::b::X") := by
  constructor <;> (rw [SymbolTable.Links]; decide +kernel)

theorem alias_circles_are_self_links_swapped :
    Reachable {} swappedWorkspace ∧ swappedWorkspace.table.Links (.schema "::a::X") (.schema "::b::X") ∧
      (∀ address, Relation.TransGen swappedWorkspace.table.Links address address ↔
        swappedWorkspace.table.Links address address) ∧
      ∀ address, let last := Query.chase swappedWorkspace.table swappedWorkspace.table.size address
        swappedWorkspace.table.aliasAt last = none ∨ swappedWorkspace.table.Links last last :=
  ⟨swappedWorkspace_reachable, swappedWorkspace_links.1, alias_circles_are_self_links swappedWorkspace_reachable⟩

/-- A symbol of a reachable workspace can be its own alias, and then its links are followed without end. -/
theorem alias_circle_reachable :
    Reachable {} swappedWorkspace ∧
      Relation.TransGen swappedWorkspace.table.Links (.schema "::b::X") (.schema "::b::X") ∧
      ∀ steps, swappedWorkspace.table.aliasAt (Query.chase swappedWorkspace.table steps (.schema "::a::X")) ≠ none := by
  obtain ⟨first, second⟩ := swappedWorkspace_links
  refine ⟨swappedWorkspace_reachable, .single second, fun steps => ?_⟩
  cases steps with
  | zero => simp [Query.chase, show swappedWorkspace.table.aliasAt _ = _ from first]
  | succ steps =>
    have isEnd : swappedWorkspace.table.IsEnd (.schema "::b::X") := fun target links => Option.some.inj (links.symm.trans second)
    rw [SymbolTable.chase_succ, show swappedWorkspace.table.aliasAt _ = _ from first]
    dsimp only
    rw [SymbolTable.chase_of_isEnd isEnd, show swappedWorkspace.table.aliasAt _ = _ from second]
    exact Option.some_ne_none _

end Workspace

end SchemaDoc
