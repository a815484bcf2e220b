import Mathlib.Data.List.Nodup
import SchemaDoc.Proofs.AliasChains

/-! Where aliases lead. The table may hold anything, members, other registries and links to addresses where nothing
stands among it. A chain of links that ends passes no address twice, and a symbol stands at each one that it leaves, so
it is no longer than the table; the bound on following links therefore cuts only chains that do not end. -/

namespace SchemaDoc

namespace SymbolTable

/-- The address that so many links lead to, if there are so many. -/
def linked? (table : SymbolTable) : Nat → SymbolPath → Option SymbolPath
  | 0, address => some address
  | steps + 1, address => (table.aliasAt address).bind (table.linked? steps)

variable {table : SymbolTable} {address target last : SymbolPath} {steps : Nat}

theorem linked?_add (first second : Nat) (address : SymbolPath) :
    table.linked? (first + second) address = (table.linked? first address).bind (table.linked? second) := by
  induction first generalizing address with
  | zero => rw [Nat.zero_add, linked?, Option.bind_some]
  | succ first ih =>
    rw [Nat.add_right_comm, linked?, linked?, Option.bind_assoc]
    congr 1
    funext next
    exact ih next

theorem isSome_linked?_of_le (leads : (table.linked? steps address).isSome = true) {fewer : Nat} (le : fewer ≤ steps) :
    (table.linked? fewer address).isSome = true := by
  obtain ⟨more, rfl⟩ := Nat.exists_eq_add_of_le le
  rw [linked?_add] at leads
  exact Option.isSome_of_isSome_bind leads

theorem chase_of_linked? (leads : table.linked? steps address = some target) (more : Nat) :
    Query.chase table (steps + more) address = Query.chase table more target := by
  induction steps generalizing address with
  | zero =>
    cases leads
    rw [Nat.zero_add]
  | succ steps ih =>
    obtain ⟨next, link, onward⟩ := Option.bind_eq_some_iff.mp leads
    rw [Nat.add_right_comm, chase_succ, link]
    exact ih onward

/-- Following so many links leads to where so many links lead, if there are so many. -/
theorem linked?_eq_chase (leads : (table.linked? steps address).isSome = true) :
    table.linked? steps address = some (Query.chase table steps address) := by
  obtain ⟨target, here⟩ := Option.isSome_iff_exists.mp leads
  rw [here]
  exact congrArg some (chase_of_linked? here 0).symm

/-- No chain goes on behind its end. -/
theorem le_of_ends (leads : table.linked? steps address = some last) (ends : table.aliasAt last = none) {others : Nat}
    (also : (table.linked? others address).isSome = true) : others ≤ steps := by
  by_contra longer
  obtain ⟨more, rfl⟩ := Nat.exists_eq_add_of_lt (Nat.lt_of_not_le longer)
  rw [Nat.add_assoc, linked?_add, leads, Option.bind_some, linked?, ends, Option.bind_none] at also
  cases also

theorem steps_le_size (leads : table.linked? steps address = some last) (ends : table.aliasAt last = none) :
    steps ≤ table.size := by
  have some : ∀ {count}, count ≤ steps → table.linked? count address = Option.some (Query.chase table count address) :=
    fun le => linked?_eq_chase (isSome_linked?_of_le (Option.isSome_of_eq_some leads) le)
  have rest : ∀ {count}, count ≤ steps → table.linked? (steps - count) (Query.chase table count address) = Option.some last := by
    intro count le
    have split : table.linked? (count + (steps - count)) address = _ := linked?_add count (steps - count) address
    rwa [Nat.add_sub_cancel' le, leads, some le, Option.bind_some, eq_comm] at split
  let passed := (List.range steps).map fun count => Query.chase table count address
  have once : passed.Nodup := by
    -- from an address that is met again there would be two ways to the end, of different lengths
    refine List.Nodup.map_on ?_ List.nodup_range
    intro first firstIn second secondIn same
    rw [List.mem_range] at firstIn secondIn
    have ahead := rest firstIn.le
    have behind := rest secondIn.le
    rw [same] at ahead
    have forth := le_of_ends ahead ends (Option.isSome_of_eq_some behind)
    have back := le_of_ends behind ends (Option.isSome_of_eq_some ahead)
    omega
  have known : passed ⊆ table.symbols.map Symbol.address := by
    intro here member
    obtain ⟨count, inside, rfl⟩ := List.mem_map.mp member
    rw [List.mem_range] at inside
    have next : table.linked? (count + 1) address = _ := some inside
    rw [linked?_add, some inside.le, Option.bind_some] at next
    obtain ⟨target, link, -⟩ := Option.bind_eq_some_iff.mp next
    exact mem_addresses_of_links link
  have bound := (List.subperm_of_subset once known).length_le
  rwa [List.length_map, List.length_range, List.length_map] at bound

end SymbolTable

namespace Query

open SymbolTable

/-- A pending query whose address is declared goes to the end of its alias links, however many there are; if they do
not end, it stops behind as many as there are symbols. Either way the table stays, and the query is declared just if
a symbol that is declared and visible stands where it has arrived. -/
theorem elseResolveAlias_arrives (query : Query) (pending : query.isHandled = false) (declared : query.isDeclared = true) :
    query.elseResolveAlias.table = query.table ∧
      (query.elseResolveAlias.isDeclared = true ↔ ∃ symbol, query.table.lookup? query.elseResolveAlias.address = some symbol ∧
        symbol.isDeclared = true ∧ symbol.isVisibleFrom query.uri = true) ∧
      (∀ steps last, query.table.linked? steps query.address = some last →
        (∀ symbol, query.table.lookup? last = some symbol → symbol.relations.aliasOf = none) →
        query.elseResolveAlias.address = last) ∧
      ((∀ steps, (query.table.linked? steps query.address).isSome = true) →
        query.table.linked? query.table.size query.address = some query.elseResolveAlias.address) := by
  have moved : query.elseResolveAlias = refresh { query with address := chase query.table query.table.size query.address } := by
    simp [elseResolveAlias, pending, declared]
  rw [moved]
  refine ⟨rfl, ?_, ?_, fun endless => linked?_eq_chase (endless _)⟩
  · simp only [refresh, sees, Option.any_eq_true, Bool.and_eq_true]
  · intro steps last leads unlinked
    have ends : query.table.aliasAt last = none := by
      rw [aliasAt, Option.bind_eq_none_iff]
      exact unlinked
    obtain ⟨more, size⟩ := Nat.exists_eq_add_of_le (steps_le_size leads ends)
    change chase query.table query.table.size query.address = last
    rw [size, chase_of_linked? leads]
    exact chase_of_isEnd (fun target links => absurd (ends.symm.trans links) (Option.some_ne_none target).symm) more

def chainTable : SymbolTable :=
  [("::a", "::b"), ("::b", "::c"), ("::c", "::gone")].foldl (fun table link =>
    table.enter (.schema link.1)
      { usage := some { kind := .declaration, location := ⟨"file:///a.sdoc", ⟨0, 1⟩⟩ }
        relations := { aliasOf := some (.schema link.2) } }) .empty

/-- The chain is as long as the bound. -/
theorem elseResolveAlias_arrives_nowhere :
    let query := start chainTable "file:///a.sdoc" (.schema "::a")
    chainTable.size = 3 ∧ query.isHandled = false ∧ query.isDeclared = true ∧
      query.table.linked? 3 query.address = some (.schema "::gone") ∧ query.elseResolveAlias.address = .schema "::gone" ∧
      query.elseResolveAlias.isDeclared = false := by
  intro query
  have declared : query.isDeclared = true := by decide +kernel
  have links : query.table.linked? 3 query.address = some (.schema "::gone") := by decide +kernel
  have nothing : query.table.lookup? (.schema "::gone") = none := List.find?_eq_none.mpr (by decide +kernel)
  obtain ⟨-, reflects, reaches, -⟩ := elseResolveAlias_arrives query rfl declared
  have arrived := reaches 3 _ links (by simp [nothing])
  refine ⟨by decide +kernel, rfl, declared, links, arrived, ?_⟩
  rw [arrived, nothing] at reflects
  simpa using reflects

end Query

end SchemaDoc
