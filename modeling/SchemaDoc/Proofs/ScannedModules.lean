import Mathlib.Data.List.Nodup
import SchemaDoc.Proofs.FilePaths
import SchemaDoc.Proofs.SoleMembers
import SchemaDoc.Proofs.UriRoundTrip

/-! What a scan leaves behind. All that a layout registered is forgotten first, whatever documents have put at the same
keys, and every document is registered once, so that both directions of the module map read the list of files and
nothing else. -/

namespace SchemaDoc

namespace SymbolTable

variable {table : SymbolTable} {modules : List (ModulePath × String)}

def implementersAt (table : SymbolTable) (key : String) : List String :=
  ((table.usagesAt (.schema key)).filter fun usage => usage.kind == .implementation).map fun usage => usage.location.uri

theorem implementersAt_of_found {key : String} {symbol : Symbol} (found : table.lookup? (.schema key) = some symbol) :
    table.implementersAt key = implementers symbol := by
  rw [implementersAt, usagesAt, found]
  rfl

theorem implementersAt_of_none {key : String} (none : table.lookup? (.schema key) = none) : table.implementersAt key = [] := by
  rw [implementersAt, usagesAt, none]
  rfl

/-- A table whose implementations are those of a list of modules, and in which all that is implemented is a module. -/
structure Lists (table : SymbolTable) (modules : List (ModulePath × String)) : Prop where
  sound : table.Sound
  implemented : ∀ key, table.implementersAt key = (modules.filter fun entry => entry.1.display == key).map Prod.snd
  kinds : ∀ key symbol, table.lookup? (.schema key) = some symbol → implementers symbol ≠ [] →
    symbol.subcategory = some .module

theorem lists_clearLayout (sound : table.Sound) : table.clearLayout.Lists [] := by
  have nobody : ∀ key symbol, table.clearLayout.lookup? (.schema key) = some symbol → implementers symbol = [] := by
    intro key symbol found
    obtain ⟨keeps, filtered⟩ := lookup?_clearLayout sound.sorted (.schema key)
    obtain ⟨kept, -⟩ := Option.filter_eq_some_iff.mp (filtered.symm.trans found)
    obtain ⟨original, here, rfl⟩ := Option.map_eq_some_iff.mp kept
    have address : original.address = .schema key := symbolAt?_address here
    have isKey : isSchemaKey original = true := by simp [isSchemaKey, address, SymbolPath.schema]
    rw [implementers, List.map_eq_nil_iff, List.filter_eq_nil_iff, unlaid, if_pos isKey]
    intro usage member implements
    obtain ⟨used, checked⟩ := List.mem_filter.mp member
    have known : usage ∈ table.usagesAt (.schema key) := by
      rw [usagesAt, here]
      exact used
    obtain ⟨⟨uri, rfl⟩, -⟩ := sound.laid known (.inl (by simpa using implements))
    cases checked
  refine ⟨sound.clearLayout, fun key => ?_, fun key symbol found some => absurd (nobody key symbol found) some⟩
  cases found : table.clearLayout.lookup? (.schema key) with
  | none => exact implementersAt_of_none found
  | some symbol => exact (implementersAt_of_found found).trans (nobody key symbol found)

theorem implementers_laid {symbol : Symbol} {uri : String} (fresh : uri ∉ implementers symbol) :
    implementers (laid uri symbol) = implementers symbol ++ [uri] := by
  have unknown : isImplementedBy symbol uri = false := by
    rw [← Bool.not_eq_true]
    intro known
    obtain ⟨usage, used, holds⟩ := List.any_eq_true.mp known
    simp only [Bool.and_eq_true, beq_iff_eq] at holds
    exact fresh (List.mem_map.mpr ⟨usage, List.mem_filter.mpr ⟨used, by simpa using holds.1.2⟩, holds.2⟩)
  rw [implementers, laid, unknown, if_neg Bool.false_ne_true, List.filter_append, List.map_append]
  rfl

/-- A document that implements nothing yet is listed behind the others. -/
theorem Lists.registerModule (lists : table.Lists modules) {entry : ModulePath × String}
    (fresh : entry.2 ∉ modules.map Prod.snd) : (table.registerModule entry.1 entry.2).Lists (modules ++ [entry]) := by
  have sorted := lists.sound.sorted
  have somewhere := SymbolPath.schema_path_ne entry.1.display
  have there := lookup?_registerModule table entry.1 entry.2
  have ensured : ∀ key symbol, (table.ensure (.schema entry.1.display)).lookup? (.schema key) = some symbol →
      implementers symbol = table.implementersAt key := by
    intro key symbol found
    have same := usagesAt_ensure sorted somewhere (.schema key)
    rw [implementersAt, ← same, usagesAt, found]
    rfl
  obtain ⟨module, found⟩ := Option.isSome_iff_exists.mp (isSome_lookup?_ensure sorted somewhere)
  have registered : (table.registerModule entry.1 entry.2).lookup? (.schema entry.1.display) = some (laid entry.2 module) := by
    rw [there, if_pos rfl, found, Option.map_some]
  have unlisted : entry.2 ∉ implementers module := by
    rw [ensured _ module found, lists.implemented]
    intro member
    exact fresh (List.map_subset _ (List.filter_subset_self _) member)
  refine ⟨lists.sound.registerModule entry.1 entry.2, fun key => ?_, fun key symbol here some => ?_⟩
  · rw [List.filter_append, List.map_append, ← lists.implemented]
    by_cases own : entry.1.display = key
    · subst own
      rw [implementersAt_of_found registered, implementers_laid unlisted, ensured _ module found]
      simp
    · have apart : SymbolPath.schema key ≠ .schema entry.1.display := by simpa [SymbolPath.schema] using Ne.symm own
      have same : (table.registerModule entry.1 entry.2).implementersAt key =
          (table.ensure (.schema entry.1.display)).implementersAt key := by
        rw [implementersAt, usagesAt, there, if_neg apart]
        rfl
      rw [same, implementersAt, usagesAt_ensure sorted somewhere]
      simp [own, implementersAt]
  · rw [there] at here
    split at here
    · obtain ⟨symbol, -, rfl⟩ := Option.map_eq_some_iff.mp here
      rfl
    · rw [lookup?_ensure sorted somewhere] at here
      cases known : table.lookup? (.schema key) with
      | none =>
        rw [known, Option.none_or] at here
        cases (Option.ite_none_right_eq_some.mp here).2
        exact absurd rfl some
      | some other =>
        rw [known] at here
        cases here
        exact lists.kinds key symbol known some

theorem lists_register (sound : table.Sound) (once : (modules.map Prod.snd).Nodup) :
    (Layout.register table modules).Lists modules := by
  induction modules using List.reverseRecOn with
  | nil => exact lists_clearLayout sound
  | append_singleton modules entry ih =>
    rw [List.map_append, List.nodup_append] at once
    obtain ⟨earlier, -, apart⟩ := once
    have fresh : entry.2 ∉ modules.map Prod.snd := fun member => apart _ member _ (List.mem_singleton_self _) rfl
    rw [Layout.register, List.foldl_append]
    exact (ih earlier).registerModule fresh

theorem Lists.uriOfModule? (lists : table.Lists modules) (module : ModulePath) :
    table.uriOfModule? module = (modules.find? fun entry => entry.1.display == module.display).map Prod.snd := by
  have first : (table.implementersAt module.display).head? =
      (modules.find? fun entry => entry.1.display == module.display).map Prod.snd := by
    rw [lists.implemented, List.head?_map, List.head?_filter]
  rw [← first, SymbolTable.uriOfModule?]
  cases found : table.lookup? (.schema module.display) with
  | none =>
    rw [implementersAt_of_none found]
    rfl
  | some symbol =>
    rw [implementersAt_of_found found, Option.bind_some]
    split
    · rfl
    · next other =>
      by_contra some
      exact other (lists.kinds _ symbol found fun nobody => some (by rw [nobody]; rfl))

theorem find?_of_once (once : (modules.map Prod.snd).Nodup) {entry : ModulePath × String} (member : entry ∈ modules) :
    (modules.find? fun other => other.2 == entry.2) = some entry := by
  obtain ⟨found, same⟩ := Option.isSome_iff_exists.mp
    (List.find?_isSome.mpr ⟨entry, member, beq_self_eq_true entry.2⟩ : (modules.find? fun other => other.2 == entry.2).isSome)
  have uri : found.2 = entry.2 := by simpa using List.find?_some same
  rw [same, List.inj_on_of_nodup_map once (List.mem_of_find?_eq_some same) member uri]

theorem Lists.moduleOfUri? (lists : table.Lists modules) (once : (modules.map Prod.snd).Nodup) (uri : String) :
    table.moduleOfUri? uri = (modules.find? fun entry => entry.2 == uri).map fun entry =>
      ModulePath.parse entry.1.display := by
  have listed : ∀ key, uri ∈ table.implementersAt key ↔ ∃ entry ∈ modules, entry.1.display = key ∧ entry.2 = uri := by
    intro key
    simp [lists.implemented, List.mem_map, and_assoc]
  rw [SymbolTable.moduleOfUri?]
  cases found : table.modules.find? fun module => (implementers module).contains uri with
  | some symbol =>
    have implements : uri ∈ implementers symbol := by simpa using List.find?_some found
    have among := List.mem_of_mem_filter (List.mem_of_find?_eq_some found)
    obtain ⟨stands, isKey⟩ := List.mem_filter.mp among
    obtain ⟨key, address⟩ : ∃ key, symbol.address = .schema key := by
      simp only [Bool.and_eq_true, beq_iff_eq] at isKey
      obtain ⟨key, path⟩ := List.length_eq_one_iff.mp isKey.2
      exact ⟨key, congrArg₂ SymbolPath.mk isKey.1 path⟩
    have here := lookup?_of_mem lists.sound.sorted stands
    rw [address] at here
    rw [← implementersAt_of_found here, listed] at implements
    obtain ⟨entry, member, display, rfl⟩ := implements
    rw [find?_of_once once member, Option.map_some, Option.map_some, Symbol.identifier, address, display]
    rfl
  | none =>
    cases same : modules.find? fun entry => entry.2 == uri with
    | none => rfl
    | some entry =>
      have display := (listed entry.1.display).mpr ⟨entry, List.mem_of_find?_eq_some same, rfl, by simpa using List.find?_some same⟩
      cases known : table.lookup? (.schema entry.1.display) with
      | none => simp [implementersAt_of_none known] at display
      | some symbol =>
        rw [implementersAt_of_found known] at display
        have address : symbol.address = .schema entry.1.display := symbolAt?_address known
        have kind := lists.kinds _ symbol known (List.ne_nil_of_mem display)
        have among : symbol ∈ table.modules := by
          refine List.mem_filter.mpr ⟨List.mem_filter.mpr ⟨List.mem_of_find?_eq_some known, ?_⟩, by simpa using kind⟩
          simp [address, SymbolPath.schema]
        exact absurd (by simpa using display) (List.find?_eq_none.mp found symbol among)

end SymbolTable

namespace Layout

variable {layout : Layout} {paths : List String}

theorem any_modulePath (path : String) (holds : ModulePath × String → Bool) :
    (((layout.modulePath? path).map fun module => (module, Uri.ofPath path)).any holds) =
      (layout.modulePath? path).any fun module => holds (module, Uri.ofPath path) := by
  cases layout.modulePath? path <;> rfl

theorem find?_modulesOf (holds : ModulePath × String → Bool) : (layout.modulesOf paths).find? holds =
    (paths.find? fun path => (layout.modulePath? path).any fun module => holds (module, Uri.ofPath path)).bind fun path =>
      (layout.modulePath? path).map fun module => (module, Uri.ofPath path) := by
  rw [modulesOf, List.find?_filterMap]
  simp only [any_modulePath]

theorem nodup_modulesOf (once : paths.Nodup) : ((layout.modulesOf paths).map Prod.snd).Nodup := by
  rw [modulesOf, List.map_filterMap]
  refine once.filterMap fun path other uri own same => ?_
  simp only [Option.map_map, Option.mem_def, Option.map_eq_some_iff, Function.comp_apply] at own same
  obtain ⟨_, _, rfl⟩ := own
  obtain ⟨_, _, same⟩ := same
  exact Uri.ofPath_injective same.symm

/-- The module map of a table reads a list of files: a file leads to its module, and a module to its first file. -/
structure Maps (layout : Layout) (paths : List String) (table : SymbolTable) : Prop where
  file : ∀ path ∈ paths, ∀ module, layout.modulePath? path = some module →
    table.moduleOfUri? (Uri.ofPath path) = some module
  elsewhere : ∀ uri, (∀ path ∈ paths, (layout.modulePath? path).isSome → Uri.ofPath path ≠ uri) →
    table.moduleOfUri? uri = none
  module : ∀ text, table.uriOfModule? (.parse text) =
    (paths.find? fun path => layout.modulePath? path == some (.parse text)).map Uri.ofPath
  /-- Segments that no text is read as may share the flat form of a module. -/
  flat : ∀ module, table.uriOfModule? module =
    (paths.find? fun path => (layout.modulePath? path).any fun known => known.display == module.display).map Uri.ofPath

theorem parse_display_of_modulePath? {path : String} {module : ModulePath} (implemented : layout.modulePath? path = some module) :
    ModulePath.parse module.display = module :=
  ModulePath.parse_display_of_solid (plain_of_modulePath? implemented) (solid_of_modulePath? implemented)

theorem maps_of_lists {table : SymbolTable} (once : paths.Nodup) (lists : table.Lists (layout.modulesOf paths)) :
    layout.Maps paths table := by
  have flat : ∀ module, table.uriOfModule? module =
      (paths.find? fun path => (layout.modulePath? path).any fun known => known.display == module.display).map
        Uri.ofPath := by
    intro module
    rw [lists.uriOfModule?, find?_modulesOf]
    cases found : paths.find? fun path => (layout.modulePath? path).any fun known => known.display == module.display with
    | none => rfl
    | some path =>
      have implemented := List.find?_some found
      cases known : layout.modulePath? path with
      | none => simp [known] at implemented
      | some module => simp [known]
  have uris : ((layout.modulesOf paths).map Prod.snd).Nodup := nodup_modulesOf once
  constructor
  case flat => exact flat
  case module =>
    intro text
    rw [flat]
    congr 2
    funext path
    cases implemented : layout.modulePath? path with
    | none => rfl
    | some known =>
      rw [Option.any_some, Bool.eq_iff_iff, beq_iff_eq, beq_iff_eq, Option.some_inj]
      refine ⟨fun same => ?_, fun same => congrArg _ same⟩
      rw [← parse_display_of_modulePath? implemented, same, ModulePath.parse_display_parse]
  case file =>
    intro path member module implemented
    have entry : (module, Uri.ofPath path) ∈ layout.modulesOf paths :=
      List.mem_filterMap.mpr ⟨path, member, by rw [implemented]; rfl⟩
    rw [lists.moduleOfUri? uris, SymbolTable.find?_of_once uris entry, Option.map_some,
      parse_display_of_modulePath? implemented]
  case elsewhere =>
    intro uri apart
    have unlisted : ((layout.modulesOf paths).find? fun entry => entry.2 == uri) = none := by
      refine List.find?_eq_none.mpr fun entry member same => ?_
      obtain ⟨path, among, found⟩ := List.mem_filterMap.mp member
      obtain ⟨module, implemented, rfl⟩ := Option.map_eq_some_iff.mp found
      exact apart path among (by rw [implemented]; rfl) (by simpa using same)
    rw [lists.moduleOfUri? uris, unlisted, Option.map_none]

/-- A scan makes the module map read the files that the walk lists, each once, whatever the table holds. A second one
changes nothing, and two files of one module stand in its two places. -/
theorem scan_exact {setup : Setup} {workspace : Workspace} (reachable : Workspace.Reachable setup workspace) (layout : Layout)
    {paths : List String} (once : (paths.map Path.components).Nodup)
    (documents : ∀ path ∈ paths, layout.hasExtension path = true) :
    let modules := layout.modulesOf paths
    let after := register workspace.table modules
    let again := register after modules
    (∀ files, layout.discover files = paths →
      layout.scan files workspace.table = (modules, after) ∧ layout.scan files after = (modules, again)) ∧
    layout.Maps paths after ∧
    ((∀ uri, again.moduleOfUri? uri = after.moduleOfUri? uri) ∧
      ∀ module, again.uriOfModule? module = after.uriOfModule? module) ∧
    ∀ file ∈ paths, ∀ other ∈ paths, file ≠ other → ∀ module, layout.modulePath? file = some module →
      layout.modulePath? other = some module → layout.Twins file other ∨ layout.Twins other file := by
  intro modules after again
  have distinct : paths.Nodup := once.of_map
  have uris : (modules.map Prod.snd).Nodup := nodup_modulesOf distinct
  have lists : after.Lists modules := SymbolTable.lists_register reachable.neat.sound uris
  have relists : again.Lists modules := SymbolTable.lists_register lists.sound uris
  refine ⟨?_, maps_of_lists distinct lists, ⟨fun uri => ?_, fun module => ?_⟩, ?_⟩
  · rintro files rfl
    exact ⟨rfl, rfl⟩
  · rw [lists.moduleOfUri? uris, relists.moduleOfUri? uris]
  · rw [lists.uriOfModule?, relists.uriOfModule?]
  · intro file member other member' apart module implemented implemented'
    have unequal : Path.components file ≠ Path.components other :=
      fun same => apart (List.inj_on_of_nodup_map once member member' same)
    exact (twins_of_modulePath? implemented implemented' (documents file member) (documents other member')).resolve_left
      unequal

/-- In a table that knows `::a` and `::b`, a directory is scanned that holds the two files of `::a` alone. -/
theorem scan_exact_moved :
    let paths := ["/a.sdoc", "/a/mod.sdoc"]
    let after := register (Workspace.pairWorkspace "" "").table (Workspace.pairLayout.modulesOf paths)
    (Workspace.Reachable {} (Workspace.pairWorkspace "" "") ∧ (paths.map Path.components).Nodup ∧
      ∀ path ∈ paths, Workspace.pairLayout.hasExtension path = true) ∧
    after.moduleOfUri? "file:///a/mod.sdoc" = some ⟨["a"]⟩ ∧ after.moduleOfUri? "file:///b.sdoc" = none ∧
    after.uriOfModule? (.parse "::a") = some "file:///a.sdoc" ∧ after.uriOfModule? (.parse "::b") = none ∧
    (Workspace.pairLayout.Twins "/a.sdoc" "/a/mod.sdoc" ∨ Workspace.pairLayout.Twins "/a/mod.sdoc" "/a.sdoc") := by
  intro paths after
  have reachable := Workspace.pairWorkspace_reachable {} "" ""
  have once : (paths.map Path.components).Nodup := by decide +kernel
  have documents : ∀ path ∈ paths, Workspace.pairLayout.hasExtension path = true := by decide +kernel
  obtain ⟨-, maps, -, twins⟩ := scan_exact reachable Workspace.pairLayout once documents
  have inner : Workspace.pairLayout.modulePath? "/a/mod.sdoc" = some ⟨["a"]⟩ := by decide +kernel
  refine ⟨⟨reachable, once, documents⟩, ?_, ?_, ?_, ?_, ?_⟩
  · have uri : Uri.ofPath "/a/mod.sdoc" = "file:///a/mod.sdoc" := by decide +kernel
    exact uri ▸ maps.file "/a/mod.sdoc" (by decide) ⟨["a"]⟩ inner
  · exact maps.elsewhere _ (by decide +kernel)
  · exact (maps.module "::a").trans (by decide +kernel)
  · exact (maps.module "::b").trans (by decide +kernel)
  · exact twins "/a.sdoc" (by decide) "/a/mod.sdoc" (by decide) (by decide) ⟨["a"]⟩ (by decide +kernel) inner

end Layout

end SchemaDoc
