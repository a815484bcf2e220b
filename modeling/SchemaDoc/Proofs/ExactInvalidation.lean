import SchemaDoc.Proofs.SoundInvalidation

/-! Invalidating a document marks exactly the documents from which it is reached along recorded dependencies, whatever
the dependencies are and in whatever order the records are kept. -/

namespace SchemaDoc.Workspace

open Relation (ReflTransGen)

/-- No document has two records. -/
def Keyed (workspace : Workspace) : Prop := (workspace.records.map Prod.fst).Nodup

/-- The records of every reachable workspace are kept by uri. -/
theorem Reachable.keyed {setup : Setup} {workspace : Workspace} (reachable : Reachable setup workspace) :
    workspace.Keyed := by
  refine reachable.invariant Keyed ?_ ?_ ?_ ?_ ?_
  · exact List.nodup_nil
  · exact fun _ _ _ keyed => keyed
  · exact fun _ _ keyed => keyed
  · intro workspace files uri
    apply loadWithin_keeps
    · intro before after _ records keyed
      rw [Keyed, records]
      exact keyed
    · intro workspace document errors keyed
      refine List.nodup_cons.mpr ⟨?_, keyed.sublist (List.filter_sublist.map _)⟩
      intro again
      obtain ⟨entry, listed, same⟩ := List.mem_map.mp again
      simp [same] at listed
    · intro workspace uri change keyed
      rw [Keyed, modifyRecord, map_fst_adjust]
      exact keyed
    · exact fun _ _ _ _ keyed => keyed
  · intro workspace uri keyed
    rw [Keyed, records_invalidate, Records.map_fst_unparseAll]
    exact keyed

theorem Keyed.record?_eq_some {workspace : Workspace} (keyed : workspace.Keyed) {uri : String} {record : FileRecord} :
    workspace.record? uri = some record ↔ (uri, record) ∈ workspace.records :=
  (mem_iff_lookup keyed).symm

theorem Keyed.askedFor_iff {workspace : Workspace} (keyed : workspace.Keyed) {uri other : String} :
    workspace.AskedFor uri other ↔ ∃ record, (uri, record) ∈ workspace.records ∧ other ∈ record.dependencies := by
  simp [AskedFor, dependencies?, keyed.record?_eq_some]

theorem Keyed.leads_iff {workspace : Workspace} (keyed : workspace.Keyed) {uri other : String} :
    workspace.records.Leads uri other ↔ workspace.Reaches uri other := by
  have asked : (fun uri other => uri ∈ workspace.records.dependents other) = workspace.AskedFor := by
    funext uri other
    rw [Records.mem_dependents, keyed.askedFor_iff]
  rw [Records.Leads, Reaches, asked]

theorem Keyed.mem_invalidate {workspace : Workspace} (keyed : workspace.Keyed) {uri other : String} :
    other ∈ (workspace.invalidate uri).1 ↔ workspace.Reaches other uri :=
  (Records.spreading_invalidateFrom workspace.records uri).mem_iff.trans keyed.leads_iff

section Order

variable {workspace : Workspace} {shuffled : List (String × FileRecord)} (keyed : workspace.Keyed)
  (same : shuffled.Perm workspace.records)

include keyed same

theorem Keyed.perm : ({ workspace with records := shuffled } : Workspace).Keyed :=
  (same.map Prod.fst).nodup_iff.mpr keyed

/-- What was asked for is on record, wherever the record stands. -/
theorem reaches_perm (uri other : String) :
    ({ workspace with records := shuffled } : Workspace).Reaches uri other ↔ workspace.Reaches uri other := by
  have asked : ({ workspace with records := shuffled } : Workspace).AskedFor = workspace.AskedFor := by
    funext uri other
    simp only [(keyed.perm same).askedFor_iff, keyed.askedFor_iff, same.mem_iff]
  rw [Reaches, Reaches, asked]

theorem invalidate_perm (uri : String) :
    (({ workspace with records := shuffled } : Workspace).invalidate uri).1.Perm (workspace.invalidate uri).1 ∧
      (({ workspace with records := shuffled } : Workspace).invalidate uri).2.records.Perm
        (workspace.invalidate uri).2.records := by
  have shuffledKeyed := keyed.perm same
  have marked : ∀ other, other ∈ (({ workspace with records := shuffled } : Workspace).invalidate uri).1 ↔
      other ∈ (workspace.invalidate uri).1 := by
    intro other
    rw [shuffledKeyed.mem_invalidate, keyed.mem_invalidate, reaches_perm keyed same]
  constructor
  · apply (List.perm_ext_iff_of_nodup _ _).mpr marked
    · exact (Records.spreading_invalidateFrom shuffled uri).nodup
    · exact (Records.spreading_invalidateFrom workspace.records uri).nodup
  · rw [records_invalidate, records_invalidate, Records.unparseAll, Records.unparseAll]
    simp only [marked]
    exact same.map _

end Order

/-- What it is to invalidate a document: those that reach it are marked, each once and the document first, and only
the state of their records changes. -/
structure Invalidates (uri : String) (before : Workspace) (marked : List String) (after : Workspace) : Prop where
  nodup : marked.Nodup
  first : marked.head? = some uri
  exact : ∀ other, other ∈ marked ↔ before.Reaches other uri
  records : after.records = before.records.map fun entry =>
    if entry.1 ∈ marked then (entry.1, { entry.2 with state := .unparsed }) else entry
  rest : after = { before with records := after.records }

/-- Invalidating a document is exact, whatever the dependencies are and in whatever order the records are kept. -/
theorem invalidate_exact {workspace : Workspace} (keyed : workspace.Keyed) (uri : String) :
    Invalidates uri workspace (workspace.invalidate uri).1 (workspace.invalidate uri).2 ∧
      ∀ shuffled : List (String × FileRecord), shuffled.Perm workspace.records →
        let other := ({ workspace with records := shuffled } : Workspace).invalidate uri
        other.1.Perm (workspace.invalidate uri).1 ∧ other.2.records.Perm (workspace.invalidate uri).2.records := by
  refine ⟨?_, fun shuffled same => invalidate_perm keyed same uri⟩
  have spreading := Records.spreading_invalidateFrom workspace.records uri
  constructor
  case nodup => exact spreading.nodup
  case first => exact (List.append_nil (workspace.invalidate uri).1) ▸ spreading.first
  case exact => exact fun other => keyed.mem_invalidate
  case records => exact workspace.records_invalidate uri
  case rest => rfl

/-- Three documents that need each other in a circle, and the one in the middle is edited. -/
theorem invalidate_exact_chain :
    let workspace := (chainWorkspace.checkAll {}).2
    workspace.Keyed ∧ workspace.dependencies? "file:///c.sdoc" = some ["file:///a.sdoc"] ∧
      (workspace.invalidate "file:///b.sdoc").1 = ["file:///b.sdoc", "file:///a.sdoc", "file:///c.sdoc"] ∧
      Invalidates "file:///b.sdoc" workspace (workspace.invalidate "file:///b.sdoc").1
        (workspace.invalidate "file:///b.sdoc").2 := by
  intro workspace
  have reachable : Reachable {} workspace := by
    have registered := (Reachable.new : Reachable {} {}).layout pairLayout chainFiles
    rw [registerLayout_chain] at registered
    exact (registered.edit chainWorkspace.documents).checkAll {}
  exact ⟨reachable.keyed, by decide +kernel, by decide +kernel, (invalidate_exact reachable.keyed _).1⟩

end SchemaDoc.Workspace
