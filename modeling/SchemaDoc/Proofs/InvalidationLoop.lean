import Mathlib.Data.List.Nodup
import Mathlib.Logic.Relation
import SchemaDoc.Workspace.Records

/-! The queue of an invalidation. What is marked or queued leads to the document that was edited, and what asked for a
marked document is marked or queued itself. Once nothing is queued, the marked documents are those that lead to it. -/

namespace SchemaDoc.Records

open Relation (ReflTransGen)

def unparseAll (records : Records) (uris : List String) : Records :=
  records.map fun entry => if entry.1 ∈ uris then (entry.1, { entry.2 with state := .unparsed }) else entry

theorem unparseAll_nil (records : Records) : records.unparseAll [] = records := by
  simp [unparseAll]

theorem map_fst_unparseAll (records : Records) (uris : List String) :
    (records.unparseAll uris).map Prod.fst = records.map Prod.fst := by
  rw [unparseAll, List.map_map]
  refine List.map_congr_left fun entry _ => ?_
  rw [Function.comp_apply]
  split <;> rfl

theorem unparse_unparseAll (records : Records) (uris : List String) (uri : String) :
    (records.unparseAll uris).unparse uri = records.unparseAll (uris ++ [uri]) := by
  rw [unparse, adjust, unparseAll, unparseAll, List.map_map]
  refine List.map_congr_left fun entry _ => ?_
  rw [Function.comp_apply]
  by_cases marked : entry.1 ∈ uris
  · rw [if_pos marked, if_pos (List.mem_append_left _ marked)]
    split <;> rfl
  · rw [if_neg marked]
    exact if_congr (by simp [marked]) rfl rfl

theorem dependents_unparseAll (records : Records) (uris : List String) (uri : String) :
    (records.unparseAll uris).dependents uri = records.dependents uri := by
  rw [dependents, dependents, unparseAll, List.filter_map, List.map_map]
  have fields : ∀ entry : String × FileRecord,
      (if entry.1 ∈ uris then (entry.1, { entry.2 with state := .unparsed }) else entry).1 = entry.1 ∧
        (if entry.1 ∈ uris then (entry.1, { entry.2 with state := .unparsed }) else entry).2.dependencies =
          entry.2.dependencies := by
    intro entry
    split <;> exact ⟨rfl, rfl⟩
  simp only [Function.comp_def, fields]

theorem mem_dependents {records : Records} {uri other : String} :
    uri ∈ records.dependents other ↔ ∃ record, (uri, record) ∈ records ∧ other ∈ record.dependencies := by
  simp [dependents]

/-- What is found by going back from a document to those that asked for it. -/
def Leads (records : Records) : String → String → Prop :=
  ReflTransGen fun uri other => uri ∈ records.dependents other

/-- The state of the loop, where `before` are the records at its start. -/
structure Spreading (before : Records) (uri : String) (records : Records) (queue marked : List String) : Prop where
  records : records = before.unparseAll marked
  nodup : marked.Nodup
  first : (marked ++ queue).head? = some uri
  leads : ∀ other ∈ marked ++ queue, before.Leads other uri
  closed : ∀ other ∈ marked, ∀ dependent ∈ before.dependents other, dependent ∈ marked ++ queue

variable {before records : Records} {uri current : String} {queue marked : List String}

theorem Spreading.start (before : Records) (uri : String) : Spreading before uri before [uri] [] where
  records := (unparseAll_nil before).symm
  nodup := List.nodup_nil
  first := rfl
  leads := by
    intro other queued
    rw [List.mem_singleton.mp queued]
    exact .refl
  closed := fun _ none => absurd none List.not_mem_nil

theorem Spreading.pass (spreading : Spreading before uri records (current :: queue) marked) (again : current ∈ marked) :
    Spreading before uri records queue marked where
  records := spreading.records
  nodup := spreading.nodup
  first := by
    obtain ⟨earliest, others, rfl⟩ := List.exists_cons_of_ne_nil (List.ne_nil_of_mem again)
    exact spreading.first
  leads := by
    intro other among
    apply spreading.leads
    rw [List.mem_append] at among ⊢
    exact among.imp_right (List.mem_cons_of_mem _)
  closed := by
    intro other member dependent asked
    have among := spreading.closed other member dependent asked
    simp only [List.mem_append, List.mem_cons] at among ⊢
    rcases among with earlier | rfl | later
    · exact .inl earlier
    · exact .inl again
    · exact .inr later

theorem Spreading.mark (spreading : Spreading before uri records (current :: queue) marked) (fresh : current ∉ marked) :
    Spreading before uri (records.unparse current) (queue ++ (records.unparse current).dependents current)
      (marked ++ [current]) := by
  have asked : (records.unparse current).dependents current = before.dependents current := by
    rw [spreading.records, unparse_unparseAll, dependents_unparseAll]
  rw [asked]
  have here : before.Leads current uri := spreading.leads current (by simp)
  constructor
  case records => rw [spreading.records, unparse_unparseAll]
  case nodup => exact List.concat_eq_append ▸ spreading.nodup.concat fresh
  case first =>
    have first := spreading.first
    rw [List.append_cons] at first
    rw [← List.append_assoc, List.head?_append, first]
    rfl
  case leads =>
    intro other among
    rw [← List.append_assoc, List.append_assoc marked, List.singleton_append, List.mem_append] at among
    rcases among with earlier | dependent
    · exact spreading.leads other earlier
    · exact here.head dependent
  case closed =>
    intro other member dependent depends
    rw [← List.append_assoc, List.append_assoc marked, List.singleton_append, List.mem_append]
    rcases List.mem_append.mp member with earlier | new
    · exact .inl (spreading.closed other earlier dependent depends)
    · rw [List.mem_singleton.mp new] at depends
      exact .inr depends

theorem Spreading.run (spreading : Spreading before uri records queue marked) :
    Spreading before uri (invalidateFrom records queue marked).2 [] (invalidateFrom records queue marked).1 := by
  fun_induction invalidateFrom records queue marked with
  | case1 records marked => exact spreading
  | case2 records marked current queue again ih => exact ih (spreading.pass again)
  | case3 records marked current queue fresh unparsed ih => exact ih (spreading.mark fresh)

/-- The loop over the records from one document. -/
theorem spreading_invalidateFrom (records : Records) (uri : String) :
    Spreading records uri (invalidateFrom records [uri] []).2 [] (invalidateFrom records [uri] []).1 :=
  (Spreading.start records uri).run

/-- With nothing queued, no document that leads there is missing. -/
theorem Spreading.mem_iff (spreading : Spreading before uri records [] marked) {other : String} :
    other ∈ marked ↔ before.Leads other uri := by
  have leads := spreading.leads
  have closed := spreading.closed
  have first := spreading.first
  rw [List.append_nil] at leads closed first
  refine ⟨leads other, fun found => ?_⟩
  induction found using ReflTransGen.head_induction_on with
  | refl => exact List.mem_of_mem_head? first
  | head asked _ ih => exact closed _ ih _ asked

end SchemaDoc.Records
