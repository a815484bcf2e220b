import SchemaDoc.Diagnostic
import SchemaDoc.Entries
import SchemaDoc.Storage.Documents
import SchemaDoc.Tree.Node

/-!
What is known about documents from their last checks. A document goes from unparsed to checked; while
it is on the way it is in progress, and asking for it again is a circle. An edit sends a document and
all that depend on it back to the start of that way.
-/

namespace SchemaDoc

/-- How far the processing of a document is. -/
inductive FileState where
  | unparsed
  | parsed
  | hoisted
  | checking
  | checked
  deriving DecidableEq, Repr, Inhabited

namespace FileState

def name : FileState → String
  | unparsed => "unparsed"
  | parsed => "parsed"
  | hoisted => "hoisted"
  | checking => "checking"
  | checked => "checked"

def isInProgress : FileState → Bool
  | parsed | hoisted | checking => true
  | unparsed | checked => false

end FileState

/-- What is known about a document from its last check. -/
structure FileRecord where
  version : Int
  text : String
  state : FileState
  /-- The tree, once the check is over. -/
  node : Option Node := none
  parseErrors : List Diagnostic := []
  errors : List Diagnostic := []
  /-- The documents that the check asked for, in order and each once. -/
  dependencies : List String := []
  deriving Inhabited

/-- Whether the last check is over and ran on this document as it is. -/
def FileRecord.isCurrent (record : FileRecord) (document : TextDocument) : Bool :=
  record.state == .checked && record.version == document.version && record.text == document.text

/-- The records by uri, each uri once. -/
abbrev Records := List (String × FileRecord)

namespace Records

/-- The documents on record that asked for a document. -/
def dependents (records : Records) (uri : String) : List String :=
  (records.filter fun entry => entry.2.dependencies.contains uri).map Prod.fst

/-- Have a document checked again, if it is on record. -/
def unparse (records : Records) (uri : String) : Records :=
  adjust uri (fun record => { record with state := .unparsed }) records

theorem map_fst_unparse (records : Records) (uri : String) :
    (records.unparse uri).map Prod.fst = records.map Prod.fst :=
  map_fst_adjust uri _ records

/-- What is left to do: the documents on record that are not marked, each with all that marking it may
queue, and those that are queued. A queued one that is not on record brings what marking it may queue. -/
def pending (uris queue marked : List String) : Nat :=
  (uris.filter (· ∉ marked)).length * (uris.length + 1) + queue.length +
    (queue.filter (· ∉ uris)).length * uris.length

theorem pending_pass (uris queue marked : List String) (uri : String) :
    pending uris queue marked < pending uris (uri :: queue) marked := by
  have queued : (queue.filter (· ∉ uris)).length ≤ ((uri :: queue).filter (· ∉ uris)).length :=
    ((List.sublist_cons_self uri queue).filter _).length_le
  have more := Nat.mul_le_mul_right uris.length queued
  rw [pending, pending, List.length_cons]
  omega

/-- Marking a document weighs more than all that it has queued. -/
theorem pending_mark {uris marked more : List String} {uri : String} (fresh : uri ∉ marked)
    (known : ∀ other ∈ more, other ∈ uris) (few : more.length ≤ uris.length) (queue : List String) :
    pending uris (queue ++ more) (marked ++ [uri]) < pending uris (uri :: queue) marked := by
  have split : (uris.filter (· ∉ marked ++ [uri])) = (uris.filter (· ∉ marked)).filter (· ≠ uri) := by
    rw [List.filter_filter]
    exact List.filter_congr fun other _ => by simp [and_comm]
  have recorded : more.filter (· ∉ uris) = [] :=
    List.filter_eq_nil_iff.mpr fun other member => by simpa using known other member
  rw [pending, pending, split, List.filter_append, recorded, List.append_nil, List.length_append, List.length_cons,
    List.filter_cons]
  by_cases member : uri ∈ uris
  · have fewer : ((uris.filter (· ∉ marked)).filter (· ≠ uri)).length + 1 ≤ (uris.filter (· ∉ marked)).length :=
      List.length_filter_lt_length_iff_exists.mpr ⟨uri, List.mem_filter.mpr ⟨member, by simpa using fresh⟩, by simp⟩
    have less := Nat.mul_le_mul_right (uris.length + 1) fewer
    rw [Nat.succ_mul] at less
    rw [if_neg (by simpa using member)]
    omega
  · have less := Nat.mul_le_mul_right (uris.length + 1)
      (List.length_filter_le (fun other => decide (other ≠ uri)) (uris.filter (· ∉ marked)))
    rw [if_pos (by simpa using member), List.length_cons, Nat.succ_mul]
    omega

/-- Mark what is queued and queue what asked for it, until nothing is queued. A document that is
marked already is passed over. -/
def invalidateFrom (records : Records) (queue marked : List String) : List String × Records :=
  match queue with
  | [] => (marked, records)
  | current :: queue =>
    if current ∈ marked then invalidateFrom records queue marked
    else
      let unparsed := records.unparse current
      invalidateFrom unparsed (queue ++ unparsed.dependents current) (marked ++ [current])
termination_by pending (records.map Prod.fst) queue marked
decreasing_by
  · exact pending_pass _ _ _ _
  · next fresh =>
    rw [map_fst_unparse]
    refine pending_mark fresh (fun other member => ?_) ?_ queue
    · obtain ⟨entry, listed, rfl⟩ := List.mem_map.mp member
      rw [← map_fst_unparse records current]
      exact List.mem_map_of_mem (List.mem_filter.mp listed).1
    · rw [dependents, List.length_map, ← map_fst_unparse records current, List.length_map]
      exact List.length_filter_le _ _

end Records

end SchemaDoc
