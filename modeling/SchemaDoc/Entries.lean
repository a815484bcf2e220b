/-!
Values by key, in a list of entries.
-/

namespace SchemaDoc

/-- Change the value of a key, if there is one. -/
def adjust {κ α : Type} [DecidableEq κ] (key : κ) (change : α → α) (entries : List (κ × α)) :
    List (κ × α) :=
  entries.map fun entry => if entry.1 = key then (entry.1, change entry.2) else entry

/-- Change the value of a key. A missing key gets its place in the order of keys, with a fresh value. -/
def upsert {κ α : Type} (order : κ → κ → Ordering) (key : κ) (fresh : α) (change : α → α) :
    List (κ × α) → List (κ × α)
  | [] => [(key, change fresh)]
  | (other, value) :: entries =>
    match order key other with
    | .lt => (key, change fresh) :: (other, value) :: entries
    | .eq => (other, change value) :: entries
    | .gt => (other, value) :: upsert order key fresh change entries

theorem map_fst_adjust {κ α : Type} [DecidableEq κ] (key : κ) (change : α → α) (entries : List (κ × α)) :
    (adjust key change entries).map Prod.fst = entries.map Prod.fst := by
  rw [adjust, List.map_map]
  refine List.map_congr_left fun entry _ => ?_
  rw [Function.comp_apply]
  split <;> rfl

end SchemaDoc
