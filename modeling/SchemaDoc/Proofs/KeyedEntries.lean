import Mathlib.Data.List.Nodup
import SchemaDoc.Entries

/-! Looking keys up in entries that are changed, added or dropped. -/

namespace SchemaDoc

section Lookup

variable {κ α : Type} [DecidableEq κ] {entries : List (κ × α)} {key : κ}

theorem mem_of_lookup {value : α} (found : entries.lookup key = some value) : (key, value) ∈ entries := by
  obtain ⟨before, after, rfl, -⟩ := List.lookup_eq_some_iff.mp found
  simp

theorem mem_iff_lookup (nodup : (entries.map Prod.fst).Nodup) {value : α} :
    (key, value) ∈ entries ↔ entries.lookup key = some value := by
  refine ⟨fun member => ?_, mem_of_lookup⟩
  induction entries with
  | nil => exact absurd member List.not_mem_nil
  | cons entry entries ih =>
    obtain ⟨fresh, others⟩ := List.nodup_cons.mp nodup
    rcases List.mem_cons.mp member with rfl | later
    · exact List.lookup_cons_self
    · have apart : key ≠ entry.1 := fun same => fresh (List.mem_map.mpr ⟨_, later, same⟩)
      rw [List.lookup_cons, beq_false_of_ne apart]
      exact ih others later

theorem lookup_map_entries {β : Type} (change : κ → α → β) (entries : List (κ × α)) (key : κ) :
    (entries.map fun entry => (entry.1, change entry.1 entry.2)).lookup key = (entries.lookup key).map (change key) := by
  induction entries with
  | nil => rfl
  | cons entry entries ih =>
    obtain ⟨other, value⟩ := entry
    by_cases same : key = other
    · simp [same]
    · simp [List.lookup_cons, beq_false_of_ne same, ih]

theorem lookup_adjust (key : κ) (change : α → α) (entries : List (κ × α)) (other : κ) :
    (adjust key change entries).lookup other =
      if other = key then (entries.lookup other).map change else entries.lookup other := by
  have inPlace : (fun entry : κ × α => if entry.1 = key then (entry.1, change entry.2) else entry) =
      fun entry => (entry.1, (if entry.1 = key then change else id) entry.2) := by
    funext entry
    by_cases same : entry.1 = key <;> simp [same]
  rw [adjust, inPlace, lookup_map_entries fun name => if name = key then change else id]
  by_cases same : other = key <;> simp [same]

theorem lookup_filter (nodup : (entries.map Prod.fst).Nodup) (keeps : α → Bool) (key : κ) :
    (entries.filter fun entry => keeps entry.2).lookup key = (entries.lookup key).filter keeps := by
  have kept : ((entries.filter fun entry => keeps entry.2).map Prod.fst).Nodup :=
    nodup.sublist (List.filter_sublist.map _)
  refine Option.ext fun value => ?_
  rw [← mem_iff_lookup kept, List.mem_filter, mem_iff_lookup nodup, Option.filter_eq_some_iff]

end Lookup

section Order

variable {κ α : Type} {order : κ → κ → Ordering} {entries : List (κ × α)} {key : κ}

def InOrder (order : κ → κ → Ordering) (entries : List (κ × α)) : Prop :=
  (entries.map Prod.fst).Pairwise fun first second => order first second = .lt

theorem ne_of_order [Std.LawfulEqCmp order] {first second : κ} (before : order first second = .lt) : first ≠ second := by
  rintro rfl
  have same : order first first = .eq := Std.ReflCmp.compare_self
  rw [same] at before
  cases before

theorem InOrder.nodup [Std.LawfulEqCmp order] (inOrder : InOrder order entries) : (entries.map Prod.fst).Nodup :=
  inOrder.imp ne_of_order

theorem InOrder.map {β : Type} (inOrder : InOrder order entries) (inner : α → β) :
    InOrder order (entries.map fun entry => (entry.1, inner entry.2)) := by
  rw [InOrder, List.map_map]
  exact inOrder

theorem InOrder.adjust [DecidableEq κ] (inOrder : InOrder order entries) (key : κ) (change : α → α) :
    InOrder order (adjust key change entries) := by
  rw [InOrder, map_fst_adjust]
  exact inOrder

theorem InOrder.before [Std.TransCmp order] {first : κ × α} (inOrder : InOrder order (first :: entries))
    (lower : order key first.1 = .lt) : ∀ other ∈ (first :: entries).map Prod.fst, order key other = .lt := by
  intro other member
  rcases List.mem_cons.mp member with rfl | later
  · exact lower
  · exact Std.TransCmp.lt_trans lower (List.rel_of_pairwise_cons inOrder later)

theorem mem_map_fst_upsert (fresh : α) (change : α → α) {other : κ}
    (member : other ∈ (upsert order key fresh change entries).map Prod.fst) : other = key ∨ other ∈ entries.map Prod.fst := by
  induction entries with
  | nil => exact .inl (List.mem_singleton.mp member)
  | cons first entries ih =>
    rw [upsert] at member
    split at member
    · exact List.mem_cons.mp member
    · exact .inr member
    · rcases List.mem_cons.mp member with here | later
      · exact .inr (here ▸ List.mem_cons_self)
      · exact (ih later).imp_right (List.mem_cons_of_mem _)

theorem InOrder.upsert [Std.TransCmp order] (inOrder : InOrder order entries) (key : κ) (fresh : α) (change : α → α) :
    InOrder order (upsert order key fresh change entries) := by
  induction entries with
  | nil => exact List.pairwise_singleton _ _
  | cons first entries ih =>
    obtain ⟨below, others⟩ := List.pairwise_cons.mp inOrder
    rw [SchemaDoc.upsert]
    split
    · next lower => exact List.pairwise_cons.mpr ⟨inOrder.before lower, inOrder⟩
    · exact inOrder
    · next higher =>
      refine List.pairwise_cons.mpr ⟨fun other member => ?_, ih others⟩
      rcases mem_map_fst_upsert fresh change member with here | later
      · rw [here]
        exact Std.OrientedCmp.gt_iff_lt.mp higher
      · exact below other later

theorem InOrder.lookup_upsert [DecidableEq κ] [Std.TransCmp order] [Std.LawfulEqCmp order] (inOrder : InOrder order entries)
    (key : κ) (fresh : α) (change : α → α) (other : κ) :
    (SchemaDoc.upsert order key fresh change entries).lookup other =
      if other = key then some (change ((entries.lookup key).getD fresh)) else entries.lookup other := by
  induction entries with
  | nil =>
    by_cases same : other = key
    · simp [SchemaDoc.upsert, same]
    · simp [SchemaDoc.upsert, List.lookup_cons, beq_false_of_ne same, same]
  | cons first entries ih =>
    obtain ⟨name, value⟩ := first
    rw [SchemaDoc.upsert]
    split
    · next lower =>
      have missing : ((name, value) :: entries).lookup key = none := by
        rw [List.lookup_eq_none_iff]
        exact fun entry member =>
          bne_iff_ne.mpr (ne_of_order (inOrder.before lower entry.1 (List.mem_map_of_mem member)))
      rw [missing, List.lookup_cons]
      by_cases same : other = key
      · simp [same]
      · simp [beq_false_of_ne same, same]
    · next same =>
      obtain rfl := Std.LawfulEqCmp.eq_of_compare same
      by_cases here : other = key
      · simp [here]
      · simp [List.lookup_cons, beq_false_of_ne here, here]
    · next higher =>
      have apart : key ≠ name := (ne_of_order (Std.OrientedCmp.gt_iff_lt.mp higher)).symm
      rw [List.lookup_cons, List.lookup_cons, List.lookup_cons, beq_false_of_ne apart, ih inOrder.of_cons]
      by_cases here : other = name
      · subst here
        simp [apart.symm]
      · simp [beq_false_of_ne here]

end Order

end SchemaDoc
