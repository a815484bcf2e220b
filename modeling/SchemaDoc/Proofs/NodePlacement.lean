import SchemaDoc.Parser.Production
import SchemaDoc.Proofs.CursorReading

/-! Where nodes stand. A span lies between two cursors when its ends are places that the reader
passes on the way from one to the other; such ends never cut a character. Nodes are laid between
two cursors one behind the other, and a node made of them is well formed by its construction. -/

namespace SchemaDoc

def Cursor.Passes (first : Cursor) (offset : Nat) (last : Cursor) : Prop :=
  ∃ cursor, first ≤ cursor ∧ cursor ≤ last ∧ cursor.offset = offset

theorem Cursor.Passes.mono {first last outer behind : Cursor} {offset : Nat}
    (passes : first.Passes offset last) (before : outer ≤ first) (after : last ≤ behind) :
    outer.Passes offset behind := by
  obtain ⟨cursor, lower, upper, same⟩ := passes
  exact ⟨cursor, before.trans lower, upper.trans after, same⟩

namespace Span

theorem contains_iff {outer inner : Span} :
    outer.contains inner = true ↔ outer.start ≤ inner.start ∧ inner.stop ≤ outer.stop := by
  simp [contains]

structure Between (first last : Cursor) (span : Span) : Prop where
  start : first.Passes span.start last
  stop : first.Passes span.stop last
  ordered : span.start ≤ span.stop

theorem Between.mono {first last outer behind : Cursor} {span : Span}
    (between : span.Between first last) (before : outer ≤ first) (after : last ≤ behind) :
    span.Between outer behind :=
  ⟨between.start.mono before after, between.stop.mono before after, between.ordered⟩

theorem between_spanTo {first start stop last : Cursor} (before : first ≤ start)
    (inside : start ≤ stop) (after : stop ≤ last) : (start.spanTo stop).Between first last where
  start := ⟨start, before, inside.trans after, rfl⟩
  stop := ⟨stop, before.trans inside, after, rfl⟩
  ordered := Cursor.offset_le inside

theorem between_point {first last : Cursor} {offset : Nat} (passes : first.Passes offset last) :
    (point offset).Between first last := ⟨passes, passes, Nat.le_refl _⟩

theorem between_here {first cursor last : Cursor} (before : first ≤ cursor) (after : cursor ≤ last) :
    cursor.here.Between first last := between_point ⟨cursor, before, after, rfl⟩

theorem Between.bounds {first last : Cursor} {span : Span} (between : span.Between first last) :
    first.offset ≤ span.start ∧ span.stop ≤ last.offset := by
  obtain ⟨start, lower, _, atStart⟩ := between.start
  obtain ⟨stop, _, upper, atStop⟩ := between.stop
  have low := Cursor.offset_le lower
  have high := Cursor.offset_le upper
  omega

theorem Between.cover {first last : Cursor} {span other : Span} (between : span.Between first last)
    (also : other.Between first last) : (span.cover other).Between first last where
  start := by
    rcases Nat.le_total span.start other.start with earlier | later
    · simpa [Span.cover, Nat.min_eq_left earlier] using between.start
    · simpa [Span.cover, Nat.min_eq_right later] using also.start
  stop := by
    rcases Nat.le_total span.stop other.stop with earlier | later
    · simpa [Span.cover, Nat.max_eq_right earlier] using also.stop
    · simpa [Span.cover, Nat.max_eq_left later] using between.stop
  ordered := by
    have ordered := between.ordered
    simp only [Span.cover]
    omega

theorem contains_refl (span : Span) : span.contains span = true := by simp [contains]

theorem contains_trans {outer middle inner : Span} (first : outer.contains middle = true)
    (second : middle.contains inner = true) : outer.contains inner = true := by
  rw [contains_iff] at *
  omega

theorem cover_contains_left (span other : Span) : (span.cover other).contains span = true := by
  simp only [contains_iff, cover]
  omega

theorem cover_contains_right (span other : Span) : (span.cover other).contains other = true := by
  simp only [contains_iff, cover]
  omega

private theorem foldl_cover_contains (spans : List Span) (first : Span) :
    (spans.foldl cover first).contains first = true ∧
      ∀ span ∈ spans, (spans.foldl cover first).contains span = true := by
  induction spans generalizing first with
  | nil => exact ⟨contains_refl first, by simp⟩
  | cons span spans ih =>
    obtain ⟨start, rest⟩ := ih (first.cover span)
    refine ⟨contains_trans start (cover_contains_left _ _), ?_⟩
    intro other member
    rcases List.mem_cons.mp member with rfl | member
    · exact contains_trans start (cover_contains_right _ _)
    · exact rest other member

theorem coverAll_contains {fallback span : Span} {spans : List Span} (member : span ∈ spans) :
    (coverAll fallback spans).contains span = true := by
  cases spans with
  | nil => cases member
  | cons first spans =>
    obtain ⟨start, rest⟩ := foldl_cover_contains spans first
    rcases List.mem_cons.mp member with rfl | member
    · exact start
    · exact rest span member

private theorem foldl_cover_within {outer : Span} (spans : List Span) (first : Span)
    (start : outer.contains first = true) (rest : ∀ span ∈ spans, outer.contains span = true) :
    outer.contains (spans.foldl cover first) = true := by
  induction spans generalizing first with
  | nil => exact start
  | cons span spans ih =>
    rw [List.forall_mem_cons] at rest
    refine ih (first.cover span) ?_ rest.2
    have second := rest.1
    simp only [contains_iff, cover] at start second ⊢
    omega

theorem coverAll_between {first last : Cursor} {fallback : Span} {spans : List Span}
    (empty : spans = [] → fallback.Between first last) (each : ∀ span ∈ spans, span.Between first last) :
    (coverAll fallback spans).Between first last := by
  cases spans with
  | nil => exact empty rfl
  | cons span spans =>
    clear empty
    rw [List.forall_mem_cons] at each
    obtain ⟨start, rest⟩ := each
    simp only [coverAll]
    induction spans generalizing span with
    | nil => exact start
    | cons next spans ih =>
      rw [List.forall_mem_cons] at rest
      exact ih (span.cover next) (start.cover rest.1) rest.2

theorem eq_of_ends {span other : Span} (start : span.start = other.start) (stop : span.stop = other.stop) :
    span = other := by
  cases span
  cases other
  simp_all

theorem coverAll_eq {fallback cover : Span} {spans : List Span}
    (starts : ∃ span ∈ spans, span.start = cover.start) (stops : ∃ span ∈ spans, span.stop = cover.stop)
    (within : ∀ span ∈ spans, cover.contains span = true) : coverAll fallback spans = cover := by
  obtain ⟨head, isHead, atStart⟩ := starts
  obtain ⟨last, isLast, atStop⟩ := stops
  have lower : (coverAll fallback spans).contains head = true := coverAll_contains isHead
  have upper : (coverAll fallback spans).contains last = true := coverAll_contains isLast
  have bounded : cover.contains (coverAll fallback spans) = true := by
    cases spans with
    | nil => cases isHead
    | cons span spans =>
      rw [List.forall_mem_cons] at within
      exact foldl_cover_within spans span within.1 within.2
  rw [contains_iff] at lower upper bounded
  exact eq_of_ends (by omega) (by omega)

end Span

namespace Node

theorem mem_preorder {node inner : Node} :
    inner ∈ node.preorder ↔ inner = node ∨ inner ∈ forestPreorder node.children := by
  cases node
  simp [preorder]

theorem mem_forestPreorder {nodes : List Node} {inner : Node} :
    inner ∈ forestPreorder nodes ↔ ∃ node ∈ nodes, inner ∈ node.preorder := by
  induction nodes with
  | nil => simp [forestPreorder]
  | cons node nodes ih => simp [forestPreorder, ih]

theorem self_mem_preorder (node : Node) : node ∈ node.preorder := mem_preorder.mpr (.inl rfl)

/-- What holds all over a tree holds of its root and all over each child. -/
theorem forall_mem_preorder {motive : Node → Prop} {node : Node} :
    (∀ inner ∈ node.preorder, motive inner) ↔
      motive node ∧ ∀ child ∈ node.children, ∀ inner ∈ child.preorder, motive inner := by
  constructor
  · intro all
    refine ⟨all node node.self_mem_preorder, ?_⟩
    intro child member inner below
    exact all inner (mem_preorder.mpr (.inr (mem_forestPreorder.mpr ⟨child, member, below⟩)))
  · rintro ⟨own, children⟩ inner member
    rcases mem_preorder.mp member with rfl | below
    · exact own
    · obtain ⟨child, among, inside⟩ := mem_forestPreorder.mp below
      exact children child among inner inside

mutual

/-- What every node hands down to its children holds all over the tree. -/
theorem forall_preorder_of_handed {motive : Node → Prop} (handed : ∀ node, motive node → ∀ child ∈ node.children, motive child)
    {root : Node} (own : motive root) : ∀ node ∈ root.preorder, motive node := by
  cases root with
  | mk kind span role children =>
    exact forall_mem_preorder.mpr ⟨own, forall_forest_of_handed handed (handed _ own)⟩
termination_by structural root

theorem forall_forest_of_handed {motive : Node → Prop} (handed : ∀ node, motive node → ∀ child ∈ node.children, motive child)
    {roots : List Node} (each : ∀ root ∈ roots, motive root) : ∀ root ∈ roots, ∀ node ∈ root.preorder, motive node := by
  cases roots with
  | nil => simp
  | cons root roots =>
    rw [List.forall_mem_cons] at each ⊢
    exact ⟨forall_preorder_of_handed handed each.1, forall_forest_of_handed handed each.2⟩
termination_by structural roots

end

private theorem allWellFormed_iff (nodes : List Node) :
    allWellFormed nodes = true ↔ ∀ node ∈ nodes, node.isWellFormed = true := by
  induction nodes with
  | nil => simp [allWellFormed]
  | cons node nodes ih => simp [allWellFormed, ih]

theorem isWellFormed_iff {node : Node} :
    node.isWellFormed = true ↔
      (∀ span ∈ node.separators, node.span.contains span = true) ∧
      (∀ child ∈ node.children, node.span.contains child.span = true) ∧
      ordered node.children = true ∧ ∀ child ∈ node.children, child.isWellFormed = true := by
  cases node
  simp [isWellFormed, allWellFormed_iff, and_assoc]

/-- The spans that a node records: its own and those of its separators. -/
def recorded (node : Node) : List Span := node.span :: node.separators

/-- A well formed tree all of whose spans are read on the way from one cursor to another. -/
structure Lawful (first last : Cursor) (node : Node) : Prop where
  wellFormed : node.isWellFormed = true
  spans : ∀ inner ∈ node.preorder, ∀ span ∈ inner.recorded, span.Between first last

theorem Lawful.between {first last : Cursor} {node : Node} (lawful : node.Lawful first last) :
    node.span.Between first last := lawful.spans node node.self_mem_preorder _ (by simp [recorded])

theorem Lawful.mono {first last outer behind : Cursor} {node : Node} (lawful : node.Lawful first last)
    (before : outer ≤ first) (after : last ≤ behind) : node.Lawful outer behind :=
  ⟨lawful.wellFormed,
    fun inner member span recorded => (lawful.spans inner member span recorded).mono before after⟩

theorem Lawful.le {first last : Cursor} {node : Node} (lawful : node.Lawful first last) :
    first ≤ last := by
  obtain ⟨cursor, before, after, _⟩ := lawful.between.start
  exact before.trans after

theorem Lawful.tagged {first last : Cursor} {node : Node} (lawful : node.Lawful first last)
    (role : Role) : (node.tagged role).Lawful first last := by
  have inside := isWellFormed_iff.mp lawful.wellFormed
  have spans := forall_mem_preorder.mp lawful.spans
  exact ⟨isWellFormed_iff.mpr inside, forall_mem_preorder.mpr spans⟩

def Laid (first : Cursor) : List Node → Cursor → Prop
  | [], last => first ≤ last
  | node :: nodes, last => ∃ middle, node.Lawful first middle ∧ Laid middle nodes last

theorem laid_singleton {first last : Cursor} {node : Node} (lawful : node.Lawful first last) :
    Laid first [node] last := ⟨last, lawful, le_refl last⟩

theorem Laid.le {first last : Cursor} {nodes : List Node} (laid : Laid first nodes last) :
    first ≤ last := by
  induction nodes generalizing first with
  | nil => exact laid
  | cons node nodes ih =>
    obtain ⟨middle, lawful, rest⟩ := laid
    exact lawful.le.trans (ih rest)

theorem Laid.append {first middle last : Cursor} {nodes more : List Node}
    (before : Laid first nodes middle) (after : Laid middle more last) :
    Laid first (nodes ++ more) last := by
  induction nodes generalizing first with
  | nil =>
    cases more with
    | nil => exact le_trans before after
    | cons node more =>
      obtain ⟨stop, lawful, rest⟩ := after
      exact ⟨stop, lawful.mono before (le_refl stop), rest⟩
  | cons node nodes ih =>
    obtain ⟨stop, lawful, rest⟩ := before
    exact ⟨stop, lawful, ih rest⟩

theorem Laid.mono_right {first last behind : Cursor} {nodes : List Node}
    (laid : Laid first nodes last) (after : last ≤ behind) : Laid first nodes behind := by
  have rest : Laid last [] behind := after
  simpa using laid.append rest

theorem Laid.mem {first last : Cursor} {nodes : List Node} (laid : Laid first nodes last) {node : Node}
    (member : node ∈ nodes) : node.Lawful first last := by
  induction nodes generalizing first with
  | nil => cases member
  | cons head nodes ih =>
    obtain ⟨middle, lawful, rest⟩ := laid
    rcases List.mem_cons.mp member with rfl | member
    · exact lawful.mono (le_refl first) rest.le
    · exact (ih rest member).mono lawful.le (le_refl last)

theorem Laid.ordered {first last : Cursor} {nodes : List Node} (laid : Laid first nodes last) :
    ordered nodes = true := by
  induction nodes generalizing first with
  | nil => rfl
  | cons node nodes ih =>
    obtain ⟨middle, lawful, rest⟩ := laid
    have tail := ih rest
    cases nodes with
    | nil => rfl
    | cons next nodes =>
      obtain ⟨stop, follower, _⟩ := rest
      have upper := lawful.between.bounds.2
      have lower := follower.between.bounds.1
      simp only [Node.ordered, Bool.and_eq_true, decide_eq_true_eq]
      exact ⟨Nat.le_trans upper lower, tail⟩

/-- A node around nodes that are laid one behind the other. -/
theorem Laid.enclosed {first last : Cursor} {node : Node} (laid : Laid first node.children last)
    (between : ∀ span ∈ node.recorded, span.Between first last)
    (separators : ∀ span ∈ node.separators, node.span.contains span = true)
    (children : ∀ child ∈ node.children, node.span.contains child.span = true) :
    node.Lawful first last := by
  refine ⟨isWellFormed_iff.mpr ⟨separators, children, laid.ordered, ?_⟩, forall_mem_preorder.mpr ⟨between, ?_⟩⟩
  · exact fun child member => (laid.mem member).wellFormed
  · exact fun child member => (laid.mem member).spans

theorem Laid.covered {first last next : Cursor} {node : Node} (laid : Laid first node.children next)
    (before : first ≤ last) (after : last ≤ next) (span : node.span = first.spanTo last)
    (inside : ∀ child ∈ node.children, child.span.stop ≤ last.offset) (plain : node.separators = []) :
    node.Lawful first next := by
  apply laid.enclosed
  · intro own member
    rw [recorded, plain] at member
    obtain rfl := List.mem_singleton.mp member
    exact span ▸ Span.between_spanTo (le_refl first) before after
  · simp [plain]
  · intro child member
    rw [span]
    exact Span.contains_iff.mpr ⟨(laid.mem member).between.bounds.1, inside child member⟩

theorem lawful_leaf {first last : Cursor} {node : Node} (between : node.span.Between first last)
    (leaf : node.children = []) (plain : node.separators = []) : node.Lawful first last := by
  have start : first ≤ last := by
    obtain ⟨cursor, before, after, _⟩ := between.start
    exact before.trans after
  apply Laid.enclosed
  · rw [leaf]
    exact start
  · simpa [recorded, plain] using between
  · simp [plain]
  · simp [leaf]

end Node

end SchemaDoc
