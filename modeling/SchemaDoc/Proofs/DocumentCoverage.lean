import SchemaDoc.Proofs.DocumentOutline

/-! What the tree of a text says about the text. Every span of the tree and of the problems is a
part of the text, and no part of the text is lost: what is neither a declaration nor a reported line
is trivia. -/

namespace SchemaDoc

/-- A part of a text: its ends are in order and cut no character. -/
structure Span.InText (text : String) (span : Span) : Prop where
  ordered : span.start ≤ span.stop
  bounded : span.stop ≤ text.utf8ByteSize
  startValid : (⟨span.start⟩ : String.Pos.Raw).IsValid text
  stopValid : (⟨span.stop⟩ : String.Pos.Raw).IsValid text

def Span.Apart (first second : Span) : Prop := first.stop ≤ second.start ∨ second.stop ≤ first.start

theorem Cursor.reads_of_split {text : String} {before after : List Char} (split : text.toList = before ++ after) :
    (ofText text).Reads before ⟨text.utf8ByteSize, byteLength before, after⟩ :=
  ⟨split, (Nat.zero_add _).symm, rfl⟩

/-- The reader only stops between two characters. -/
theorem Cursor.valid_of_le {text : String} {cursor : Cursor} (behind : ofText text ≤ cursor) :
    (⟨cursor.offset⟩ : String.Pos.Raw).IsValid text ∧ cursor.offset ≤ text.utf8ByteSize := by
  obtain ⟨taken, reads⟩ := behind
  have split : text = String.ofList taken ++ String.ofList cursor.rest := by
    apply String.toList_injective
    rw [String.toList_append, String.toList_ofList, String.toList_ofList]
    exact reads.rest
  have moved : cursor.offset = (String.ofList taken).utf8ByteSize := by
    rw [← byteLength_toList, String.toList_ofList, reads.offset]
    exact Nat.zero_add _
  refine ⟨String.Pos.Raw.isValid_iff_exists_append.mpr ⟨_, _, split, ?_⟩, ?_⟩
  · rw [moved]
    rfl
  · rw [moved, split, String.utf8ByteSize_append]
    exact Nat.le_add_right _ _

theorem Span.Between.inText {text : String} {last : Cursor} {span : Span}
    (between : span.Between (Cursor.ofText text) last) : span.InText text := by
  obtain ⟨start, behind, _, atStart⟩ := between.start
  obtain ⟨stop, also, _, atStop⟩ := between.stop
  have first := Cursor.valid_of_le behind
  have second := Cursor.valid_of_le also
  rw [atStart] at first
  rw [atStop] at second
  exact ⟨between.ordered, second.2, first.1, second.1⟩

/-- The whole text is read. -/
theorem parse_outline (text : String) (trailing : TrailingPolicy) :
    ∃ found, Parser.Outline (.ofText text) found ∧ found.next.rest = [] ∧
      parse text trailing = ⟨⟨.document, ⟨0, text.utf8ByteSize⟩, none, found.nodes⟩, found.errors⟩ := by
  have enough : byteLength (Cursor.ofText text).rest < (Cursor.ofText text).remaining := by
    simp only [Cursor.ofText, Cursor.remaining, byteLength_toList]
    omega
  obtain ⟨outline, done⟩ := Parser.declarations_outline trailing _ _ enough
  exact ⟨_, outline, done, rfl⟩

/-- Every text has a well formed tree whose root spans the text. All spans of the tree, with those of
the separators, and all spans of the problems are parts of the text. -/
theorem parse_wellFormed (text : String) (trailing : TrailingPolicy) :
    (parse text trailing).node.kind = .document ∧
    (parse text trailing).node.span = ⟨0, text.utf8ByteSize⟩ ∧
    (parse text trailing).node.isWellFormed = true ∧
    (∀ node ∈ (parse text trailing).node.preorder, ∀ span ∈ node.recorded, span.InText text) ∧
    ∀ diagnostic ∈ (parse text trailing).errors, diagnostic.span.InText text := by
  obtain ⟨found, outline, done, result⟩ := parse_outline text trailing
  rw [result]
  have size : found.next.offset = text.utf8ByteSize := by
    have whole := Cursor.offset_add_rest outline.laid.le
    simpa [done, Cursor.ofText, byteLength_toList] using whole
  have root : Node.Lawful (.ofText text) found.next ⟨.document, ⟨0, text.utf8ByteSize⟩, none, found.nodes⟩ := by
    refine outline.laid.covered outline.laid.le (le_refl _) ?_ ?_ rfl
    · simp [Cursor.spanTo, size, Cursor.ofText]
    · intro child member
      exact (outline.laid.mem member).between.bounds.2
  refine ⟨rfl, rfl, root.wellFormed, ?_, ?_⟩
  · intro node member span recorded
    exact (root.spans node member span recorded).inText
  · intro diagnostic member
    exact (outline.errors diagnostic member).inText

namespace Parser

theorem Tiles.bounds {cursor next : Cursor} {pieces : List Span} (tiles : Tiles cursor pieces next) :
    ∀ piece ∈ pieces, cursor.offset ≤ piece.start ∧ piece.start < piece.stop := by
  induction tiles with
  | nil => simp
  | cons skips inside some _ ih =>
    intro piece member
    have before := Cursor.offset_le skips.le
    rcases List.mem_cons.mp member with rfl | member
    · exact ⟨before, some⟩
    · obtain ⟨lower, nonempty⟩ := ih piece member
      exact ⟨by omega, nonempty⟩

theorem Tiles.apart {cursor next : Cursor} {pieces : List Span} (tiles : Tiles cursor pieces next) :
    pieces.Pairwise Span.Apart := by
  induction tiles with
  | nil => exact .nil
  | cons _ _ _ more ih =>
    refine .cons ?_ ih
    intro piece member
    exact .inl (more.bounds piece member).1

/-- What lies between two neighbouring pieces is trivia, and so is what lies in front of the first
and behind the last. -/
theorem Tiles.gap {origin cursor next low high : Cursor} {pieces : List Span} (tiles : Tiles cursor pieces next)
    (done : next.rest = []) (start : origin ≤ cursor) (toLow : origin ≤ low) (toHigh : origin ≤ high)
    (ordered : low.offset ≤ high.offset)
    (starts : low.offset = cursor.offset ∨ ∃ piece ∈ pieces, piece.stop = low.offset)
    (stops : high.rest = [] ∨ ∃ piece ∈ pieces, piece.start = high.offset)
    (outside : ∀ piece ∈ pieces, piece.stop ≤ low.offset ∨ high.offset ≤ piece.start) : low.Skips high := by
  induction tiles with
  | nil skips =>
    obtain rfl : low = _ := Cursor.eq_of_offset toLow start (by simpa using starts)
    have finished : high.rest = [] := by simpa using stops
    have whole := Cursor.offset_add_rest toHigh
    have also := Cursor.offset_add_rest (start.trans skips.le)
    rw [finished, byteLength_nil] at whole
    rw [done, byteLength_nil] at also
    obtain rfl : high = _ := Cursor.eq_of_offset toHigh (start.trans skips.le) (by omega)
    exact skips
  | @cons cursor first last next pieces skips inside some more ih =>
    have toFirst := start.trans skips.le
    have toLast := toFirst.trans inside
    have lead := Cursor.offset_le skips.le
    simp only [List.exists_mem_cons_iff, List.forall_mem_cons, Cursor.spanTo] at starts stops outside
    rcases outside.1 with behind | ahead
    · refine ih done toLast ?_ ?_ outside.2
      · rcases starts with same | same | later
        · omega
        · exact .inl same.symm
        · exact .inr later
      · rcases stops with finished | same | later
        · exact .inl finished
        · omega
        · exact .inr later
    · have atStart : low.offset = cursor.offset := by
        rcases starts with same | same | ⟨piece, member, same⟩
        · exact same
        · omega
        · have bounds := more.bounds piece member
          omega
      have atStop : high.offset = first.offset := by
        rcases stops with finished | same | ⟨piece, member, same⟩
        · have whole := Cursor.offset_add_rest toHigh
          have also := Cursor.offset_add_rest (toLast.trans more.le)
          have ends := Cursor.offset_le more.le
          rw [finished, byteLength_nil] at whole
          rw [done, byteLength_nil] at also
          omega
        · exact same.symm
        · have bounds := more.bounds piece member
          omega
      rw [Cursor.eq_of_offset toLow start atStart, Cursor.eq_of_offset toHigh toFirst atStop]
      exact skips

end Parser

/-- No text is lost. The declarations and the lines that are reported as starting none are parts of
the text that do not overlap. A gap that reaches from one of them, or from the start of the text, to
the next one, or to the end of the text, holds nothing but blanks and line comments. -/
theorem parse_accounts_for_text (text : String) (trailing : TrailingPolicy) :
    let result := parse text trailing
    let pieces := Parser.accounted result.node.children result.errors
    pieces.Pairwise Span.Apart ∧ (∀ piece ∈ pieces, piece.start < piece.stop) ∧
    ∀ before gap after, text.toList = before ++ (gap ++ after) →
      (before = [] ∨ ∃ piece ∈ pieces, piece.stop = byteLength before) →
      (after = [] ∨ ∃ piece ∈ pieces, piece.start = byteLength before + byteLength gap) →
      (∀ piece ∈ pieces, piece.stop ≤ byteLength before ∨ byteLength before + byteLength gap ≤ piece.start) →
      Trivia after gap := by
  obtain ⟨found, outline, done, result⟩ := parse_outline text trailing
  obtain ⟨pieces, tiles, same⟩ := outline.tiles
  rw [result]
  dsimp only
  simp only [← same.mem_iff]
  refine ⟨same.pairwise tiles.apart (fun apart => apart.symm), fun piece member => (tiles.bounds piece member).2, ?_⟩
  intro before gap after split starts stops outside
  have toLow := Cursor.reads_of_split split
  have toHigh : (Cursor.ofText text).Reads (before ++ gap) ⟨text.utf8ByteSize, byteLength (before ++ gap), after⟩ :=
    Cursor.reads_of_split (by simpa using split)
  have skips := tiles.gap done (le_refl _) toLow.le toHigh.le (by simp) ?_ (by simpa using stops) (by simpa using outside)
  · obtain ⟨taken, reads, trivia⟩ := skips
    have whole : gap = taken := List.append_cancel_right reads.rest
    exact whole ▸ trivia
  · rcases starts with rfl | piece
    · exact .inl rfl
    · exact .inr piece

end SchemaDoc
