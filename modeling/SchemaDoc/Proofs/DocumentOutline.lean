import SchemaDoc.Proofs.DeclarationLaws

/-! The outline of a document. One step of the reader takes a declaration, or doc comments that stand
alone and the line behind them; each is a piece of the text with nothing but trivia in front of it.
The steps go on until the text is used up. -/

namespace SchemaDoc

namespace Parser

/-- The pieces follow each other from one cursor to another, none is empty, and what lies outside of
them is trivia. -/
inductive Tiles : Cursor → List Span → Cursor → Prop where
  | nil {cursor next} (skips : cursor.Skips next) : Tiles cursor [] next
  | cons {cursor first last next pieces} (skips : cursor.Skips first) (inside : first ≤ last)
      (some : first.offset < last.offset) (more : Tiles last pieces next) :
      Tiles cursor (first.spanTo last :: pieces) next

theorem Tiles.le {cursor next : Cursor} {pieces : List Span} (tiles : Tiles cursor pieces next) :
    cursor ≤ next := by
  induction tiles with
  | nil skips => exact skips.le
  | cons skips inside _ _ ih => exact skips.le.trans (inside.trans ih)

theorem Tiles.lead {cursor start next : Cursor} {pieces : List Span} (tiles : Tiles start pieces next)
    (skips : cursor.Skips start) : Tiles cursor pieces next := by
  cases tiles with
  | nil trivia => exact .nil (skips.trans trivia)
  | cons trivia inside some more => exact .cons (skips.trans trivia) inside some more

theorem Tiles.append {cursor middle next : Cursor} {pieces more : List Span}
    (before : Tiles cursor pieces middle) (after : Tiles middle more next) : Tiles cursor (pieces ++ more) next := by
  induction before with
  | nil skips => exact after.lead skips
  | cons skips inside some _ ih => exact .cons skips inside some (ih after)

/-- Only lines that start no declaration are reported with this message. -/
def isStray (diagnostic : Diagnostic) : Bool := diagnostic.message == Message.expectedDeclaration.render []

/-- The pieces of a text that are accounted for: declarations, and lines that start none. -/
def accounted (nodes : List Node) (errors : List Diagnostic) : List Span :=
  nodes.map Node.span ++ (errors.filter isStray).map Diagnostic.span

theorem accounted_append (nodes more : List Node) (errors others : List Diagnostic) :
    (accounted nodes errors ++ accounted more others).Perm (accounted (nodes ++ more) (errors ++ others)) := by
  simp only [accounted, List.map_append, List.filter_append, List.append_assoc]
  refine List.Perm.append_left _ ?_
  rw [← List.append_assoc, ← List.append_assoc]
  exact List.perm_append_comm.append_right _

structure Outline (cursor : Cursor) (fragment : Fragment) : Prop where
  laid : Node.Laid cursor fragment.nodes fragment.next
  errors : ∀ diagnostic ∈ fragment.errors, diagnostic.span.Between cursor fragment.next
  tiles : ∃ pieces, Tiles cursor pieces fragment.next ∧ pieces.Perm (accounted fragment.nodes fragment.errors)

theorem outline_empty {cursor next : Cursor} (skips : cursor.Skips next) : Outline cursor (.empty next) :=
  ⟨skips.le, by simp [Fragment.empty], [], .nil skips, .refl _⟩

theorem Outline.lead {cursor start : Cursor} {fragment : Fragment} (outline : Outline start fragment)
    (skips : cursor.Skips start) : Outline cursor fragment := by
  have nothing : Node.Laid cursor [] start := skips.le
  obtain ⟨pieces, tiles, same⟩ := outline.tiles
  refine ⟨nothing.append outline.laid, ?_, pieces, tiles.lead skips, same⟩
  intro diagnostic member
  exact (outline.errors diagnostic member).mono skips.le (le_refl _)

theorem Outline.andThen {cursor : Cursor} {first : Fragment} {step : Cursor → Fragment}
    (outline : Outline cursor first) (also : Outline first.next (step first.next)) :
    Outline cursor (first.andThen step) := by
  obtain ⟨pieces, tiles, same⟩ := outline.tiles
  obtain ⟨more, onward, alike⟩ := also.tiles
  refine ⟨outline.laid.append also.laid, ?_, pieces ++ more, tiles.append onward, ?_⟩
  · intro diagnostic member
    rcases List.mem_append.mp member with member | member
    · exact (outline.errors diagnostic member).mono (le_refl cursor) also.laid.le
    · exact (also.errors diagnostic member).mono outline.laid.le (le_refl _)
  · exact (same.append alike).trans (accounted_append _ _ _ _)

/-- No problem inside of a declaration is taken for a line that starts none. -/
private theorem filter_isStray_inside {first last : Cursor} {errors : List Diagnostic}
    (inside : ∀ diagnostic ∈ errors, diagnostic.Inside first last) : errors.filter isStray = [] := by
  rw [List.filter_eq_nil_iff]
  intro diagnostic member
  simpa [isStray] using (inside diagnostic member).inner

theorem declaration_outline {trailing : TrailingPolicy} {doc : Option Node} {cursor behind : Cursor} {parsed : Parsed}
    (read : declaration trailing doc behind = some parsed)
    (docs : Fragment.Sound cursor { nodes := doc.toList.map fun node => node.tagged .doc, next := behind }) :
    Outline cursor { nodes := [parsed.node], errors := parsed.errors, next := parsed.next } ∧
      cursor.offset < parsed.next.offset := by
  obtain ⟨lawful, visible⟩ := declaration_lawful read docs
  obtain ⟨first, last, before, inside, after, span⟩ := lawful.frame
  rw [span] at visible
  have start := Cursor.offset_le before.le
  have stop := Cursor.offset_le after.le
  have advances : first.offset < last.offset := visible
  refine ⟨⟨Node.laid_singleton lawful.node, ?_, [first.spanTo last], ?_, ?_⟩, by omega⟩
  · intro diagnostic member
    exact (lawful.errors diagnostic member).between
  · exact .cons before inside advances (.nil after)
  · simp [accounted, span, filter_isStray_inside lawful.errors]

theorem looseDoc_outline {cursor next : Cursor} {doc : Node} (found : cursor.readDocComments? = some (doc, next)) :
    Outline cursor (looseDoc (some doc) next) := by
  have sound := Fragment.sound_docComments found
  obtain ⟨text, last, rfl, before, advances, skips⟩ := Cursor.readDocComments?_reads found
  have between : (cursor.spanTo last).Between cursor next :=
    Span.between_spanTo (le_refl cursor) before skips.le
  refine ⟨sound.lawful.laid, ?_, [cursor.spanTo last], .cons (.refl cursor) before advances (.nil skips), ?_⟩
  · intro diagnostic member
    obtain rfl := List.mem_singleton.mp member
    exact between
  · have warned : isStray ((Diagnostic.ofMessage .docCommentNotAttached [] (cursor.spanTo last)).withSeverity
        .warning) = false := (by decide : (Message.docCommentNotAttached.render [] ==
          Message.expectedDeclaration.render []) = false)
    simp [looseDoc, accounted, warned, Node.tagged]

theorem strayLine_outline {start cursor : Cursor} (settled : cursor = start.skipTrivia) :
    Outline cursor (strayLine cursor) ∧ (cursor.rest ≠ [] → cursor.offset < (strayLine cursor).next.offset) := by
  unfold strayLine
  cases ahead : cursor.rest with
  | nil =>
    simp only [Cursor.atEnd, ahead, List.isEmpty_nil, if_true]
    exact ⟨outline_empty (.refl cursor), fun some => absurd rfl some⟩
  | cons char rest =>
    have notBlank : Text.isBlank char = false := Cursor.skipTrivia_stops (settled ▸ ahead)
    simp only [Cursor.atEnd, ahead, List.isEmpty_cons, Bool.false_eq_true, if_false]
    obtain ⟨stop, inside, after, advances⟩ := cursor.readLine_trimmed Text.isBlank (fun _ => id)
    have visible := advances char rest ahead notBlank
    have onward := Cursor.offset_le after.le
    have piece : cursor.spanTo stop = ⟨cursor.offset, cursor.offset + byteLength (Text.trimEnd cursor.readLine.1)⟩ :=
      congrArg (Span.mk cursor.offset) inside.offset
    simp only [← piece]
    refine ⟨⟨inside.le.trans after.le, ?_, [cursor.spanTo stop], ?_, ?_⟩, by omega⟩
    · intro diagnostic member
      obtain rfl := List.mem_singleton.mp member
      exact Span.between_spanTo (le_refl cursor) inside.le after.le
    · exact .cons (.refl cursor) inside.le visible (.nil after)
    · simp [accounted, isStray, Diagnostic.ofMessage]

def declared (trailing : TrailingPolicy) (doc : Option Node) (behind : Cursor) : Fragment :=
  match declaration trailing doc behind with
  | some parsed => { nodes := [parsed.node], errors := parsed.errors, next := parsed.next }
  | none => (looseDoc doc behind).andThen strayLine

/-- One step of the reader at the top level. -/
theorem topLevel_outline (trailing : TrailingPolicy) {start cursor : Cursor} (settled : cursor = start.skipTrivia)
    (some : cursor.rest ≠ []) :
    Outline cursor (topLevel trailing cursor) ∧ cursor.offset < (topLevel trailing cursor).next.offset := by
  unfold topLevel
  cases found : cursor.readDocComments? with
  | none =>
    dsimp only
    split
    next parsed read => exact declaration_outline read (Fragment.sound_empty cursor)
    next =>
      obtain ⟨outline, advances⟩ := strayLine_outline settled
      exact ⟨(outline_empty (.refl cursor)).andThen outline, advances some⟩
  | some docs =>
    obtain ⟨doc, behind⟩ := docs
    dsimp only
    split
    next parsed read => exact declaration_outline read (Fragment.sound_docComments found)
    next =>
      obtain ⟨other, landed⟩ := Cursor.readDocComments?_stops found
      obtain ⟨outline, _⟩ := strayLine_outline landed
      obtain ⟨_, last, _, _, advances, skips⟩ := Cursor.readDocComments?_reads found
      have before := Cursor.offset_le skips.le
      have after := Cursor.offset_le outline.laid.le
      exact ⟨(looseDoc_outline found).andThen outline, Nat.lt_of_lt_of_le advances (before.trans after)⟩

/-- All steps of the reader: with enough fuel nothing is left of the text. -/
theorem declarations_outline (trailing : TrailingPolicy) (fuel : Nat) (cursor : Cursor)
    (enough : byteLength cursor.rest < fuel) :
    Outline cursor (declarations trailing fuel cursor) ∧ (declarations trailing fuel cursor).next.rest = [] := by
  induction fuel generalizing cursor with
  | zero => cases enough
  | succ fuel ih =>
    have skips := cursor.skips_skipTrivia
    unfold declarations
    dsimp only
    split
    next done => exact ⟨outline_empty skips, List.isEmpty_iff.mp done⟩
    next more =>
      obtain ⟨outline, advances⟩ := topLevel_outline trailing (rfl : cursor.skipTrivia = _)
        (by simpa [Cursor.atEnd] using more)
      have skipped := Cursor.offset_add_rest skips.le
      have stepped := Cursor.offset_add_rest outline.laid.le
      have before := Cursor.offset_le skips.le
      obtain ⟨rest, finished⟩ := ih (topLevel trailing cursor.skipTrivia).next (by omega)
      exact ⟨(outline.andThen rest).lead skips, finished⟩

end Parser

end SchemaDoc
