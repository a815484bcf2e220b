import SchemaDoc.Proofs.EmbeddedDeclarations

/-! Two documents, one below the other. A document without a problem does not look beyond the end of its text, so
what stands below it is read as if it stood alone, whatever it is. -/

namespace SchemaDoc

def Context.above (below : String) : Context := ⟨0, '\n' :: below.toList, by simp⟩

def Context.under (distance : Nat) : Context := ⟨distance, [], by simp⟩

theorem byteLength_newline (chars : List Char) : byteLength ('\n' :: chars) = byteLength chars + 1 := by
  rw [byteLength_cons, (by decide : '\n'.utf8Size = 1), Nat.add_comm]

theorem Cursor.ofText_append (text below : String) :
    ofText (text ++ "\n" ++ below) = (Context.above below).cursor (ofText text) := by
  have newline : "\n".utf8ByteSize = 1 := rfl
  have size : (text ++ "\n" ++ below).utf8ByteSize = 0 + text.utf8ByteSize + byteLength ('\n' :: below.toList) := by
    simp only [String.utf8ByteSize_append, newline, byteLength_newline, byteLength_toList]
    omega
  simp [ofText, Context.cursor, Context.above, size]

namespace Parser

variable {context : Context} {cursor : Cursor} {text : String}

/-- A line that starts no declaration is reported, so it is the same only where nothing stands behind the text. -/
theorem strayLine_cursor (alone : context.after = []) (cursor : Cursor) :
    strayLine (context.cursor cursor) = context.fragment (strayLine cursor) := by
  simp only [strayLine, Context.atEnd_cursor (.inl alone), Context.readLine_cursor (.inl alone)]
  split
  · rfl
  · simp [Context.fragment, Diagnostic.shift, Diagnostic.ofMessage, Span.shift, Nat.add_right_comm]

theorem looseDoc_cursor (context : Context) (doc : Option Node) (cursor : Cursor) :
    looseDoc (doc.map (Node.shift context.before)) (context.cursor cursor) = context.fragment (looseDoc doc cursor) := by
  cases doc with
  | none => rfl
  | some doc => simp [looseDoc, Context.fragment, Diagnostic.shift, Diagnostic.ofMessage, Diagnostic.withSeverity]

/-- Where no declaration starts, something is reported: the doc comments, or the line. -/
theorem alone_of_stray {doc : Option Node} (some : doc.isSome ∨ cursor.rest ≠ [])
    (quiet : context.Quiet ((looseDoc doc cursor).andThen strayLine).errors) : context.after = [] := by
  cases doc with
  | some doc => exact quiet.alone
  | none =>
    have more : cursor.atEnd = false := by simpa [Cursor.atEnd] using some
    have line : context.Quiet (strayLine cursor).errors := quiet.right
    rw [strayLine, more] at line
    exact line.alone

theorem declared_cursor (trailing : TrailingPolicy) (doc : Option Node) (behind : Cursor.ofText text ≤ cursor)
    (some : doc.isSome ∨ cursor.rest ≠ []) (quiet : context.Quiet (declared trailing doc cursor).errors) :
    declared trailing (doc.map (Node.shift context.before)) (context.cursor cursor) =
      context.fragment (declared trailing doc cursor) ∧ context.Left cursor := by
  have same : _ → _ = Option.map context.parsed _ ∧ _ := declaration_cursor trailing doc behind
  simp only [declared] at quiet ⊢
  cases read : declaration trailing doc cursor with
  | some parsed =>
    simp only [read] at quiet
    obtain ⟨same, left⟩ := same (by simpa [read] using quiet)
    rw [same, read]
    exact ⟨rfl, left (by simp [read])⟩
  | none =>
    simp only [read] at quiet
    obtain ⟨same, _⟩ := same (by simp [read])
    have alone := alone_of_stray some quiet
    rw [same, read]
    simp only [Option.map_none, looseDoc_cursor]
    exact ⟨context.fragment_andThen _ (strayLine_cursor alone _), .inl alone⟩

/-- One step at the top level. -/
theorem topLevel_cursor (trailing : TrailingPolicy) (behind : Cursor.ofText text ≤ cursor) (some : cursor.rest ≠ [])
    (quiet : context.Quiet (topLevel trailing cursor).errors) :
    topLevel trailing (context.cursor cursor) = context.fragment (topLevel trailing cursor) := by
  unfold topLevel at quiet ⊢
  have docs : (∀ found ∈ cursor.readDocComments?, context.Left found.2) → _ :=
    Context.readDocComments?_cursor (Cursor.whole_of_le behind)
  cases found : cursor.readDocComments? with
  | none =>
    rw [docs (by simp [found]), found]
    simp only [found] at quiet
    exact (declared_cursor trailing none behind (.inr some) quiet).1
  | some read =>
    obtain ⟨doc, next⟩ := read
    obtain ⟨_, last, _, before, _, skips⟩ := Cursor.readDocComments?_reads found
    simp only [found] at quiet
    obtain ⟨same, left⟩ :=
      declared_cursor trailing (.some doc) (behind.trans (before.trans skips.le)) (.inl rfl) quiet
    rw [docs (by simpa [found] using left), found]
    exact same

/-- Where reading goes on in the larger text once the text is used up. -/
structure Resumes (context : Context) (text : String) (resume : Cursor) : Prop where
  bounded : byteLength resume.rest ≤ byteLength context.after
  skips : ∀ {cursor : Cursor}, Cursor.ofText text ≤ cursor → cursor.skipTrivia.rest = [] →
    (context.cursor cursor).skipTrivia = resume.skipTrivia

/-- The declarations of the text are found in the larger one, and behind them what is found from there on. With
more rounds than bytes ahead on both sides, enough are left for the rest. -/
theorem declarations_cursor (trailing : TrailingPolicy) {resume : Cursor} (resumes : Resumes context text resume)
    {fuel more : Nat} (behind : Cursor.ofText text ≤ cursor) (enough : byteLength cursor.rest < fuel)
    (also : byteLength (context.cursor cursor).rest < more)
    (quiet : context.Quiet (declarations trailing fuel cursor).errors) :
    ∃ left, byteLength resume.rest < left ∧ declarations trailing more (context.cursor cursor) =
      (context.fragment (declarations trailing fuel cursor)).andThen fun _ => declarations trailing left resume := by
  induction fuel generalizing more cursor with
  | zero => exact absurd enough (Nat.not_lt_zero _)
  | succ fuel ih =>
    obtain ⟨more, rfl⟩ := Nat.exists_eq_add_one.mpr (Nat.zero_lt_of_lt also)
    have onward := cursor.le_skipTrivia
    simp only [declarations] at quiet ⊢
    cases ends : cursor.skipTrivia.atEnd with
    | true =>
      refine ⟨more + 1, ?_, ?_⟩
      · rw [Context.cursor_rest, byteLength_append] at also
        have bounded := resumes.bounded
        omega
      · rw [resumes.skips behind (List.isEmpty_iff.mp ends)]
        simp [declarations, Fragment.andThen, Fragment.empty, Context.fragment]
    | false =>
      have some : cursor.skipTrivia.rest ≠ [] := by simpa [Cursor.atEnd] using ends
      simp only [ends, Bool.false_eq_true, if_false] at quiet ⊢
      obtain ⟨outline, advances⟩ := topLevel_outline trailing (rfl : cursor.skipTrivia = _) some
      have step := topLevel_cursor trailing (behind.trans onward) some quiet.left
      have passed := onward.trans outline.laid.le
      have less := Cursor.rest_lt passed (Nat.lt_of_le_of_lt (Cursor.offset_le onward) advances)
      have fewer := context.one_less less enough also
      obtain ⟨left, fits, rest⟩ := ih (behind.trans passed) fewer.1 fewer.2 quiet.right
      refine ⟨left, fits, ?_⟩
      rw [Context.skipTrivia_cursor (.inr some), Context.atEnd_cursor (.inr some), ends, step]
      simp only [Bool.false_eq_true, if_false, Fragment.andThen, Context.fragment] at rest ⊢
      simp only [rest, List.map_append, List.append_assoc]

theorem eq_end (behind : Cursor.ofText text ≤ cursor) (ends : cursor.rest = []) :
    cursor = ⟨text.utf8ByteSize, text.utf8ByteSize, []⟩ := by
  have all : Cursor.ofText text ≤ ⟨text.utf8ByteSize, text.utf8ByteSize, []⟩ :=
    ⟨text.toList, by simp [Cursor.ofText], by simp [Cursor.ofText, byteLength_toList], rfl⟩
  have whole := Cursor.offset_add_rest behind
  refine Cursor.eq_of_offset behind all ?_
  simpa [ends, Cursor.ofText, byteLength_toList] using whole

theorem resumes_alone (alone : context.after = []) (text : String) :
    Resumes context text (context.cursor ⟨text.utf8ByteSize, text.utf8ByteSize, []⟩) where
  bounded := by simp
  skips {cursor} behind ends := by
    rw [← eq_end (behind.trans cursor.le_skipTrivia) ends, Context.skipTrivia_cursor (.inl alone),
      Context.skipTrivia_cursor (.inl alone), Cursor.skipTrivia_skipTrivia]

/-- Behind the new line reading goes on with the text that stands there. -/
theorem resumes_below (text below : String) :
    Resumes (.above below) text ((Context.under (text.utf8ByteSize + 1)).cursor (.ofText below)) where
  bounded := by simp [Context.above, Context.under, Cursor.ofText]
  skips {cursor} behind ends := by
    have done := eq_end (behind.trans cursor.le_skipTrivia) ends
    obtain ⟨gap, reads, trivia⟩ := cursor.skips_skipTrivia
    rw [ends] at trivia
    refine Cursor.Skips.skipTrivia_eq ⟨gap ++ ['\n'], ⟨?_, ?_, ?_⟩, ?_⟩
    · simp [reads.rest, ends, Cursor.ofText, Context.above, Context.under]
    · have offset : text.utf8ByteSize = cursor.offset + byteLength gap := by rw [← reads.offset, done]
      simp only [Context.cursor_offset, Context.above, Context.under, Cursor.ofText, byteLength_append,
        byteLength_newline, byteLength_nil, offset]
      omega
    · have size : text.utf8ByteSize = cursor.size := by rw [← reads.size, done]
      simp only [Context.cursor, Context.above, Context.under, Cursor.ofText, byteLength_newline, byteLength_toList,
        byteLength_nil, size]
      omega
    · simpa [Context.under, Cursor.ofText] using trivia.newline below.toList

theorem declarations_atEnd (trailing : TrailingPolicy) (fuel : Nat) (ends : cursor.rest = []) :
    declarations trailing fuel cursor = .empty cursor := by
  have settled : cursor.skipTrivia = cursor :=
    Cursor.skipTrivia_of_settled (by simp [ends, Settled, Grammar.OpensComment])
  cases fuel with
  | zero => rfl
  | succ fuel => simp [declarations, settled, Cursor.atEnd, ends]

/-- Where nothing stands behind the text, its declarations are all that there is. -/
theorem declarations_alone (trailing : TrailingPolicy) (alone : context.after = []) {fuel more : Nat}
    (behind : Cursor.ofText text ≤ cursor) (enough : byteLength cursor.rest < fuel)
    (also : byteLength (context.cursor cursor).rest < more) :
    (declarations trailing more (context.cursor cursor)).nodes =
      (declarations trailing fuel cursor).nodes.map (Node.shift context.before) ∧
    (declarations trailing more (context.cursor cursor)).errors =
      (declarations trailing fuel cursor).errors.map (Diagnostic.shift context.before) := by
  obtain ⟨left, _, all⟩ :=
    declarations_cursor trailing (resumes_alone alone text) behind enough also (.inl alone)
  have nothing : declarations trailing left (context.cursor ⟨text.utf8ByteSize, text.utf8ByteSize, []⟩) = .empty _ :=
    declarations_atEnd trailing left (by simp [alone])
  rw [all, nothing]
  simp [Fragment.andThen, Fragment.empty, Context.fragment]

end Parser

/-- Reading is compositional behind a document without a problem. Whatever stands below it is read as if it stood
alone: its declarations follow those of the document, and its problems are the only ones, all at places that are
moved by the length of the document and the new line. -/
theorem parse_append (text below : String) (trailing : TrailingPolicy) (clean : (parse text trailing).errors = []) :
    (parse (text ++ "\n" ++ below) trailing).node.children =
      (parse text trailing).node.children ++
        (parse below trailing).node.children.map (Node.shift (text.utf8ByteSize + 1)) ∧
    (parse (text ++ "\n" ++ below) trailing).errors =
      (parse below trailing).errors.map (Diagnostic.shift (text.utf8ByteSize + 1)) := by
  have first : (Cursor.ofText text).Whole := Cursor.whole_of_le (le_refl _)
  have second : (Cursor.ofText below).Whole := Cursor.whole_of_le (le_refl _)
  obtain ⟨left, fits, joined⟩ := Parser.declarations_cursor trailing (Parser.resumes_below text below) (le_refl _)
    first.enough ((Context.above below).whole_cursor first).enough (.inr clean)
  obtain ⟨nodes, errors⟩ :=
    Parser.declarations_alone trailing (rfl : (Context.under (text.utf8ByteSize + 1)).after = [])
      (le_refl (Cursor.ofText below)) second.enough fits
  have quiet : (Parser.declarations trailing (Cursor.ofText text).remaining (.ofText text)).errors = [] := clean
  have here : (Context.above below).before = 0 := rfl
  simp only [parse, Cursor.ofText_append, joined, Fragment.andThen, Context.fragment, nodes, errors, quiet, here,
    Node.shift_zero, List.map_id, List.map_nil, List.nil_append]
  exact ⟨rfl, rfl⟩

/-- A line comment at the end of the first text does not reach the second one, and both problems of that one are
reported where they stand. -/
theorem parse_append_stray :
    (parse "mod a; // b" .disallowed).errors = [] ∧
    (parse ("mod a; // b" ++ "\n" ++ "/// c\n\x7d") .disallowed).node.children =
      (parse "mod a; // b" .disallowed).node.children ++
        (parse "/// c\n\x7d" .disallowed).node.children.map (Node.shift 12) ∧
    (parse ("mod a; // b" ++ "\n" ++ "/// c\n\x7d") .disallowed).errors.map Diagnostic.span =
      [⟨12, 17⟩, ⟨18, 19⟩] := by
  have clean : (parse "mod a; // b" .disallowed).errors = [] := by decide
  obtain ⟨children, errors⟩ := parse_append "mod a; // b" "/// c\n\x7d" .disallowed clean
  refine ⟨clean, children, ?_⟩
  rw [errors]
  decide

end SchemaDoc
