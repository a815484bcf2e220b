import SchemaDoc.Parser.TypeExpr
import SchemaDoc.Proofs.ProductionLaws

/-! The productions of literals, paths and types are lawful: what they find starts where they were
tried, is not empty, and is well placed. -/

namespace SchemaDoc.Parser

/-- The inside of a string as it is written, and the value that it stands for. -/
inductive Escaped : List Char → List Char → Prop where
  | nil : Escaped [] []
  | plain {char written value} (noQuote : char ≠ '"') (noNewline : char ≠ '\n') (noEscape : char ≠ '\\')
      (more : Escaped written value) : Escaped (char :: written) (char :: value)
  | escape {char written value} (more : Escaped written value) :
      Escaped ('\\' :: char :: written) (unescape char :: value)

/-- A string is scanned up to its closing quote. Without one it reaches to the end of the line or of
the text, where a last backslash has nothing to escape. -/
theorem stringBody_spec (value : List Char) (offset : Nat) (chars : List Char) :
    ∃ written inside ending, Escaped written inside ∧
      (stringBody value offset chars).value = inside.reverse ++ value ∧
      chars = written ++ ending ++ (stringBody value offset chars).rest ∧
      (stringBody value offset chars).offset = offset + byteLength (written ++ ending) ∧
      if (stringBody value offset chars).isTerminated then ending = ['"']
      else ending = [] ∨ ending = ['\\'] := by
  fun_induction stringBody value offset chars with
  | case1 value offset => exact ⟨[], [], [], .nil, rfl, rfl, rfl, .inl rfl⟩
  | case2 value offset rest => exact ⟨[], [], ['"'], .nil, rfl, rfl, rfl, rfl⟩
  | case3 value offset rest noQuote => exact ⟨[], [], [], .nil, rfl, rfl, rfl, .inl rfl⟩
  | case4 value offset noQuote noNewline => exact ⟨[], [], ['\\'], .nil, rfl, rfl, rfl, .inr rfl⟩
  | case5 value offset escaped rest noQuote noNewline ih =>
    obtain ⟨written, inside, ending, scanned, result, split, moved, closed⟩ := ih
    refine ⟨'\\' :: escaped :: written, unescape escaped :: inside, ending, .escape scanned, ?_, ?_, ?_, closed⟩
    · simp [result]
    · simpa using split
    · rw [moved]
      simp [Nat.add_assoc]
  | case6 value offset char rest noQuote noNewline noEscape ih =>
    obtain ⟨written, inside, ending, scanned, result, split, moved, closed⟩ := ih
    refine ⟨char :: written, char :: inside, ending, .plain noQuote noNewline noEscape scanned, ?_, ?_, ?_, closed⟩
    · simp [result]
    · simpa using split
    · simp [moved, Nat.add_assoc]

theorem found_leaf {kind : Node.Kind} {cursor next : Cursor} (before : cursor ≤ next)
    (advances : cursor.offset < next.offset) (plain : (leaf kind cursor next).node.separators = []) :
    (leaf kind cursor next).Found cursor where
  node := Node.lawful_leaf (Span.between_spanTo (le_refl cursor) before (le_refl next)) rfl plain
  frame := ⟨next, before, advances, .refl next, rfl⟩
  errors := by simp [leaf]

theorem identifier_lawful : identifier.Lawful := by
  intro cursor parsed found
  obtain ⟨⟨value, next⟩, read, rfl⟩ := Option.map_eq_some_iff.mp found
  obtain ⟨some, rfl, rfl⟩ := Cursor.readIdentifier?_eq_some read
  have reads := cursor.reads_afterWord
  exact found_leaf reads.le (reads.offset_lt some) rfl

theorem string_lawful : string.Lawful := by
  intro cursor parsed found
  obtain ⟨opened, read, rfl⟩ := Option.map_eq_some_iff.mp found
  have quote := Cursor.read?_reads read
  obtain ⟨written, inside, ending, _, _, split, moved, _⟩ := stringBody_spec [] opened.offset opened.rest
  let body := stringBody [] opened.offset opened.rest
  let next : Cursor := { cursor with offset := body.offset, rest := body.rest }
  have scanned : opened.Reads (written ++ ending) next := ⟨split, moved, quote.size.symm⟩
  have reads := quote.trans scanned
  have placed : (leaf (.string (String.ofList body.value.reverse)) cursor next).Found cursor :=
    found_leaf reads.le (reads.offset_lt (by simp)) rfl
  dsimp only
  split
  · exact placed
  · refine ⟨placed.node, placed.frame, ?_⟩
    intro diagnostic member
    obtain rfl := List.mem_singleton.mp member
    have between := Span.between_spanTo (le_refl cursor) reads.le (le_refl next)
    exact Diagnostic.inside_ofMessage between (by decide)

private theorem fraction_le (cursor : Cursor) : cursor ≤ (fraction cursor).2 := by
  unfold fraction
  split
  next => exact le_refl cursor
  next behindPoint read =>
    dsimp only
    split
    · exact le_refl cursor
    · exact (Cursor.read?_le read).trans (behindPoint.readWhile_reads Char.isDigit).le

theorem number_lawful : number.Lawful := by
  intro cursor parsed found
  unfold number at found
  have signed : cursor ≤ (cursor.read? "-").getD cursor := by
    cases read : cursor.read? "-" with
    | none => exact le_refl cursor
    | some unsigned => exact Cursor.read?_le read
  dsimp only at found
  generalize (cursor.read? "-").getD cursor = unsigned at found signed
  have digits := unsigned.readWhile_reads Char.isDigit
  split at found
  next => cases found
  next some =>
    cases found
    have behind := fraction_le (unsigned.readWhile Char.isDigit).2
    have advances := digits.offset_lt (by simpa using some)
    have lower := Cursor.offset_le signed
    have upper := Cursor.offset_le behind
    exact found_leaf (signed.trans (digits.le.trans behind)) (by omega) rfl

theorem boolean_lawful : boolean.Lawful := by
  intro cursor parsed found
  unfold boolean at found
  split at found
  next next read =>
    cases found
    have reads := Cursor.readKeyword?_reads read
    exact found_leaf reads.le (reads.offset_lt (by simp)) rfl
  next =>
    obtain ⟨next, read, rfl⟩ := Option.map_eq_some_iff.mp found
    have reads := Cursor.readKeyword?_reads read
    exact found_leaf reads.le (reads.offset_lt (by simp)) rfl

theorem literal_lawful : literal.Lawful := string_lawful.orElse (number_lawful.orElse boolean_lawful)

theorem fieldKey_lawful : fieldKey.Lawful := identifier_lawful.orElse string_lawful

theorem resourceLocation_lawful : resourceLocation.Lawful := by
  intro cursor parsed found
  unfold resourceLocation at found
  have reads := cursor.readWhile_reads isResourceChar
  dsimp only at found
  split at found
  next => cases found
  next some =>
    cases found
    exact found_leaf reads.le (reads.offset_lt (by simpa using some)) rfl

private theorem lawful_segment {cursor : Cursor} {segment : Parsed} (found : segment.Found cursor) :
    Fragment.Lawful cursor ⟨[segment.node], segment.errors, segment.next⟩ :=
  ⟨Node.laid_singleton found.node, found.errors⟩

private theorem moreSegments_lawful (fuel : Nat) (cursor : Cursor) :
    (moreSegments fuel cursor).Lawful cursor := by
  induction fuel generalizing cursor with
  | zero => exact Fragment.lawful_empty (le_refl cursor)
  | succ fuel ih =>
    unfold moreSegments
    split
    next => exact Fragment.lawful_empty (le_refl cursor)
    next next read =>
      have before := Cursor.read?_le read
      split
      next => exact (Fragment.lawful_missing _ _ next (by decide)).mono_left before
      next segment found =>
        have first := lawful_segment (identifier_lawful found)
        exact (first.andThen (ih segment.next)).mono_left before

theorem segments_lawful {cursor : Cursor} {fragment : Fragment} (found : segments cursor = some fragment) :
    fragment.Lawful cursor := by
  obtain ⟨segment, read, rfl⟩ := Option.map_eq_some_iff.mp found
  exact (lawful_segment (identifier_lawful read)).andThen (moreSegments_lawful _ segment.next)

theorem segments_advances {cursor : Cursor} {fragment : Fragment} (found : segments cursor = some fragment) :
    cursor.offset < fragment.next.offset := by
  obtain ⟨segment, read, rfl⟩ := Option.map_eq_some_iff.mp found
  have first := (identifier_lawful read).advances
  have rest := Cursor.offset_le (moreSegments_lawful segment.next.remaining segment.next).le
  exact Nat.lt_of_lt_of_le first rest

/-- A path covers all that was read of it, also a separator behind which a segment is missing. -/
private theorem found_path {cursor : Cursor} {fragment : Fragment} (fromRoot : Bool)
    (lawful : fragment.Lawful cursor) (advances : cursor.offset < fragment.next.offset) :
    Parsed.Found cursor
      { node := { kind := .identPath fromRoot, span := cursor.spanTo fragment.next, children := fragment.nodes }
        errors := fragment.errors
        next := fragment.next } :=
  Parsed.found_covering lawful.laid lawful.le advances (.refl _) rfl
    (fun _ member => (lawful.laid.mem member).between.bounds.2) rfl lawful.errors

theorem identPath_lawful : identPath.Lawful := by
  intro cursor parsed found
  unfold identPath at found
  dsimp only at found
  split at found
  next next read =>
    cases found
    have reads := Cursor.read?_reads read
    have rest : ((segments next).getD (.missing .expectedIdentifier [] next)).Lawful next := by
      cases inner : segments next with
      | none => exact Fragment.lawful_missing _ _ next (by decide)
      | some fragment => exact segments_lawful inner
    have advances := reads.offset_lt (by simp [pathSeparator])
    exact found_path true (rest.mono_left reads.le) (Nat.lt_of_lt_of_le advances (Cursor.offset_le rest.le))
  next =>
    obtain ⟨fragment, inner, rfl⟩ := Option.map_eq_some_iff.mp found
    exact found_path false (segments_lawful inner) (segments_advances inner)

theorem found_wrap {cursor : Cursor} {parsed : Parsed} (found : parsed.Found cursor) (kind : Node.Kind)
    (role : Node.Role) (plain : (wrap kind role parsed).node.separators = []) :
    (wrap kind role parsed).Found cursor where
  node := by
    have laid := Node.laid_singleton (found.node.tagged role)
    apply laid.enclosed
    · intro span member
      rw [Node.recorded, plain] at member
      obtain rfl := List.mem_singleton.mp member
      exact found.node.between
    · simp [plain]
    · intro child member
      obtain rfl := List.mem_singleton.mp member
      exact Span.contains_refl _
  frame := found.frame
  errors := found.errors

theorem primitiveType_lawful : primitiveType.Lawful := by
  intro cursor parsed found
  obtain ⟨primitive, known, rfl⟩ := Option.map_eq_some_iff.mp found
  have some : cursor.word ≠ [] := by
    intro none
    have unnamed : Primitive.ofName? (String.ofList []) = .none := by decide
    rw [none, unnamed] at known
    cases known
  have reads := cursor.reads_afterWord
  exact found_leaf reads.le (reads.offset_lt some) rfl

/-- What stands behind the bracket: at most one node, and nothing but trivia behind it. -/
private theorem listItem_ends {item : Production} (lawful : item.Lawful) (cursor : Cursor) :
    let inner := (Fragment.required item .type .expectedType cursor.skipTrivia).skipTrivia
    (inner.nodes = [] ∧ cursor.Skips inner.next) ∨
    ∃ node last, inner.nodes = [node] ∧ cursor ≤ last ∧ last.Skips inner.next ∧ node.span.stop = last.offset := by
  dsimp only [Fragment.required]
  split
  next parsed found =>
    right
    obtain ⟨last, before, _, skips, span⟩ := (lawful found).frame
    refine ⟨_, last, rfl, cursor.le_skipTrivia.trans before, ?_, ?_⟩
    · exact skips.trans (Cursor.skips_skipTrivia parsed.next)
    · exact congrArg Span.stop span
  next =>
    left
    exact ⟨rfl, cursor.skips_skipTrivia.trans (Cursor.skips_skipTrivia _)⟩

theorem listType_found {item : Production} (lawful : item.Lawful) {cursor opened : Cursor}
    (read : cursor.read? "[" = some opened) : (listType item cursor opened).Found cursor := by
  have bracket := Cursor.read?_reads read
  have advances : cursor.offset < opened.offset := bracket.offset_lt (by simp)
  have ends := listItem_ends lawful opened
  have parts : ((Fragment.required item .type .expectedType opened.skipTrivia).skipTrivia).Lawful opened :=
    (Fragment.lawful_required lawful _ _ _ (by decide)).skipTrivia.mono_left opened.le_skipTrivia
  unfold listType
  dsimp only at ends ⊢
  generalize (Fragment.required item .type .expectedType opened.skipTrivia).skipTrivia = inner at ends parts
  have whole := parts.mono_left bracket.le
  split
  next closed readClosed =>
    have after := Cursor.read?_le readClosed
    have onward := Cursor.offset_le (parts.le.trans after)
    refine Parsed.found_covering (whole.laid.mono_right after) (whole.le.trans after) (by omega)
      (.refl closed) rfl ?_ rfl ?_
    · intro child member
      exact Nat.le_trans (whole.laid.mem member).between.bounds.2 (Cursor.offset_le after)
    · intro diagnostic member
      exact (whole.errors diagnostic member).mono (le_refl cursor) after
  next =>
    obtain ⟨last, before, skips, stop, inside⟩ : ∃ last, opened ≤ last ∧ last.Skips inner.next ∧
        (inner.nodes.getLast?.map fun node => node.span.stop).getD (cursor.offset + 1) = last.offset ∧
        ∀ child ∈ inner.nodes, child.span.stop ≤ last.offset := by
      rcases ends with ⟨none, skips⟩ | ⟨node, last, some, before, skips, stop⟩
      · exact ⟨opened, le_refl opened, skips, by simp [none, bracket.offset, Char.utf8Size], by simp [none]⟩
      · exact ⟨last, before, skips, by simp [some, stop], by simp [some, stop]⟩
    have onward := Cursor.offset_le before
    refine Parsed.found_covering whole.laid (bracket.le.trans before) (by omega) skips ?_ inside rfl ?_
    · simp only [Cursor.spanTo, stop]
    · intro diagnostic member
      rcases List.mem_append.mp member with member | member
      · exact whole.errors diagnostic member
      · obtain rfl := List.mem_singleton.mp member
        exact Diagnostic.inside_expectedToken _ ⟨_, whole.le, le_refl _, rfl⟩

theorem primaryType_lawful {item : Production} (lawful : item.Lawful) : (primaryType item).Lawful := by
  intro cursor parsed found
  unfold primaryType at found
  split at found
  next opened read =>
    cases found
    exact listType_found lawful read
  next =>
    simp only [Option.orElse_eq_orElse, Option.orElse_eq_or, Option.or_eq_some_iff] at found
    rcases found with found | ⟨_, found | ⟨_, found⟩⟩
    · obtain ⟨inner, read, rfl⟩ := Option.map_eq_some_iff.mp found
      exact found_wrap (literal_lawful read) _ _ rfl
    · exact primitiveType_lawful found
    · obtain ⟨inner, read, rfl⟩ := Option.map_eq_some_iff.mp found
      exact found_wrap (identPath_lawful read) _ _ rfl

theorem optionalTypes_found {cursor next : Cursor} {parsed : Parsed} {marks : List Char}
    (found : parsed.Found cursor) (reads : parsed.next.Reads marks next) (isMark : ∀ char ∈ marks, char = '?') :
    Parsed.Found cursor
      { parsed with node := optionalTypes parsed.node parsed.next.offset marks, next } := by
  induction marks generalizing parsed with
  | nil =>
    obtain rfl := reads.eq_of_nil
    exact found
  | cons mark marks ih =>
    obtain rfl := isMark mark (by simp)
    let behind := parsed.next.moveTo ['?'] (marks ++ next.rest)
    have first : parsed.next.Reads ['?'] behind := Cursor.reads_moveTo (by simpa using reads.rest)
    have rest : behind.Reads marks next := by
      refine ⟨rfl, ?_, reads.size⟩
      rw [reads.offset]
      simp [behind, Cursor.moveTo, Nat.add_assoc]
    let outer : Node :=
      { kind := .optionalType
        span := parsed.node.span.cover ⟨parsed.next.offset, parsed.next.offset + 1⟩
        children := [parsed.node.tagged .type] }
    have placed : Parsed.Found cursor { parsed with node := outer, next := behind } := by
      have laid := (Node.laid_singleton (found.node.tagged .type)).mono_right first.le
      have upper : parsed.node.span.stop ≤ parsed.next.offset := found.node.between.bounds.2
      have moved : behind.offset = parsed.next.offset + 1 := by simp [first.offset, Char.utf8Size]
      have advances := found.advances
      refine Parsed.found_covering laid laid.le (by omega) (.refl behind) ?_ ?_ rfl ?_
      · simp only [outer, Span.cover, Cursor.spanTo, found.start, moved, Span.mk.injEq]
        omega
      · intro child member
        obtain rfl := List.mem_singleton.mp member
        exact Nat.le_trans upper (Cursor.offset_le first.le)
      · intro diagnostic member
        exact (found.errors diagnostic member).mono (le_refl cursor) first.le
    exact ih placed rest (fun char member => isMark char (by simp [member]))

theorem typeWithin_lawful (depth : Nat) : (typeWithin depth).Lawful := by
  induction depth with
  | zero =>
    intro cursor parsed found
    cases found
  | succ depth ih =>
    intro cursor parsed found
    obtain ⟨primary, read, rfl⟩ := Option.map_eq_some_iff.mp found
    have marks := primary.next.readWhile_reads (· == '?')
    exact optionalTypes_found (primaryType_lawful ih read) marks
      (fun char member => by simpa using Cursor.mem_readWhile member)

theorem typeExpr_lawful : typeExpr.Lawful := fun cursor _ found => typeWithin_lawful cursor.remaining found

end SchemaDoc.Parser
