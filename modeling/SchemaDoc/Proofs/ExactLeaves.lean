import SchemaDoc.Proofs.TracedTree

/-! Tokens and paths lie exactly where they are written. The span of a token covers its spelling and no
more, a word is read to its end, and the span of a path covers its segments with the separators between
them. This holds in every tree, also where the text around the token is broken. -/

namespace SchemaDoc

def Span.IsWithin (span : Span) (text : String) : Prop := span.start ≤ span.stop ∧ span.stop ≤ text.utf8ByteSize

/-- The span covers this part of the text. -/
def Span.Covers (span : Span) (text written : String) : Prop := span.IsWithin text ∧ span.slice text = written

/-- What stands behind the span does not continue a word. -/
def Span.EndsWord (span : Span) (text : String) : Prop :=
  ∃ before after, text.toList = before ++ after ∧ byteLength before = span.stop ∧
    ∀ char ∈ after.head?, isIdentifierPart char = false

/-- A text with the letters of an identifier. -/
def IsWord (text : String) : Prop := text.toList ≠ [] ∧ ∀ char ∈ text.toList, isIdentifierPart char = true

namespace Parser

/-- What the inside of a string stands for. A backslash with nothing behind it stands for nothing. -/
def unescapeAll : List Char → List Char
  | [] => []
  | '\\' :: [] => []
  | '\\' :: char :: rest => unescape char :: unescapeAll rest
  | char :: rest => char :: unescapeAll rest

theorem unescapeAll_cons {char : Char} (noEscape : char ≠ '\\') (rest : List Char) :
    unescapeAll (char :: rest) = char :: unescapeAll rest := by
  rw [unescapeAll.eq_def]
  split <;> simp_all

theorem Escaped.unescapeAll_append {written value : List Char} (escaped : Escaped written value) (ending : List Char)
    (silent : unescapeAll ending = []) : unescapeAll (written ++ ending) = value := by
  induction escaped with
  | nil => exact silent
  | plain noQuote noNewline noEscape more ih => rw [List.cons_append, unescapeAll_cons noEscape, ih]
  | escape more ih => rw [List.cons_append, List.cons_append, unescapeAll, ih]

end Parser

namespace Node

/-- The problem of a path that breaks off at the offset. -/
def segmentMissing (offset : Nat) : Diagnostic := .ofMessage .expectedIdentifier [] (.point offset)

/-- The node lies exactly where it is written, and what it holds is what is written there. -/
def IsExact (text : String) (errors : List Diagnostic) (node : Node) : Prop :=
  match node.kind with
  | .identifier value => node.span.Covers text value ∧ IsWord value ∧ node.span.EndsWord text
  | .keyword word => node.span.Covers text word ∧ (word = ";" ∨ IsWord word ∧ node.span.EndsWord text)
  | .primitiveType primitive =>
    node.span.Covers text primitive.name ∧ IsWord primitive.name ∧ node.span.EndsWord text
  | .boolean value => node.span.Covers text (if value then "true" else "false") ∧ node.span.EndsWord text
  | .resourceLocation (some space) path => node.span.Covers text (space ++ ":" ++ path) ∧ ':' ∉ space.toList
  | .resourceLocation none path => node.span.Covers text path ∧ ':' ∉ path.toList
  | .identPath fromRoot =>
    ∃ names dangling, node.children.map Node.kind = names.map .identifier ∧
      node.span.Covers text ((if fromRoot then "::" else "") ++ "::".intercalate names ++ dangling) ∧
      (names = [] → fromRoot = true) ∧ (dangling = "" ∨ dangling = "::" ∧ names ≠ []) ∧
      (names = [] ∨ dangling = "::" → segmentMissing node.span.stop ∈ errors)
  | .number value =>
    ∃ sign whole places, node.span.Covers text (String.ofList (sign ++ whole ++ places)) ∧
      (sign = [] ∨ sign = ['-']) ∧ whole ≠ [] ∧ (∀ char ∈ whole, char.isDigit = true) ∧
      ((places = [] ∧ value = .ofDecimal (sign ≠ []) (Parser.digitsValue whole) 0) ∨
        ∃ digits, places = '.' :: digits ∧ digits ≠ [] ∧ (∀ char ∈ digits, char.isDigit = true) ∧
          value = .ofDecimal (sign ≠ []) (Parser.digitsValue (whole ++ digits)) (-Int.ofNat digits.length))
  | .string value =>
    ∃ inside closing, node.span.Covers text (String.ofList ('"' :: inside ++ closing)) ∧
      value = String.ofList (Parser.unescapeAll inside) ∧
      (closing = ['"'] ∧ Parser.Escaped inside value.toList ∨
        closing = [] ∧ .ofMessage .unterminatedString [] node.span ∈ errors)
  | _ => True

end Node

theorem Cursor.spanTo_isWithin {text : String} {first last : Cursor} (behind : Cursor.ofText text ≤ first)
    (onward : first ≤ last) : (first.spanTo last).IsWithin text := by
  obtain ⟨taken, reads⟩ := behind.trans onward
  refine ⟨Cursor.offset_le onward, ?_⟩
  have size : byteLength text.toList = text.utf8ByteSize := byteLength_toList text
  have split : text.toList = taken ++ last.rest := reads.rest
  have offset : last.offset = 0 + byteLength taken := reads.offset
  rw [← size, split, byteLength_append]
  change last.offset ≤ _
  omega

/-- What was read is what the span between the cursors covers. -/
theorem Cursor.Reads.covers {text : String} {cursor next : Cursor} {taken : List Char} (reads : cursor.Reads taken next)
    (behind : Cursor.ofText text ≤ cursor) : (cursor.spanTo next).Covers text (String.ofList taken) :=
  ⟨Cursor.spanTo_isWithin behind reads.le, Span.slice_spanTo behind reads⟩

theorem Cursor.spanTo_endsWord {text : String} {cursor next : Cursor} (behind : Cursor.ofText text ≤ next)
    (ends : ∀ char ∈ next.rest.head?, isIdentifierPart char = false) : (cursor.spanTo next).EndsWord text := by
  obtain ⟨before, reads⟩ := behind
  refine ⟨before, next.rest, reads.rest, ?_, ends⟩
  have offset : next.offset = 0 + byteLength before := reads.offset
  change _ = next.offset
  omega

theorem Cursor.afterWord_ends {cursor : Cursor} (nonempty : cursor.word ≠ []) :
    ∀ char ∈ cursor.afterWord.rest.head?, isIdentifierPart char = false := by
  intro char first
  unfold Cursor.word at nonempty
  split at nonempty
  · exact absurd rfl nonempty
  · next start rest ahead =>
    split at nonempty
    · next starts =>
      have whole : cursor.word = start :: rest.takeWhile isIdentifierPart := by
        rw [Cursor.word, ahead]
        exact if_pos starts
      have behind : cursor.afterWord.rest = rest.dropWhile isIdentifierPart := by
        change cursor.rest.drop cursor.word.length = _
        rw [whole, ahead, List.length_cons, List.drop_succ_cons]
        nth_rewrite 2 [← List.takeWhile_append_dropWhile (p := isIdentifierPart) (l := rest)]
        exact List.drop_left
      have stops := List.head?_dropWhile_not isIdentifierPart rest
      rw [behind] at first
      rw [Option.mem_def.mp first] at stops
      exact stops
    · exact absurd rfl nonempty

namespace Parser

variable {text : String} {cursor : Cursor}

/-- The word at a cursor is covered whole. -/
theorem word_exact (behind : Cursor.ofText text ≤ cursor) (nonempty : cursor.word ≠ []) :
    (cursor.spanTo cursor.afterWord).Covers text (String.ofList cursor.word) ∧ IsWord (String.ofList cursor.word) ∧
      (cursor.spanTo cursor.afterWord).EndsWord text := by
  have reads := cursor.reads_afterWord
  refine ⟨reads.covers behind, ⟨by simpa using nonempty, ?_⟩, ?_⟩
  · exact fun char member => Cursor.mem_word (by simpa using member)
  · exact Cursor.spanTo_endsWord (behind.trans reads.le) (Cursor.afterWord_ends nonempty)

/-- A keyword is read like the word that stands there. -/
theorem readKeyword?_eq_afterWord {next : Cursor} {word : String} (found : cursor.readKeyword? word = some next) :
    cursor.word = word.toList ∧ next = cursor.afterWord := by
  obtain ⟨same, read⟩ := Option.ite_none_right_eq_some.mp found
  have reads := Cursor.read?_reads read
  refine ⟨same, ?_⟩
  rw [reads.eq_moveTo, Cursor.afterWord, same, reads.rest, List.drop_left]

theorem keyword_exact {next : Cursor} {word : String} (nonempty : word ≠ "") (behind : Cursor.ofText text ≤ cursor)
    (found : cursor.readKeyword? word = some next) :
    (cursor.spanTo next).Covers text word ∧ IsWord word ∧ (cursor.spanTo next).EndsWord text := by
  obtain ⟨same, rfl⟩ := readKeyword?_eq_afterWord found
  have spelled : word = String.ofList cursor.word := by rw [same, String.ofList_toList]
  rw [spelled]
  refine word_exact behind ?_
  rw [same]
  simpa using nonempty

theorem identifier_exact {parsed : Parsed} (behind : Cursor.ofText text ≤ cursor)
    (found : identifier cursor = some parsed) : parsed.node.IsExact text parsed.errors := by
  obtain ⟨⟨value, next⟩, read, rfl⟩ := Option.map_eq_some_iff.mp found
  obtain ⟨nonempty, rfl, rfl⟩ := Cursor.readIdentifier?_eq_some read
  exact word_exact behind nonempty

theorem keywordToken_exact {word : String} {parsed : Parsed} (behind : Cursor.ofText text ≤ cursor)
    (found : keywordToken word cursor = some parsed) : parsed.node.IsExact text parsed.errors := by
  obtain ⟨nonempty, found⟩ := Option.ite_none_left_eq_some.mp found
  obtain ⟨next, read, rfl⟩ := Option.map_eq_some_iff.mp found
  simp only [Option.orElse_eq_orElse, Option.orElse_eq_or, Option.or_eq_some_iff] at read
  rcases read with read | ⟨_, read⟩
  · obtain ⟨covers, isWord, ends⟩ := keyword_exact nonempty behind read
    exact ⟨covers, .inr ⟨isWord, ends⟩⟩
  · obtain ⟨rfl, read⟩ := Option.ite_none_right_eq_some.mp read
    exact ⟨(Cursor.read?_reads read).covers behind, .inl rfl⟩

theorem boolean_exact {parsed : Parsed} (behind : Cursor.ofText text ≤ cursor)
    (found : boolean cursor = some parsed) : parsed.node.IsExact text parsed.errors := by
  unfold boolean at found
  split at found
  · next next read =>
    cases found
    obtain ⟨covers, -, ends⟩ := keyword_exact (by decide) behind read
    exact ⟨covers, ends⟩
  · obtain ⟨next, read, rfl⟩ := Option.map_eq_some_iff.mp found
    obtain ⟨covers, -, ends⟩ := keyword_exact (by decide) behind read
    exact ⟨covers, ends⟩

theorem primitiveType_exact {parsed : Parsed} (behind : Cursor.ofText text ≤ cursor)
    (found : primitiveType cursor = some parsed) : parsed.node.IsExact text parsed.errors := by
  obtain ⟨primitive, named, rfl⟩ := Option.map_eq_some_iff.mp found
  have spelled : primitive.name = String.ofList cursor.word := by
    simpa using List.find?_some named
  have nonempty : cursor.word ≠ [] := by
    intro empty
    rw [empty] at spelled
    cases primitive <;> exact absurd spelled (by decide)
  change (cursor.spanTo cursor.afterWord).Covers text primitive.name ∧ _
  rw [spelled]
  exact word_exact behind nonempty

theorem string_exact {parsed : Parsed} (behind : Cursor.ofText text ≤ cursor)
    (found : string cursor = some parsed) : parsed.node.IsExact text parsed.errors := by
  obtain ⟨opened, read, rfl⟩ := Option.map_eq_some_iff.mp found
  have quote := Cursor.read?_reads read
  obtain ⟨written, value, ending, escaped, scanned, split, moved, closing⟩ :=
    stringBody_spec [] opened.offset opened.rest
  dsimp only
  generalize stringBody [] opened.offset opened.rest = body at scanned split moved closing
  let next : Cursor := { cursor with offset := body.offset, rest := body.rest }
  have reads := quote.trans (⟨split, moved, quote.size.symm⟩ : opened.Reads (written ++ ending) next)
  have covers : (cursor.spanTo next).Covers text (String.ofList ('"' :: (written ++ ending))) := reads.covers behind
  have spelled : String.ofList body.value.reverse = String.ofList value := by simp [scanned]
  rw [spelled]
  split
  · next closes =>
    rw [if_pos closes] at closing
    subst closing
    refine ⟨written, ['"'], covers, ?_, .inl ⟨rfl, by simpa using escaped⟩⟩
    rw [← List.append_nil written, escaped.unescapeAll_append [] rfl]
  · next runs =>
    rw [if_neg runs] at closing
    refine ⟨written ++ ending, [], by rw [List.append_nil]; exact covers, ?_, .inr ⟨rfl, List.mem_singleton.mpr rfl⟩⟩
    have silent : unescapeAll ending = [] := by rcases closing with rfl | rfl <;> rfl
    rw [escaped.unescapeAll_append ending silent]

theorem fraction_reads (cursor : Cursor) :
    ∃ written, cursor.Reads written (fraction cursor).2 ∧ (∀ char ∈ (fraction cursor).1, char.isDigit = true) ∧
      ((fraction cursor).1 = [] ∧ written = [] ∨ (fraction cursor).1 ≠ [] ∧ written = '.' :: (fraction cursor).1) := by
  unfold fraction
  split
  · exact ⟨[], .refl cursor, by simp, .inl ⟨rfl, rfl⟩⟩
  · next behindPoint read =>
    dsimp only
    split
    · exact ⟨[], .refl cursor, by simp, .inl ⟨rfl, rfl⟩⟩
    · next some =>
      refine ⟨'.' :: (behindPoint.readWhile Char.isDigit).1, ?_, fun char => Cursor.mem_readWhile, .inr ⟨?_, rfl⟩⟩
      · exact (Cursor.read?_reads read).trans (behindPoint.readWhile_reads Char.isDigit)
      · simpa using some

theorem sign_reads (cursor : Cursor) :
    ∃ sign, cursor.Reads sign ((cursor.read? "-").getD cursor) ∧ (sign = [] ∨ sign = ['-']) ∧
      cursor.startsWith "-" = decide (sign ≠ []) := by
  unfold Cursor.read?
  split
  · next starts =>
    obtain ⟨rest, split⟩ := Cursor.startsWith_iff.mp starts
    exact ⟨['-'], Cursor.reads_moveTo (by rw [split]; simp), .inr rfl, starts⟩
  · next starts => exact ⟨[], .refl cursor, .inl rfl, by simpa using starts⟩

theorem number_exact {parsed : Parsed} (behind : Cursor.ofText text ≤ cursor)
    (found : number cursor = some parsed) : parsed.node.IsExact text parsed.errors := by
  unfold number at found
  dsimp only at found
  split at found
  · cases found
  · next some =>
    cases found
    obtain ⟨sign, signed, isSign, negative⟩ := sign_reads cursor
    have digits := ((cursor.read? "-").getD cursor).readWhile_reads Char.isDigit
    obtain ⟨written, fractional, isDigit, shape⟩ :=
      fraction_reads (((cursor.read? "-").getD cursor).readWhile Char.isDigit).2
    refine ⟨sign, _, written, ((signed.trans digits).trans fractional).covers behind, isSign, by simpa using some,
      fun char => Cursor.mem_readWhile, ?_⟩
    rcases shape with ⟨none, rfl⟩ | ⟨places, rfl⟩
    · refine .inl ⟨rfl, ?_⟩
      rw [negative, none, List.append_nil]
      rfl
    · refine .inr ⟨_, rfl, places, isDigit, ?_⟩
      rw [negative]

theorem resourceLocation_exact {parsed : Parsed} (behind : Cursor.ofText text ≤ cursor)
    (found : resourceLocation cursor = some parsed) : parsed.node.IsExact text parsed.errors := by
  unfold resourceLocation at found
  dsimp only at found
  split at found
  · cases found
  · cases found
    have covers := (cursor.readWhile_reads isResourceChar).covers behind
    generalize cursor.readWhile isResourceChar = read at covers
    obtain ⟨written, next⟩ := read
    have whole : written.takeWhile (· != ':') ++ written.dropWhile (· != ':') = written :=
      List.takeWhile_append_dropWhile
    have noColon : ':' ∉ written.takeWhile (· != ':') := fun member => by simpa using List.mem_takeWhile_imp member
    have stops := List.head?_dropWhile_not (· != ':') written
    dsimp only at covers ⊢
    rw [resourceParts, List.span_eq_takeWhile_dropWhile]
    cases behindColon : written.dropWhile (· != ':') with
    | nil =>
      rw [behindColon, List.append_nil] at whole
      rw [← whole] at covers
      exact ⟨covers, by simpa using noColon⟩
    | cons colon path =>
      rw [behindColon] at stops whole
      obtain rfl : colon = ':' := by simpa using stops
      have spelled : String.ofList written =
          String.ofList (written.takeWhile (· != ':')) ++ ":" ++ String.ofList path := by
        nth_rewrite 1 [← whole]
        simp [String.append_assoc]
      rw [spelled] at covers
      exact ⟨covers, by simpa using noColon⟩

/-- What stands behind the first segment of a path. -/
private theorem moreSegments_spelled (fuel : Nat) (cursor : Cursor) :
    ∃ names dangling tail, (moreSegments fuel cursor).nodes.map Node.kind = names.map .identifier ∧
      cursor.Reads tail (moreSegments fuel cursor).next ∧
      (∀ first, first ++ String.ofList tail = "::".intercalate (first :: names) ++ dangling) ∧
      (dangling = "" ∨ dangling = "::") ∧ (dangling = "::" →
        Node.segmentMissing (moreSegments fuel cursor).next.offset ∈ (moreSegments fuel cursor).errors) := by
  induction fuel generalizing cursor with
  | zero => exact ⟨[], "", [], rfl, .refl cursor, by simp, .inl rfl, by simp⟩
  | succ fuel ih =>
    unfold moreSegments
    split
    · exact ⟨[], "", [], rfl, .refl cursor, by simp, .inl rfl, by simp⟩
    · next next read =>
      have separator : cursor.Reads "::".toList next := Cursor.read?_reads read
      split
      · refine ⟨[], "::", _, rfl, separator, ?_, .inr rfl, fun _ => List.mem_singleton.mpr rfl⟩
        intro first
        rw [String.ofList_toList, String.intercalate_singleton]
      · next segment found =>
        obtain ⟨⟨value, behind⟩, named, rfl⟩ := Option.map_eq_some_iff.mp found
        obtain ⟨-, rfl, rfl⟩ := Cursor.readIdentifier?_eq_some named
        obtain ⟨names, dangling, tail, kinds, reads, joined, ends, reported⟩ := ih next.afterWord
        refine ⟨String.ofList next.word :: names, dangling, _, ?_, (separator.trans next.reads_afterWord).trans reads,
          ?_, ends, fun dangles => List.mem_append_right _ (reported dangles)⟩
        · simpa [Fragment.andThen, leaf] using kinds
        · intro first
          rw [String.intercalate_cons_cons, String.append_assoc, ← joined, String.ofList_append, String.ofList_append,
            String.ofList_toList]
          simp only [String.append_assoc]

/-- The segments of a path are read with the separators between them. -/
theorem segments_spelled {fragment : Fragment} (found : segments cursor = some fragment) :
    ∃ names dangling taken, fragment.nodes.map Node.kind = names.map .identifier ∧ names ≠ [] ∧
      cursor.Reads taken fragment.next ∧ String.ofList taken = "::".intercalate names ++ dangling ∧
      (dangling = "" ∨ dangling = "::") ∧
      (dangling = "::" → Node.segmentMissing fragment.next.offset ∈ fragment.errors) := by
  obtain ⟨segment, read, rfl⟩ := Option.map_eq_some_iff.mp found
  obtain ⟨⟨value, behind⟩, named, rfl⟩ := Option.map_eq_some_iff.mp read
  obtain ⟨-, rfl, rfl⟩ := Cursor.readIdentifier?_eq_some named
  obtain ⟨names, dangling, tail, kinds, reads, joined, ends, reported⟩ :=
    moreSegments_spelled cursor.afterWord.remaining cursor.afterWord
  refine ⟨String.ofList cursor.word :: names, dangling, _, ?_, by simp, cursor.reads_afterWord.trans reads, ?_, ends,
    fun dangles => List.mem_append_right _ (reported dangles)⟩
  · simpa [Fragment.andThen, leaf] using kinds
  · rw [String.ofList_append, joined]

theorem identPath_exact {parsed : Parsed} (behind : Cursor.ofText text ≤ cursor)
    (found : identPath cursor = some parsed) : parsed.node.IsExact text parsed.errors := by
  unfold identPath at found
  dsimp only at found
  split at found
  · next next read =>
    cases found
    have separator : cursor.Reads "::".toList next := Cursor.read?_reads read
    cases inner : segments next with
    | none =>
      have covers := separator.covers behind
      rw [String.ofList_toList] at covers
      exact ⟨[], "", rfl, covers, by simp, .inl rfl, fun _ => List.mem_singleton.mpr rfl⟩
    | some fragment =>
      obtain ⟨names, dangling, taken, kinds, some, reads, spelled, ends, reported⟩ := segments_spelled inner
      have covers := (separator.trans reads).covers behind
      rw [String.ofList_append, String.ofList_toList, spelled, ← String.append_assoc] at covers
      exact ⟨names, dangling, kinds, covers, fun none => absurd none some, ends.imp_right (⟨·, some⟩),
        fun broken => reported (broken.resolve_left some)⟩
  · obtain ⟨fragment, inner, rfl⟩ := Option.map_eq_some_iff.mp found
    obtain ⟨names, dangling, taken, kinds, some, reads, spelled, ends, reported⟩ := segments_spelled inner
    have covers := reads.covers behind
    rw [spelled] at covers
    refine ⟨names, dangling, kinds, ?_, fun none => absurd none some, ends.imp_right (⟨·, some⟩),
      fun broken => reported (broken.resolve_left some)⟩
    simpa using covers

end Parser

namespace Node

variable {text : String} {errors : List Diagnostic} {node : Node}

/-- Roles do not matter, and more problems do no harm. -/
theorem IsExact.carry {found : Node} {reported : List Diagnostic} (exact : found.IsExact text reported)
    (kind : found.kind = node.kind) (span : found.span = node.span) (children : found.children = node.children)
    (subset : reported ⊆ errors) : node.IsExact text errors := by
  obtain ⟨sort, _, role, _⟩ := node
  obtain ⟨_, _, own, _⟩ := found
  cases kind
  cases span
  cases children
  cases sort with
  | identPath fromRoot =>
    obtain ⟨names, dangling, kinds, covers, rooted, ends, missing⟩ := exact
    exact ⟨names, dangling, kinds, covers, rooted, ends, fun broken => subset (missing broken)⟩
  | string value =>
    obtain ⟨inside, closing, covers, value, closes | ⟨none, unterminated⟩⟩ := exact
    · exact ⟨inside, closing, covers, value, .inl closes⟩
    · exact ⟨inside, closing, covers, value, .inr ⟨none, subset unterminated⟩⟩
  | resourceLocation space path => cases space <;> exact exact
  | _ => exact exact

/-- A node is as exact as what its production finds. -/
theorem IsFound.isExact {production : Production} (found : node.IsFound text errors production)
    (exact : ∀ {cursor parsed}, Cursor.ofText text ≤ cursor → production cursor = some parsed →
      parsed.node.IsExact text parsed.errors) : node.IsExact text errors := by
  obtain ⟨cursor, parsed, behind, read, reported, kind, span, children⟩ := found
  exact (exact behind read).carry kind span children reported

theorem Traced.isExact (traced : node.Traced text errors) : node.IsExact text errors := by
  obtain ⟨kind, span, role, children⟩ := node
  cases kind with
  | keyword word => exact (traced.found _ rfl).isExact Parser.keywordToken_exact
  | identifier value => exact (traced.found _ rfl).isExact Parser.identifier_exact
  | string value => exact (traced.found _ rfl).isExact Parser.string_exact
  | number value => exact (traced.found _ rfl).isExact Parser.number_exact
  | boolean value => exact (traced.found _ rfl).isExact Parser.boolean_exact
  | resourceLocation space path => exact (traced.found _ rfl).isExact Parser.resourceLocation_exact
  | identPath fromRoot => exact (traced.found _ rfl).isExact Parser.identPath_exact
  | primitiveType primitive => exact (traced.found _ rfl).isExact Parser.primitiveType_exact
  | _ => exact trivial

end Node

/-- In the tree of every text, whether of a document or of a table, each token and each path lies exactly
where it is written. -/
theorem parsed_leaves_exact (text : String) (trailing : TrailingPolicy) :
    (∀ node ∈ (parse text trailing).node.preorder, node.IsExact text (parse text trailing).errors) ∧
      ∀ node ∈ (parseTable text trailing).node.preorder, node.IsExact text (parseTable text trailing).errors :=
  ⟨fun node member => (parse_traced text trailing node member).isExact,
    fun node member => (parseTable_traced text trailing node member).isExact⟩

end SchemaDoc
