import SchemaDoc.Proofs.SequenceLaws
import SchemaDoc.Proofs.TokenReading

/-! Tokens that are spread over a text are read one after the other. A cursor stands at the first of
them or in the gap in front of it; every reader takes the tokens of its construct and leaves the
cursor in front of the others. -/

namespace SchemaDoc.Parser

open Grammar

structure Ahead (tokens : List Token) (cursor : Cursor) : Prop where
  whole : cursor.Whole
  spread : Spread tokens cursor.rest

structure Behind (tokens : List Token) (cursor : Cursor) : Prop where
  whole : cursor.Whole
  spread : ∃ gap chars, cursor.rest = gap ++ chars ∧ Trivia chars gap ∧ Spread tokens chars

theorem Ahead.behind {tokens : List Token} {cursor : Cursor} (ahead : Ahead tokens cursor) : Behind tokens cursor :=
  ⟨ahead.whole, [], _, rfl, .nil, ahead.spread⟩

def Settles (token : Token) (tokens : List Token) : Prop :=
  ∀ rest, (tokens ≠ [] → Gapped rest) → Settled (token.text ++ rest)

theorem length_le_of_spread {tokens : List Token} {chars : List Char} (spread : Spread tokens chars) :
    tokens.length ≤ chars.length + 1 := by
  induction spread with
  | nil => exact Nat.zero_le _
  | last => simp
  | cons spaced more ih =>
    obtain ⟨char, filler, rfl, _⟩ := spaced
    simp only [List.length_cons, List.length_append] at ih ⊢
    omega

theorem Behind.length_le {tokens : List Token} {cursor : Cursor} (behind : Behind tokens cursor) :
    tokens.length ≤ cursor.remaining := by
  obtain ⟨gap, chars, split, _, spread⟩ := behind.spread
  have room := behind.whole.length_lt
  have bound := length_le_of_spread spread
  rw [split, List.length_append] at room
  omega

theorem Ahead.take {token : Token} {tokens : List Token} {cursor : Cursor} (ahead : Ahead (token :: tokens) cursor) :
    ∃ rest, cursor.rest = token.text ++ rest ∧ (tokens ≠ [] → Gapped rest) ∧
      Behind tokens (cursor.moveTo token.text rest) := by
  obtain ⟨whole, spread⟩ := ahead
  generalize chars : cursor.rest = text at spread
  cases spread with
  | last trivia =>
    refine ⟨_, rfl, fun some => absurd rfl some, whole.moveTo chars, _, [], ?_, trivia, .nil⟩
    simp
  | cons spaced more =>
    obtain ⟨char, filler, rfl, isFiller, first⟩ := spaced
    have blank : Text.isBlank char = true := by
      split at first
      · subst first
        decide
      · exact first
    have gapped : ∀ rest, Gapped (char :: filler ++ rest) := fun _ => ⟨_, _, rfl, blank⟩
    exact ⟨_, rfl, fun _ => gapped _, whole.moveTo chars, _, _, rfl, .blank blank (isFiller _), more⟩

theorem ahead_skipTrivia {token : Token} {tokens : List Token} {cursor : Cursor} {gap chars : List Char}
    (whole : cursor.Whole) (split : cursor.rest = gap ++ chars) (trivia : Trivia chars gap)
    (spread : Spread (token :: tokens) chars) (settles : Settles token tokens) :
    Ahead (token :: tokens) cursor.skipTrivia := by
  have ahead : Ahead (token :: tokens) (cursor.moveTo gap chars) := ⟨whole.moveTo split, spread⟩
  have settled : Settled chars := by
    obtain ⟨rest, rfl, gapped, _⟩ := ahead.take
    exact settles rest gapped
  rw [Cursor.skipTrivia_of_trivia split trivia settled]
  exact ahead

theorem Behind.skipTrivia {token : Token} {tokens : List Token} {cursor : Cursor}
    (behind : Behind (token :: tokens) cursor) (settles : Settles token tokens) :
    Ahead (token :: tokens) cursor.skipTrivia := by
  obtain ⟨whole, gap, chars, split, trivia, spread⟩ := behind
  exact ahead_skipTrivia whole split trivia spread settles

theorem Ahead.skipTrivia {token : Token} {tokens : List Token} {cursor : Cursor}
    (ahead : Ahead (token :: tokens) cursor) (settles : Settles token tokens) : cursor.skipTrivia = cursor := by
  obtain ⟨rest, split, gapped, _⟩ := ahead.take
  have settled : Settled cursor.rest := split ▸ settles rest gapped
  have same := Cursor.skipTrivia_of_trivia (List.nil_append cursor.rest).symm .nil settled
  rw [same]
  exact Cursor.moveTo_nil rfl

def Opens (text : List Char) : Prop :=
  ∃ char more, text = char :: more ∧ Text.isBlank char = false ∧ char ≠ '/'

theorem Opens.settles {token : Token} (opens : Opens token.text) (tokens : List Token) : Settles token tokens := by
  obtain ⟨char, more, text, notBlank, notSlash⟩ := opens
  intro rest _
  rw [text]
  refine ⟨by simpa using notBlank, ?_⟩
  rintro ⟨line, same, _⟩
  exact notSlash (List.cons.inj same).1

theorem Opens.append {text : List Char} (opens : Opens text) (more : List Char) : Opens (text ++ more) := by
  obtain ⟨char, rest, rfl, notBlank, notSlash⟩ := opens
  exact ⟨char, rest ++ more, rfl, notBlank, notSlash⟩

theorem opens_identifier (name : Identifier) : Opens name.text := by
  obtain ⟨notBlank, notSlash⟩ := isIdentifierStart_visible name.starts
  exact ⟨_, _, rfl, notBlank, notSlash⟩

theorem opens_path (path : Path) : Opens path.text := by
  cases root : path.fromRoot with
  | true => exact ⟨':', _, by rw [Path.text, root]; rfl, by decide, by decide⟩
  | false =>
    rw [Path.text, root]
    exact (opens_identifier path.first).append _

theorem opens_quoted (quoted : Quoted) : Opens quoted.text := ⟨'"', _, rfl, by decide, by decide⟩

theorem opens_literal (value : Literal) : Opens value.text := by
  cases value with
  | string quoted => exact opens_quoted quoted
  | number decimal =>
    obtain ⟨char, more, text, starts⟩ := decimal.text_starts
    refine ⟨char, more, text, ?_, ?_⟩
    · rcases starts with rfl | isDigit
      · decide
      · have code := isDigit_code isDigit
        exact notBlank_of_visible (by omega) (by omega)
    · rintro rfl
      simp at starts
  | boolean value =>
    cases value with
    | true => exact ⟨'t', _, rfl, by decide, by decide⟩
    | false => exact ⟨'f', _, rfl, by decide, by decide⟩

theorem opens_key (key : Key) : Opens key.text := by
  cases key with
  | identifier name => exact opens_identifier name
  | string quoted => exact opens_quoted quoted

private theorem spells_wrap {kind : Node.Kind} {role : Node.Role} {cursor : Cursor} {text rest : List Char} {tree : Node}
    {parsed : Parsed} (spells : parsed.Spells cursor text rest tree) (plain : kind.bare = kind) :
    (wrap kind role parsed).Spells cursor text rest (made kind [tree.tagged role]) := by
  refine ⟨spells.next, ?_, spells.clean⟩
  rw [Node.bare_eq]
  simp only [wrap, plain, List.map_cons, List.map_nil, Node.bare_tagged, spells.bare, made]

private theorem no_bracket {cursor : Cursor} {char : Char} (first : cursor.rest.head? = some char) (other : char ≠ '[') :
    cursor.read? "[" = none := by
  have unseen : cursor.rest.head? ≠ some '[' := by
    rw [first]
    simpa using other
  exact Cursor.read?_eq_none rfl unseen

theorem literalType_takes (item : Production) (value : Literal) :
    (primaryType item).Takes value.text (made .literalType [value.tree.tagged .value]) := by
  intro cursor rest whole split closes
  obtain ⟨parsed, found, spells⟩ := literal_takes value whole split closes
  have head : ∃ char, cursor.rest.head? = some char ∧ char ≠ '[' := by
    cases value with
    | string quoted => exact ⟨'"', by simp [split, Literal.text, Quoted.text], by decide⟩
    | number decimal =>
      obtain ⟨char, more, text, starts⟩ := decimal.text_starts
      refine ⟨char, by simp [split, Literal.text, text], ?_⟩
      rintro rfl
      simp at starts
    | boolean value =>
      cases value with
      | true => exact ⟨'t', by simp [split, Literal.text], by decide⟩
      | false => exact ⟨'f', by simp [split, Literal.text], by decide⟩
  obtain ⟨char, first, other⟩ := head
  refine ⟨_, ?_, spells_wrap spells rfl⟩
  simp [primaryType, no_bracket first other, found]

theorem primitiveName_takes (item : Production) (primitive : Primitive) :
    (primaryType item).Takes primitive.name.toList (made (.primitiveType primitive) []) := by
  intro cursor rest whole split closes
  obtain ⟨parsed, found, spells⟩ := primitiveType_takes primitive whole split closes
  have isWord : IsWord primitive.name := by
    cases primitive <;> exact isWord_of_chars rfl (by decide) (by decide)
  have word := isWord.word split closes
  have head : ∃ char, cursor.rest.head? = some char ∧ char ≠ '[' ∧ 58 ≤ char.toNat := by
    rw [split]
    cases primitive <;> exact ⟨_, rfl, by decide, by decide⟩
  obtain ⟨char, first, other, high⟩ := head
  obtain ⟨noString, noNumber⟩ := no_literal_of_head first high
  have noBoolean : boolean cursor = none := by
    apply boolean_eq_none
    · rw [word]
      cases primitive <;> decide
    · rw [word]
      cases primitive <;> decide
  refine ⟨parsed, ?_, spells⟩
  simp [primaryType, no_bracket first other, literal, Production.orElse, noString, noNumber, noBoolean, found]

theorem path_word (path : Path) {cursor : Cursor} {rest : List Char} (split : cursor.rest = path.text ++ rest)
    (closes : Closes rest) : cursor.word = if path.fromRoot then [] else path.first.text := by
  cases root : path.fromRoot with
  | true =>
    have ahead : ∃ more, cursor.rest = ':' :: more := ⟨_, by rw [split, Path.text, root]; rfl⟩
    obtain ⟨more, colon⟩ := ahead
    have noStart : isIdentifierStart ':' = false := by decide
    simp [Cursor.word, colon, noStart]
  | false =>
    have ahead : cursor.rest = path.first.text ++
        ((path.more.flatMap fun segment => "::".toList ++ segment.text) ++ rest) := by
      rw [split, Path.text, root]
      simp
    exact Cursor.word_of_rest ahead (segment_outside closes)

theorem referenceType_takes (item : Production) (path : Path) (avoids : path.Avoids typeWords) :
    (primaryType item).Takes path.text (made .referenceType [path.tree.tagged .path]) := by
  intro cursor rest whole split closes
  obtain ⟨parsed, found, spells⟩ := identPath_takes path whole split closes
  have word := path_word path split closes
  have notType : String.ofList cursor.word ∉ typeWords := by
    rw [word]
    rcases avoids with root | other
    · rw [root, if_pos rfl]
      decide
    · split
      · decide
      · exact other
  have head : ∃ char, cursor.rest.head? = some char ∧ char ≠ '[' ∧ 58 ≤ char.toNat := by
    rw [split, Path.text]
    cases path.fromRoot with
    | true => exact ⟨':', rfl, by decide, by decide⟩
    | false =>
      have code := isIdentifierStart_code path.first.starts
      refine ⟨path.first.first, rfl, ?_, by omega⟩
      intro same
      rw [same] at code
      revert code
      decide
  obtain ⟨char, first, other, high⟩ := head
  obtain ⟨noString, noNumber⟩ := no_literal_of_head first high
  have noBoolean : boolean cursor = none := by
    apply boolean_eq_none
    · intro same
      exact notType (by simp [same, typeWords])
    · intro same
      exact notType (by simp [same, typeWords])
  have noPrimitive : primitiveType cursor = none := by
    have unnamed : Primitive.ofName? (String.ofList cursor.word) = none := by
      refine List.find?_eq_none.mpr ?_
      intro primitive member named
      apply notType
      rw [← beq_iff_eq.mp named]
      exact List.mem_cons_of_mem _ (List.mem_cons_of_mem _ (List.mem_map_of_mem member))
    simp [primitiveType, unnamed]
  refine ⟨_, ?_, spells_wrap spells rfl⟩
  simp [primaryType, no_bracket first other, literal, Production.orElse, noString, noNumber, noBoolean, noPrimitive, found]

/-- What was read is the tree, without a problem, and the tokens come next. -/
structure Yields (tokens : List Token) (tree : Node) (parsed : Parsed) : Prop where
  bare : parsed.node.bare = tree
  clean : parsed.errors = []
  behind : Behind tokens parsed.next

theorem yields_of_takes {production : Production} {text : List Char} {tree : Node} (takes : production.Takes text tree)
    {tokens : List Token} {cursor : Cursor} (followed : tokens ≠ []) (ahead : Ahead ({ text } :: tokens) cursor) :
    ∃ parsed, production cursor = some parsed ∧ Yields tokens tree parsed := by
  obtain ⟨rest, split, gapped, behind⟩ := ahead.take
  obtain ⟨parsed, found, spells⟩ := takes ahead.whole split (gapped followed).closes
  exact ⟨parsed, found, spells.bare, spells.clean, spells.next ▸ behind⟩

private theorem bare_optionalTypes (node : Node) (offset marks : Nat) :
    (optionalTypes node offset (List.replicate marks '?')).bare = optionalTree node.bare marks := by
  induction marks generalizing node offset with
  | zero => rfl
  | succ marks ih =>
    rw [List.replicate_succ, optionalTypes, ih, optionalTree]
    simp only [Node.bare_eq, Node.Kind.bare, made, Node.tagged, List.map_cons, List.map_nil]

private theorem typeWithin_marks {depth marks : Nat} {cursor : Cursor} {rest : List Char} {primary : Parsed}
    (found : primaryType (typeWithin depth) cursor = some primary)
    (split : primary.next.rest = List.replicate marks '?' ++ rest) (gapped : Gapped rest) :
    ∃ parsed, typeWithin (depth + 1) cursor = some parsed ∧ parsed.node.bare = optionalTree primary.node.bare marks ∧
      parsed.errors = primary.errors ∧ parsed.next = primary.next.moveTo (List.replicate marks '?') rest := by
  have outside : ∀ char ∈ rest.head?, (char == '?') = false := by
    obtain ⟨char, more, rfl, blank⟩ := gapped
    intro other member
    obtain rfl : char = other := by simpa using member
    apply Bool.eq_false_iff.mpr
    intro mark
    rw [beq_iff_eq.mp mark] at blank
    revert blank
    decide
  have read : primary.next.readWhile (· == '?') = _ := Cursor.readWhile_of_rest split (by simp) outside
  let node := optionalTypes primary.node primary.next.offset (List.replicate marks '?')
  let next := primary.next.moveTo (List.replicate marks '?') rest
  have foundAll : typeWithin (depth + 1) cursor = some { primary with node, next } := by
    simp only [typeWithin, found, Option.map_some, read]
    rfl
  exact ⟨_, foundAll, bare_optionalTypes _ _ _, rfl, rfl⟩

/-- A type that is a single token: its primary type is taken, then its question marks. -/
private theorem leafType_reads {depth marks : Nat} {cursor : Cursor} {text : List Char} {tokens : List Token} {tree : Node}
    (takes : (primaryType (typeWithin depth)).Takes text tree) (followed : tokens ≠ [])
    (ahead : Ahead ({ text := text ++ List.replicate marks '?' } :: tokens) cursor) :
    ∃ parsed, typeWithin (depth + 1) cursor = some parsed ∧ Yields tokens (optionalTree tree marks) parsed := by
  obtain ⟨rest, split, gapped, behind⟩ := ahead.take
  rw [List.append_assoc] at split
  obtain ⟨primary, found, spells⟩ := takes ahead.whole split ((gapped followed).marked marks)
  obtain ⟨parsed, foundAll, bare, errors, next⟩ :=
    typeWithin_marks found (by rw [spells.next]; rfl) (gapped followed)
  rw [spells.next, Cursor.moveTo_moveTo] at next
  exact ⟨parsed, foundAll, by rw [bare, spells.bare], errors.trans spells.clean, next ▸ behind⟩

theorem opens_firstToken (type : TypeExpr) : ∃ first more, type.tokens = first :: more ∧ Opens first.text := by
  cases type with
  | list item marks => exact ⟨_, _, rfl, '[', _, rfl, by decide, by decide⟩
  | literal value marks => exact ⟨_, _, rfl, (opens_literal value).append _⟩
  | primitive value marks =>
    refine ⟨_, _, rfl, Opens.append ?_ _⟩
    cases value <;> exact ⟨_, _, rfl, by decide, by decide⟩
  | reference path marks => exact ⟨_, _, rfl, (opens_path path).append _⟩

/-- A type is read with all the fuel that its tokens ask for. -/
theorem typeWithin_reads (type : TypeExpr) (readable : type.Readable) {fuel : Nat} {tokens : List Token} {cursor : Cursor}
    (enough : type.tokens.length ≤ fuel) (followed : tokens ≠ []) (ahead : Ahead (type.tokens ++ tokens) cursor) :
    ∃ parsed, typeWithin fuel cursor = some parsed ∧ Yields tokens type.tree parsed := by
  induction type generalizing fuel tokens cursor with
  | literal value marks =>
    obtain ⟨depth, rfl⟩ := Nat.exists_eq_add_of_le' enough
    exact leafType_reads (literalType_takes _ value) followed ahead
  | primitive value marks =>
    obtain ⟨depth, rfl⟩ := Nat.exists_eq_add_of_le' enough
    exact leafType_reads (primitiveName_takes _ value) followed ahead
  | reference path marks =>
    obtain ⟨depth, rfl⟩ := Nat.exists_eq_add_of_le' enough
    exact leafType_reads (referenceType_takes _ path readable) followed ahead
  | list item marks ih =>
    simp only [TypeExpr.tokens, List.length_cons, List.length_append, List.length_nil] at enough
    obtain ⟨depth, rfl⟩ : ∃ depth, fuel = depth + 1 := ⟨fuel - 1, by omega⟩
    simp only [TypeExpr.tokens, List.cons_append, List.append_assoc, List.nil_append] at ahead
    let closing : Token := { text := ']' :: List.replicate marks '?' }
    obtain ⟨rest, split, _, behind⟩ := ahead.take
    obtain ⟨first, more, tokensItem, opens⟩ := opens_firstToken item
    have inside : Ahead (item.tokens ++ closing :: tokens) (cursor.moveTo "[".toList rest).skipTrivia := by
      rw [tokensItem] at behind ⊢
      exact behind.skipTrivia (opens.settles _)
    have enoughItem : item.tokens.length ≤ depth := by omega
    obtain ⟨inner, found, yields⟩ := ih readable enoughItem (by simp) inside
    have closes : Settles closing tokens := Opens.settles ⟨']', _, rfl, by decide, by decide⟩ tokens
    have atClosing := yields.behind.skipTrivia closes
    obtain ⟨last, splitClosing, gapped, behindAll⟩ := atClosing.take
    have bracket : inner.next.skipTrivia.rest = "]".toList ++ (List.replicate marks '?' ++ last) := splitClosing
    let closed := inner.next.skipTrivia.moveTo "]".toList (List.replicate marks '?' ++ last)
    let node : Node := ⟨.listType, ⟨cursor.offset, closed.offset⟩, none, [inner.node.tagged .type]⟩
    have primary : primaryType (typeWithin depth) cursor = some { node, errors := inner.errors, next := closed } := by
      simp only [primaryType, Cursor.read?_of_rest split, listType, Fragment.required, found, Fragment.ofParsed,
        Fragment.skipTrivia, Cursor.read?_of_rest bracket]
      rfl
    obtain ⟨parsed, foundAll, bare, errors, next⟩ := typeWithin_marks primary rfl (gapped followed)
    simp only [closed, Cursor.moveTo_moveTo] at next
    refine ⟨parsed, foundAll, ?_, errors.trans yields.clean, next ▸ behindAll⟩
    have listed : node.bare = made .listType [item.tree.tagged .type] := by
      rw [Node.bare_eq]
      simp only [node, Node.Kind.bare, List.map_cons, List.map_nil, Node.bare_tagged, yields.bare, made]
    rw [bare, listed, TypeExpr.tree]

theorem typeExpr_reads {type : TypeExpr} (readable : type.Readable) {tokens : List Token} {cursor : Cursor}
    (followed : tokens ≠ []) (ahead : Ahead (type.tokens ++ tokens) cursor) :
    ∃ parsed, typeExpr cursor = some parsed ∧ Yields tokens type.tree parsed := by
  have enough := ahead.behind.length_le
  rw [List.length_append] at enough
  exact typeWithin_reads type readable (by omega) followed ahead

theorem settles_doc (doc : DocLine) (tokens : List Token) :
    Settles { text := "/// ".toList ++ doc.line, isDoc := true } tokens := by
  intro rest _
  refine ⟨by simp; decide, ?_⟩
  rintro ⟨line, same, noDoc⟩
  obtain rfl : '/' :: ' ' :: (doc.line ++ rest) = line := by simpa using same
  exact noDoc rfl

private theorem docLine_text (doc : DocLine) :
    Cursor.docLine ("/// ".toList ++ doc.line) = (doc.line, byteLength ("/// ".toList ++ doc.line)) := by
  have noReturn : ("/// ".toList ++ doc.line).reverse.dropWhile (· == '\r') = ("/// ".toList ++ doc.line).reverse := by
    cases last : ("/// ".toList ++ doc.line).reverse with
    | nil => rfl
    | cons char more =>
      have member : char ∈ "/// ".toList ++ doc.line := by
        rw [← List.mem_reverse, last]
        exact List.mem_cons_self ..
      have other : (char == '\r') = false := by
        apply Bool.eq_false_iff.mpr
        intro isReturn
        rw [beq_iff_eq.mp isReturn] at member
        rcases List.mem_append.mp member with member | member
        · revert member
          decide
        · exact doc.noReturn member
      simp [other]
  simp only [Cursor.docLine, noReturn, List.reverse_reverse]
  rfl

private theorem docLine_reads_token {doc : DocLine} {first : Token} {tokens : List Token} {cursor : Cursor}
    (ahead : Ahead ({ text := "/// ".toList ++ doc.line, isDoc := true } :: first :: tokens) cursor)
    (settles : Settles first tokens) :
    cursor.startsWith "///" = true ∧ cursor.readLine.1 = "/// ".toList ++ doc.line ∧
      Ahead (first :: tokens) cursor.readLine.2.skipTrivia := by
  obtain ⟨whole, spread⟩ := ahead
  generalize chars : cursor.rest = text at spread
  cases spread with
  | @cons _ _ _ gap behind spaced more =>
    obtain ⟨char, filler, rfl, isFiller, isNewline⟩ := spaced
    obtain rfl : char = '\n' := isNewline
    have slashLine : ∀ char ∈ "/// ".toList, (char != '\n') = true := by simp
    have oneLine : ∀ char ∈ "/// ".toList ++ doc.line, (char != '\n') = true := by
      intro char member
      rcases List.mem_append.mp member with member | member
      · exact slashLine char member
      · simpa using fun same : char = '\n' => doc.noNewline (same ▸ member)
    have line : cursor.readLine = ("/// ".toList ++ doc.line,
        cursor.moveTo ("/// ".toList ++ doc.line ++ ['\n']) (filler ++ behind)) := by
      simp only [Cursor.readLine, List.span_eq_takeWhile_dropWhile, chars]
      rw [List.takeWhile_append_of_pos oneLine, List.dropWhile_append_of_pos oneLine]
      simp
    have split : cursor.rest = "/// ".toList ++ doc.line ++ ['\n'] ++ (filler ++ behind) := by
      rw [chars]
      simp
    have slashes : cursor.rest = "///".toList ++ (' ' :: (doc.line ++ ('\n' :: filler ++ behind))) := by
      rw [chars]
      rfl
    rw [line]
    exact ⟨Cursor.startsWith_of_rest slashes, rfl,
      ahead_skipTrivia (whole.moveTo split) rfl (isFiller behind) more settles⟩

/-- Doc comments are read up to the first token behind them. -/
private theorem docLines_reads_tokens (docs : List DocLine) {fuel stop : Nat} {first : Token} {tokens : List Token}
    {cursor : Cursor} (enough : docs.length < fuel) (opens : Opens first.text)
    (ahead : Ahead (docTokens docs ++ first :: tokens) cursor) :
    ∃ ending last, Cursor.docLines fuel stop cursor = (docs.map DocLine.line, ending, last) ∧
      Ahead (first :: tokens) last := by
  induction docs generalizing fuel stop cursor with
  | nil =>
    obtain ⟨fuel, rfl⟩ := Nat.exists_eq_add_of_lt enough
    obtain ⟨char, more, text, _, notSlash⟩ := opens
    obtain ⟨rest, split, _⟩ := ahead.take
    have unseen : cursor.rest.head? ≠ some '/' := by
      rw [split, text]
      simpa using notSlash
    have noDoc : cursor.startsWith "///" = false := Cursor.startsWith_eq_false rfl unseen
    exact ⟨stop, cursor, by simp [Cursor.docLines, noDoc], ahead⟩
  | cons doc docs ih =>
    rw [List.length_cons] at enough
    obtain ⟨fuel, rfl⟩ : ∃ less, fuel = less + 1 := ⟨fuel - 1, by omega⟩
    have onward : cursor.startsWith "///" = true ∧ cursor.readLine.1 = "/// ".toList ++ doc.line ∧
        Ahead (docTokens docs ++ first :: tokens) cursor.readLine.2.skipTrivia := by
      cases docs with
      | nil => exact docLine_reads_token ahead (opens.settles _)
      | cons next docs => exact docLine_reads_token ahead (settles_doc next _)
    obtain ⟨starts, line, next⟩ := onward
    have enoughMore : docs.length < fuel := by omega
    let ending := cursor.offset + byteLength ("/// ".toList ++ doc.line)
    have rest : ∃ stop last, Cursor.docLines fuel ending cursor.readLine.2.skipTrivia =
        (docs.map DocLine.line, stop, last) ∧ Ahead (first :: tokens) last := ih enoughMore next
    obtain ⟨stop, last, found, reached⟩ := rest
    refine ⟨stop, last, ?_, reached⟩
    simp only [Cursor.docLines, starts, if_true, line, docLine_text]
    rw [found]
    rfl

/-- The doc comments in front of something, and the cursor behind them. -/
theorem docs_read (docs : List DocLine) {first : Token} {tokens : List Token} {cursor : Cursor}
    (opens : Opens first.text) (ahead : Ahead (docTokens docs ++ first :: tokens) cursor) :
    (docTree docs = [] ∧ cursor.readDocComments? = none ∧ Ahead (first :: tokens) cursor) ∨
    ∃ doc next, cursor.readDocComments? = some (doc, next) ∧ docTree docs = [(doc.tagged .doc).bare] ∧
      Ahead (first :: tokens) next := by
  have room := ahead.behind.length_le
  have enough : docs.length < cursor.remaining := by
    simp only [docTokens, List.length_append, List.length_map, List.length_cons] at room
    omega
  obtain ⟨ending, last, found, behind⟩ := docLines_reads_tokens docs enough opens ahead
  cases docs with
  | nil => exact .inl ⟨rfl, by rw [Cursor.readDocComments?, found]; rfl, ahead⟩
  | cons doc docs =>
    right
    simp only [Cursor.readDocComments?, found, List.map_cons]
    refine ⟨_, _, rfl, ?_, behind⟩
    rw [Node.bare_tagged, Node.bare_eq]
    simp only [docTree, made, Node.tagged, Node.Kind.bare, List.map_cons, List.map_nil, List.map_map, Function.comp_def]

end SchemaDoc.Parser
