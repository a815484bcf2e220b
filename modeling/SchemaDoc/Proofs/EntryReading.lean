import SchemaDoc.Parser.Document
import SchemaDoc.Proofs.SpreadReading

/-! Pairs and sequences are read back from their tokens. The loop over the entries is followed entry
by entry: behind each one stands a comma or the closing token, and nothing else is tried. -/

namespace SchemaDoc.Parser

open Grammar

theorem Ahead.read? {text : String} {tokens : List Token} {cursor : Cursor} (ahead : Ahead (token text :: tokens) cursor) :
    ∃ next, cursor.read? text = some next ∧ cursor.startsWith text = true ∧ Behind tokens next := by
  obtain ⟨rest, split, _, behind⟩ := ahead.take
  exact ⟨_, Cursor.read?_of_rest split, Cursor.startsWith_of_rest split, behind⟩

theorem Ahead.head_ne {first : Token} {tokens : List Token} {cursor : Cursor} (ahead : Ahead (first :: tokens) cursor)
    {char : Char} {text : List Char} (spelled : first.text = char :: text) {other : Char} (different : char ≠ other) :
    cursor.rest.head? ≠ some other := by
  obtain ⟨rest, split, _⟩ := ahead.take
  rw [split, spelled]
  simpa using different

theorem required_of_found {production : Production} {role : Node.Role} {message : Message} {cursor : Cursor}
    {parsed : Parsed} (found : production cursor = some parsed) :
    Fragment.required production role message cursor = .ofParsed parsed role := by
  simp only [Fragment.required, found]

namespace PairGrammar

private theorem doc_reads {grammar : PairGrammar} (withDocs : grammar.docs = true) {docs : List DocLine} {first : Token}
    {tokens : List Token} {cursor : Cursor} (opens : Opens first.text)
    (ahead : Ahead (docTokens docs ++ first :: tokens) cursor) :
    (grammar.doc cursor).nodes.map Node.bare = docTree docs ∧ (grammar.doc cursor).errors = [] ∧
      Ahead (first :: tokens) (grammar.doc cursor).next := by
  rcases docs_read docs opens ahead with ⟨none, unread, here⟩ | ⟨node, next, read, tree, behind⟩
  · simp only [doc, withDocs, if_true, unread, none]
    exact ⟨rfl, rfl, here⟩
  · simp only [doc, withDocs, if_true, read, tree]
    exact ⟨rfl, trivial, behind⟩

/-- A pair is read from its doc comments, its key, its separator and the tokens of its value. -/
theorem pair_reads {grammar : PairGrammar} (withDocs : grammar.docs = true) (keys : grammar.key.Lawful)
    {docs : List DocLine} {key : List Char} {keyTree valueTree : Node} {value tokens : List Token} {cursor : Cursor}
    (takes : grammar.key.Takes key keyTree) (opensKey : Opens key) (opensSeparator : Opens grammar.separator.toList)
    (opensValue : ∃ first more, value = first :: more ∧ Opens first.text)
    (reads : ∀ cursor, Ahead (value ++ tokens) cursor →
      ∃ parsed, grammar.value cursor = some parsed ∧ Yields tokens valueTree parsed)
    (ahead : Ahead (docTokens docs ++ { text := key } :: token grammar.separator :: (value ++ tokens)) cursor) :
    Yields tokens (made (.pair none none) (docTree docs ++ [keyTree.tagged .key, valueTree.tagged .value]))
      (grammar.pair cursor) ∧ (grammar.pair cursor).node.span.isEmpty = false := by
  obtain ⟨docBare, docClean, atKey⟩ := doc_reads withDocs opensKey ahead
  unfold pair
  dsimp only [Fragment.andThen, Fragment.skipTrivia]
  generalize grammar.doc cursor = doc at docBare docClean atKey
  obtain ⟨keyParsed, keyFound, keyYields⟩ := yields_of_takes takes (by simp) atKey
  have settles : Settles (token grammar.separator) (value ++ tokens) := opensSeparator.settles _
  have atSeparator := keyYields.behind.skipTrivia settles
  obtain ⟨middle, separated, _, behind⟩ := atSeparator.read?
  obtain ⟨first, more, tokensValue, opensFirst⟩ := opensValue
  have atValue : Ahead (value ++ tokens) middle.skipTrivia := by
    rw [tokensValue] at behind ⊢
    exact behind.skipTrivia (opensFirst.settles _)
  obtain ⟨valueParsed, valueFound, valueYields⟩ := reads _ atValue
  rw [required_of_found keyFound]
  simp only [Fragment.ofParsed, separated, Option.getD_some]
  rw [required_of_found valueFound]
  simp only [Fragment.ofParsed]
  refine ⟨⟨?_, ?_, valueYields.behind⟩, ?_⟩
  · rw [Node.bare_eq]
    simp [Node.Kind.bare, docBare, Node.bare_tagged, keyYields.bare, valueYields.bare, made]
  · simp [docClean, keyYields.clean, valueYields.clean]
  · obtain ⟨last, _, advances, _, span⟩ := (keys keyFound).frame
    have covered : ∀ {fallback : Span} {spans : List Span}, keyParsed.node.span ∈ spans →
        (Span.coverAll fallback spans).isEmpty = false := by
      intro fallback spans member
      have within : (Span.coverAll fallback spans).contains keyParsed.node.span = true := Span.coverAll_contains member
      obtain ⟨lower, upper⟩ := Span.contains_iff.mp within
      rw [span] at lower upper
      simp only [Span.isEmpty, beq_eq_false_iff_ne, ne_eq]
      simp only [Cursor.spanTo] at lower upper
      omega
    apply covered
    simp [Node.tagged]

end PairGrammar

/-- An item is read from the token of its value. -/
theorem item_reads {value : Production} (lawful : value.Lawful) {text : List Char} {tree : Node} {tokens : List Token}
    {cursor : Cursor} (takes : value.Takes text tree) (followed : tokens ≠ [])
    (ahead : Ahead ({ text } :: tokens) cursor) :
    Yields tokens (made (.item none) [tree.tagged .value]) (item value cursor) ∧
      (item value cursor).node.span.isEmpty = false := by
  obtain ⟨parsed, found, yields⟩ := yields_of_takes takes followed ahead
  obtain ⟨last, _, advances, _, span⟩ := (lawful found).frame
  simp only [item, found]
  refine ⟨⟨?_, yields.clean, yields.behind⟩, ?_⟩
  · rw [Node.bare_eq]
    simp only [Node.Kind.bare, List.map_cons, List.map_nil, Node.bare_tagged, yields.bare, made]
  · simp only [span, Cursor.spanTo, Span.isEmpty, beq_eq_false_iff_ne, ne_eq]
    omega

structure EntryReads {α : Type} (grammar : EntryGrammar) (close : Char) (tokensOf : α → List Token) (treeOf : α → Node)
    (entry : α) : Prop where
  starts : ∃ first more char text, tokensOf entry = first :: more ∧ first.text = char :: text ∧ char ≠ close ∧
    ∀ others, others ≠ [] → Settles first (more ++ others)
  reads : ∀ cursor others, others ≠ [] → Ahead (tokensOf entry ++ others) cursor →
    Yields others (treeOf entry) (grammar.entry cursor) ∧ (grammar.entry cursor).node.span.isEmpty = false

theorem EntryReads.some {α : Type} {grammar : EntryGrammar} {close : Char} {tokensOf : α → List Token}
    {treeOf : α → Node} {entry : α} (reading : EntryReads grammar close tokensOf treeOf entry) : tokensOf entry ≠ [] := by
  obtain ⟨first, more, _, _, tokens, _⟩ := reading.starts
  simp [tokens]

/-- The cursor stands at an entry, and not at the closing token. -/
theorem EntryReads.present {α : Type} {grammar : EntryGrammar} {close : Char} {tokensOf : α → List Token}
    {treeOf : α → Node} {entry : α} (reading : EntryReads grammar close tokensOf treeOf entry) {closing : String}
    (spelled : closing.toList = [close]) {others : List Token} {cursor : Cursor}
    (ahead : Ahead (tokensOf entry ++ others) cursor) :
    cursor.atEnd = false ∧ cursor.startsWith closing = false := by
  obtain ⟨first, more, char, text, tokens, firstText, different, _⟩ := reading.starts
  rw [tokens] at ahead
  obtain ⟨rest, split, _⟩ := ahead.take
  refine ⟨?_, Cursor.startsWith_eq_false spelled (ahead.head_ne firstText different)⟩
  simp [Cursor.atEnd, split, firstText]

private theorem commaTokens_cons {α : Type} (tokensOf : α → List Token) (comma : Bool) (entry : α) (list : List α) :
    ∃ others, commaTokens tokensOf comma (entry :: list) = tokensOf entry ++ others := by
  cases list with
  | nil => exact ⟨_, rfl⟩
  | cons next list => exact ⟨_, rfl⟩

private theorem length_le_commaTokens {α : Type} (tokensOf : α → List Token) (comma : Bool) (list : List α)
    (some : ∀ entry ∈ list, tokensOf entry ≠ []) : list.length ≤ (commaTokens tokensOf comma list).length := by
  induction list with
  | nil => exact Nat.zero_le _
  | cons entry list ih =>
    have positive := List.length_pos_iff.mpr (some entry (List.mem_cons_self ..))
    have rest := ih (fun other member => some other (List.mem_cons_of_mem _ member))
    cases list with
    | nil =>
      simp only [commaTokens, List.length_append, List.length_cons, List.length_nil]
      omega
    | cons next list =>
      simp only [commaTokens, List.length_append, List.length_cons] at rest ⊢
      omega

/-- What the loop returns when it read the entries as trees and stands at the closing token. -/
structure ReadAll (trees : List Node) (tokens : List Token) (entries : Entries) : Prop where
  bare : entries.nodes.map Node.bare = trees
  clean : entries.errors = []
  ahead : Ahead tokens entries.next

structure ClosedBy (close : Char) (delimiters : Delimiters) : Prop where
  allowed : delimiters.trailing = .allowed
  spelled : delimiters.closing.toList = [close]
  visible : Text.isBlank close = false
  noSlash : close ≠ '/'
  noComma : close ≠ ','

theorem ClosedBy.opens {close : Char} {delimiters : Delimiters} (closed : ClosedBy close delimiters) :
    Opens (token delimiters.closing).text := ⟨close, [], closed.spelled, closed.visible, closed.noSlash⟩

theorem opens_comma : Opens (token ",").text := ⟨',', [], rfl, by decide, by decide⟩

section Loop

variable {α : Type} {delimiters : Delimiters} {grammar : EntryGrammar} {close : Char} {tokensOf : α → List Token}
  {treeOf : α → Node} {entry : α} {fuel stop : Nat} {tokens : List Token} {cursor : Cursor}

private theorem entries_last (closed : ClosedBy close delimiters) (reading : EntryReads grammar close tokensOf treeOf entry)
    (ahead : Ahead (tokensOf entry ++ token delimiters.closing :: tokens) cursor.skipTrivia) :
    ReadAll [treeOf entry] (token delimiters.closing :: tokens) (entries delimiters grammar (fuel + 1) stop cursor) := by
  obtain ⟨more, absent⟩ := reading.present closed.spelled ahead
  obtain ⟨yields, some⟩ := reading.reads _ _ (by simp) ahead
  have atClosing := yields.behind.skipTrivia (closed.opens.settles tokens)
  obtain ⟨_, _, closes, _⟩ := atClosing.read?
  have unread : (grammar.entry cursor.skipTrivia).next.skipTrivia.read? entrySeparator = none :=
    Cursor.read?_eq_none rfl (atClosing.head_ne closed.spelled closed.noComma)
  simp only [entries, more, absent, unread, some, closes, Bool.or_self, Bool.false_eq_true, if_false, Bool.not_true,
    Bool.false_and]
  exact ⟨by simp [yields.bare], yields.clean, atClosing⟩

private theorem entries_lastComma (closed : ClosedBy close delimiters)
    (reading : EntryReads grammar close tokensOf treeOf entry)
    (ahead : Ahead (tokensOf entry ++ token "," :: token delimiters.closing :: tokens) cursor.skipTrivia) :
    ReadAll [treeOf entry] (token delimiters.closing :: tokens) (entries delimiters grammar (fuel + 1) stop cursor) := by
  obtain ⟨more, absent⟩ := reading.present closed.spelled ahead
  obtain ⟨yields, _⟩ := reading.reads _ _ (by simp) ahead
  obtain ⟨separated, read, _, behind⟩ := (yields.behind.skipTrivia (opens_comma.settles _)).read?
  have atClosing := behind.skipTrivia (closed.opens.settles tokens)
  obtain ⟨_, _, closes, _⟩ := atClosing.read?
  have silent : ∀ span, trailingErrors delimiters span = [] := by
    intro span
    rw [trailingErrors, closed.allowed]
  simp only [entries, more, absent, entrySeparator, read, closes, Bool.or_self, Bool.false_eq_true, if_false, if_true]
  refine ⟨?_, ?_, atClosing⟩
  · simp [Node.bare_endedBy, yields.bare]
  · simp [yields.clean, silent]

/-- Behind a comma the loop goes on with the next entry, and what it reads there comes behind this one. -/
private theorem entries_more (closed : ClosedBy close delimiters) (reading : EntryReads grammar close tokensOf treeOf entry)
    {next : α} (later : EntryReads grammar close tokensOf treeOf next) {others : List Token} (followed : others ≠ [])
    {trees : List Node} (ahead : Ahead (tokensOf entry ++ token "," :: (tokensOf next ++ others)) cursor.skipTrivia)
    (tail : ∀ stop cursor, Ahead (tokensOf next ++ others) (Cursor.skipTrivia cursor) →
      ReadAll trees tokens (entries delimiters grammar fuel stop cursor)) :
    ReadAll (treeOf entry :: trees) tokens (entries delimiters grammar (fuel + 1) stop cursor) := by
  obtain ⟨more, absent⟩ := reading.present closed.spelled ahead
  obtain ⟨yields, _⟩ := reading.reads _ _ (by simp) ahead
  obtain ⟨separated, read, _, behind⟩ := (yields.behind.skipTrivia (opens_comma.settles _)).read?
  obtain ⟨first, rest, _, _, tokensNext, _, _, settles⟩ := later.starts
  have split : tokensOf next ++ others = first :: (rest ++ others) := by rw [tokensNext, List.cons_append]
  rw [split] at behind
  have atNext := behind.skipTrivia (settles others followed)
  have still := atNext.skipTrivia (settles others followed)
  rw [← split] at atNext
  obtain ⟨_, notClosed⟩ := later.present closed.spelled atNext
  have rest := tail ((grammar.entry cursor.skipTrivia).next.skipTrivia.spanTo separated).stop separated.skipTrivia
    (still.symm ▸ atNext)
  rw [entries]
  simp only [more, absent, entrySeparator, read, notClosed, Bool.or_self, Bool.false_eq_true, if_false]
  refine ⟨?_, ?_, rest.ahead⟩
  · simp only [Entries.cons, List.map_cons, Node.bare_endedBy, yields.bare, rest.bare]
  · simp only [Entries.cons, yields.clean, rest.clean, List.append_nil]

theorem entries_reads (closed : ClosedBy close delimiters) (comma : Bool) (list : List α)
    (each : ∀ entry ∈ list, EntryReads grammar close tokensOf treeOf entry) (enough : list.length < fuel)
    (ahead : Ahead (commaTokens tokensOf comma list ++ token delimiters.closing :: tokens) cursor.skipTrivia) :
    ReadAll (list.map treeOf) (token delimiters.closing :: tokens) (entries delimiters grammar fuel stop cursor) := by
  induction list generalizing fuel stop cursor with
  | nil =>
    obtain ⟨fuel, rfl⟩ := Nat.exists_eq_add_of_lt enough
    obtain ⟨_, _, closes, _⟩ := ahead.read?
    simp only [entries, closes, Bool.or_true, if_true]
    exact ⟨rfl, rfl, ahead⟩
  | cons entry list ih =>
    rw [List.length_cons] at enough
    obtain ⟨fuel, rfl⟩ : ∃ less, fuel = less + 1 := ⟨fuel - 1, by omega⟩
    have reading := each entry (List.mem_cons_self ..)
    cases list with
    | nil =>
      cases comma with
      | true =>
        simp only [commaTokens, if_true, List.append_assoc, List.cons_append, List.nil_append] at ahead
        exact entries_lastComma closed reading ahead
      | false =>
        simp only [commaTokens, Bool.false_eq_true, if_false, List.append_nil] at ahead
        exact entries_last closed reading ahead
    | cons next list =>
      have later := each next (List.mem_cons_of_mem _ (List.mem_cons_self ..))
      have enoughMore : (next :: list).length < fuel := by omega
      obtain ⟨others, tokensMore⟩ := commaTokens_cons tokensOf comma next list
      have split : commaTokens tokensOf comma (next :: list) ++ token delimiters.closing :: tokens =
          tokensOf next ++ (others ++ token delimiters.closing :: tokens) := by
        rw [tokensMore, List.append_assoc]
      simp only [commaTokens, List.append_assoc, List.cons_append] at ahead
      rw [split] at ahead
      refine entries_more closed reading later (by simp) ahead ?_
      intro stop cursor atNext
      exact ih (fun other member => each other (List.mem_cons_of_mem _ member)) enoughMore (split ▸ atNext)

end Loop

/-- A sequence is read from its body, with or without a comma behind the last entry. -/
theorem sequence_reads {α : Type} {kind : Node.Kind} {delimiters : Delimiters} {grammar : EntryGrammar} {close : Char}
    {tokensOf : α → List Token} {treeOf : α → Node} (plain : kind.bare = kind) (closed : ClosedBy close delimiters)
    (body : Body α)
    (each : ∀ entry ∈ body.entries, EntryReads grammar close tokensOf treeOf entry) {tokens : List Token} {cursor : Cursor}
    (ahead : Ahead (body.tokens delimiters.opening delimiters.closing tokensOf ++ tokens) cursor) :
    Yields tokens (made kind (body.entries.map treeOf)) (sequence kind delimiters grammar cursor) := by
  simp only [Body.tokens, List.cons_append, List.append_assoc, List.nil_append] at ahead
  obtain ⟨opened, read, _, behind⟩ := ahead.read?
  have inside : Ahead (commaTokens tokensOf body.comma body.entries ++ token delimiters.closing :: tokens)
      opened.skipTrivia := by
    cases list : body.entries with
    | nil =>
      rw [list] at behind
      exact behind.skipTrivia (closed.opens.settles tokens)
    | cons entry list' =>
      rw [list] at behind
      obtain ⟨first, rest, _, _, tokensFirst, _, _, settles⟩ := (each entry (by simp [list])).starts
      obtain ⟨others, tokensMore⟩ := commaTokens_cons tokensOf body.comma entry list'
      simp only [tokensMore, tokensFirst, List.cons_append, List.append_assoc] at behind ⊢
      exact behind.skipTrivia (settles _ (by simp))
  have enough : body.entries.length < opened.remaining := by
    have room := behind.length_le
    have bound := length_le_commaTokens tokensOf body.comma body.entries (fun entry member => (each entry member).some)
    simp only [List.length_append, List.length_cons] at room
    omega
  have all : ReadAll (body.entries.map treeOf) (token delimiters.closing :: tokens)
      (entries delimiters grammar opened.remaining opened.offset opened) :=
    entries_reads closed body.comma body.entries each enough inside
  obtain ⟨_, readClosing, _, behindAll⟩ := all.ahead.read?
  simp only [sequence, read, readClosing]
  refine ⟨?_, all.clean, behindAll⟩
  rw [Node.bare_eq]
  simp only [plain, all.bare, made]

private theorem starts_with_docs (docs : List DocLine) {first : Token} {more : List Token} {close char : Char}
    {text : List Char} (spelled : first.text = char :: text) (visible : Text.isBlank char = false) (noSlash : char ≠ '/')
    (noClose : char ≠ close) (open' : '/' ≠ close) :
    ∃ start rest char text, docTokens docs ++ first :: more = start :: rest ∧ start.text = char :: text ∧
      char ≠ close ∧ ∀ others, others ≠ [] → Settles start (rest ++ others) := by
  cases docs with
  | nil =>
    have opens : Opens first.text := ⟨char, text, spelled, visible, noSlash⟩
    exact ⟨_, _, _, _, rfl, spelled, noClose, fun _ _ => opens.settles _⟩
  | cons doc docs => exact ⟨_, _, _, _, rfl, rfl, open', fun _ _ => settles_doc doc _⟩

private theorem identifier_ne_brace (name : Identifier) : name.first ≠ '\x7d' := by
  have code := isIdentifierStart_code name.starts
  intro same
  rw [same] at code
  revert code
  decide

theorem fieldKey_takes (key : Key) : fieldKey.Takes key.text key.tree := by
  intro cursor rest whole split closes
  cases key with
  | identifier name =>
    obtain ⟨parsed, found, spells⟩ := identifier_takes name whole split closes
    exact ⟨parsed, by simp [fieldKey, Production.orElse, found], spells⟩
  | string quoted =>
    obtain ⟨parsed, found, spells⟩ := string_takes quoted whole split closes
    have noStart : isIdentifierStart '"' = false := by decide
    have noWord : identifier cursor = none := by
      have quote : cursor.rest = '"' :: (quoted.written ++ ['"'] ++ rest) := split
      simp [identifier, Cursor.readIdentifier?, Cursor.word, quote, noStart]
    exact ⟨parsed, by simp [fieldKey, Production.orElse, noWord, found], spells⟩

private theorem field_reads {field : Entry Key TypeExpr} (readable : field.value.Readable) :
    EntryReads ⟨structField.pair, structField.starts⟩ '\x7d' fieldTokens (Entry.tree Key.tree TypeExpr.tree) field where
  starts := by
    cases key : field.key with
    | identifier name =>
      obtain ⟨notBlank, notSlash⟩ := isIdentifierStart_visible name.starts
      rw [fieldTokens, key]
      exact starts_with_docs field.docs rfl notBlank notSlash (identifier_ne_brace name) (by decide)
    | string quoted =>
      rw [fieldTokens, key]
      exact starts_with_docs field.docs rfl (by decide) (by decide) (by decide) (by decide)
  reads := by
    intro cursor others followed ahead
    simp only [fieldTokens, List.append_assoc, List.cons_append] at ahead
    exact PairGrammar.pair_reads rfl fieldKey_lawful (fieldKey_takes field.key) (opens_key field.key)
      ⟨':', [], rfl, by decide, by decide⟩ (opens_firstToken field.value)
      (fun _ atValue => typeExpr_reads readable followed atValue) ahead

private theorem member_reads (member : Entry Identifier Literal) :
    EntryReads ⟨enumField.pair, enumField.starts⟩ '\x7d' memberTokens (Entry.tree Identifier.tree Literal.tree) member where
  starts := by
    obtain ⟨notBlank, notSlash⟩ := isIdentifierStart_visible member.key.starts
    exact starts_with_docs member.docs rfl notBlank notSlash (identifier_ne_brace member.key) (by decide)
  reads := by
    intro cursor others followed ahead
    simp only [memberTokens, List.append_assoc, List.cons_append, List.nil_append] at ahead
    refine PairGrammar.pair_reads rfl identifier_lawful (identifier_takes member.key) (opens_identifier member.key)
      ⟨'=', [], rfl, by decide, by decide⟩ ⟨{ text := member.value.text }, [], rfl, opens_literal member.value⟩ ?_ ahead
    intro start atValue
    exact yields_of_takes (literal_takes member.value) followed atValue

/-- Nothing in a resource location is blank, and one that opens no comment is not skipped. -/
theorem settles_resource {resource : Resource} (plain : ¬ OpensComment resource.text) {tokens : List Token}
    (followed : tokens ≠ []) : Settles { text := resource.text } tokens := by
  intro rest gapped
  obtain ⟨blank, more, rfl, isBlank⟩ := gapped followed
  have chars := resource.text_chars
  obtain ⟨char, text, spelled⟩ := List.exists_cons_of_ne_nil resource.text_ne_nil
  rw [spelled] at plain chars
  dsimp only
  rw [spelled]
  obtain ⟨low, high, _⟩ := graphic_isResourceChar char (chars char (List.mem_cons_self ..))
  refine ⟨by simpa using notBlank_of_visible low high, ?_⟩
  rintro ⟨line, same, noDoc⟩
  obtain ⟨rfl, rest⟩ := List.cons.inj same
  cases text with
  | nil =>
    obtain ⟨rfl, _⟩ := List.cons.inj rest
    revert isBlank
    decide
  | cons second text =>
    obtain ⟨rfl, rfl⟩ := List.cons.inj rest
    refine plain ⟨text, rfl, ?_⟩
    cases text with
    | nil => simp
    | cons third text => simpa using noDoc

private theorem object_reads {object : Resource} (plain : ¬ OpensComment object.text) :
    EntryReads ⟨item resourceLocation, fun cursor => (resourceLocation cursor).isSome⟩ ']'
      (fun object => [{ text := object.text }]) (fun object => made (.item none) [object.tree.tagged .value]) object where
  starts := by
    obtain ⟨char, text, spelled⟩ := List.exists_cons_of_ne_nil object.text_ne_nil
    have inside := object.text_chars char (by simp [spelled])
    refine ⟨_, _, char, text, rfl, spelled, ?_, fun _ followed => settles_resource plain (by simpa using followed)⟩
    rintro rfl
    revert inside
    decide
  reads := by
    intro cursor others followed ahead
    exact item_reads resourceLocation_lawful (resourceLocation_takes object) followed ahead

theorem fields_read {fields : Fields} (readable : fields.Readable) {tokens : List Token} {cursor : Cursor}
    (ahead : Ahead (fields.tokens ++ tokens) cursor) :
    Yields tokens (made .table (fields.entries.map (Entry.tree Key.tree TypeExpr.tree)))
      (table (.braces .allowed) structField cursor) :=
  sequence_reads rfl ⟨rfl, rfl, by decide, by decide, by decide⟩ fields
    (fun field member => field_reads (readable field member)) ahead

theorem members_read (members : Members) {tokens : List Token} {cursor : Cursor}
    (ahead : Ahead (members.tokens ++ tokens) cursor) :
    Yields tokens (made .table (members.entries.map (Entry.tree Identifier.tree Literal.tree)))
      (table (.braces .allowed) enumField cursor) :=
  sequence_reads rfl ⟨rfl, rfl, by decide, by decide, by decide⟩ members (fun member _ => member_reads member) ahead

theorem objects_read {objects : Body Resource} (plain : ∀ object ∈ objects.entries, ¬ OpensComment object.text)
    {tokens : List Token} {cursor : Cursor} (ahead : Ahead (objectsTokens objects ++ tokens) cursor) :
    Yields tokens (made .list (objects.entries.map fun object => made (.item none) [object.tree.tagged .value]))
      (list (.brackets .allowed) resourceLocation cursor) :=
  sequence_reads rfl ⟨rfl, rfl, by decide, by decide, by decide⟩ objects
    (fun object member => object_reads (plain object member)) ahead

end SchemaDoc.Parser
