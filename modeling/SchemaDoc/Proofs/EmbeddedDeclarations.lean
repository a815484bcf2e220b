import SchemaDoc.Proofs.DeclarationLaws
import SchemaDoc.Proofs.EmbeddedSequences

/-! Declarations in a larger text. A part of one is the same there if something of the text is left behind it.
The last part, a semicolon or a body, tells by itself that the text goes on up to there, so a declaration without
a problem is the same whatever follows. -/

namespace SchemaDoc

namespace Context

/-- What was read there, in the larger text, is what was read here, as long as nothing was reported and something
is left behind it. -/
structure Follows (context : Context) (cursor : Cursor) (here there : Fragment) : Prop where
  onward : cursor ≤ here.next
  same : context.Quiet here.errors → context.Left here.next → there = context.fragment here

structure Finishes (context : Context) (cursor : Cursor) (here there : Fragment) : Prop where
  onward : cursor ≤ here.next
  left : context.Quiet here.errors → context.Left cursor
  same : context.Quiet here.errors → there = context.fragment here

variable {context : Context} {cursor : Cursor} {here there : Fragment} {step : Cursor → Fragment}

theorem Follows.andThen (follows : context.Follows cursor here there)
    (also : context.Follows here.next (step here.next) (step (context.cursor here.next))) :
    context.Follows cursor (here.andThen step) (there.andThen step) where
  onward := follows.onward.trans also.onward
  same quiet left := by
    rw [follows.same quiet.left (left.earlier also.onward)]
    exact context.fragment_andThen here (also.same quiet.right left)

/-- With its last part, what was read so far is the same whatever is left behind it. -/
theorem Follows.finish (follows : context.Follows cursor here there)
    (last : context.Finishes here.next (step here.next) (step (context.cursor here.next))) :
    context.Finishes cursor (here.andThen step) (there.andThen step) where
  onward := follows.onward.trans last.onward
  left quiet := (last.left quiet.right).earlier follows.onward
  same quiet := by
    rw [follows.same quiet.left (last.left quiet.right)]
    exact context.fragment_andThen here (last.same quiet.right)

theorem Follows.skipTrivia (follows : context.Follows cursor here there) :
    context.Follows cursor here.skipTrivia there.skipTrivia where
  onward := follows.onward.trans here.next.le_skipTrivia
  same quiet left := by
    rw [follows.same quiet (left.earlier here.next.le_skipTrivia)]
    simp only [Fragment.skipTrivia, Context.fragment, skipTrivia_cursor left]

theorem Follows.lead (step : Cursor → Fragment)
    (follows : context.Follows cursor.skipTrivia (step cursor.skipTrivia) (step (context.cursor cursor.skipTrivia))) :
    context.Follows cursor (step cursor.skipTrivia) (step (context.cursor cursor).skipTrivia) where
  onward := cursor.le_skipTrivia.trans follows.onward
  same quiet left := by
    rw [skipTrivia_cursor (left.earlier follows.onward)]
    exact follows.same quiet left

theorem Finishes.lead (step : Cursor → Fragment)
    (finishes : context.Finishes cursor.skipTrivia (step cursor.skipTrivia) (step (context.cursor cursor.skipTrivia))) :
    context.Finishes cursor (step cursor.skipTrivia) (step (context.cursor cursor).skipTrivia) where
  onward := cursor.le_skipTrivia.trans finishes.onward
  left quiet := (finishes.left quiet).earlier cursor.le_skipTrivia
  same quiet := by
    rw [skipTrivia_cursor (finishes.left quiet)]
    exact finishes.same quiet

theorem follows_empty (cursor : Cursor) : context.Follows cursor (.empty cursor) (.empty (context.cursor cursor)) :=
  ⟨le_refl cursor, fun _ _ => rfl⟩

theorem follows_missing (message : Message) (arguments : List String) (cursor : Cursor) :
    context.Follows cursor (.missing message arguments cursor) (.missing message arguments (context.cursor cursor)) :=
  ⟨le_refl cursor, fun _ _ => rfl⟩

/-- Where something is missing, it is reported. -/
theorem finishes_missing (message : Message) (arguments : List String) (cursor : Cursor) :
    context.Finishes cursor (.missing message arguments cursor) (.missing message arguments (context.cursor cursor)) :=
  ⟨le_refl cursor, fun quiet => .inl quiet.alone, fun _ => rfl⟩

theorem follows_required {production : Production} (lawful : production.Lawful) (embeds : production.Embeds context)
    (role : Node.Role) (message : Message) (whole : cursor.Whole) :
    context.Follows cursor (Fragment.required production role message cursor)
      (Fragment.required production role message (context.cursor cursor)) where
  onward := by
    unfold Fragment.required
    split
    next found => exact (lawful found).node.le
    next => exact le_refl cursor
  same quiet _ := context.required_cursor production role message (embeds whole) quiet

theorem finish_fragment (context : Context) {kind : Node.Kind} (plain : kind.shift context.before = kind)
    (fragment : Fragment) (start : Nat) :
    (context.fragment fragment).finish kind (start + context.before) = context.parsed (fragment.finish kind start) := by
  simp only [Fragment.finish, Context.fragment, Context.parsed, Node.shift_eq, plain, Span.coverAll_shift,
    Span.point_shift, Node.map_span_shift]

end Context

namespace Parser

variable {context : Context} {cursor : Cursor} {text : String}

theorem keyword?_cursor {word : String} (oneLine : OneLine word) (cursor : Cursor) :
    keyword? word (context.cursor cursor) = (keyword? word cursor).map context.fragment := by
  simp only [keyword?, Context.readKeyword?_cursor context cursor oneLine, Option.map_map]
  refine Option.map_congr fun next _ => ?_
  simp only [Function.comp_apply, context.fragment_ofParsed,
    context.parsed_leaf (rfl : Node.Kind.shift _ (.keyword word) = _)]

theorem keyword?_follows {word : String} {found : Fragment} (nonempty : word.toList ≠ [])
    (read : keyword? word cursor = some found) : context.Follows cursor found (context.fragment found) :=
  ⟨(keyword?_sound nonempty read).lawful.le, fun _ _ => rfl⟩

theorem optionalKeyword_follows {word : String} (oneLine : OneLine word) (nonempty : word.toList ≠ []) (cursor : Cursor) :
    context.Follows cursor (optionalKeyword word cursor) (optionalKeyword word (context.cursor cursor)) := by
  simp only [optionalKeyword, keyword?_cursor oneLine]
  cases read : keyword? word cursor with
  | none => exact Context.follows_empty cursor
  | some found => exact keyword?_follows nonempty read

theorem requiredKeyword_follows {word : String} (oneLine : OneLine word) (nonempty : word.toList ≠ []) (cursor : Cursor) :
    context.Follows cursor (requiredKeyword word cursor) (requiredKeyword word (context.cursor cursor)) := by
  simp only [requiredKeyword, keyword?_cursor oneLine]
  cases read : keyword? word cursor with
  | none => exact Context.follows_missing _ _ cursor
  | some found => exact keyword?_follows nonempty read

theorem requiredIdentifier_follows (whole : cursor.Whole) :
    context.Follows cursor (requiredIdentifier cursor) (requiredIdentifier (context.cursor cursor)) :=
  .lead (Fragment.required _ _ _)
    (Context.follows_required identifier_lawful (identifier_embeds context) _ _ (whole.later cursor.le_skipTrivia))

theorem requiredPath_follows (whole : cursor.Whole) :
    context.Follows cursor (requiredPath cursor) (requiredPath (context.cursor cursor)) :=
  .lead (Fragment.required _ _ _)
    (Context.follows_required identPath_lawful (identPath_embeds context) _ _ (whole.later cursor.le_skipTrivia))

theorem requiredToken_follows {token : String} (oneLine : OneLine token) (cursor : Cursor) :
    context.Follows cursor (requiredToken token cursor) (requiredToken token (context.cursor cursor)) where
  onward := (requiredToken_lawful token cursor).le
  same _ left := by
    have onward : cursor.skipTrivia ≤ (requiredToken token cursor).next := by
      simpa only [requiredToken, Cursor.skipTrivia_skipTrivia] using (requiredToken_lawful token cursor.skipTrivia).le
    simp only [requiredToken, Context.skipTrivia_cursor (left.earlier onward), Context.read?_cursor context _ oneLine]
    cases cursor.skipTrivia.read? token <;> rfl

theorem enumKindWord_follows (cursor : Cursor) :
    context.Follows cursor (enumKindWord cursor) (enumKindWord (context.cursor cursor)) where
  onward := (enumKindWord_lawful cursor).le
  same _ left := by
    have onward : cursor.skipTrivia ≤ (enumKindWord cursor).next := by
      simpa only [enumKindWord, Cursor.skipTrivia_skipTrivia] using (enumKindWord_lawful cursor.skipTrivia).le
    simp only [enumKindWord, Context.skipTrivia_cursor (left.earlier onward), Context.readIdentifier?_cursor]
    cases cursor.skipTrivia.readIdentifier? with
    | none => rfl
    | some found =>
      have word := context.fragment_ofParsed (leaf (.keyword found.1) cursor.skipTrivia found.2) .kind
      rw [context.parsed_leaf rfl] at word
      simp only [Option.map_some, ← word]
      split <;> rfl

theorem enumKindClause_follows (cursor : Cursor) :
    context.Follows cursor (enumKindClause cursor) (enumKindClause (context.cursor cursor)) where
  onward := (enumKindClause_lawful cursor).le
  same quiet left := by
    have onward : cursor.skipTrivia ≤ (enumKindClause cursor).next := by
      simpa only [enumKindClause, Cursor.skipTrivia_skipTrivia] using (enumKindClause_lawful cursor.skipTrivia).le
    simp only [enumKindClause, Context.skipTrivia_cursor (left.earlier onward),
      Context.read?_cursor context _ (by decide : OneLine "(")] at quiet left ⊢
    cases read : cursor.skipTrivia.read? "(" with
    | none => rfl
    | some opened =>
      have inner : context.Follows opened _ _ :=
        (enumKindWord_follows opened).andThen (requiredToken_follows (by decide : OneLine ")") _)
      simp only [read] at quiet left
      exact inner.same quiet left

theorem terminator_finishes (cursor : Cursor) :
    context.Finishes cursor (terminator cursor) (terminator (context.cursor cursor)) := by
  have left : context.Quiet (terminator cursor).errors → context.Left cursor.skipTrivia := by
    simp only [terminator]
    cases read : cursor.skipTrivia.read? ";" with
    | none => exact fun quiet => .inl quiet.alone
    | some next => exact fun _ => Context.left_of_read read (by decide)
  refine ⟨(terminator_sound cursor).lawful.le, fun quiet => (left quiet).earlier cursor.le_skipTrivia, fun quiet => ?_⟩
  simp only [terminator, Context.skipTrivia_cursor (left quiet), Context.read?_cursor context _ (by decide : OneLine ";")]
  cases cursor.skipTrivia.read? ";" with
  | none => rfl
  | some next =>
    have semicolon := context.parsed_leaf (rfl : Node.Kind.shift _ (.keyword ";") = _) cursor.skipTrivia next
    simp only [Option.map_some, ← semicolon]
    rfl

theorem structField_embeds : structField.Embeds context :=
  ⟨fieldKey_lawful, typeExpr_lawful, fieldKey_embeds context, typeExpr_embeds context, by decide⟩

theorem enumField_embeds : enumField.Embeds context :=
  ⟨identifier_lawful, literal_lawful, identifier_embeds context, literal_embeds context, by decide⟩

/-- Behind the opening token of a sequence that has one, or behind the report that it is missing. -/
theorem left_of_sequence {kind : Node.Kind} {delimiters : Delimiters} {grammar : EntryGrammar}
    (visible : delimiters.opening.toList ≠ []) (quiet : context.Quiet (sequence kind delimiters grammar cursor).errors) :
    context.Left cursor := by
  simp only [sequence] at quiet
  cases read : cursor.read? delimiters.opening with
  | none => exact .inl (Context.Quiet.alone (by simpa only [read] using quiet))
  | some opened => exact Context.left_of_read read visible

theorem body_finishes {grammar : PairGrammar} (embeds : grammar.Embeds context) (trailing : TrailingPolicy)
    (behind : Cursor.ofText text ≤ cursor) :
    context.Finishes cursor (body trailing grammar cursor) (body trailing grammar (context.cursor cursor)) := by
  refine .lead (fun cursor => .ofParsed (table (.braces trailing) grammar cursor) .body) ⟨?_, ?_, fun quiet => ?_⟩
  · exact (table_lawful embeds.keys embeds.values _).node.le
  · exact left_of_sequence (by decide : "\x7b".toList ≠ [])
  · have same : table (.braces trailing) grammar (context.cursor cursor.skipTrivia) = _ :=
      sequence_cursor rfl embeds.entries (by decide : OneLine "\x7b") (by decide : OneLine "\x7d")
        (by decide : "\x7d".toList ≠ []) (behind.trans cursor.le_skipTrivia) quiet
    rw [same]
    exact (context.fragment_ofParsed _ .body).symm

theorem describedObjects_follows (behind : Cursor.ofText text ≤ cursor) :
    context.Follows cursor (describedObjects cursor) (describedObjects (context.cursor cursor)) where
  onward := (describedObjects_sound cursor).lawful.le
  same quiet _ := by
    simp only [describedObjects, Context.startsWith_cursor context _ (by decide : OneLine "[")] at quiet ⊢
    split at quiet
    next starts =>
      have same : list (.brackets .allowed) resourceLocation (context.cursor cursor) = _ :=
        sequence_cursor rfl (item_embeds resourceLocation_lawful (resourceLocation_embeds context))
          (by decide : OneLine "[") (by decide : OneLine "]") (by decide : "]".toList ≠ []) behind quiet
      rw [if_pos starts, if_pos starts, same]
      exact (context.fragment_ofParsed _ .objects).symm
    next none =>
      rw [if_neg none, if_neg none]
      rfl

theorem enumKind?_fragment (found : Fragment) : enumKind? (context.fragment found) = enumKind? found := by
  simp only [enumKind?, Context.fragment, List.find?_map, Function.comp_def, Node.shift_role, Option.bind_map,
    Node.shift_kind]
  refine Option.bind_congr fun node _ => ?_
  cases node.kind <;> rfl

structure SameDraft (context : Context) (cursor : Cursor) (here there : Draft) : Prop where
  parts : context.Finishes cursor here.parts there.parts
  kind : context.Quiet here.parts.errors → there.kind = here.kind
  plain : here.kind.shift context.before = here.kind

theorem structDeclaration_sameDraft (trailing : TrailingPolicy) (behind : Cursor.ofText text ≤ cursor) :
    SameDraft context cursor (structDeclaration trailing cursor) (structDeclaration trailing (context.cursor cursor)) := by
  have keyword : context.Follows cursor _ _ := optionalKeyword_follows (by decide : OneLine "struct") (by decide) cursor
  have named := keyword.andThen (requiredIdentifier_follows (Cursor.whole_of_le (behind.trans keyword.onward)))
  exact ⟨named.finish (body_finishes structField_embeds trailing (behind.trans named.onward)), fun _ => rfl, rfl⟩

theorem enumDeclaration_sameDraft (trailing : TrailingPolicy) (behind : Cursor.ofText text ≤ cursor) :
    SameDraft context cursor (enumDeclaration trailing cursor) (enumDeclaration trailing (context.cursor cursor)) := by
  have keyword : context.Follows cursor _ _ := optionalKeyword_follows (by decide : OneLine "enum") (by decide) cursor
  have kind := keyword.andThen (enumKindClause_follows _)
  have named := kind.andThen (requiredIdentifier_follows (Cursor.whole_of_le (behind.trans kind.onward)))
  have parts := named.finish (body_finishes enumField_embeds trailing (behind.trans named.onward))
  refine ⟨parts, fun quiet => congrArg Node.Kind.enum ?_, rfl⟩
  exact (congrArg enumKind? (parts.same quiet)).trans (enumKind?_fragment _)

theorem moduleDeclaration_sameDraft (behind : Cursor.ofText text ≤ cursor) :
    SameDraft context cursor (moduleDeclaration cursor) (moduleDeclaration (context.cursor cursor)) := by
  have keyword : context.Follows cursor _ _ := optionalKeyword_follows (by decide : OneLine "mod") (by decide) cursor
  have named := keyword.andThen (requiredIdentifier_follows (Cursor.whole_of_le (behind.trans keyword.onward)))
  exact ⟨named.finish (terminator_finishes _), fun _ => rfl, rfl⟩

theorem useClause_sameDraft (behind : Cursor.ofText text ≤ cursor) :
    SameDraft context cursor (useClause cursor) (useClause (context.cursor cursor)) := by
  have keyword : ∀ start : Cursor, context.Follows start (requiredKeyword "use" start) _ :=
    requiredKeyword_follows (by decide : OneLine "use") (by decide)
  simp only [useClause, keyword?_cursor (by decide : OneLine "export")]
  cases read : keyword? "export" cursor with
  | some exported =>
    have first : context.Follows cursor exported _ := keyword?_follows (by decide) read
    have front := first.skipTrivia.andThen (keyword _)
    have path := front.andThen (requiredPath_follows (Cursor.whole_of_le (behind.trans front.onward)))
    exact ⟨path.finish (terminator_finishes _), fun _ => rfl, rfl⟩
  | none =>
    have front := keyword cursor
    have path := front.andThen (requiredPath_follows (Cursor.whole_of_le (behind.trans front.onward)))
    exact ⟨path.finish (terminator_finishes _), fun _ => rfl, rfl⟩

/-- The node of a definition, whose kind may be told by its parts. -/
theorem definition_finishes {here there : Fragment} (parts : context.Finishes cursor here there)
    (kind : Fragment → Node.Kind) (plain : (kind here).shift context.before = kind here)
    (same : kind (context.fragment here) = kind here) :
    context.Finishes cursor (.ofParsed (here.finish (kind here) cursor.offset) .definition)
      (.ofParsed (there.finish (kind there) (context.cursor cursor).offset) .definition) := by
  refine ⟨parts.onward, parts.left, fun quiet => ?_⟩
  rw [parts.same quiet, same, Context.cursor_offset, context.finish_fragment plain, context.fragment_ofParsed]

theorem injectedDefinition_finishes (trailing : TrailingPolicy) (behind : Cursor.ofText text ≤ cursor) :
    context.Finishes cursor (injectedDefinition trailing cursor) (injectedDefinition trailing (context.cursor cursor)) := by
  simp only [injectedDefinition, keyword?_cursor (by decide : OneLine "struct"),
    keyword?_cursor (by decide : OneLine "enum")]
  cases struct : keyword? "struct" cursor with
  | some found =>
    have keyword : context.Follows cursor found _ := keyword?_follows (by decide) struct
    have path := keyword.andThen (requiredPath_follows (Cursor.whole_of_le (behind.trans keyword.onward)))
    have parts := path.finish (body_finishes structField_embeds trailing (behind.trans path.onward))
    exact definition_finishes parts (fun _ => .injectStruct) rfl rfl
  | none =>
    cases enum : keyword? "enum" cursor with
    | some found =>
      have keyword : context.Follows cursor found _ := keyword?_follows (by decide) enum
      have kind := keyword.andThen (enumKindClause_follows _)
      have path := kind.andThen (requiredPath_follows (Cursor.whole_of_le (behind.trans kind.onward)))
      have parts := path.finish (body_finishes enumField_embeds trailing (behind.trans path.onward))
      exact definition_finishes parts (fun found => .injectEnum (enumKind? found)) rfl
        (congrArg Node.Kind.injectEnum (enumKind?_fragment _))
    | none => exact Context.finishes_missing _ _ cursor

theorem injectClause_sameDraft (trailing : TrailingPolicy) (behind : Cursor.ofText text ≤ cursor) :
    SameDraft context cursor (injectClause trailing cursor) (injectClause trailing (context.cursor cursor)) := by
  have keyword : context.Follows cursor _ _ := optionalKeyword_follows (by decide : OneLine "inject") (by decide) cursor
  have front := keyword.skipTrivia
  exact ⟨front.finish (injectedDefinition_finishes trailing (behind.trans front.onward)), fun _ => rfl, rfl⟩

theorem describesClause_sameDraft (behind : Cursor.ofText text ≤ cursor) :
    SameDraft context cursor (describesClause cursor) (describesClause (context.cursor cursor)) := by
  have path : context.Follows cursor _ _ := requiredPath_follows (Cursor.whole_of_le behind)
  have keyword : ∀ start : Cursor, context.Follows start (requiredKeyword "describes" start) _ :=
    requiredKeyword_follows (by decide : OneLine "describes") (by decide)
  have front := (path.skipTrivia.andThen (keyword _)).skipTrivia
  have registry := (front.andThen (Context.follows_required resourceLocation_lawful (resourceLocation_embeds context)
    .registry .expectedResourceLocation (Cursor.whole_of_le (behind.trans front.onward)))).skipTrivia
  have objects := registry.andThen (describedObjects_follows (behind.trans registry.onward))
  exact ⟨objects.finish (terminator_finishes _), fun _ => rfl, rfl⟩

/-- The same form of declaration starts there, or none does. -/
theorem draft_sameDraft (trailing : TrailingPolicy) (behind : Cursor.ofText text ≤ cursor) :
    Option.Rel (SameDraft context cursor) (draft trailing cursor) (draft trailing (context.cursor cursor)) := by
  simp only [draft, Context.word_cursor, Context.startsWith_cursor context cursor (by decide : OneLine pathSeparator)]
  split
  · exact .some (structDeclaration_sameDraft trailing behind)
  · exact .some (enumDeclaration_sameDraft trailing behind)
  · exact .some (moduleDeclaration_sameDraft behind)
  · exact .some (useClause_sameDraft behind)
  · exact .some (useClause_sameDraft behind)
  · exact .some (injectClause_sameDraft trailing behind)
  · split
    · exact .some (describesClause_sameDraft behind)
    · exact .none
  · exact .some (describesClause_sameDraft behind)

/-- A declaration without a problem is the same in the larger text, and something is left where it starts. -/
theorem declaration_cursor (trailing : TrailingPolicy) (doc : Option Node) (behind : Cursor.ofText text ≤ cursor)
    (quiet : ∀ parsed ∈ declaration trailing doc cursor, context.Quiet parsed.errors) :
    declaration trailing (doc.map (Node.shift context.before)) (context.cursor cursor) =
      (declaration trailing doc cursor).map context.parsed ∧
    ((declaration trailing doc cursor).isSome → context.Left cursor) := by
  have drafts : Option.Rel (SameDraft context cursor) _ _ := draft_sameDraft trailing behind
  simp only [declaration] at quiet ⊢
  generalize draft trailing cursor = here at drafts quiet
  generalize draft trailing (context.cursor cursor) = there at drafts
  cases drafts with
  | none => exact ⟨rfl, by simp⟩
  | @some here there same =>
    have fine : context.Quiet here.parts.errors := quiet _ rfl
    refine ⟨?_, fun _ => same.parts.left fine⟩
    have docs : (doc.map (Node.shift context.before)).toList.map (fun node => node.tagged .doc) =
        (doc.toList.map fun node => node.tagged .doc).map (Node.shift context.before) := by
      cases doc <;> simp
    have all := context.finish_fragment same.plain
      { here.parts with nodes := (doc.toList.map fun node => node.tagged .doc) ++ here.parts.nodes } cursor.offset
    simp only [Option.map_some, same.parts.same fine, same.kind fine, docs, ← all]
    simp [Context.fragment]

end Parser

end SchemaDoc
