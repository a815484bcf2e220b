import SchemaDoc.Proofs.EmbeddedReading
import SchemaDoc.Proofs.SequenceProgress

/-! Every production finds in a larger text what it finds in the text alone, as long as it has nothing to
report. What has no bound of its own is read with as many rounds as there are bytes ahead; in a larger text
these are more, and the result is the same. -/

namespace SchemaDoc

theorem Cursor.rest_lt {cursor next : Cursor} (onward : cursor ≤ next) (advances : cursor.offset < next.offset) :
    byteLength next.rest < byteLength cursor.rest := by
  have whole := offset_add_rest onward
  omega

theorem Cursor.rest_le {cursor next : Cursor} (onward : cursor ≤ next) :
    byteLength next.rest ≤ byteLength cursor.rest := by
  have whole := offset_add_rest onward
  have before := offset_le onward
  omega

namespace Context

variable (context : Context)

/-- Behind a round that reads something, one round less is enough, in the text and in the larger one. -/
theorem one_less {cursor next : Cursor} (less : byteLength next.rest < byteLength cursor.rest) {fuel more : Nat}
    (enough : byteLength cursor.rest < fuel + 1) (also : byteLength (context.cursor cursor).rest < more + 1) :
    byteLength next.rest < fuel ∧ byteLength (context.cursor next).rest < more := by
  simp only [cursor_rest, byteLength_append] at also ⊢
  omega

theorem parsed_leaf {kind : Node.Kind} (plain : kind.shift context.before = kind) (cursor next : Cursor) :
    context.parsed (Parser.leaf kind cursor next) = Parser.leaf kind (context.cursor cursor) (context.cursor next) := by
  simp [Context.parsed, Parser.leaf, Node.shift_eq, plain, spanTo_cursor]

theorem fragment_ofParsed (parsed : Parsed) (role : Node.Role) :
    context.fragment (.ofParsed parsed role) = .ofParsed (context.parsed parsed) role := by
  simp [Context.fragment, Context.parsed, Fragment.ofParsed]

theorem required_cursor (production : Production) {other : Production} {cursor : Cursor} (role : Node.Role)
    (message : Message) (same : (∀ parsed ∈ production cursor, context.Quiet parsed.errors) →
      other (context.cursor cursor) = (production cursor).map context.parsed)
    (quiet : context.Quiet (Fragment.required production role message cursor).errors) :
    Fragment.required other role message (context.cursor cursor) =
      context.fragment (Fragment.required production role message cursor) := by
  simp only [Fragment.required] at quiet ⊢
  cases found : production cursor with
  | none =>
    rw [same (by simp [found]), found]
    rfl
  | some parsed =>
    rw [found] at quiet
    have fine : context.Quiet parsed.errors := quiet
    rw [same (by simpa [found] using fine), found]
    exact (context.fragment_ofParsed parsed role).symm

theorem fragment_andThen (first : Fragment) {step other : Cursor → Fragment}
    (same : other (context.cursor first.next) = context.fragment (step first.next)) :
    (context.fragment first).andThen other = context.fragment (first.andThen step) := by
  simp only [Fragment.andThen, Context.fragment] at same ⊢
  simp [same]

end Context

/-- In the larger text the production finds the same, unless it has something to report. -/
def Production.Embeds (context : Context) (production : Production) : Prop :=
  ∀ ⦃cursor⦄, cursor.Whole → (∀ parsed ∈ production cursor, context.Quiet parsed.errors) →
    production (context.cursor cursor) = (production cursor).map context.parsed

theorem Production.Embeds.orElse {context : Context} {first second : Production} (embeds : first.Embeds context)
    (also : second.Embeds context) : (Production.orElse first second).Embeds context := by
  intro cursor whole quiet
  simp only [Production.orElse, Option.orElse_eq_orElse, Option.orElse_eq_or] at quiet ⊢
  cases found : first cursor with
  | some parsed =>
    rw [found] at quiet
    rw [embeds whole (by simpa [found] using quiet), found]
    rfl
  | none =>
    rw [found] at quiet
    rw [embeds whole (by simp [found]), found, also whole (by simpa using quiet)]
    rfl

theorem Production.Embeds.map_wrap {context : Context} {production : Production} (embeds : production.Embeds context)
    {kind : Node.Kind} (plain : kind.shift context.before = kind) (role : Node.Role) :
    Production.Embeds context fun cursor => (production cursor).map (Parser.wrap kind role) := by
  have wrapped : ∀ inner, context.parsed (Parser.wrap kind role inner) = Parser.wrap kind role (context.parsed inner) := by
    intro inner
    simp [Context.parsed, Parser.wrap, Node.shift_eq, plain]
  intro cursor whole quiet
  have inner : ∀ parsed ∈ production cursor, context.Quiet parsed.errors :=
    fun parsed member => quiet (Parser.wrap kind role parsed) (Option.mem_map_of_mem _ member)
  simp only [embeds whole inner, Option.map_map]
  exact Option.map_congr fun parsed _ => (wrapped parsed).symm

namespace Parser

variable (context : Context)

theorem identifier_cursor (cursor : Cursor) :
    identifier (context.cursor cursor) = (identifier cursor).map context.parsed := by
  simp only [identifier, Context.readIdentifier?_cursor, Option.map_map]
  refine Option.map_congr fun found _ => ?_
  simp only [Function.comp_apply]
  rw [Context.parsed_leaf context rfl]

theorem identifier_embeds : identifier.Embeds context := fun cursor _ _ => identifier_cursor context cursor

private theorem stringBody_append (value : List Char) (offset : Nat) (chars : List Char)
    (closed : context.after = [] ∨ (stringBody value offset chars).isTerminated = true) :
    stringBody value (offset + context.before) (chars ++ context.after) =
      { stringBody value offset chars with
        offset := (stringBody value offset chars).offset + context.before
        rest := (stringBody value offset chars).rest ++ context.after } := by
  fun_induction stringBody value offset chars with
  | case1 value offset =>
    have alone : context.after = [] := by simpa using closed
    simp [alone, stringBody]
  | case2 value offset rest =>
    rw [List.cons_append]
    unfold stringBody
    simp only [if_true, Nat.add_right_comm]
  | case3 value offset rest noQuote =>
    rw [List.cons_append]
    unfold stringBody
    simp only [noQuote, if_false, if_true]
  | case4 value offset noQuote noNewline =>
    have alone : context.after = [] := by simpa using closed
    simp [alone, stringBody, Nat.add_right_comm]
  | case5 value offset escaped rest noQuote noNewline ih =>
    rw [← ih closed, List.cons_append, List.cons_append]
    conv_lhs => unfold stringBody
    simp only [noQuote, noNewline, if_false, if_true]
    congr 1
    omega
  | case6 value offset char rest noQuote noNewline noEscape ih =>
    rw [← ih closed, List.cons_append]
    conv_lhs => unfold stringBody
    simp only [noQuote, noNewline, noEscape, if_false]
    congr 1
    omega

theorem string_embeds : string.Embeds context := by
  intro cursor _ quiet
  simp only [string, Context.read?_cursor context cursor (by decide : OneLine "\"")] at quiet ⊢
  cases read : cursor.read? "\"" with
  | none => rfl
  | some opened =>
    simp only [read, Option.map_some, Option.mem_def, Option.some.injEq, forall_eq'] at quiet ⊢
    have closed : context.after = [] ∨ (stringBody [] opened.offset opened.rest).isTerminated = true := by
      cases ended : (stringBody [] opened.offset opened.rest).isTerminated with
      | true => exact .inr rfl
      | false => exact .inl (Context.Quiet.alone (by simpa [ended] using quiet))
    have body := stringBody_append context [] opened.offset opened.rest closed
    simp only [Context.cursor_offset, Context.cursor_rest, body]
    split <;> simp [Context.parsed, leaf, Node.shift_eq, Node.Kind.shift, Context.cursor, Cursor.spanTo, Span.shift,
      Diagnostic.shift, Diagnostic.ofMessage]

theorem fraction_cursor (cursor : Cursor) :
    fraction (context.cursor cursor) = ((fraction cursor).1, context.cursor (fraction cursor).2) := by
  simp only [fraction, Context.read?_cursor context cursor (by decide : OneLine ".")]
  cases cursor.read? "." with
  | none => rfl
  | some behind =>
    simp only [Option.map_some, Context.readWhile_cursor context behind Char.isDigit (by decide)]
    split <;> rfl

theorem number_embeds : number.Embeds context := by
  intro cursor _ _
  have unsigned : ((cursor.read? "-").map context.cursor).getD (context.cursor cursor) =
      context.cursor ((cursor.read? "-").getD cursor) := by
    cases cursor.read? "-" <;> rfl
  simp only [number, Context.read?_cursor context cursor (by decide : OneLine "-"), unsigned,
    Context.readWhile_cursor context _ Char.isDigit (by decide), fraction_cursor,
    Context.startsWith_cursor context cursor (by decide : OneLine "-")]
  split
  · rfl
  · simp only [Option.map_some]
    rw [Context.parsed_leaf context rfl]

theorem boolean_embeds : boolean.Embeds context := by
  intro cursor _ _
  simp only [boolean, Context.readKeyword?_cursor context cursor (by decide : OneLine "true"),
    Context.readKeyword?_cursor context cursor (by decide : OneLine "false")]
  cases cursor.readKeyword? "true" with
  | some next => simp [Context.parsed_leaf context (rfl : Node.Kind.shift _ (.boolean true) = _)]
  | none =>
    cases cursor.readKeyword? "false" with
    | some next => simp [Context.parsed_leaf context (rfl : Node.Kind.shift _ (.boolean false) = _)]
    | none => rfl

theorem literal_embeds : literal.Embeds context :=
  (string_embeds context).orElse ((number_embeds context).orElse (boolean_embeds context))

theorem fieldKey_embeds : fieldKey.Embeds context :=
  (identifier_embeds context).orElse (string_embeds context)

theorem resourceLocation_embeds : resourceLocation.Embeds context := by
  intro cursor _ _
  simp only [resourceLocation, Context.readWhile_cursor context cursor isResourceChar (by decide)]
  split
  · rfl
  · simp only [Option.map_some]
    rw [Context.parsed_leaf context rfl]

/-- However many rounds are allowed, they are enough if they are more than the bytes ahead. -/
private theorem moreSegments_cursor {fuel more : Nat} {cursor : Cursor} (enough : byteLength cursor.rest < fuel)
    (also : byteLength (context.cursor cursor).rest < more) :
    moreSegments more (context.cursor cursor) = context.fragment (moreSegments fuel cursor) := by
  induction fuel generalizing more cursor with
  | zero => exact absurd enough (Nat.not_lt_zero _)
  | succ fuel ih =>
    obtain ⟨more, rfl⟩ := Nat.exists_eq_add_one.mpr (Nat.zero_lt_of_lt also)
    simp only [moreSegments, Context.read?_cursor context cursor (by decide : OneLine pathSeparator)]
    cases read : cursor.read? pathSeparator with
    | none => rfl
    | some next =>
      simp only [Option.map_some, identifier_cursor]
      cases found : identifier next with
      | none => rfl
      | some segment =>
        have placed := identifier_lawful found
        have less := Cursor.rest_lt placed.node.le placed.advances
        have fewer := context.one_less (Nat.lt_of_lt_of_le less (Cursor.rest_le (Cursor.read?_le read))) enough also
        exact context.fragment_andThen ⟨[segment.node], segment.errors, segment.next⟩ (ih fewer.1 fewer.2)

theorem segments_cursor {cursor : Cursor} (whole : cursor.Whole) :
    segments (context.cursor cursor) = (segments cursor).map context.fragment := by
  simp only [segments, identifier_cursor]
  cases found : identifier cursor with
  | none => rfl
  | some segment =>
    have behind := whole.later (identifier_lawful found).node.le
    simp only [Option.map_some, Option.some.injEq]
    exact context.fragment_andThen ⟨[segment.node], segment.errors, segment.next⟩
      (moreSegments_cursor context behind.enough (context.whole_cursor behind).enough)

theorem identPath_embeds : identPath.Embeds context := by
  intro cursor whole _
  have path : ∀ (fromRoot : Bool) (found : Fragment),
      context.parsed { node := { kind := .identPath fromRoot, span := cursor.spanTo found.next, children := found.nodes }
                       errors := found.errors, next := found.next } =
        { node := { kind := .identPath fromRoot, span := (context.cursor cursor).spanTo (context.fragment found).next,
                    children := (context.fragment found).nodes }
          errors := (context.fragment found).errors, next := (context.fragment found).next } := by
    intro fromRoot found
    simp [Context.parsed, Context.fragment, Node.shift_eq, Node.Kind.shift, Context.spanTo_cursor]
  simp only [identPath, Context.read?_cursor context cursor (by decide : OneLine pathSeparator)]
  cases read : cursor.read? pathSeparator with
  | none =>
    simp only [Option.map_none, segments_cursor context whole, Option.map_map]
    exact Option.map_congr fun found _ => (path false found).symm
  | some next =>
    have behind := whole.later (Cursor.read?_le read)
    simp only [Option.map_some, segments_cursor context behind, Option.some.injEq, path]
    cases segments next <;> rfl

theorem primitiveType_embeds : primitiveType.Embeds context := by
  intro cursor _ _
  simp only [primitiveType, Context.word_cursor, Context.afterWord_cursor, Option.map_map]
  refine Option.map_congr fun primitive _ => ?_
  simp only [Function.comp_apply]
  rw [Context.parsed_leaf context rfl]

/-- A list type is found from its opening bracket on, if its item is. Its closing bracket tells that the text
goes on up to there. -/
private theorem listType_cursor {item other : Production} (lawful : item.Lawful) {cursor opened : Cursor}
    (same : (∀ parsed ∈ item opened.skipTrivia, context.Quiet parsed.errors) →
      other (context.cursor opened.skipTrivia) = (item opened.skipTrivia).map context.parsed)
    (quiet : context.Quiet (listType item cursor opened).errors) :
    listType other (context.cursor cursor) (context.cursor opened) = context.parsed (listType item cursor opened) := by
  have placed := (Fragment.lawful_required lawful .type .expectedType opened.skipTrivia (by decide)).laid.le
  have required := context.required_cursor item .type .expectedType same
  simp only [listType, Fragment.skipTrivia] at quiet ⊢
  generalize Fragment.required item .type .expectedType opened.skipTrivia = inner at placed required quiet
  have left : context.Left inner.next.skipTrivia := by
    cases read : inner.next.skipTrivia.read? "]" with
    | some closed => exact Context.left_of_read read (by decide)
    | none => exact .inl (Context.Quiet.alone (Context.Quiet.right (by simpa only [read] using quiet)))
  have fine : context.Quiet inner.errors := by
    cases read : inner.next.skipTrivia.read? "]" with
    | some closed => simpa only [read] using quiet
    | none => exact Context.Quiet.left (by simpa only [read] using quiet)
  rw [Context.skipTrivia_cursor (left.earlier (placed.trans inner.next.le_skipTrivia)), required fine]
  simp only [Context.fragment, Context.skipTrivia_cursor left,
    Context.read?_cursor context inner.next.skipTrivia (by decide : OneLine "]")]
  cases read : inner.next.skipTrivia.read? "]" with
  | some closed => simp [Context.parsed, Node.shift_eq, Node.Kind.shift, Span.shift]
  | none =>
    have lastStop : (((inner.nodes.map (Node.shift context.before)).getLast?.map fun node => node.span.stop).getD
        ((context.cursor cursor).offset + 1)) =
        ((inner.nodes.getLast?.map fun node => node.span.stop).getD (cursor.offset + 1)) + context.before := by
      rw [List.getLast?_map]
      cases inner.nodes.getLast? with
      | none => simp [Nat.add_right_comm]
      | some node => simp [Span.shift]
    simp only [Option.map_none, lastStop]
    simp [Context.parsed, Node.shift_eq, Node.Kind.shift, Span.shift, Diagnostic.shift, Diagnostic.expectedToken,
      Diagnostic.ofMessage, Span.point]

private theorem optionalTypes_shift (node : Node) (offset distance : Nat) (marks : List Char) :
    (optionalTypes node offset marks).shift distance = optionalTypes (node.shift distance) (offset + distance) marks := by
  induction marks generalizing node offset with
  | nil => rfl
  | cons mark marks ih =>
    have next : (⟨offset, offset + 1⟩ : Span).shift distance = ⟨offset + distance, offset + distance + 1⟩ := by
      simp [Span.shift, Nat.add_right_comm]
    simp [optionalTypes, ih, Node.shift_eq, Node.Kind.shift, Span.cover_shift, next, Nat.add_right_comm]

private theorem primaryType_cursor {item other : Production} (lawful : item.Lawful) {cursor : Cursor}
    (whole : cursor.Whole) (same : ∀ opened, cursor.read? "[" = some opened →
      (∀ parsed ∈ item opened.skipTrivia, context.Quiet parsed.errors) →
      other (context.cursor opened.skipTrivia) = (item opened.skipTrivia).map context.parsed)
    (quiet : ∀ parsed ∈ primaryType item cursor, context.Quiet parsed.errors) :
    primaryType other (context.cursor cursor) = (primaryType item cursor).map context.parsed := by
  simp only [primaryType, Context.read?_cursor context cursor (by decide : OneLine "[")] at quiet ⊢
  cases read : cursor.read? "[" with
  | some opened =>
    simp only [read, Option.mem_def, Option.some.injEq, forall_eq'] at quiet
    simp only [Option.map_some, Option.some.injEq]
    exact listType_cursor context lawful (same opened read) quiet
  | none =>
    have others : Production.Embeds context (Production.orElse
        (fun cursor => (literal cursor).map (wrap .literalType .value))
        (Production.orElse primitiveType fun cursor => (identPath cursor).map (wrap .referenceType .path))) :=
      ((literal_embeds context).map_wrap rfl .value).orElse
        ((primitiveType_embeds context).orElse ((identPath_embeds context).map_wrap rfl .path))
    simp only [read, Option.map_none] at quiet ⊢
    exact others whole quiet

/-- A bound on the brackets is enough if it is more than the bytes ahead. -/
private theorem typeWithin_cursor {depth more : Nat} {cursor : Cursor} (whole : cursor.Whole)
    (enough : byteLength cursor.rest < depth) (also : byteLength (context.cursor cursor).rest < more)
    (quiet : ∀ parsed ∈ typeWithin depth cursor, context.Quiet parsed.errors) :
    typeWithin more (context.cursor cursor) = (typeWithin depth cursor).map context.parsed := by
  induction depth generalizing more cursor with
  | zero => exact absurd enough (Nat.not_lt_zero _)
  | succ depth ih =>
    obtain ⟨more, rfl⟩ := Nat.exists_eq_add_one.mpr (Nat.zero_lt_of_lt also)
    simp only [typeWithin] at quiet ⊢
    have primary : primaryType (typeWithin more) (context.cursor cursor) =
        (primaryType (typeWithin depth) cursor).map context.parsed := by
      refine primaryType_cursor context (typeWithin_lawful depth) whole ?_ ?_
      · intro opened read fine
        have reads := Cursor.read?_reads read
        have onward := reads.le.trans opened.le_skipTrivia
        have moved := Nat.lt_of_lt_of_le (reads.offset_lt (by decide)) (Cursor.offset_le opened.le_skipTrivia)
        have fewer := context.one_less (Cursor.rest_lt onward moved) enough also
        exact ih (whole.later onward) fewer.1 fewer.2 fine
      · intro parsed member
        have marked := quiet _ (Option.mem_map_of_mem _ member)
        exact marked
    rw [primary, Option.map_map, Option.map_map]
    refine Option.map_congr fun found _ => ?_
    simp only [Function.comp_apply, Context.parsed, Context.readWhile_cursor context found.next (· == '?') (by decide),
      optionalTypes_shift, Context.cursor_offset]

theorem typeExpr_embeds : typeExpr.Embeds context := fun _ whole quiet =>
  typeWithin_cursor context whole whole.enough (context.whole_cursor whole).enough quiet

end Parser

end SchemaDoc
