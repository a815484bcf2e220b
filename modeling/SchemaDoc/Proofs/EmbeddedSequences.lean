import SchemaDoc.Proofs.EmbeddedProductions

/-! Doc comments and sequences in a larger text. Both go on as long as there is more to read, so they are the
same in the larger text only when something of the text is left behind them: a sequence without a problem ends
with its closing token, and behind doc comments stands what they belong to. -/

namespace SchemaDoc

namespace Cursor

theorem readLine_le (cursor : Cursor) : cursor ≤ cursor.readLine.2 := by
  obtain ⟨_, reads, _⟩ := cursor.readLine_reads
  exact reads.le

theorem docLines_le (fuel stop : Nat) (cursor : Cursor) : cursor ≤ (docLines fuel stop cursor).2.2 := by
  induction fuel generalizing stop cursor with
  | zero => exact le_refl cursor
  | succ fuel ih =>
    unfold docLines
    split
    next => exact (cursor.readLine_le.trans cursor.readLine.2.le_skipTrivia).trans (ih _ _)
    next => exact le_refl cursor

theorem rest_lt_of_docLine {cursor : Cursor} (starts : cursor.startsWith "///" = true) :
    byteLength cursor.readLine.2.skipTrivia.rest < byteLength cursor.rest := by
  obtain ⟨stop, before, skips, _, advances⟩ := docLine_reads starts
  have onward := skips.le.trans cursor.readLine.2.le_skipTrivia
  exact rest_lt (before.trans onward) (Nat.lt_of_lt_of_le advances (offset_le onward))

end Cursor

namespace Context

variable {context : Context} {cursor : Cursor}

theorem readLine_cursor (left : context.Left cursor.readLine.2) :
    (context.cursor cursor).readLine = (cursor.readLine.1, context.cursor cursor.readLine.2) := by
  have ends : ∀ char ∈ context.after.head?, (char != '\n') = false := by
    intro char member
    simp [context.newline char member]
  obtain ⟨taken, rest⟩ := takeWhile_append_of_head ends cursor.rest
  simp only [Cursor.readLine, List.span_eq_takeWhile_dropWhile, cursor_rest, taken, rest] at left ⊢
  cases behind : cursor.rest.dropWhile (· != '\n') with
  | nil =>
    simp only [behind] at left
    have alone : context.after = [] := by simpa [Left, Cursor.moveTo] using left
    simp [alone, cursor_moveTo]
  | cons newline rest => simp [cursor_moveTo]

theorem docLines_cursor {fuel more stop : Nat} {cursor : Cursor} (enough : byteLength cursor.rest < fuel)
    (also : byteLength (context.cursor cursor).rest < more) (left : context.Left (Cursor.docLines fuel stop cursor).2.2) :
    Cursor.docLines more (stop + context.before) (context.cursor cursor) =
      ((Cursor.docLines fuel stop cursor).1, (Cursor.docLines fuel stop cursor).2.1 + context.before,
        context.cursor (Cursor.docLines fuel stop cursor).2.2) := by
  induction fuel generalizing more stop cursor with
  | zero => exact absurd enough (Nat.not_lt_zero _)
  | succ fuel ih =>
    obtain ⟨more, rfl⟩ := Nat.exists_eq_add_one.mpr (Nat.zero_lt_of_lt also)
    simp only [Cursor.docLines, startsWith_cursor context cursor (by decide : OneLine "///")] at left ⊢
    cases starts : cursor.startsWith "///" with
    | false => rfl
    | true =>
      simp only [starts, if_true] at left ⊢
      have behind := left.earlier (Cursor.docLines_le _ _ _)
      have line := readLine_cursor (behind.earlier cursor.readLine.2.le_skipTrivia)
      have fewer := context.one_less (Cursor.rest_lt_of_docLine starts) enough also
      have rest := ih fewer.1 fewer.2 left
      have moved : (context.cursor cursor).offset + (Cursor.docLine cursor.readLine.1).2 =
          cursor.offset + (Cursor.docLine cursor.readLine.1).2 + context.before := by
        rw [cursor_offset]
        omega
      simp only [line, skipTrivia_cursor behind, moved, rest]

theorem readDocComments?_cursor (whole : cursor.Whole) (left : ∀ found ∈ cursor.readDocComments?, context.Left found.2) :
    (context.cursor cursor).readDocComments? =
      cursor.readDocComments?.map fun found => (found.1.shift context.before, context.cursor found.2) := by
  cases starts : cursor.startsWith "///" with
  | false =>
    have also : (context.cursor cursor).startsWith "///" = false := by
      rw [startsWith_cursor context cursor (by decide : OneLine "///"), starts]
    simp only [Cursor.readDocComments?, Cursor.remaining, Cursor.docLines, starts, also]
    rfl
  | true =>
    have some : (Cursor.docLines cursor.remaining cursor.offset cursor).1 ≠ [] := by
      simp [Cursor.remaining, Cursor.docLines, starts]
    have lines (left : context.Left (Cursor.docLines cursor.remaining cursor.offset cursor).2.2) :=
      docLines_cursor whole.enough (context.whole_cursor whole).enough left
    rw [← cursor_offset] at lines
    simp only [Cursor.readDocComments?] at left ⊢
    generalize Cursor.docLines cursor.remaining cursor.offset cursor = found at some left lines
    obtain ⟨texts, stop, next⟩ := found
    cases texts with
    | nil => exact absurd rfl some
    | cons first texts =>
      rw [lines (left _ rfl)]
      simp [Node.shift_eq, Node.Kind.shift, Span.shift]

/-- What is required and not missing stands in the text. -/
theorem left_of_required {production : Production} (lawful : production.Lawful) {role : Node.Role} {message : Message}
    (quiet : context.Quiet (Fragment.required production role message cursor).errors) : context.Left cursor := by
  unfold Fragment.required at quiet
  split at quiet
  next parsed found =>
    refine .inr fun none => ?_
    have less := Cursor.rest_lt (lawful found).node.le (lawful found).advances
    rw [none] at less
    exact Nat.not_lt_zero _ less
  next => exact .inl quiet.alone

theorem left_of_startsWith {token : String} (starts : cursor.startsWith token = true) (some : token.toList ≠ []) :
    context.Left cursor := by
  obtain ⟨rest, ahead⟩ := Cursor.startsWith_iff.mp starts
  exact .inr (by simp [ahead, some])

theorem atEnd_cursor (left : context.Left cursor) : (context.cursor cursor).atEnd = cursor.atEnd := by
  rcases left with alone | some
  · simp [Cursor.atEnd, alone]
  · obtain ⟨char, rest, ahead⟩ := List.exists_cons_of_ne_nil some
    simp [Cursor.atEnd, ahead]

theorem getD_read?_cursor {token : String} (oneLine : OneLine token) (cursor : Cursor) :
    ((context.cursor cursor).read? token).getD (context.cursor cursor) =
      context.cursor ((cursor.read? token).getD cursor) := by
  rw [read?_cursor context cursor oneLine]
  cases cursor.read? token <;> rfl

end Context

namespace Parser

variable {context : Context}

structure PairGrammar.Embeds (context : Context) (grammar : PairGrammar) : Prop where
  keys : grammar.key.Lawful
  values : grammar.value.Lawful
  keyEmbeds : grammar.key.Embeds context
  valueEmbeds : grammar.value.Embeds context
  oneLine : OneLine grammar.separator

theorem PairGrammar.doc_cursor (grammar : PairGrammar) {cursor : Cursor} (whole : cursor.Whole)
    (left : context.Left (grammar.doc cursor).next) :
    grammar.doc (context.cursor cursor) = context.fragment (grammar.doc cursor) := by
  unfold doc at left ⊢
  split
  next docs =>
    simp only [docs, if_true] at left
    have remains : ∀ found ∈ cursor.readDocComments?, context.Left found.2 := by
      intro found member
      simpa [Option.mem_def.mp member] using left
    rw [Context.readDocComments?_cursor whole remains]
    cases cursor.readDocComments? with
    | none => rfl
    | some found => simp [Context.fragment]
  next => rfl

theorem PairGrammar.front_cursor {grammar : PairGrammar} (embeds : grammar.Embeds context) {cursor : Cursor}
    (whole : cursor.Whole)
    (quiet : context.Quiet ((grammar.doc cursor).andThen (Fragment.required grammar.key .key .expectedKey)).errors) :
    (grammar.doc (context.cursor cursor)).andThen (Fragment.required grammar.key .key .expectedKey) =
      context.fragment ((grammar.doc cursor).andThen (Fragment.required grammar.key .key .expectedKey)) := by
  have onward := (grammar.doc_sound cursor).lawful.laid.le
  have key := context.required_cursor _ .key .expectedKey (embeds.keyEmbeds (whole.later onward)) quiet.right
  rw [grammar.doc_cursor whole (Context.left_of_required embeds.keys quiet.right)]
  exact context.fragment_andThen _ key

def PairGrammar.assemble (grammar : PairGrammar) (start : Nat) (key : Fragment) (separated : Option Cursor)
    (value : Fragment) : Parsed :=
  let separator := separated.map key.next.spanTo
  let covered := key.nodes.map Node.span ++ separator.toList ++ value.nodes.map Node.span
  { node :=
      { kind := .pair separator none
        span := Span.coverAll (.point start) covered
        children := key.nodes ++ value.nodes }
    errors := key.errors ++ (if separated.isSome then [] else [.expectedToken grammar.separator key.next.offset]) ++
      value.errors
    next := value.next }

theorem PairGrammar.pair_eq (grammar : PairGrammar) (cursor : Cursor) :
    grammar.pair cursor =
      let front := ((grammar.doc cursor).andThen (Fragment.required grammar.key .key .expectedKey)).skipTrivia
      let separated := front.next.read? grammar.separator
      grammar.assemble (grammar.doc cursor).next.offset front separated
        (Fragment.required grammar.value .value .expectedValue (separated.getD front.next).skipTrivia) := rfl

theorem PairGrammar.assemble_cursor (grammar : PairGrammar) (start : Nat) (key : Fragment) (separated : Option Cursor)
    (value : Fragment) :
    grammar.assemble (start + context.before) (context.fragment key) (separated.map context.cursor)
        (context.fragment value) =
      context.parsed (grammar.assemble start key separated value) := by
  cases separated <;>
    simp [assemble, Context.parsed, Context.fragment, Node.shift_eq, Node.Kind.shift, Span.coverAll_shift, Span.point_shift,
      Context.spanTo_cursor, Diagnostic.expectedToken_shift, Function.comp_def]

/-- A pair without a problem is the same pair in the larger text. -/
theorem PairGrammar.pair_cursor {grammar : PairGrammar} (embeds : grammar.Embeds context) {cursor : Cursor}
    (whole : cursor.Whole) (quiet : context.Quiet (grammar.pair cursor).errors) :
    grammar.pair (context.cursor cursor) = context.parsed (grammar.pair cursor) := by
  rw [pair_eq] at quiet
  have fine : context.Quiet ((grammar.doc cursor).andThen (Fragment.required grammar.key .key .expectedKey)).errors :=
    quiet.left.left
  rw [pair_eq, pair_eq, PairGrammar.front_cursor embeds whole fine,
    grammar.doc_cursor whole (Context.left_of_required embeds.keys fine.right)]
  have onward : cursor ≤ _ := ((grammar.doc_sound cursor).lawful.andThen
    (Fragment.lawful_required embeds.keys .key .expectedKey (grammar.doc cursor).next (by decide))).laid.le
  generalize (grammar.doc cursor).andThen (Fragment.required grammar.key .key .expectedKey) = front at quiet onward
  dsimp only [Fragment.skipTrivia] at quiet ⊢
  have toSeparator : front.next.skipTrivia ≤ (front.next.skipTrivia.read? grammar.separator).getD front.next.skipTrivia := by
    cases read : front.next.skipTrivia.read? grammar.separator with
    | none => exact le_refl _
    | some next => exact Cursor.read?_le read
  have toValue := toSeparator.trans (Cursor.le_skipTrivia _)
  have left := Context.left_of_required embeds.values quiet.right
  have value := context.required_cursor _ .value .expectedValue
    (embeds.valueEmbeds (whole.later (onward.trans (front.next.le_skipTrivia.trans toValue)))) quiet.right
  have skipped : (context.fragment front).next.skipTrivia = context.cursor front.next.skipTrivia :=
    Context.skipTrivia_cursor (left.earlier toValue)
  rw [← Context.skipTrivia_cursor left, ← Context.getD_read?_cursor embeds.oneLine] at value
  rw [skipped, value, Context.read?_cursor context _ embeds.oneLine]
  exact grammar.assemble_cursor _ { front with next := front.next.skipTrivia } _ _

/-- What is asked of the entries of a sequence. That one starts matters only where a separator is missing. -/
structure EntryGrammar.Embeds (context : Context) (grammar : EntryGrammar) : Prop where
  lawful : ∀ cursor, (grammar.entry cursor).Lawful cursor
  entry : ∀ {cursor : Cursor}, cursor.Whole → context.Quiet (grammar.entry cursor).errors →
    grammar.entry (context.cursor cursor) = context.parsed (grammar.entry cursor)
  starts : ∀ {cursor : Cursor}, cursor.Whole → context.after = [] →
    grammar.starts (context.cursor cursor) = grammar.starts cursor

theorem Production.Embeds.isSome {production : Production} (embeds : production.Embeds context) (alone : context.after = [])
    {cursor : Cursor} (whole : cursor.Whole) :
    (production (context.cursor cursor)).isSome = (production cursor).isSome := by
  rw [embeds whole fun _ _ => .inl alone, Option.isSome_map]

theorem PairGrammar.Embeds.entries {grammar : PairGrammar} (embeds : grammar.Embeds context) :
    EntryGrammar.Embeds context ⟨grammar.pair, grammar.starts⟩ where
  lawful := PairGrammar.pair_lawful embeds.keys embeds.values
  entry := PairGrammar.pair_cursor embeds
  starts {cursor} whole alone := by
    simp only [PairGrammar.starts, Context.startsWith_cursor context cursor (by decide : OneLine "///"),
      Context.startsWith_cursor context cursor embeds.oneLine, Production.Embeds.isSome embeds.keyEmbeds alone whole]

theorem item_embeds {value : Production} (lawful : value.Lawful) (embeds : value.Embeds context) :
    EntryGrammar.Embeds context ⟨item value, fun cursor => (value cursor).isSome⟩ where
  lawful := item_lawful lawful
  entry {cursor} whole quiet := by
    simp only [item] at quiet ⊢
    cases found : value cursor with
    | none =>
      rw [embeds whole (by simp [found]), found]
      rfl
    | some parsed =>
      have fine : context.Quiet parsed.errors := by simpa only [found] using quiet
      rw [embeds whole (by simpa [found] using fine), found]
      simp [Context.parsed, Node.shift_eq, Node.Kind.shift]
  starts whole alone := Production.Embeds.isSome embeds alone whole

end Parser

namespace Context

def entries (context : Context) (found : Parser.Entries) : Parser.Entries :=
  { nodes := found.nodes.map (Node.shift context.before)
    errors := found.errors.map (Diagnostic.shift context.before)
    stop := found.stop + context.before
    next := context.cursor found.next }

def round (context : Context) : Parser.Round → Parser.Round
  | .last found => .last (context.entries found)
  | .onward entry errors stop next =>
    .onward (entry.shift context.before) (errors.map (Diagnostic.shift context.before)) (stop + context.before)
      (context.cursor next)

def Closed (context : Context) (closing : String) (found : Parser.Entries) : Prop :=
  context.after = [] ∨ found.errors = [] ∧ found.next.startsWith closing = true

/-- What is asked of a round of a loop that ends with its closing token. -/
def Keeps (context : Context) (closing : String) : Parser.Round → Prop
  | .last found => context.Closed closing found
  | .onward _ errors _ next => context.after = [] ∨ errors = [] ∧ next.rest ≠ []

end Context

theorem Context.Closed.left {context : Context} {closing : String} {found : Parser.Entries}
    (visible : closing.toList ≠ []) (closed : context.Closed closing found) : context.Left found.next := by
  rcases closed with alone | ⟨_, closes⟩
  · exact .inl alone
  · exact Context.left_of_startsWith closes visible

namespace Parser

section Loop

variable {context : Context} {delimiters : Delimiters} {grammar : EntryGrammar} {stop : Nat} {cursor : Cursor}

theorem trailingErrors_shift (delimiters : Delimiters) (separator : Span) (distance : Nat) :
    (trailingErrors delimiters separator).map (Diagnostic.shift distance) =
      trailingErrors delimiters (separator.shift distance) := by
  unfold trailingErrors
  cases delimiters.trailing <;> rfl

theorem reached_shift (span : Span) (stop distance : Nat) :
    (if span.isEmpty then stop + distance else max (stop + distance) (span.shift distance).stop) =
      (if span.isEmpty then stop else max stop span.stop) + distance := by
  split
  · rfl
  · exact Nat.add_max_add_right ..

def separatedRound (delimiters : Delimiters) (parsed : Parsed) (separated : Cursor) : Round :=
  let separator := parsed.next.skipTrivia.spanTo separated
  let next := separated.skipTrivia
  if next.startsWith delimiters.closing then
    .last { nodes := [parsed.node.endedBy separator], errors := parsed.errors ++ trailingErrors delimiters separator,
            stop := separator.stop, next }
  else .onward (parsed.node.endedBy separator) parsed.errors separator.stop next

def unseparatedRound (delimiters : Delimiters) (grammar : EntryGrammar) (stop : Nat) (parsed : Parsed) : Round :=
  let stop := if parsed.node.span.isEmpty then stop else max stop parsed.node.span.stop
  let behind := parsed.next.skipTrivia
  if parsed.node.span.isEmpty then .last { errors := parsed.errors, stop, next := behind }
  else if !behind.startsWith delimiters.closing && grammar.starts behind then
    .onward parsed.node (parsed.errors ++ [.expectedToken entrySeparator parsed.node.span.stop]) stop behind
  else .last { nodes := [parsed.node], errors := parsed.errors, stop, next := behind }

theorem round_eq (delimiters : Delimiters) (grammar : EntryGrammar) (stop : Nat) (cursor : Cursor) :
    round delimiters grammar stop cursor =
      let start := cursor.skipTrivia
      if start.atEnd || start.startsWith delimiters.closing then .last { stop, next := start }
      else
        let parsed := grammar.entry start
        match parsed.next.skipTrivia.read? entrySeparator with
        | some separated => separatedRound delimiters parsed separated
        | none => unseparatedRound delimiters grammar stop parsed := rfl

theorem separatedRound_cursor (oneLine : OneLine delimiters.closing) (visible : delimiters.closing.toList ≠ [])
    {parsed : Parsed} {separated : Cursor} (comma : parsed.next.skipTrivia.read? entrySeparator = some separated)
    (keeps : context.Keeps delimiters.closing (separatedRound delimiters parsed separated)) :
    separatedRound delimiters (context.parsed parsed) (context.cursor separated) =
      context.round (separatedRound delimiters parsed separated) := by
  have next : context.Left separated.skipTrivia := by
    simp only [separatedRound] at keeps
    split at keeps
    next closes => exact Context.left_of_startsWith closes visible
    next => exact keeps.imp_right And.right
  simp only [separatedRound, Context.parsed, Context.skipTrivia_cursor (Context.left_of_read comma (by decide)),
    Context.skipTrivia_cursor next, Context.startsWith_cursor context _ oneLine, Context.spanTo_cursor]
  split
  · simp only [Context.round, Context.entries, List.map_append, trailingErrors_shift, List.map_cons, List.map_nil,
      Node.shift_endedBy]
    rfl
  · simp only [Context.round, Node.shift_endedBy]
    rfl

/-- Where the separator is missing for no reason, the problem is reported, so nothing stands behind the text. -/
theorem closed_of_unseparatedRound {parsed : Parsed}
    (keeps : context.Keeps delimiters.closing (unseparatedRound delimiters grammar stop parsed)) :
    context.Closed delimiters.closing { errors := parsed.errors, stop, next := parsed.next.skipTrivia } := by
  simp only [unseparatedRound] at keeps
  split at keeps
  next => exact keeps
  next =>
    split at keeps
    next => exact keeps.imp_right fun reported => absurd reported.1 (by simp)
    next => exact keeps

theorem unseparatedRound_cursor (embeds : grammar.Embeds context) (oneLine : OneLine delimiters.closing)
    (visible : delimiters.closing.toList ≠ []) {parsed : Parsed} (whole : parsed.next.skipTrivia.Whole)
    (keeps : context.Keeps delimiters.closing (unseparatedRound delimiters grammar stop parsed)) :
    unseparatedRound delimiters grammar (stop + context.before) (context.parsed parsed) =
      context.round (unseparatedRound delimiters grammar stop parsed) := by
  have closed := closed_of_unseparatedRound keeps
  simp only [unseparatedRound, Context.parsed, Context.skipTrivia_cursor (closed.left visible), Node.shift_span,
    Context.startsWith_cursor context _ oneLine, Span.isEmpty_shift, reached_shift]
  cases isEmpty : parsed.node.span.isEmpty with
  | true => rfl
  | false =>
    have lookahead : (!parsed.next.skipTrivia.startsWith delimiters.closing &&
          grammar.starts (context.cursor parsed.next.skipTrivia)) =
        (!parsed.next.skipTrivia.startsWith delimiters.closing && grammar.starts parsed.next.skipTrivia) := by
      rcases closed with alone | ⟨_, closes⟩
      · rw [embeds.starts whole alone]
      · simp [closes]
    rw [lookahead]
    simp only [Bool.false_eq_true, if_false]
    split
    · simp only [Context.round, List.map_append]
      rfl
    · rfl

/-- Behind its entry, a round reports what the entry does, and more. -/
theorem quiet_of_keeps {parsed : Parsed} {separated : Option Cursor}
    (keeps : context.Keeps delimiters.closing (match separated with
      | some separated => separatedRound delimiters parsed separated
      | none => unseparatedRound delimiters grammar stop parsed)) : context.Quiet parsed.errors := by
  cases separated with
  | none => exact (closed_of_unseparatedRound keeps).imp_right And.left
  | some separated =>
    simp only [separatedRound] at keeps
    split at keeps
    · exact keeps.imp_right fun closed => (List.append_eq_nil_iff.mp closed.1).1
    · exact keeps.imp_right And.left

/-- A round that has nothing to report is the same in the larger text. -/
theorem round_cursor (embeds : grammar.Embeds context) (oneLine : OneLine delimiters.closing)
    (visible : delimiters.closing.toList ≠ []) (whole : cursor.Whole)
    (keeps : context.Keeps delimiters.closing (round delimiters grammar stop cursor)) :
    round delimiters grammar (stop + context.before) (context.cursor cursor) =
      context.round (round delimiters grammar stop cursor) := by
  have behind := whole.later cursor.le_skipTrivia
  rw [round_eq] at keeps
  rw [round_eq, round_eq]
  dsimp only at keeps ⊢
  by_cases ends : (cursor.skipTrivia.atEnd || cursor.skipTrivia.startsWith delimiters.closing) = true
  · rw [if_pos ends] at keeps
    have left := Context.Closed.left visible keeps
    rw [Context.skipTrivia_cursor left, Context.atEnd_cursor left, Context.startsWith_cursor context _ oneLine,
      if_pos ends, if_pos ends]
    rfl
  · have left : context.Left cursor.skipTrivia := .inr fun none => ends (by simp [Cursor.atEnd, none])
    rw [if_neg ends] at keeps
    have entry := embeds.entry behind (quiet_of_keeps keeps)
    have onward := (embeds.lawful cursor.skipTrivia).node.le.trans (Cursor.le_skipTrivia _)
    rw [Context.skipTrivia_cursor left, Context.atEnd_cursor left, Context.startsWith_cursor context _ oneLine,
      if_neg ends, if_neg ends, entry]
    generalize grammar.entry cursor.skipTrivia = parsed at keeps onward
    cases comma : parsed.next.skipTrivia.read? entrySeparator with
    | some separated =>
      have moved : (context.parsed parsed).next.skipTrivia = context.cursor parsed.next.skipTrivia :=
        Context.skipTrivia_cursor (Context.left_of_read comma (by decide))
      rw [comma] at keeps
      simp only [moved, Context.read?_cursor context _ (by decide : OneLine entrySeparator), comma, Option.map_some]
      exact separatedRound_cursor oneLine visible comma keeps
    | none =>
      rw [comma] at keeps
      have moved : (context.parsed parsed).next.skipTrivia = context.cursor parsed.next.skipTrivia :=
        Context.skipTrivia_cursor ((closed_of_unseparatedRound keeps).left visible)
      simp only [moved, Context.read?_cursor context _ (by decide : OneLine entrySeparator), comma, Option.map_none]
      exact unseparatedRound_cursor embeds oneLine visible (behind.later onward) keeps

theorem stays_of_lawful (lawful : ∀ cursor, (grammar.entry cursor).Lawful cursor) (text : String) : grammar.Stays text := by
  intro cursor _
  have placed := (lawful cursor).node
  exact ⟨placed.le, placed.wellFormed, placed.between.bounds.1, placed.between.ordered, placed.between.bounds.2⟩

/-- With enough rounds on both sides the loop finds the same entries. -/
theorem entries_cursor (embeds : grammar.Embeds context) (oneLine : OneLine delimiters.closing)
    (visible : delimiters.closing.toList ≠ []) {text : String} (behind : Cursor.ofText text ≤ cursor)
    (before : stop ≤ cursor.offset) {fuel more : Nat} (enough : byteLength cursor.rest < fuel)
    (also : byteLength (context.cursor cursor).rest < more)
    (closed : context.Closed delimiters.closing (entries delimiters grammar fuel stop cursor)) :
    entries delimiters grammar more (stop + context.before) (context.cursor cursor) =
      context.entries (entries delimiters grammar fuel stop cursor) := by
  induction fuel generalizing more stop cursor with
  | zero => exact absurd enough (Nat.not_lt_zero _)
  | succ fuel ih =>
    obtain ⟨more, rfl⟩ := Nat.exists_eq_add_one.mpr (Nat.zero_lt_of_lt also)
    have stays := stays_of_lawful embeds.lawful text
    have sound := round_sound delimiters stays behind before
    have same : context.Keeps delimiters.closing (round delimiters grammar stop cursor) → _ :=
      round_cursor embeds oneLine visible (Cursor.whole_of_le behind)
    rw [entries_succ] at closed
    rw [entries_succ, entries_succ]
    cases ends : round delimiters grammar stop cursor with
    | last found =>
      rw [ends] at same closed
      rw [same closed]
      rfl
    | onward entry errors reached next =>
      rw [ends] at same closed sound
      obtain ⟨first, advanced⟩ := sound
      have fewer := context.one_less (Cursor.rest_lt first.onward advanced) enough also
      have inside := behind.trans first.onward
      obtain ⟨_, rounds⟩ := entries_rounds delimiters stays fewer.1 inside first.bounded
      have onward := (rounds.sound stays inside first.bounded).1.onward
      simp only [Context.Closed, Entries.cons] at closed
      have kept : context.after = [] ∨ errors = [] ∧ next.rest ≠ [] := by
        refine closed.imp_right fun ended => ⟨(List.append_eq_nil_iff.mp ended.1).1, ?_⟩
        obtain ⟨rest, ahead⟩ := Cursor.startsWith_iff.mp ended.2
        exact Cursor.rest_ne_nil_of_le onward (by simp [ahead, visible])
      have rest := ih inside first.bounded fewer.1 fewer.2
        (closed.imp_right fun ended => ⟨(List.append_eq_nil_iff.mp ended.1).2, ended.2⟩)
      rw [same kept]
      simp only [Context.round, rest]
      simp [Entries.cons, Context.entries]

end Loop

/-- A sequence without a problem is the same in the larger text, and something is left where it starts. -/
theorem sequence_cursor {context : Context} {kind : Node.Kind} {delimiters : Delimiters} {grammar : EntryGrammar}
    (plain : kind.shift context.before = kind) (embeds : grammar.Embeds context) (opens : OneLine delimiters.opening)
    (closes : OneLine delimiters.closing) (visible : delimiters.closing.toList ≠ []) {text : String} {cursor : Cursor}
    (behind : Cursor.ofText text ≤ cursor) (quiet : context.Quiet (sequence kind delimiters grammar cursor).errors) :
    sequence kind delimiters grammar (context.cursor cursor) = context.parsed (sequence kind delimiters grammar cursor) := by
  simp only [sequence, Context.read?_cursor context cursor opens] at quiet ⊢
  cases read : cursor.read? delimiters.opening with
  | none =>
    simp [Context.parsed, Node.shift_eq, plain, Diagnostic.expectedToken_shift, Cursor.here, Span.point_shift]
  | some opened =>
    simp only [read] at quiet
    simp only [Option.map_some]
    have inside := behind.trans (Cursor.read?_le read)
    have whole := Cursor.whole_of_le inside
    have inner := entries_cursor embeds closes visible inside (Nat.le_refl opened.offset) whole.enough
      (context.whole_cursor whole).enough
    rw [← Context.cursor_offset] at inner
    generalize entries delimiters grammar opened.remaining opened.offset opened = found at quiet inner
    have closed : context.Closed delimiters.closing found := by
      cases ends : found.next.read? delimiters.closing with
      | none => exact .inl (Context.Quiet.alone (Context.Quiet.right (by simpa only [ends] using quiet)))
      | some next =>
        simp only [ends] at quiet
        exact quiet.imp_right fun clean => ⟨clean, Cursor.startsWith_iff.mpr ⟨_, (Cursor.read?_reads ends).rest⟩⟩
    rw [inner closed]
    simp only [Context.entries, Context.read?_cursor context _ closes]
    cases found.next.read? delimiters.closing <;>
      simp [Context.parsed, Node.shift_eq, plain, Diagnostic.expectedToken_shift, Span.shift]

end Parser

end SchemaDoc
