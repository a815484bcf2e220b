import SchemaDoc.Proofs.DocumentCoverage
import SchemaDoc.Proofs.TokenReading

/-! A text that stands inside of another one, with any bytes in front of it and, behind it, nothing or a new
line. What is read of it there is what is read of it alone, at other places: each token ends before the line
does, so none goes on behind the text, and trivia does so only when nothing but trivia is left. -/

namespace SchemaDoc

namespace Span

variable (distance : Nat)

theorem cover_shift (first second : Span) :
    (first.cover second).shift distance = (first.shift distance).cover (second.shift distance) := by
  simp only [cover, shift, Nat.add_min_add_right, Nat.add_max_add_right]

theorem coverAll_shift (fallback : Span) (spans : List Span) :
    (coverAll fallback spans).shift distance = coverAll (fallback.shift distance) (spans.map (shift distance)) := by
  cases spans with
  | nil => rfl
  | cons first rest =>
    simp only [coverAll, List.map_cons]
    induction rest generalizing first with
    | nil => rfl
    | cons second rest ih => simp only [List.foldl_cons, List.map_cons, ih, cover_shift]

theorem isEmpty_shift (span : Span) : (span.shift distance).isEmpty = span.isEmpty := by
  simp [isEmpty, shift]

theorem point_shift (offset : Nat) : (point offset).shift distance = point (offset + distance) := rfl

@[simp] theorem shift_zero (span : Span) : span.shift 0 = span := rfl

end Span

/-- Move the separators that an entry records. -/
def Node.Kind.shift (distance : Nat) : Node.Kind → Node.Kind
  | .pair separator stop => .pair (separator.map (Span.shift distance)) (stop.map (Span.shift distance))
  | .item stop => .item (stop.map (Span.shift distance))
  | other => other

mutual

def Node.shift (distance : Nat) : Node → Node
  | ⟨kind, span, role, children⟩ => ⟨kind.shift distance, span.shift distance, role, Node.shiftAll distance children⟩

def Node.shiftAll (distance : Nat) : List Node → List Node
  | [] => []
  | node :: nodes => node.shift distance :: Node.shiftAll distance nodes

end

def Diagnostic.shift (distance : Nat) (diagnostic : Diagnostic) : Diagnostic :=
  { diagnostic with span := diagnostic.span.shift distance }

namespace Node

variable (distance : Nat)

theorem shiftAll_eq_map (nodes : List Node) : shiftAll distance nodes = nodes.map (shift distance) := by
  induction nodes with
  | nil => rfl
  | cons node nodes ih => simp [shiftAll, ih]

theorem shift_eq (kind : Kind) (span : Span) (role : Option Role) (children : List Node) :
    shift distance ⟨kind, span, role, children⟩ =
      ⟨kind.shift distance, span.shift distance, role, children.map (shift distance)⟩ := by
  simp [shift, shiftAll_eq_map]

@[simp] theorem shift_kind (node : Node) : (node.shift distance).kind = node.kind.shift distance := by
  cases node
  rfl

@[simp] theorem shift_span (node : Node) : (node.shift distance).span = node.span.shift distance := by
  cases node
  rfl

@[simp] theorem shift_role (node : Node) : (node.shift distance).role = node.role := by
  cases node
  rfl

@[simp] theorem shift_tagged (node : Node) (role : Role) :
    (node.tagged role).shift distance = (node.shift distance).tagged role := by
  cases node
  rfl

theorem shift_endedBy (entry : Node) (separator : Span) :
    (entry.endedBy separator).shift distance = (entry.shift distance).endedBy (separator.shift distance) := by
  obtain ⟨kind, span, role, children⟩ := entry
  cases kind <;> simp [endedBy, shift_eq, Kind.shift, Span.cover_shift]

theorem map_span_shift (nodes : List Node) :
    (nodes.map (shift distance)).map span = (nodes.map span).map (Span.shift distance) := by
  simp

theorem shift_zero_kind (kind : Kind) : kind.shift 0 = kind := by
  have id : Span.shift 0 = id := rfl
  cases kind <;> simp [Kind.shift, id]

mutual

private theorem shift_zero_tree : ∀ node : Node, node.shift 0 = node
  | ⟨kind, span, role, children⟩ => by
    rw [shift, shift_zero_kind, shiftAll_zero children]
    rfl

private theorem shiftAll_zero : ∀ nodes : List Node, shiftAll 0 nodes = nodes
  | [] => rfl
  | node :: nodes => by rw [shiftAll, shift_zero_tree node, shiftAll_zero nodes]

end

@[simp] theorem shift_zero : shift 0 = id := funext shift_zero_tree

end Node

@[simp] theorem Diagnostic.shift_zero : Diagnostic.shift 0 = id := rfl

theorem Diagnostic.expectedToken_shift (token : String) (offset distance : Nat) :
    (expectedToken token offset).shift distance = expectedToken token (offset + distance) := rfl

/-- What stands around a text: so many bytes in front of it, and behind it nothing or a new line. -/
structure Context where
  before : Nat
  after : List Char
  newline : ∀ char ∈ after.head?, char = '\n'

namespace Context

def cursor (context : Context) (cursor : Cursor) : Cursor :=
  ⟨context.before + cursor.size + byteLength context.after, cursor.offset + context.before, cursor.rest ++ context.after⟩

def parsed (context : Context) (parsed : Parsed) : Parsed :=
  { node := parsed.node.shift context.before
    errors := parsed.errors.map (Diagnostic.shift context.before)
    next := context.cursor parsed.next }

def fragment (context : Context) (fragment : Fragment) : Fragment :=
  { nodes := fragment.nodes.map (Node.shift context.before)
    errors := fragment.errors.map (Diagnostic.shift context.before)
    next := context.cursor fragment.next }

/-- Nothing was reported, or nothing stands behind the text. -/
def Quiet (context : Context) (errors : List Diagnostic) : Prop := context.after = [] ∨ errors = []

variable {context : Context} {cursor next : Cursor}

theorem Quiet.left {errors more : List Diagnostic} (quiet : context.Quiet (errors ++ more)) : context.Quiet errors :=
  quiet.imp_right fun none => (List.append_eq_nil_iff.mp none).1

theorem Quiet.right {errors more : List Diagnostic} (quiet : context.Quiet (errors ++ more)) : context.Quiet more :=
  quiet.imp_right fun none => (List.append_eq_nil_iff.mp none).2

theorem Quiet.alone {diagnostic : Diagnostic} {errors : List Diagnostic} (quiet : context.Quiet (diagnostic :: errors)) :
    context.after = [] := by
  rcases quiet with alone | none
  · exact alone
  · cases none

@[simp] theorem cursor_rest (context : Context) (cursor : Cursor) :
    (context.cursor cursor).rest = cursor.rest ++ context.after := rfl

@[simp] theorem cursor_offset (context : Context) (cursor : Cursor) :
    (context.cursor cursor).offset = cursor.offset + context.before := rfl

theorem cursor_moveTo (context : Context) (cursor : Cursor) (taken rest : List Char) :
    context.cursor (cursor.moveTo taken rest) = (context.cursor cursor).moveTo taken (rest ++ context.after) := by
  simp only [Context.cursor, Cursor.moveTo, Cursor.mk.injEq, and_true, true_and]
  omega

theorem spanTo_cursor (context : Context) (cursor next : Cursor) :
    (context.cursor cursor).spanTo (context.cursor next) = (cursor.spanTo next).shift context.before := rfl

theorem reads_cursor {taken : List Char} (reads : cursor.Reads taken next) :
    (context.cursor cursor).Reads taken (context.cursor next) := by
  refine ⟨by simp [reads.rest], ?_, by simp [Context.cursor, reads.size]⟩
  simp only [cursor_offset, reads.offset]
  omega

theorem whole_cursor (context : Context) (whole : cursor.Whole) : (context.cursor cursor).Whole := by
  simp only [Cursor.Whole, Context.cursor, byteLength_append] at whole ⊢
  omega

end Context

theorem Cursor.rest_ne_nil_of_le {cursor next : Cursor} (onward : cursor ≤ next) (some : next.rest ≠ []) :
    cursor.rest ≠ [] := by
  obtain ⟨taken, reads⟩ := onward
  rw [reads.rest]
  simp [some]

def OneLine (token : String) : Prop := '\n' ∉ token.toList

instance (token : String) : Decidable (OneLine token) := inferInstanceAs (Decidable (_ ∉ _))

theorem takeWhile_append_of_head {holds : Char → Bool} {after : List Char} (stops : ∀ char ∈ after.head?, holds char = false)
    (chars : List Char) : (chars ++ after).takeWhile holds = chars.takeWhile holds ∧
      (chars ++ after).dropWhile holds = chars.dropWhile holds ++ after := by
  induction chars with
  | nil =>
    cases after with
    | nil => exact ⟨rfl, rfl⟩
    | cons char after =>
      have stop := stops char rfl
      simp [stop]
  | cons char chars ih =>
    by_cases goesOn : holds char = true
    · simp [goesOn, ih]
    · simp [goesOn]

namespace Context

variable (context : Context) (cursor : Cursor)

theorem startsWith_cursor {token : String} (oneLine : OneLine token) :
    (context.cursor cursor).startsWith token = cursor.startsWith token := by
  have general : ∀ chars : List Char, '\n' ∉ chars → ∀ rest : List Char,
      chars.isPrefixOf (rest ++ context.after) = chars.isPrefixOf rest := by
    intro chars oneLine
    induction chars with
    | nil => simp
    | cons char chars ih =>
      rw [List.mem_cons, not_or] at oneLine
      intro rest
      cases rest with
      | cons first rest => simp [List.isPrefixOf, ih oneLine.2]
      | nil =>
        cases ahead : context.after with
        | nil => rfl
        | cons first after =>
          have newline : first = '\n' := context.newline first (by simp [ahead])
          have other : (char == first) = false := by simpa [newline] using fun same => oneLine.1 same.symm
          simp [List.isPrefixOf, other]
  exact general token.toList oneLine cursor.rest

theorem read?_cursor {token : String} (oneLine : OneLine token) :
    (context.cursor cursor).read? token = (cursor.read? token).map context.cursor := by
  simp only [Cursor.read?, startsWith_cursor context cursor oneLine]
  split
  next starts =>
    obtain ⟨rest, ahead⟩ := Cursor.startsWith_iff.mp starts
    simp [cursor_moveTo, ahead]
  next => rfl

theorem readWhile_cursor (holds : Char → Bool) (stops : holds '\n' = false) :
    (context.cursor cursor).readWhile holds = ((cursor.readWhile holds).1, context.cursor (cursor.readWhile holds).2) := by
  have ends : ∀ char ∈ context.after.head?, holds char = false := by
    intro char member
    rw [context.newline char member, stops]
  obtain ⟨taken, rest⟩ := takeWhile_append_of_head ends cursor.rest
  simp only [Cursor.readWhile, List.span_eq_takeWhile_dropWhile, cursor_rest, taken, rest, cursor_moveTo]

theorem word_cursor : (context.cursor cursor).word = cursor.word := by
  have ends : ∀ char ∈ context.after.head?, isIdentifierPart char = false := by
    intro char member
    rw [context.newline char member]
    decide
  simp only [Cursor.word, cursor_rest]
  cases ahead : cursor.rest with
  | nil =>
    cases behind : context.after with
    | nil => rfl
    | cons char after =>
      obtain rfl : char = '\n' := context.newline char (by simp [behind])
      rfl
  | cons char rest => simp only [List.cons_append, (takeWhile_append_of_head ends rest).1]

theorem afterWord_cursor : (context.cursor cursor).afterWord = context.cursor cursor.afterWord := by
  simp only [Cursor.afterWord, word_cursor, cursor_moveTo, cursor_rest]
  rw [List.drop_append_of_le_length cursor.word_prefix.length_le]

theorem readIdentifier?_cursor :
    (context.cursor cursor).readIdentifier? = cursor.readIdentifier?.map fun found => (found.1, context.cursor found.2) := by
  simp only [Cursor.readIdentifier?, word_cursor, afterWord_cursor]
  split <;> rfl

theorem readKeyword?_cursor {keyword : String} (oneLine : OneLine keyword) :
    (context.cursor cursor).readKeyword? keyword = (cursor.readKeyword? keyword).map context.cursor := by
  simp only [Cursor.readKeyword?, word_cursor, read?_cursor context cursor oneLine]
  split <;> rfl

variable {context cursor}

def Left (context : Context) (cursor : Cursor) : Prop := context.after = [] ∨ cursor.rest ≠ []

theorem Left.earlier {next : Cursor} (left : context.Left next) (onward : cursor ≤ next) : context.Left cursor :=
  left.imp_right (Cursor.rest_ne_nil_of_le onward)

theorem left_of_read {token : String} {next : Cursor} (found : cursor.read? token = some next) (some : token.toList ≠ []) :
    context.Left cursor := by
  refine .inr ?_
  rw [(Cursor.read?_reads found).rest]
  simp [some]

theorem trivia_append {rest gap : List Char} (trivia : Trivia rest gap) (more : List Char) (left : more = [] ∨ rest ≠ []) :
    Trivia (rest ++ more) gap := by
  induction trivia with
  | nil => exact .nil
  | blank isBlank _ ih => exact .blank isBlank ih
  | comment oneLine noDoc _ ih => exact .comment oneLine noDoc ih
  | lastComment atEnd oneLine noDoc =>
    refine .lastComment ?_ oneLine noDoc
    rcases left with none | some
    · rw [atEnd, none, List.append_nil]
    · exact absurd atEnd some

/-- What is not trivia does not become trivia by what follows in another line. -/
theorem settled_append (settled : Settled cursor.rest) (left : context.Left cursor) :
    Settled (cursor.rest ++ context.after) := by
  rcases left with alone | some
  · rwa [alone, List.append_nil]
  obtain ⟨char, rest, ahead⟩ := List.exists_cons_of_ne_nil some
  rw [ahead] at settled ⊢
  refine ⟨settled.1, ?_⟩
  rintro ⟨line, same, noDoc⟩
  obtain ⟨rfl, second⟩ := List.cons.inj same
  cases rest with
  | nil =>
    have newline := context.newline '/' (by simpa using congrArg List.head? second)
    revert newline
    decide
  | cons next rest =>
    obtain ⟨rfl, rfl⟩ := List.cons.inj second
    refine settled.2 ⟨rest, rfl, ?_⟩
    intro slash
    obtain ⟨more, rfl⟩ := List.head?_eq_some_iff.mp slash
    exact noDoc rfl

theorem skips_cursor {next : Cursor} (skips : cursor.Skips next) (left : context.Left next) :
    (context.cursor cursor).Skips (context.cursor next) := by
  obtain ⟨gap, reads, trivia⟩ := skips
  exact ⟨gap, reads_cursor reads, trivia_append trivia context.after left⟩

/-- Skipping ends at the same place, unless it runs out of the text. -/
theorem skipTrivia_cursor (left : context.Left cursor.skipTrivia) :
    (context.cursor cursor).skipTrivia = context.cursor cursor.skipTrivia := by
  rw [(skips_cursor cursor.skips_skipTrivia left).skipTrivia_eq]
  exact Cursor.skipTrivia_of_settled (settled_append cursor.settled_skipTrivia left)

end Context

theorem Trivia.newline {gap : List Char} (trivia : Trivia [] gap) (rest : List Char) : Trivia rest (gap ++ ['\n']) := by
  induction trivia with
  | nil => exact .blank (by decide) .nil
  | blank isBlank _ ih => exact .blank isBlank ih
  | comment oneLine noDoc _ ih => simpa using Trivia.comment oneLine noDoc ih
  | lastComment _ oneLine noDoc => simpa using Trivia.comment oneLine noDoc .nil

end SchemaDoc
