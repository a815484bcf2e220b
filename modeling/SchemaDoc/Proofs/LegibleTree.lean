import SchemaDoc.Proofs.ExactLeaves

/-! The names in a tree stand in the text: the span of an identifier covers its letters, the span of a
string a literal of that value. Unlike completeness this holds of every tree, with problems or not. -/

namespace SchemaDoc

/-- The whole text is one string literal, closed or not, of this value. -/
def IsLiteralOf (written value : String) : Prop :=
  ∃ parsed, Parser.string (Cursor.ofText written) = some parsed ∧ parsed.node.kind = .string value ∧
    parsed.next.atEnd = true

namespace Node

def Legible (text : String) (node : Node) : Prop :=
  (match node.kind with
    | .identifier value => node.span.IsWithin text ∧ node.span.slice text = value ∧ IsWord value
    | .string value => node.span.IsWithin text ∧ IsLiteralOf (node.span.slice text) value
    | .identPath _ => ∀ child ∈ node.children, ∃ value, child.kind = .identifier value
    | _ => True) ∧ ∀ role ∈ node.role, node.Plays role

def AllLegible (text : String) (node : Node) : Prop := ∀ inner ∈ node.preorder, inner.Legible text

end Node

namespace Parser

theorem stringBody_again (value : List Char) (offset : Nat) (chars : List Char) :
    ∃ taken, chars = taken ++ (stringBody value offset chars).rest ∧
      (stringBody value offset chars).offset = offset + byteLength taken ∧
      ∀ start, (stringBody value start taken).value = (stringBody value offset chars).value ∧
        (stringBody value start taken).rest = [] := by
  fun_induction stringBody value offset chars with
  | case1 value offset => exact ⟨[], rfl, rfl, fun start => ⟨rfl, rfl⟩⟩
  | case2 value offset rest => exact ⟨['"'], rfl, rfl, fun start => ⟨rfl, rfl⟩⟩
  | case3 value offset rest noQuote => exact ⟨[], rfl, rfl, fun start => ⟨rfl, rfl⟩⟩
  | case4 value offset noQuote noNewline => exact ⟨['\\'], rfl, rfl, fun start => ⟨rfl, rfl⟩⟩
  | case5 value offset escaped rest noQuote noNewline ih =>
    obtain ⟨taken, split, moved, again⟩ := ih
    refine ⟨'\\' :: escaped :: taken, by simp [← split], by simp [moved, byteLength_cons]; omega, fun start => ?_⟩
    exact again _
  | case6 value offset char rest noQuote noNewline noEscape ih =>
    obtain ⟨taken, split, moved, again⟩ := ih
    refine ⟨char :: taken, by simp [← split], by simp [moved, byteLength_cons]; omega, fun start => ?_⟩
    rw [stringBody.eq_def]
    simp only [if_neg noQuote, if_neg noNewline, if_neg noEscape]
    exact again _

/-- The characters of a string literal are a string literal again. -/
theorem isLiteralOf_scanned {taken value : List Char} (again : ∀ start,
    (stringBody [] start taken).value = value ∧ (stringBody [] start taken).rest = []) :
    IsLiteralOf (String.ofList ("\"".toList ++ taken)) (String.ofList value.reverse) := by
  have opens : (Cursor.ofText (String.ofList ("\"".toList ++ taken))).rest = "\"".toList ++ taken := by
    simp [Cursor.ofText]
  rw [IsLiteralOf]
  generalize Cursor.ofText (String.ofList ("\"".toList ++ taken)) = cursor at opens
  have starts : cursor.startsWith "\"" = true := by
    rw [Cursor.startsWith, opens]
    simp
  have inside : (cursor.moveTo "\"".toList (cursor.rest.drop "\"".toList.length)).rest = taken := by
    simp [Cursor.moveTo, opens]
  refine ⟨_, by rw [string, Cursor.read?, if_pos starts]; rfl, ?_, ?_⟩
  · dsimp only
    rw [inside, (again _).1]
    split <;> rfl
  · dsimp only
    rw [inside, (again _).2]
    split <;> rfl

theorem string_legible {text : String} {cursor : Cursor} {parsed : Parsed} (behind : Cursor.ofText text ≤ cursor)
    (found : string cursor = some parsed) {value : String} (kind : parsed.node.kind = .string value) :
    parsed.node.span.IsWithin text ∧ IsLiteralOf (parsed.node.span.slice text) value := by
  obtain ⟨opened, read, rfl⟩ := Option.map_eq_some_iff.mp found
  have quote := Cursor.read?_reads read
  obtain ⟨taken, split, moved, again⟩ := stringBody_again [] opened.offset opened.rest
  dsimp only at kind ⊢
  generalize stringBody [] opened.offset opened.rest = body at kind split moved again
  let next : Cursor := { cursor with offset := body.offset, rest := body.rest }
  have scanned : opened.Reads taken next := ⟨split, moved, quote.size.symm⟩
  obtain ⟨within, slice⟩ := (quote.trans scanned).covers behind
  have whole : IsLiteralOf ((cursor.spanTo next).slice text) (String.ofList body.value.reverse) := by
    rw [slice]
    exact isLiteralOf_scanned again
  cases closed : body.isTerminated <;> rw [closed] at kind <;> cases kind <;> exact ⟨within, whole⟩

end Parser

/-- What a traced node holds can be read off the text. -/
theorem Node.Traced.legible {text : String} {errors : List Diagnostic} {node : Node}
    (traced : node.Traced text errors) : node.Legible text := by
  refine ⟨?_, traced.plays⟩
  have exact := traced.isExact
  obtain ⟨kind, span, role, children⟩ := node
  cases kind with
  | identifier value =>
    obtain ⟨⟨within, slice⟩, isWord, -⟩ := exact
    exact ⟨within, slice, isWord⟩
  | string value =>
    obtain ⟨cursor, parsed, behind, found, -, kind, rfl, -⟩ := traced.found _ rfl
    exact Parser.string_legible behind found kind
  | identPath fromRoot =>
    obtain ⟨names, -, kinds, -⟩ := exact
    intro child member
    have named : child.kind ∈ names.map Node.Kind.identifier := kinds ▸ List.mem_map_of_mem member
    obtain ⟨name, -, same⟩ := List.mem_map.mp named
    exact ⟨name, same.symm⟩
  | _ => exact trivial

/-- Every name in the tree of a text can be read off the text where its node stands. -/
theorem parse_legible (text : String) (trailing : TrailingPolicy) : (parse text trailing).node.AllLegible text :=
  fun node member => (parse_traced text trailing node member).legible

end SchemaDoc
