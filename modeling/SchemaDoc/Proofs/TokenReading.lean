import SchemaDoc.Proofs.WrittenGrammar

/-! Single tokens are read back. Each production finds the token that it is for, whatever follows, as
long as that does not continue the token. -/

namespace SchemaDoc

namespace Node

theorem bareAll_eq_map (nodes : List Node) : bareAll nodes = nodes.map bare := by
  induction nodes with
  | nil => rfl
  | cons node nodes ih => simp [bareAll, ih]

theorem bare_eq (node : Node) :
    node.bare = ⟨node.kind.bare, .point 0, node.role, node.children.map bare⟩ := by
  cases node
  simp [bare, bareAll_eq_map]

theorem bare_tagged (node : Node) (role : Role) : (node.tagged role).bare = node.bare.tagged role := by
  simp [bare_eq, tagged]

theorem bare_endedBy (entry : Node) (separator : Span) : (entry.endedBy separator).bare = entry.bare := by
  obtain ⟨kind, span, role, children⟩ := entry
  cases kind <;> simp [bare_eq, endedBy, Kind.bare]

end Node

def Settled (chars : List Char) : Prop :=
  (∀ char ∈ chars.head?, Text.isBlank char = false) ∧ ¬ Grammar.OpensComment chars

namespace Cursor

private theorem triviaEnd_comment {line : List Char} (oneLine : '\n' ∉ line) (offset : Nat) (rest : List Char) :
    triviaEnd true offset (line ++ rest) = triviaEnd true (offset + byteLength line) rest := by
  induction line generalizing offset with
  | nil => rfl
  | cons char line ih =>
    rw [List.mem_cons, not_or] at oneLine
    have goesOn : (char != '\n') = true := by simpa using fun same => oneLine.1 same.symm
    rw [List.cons_append, triviaEnd, goesOn, ih oneLine.2, byteLength_cons]
    simp only [Nat.add_assoc]

private theorem triviaEnd_newline (offset : Nat) (rest : List Char) :
    triviaEnd true offset ('\n' :: rest) = triviaEnd false (offset + 1) rest := rfl

private theorem triviaEnd_settled {chars : List Char} (settled : Settled chars) (offset : Nat) :
    triviaEnd false offset chars = (offset, chars) := by
  cases chars with
  | nil => rfl
  | cons char rest =>
    have notBlank : Text.isBlank char = false := settled.1 char rfl
    have noComment : (char == '/' && rest.head? == some '/' && (rest.drop 1).head? != some '/') = false := by
      apply Bool.eq_false_iff.mpr
      intro opens
      simp only [Bool.and_eq_true, beq_iff_eq, bne_iff_ne, ne_eq] at opens
      obtain ⟨⟨rfl, second⟩, noDoc⟩ := opens
      obtain ⟨line, rfl⟩ := List.head?_eq_some_iff.mp second
      exact settled.2 ⟨line, rfl, noDoc⟩
    simp only [triviaEnd, notBlank, noComment, Bool.false_eq_true, if_false]

private theorem triviaEnd_slashes {rest : List Char} (noDoc : rest.head? ≠ some '/') (offset : Nat) :
    triviaEnd false offset ('/' :: '/' :: rest) = triviaEnd true (offset + 2) rest := by
  have notBlank : Text.isBlank '/' = false := by decide
  have opens : ('/' == '/' && ('/' :: rest).head? == some '/' && (('/' :: rest).drop 1).head? != some '/') = true := by
    simpa using noDoc
  simp only [triviaEnd, notBlank, opens, Bool.false_eq_true, if_false, if_true]
  rfl

private theorem triviaEnd_trivia {gap rest : List Char} (trivia : Trivia rest gap) (settled : Settled rest)
    (offset : Nat) : triviaEnd false offset (gap ++ rest) = (offset + byteLength gap, rest) := by
  induction trivia generalizing offset with
  | nil => exact triviaEnd_settled settled offset
  | blank isBlank more ih =>
    rw [List.cons_append, triviaEnd, if_pos isBlank, ih, byteLength_cons, Nat.add_assoc]
  | @comment line taken oneLine noDoc more ih =>
    have opens : ((line ++ '\n' :: taken) ++ rest).head? ≠ some '/' := by
      cases line with
      | nil => simp
      | cons char line => simpa using noDoc
    have split : '/' :: '/' :: (line ++ '\n' :: taken) ++ rest = '/' :: '/' :: (line ++ '\n' :: (taken ++ rest)) := by
      simp
    rw [split, triviaEnd_slashes (by simpa using opens), triviaEnd_comment oneLine, triviaEnd_newline, ih]
    have size : byteLength ('/' :: '/' :: (line ++ '\n' :: taken)) = 2 + byteLength line + 1 + byteLength taken := by
      have slash : '/'.utf8Size = 1 := rfl
      have newline : '\n'.utf8Size = 1 := rfl
      simp only [byteLength_cons, byteLength_append]
      omega
    rw [size]
    simp only [Nat.add_assoc]
  | @lastComment line atEnd oneLine noDoc =>
    subst atEnd
    have size : byteLength ('/' :: '/' :: line) = 2 + byteLength line := by
      have slash : '/'.utf8Size = 1 := rfl
      simp only [byteLength_cons]
      omega
    have ended := triviaEnd_comment oneLine (offset + 2) []
    rw [List.append_nil] at ended ⊢
    rw [triviaEnd_slashes noDoc, ended, size, Nat.add_assoc, triviaEnd]

/-- Trivia in front of something that is not trivia is skipped as a whole. -/
theorem skipTrivia_of_trivia {cursor : Cursor} {gap rest : List Char} (ahead : cursor.rest = gap ++ rest)
    (trivia : Trivia rest gap) (settled : Settled rest) : cursor.skipTrivia = cursor.moveTo gap rest := by
  simp only [skipTrivia, ahead, triviaEnd_trivia trivia settled, moveTo]

theorem skipTrivia_of_settled {cursor : Cursor} (settled : Settled cursor.rest) : cursor.skipTrivia = cursor := by
  simp only [skipTrivia, triviaEnd_settled settled]

theorem settled_skipTrivia (cursor : Cursor) : Settled cursor.skipTrivia.rest := by
  have general : ∀ inComment offset chars, Settled (triviaEnd inComment offset chars).2 := by
    intro inComment offset chars
    fun_induction triviaEnd inComment offset chars with
    | case1 => exact ⟨by simp, by simp [Grammar.OpensComment]⟩
    | case2 offset char rest ih => exact ih
    | case3 offset char rest isBlank ih => exact ih
    | case4 offset char rest notBlank opens ih => exact ih
    | case5 offset char rest notBlank noComment =>
      refine ⟨by simpa using notBlank, ?_⟩
      rintro ⟨line, same, noDoc⟩
      obtain ⟨rfl, rfl⟩ := List.cons.inj same
      exact noComment (by simpa using noDoc)
  exact general false cursor.offset cursor.rest

/-- Wherever among the trivia the skipping begins, it ends at the same place. -/
theorem Skips.skipTrivia_eq {cursor next : Cursor} (skips : cursor.Skips next) : cursor.skipTrivia = next.skipTrivia := by
  obtain ⟨gap, reads, trivia⟩ := skips.trans next.skips_skipTrivia
  rw [skipTrivia_of_trivia reads.rest trivia next.settled_skipTrivia, ← reads.eq_moveTo]

theorem skipTrivia_skipTrivia (cursor : Cursor) : cursor.skipTrivia.skipTrivia = cursor.skipTrivia :=
  cursor.skips_skipTrivia.skipTrivia_eq.symm

def Whole (cursor : Cursor) : Prop := cursor.size = cursor.offset + byteLength cursor.rest

theorem Whole.moveTo {cursor : Cursor} (whole : cursor.Whole) {taken rest : List Char}
    (split : cursor.rest = taken ++ rest) : (cursor.moveTo taken rest).Whole := by
  rw [Whole, split, byteLength_append] at whole
  simp only [Whole, Cursor.moveTo]
  omega

theorem Whole.length_lt {cursor : Cursor} (whole : cursor.Whole) : cursor.rest.length < cursor.remaining := by
  have bound := length_le_byteLength cursor.rest
  simp only [Whole] at whole
  simp only [remaining]
  omega

theorem Whole.enough {cursor : Cursor} (whole : cursor.Whole) : byteLength cursor.rest < cursor.remaining := by
  simp only [Whole, remaining] at whole ⊢
  omega

theorem Whole.later {cursor next : Cursor} (whole : cursor.Whole) (onward : cursor ≤ next) : next.Whole := by
  obtain ⟨taken, reads⟩ := onward
  simp only [Whole, reads.size, reads.offset] at whole ⊢
  rw [whole, reads.rest, byteLength_append, Nat.add_assoc]

/-- Every place behind the start of a text knows how much of it is left. -/
theorem whole_of_le {text : String} {cursor : Cursor} (behind : ofText text ≤ cursor) : cursor.Whole := by
  refine Whole.later ?_ behind
  simp only [Whole, ofText, byteLength_toList, Nat.zero_add]

@[simp] theorem moveTo_rest (cursor : Cursor) (taken rest : List Char) : (cursor.moveTo taken rest).rest = rest := rfl

theorem moveTo_moveTo (cursor : Cursor) (first second rest other : List Char) :
    (cursor.moveTo first other).moveTo second rest = cursor.moveTo (first ++ second) rest := by
  simp only [moveTo, byteLength_append, Nat.add_assoc]

theorem moveTo_nil {cursor : Cursor} {rest : List Char} (same : cursor.rest = rest) : cursor.moveTo [] rest = cursor := by
  subst same
  rfl

theorem startsWith_of_rest {cursor : Cursor} {token : String} {rest : List Char}
    (split : cursor.rest = token.toList ++ rest) : cursor.startsWith token = true := startsWith_iff.mpr ⟨rest, split⟩

theorem startsWith_eq_false {cursor : Cursor} {token : String} {char : Char} {chars : List Char}
    (spelled : token.toList = char :: chars) (other : cursor.rest.head? ≠ some char) :
    cursor.startsWith token = false := by
  apply Bool.eq_false_iff.mpr
  intro starts
  obtain ⟨rest, split⟩ := startsWith_iff.mp starts
  rw [split, spelled] at other
  exact other rfl

theorem read?_eq_none {cursor : Cursor} {token : String} {char : Char} {chars : List Char}
    (spelled : token.toList = char :: chars) (other : cursor.rest.head? ≠ some char) : cursor.read? token = none := by
  simp [read?, startsWith_eq_false spelled other]

theorem isSome_read? (cursor : Cursor) (token : String) : (cursor.read? token).isSome = cursor.startsWith token := by
  cases starts : cursor.startsWith token <;> simp [read?, starts]

theorem readWhile_of_rest {cursor : Cursor} {holds : Char → Bool} {taken rest : List Char}
    (split : cursor.rest = taken ++ rest) (inside : ∀ char ∈ taken, holds char = true)
    (outside : ∀ char ∈ rest.head?, holds char = false) : cursor.readWhile holds = (taken, cursor.moveTo taken rest) := by
  have stops : rest.takeWhile holds = [] ∧ rest.dropWhile holds = rest := by
    cases rest with
    | nil => exact ⟨rfl, rfl⟩
    | cons char rest => simp [outside char rfl]
  simp only [readWhile, List.span_eq_takeWhile_dropWhile, split]
  rw [List.takeWhile_append_of_pos inside, List.dropWhile_append_of_pos inside, stops.1, stops.2, List.append_nil]

theorem word_of_rest {cursor : Cursor} {identifier : Grammar.Identifier} {rest : List Char}
    (split : cursor.rest = identifier.text ++ rest) (outside : ∀ char ∈ rest.head?, isIdentifierPart char = false) :
    cursor.word = identifier.text := by
  have stops : rest.takeWhile isIdentifierPart = [] := by
    cases rest with
    | nil => rfl
    | cons char rest => simp [outside char rfl]
  simp only [word, split, Grammar.Identifier.text, List.cons_append, identifier.starts, if_true]
  rw [List.takeWhile_append_of_pos identifier.continues, stops, List.append_nil]

end Cursor

theorem isDigit_code {char : Char} (isDigit : char.isDigit = true) : 48 ≤ char.toNat ∧ char.toNat ≤ 57 := by
  simpa [Char.isDigit, UInt32.le_iff_toNat_le] using isDigit

theorem isLower_code {char : Char} (isLower : char.isLower = true) : 97 ≤ char.toNat ∧ char.toNat ≤ 122 := by
  unfold Char.isLower at isLower
  simpa [UInt32.le_iff_toNat_le] using isLower

def Closes (rest : List Char) : Prop := ∀ char ∈ rest.head?, Text.isBlank char = true ∨ char = '?'

def Gapped (rest : List Char) : Prop := ∃ char more, rest = char :: more ∧ Text.isBlank char = true

theorem Gapped.closes {rest : List Char} (gapped : Gapped rest) : Closes rest := by
  obtain ⟨char, more, rfl, blank⟩ := gapped
  intro other member
  obtain rfl : char = other := by simpa using member
  exact .inl blank

theorem Gapped.marked {rest : List Char} (gapped : Gapped rest) (marks : Nat) :
    Closes (List.replicate marks '?' ++ rest) := by
  cases marks with
  | zero => exact gapped.closes
  | succ marks =>
    intro other member
    obtain rfl : '?' = other := by simpa [List.replicate_succ] using member
    exact .inr rfl

theorem Closes.head_ne {rest : List Char} (closes : Closes rest) {char : Char} (notBlank : Text.isBlank char = false)
    (noMark : char ≠ '?') : rest.head? ≠ some char := by
  intro same
  rcases closes char same with blank | mark
  · simp [blank] at notBlank
  · exact noMark mark

def Graphic (holds : Char → Bool) : Prop :=
  ∀ char, holds char = true → 0x20 < char.toNat ∧ char.toNat < 0x7F ∧ char.toNat ≠ 63

theorem Closes.outside {rest : List Char} (closes : Closes rest) {holds : Char → Bool} (graphic : Graphic holds) :
    ∀ char ∈ rest.head?, holds char = false := by
  intro char member
  apply Bool.eq_false_iff.mpr
  intro inside
  obtain ⟨low, high, noMark⟩ := graphic char inside
  refine closes.head_ne (notBlank_of_visible low high) ?_ member
  rintro rfl
  exact noMark rfl

theorem graphic_isDigit : Graphic Char.isDigit := by
  intro char inside
  have code := isDigit_code inside
  omega

theorem graphic_isIdentifierPart : Graphic isIdentifierPart := by
  intro char inside
  rcases Bool.or_eq_true_iff.mp inside with starts | isDigit
  · have code := isIdentifierStart_code starts
    omega
  · have code := isDigit_code isDigit
    omega

theorem graphic_isResourceChar : Graphic Parser.isResourceChar := by
  intro char inside
  simp only [Parser.isResourceChar, Bool.or_eq_true, beq_iff_eq] at inside
  rcases inside with (((((isLower | isDigit) | rfl) | rfl) | rfl) | rfl) | rfl
  · have code := isLower_code isLower
    omega
  · have code := isDigit_code isDigit
    omega
  all_goals decide

structure Parsed.Spells (cursor : Cursor) (text rest : List Char) (tree : Node) (parsed : Parsed) : Prop where
  next : parsed.next = cursor.moveTo text rest
  bare : parsed.node.bare = tree
  clean : parsed.errors = []

structure Fragment.Spells (cursor : Cursor) (text rest : List Char) (trees : List Node) (fragment : Fragment) :
    Prop where
  next : fragment.next = cursor.moveTo text rest
  bare : fragment.nodes.map Node.bare = trees
  clean : fragment.errors = []

theorem Fragment.Spells.andThen {cursor : Cursor} {text more behind rest : List Char} {trees others : List Node}
    {first : Fragment} {step : Cursor → Fragment} (spells : first.Spells cursor text behind trees)
    (also : (step first.next).Spells first.next more rest others) :
    (first.andThen step).Spells cursor (text ++ more) rest (trees ++ others) where
  next := calc
    (first.andThen step).next = first.next.moveTo more rest := also.next
    _ = cursor.moveTo (text ++ more) rest := by rw [spells.next, Cursor.moveTo_moveTo]
  bare := by simp only [Fragment.andThen, List.map_append, spells.bare, also.bare]
  clean := by simp only [Fragment.andThen, spells.clean, also.clean, List.append_nil]

def Production.Takes (production : Production) (text : List Char) (tree : Node) : Prop :=
  ∀ ⦃cursor rest⦄, Cursor.Whole cursor → cursor.rest = text ++ rest → Closes rest →
    ∃ parsed, production cursor = some parsed ∧ parsed.Spells cursor text rest tree

theorem Grammar.Decimal.text_starts (decimal : Decimal) :
    ∃ char more, decimal.text = char :: more ∧ (char = '-' ∨ char.isDigit = true) := by
  obtain ⟨digit, digits, whole⟩ := List.exists_cons_of_ne_nil decimal.some
  have isDigit := decimal.wholeDigits digit (by simp [whole])
  cases negative : decimal.isNegative with
  | true =>
    refine ⟨'-', decimal.text.tail, ?_, .inl rfl⟩
    rw [Decimal.text, negative]
    rfl
  | false =>
    refine ⟨digit, decimal.text.tail, ?_, .inr isDigit⟩
    rw [Decimal.text, negative, whole]
    rfl

theorem Grammar.Resource.text_chars (resource : Resource) :
    ∀ char ∈ resource.text, Parser.isResourceChar char = true := by
  intro char member
  unfold Resource.text at member
  cases space : resource.space with
  | none =>
    rw [space] at member
    exact resource.pathChars char member
  | some chars =>
    simp only [space, List.mem_append, List.mem_cons] at member
    rcases member with member | rfl | member
    · exact (resource.spaceChars chars space char member).1
    · decide
    · exact resource.pathChars char member

theorem Grammar.Resource.text_ne_nil (resource : Resource) : resource.text ≠ [] := by
  unfold Resource.text
  cases space : resource.space with
  | none => exact (resource.noColon space).1
  | some chars => simp

namespace Parser

open Grammar

theorem spells_leaf (kind : Node.Kind) (cursor : Cursor) (text rest : List Char) (plain : kind.bare = kind) :
    (leaf kind cursor (cursor.moveTo text rest)).Spells cursor text rest (made kind []) := by
  refine ⟨rfl, ?_, rfl⟩
  simp [leaf, Node.bare_eq, plain, made]

theorem identifier_of_rest {cursor : Cursor} {name : Identifier} {rest : List Char}
    (split : cursor.rest = name.text ++ rest) (outside : ∀ char ∈ rest.head?, isIdentifierPart char = false) :
    identifier cursor = some (leaf (.identifier (String.ofList name.text)) cursor (cursor.moveTo name.text rest)) := by
  have word := Cursor.word_of_rest split outside
  have some : name.text ≠ [] := by simp [Identifier.text]
  simp [identifier, Cursor.readIdentifier?, Cursor.afterWord, word, some, split]

theorem identifier_takes (name : Identifier) : identifier.Takes name.text name.tree := by
  intro cursor rest _ split closes
  exact ⟨_, identifier_of_rest split (closes.outside graphic_isIdentifierPart), spells_leaf _ _ _ _ rfl⟩

private theorem stringBody_escaped {written inside : List Char} (escaped : Escaped written inside) (value : List Char)
    (offset : Nat) (rest : List Char) :
    stringBody value offset (written ++ '"' :: rest) =
      ⟨inside.reverse ++ value, offset + byteLength (written ++ ['"']), rest, true⟩ := by
  induction escaped generalizing value offset with
  | nil =>
    unfold stringBody
    rfl
  | plain noQuote noNewline noEscape more ih =>
    rw [List.cons_append]
    unfold stringBody
    simp only [noQuote, noNewline, noEscape, if_false]
    rw [ih]
    simp [Nat.add_assoc]
  | @escape char written value more ih =>
    have noQuote : '\\' ≠ '"' := by decide
    have noNewline : '\\' ≠ '\n' := by decide
    rw [List.cons_append, List.cons_append]
    unfold stringBody
    simp only [noQuote, noNewline, if_false, if_true]
    rw [ih]
    simp [Nat.add_assoc]

theorem string_takes (quoted : Quoted) : string.Takes quoted.text quoted.tree := by
  intro cursor rest _ split _
  have opens : cursor.rest = "\"".toList ++ (quoted.written ++ '"' :: rest) := by
    rw [split, Quoted.text]
    simp
  have body := stringBody_escaped quoted.escaped [] (cursor.offset + byteLength "\"".toList) rest
  let next := cursor.moveTo quoted.text rest
  have found : string cursor = some (leaf (.string (String.ofList quoted.value)) cursor next) := by
    simp only [string, Cursor.read?_of_rest opens, Option.map_some, Cursor.moveTo, body]
    simp [next, Cursor.moveTo, Quoted.text, Nat.add_assoc]
  exact ⟨_, found, spells_leaf _ _ _ _ rfl⟩

private theorem fraction_of_rest {cursor : Cursor} {places rest : List Char}
    (digits : ∀ digit ∈ places, digit.isDigit = true) (closes : Closes rest)
    (split : cursor.rest = (if places.isEmpty then [] else '.' :: places) ++ rest) :
    fraction cursor = (places, cursor.moveTo (if places.isEmpty then [] else '.' :: places) rest) := by
  cases places with
  | nil =>
    have noPoint : cursor.read? "." = none :=
      Cursor.read?_eq_none rfl (by rw [split]; exact closes.head_ne (by decide) (by decide))
    have same : cursor.rest = rest := split
    simp only [fraction, noPoint, List.isEmpty_nil, if_true]
    rw [Cursor.moveTo_nil same]
  | cons digit places =>
    have point : cursor.rest = ".".toList ++ (digit :: places ++ rest) := split
    have read : (cursor.moveTo ".".toList (digit :: places ++ rest)).readWhile Char.isDigit = _ :=
      Cursor.readWhile_of_rest rfl digits (closes.outside graphic_isDigit)
    simp only [fraction, Cursor.read?_of_rest point, read]
    simp only [List.isEmpty_cons, Bool.false_eq_true, if_false, Cursor.moveTo_moveTo]
    rfl

theorem number_takes (decimal : Decimal) : number.Takes decimal.text (made (.number decimal.value) []) := by
  intro cursor rest _ split closes
  let point := if decimal.places.isEmpty then [] else '.' :: decimal.places
  let sign := if decimal.isNegative then ['-'] else []
  let unsigned := cursor.moveTo sign (decimal.whole ++ (point ++ rest))
  have parts : cursor.rest = sign ++ (decimal.whole ++ (point ++ rest)) := by
    rw [split, Decimal.text]
    simp [sign, point]
  have signed : (cursor.read? "-").getD cursor = unsigned ∧ cursor.startsWith "-" = decimal.isNegative := by
    cases negative : decimal.isNegative with
    | true =>
      have minus : cursor.rest = "-".toList ++ (decimal.whole ++ (point ++ rest)) := by
        simpa [sign, negative] using parts
      rw [Cursor.read?_of_rest minus, Cursor.startsWith_of_rest minus]
      exact ⟨by simp [unsigned, sign, negative], rfl⟩
    | false =>
      have plain : cursor.rest = decimal.whole ++ (point ++ rest) := by simpa [sign, negative] using parts
      have noMinus : cursor.rest.head? ≠ some '-' := by
        obtain ⟨digit, digits, whole⟩ := List.exists_cons_of_ne_nil decimal.some
        have isDigit := decimal.wholeDigits digit (by simp [whole])
        rw [plain, whole]
        rintro ⟨⟩
        revert isDigit
        decide
      rw [Cursor.read?_eq_none rfl noMinus, Cursor.startsWith_eq_false rfl noMinus]
      have same : unsigned = cursor := by
        simp only [unsigned, sign, negative]
        exact Cursor.moveTo_nil plain
      exact ⟨same.symm, rfl⟩
  have outside : ∀ char ∈ (point ++ rest).head?, char.isDigit = false := by
    cases places : decimal.places with
    | nil => simpa [point, places] using closes.outside graphic_isDigit
    | cons digit digits =>
      intro char member
      obtain rfl : '.' = char := by simpa [point, places] using member
      rfl
  have whole : unsigned.readWhile Char.isDigit = _ := Cursor.readWhile_of_rest rfl decimal.wholeDigits outside
  have some : decimal.whole.isEmpty = false := by simpa using decimal.some
  have behind : fraction (unsigned.moveTo decimal.whole (point ++ rest)) = _ :=
    fraction_of_rest decimal.placeDigits closes rfl
  have found : number cursor = .some (leaf (.number decimal.value) cursor (cursor.moveTo decimal.text rest)) := by
    simp only [number, signed, whole, some, behind, Bool.false_eq_true, if_false]
    simp only [unsigned, Cursor.moveTo_moveTo, List.append_assoc]
    rfl
  exact ⟨_, found, spells_leaf _ _ _ _ rfl⟩

structure IsWord (word : String) : Prop where
  spelled : ∃ name : Identifier, word.toList = name.text

theorem isWord_of_chars {word : String} {first : Char} {rest : List Char} (spelled : word.toList = first :: rest)
    (starts : isIdentifierStart first = true) (continues : rest.all isIdentifierPart = true) : IsWord word :=
  ⟨⟨first, rest, starts, by simpa using continues⟩, spelled⟩

theorem IsWord.word {word : String} (isWord : IsWord word) {cursor : Cursor} {rest : List Char}
    (split : cursor.rest = word.toList ++ rest) (closes : Closes rest) : cursor.word = word.toList := by
  obtain ⟨name, spelled⟩ := isWord.spelled
  rw [spelled] at split ⊢
  exact Cursor.word_of_rest split (closes.outside graphic_isIdentifierPart)

theorem IsWord.readKeyword? {word : String} (isWord : IsWord word) {cursor : Cursor} {rest : List Char}
    (split : cursor.rest = word.toList ++ rest) (closes : Closes rest) :
    cursor.readKeyword? word = some (cursor.moveTo word.toList rest) := by
  rw [Cursor.readKeyword?, if_pos (isWord.word split closes), Cursor.read?_of_rest split]

theorem no_literal_of_head {cursor : Cursor} {char : Char} (ahead : cursor.rest.head? = some char)
    (high : 58 ≤ char.toNat) : string cursor = none ∧ number cursor = none := by
  have other : ∀ {symbol : Char}, symbol.toNat < 58 → cursor.rest.head? ≠ some symbol := by
    intro symbol low same
    rw [ahead] at same
    cases same
    omega
  have noQuote : cursor.read? "\"" = none := Cursor.read?_eq_none rfl (other (by decide))
  have noMinus : cursor.read? "-" = none := Cursor.read?_eq_none rfl (other (by decide))
  have noDigit : char.isDigit = false := by
    apply Bool.eq_false_iff.mpr
    intro isDigit
    have range := isDigit_code isDigit
    omega
  have noDigits : (cursor.readWhile Char.isDigit).1 = [] := by
    obtain ⟨rest, split⟩ := List.head?_eq_some_iff.mp ahead
    simp [Cursor.readWhile, split, noDigit]
  constructor
  · simp [string, noQuote]
  · simp [number, noMinus, noDigits]

theorem boolean_eq_none {cursor : Cursor} (notTrue : cursor.word ≠ "true".toList)
    (notFalse : cursor.word ≠ "false".toList) : boolean cursor = none := by
  simp only [boolean, Cursor.readKeyword?, if_neg notTrue, if_neg notFalse, Option.map_none]

theorem boolean_takes (value : Bool) :
    boolean.Takes (if value then "true" else "false").toList (made (.boolean value) []) := by
  intro cursor rest _ split closes
  have isTrue : IsWord "true" := isWord_of_chars rfl (by decide) (by decide)
  have isFalse : IsWord "false" := isWord_of_chars rfl (by decide) (by decide)
  cases value with
  | true =>
    have found : boolean cursor = some (leaf (.boolean true) cursor (cursor.moveTo "true".toList rest)) := by
      simp only [boolean, isTrue.readKeyword? split closes]
    exact ⟨_, found, spells_leaf _ _ _ _ rfl⟩
  | false =>
    have notTrue : cursor.readKeyword? "true" = none := by
      have word := isFalse.word split closes
      rw [Cursor.readKeyword?, if_neg]
      rw [word]
      decide
    have found : boolean cursor = some (leaf (.boolean false) cursor (cursor.moveTo "false".toList rest)) := by
      simp only [boolean, notTrue, isFalse.readKeyword? split closes, Option.map_some]
    exact ⟨_, found, spells_leaf _ _ _ _ rfl⟩

theorem literal_takes (value : Literal) : literal.Takes value.text value.tree := by
  intro cursor rest whole split closes
  cases value with
  | string quoted =>
    obtain ⟨parsed, found, spells⟩ := string_takes quoted whole split closes
    exact ⟨parsed, by simp [literal, Production.orElse, found], spells⟩
  | number decimal =>
    have noString : string cursor = none := by
      obtain ⟨char, more, text, starts⟩ := decimal.text_starts
      have noQuote : cursor.rest.head? ≠ some '"' := by
        rw [split, Literal.text, text]
        rintro ⟨⟩
        simp at starts
      have unread : cursor.read? "\"" = none := Cursor.read?_eq_none rfl noQuote
      simp [string, unread]
    obtain ⟨parsed, found, spells⟩ := number_takes decimal whole split closes
    exact ⟨parsed, by simp [literal, Production.orElse, noString, found], spells⟩
  | boolean value =>
    have ahead : ∃ char, cursor.rest.head? = some char ∧ 58 ≤ char.toNat := by
      cases value with
      | true => exact ⟨'t', by simp [split, Literal.text], by decide⟩
      | false => exact ⟨'f', by simp [split, Literal.text], by decide⟩
    obtain ⟨char, first, high⟩ := ahead
    obtain ⟨noString, noNumber⟩ := no_literal_of_head first high
    obtain ⟨parsed, found, spells⟩ := boolean_takes value whole split closes
    exact ⟨parsed, by simp [literal, Production.orElse, noString, noNumber, found], spells⟩

theorem segment_outside {more : List Identifier} {rest : List Char} (closes : Closes rest) :
    ∀ char ∈ ((more.flatMap fun segment => "::".toList ++ segment.text) ++ rest).head?, isIdentifierPart char = false := by
  cases more with
  | nil => exact closes.outside graphic_isIdentifierPart
  | cons segment more =>
    intro char member
    obtain rfl : ':' = char := by simpa using member
    rfl

private theorem segment_spells {cursor : Cursor} {segment : Identifier} {rest : List Char} :
    let parsed := leaf (.identifier (String.ofList segment.text)) cursor (cursor.moveTo segment.text rest)
    Fragment.Spells cursor segment.text rest [segment.tree] ⟨[parsed.node], parsed.errors, parsed.next⟩ := by
  refine ⟨rfl, ?_, rfl⟩
  simp [leaf, Node.bare_eq, Node.Kind.bare, Identifier.tree, made]

private theorem moreSegments_spells {more : List Identifier} {rest : List Char} (closes : Closes rest) {fuel : Nat}
    {cursor : Cursor} (enough : more.length < fuel)
    (split : cursor.rest = (more.flatMap fun segment => "::".toList ++ segment.text) ++ rest) :
    (moreSegments fuel cursor).Spells cursor (more.flatMap fun segment => "::".toList ++ segment.text) rest
      (more.map Identifier.tree) := by
  induction more generalizing fuel cursor with
  | nil =>
    obtain ⟨fuel, rfl⟩ := Nat.exists_eq_add_of_lt enough
    have same : cursor.rest = rest := split
    have noSeparator : cursor.read? pathSeparator = none :=
      Cursor.read?_eq_none rfl (by rw [same]; exact closes.head_ne (by decide) (by decide))
    simp only [moreSegments, noSeparator]
    exact ⟨(Cursor.moveTo_nil same).symm, rfl, rfl⟩
  | cons segment more ih =>
    obtain ⟨fuel, rfl⟩ : ∃ less, fuel = less + 1 := ⟨fuel - 1, by rw [List.length_cons] at enough; omega⟩
    rw [List.length_cons, Nat.add_lt_add_iff_right] at enough
    let behind := (more.flatMap fun segment => "::".toList ++ segment.text) ++ rest
    have opens : cursor.rest = pathSeparator.toList ++ (segment.text ++ behind) := by
      simpa [behind, pathSeparator] using split
    let middle := cursor.moveTo pathSeparator.toList (segment.text ++ behind)
    have read : identifier middle = _ := identifier_of_rest rfl (segment_outside closes)
    have tail : (moreSegments fuel (middle.moveTo segment.text behind)).Spells _ _ _ _ := ih enough rfl
    have spells := segment_spells.andThen tail
    simp only [moreSegments, Cursor.read?_of_rest opens]
    rw [read]
    refine ⟨?_, spells.bare, spells.clean⟩
    rw [spells.next]
    simp only [middle, Cursor.moveTo_moveTo]
    rfl

private theorem length_le_segments (more : List Identifier) :
    more.length ≤ (more.flatMap fun segment => "::".toList ++ segment.text).length := by
  induction more with
  | nil => exact Nat.le_refl 0
  | cons segment more ih =>
    simp only [List.flatMap_cons, List.length_cons, List.length_append, Identifier.text] at ih ⊢
    omega

private theorem segments_spells (path : Path) {cursor : Cursor} {rest : List Char} (whole : cursor.Whole)
    (closes : Closes rest)
    (split : cursor.rest = path.first.text ++ ((path.more.flatMap fun segment => "::".toList ++ segment.text) ++ rest)) :
    ∃ fragment, segments cursor = some fragment ∧
      fragment.Spells cursor (path.first.text ++ path.more.flatMap fun segment => "::".toList ++ segment.text) rest
        (path.first.tree :: path.more.map Identifier.tree) := by
  have read := identifier_of_rest split (segment_outside closes)
  let middle := cursor.moveTo path.first.text ((path.more.flatMap fun segment => "::".toList ++ segment.text) ++ rest)
  have enough : path.more.length < middle.remaining := by
    have room := (whole.moveTo split).length_lt
    have each := length_le_segments path.more
    simp only [Cursor.moveTo_rest, List.length_append] at room
    simp only [middle]
    omega
  have tail : (moreSegments middle.remaining middle).Spells _ _ _ _ := moreSegments_spells closes enough rfl
  exact ⟨_, by rw [segments, read]; rfl, segment_spells.andThen tail⟩

theorem identPath_takes (path : Path) : identPath.Takes path.text path.tree := by
  intro cursor rest whole split closes
  cases root : path.fromRoot with
  | true =>
    have opens : cursor.rest = pathSeparator.toList ++ (path.first.text ++
        ((path.more.flatMap fun segment => "::".toList ++ segment.text) ++ rest)) := by
      rw [split, Path.text, root]
      simp [pathSeparator]
    obtain ⟨fragment, found, spells⟩ := segments_spells path (whole.moveTo opens) closes rfl
    simp only [identPath, Cursor.read?_of_rest opens, found, Option.getD_some]
    refine ⟨_, rfl, ?_, ?_, spells.clean⟩
    · rw [spells.next, Cursor.moveTo_moveTo, Path.text, root]
      rfl
    · simp [Node.bare_eq, Node.Kind.bare, spells.bare, Path.tree, made, root]
  | false =>
    have ahead : cursor.rest = path.first.text ++
        ((path.more.flatMap fun segment => "::".toList ++ segment.text) ++ rest) := by
      rw [split, Path.text, root]
      simp
    have noColon : cursor.rest.head? ≠ some ':' := by
      have starts := path.first.starts
      rw [ahead, Identifier.text]
      intro same
      rw [Option.some.inj same] at starts
      revert starts
      decide
    have noSeparator : cursor.read? pathSeparator = none := Cursor.read?_eq_none rfl noColon
    obtain ⟨fragment, found, spells⟩ := segments_spells path whole closes ahead
    simp only [identPath, noSeparator, found, Option.map_some]
    refine ⟨_, rfl, ?_, ?_, spells.clean⟩
    · rw [spells.next, Path.text, root]
      rfl
    · simp [Node.bare_eq, Node.Kind.bare, spells.bare, Path.tree, made, root]

theorem primitiveType_takes (primitive : Primitive) :
    primitiveType.Takes primitive.name.toList (made (.primitiveType primitive) []) := by
  intro cursor rest _ split closes
  have isWord : IsWord primitive.name := by
    cases primitive <;> exact isWord_of_chars rfl (by decide) (by decide)
  have word := isWord.word split closes
  have known : Primitive.ofName? primitive.name = some primitive := by
    cases primitive <;> decide
  have behind : cursor.afterWord = cursor.moveTo primitive.name.toList rest := by
    rw [Cursor.afterWord, word, split, List.drop_left]
  have found : primitiveType cursor =
      some (leaf (.primitiveType primitive) cursor (cursor.moveTo primitive.name.toList rest)) := by
    simp [primitiveType, word, known, behind]
  exact ⟨_, found, spells_leaf _ _ _ _ rfl⟩

private theorem resourceParts_text (resource : Resource) :
    resourceParts resource.text = (resource.space.map String.ofList, String.ofList resource.path) := by
  unfold resourceParts Resource.text
  cases inside : resource.space with
  | none =>
    obtain ⟨_, noColon⟩ := resource.noColon inside
    have all : ∀ char ∈ resource.path, (char != ':') = true := by
      intro char member
      simpa using fun same : char = ':' => noColon (same ▸ member)
    have whole := List.takeWhile_eq_self_iff.mpr all
    have nothing := List.dropWhile_eq_nil_iff.mpr all
    simp only [List.span_eq_takeWhile_dropWhile, whole, nothing, Option.map_none]
  | some space =>
    have all : ∀ char ∈ space, (char != ':') = true := by
      intro char member
      simpa using (resource.spaceChars space inside char member).2
    simp [List.span_eq_takeWhile_dropWhile, List.takeWhile_append_of_pos all, List.dropWhile_append_of_pos all]

theorem resourceLocation_takes (resource : Resource) : resourceLocation.Takes resource.text resource.tree := by
  intro cursor rest _ split closes
  have some : resource.text.isEmpty = false := by simpa using resource.text_ne_nil
  have read := Cursor.readWhile_of_rest split resource.text_chars (closes.outside graphic_isResourceChar)
  have found : resourceLocation cursor = .some (leaf (.resourceLocation (resource.space.map String.ofList)
      (String.ofList resource.path)) cursor (cursor.moveTo resource.text rest)) := by
    simp only [resourceLocation, read, some, resourceParts_text, Bool.false_eq_true, if_false]
  exact ⟨_, found, spells_leaf _ _ _ _ rfl⟩

end Parser

end SchemaDoc
