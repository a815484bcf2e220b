import Mathlib.Data.List.DropRight
import Mathlib.Data.List.TakeDrop
import Mathlib.Order.Defs.PartialOrder
import SchemaDoc.Parser.Cursor

/-! What a cursor reads. Two cursors of one text are related by the characters between them, and
every step of the reader is described by that relation. Offsets are computed here and nowhere else:
later modules only follow the order of the cursors. -/

namespace SchemaDoc

@[simp] theorem byteLength_nil : byteLength [] = 0 := rfl

@[simp] theorem byteLength_cons (char : Char) (chars : List Char) :
    byteLength (char :: chars) = char.utf8Size + byteLength chars := rfl

@[simp] theorem byteLength_append (first second : List Char) :
    byteLength (first ++ second) = byteLength first + byteLength second := by
  induction first with
  | nil => simp
  | cons char chars ih => simp [ih, Nat.add_assoc]

theorem byteLength_toList (text : String) : byteLength text.toList = text.utf8ByteSize := by
  suffices general : ∀ chars, byteLength chars = (String.ofList chars).utf8ByteSize by
    simpa using general text.toList
  intro chars
  induction chars with
  | nil => simp
  | cons char chars ih => simp [String.ofList_cons, ih]

theorem length_le_byteLength (chars : List Char) : chars.length ≤ byteLength chars := by
  induction chars with
  | nil => simp
  | cons char chars ih =>
    have positive := char.utf8Size_pos
    simp only [List.length_cons, byteLength_cons]
    omega

theorem eq_nil_of_byteLength {chars : List Char} (empty : byteLength chars = 0) : chars = [] := by
  have bound := length_le_byteLength chars
  exact List.eq_nil_of_length_eq_zero (by omega)

theorem append_cancel_of_byteLength {first second rest other : List Char}
    (same : first ++ rest = second ++ other) (length : byteLength first = byteLength second) :
    first = second ∧ rest = other := by
  rcases List.append_eq_append_iff.mp same with ⟨more, rfl, rfl⟩ | ⟨more, rfl, rfl⟩
  all_goals
    rw [byteLength_append] at length
    have empty : more = [] := eq_nil_of_byteLength (by omega)
    simp [empty]

theorem notBlank_of_visible {char : Char} (low : 0x20 < char.toNat) (high : char.toNat < 0x7F) :
    Text.isBlank char = false := by
  simp only [Text.isBlank, Bool.or_eq_false_iff, Bool.and_eq_false_iff, decide_eq_false_iff_not, beq_eq_false_iff_ne]
  omega

theorem isIdentifierStart_code {char : Char} (starts : isIdentifierStart char = true) :
    char.toNat = 95 ∨ (65 ≤ char.toNat ∧ char.toNat ≤ 90) ∨ (97 ≤ char.toNat ∧ char.toNat ≤ 122) := by
  unfold isIdentifierStart Char.isAlpha Char.isUpper Char.isLower at starts
  simp only [Bool.or_eq_true, Bool.and_eq_true, beq_iff_eq, decide_eq_true_eq, ge_iff_le, UInt32.le_iff_toNat_le] at starts
  rcases starts with rfl | ⟨low, high⟩ | ⟨low, high⟩
  · exact .inl rfl
  · exact .inr (.inl ⟨low, high⟩)
  · exact .inr (.inr ⟨low, high⟩)

theorem isIdentifierStart_visible {char : Char} (starts : isIdentifierStart char = true) :
    Text.isBlank char = false ∧ char ≠ '/' := by
  have code := isIdentifierStart_code starts
  refine ⟨notBlank_of_visible (by omega) (by omega), ?_⟩
  rintro rfl
  revert code
  decide

/-- Blanks and line comments in front of `rest`. A comment ends with its line, or with the text. -/
inductive Trivia (rest : List Char) : List Char → Prop where
  | nil : Trivia rest []
  | blank {char taken} (isBlank : Text.isBlank char = true) (more : Trivia rest taken) :
      Trivia rest (char :: taken)
  | comment {line taken} (oneLine : '\n' ∉ line) (noDoc : line.head? ≠ some '/')
      (more : Trivia rest taken) : Trivia rest ('/' :: '/' :: (line ++ '\n' :: taken))
  | lastComment {line} (atEnd : rest = []) (oneLine : '\n' ∉ line) (noDoc : line.head? ≠ some '/') :
      Trivia rest ('/' :: '/' :: line)

theorem Trivia.append {first second rest : List Char} (before : Trivia (second ++ rest) first)
    (after : Trivia rest second) : Trivia rest (first ++ second) := by
  induction before with
  | nil => exact after
  | blank isBlank more ih => exact .blank isBlank ih
  | comment oneLine noDoc more ih => simpa using Trivia.comment oneLine noDoc ih
  | lastComment atEnd oneLine noDoc =>
    obtain ⟨rfl, rfl⟩ := List.append_eq_nil_iff.mp atEnd
    simpa using Trivia.lastComment rfl oneLine noDoc

theorem Trivia.of_blanks {chars rest : List Char} (blanks : ∀ char ∈ chars, Text.isBlank char = true) :
    Trivia rest chars := by
  induction chars with
  | nil => exact .nil
  | cons char chars ih =>
    exact .blank (blanks char (by simp)) (ih fun other member => blanks other (by simp [member]))

namespace Cursor

/-- `taken` is what lies between two cursors of one text. -/
structure Reads (cursor : Cursor) (taken : List Char) (next : Cursor) : Prop where
  rest : cursor.rest = taken ++ next.rest
  offset : next.offset = cursor.offset + byteLength taken
  size : next.size = cursor.size

theorem Reads.refl (cursor : Cursor) : cursor.Reads [] cursor := ⟨rfl, rfl, rfl⟩

theorem Reads.trans {cursor middle next : Cursor} {first second : List Char}
    (before : cursor.Reads first middle) (after : middle.Reads second next) :
    cursor.Reads (first ++ second) next := by
  refine ⟨?_, ?_, after.size.trans before.size⟩
  · rw [before.rest, after.rest, List.append_assoc]
  · rw [after.offset, before.offset, byteLength_append, Nat.add_assoc]

theorem reads_moveTo {cursor : Cursor} {taken rest : List Char} (split : cursor.rest = taken ++ rest) :
    cursor.Reads taken (cursor.moveTo taken rest) := ⟨split, rfl, rfl⟩

theorem Reads.eq_moveTo {cursor next : Cursor} {taken : List Char} (reads : cursor.Reads taken next) :
    next = cursor.moveTo taken next.rest := by
  cases cursor
  cases next
  simp only [moveTo, mk.injEq, and_true]
  exact ⟨reads.size, reads.offset⟩

theorem Reads.eq_of_nil {cursor next : Cursor} (reads : cursor.Reads [] next) : next = cursor := by
  have same : cursor.rest = next.rest := reads.rest
  rw [reads.eq_moveTo, ← same]
  rfl

instance : Preorder Cursor where
  le cursor next := ∃ taken, cursor.Reads taken next
  le_refl cursor := ⟨[], .refl cursor⟩
  le_trans _ _ _ := fun ⟨_, before⟩ ⟨_, after⟩ => ⟨_, before.trans after⟩

theorem Reads.le {cursor next : Cursor} {taken : List Char} (reads : cursor.Reads taken next) :
    cursor ≤ next := ⟨taken, reads⟩

theorem Reads.offset_lt {cursor next : Cursor} {taken : List Char} (reads : cursor.Reads taken next)
    (some : taken ≠ []) : cursor.offset < next.offset := by
  have positive : byteLength taken ≠ 0 := fun none => some (eq_nil_of_byteLength none)
  rw [reads.offset]
  omega

theorem offset_le {cursor next : Cursor} (before : cursor ≤ next) : cursor.offset ≤ next.offset := by
  obtain ⟨taken, reads⟩ := before
  rw [reads.offset]
  exact Nat.le_add_right _ _

theorem offset_add_rest {cursor next : Cursor} (before : cursor ≤ next) :
    next.offset + byteLength next.rest = cursor.offset + byteLength cursor.rest := by
  obtain ⟨taken, reads⟩ := before
  rw [reads.offset, reads.rest, byteLength_append, Nat.add_assoc]

/-- Behind one cursor, an offset belongs to at most one other. -/
theorem eq_of_offset {first cursor other : Cursor} (before : first ≤ cursor) (also : first ≤ other)
    (same : cursor.offset = other.offset) : cursor = other := by
  obtain ⟨taken, reads⟩ := before
  obtain ⟨more, readsOther⟩ := also
  have length : byteLength taken = byteLength more := by
    have here := reads.offset
    have there := readsOther.offset
    omega
  obtain ⟨rfl, rest⟩ := append_cancel_of_byteLength (reads.rest.symm.trans readsOther.rest) length
  rw [reads.eq_moveTo, readsOther.eq_moveTo, rest]

def Skips (cursor next : Cursor) : Prop := ∃ taken, cursor.Reads taken next ∧ Trivia next.rest taken

theorem Skips.le {cursor next : Cursor} (skips : cursor.Skips next) : cursor ≤ next := by
  obtain ⟨taken, reads, _⟩ := skips
  exact reads.le

theorem Skips.refl (cursor : Cursor) : cursor.Skips cursor := ⟨[], .refl cursor, .nil⟩

theorem Skips.trans {cursor middle next : Cursor} (before : cursor.Skips middle)
    (after : middle.Skips next) : cursor.Skips next := by
  obtain ⟨first, reads, trivia⟩ := before
  obtain ⟨second, readsOn, triviaOn⟩ := after
  exact ⟨first ++ second, reads.trans readsOn, .append (readsOn.rest ▸ trivia) triviaOn⟩

theorem startsWith_iff {cursor : Cursor} {token : String} :
    cursor.startsWith token = true ↔ ∃ rest, cursor.rest = token.toList ++ rest := by
  simp only [startsWith, List.isPrefixOf_iff_prefix]
  exact ⟨fun ⟨rest, split⟩ => ⟨rest, split.symm⟩, fun ⟨rest, split⟩ => ⟨rest, split.symm⟩⟩

theorem read?_of_rest {cursor : Cursor} {token : String} {rest : List Char}
    (split : cursor.rest = token.toList ++ rest) :
    cursor.read? token = some (cursor.moveTo token.toList rest) := by
  have starts : cursor.startsWith token = true := startsWith_iff.mpr ⟨rest, split⟩
  simp [read?, starts, split]

theorem read?_reads {cursor next : Cursor} {token : String} (found : cursor.read? token = some next) :
    cursor.Reads token.toList next := by
  unfold read? at found
  split at found
  next starts =>
    obtain ⟨rest, split⟩ := startsWith_iff.mp starts
    cases found
    exact reads_moveTo (by simp [split])
  next => cases found

theorem read?_le {cursor next : Cursor} {token : String} (found : cursor.read? token = some next) :
    cursor ≤ next := (read?_reads found).le

theorem readWhile_reads (cursor : Cursor) (holds : Char → Bool) :
    cursor.Reads (cursor.readWhile holds).1 (cursor.readWhile holds).2 := by
  simp only [readWhile, List.span_eq_takeWhile_dropWhile]
  exact reads_moveTo (by simp)

theorem mem_readWhile {cursor : Cursor} {holds : Char → Bool} {char : Char}
    (member : char ∈ (cursor.readWhile holds).1) : holds char = true := by
  simp only [readWhile, List.span_eq_takeWhile_dropWhile] at member
  exact List.mem_takeWhile_imp member

theorem readLine_reads (cursor : Cursor) :
    ∃ ending, cursor.Reads (cursor.readLine.1 ++ ending) cursor.readLine.2 ∧
      '\n' ∉ cursor.readLine.1 ∧ (ending = ['\n'] ∨ ending = [] ∧ cursor.readLine.2.rest = []) := by
  have oneLine : '\n' ∉ cursor.rest.takeWhile (· != '\n') := by
    intro member
    simpa using List.mem_takeWhile_imp member
  have split := List.takeWhile_append_dropWhile (p := (· != '\n')) (l := cursor.rest)
  simp only [readLine, List.span_eq_takeWhile_dropWhile]
  cases behind : cursor.rest.dropWhile (· != '\n') with
  | nil =>
    rw [behind] at split
    refine ⟨[], ?_, oneLine, .inr ⟨rfl, rfl⟩⟩
    rw [List.append_nil]
    exact reads_moveTo split.symm
  | cons newline rest =>
    have isNewline : newline = '\n' := by
      have first := List.head?_dropWhile_not (· != '\n') cursor.rest
      simpa [behind] using first
    subst isNewline
    rw [behind] at split
    exact ⟨['\n'], reads_moveTo (by simpa using split.symm), oneLine, .inl rfl⟩

/-- What skipping passes over. Inside a comment, everything up to the end of the line belongs to it;
the comment may be the last thing in the text. -/
private theorem triviaEnd_spec (inComment : Bool) (offset : Nat) (chars : List Char) :
    ∃ taken, chars = taken ++ (triviaEnd inComment offset chars).2 ∧
      (triviaEnd inComment offset chars).1 = offset + byteLength taken ∧
      if inComment then
        (∃ line more, taken = line ++ '\n' :: more ∧ '\n' ∉ line ∧
          Trivia (triviaEnd inComment offset chars).2 more) ∨
        ('\n' ∉ taken ∧ (triviaEnd inComment offset chars).2 = [])
      else Trivia (triviaEnd inComment offset chars).2 taken := by
  fun_induction triviaEnd inComment offset chars with
  | case1 inComment offset =>
    refine ⟨[], rfl, rfl, ?_⟩
    cases inComment
    · exact .nil
    · exact .inr ⟨by simp, rfl⟩
  | case2 offset char rest ih =>
    obtain ⟨taken, split, moved, passed⟩ := ih
    refine ⟨char :: taken, by simp [← split], by simp [moved, Nat.add_assoc], ?_⟩
    by_cases newline : char = '\n'
    · subst newline
      exact .inl ⟨[], taken, rfl, by simp, by simpa using passed⟩
    · simp only [bne_iff_ne, ne_eq, newline, not_false_eq_true, if_true] at passed ⊢
      have different : '\n' ≠ char := fun same => newline same.symm
      rcases passed with ⟨line, more, rfl, oneLine, trivia⟩ | ⟨oneLine, done⟩
      · exact .inl ⟨char :: line, more, rfl, by simp [different, oneLine], trivia⟩
      · exact .inr ⟨by simp [different, oneLine], done⟩
  | case3 offset char rest isBlank ih =>
    obtain ⟨taken, split, moved, passed⟩ := ih
    exact ⟨char :: taken, by simp [← split], by simp [moved, Nat.add_assoc], .blank isBlank passed⟩
  | case4 offset char rest notBlank opens ih =>
    simp only [Bool.and_eq_true, beq_iff_eq, bne_iff_ne, ne_eq] at opens
    obtain ⟨⟨rfl, second⟩, noDoc⟩ := opens
    obtain ⟨taken, split, moved, passed⟩ := ih
    refine ⟨'/' :: taken, by simp [← split], by simp [moved, Nat.add_assoc], ?_⟩
    obtain ⟨behind, rfl⟩ := List.head?_eq_some_iff.mp second
    rw [List.drop_one, List.tail_cons] at noDoc
    rcases passed with ⟨line, more, rfl, oneLine, trivia⟩ | ⟨oneLine, done⟩
    · cases line with
      | nil => simp at split
      | cons first line =>
        obtain ⟨rfl, inside⟩ := List.cons.inj split
        have headed : line.head? ≠ some '/' := by
          cases line with
          | nil => simp
          | cons second line =>
            rw [inside] at noDoc
            simpa using noDoc
        exact .comment (fun member => oneLine (by simp [member])) headed trivia
    · rw [done, List.append_nil] at split
      subst taken
      exact .lastComment done (fun member => oneLine (by simp [member])) noDoc
  | case5 offset char rest notBlank noComment => exact ⟨[], rfl, rfl, .nil⟩

theorem skips_skipTrivia (cursor : Cursor) : cursor.Skips cursor.skipTrivia := by
  obtain ⟨taken, split, moved, passed⟩ := triviaEnd_spec false cursor.offset cursor.rest
  exact ⟨taken, ⟨split, moved, rfl⟩, passed⟩

theorem le_skipTrivia (cursor : Cursor) : cursor ≤ cursor.skipTrivia := (skips_skipTrivia cursor).le

theorem skipTrivia_stops {cursor : Cursor} {char : Char} {rest : List Char}
    (ahead : cursor.skipTrivia.rest = char :: rest) : Text.isBlank char = false := by
  have general : ∀ inComment offset chars, (triviaEnd inComment offset chars).2 = char :: rest →
      Text.isBlank char = false := by
    intro inComment offset chars stopped
    fun_induction triviaEnd inComment offset chars with
    | case1 => cases stopped
    | case2 offset next chars ih => exact ih stopped
    | case3 offset next chars isBlank ih => exact ih stopped
    | case4 offset next chars notBlank opens ih => exact ih stopped
    | case5 offset next chars notBlank noComment =>
      cases stopped
      simpa using notBlank
  exact general false cursor.offset cursor.rest ahead

theorem skipTrivia_eq_self {cursor : Cursor} {char : Char} {rest : List Char}
    (ahead : cursor.rest = char :: rest) (notBlank : Text.isBlank char = false) (notSlash : char ≠ '/') :
    cursor.skipTrivia = cursor := by
  have noComment : (char == '/') = false := by simpa using notSlash
  cases cursor
  simp only at ahead
  simp [skipTrivia, ahead, triviaEnd, notBlank, noComment]

theorem word_prefix (cursor : Cursor) : cursor.word <+: cursor.rest := by
  unfold word
  cases cursor.rest with
  | nil => exact List.prefix_refl _
  | cons char rest =>
    dsimp only
    split
    · exact List.cons_prefix_cons.mpr ⟨rfl, List.takeWhile_prefix _⟩
    · exact List.nil_prefix

theorem mem_word {cursor : Cursor} {char : Char} (member : char ∈ cursor.word) : isIdentifierPart char = true := by
  unfold word at member
  split at member
  next => cases member
  next first rest ahead =>
    split at member
    next starts =>
      rcases List.mem_cons.mp member with rfl | member
      · simp [isIdentifierPart, starts]
      · exact List.mem_takeWhile_imp member
    next => cases member

theorem word_ne_nil {cursor : Cursor} (some : cursor.word ≠ []) :
    ∃ char rest, cursor.rest = char :: rest ∧ isIdentifierStart char = true := by
  unfold word at some
  cases ahead : cursor.rest with
  | nil => simp [ahead] at some
  | cons char rest =>
    by_cases starts : isIdentifierStart char = true
    · exact ⟨char, rest, rfl, starts⟩
    · simp [ahead, starts] at some

theorem reads_afterWord (cursor : Cursor) : cursor.Reads cursor.word cursor.afterWord :=
  reads_moveTo (List.prefix_iff_eq_append.mp cursor.word_prefix).symm

theorem readIdentifier?_eq_some {cursor next : Cursor} {value : String}
    (found : cursor.readIdentifier? = some (value, next)) :
    cursor.word ≠ [] ∧ value = String.ofList cursor.word ∧ next = cursor.afterWord := by
  unfold readIdentifier? at found
  split at found
  next => cases found
  next some =>
    cases found
    exact ⟨by simpa using some, rfl, rfl⟩

theorem readKeyword?_of_word {cursor : Cursor} {keyword : String} (same : cursor.word = keyword.toList) :
    ∃ next, cursor.readKeyword? keyword = some next := by
  obtain ⟨rest, split⟩ := cursor.word_prefix
  rw [same] at split
  exact ⟨_, by rw [readKeyword?, if_pos same, read?_of_rest split.symm]⟩

theorem readKeyword?_reads {cursor next : Cursor} {keyword : String}
    (found : cursor.readKeyword? keyword = some next) : cursor.Reads keyword.toList next := by
  unfold readKeyword? at found
  split at found
  next => exact read?_reads found
  next => cases found

theorem readLine_trimmed (cursor : Cursor) (drops : Char → Bool)
    (blank : ∀ char, drops char = true → Text.isBlank char = true) :
    ∃ stop, cursor.Reads (cursor.readLine.1.rdropWhile drops) stop ∧ stop.Skips cursor.readLine.2 ∧
      ∀ char rest, cursor.rest = char :: rest → Text.isBlank char = false → cursor.offset < stop.offset := by
  obtain ⟨ending, reads, _, lastLine⟩ := readLine_reads cursor
  let content := cursor.readLine.1.rdropWhile drops
  let dropped := cursor.readLine.1.rtakeWhile drops ++ ending
  have parts : content ++ dropped = cursor.readLine.1 ++ ending := by
    simp only [content, dropped, ← List.append_assoc, List.rdropWhile_append_rtakeWhile]
  have split : cursor.rest = content ++ (dropped ++ cursor.readLine.2.rest) := by
    rw [reads.rest, ← parts, List.append_assoc]
  have blanks : ∀ char ∈ dropped, Text.isBlank char = true := by
    intro char member
    rcases List.mem_append.mp member with member | member
    · exact blank char (List.mem_rtakeWhile_imp member)
    · rcases lastLine with rfl | ⟨rfl, _⟩
      · obtain rfl := List.mem_singleton.mp member
        decide
      · cases member
  let stop := cursor.moveTo content (dropped ++ cursor.readLine.2.rest)
  have inside : cursor.Reads content stop := reads_moveTo split
  refine ⟨stop, inside, ⟨dropped, ⟨rfl, ?_, reads.size⟩, .of_blanks blanks⟩, ?_⟩
  · rw [reads.offset, ← parts]
    simp [stop, moveTo, Nat.add_assoc]
  · intro char rest ahead notBlank
    apply inside.offset_lt
    intro none
    rw [none, List.nil_append, ahead] at split
    cases droppedCase : dropped with
    | nil =>
      rw [none, droppedCase] at parts
      obtain ⟨_, noEnding⟩ := List.append_eq_nil_iff.mp parts.symm
      rcases lastLine with newline | ⟨_, done⟩
      · simp [noEnding] at newline
      · simp [droppedCase, done] at split
    | cons first more =>
      rw [droppedCase] at split
      obtain ⟨rfl, _⟩ := List.cons.inj split
      simp [blanks char (by simp [droppedCase])] at notBlank

theorem docLine_reads {cursor : Cursor} (starts : cursor.startsWith "///" = true) :
    ∃ stop, cursor ≤ stop ∧ stop.Skips cursor.readLine.2 ∧
      stop.offset = cursor.offset + (docLine cursor.readLine.1).2 ∧ cursor.offset < stop.offset := by
  have blank : ∀ char, (char == '\r') = true → Text.isBlank char = true := by
    intro char isReturn
    obtain rfl := beq_iff_eq.mp isReturn
    decide
  obtain ⟨stop, inside, skips, advances⟩ := readLine_trimmed cursor _ blank
  obtain ⟨rest, ahead⟩ := startsWith_iff.mp starts
  exact ⟨stop, inside.le, skips, inside.offset, advances _ _ ahead (by decide)⟩

private theorem docLines_reads (fuel stop : Nat) (cursor : Cursor) :
    ((docLines fuel stop cursor).1 = [] ∧ (docLines fuel stop cursor).2 = (stop, cursor)) ∨
    ∃ last, cursor ≤ last ∧ cursor.offset < last.offset ∧
      (docLines fuel stop cursor).2.1 = last.offset ∧ last.Skips (docLines fuel stop cursor).2.2 := by
  induction fuel generalizing stop cursor with
  | zero => exact .inl ⟨rfl, rfl⟩
  | succ fuel ih =>
    unfold docLines
    split
    next starts =>
      obtain ⟨first, before, skips, length, advanced⟩ := docLine_reads starts
      have through := skips.trans (skips_skipTrivia cursor.readLine.2)
      right
      rcases ih (cursor.offset + (docLine cursor.readLine.1).2) cursor.readLine.2.skipTrivia with
        ⟨_, same⟩ | ⟨last, later, moved, stopped, closes⟩
      · exact ⟨first, before, advanced, by simp [same, length], by simpa [same] using through⟩
      · have onward : cursor ≤ last := before.trans (through.le.trans later)
        have bound := offset_le (before.trans through.le)
        exact ⟨last, onward, by omega, stopped, closes⟩
    next => exact .inl ⟨rfl, rfl⟩

/-- Doc comments are a node without children, with nothing but trivia behind it. -/
theorem readDocComments?_reads {cursor next : Cursor} {doc : Node}
    (found : cursor.readDocComments? = some (doc, next)) :
    ∃ text last, doc = { kind := .docComments text, span := cursor.spanTo last } ∧
      cursor ≤ last ∧ cursor.offset < last.offset ∧ last.Skips next := by
  unfold readDocComments? at found
  split at found
  next => cases found
  next lines stop last some lookup =>
    cases found
    rcases docLines_reads cursor.remaining cursor.offset cursor with
      ⟨none, _⟩ | ⟨last, before, moved, stopped, closes⟩
    · rw [lookup] at none
      exact absurd none some
    · rw [lookup] at stopped closes
      obtain rfl : stop = last.offset := stopped
      exact ⟨_, last, rfl, before, moved, closes⟩

private theorem docLines_stops (fuel stop : Nat) (cursor : Cursor) :
    (docLines fuel stop cursor).2.2 = cursor ∨ ∃ other, (docLines fuel stop cursor).2.2 = skipTrivia other := by
  induction fuel generalizing stop cursor with
  | zero => exact .inl rfl
  | succ fuel ih =>
    unfold docLines
    split
    next =>
      right
      rcases ih (cursor.offset + (docLine cursor.readLine.1).2) cursor.readLine.2.skipTrivia with same | other
      · exact ⟨cursor.readLine.2, same⟩
      · exact other
    next => exact .inl rfl

/-- Behind doc comments, as at the start of a declaration, the trivia is already skipped. -/
theorem readDocComments?_stops {cursor next : Cursor} {doc : Node}
    (found : cursor.readDocComments? = some (doc, next)) : ∃ other, next = skipTrivia other := by
  obtain ⟨_, last, _, _, advances, skips⟩ := readDocComments?_reads found
  have moved := Nat.lt_of_lt_of_le advances (offset_le skips.le)
  unfold readDocComments? at found
  split at found
  next => cases found
  next lines stop behind some lookup =>
    cases found
    have stops := docLines_stops cursor.remaining cursor.offset cursor
    rw [lookup] at stops
    rcases stops with same | other
    · exact absurd (congrArg Cursor.offset same) (Nat.ne_of_gt moved)
    · exact other

end Cursor

end SchemaDoc
