import Mathlib.Data.List.DropRight
import Mathlib.Data.List.TakeDrop
import SchemaDoc.Json.Reader

/-! A value that is written without blanks is read back from its text. Whole numbers must fit a word, and floating
point numbers are left out; a number ends where neither digits nor a point nor an exponent follow, which is so in
front of every mark that stands behind a value. -/

namespace SchemaDoc.Json

/-- Values whose text stands for nothing else. -/
inductive Portable : Json → Prop where
  | null : Portable .null
  | bool (value : Bool) : Portable (.bool value)
  | int {value : Int} (lower : -(wordBound 63 : Int) ≤ value) (upper : value < wordBound 64) : Portable (.int value)
  | str (value : String) : Portable (.str value)
  | arr {items : List Json} (each : ∀ item ∈ items, Portable item) : Portable (.arr items)
  | obj {members : List (String × Json)} (each : ∀ member ∈ members, Portable member.2) : Portable (.obj members)

/-- What may follow a value: the end of the text or a mark between values. -/
def Closes (rest : List Char) : Prop := ∀ char ∈ rest.head?, char = ',' ∨ char = ']' ∨ char = '\x7d'

theorem closes_nil : Closes [] := nofun

theorem closes_cons {char : Char} (rest : List Char) (mark : char = ',' ∨ char = ']' ∨ char = '\x7d') :
    Closes (char :: rest) := by
  rintro _ ⟨⟩
  exact mark

/-- A value is read back from its text, with what is behind it left over. Each letter is worth two steps. -/
def Reads (json : Json) : Prop :=
  ∀ fuel rest, 2 * json.compact.toList.length ≤ fuel → Closes rest →
    value? fuel (json.compact.toList ++ rest) = some (json, rest)

theorem hexValue?_hexDigit : ∀ value < 16, hexValue? (hexDigit value) = some value := by decide

theorem textFrom?_escapeChar (done : List Char) (char : Char) (rest : List Char) :
    textFrom? done none .plain (escapeChar char ++ rest) = textFrom? (char :: done) none .plain rest := by
  rw [escapeChar]
  split
  next quote => subst quote; simp [textFrom?, escape?]
  split
  next escape => subst escape; simp [textFrom?, escape?]
  split
  next newline => subst newline; simp [textFrom?, escape?]
  split
  next back => subst back; simp [textFrom?, escape?]
  split
  next tab => subst tab; simp [textFrom?, escape?]
  split
  next backspace =>
    obtain rfl : char = Char.ofNat 8 := by rw [← backspace, Char.ofNat_toNat]
    simp [textFrom?, escape?]
  split
  next feed =>
    obtain rfl : char = Char.ofNat 12 := by rw [← feed, Char.ofNat_toNat]
    simp [textFrom?, escape?]
  split
  next control =>
    have high := hexValue?_hexDigit (char.toNat / 16) (by omega)
    have low := hexValue?_hexDigit (char.toNat % 16) (by omega)
    have zero : hexValue? '0' = some 0 := by decide
    have whole : 16 * (char.toNat / 16) + char.toNat % 16 = char.toNat := by omega
    have noHigh : isHighSurrogate char.toNat = false := by simp [isHighSurrogate]; omega
    have noLow : isLowSurrogate char.toNat = false := by simp [isLowSurrogate]; omega
    simp [textFrom?, high, low, zero, whole, noHigh, noLow, pairedChar?, Char.ofNat_toNat]
  next noQuote noEscape _ _ _ _ _ printable =>
    simp [textFrom?, noQuote, noEscape, printable]

theorem textFrom?_escaped (done chars rest : List Char) :
    textFrom? done none .plain (chars.flatMap escapeChar ++ '"' :: rest) =
      some (String.ofList (done.reverse ++ chars), rest) := by
  induction chars generalizing done with
  | nil => simp [textFrom?]
  | cons char chars ih =>
    rw [List.flatMap_cons, List.append_assoc, textFrom?_escapeChar, ih]
    simp

theorem quoted_toList (text : String) :
    (quoted text).toList = '"' :: (text.toList.flatMap escapeChar ++ ['"']) := by
  simp [quoted]

theorem value?_quoted (fuel : Nat) (text : String) (rest : List Char) :
    value? (fuel + 1) ((quoted text).toList ++ rest) = some (.str text, rest) := by
  rw [quoted_toList]
  simp [value?, skipBlank, isBlank, textFrom?_escaped]

theorem head?_toDigits_ne {value : Nat} (some : 0 < value) : (Nat.toDigits 10 value).head? ≠ Option.some '0' := by
  have single : ∀ value < 10, 0 < value → [Nat.digitChar value].head? ≠ Option.some '0' := by decide
  induction value using Nat.strong_induction_on with
  | _ value ih =>
    rw [Nat.toDigits_eq_if (by decide)]
    split
    next small => exact single value small some
    next large =>
      have front := ih (value / 10) (by omega) (by omega)
      obtain ⟨first, others, digits⟩ := List.exists_cons_of_ne_nil (Nat.toDigits_ne_nil (n := value / 10) (b := 10))
      rw [digits] at front ⊢
      exact front

theorem digitsValue_toDigits (value : Nat) : digitsValue (Nat.toDigits 10 value) = value := by
  have read := Nat.ofDigitChars_toDigits (b := 10) (n := value) (by decide) (by decide)
  rwa [Nat.ofDigitChars_eq_foldl] at read

theorem digits?_toDigits (value : Nat) {rest : List Char} (closes : Closes rest) :
    digits? (Nat.toDigits 10 value ++ rest) = some (Nat.toDigits 10 value, rest) := by
  have digit : ∀ char ∈ Nat.toDigits 10 value, char.isDigit = true :=
    fun char member => Nat.isDigit_of_mem_toDigits (by decide) (by decide) member
  have stop : rest.takeWhile Char.isDigit = [] ∧ rest.dropWhile Char.isDigit = rest := by
    cases rest with
    | nil => exact ⟨rfl, rfl⟩
    | cons char rest =>
      have noDigit : char.isDigit = false := by
        rcases closes char rfl with rfl | rfl | rfl <;> rfl
      simp [noDigit]
  rw [digits?, List.span_eq_takeWhile_dropWhile, List.takeWhile_append_of_pos digit, List.dropWhile_append_of_pos digit,
    stop.1, stop.2, List.append_nil]
  split
  next none => exact absurd (congrArg Prod.fst none) Nat.toDigits_ne_nil
  next => rfl

theorem whole?_toDigits (value : Nat) {rest : List Char} (closes : Closes rest) :
    whole? (Nat.toDigits 10 value ++ rest) = some (Nat.toDigits 10 value, rest) := by
  rw [whole?, digits?_toDigits value closes]
  rcases Nat.eq_zero_or_pos value with rfl | some
  · rfl
  · have noZero := head?_toDigits_ne some
    simp [noZero]

theorem places?_closes {rest : List Char} (closes : Closes rest) : places? rest = some ([], rest) := by
  rw [places?]
  rintro after rfl
  rcases closes '.' rfl with same | same | same <;> cases same

theorem exponent?_closes {rest : List Char} (closes : Closes rest) : exponent? rest = some (none, rest) := by
  cases rest with
  | nil => rfl
  | cons mark rest =>
    have noMark : ¬(mark = 'e' ∨ mark = 'E') := by
      rcases closes mark rfl with rfl | rfl | rfl <;> decide
    rw [exponent?, if_neg noMark]

theorem head_of_digits {value : Nat} {char : Char} {rest : List Char}
    (starts : (Nat.toDigits 10 value ++ rest).head? = some char) : char.isDigit = true := by
  obtain ⟨first, others, digits⟩ := List.exists_cons_of_ne_nil (Nat.toDigits_ne_nil (n := value) (b := 10))
  rw [digits] at starts
  obtain rfl : first = char := Option.some.inj starts
  exact Nat.isDigit_of_mem_toDigits (b := 10) (n := value) (by decide) (by decide) (digits ▸ List.mem_cons_self)

theorem toString_ofNat (value : Nat) : (toString (Int.ofNat value)).toList = Nat.toDigits 10 value := by
  have same : toString (Int.ofNat value) = toString value := rfl
  rw [same, Nat.toString_eq_ofList_toDigits, String.toList_ofList]

theorem toString_negSucc (value : Nat) :
    (toString (Int.negSucc value)).toList = '-' :: Nat.toDigits 10 (value + 1) := by
  have same : toString (Int.negSucc value) = "-" ++ toString (value + 1) := rfl
  have minus : "-".toList = ['-'] := rfl
  rw [same, String.toList_append, Nat.toString_eq_ofList_toDigits, minus, String.toList_ofList, List.singleton_append]

/-- A number without a point and without an exponent, from its sign and its digits. -/
theorem number?_digits (isNegative : Bool) {value : Nat} {text rest : List Char} (closes : Closes rest)
    (sign : (text.head? == some '-') = isNegative)
    (digits : (if isNegative then text.drop 1 else text) = Nat.toDigits 10 value ++ rest) :
    number? text = some (numberOf isNegative (Nat.toDigits 10 value) [] none, rest) := by
  simp only [number?, sign, digits, whole?_toDigits value closes, places?_closes closes, exponent?_closes closes,
    Option.bind_eq_bind, Option.bind_some, Option.pure_def]

theorem number?_toString {value : Int} {rest : List Char} (lower : -(wordBound 63 : Int) ≤ value)
    (upper : value < wordBound 64) (closes : Closes rest) :
    number? ((toString value).toList ++ rest) = some (.int value, rest) := by
  cases value with
  | ofNat value =>
    have unsigned : ((Nat.toDigits 10 value ++ rest).head? == some '-') = false := by
      refine beq_eq_false_iff_ne.mpr fun sign => ?_
      exact absurd (head_of_digits sign) (by decide)
    have small : value < wordBound 64 := Int.ofNat_lt.mp upper
    rw [toString_ofNat, number?_digits false closes unsigned rfl, numberOf, digitsValue_toDigits]
    simp [small]
  | negSucc value =>
    have small : value + 1 ≤ wordBound 63 := by omega
    rw [toString_negSucc, number?_digits true closes rfl rfl, numberOf, digitsValue_toDigits]
    simp [small, Int.negSucc_eq]

def joined (texts : List String) : List Char := [','].intercalate (texts.map String.toList)

def memberText (member : String × Json) : String := quoted member.1 ++ ":" ++ member.2.compact

theorem memberText_toList (member : String × Json) :
    (memberText member).toList = (quoted member.1).toList ++ ':' :: member.2.compact.toList := by
  simp [memberText]

theorem compactItems_eq (items : List Json) : compactItems items = items.map compact := by
  induction items with
  | nil => rfl
  | cons item items ih => rw [compactItems, ih, List.map_cons]

theorem compactMembers_eq (members : List (String × Json)) :
    compactMembers members = members.map memberText := by
  induction members with
  | nil => rfl
  | cons member members ih => rw [compactMembers, ih, List.map_cons, memberText]

theorem compact_arr (items : List Json) :
    (Json.arr items).compact.toList = '[' :: (joined (items.map compact) ++ [']']) := by
  simp [compact, compactItems_eq, joined]

theorem compact_obj (members : List (String × Json)) :
    (Json.obj members).compact.toList =
      '\x7b' :: (joined (members.map memberText) ++ ['\x7d']) := by
  simp [compact, compactMembers_eq, joined]

theorem compact_str (value : String) : (Json.str value).compact = quoted value := by simp [compact, scalarText]

theorem compact_int (value : Int) : (Json.int value).compact = toString value := by simp [compact, scalarText]

theorem joined_singleton (text : String) : joined [text] = text.toList := by simp [joined]

theorem joined_cons_cons (text next : String) (texts : List String) :
    joined (text :: next :: texts) = text.toList ++ ',' :: joined (next :: texts) := by
  simp [joined, List.intercalate_cons_cons]

theorem joined_head {text : String} {char : Char} {letters : List Char} (starts : text.toList = char :: letters)
    (texts : List String) : ∃ more, joined (text :: texts) = char :: more := by
  cases texts with
  | nil => exact ⟨letters, (joined_singleton text).trans starts⟩
  | cons next texts =>
    rw [joined_cons_cons, starts]
    exact ⟨_, rfl⟩

theorem expect?_mark {mark : Char} (visible : isBlank mark = false) (rest : List Char) :
    expect? mark (mark :: rest) = some rest := by
  simp [expect?, skipBlank, visible]

theorem expect?_other {mark char : Char} (visible : isBlank char = false) (other : char ≠ mark) (rest : List Char) :
    expect? mark (char :: rest) = none := by
  simp [expect?, skipBlank, visible, other]

theorem head_toString (value : Int) :
    ∃ char rest, (toString value).toList = char :: rest ∧ (char.isDigit = true ∨ char = '-') := by
  cases value with
  | ofNat value =>
    obtain ⟨first, others, digits⟩ := List.exists_cons_of_ne_nil (Nat.toDigits_ne_nil (n := value) (b := 10))
    have starts : (Nat.toDigits 10 value ++ []).head? = some first := by rw [digits]; rfl
    exact ⟨first, others, (toString_ofNat value).trans digits, .inl (head_of_digits starts)⟩
  | negSucc value => exact ⟨'-', _, toString_negSucc value, .inr rfl⟩

theorem apart_of_digit {char : Char} (digit : char.isDigit = true ∨ char = '-') (other : Char)
    (apart : other.isDigit = false ∧ other ≠ '-') : char ≠ other := by
  rintro rfl
  rcases digit with digit | same
  · exact absurd (apart.1.symm.trans digit) (by decide)
  · exact apart.2 same

theorem visible_of_digit {char : Char} (digit : char.isDigit = true ∨ char = '-') : isBlank char = false := by
  simp [isBlank, apart_of_digit digit ' ' (by decide), apart_of_digit digit '\n' (by decide),
    apart_of_digit digit '\t' (by decide), apart_of_digit digit '\r' (by decide)]

theorem Portable.starts {json : Json} (portable : Portable json) :
    ∃ char rest, json.compact.toList = char :: rest ∧ isBlank char = false ∧ char ≠ ']' := by
  cases portable with
  | null => exact ⟨'n', _, rfl, rfl, by decide⟩
  | bool value =>
    cases value
    · exact ⟨'f', _, rfl, rfl, by decide⟩
    · exact ⟨'t', _, rfl, rfl, by decide⟩
  | int lower upper =>
    rw [compact_int]
    obtain ⟨char, rest, letters, digit⟩ := head_toString _
    exact ⟨char, rest, letters, visible_of_digit digit, apart_of_digit digit ']' (by decide)⟩
  | str value => exact ⟨'"', _, (compact_str value).symm ▸ quoted_toList value, rfl, by decide⟩
  | arr each => exact ⟨'[', _, compact_arr _, rfl, by decide⟩
  | obj each => exact ⟨'\x7b', _, compact_obj _, rfl, by decide⟩

theorem reads_of_step {json : Json} (some : json.compact.toList ≠ [])
    (step : ∀ fuel rest, 2 * json.compact.toList.length ≤ fuel + 1 → Closes rest →
      value? (fuel + 1) (json.compact.toList ++ rest) = Option.some (json, rest)) : Reads json := by
  intro fuel rest enough closes
  cases fuel with
  | zero => exact absurd (List.eq_nil_of_length_eq_zero (by omega)) some
  | succ fuel => exact step fuel rest enough closes

theorem word?_append (word : String) (value : Json) (rest : List Char) :
    word? word value (word.toList ++ rest) = some (value, rest) := by
  simp [word?, ← String.length_toList]

theorem reads_null : Reads .null := by
  refine reads_of_step (by decide) fun fuel rest _ _ => ?_
  have read := word?_append "null" .null rest
  have letters : Json.null.compact.toList = "null".toList := rfl
  rw [letters]
  simpa [value?, skipBlank, isBlank] using read

theorem reads_bool (value : Bool) : Reads (.bool value) := by
  cases value with
  | false =>
    refine reads_of_step (by decide) fun fuel rest _ _ => ?_
    have read := word?_append "false" (.bool false) rest
    have letters : (Json.bool false).compact.toList = "false".toList := rfl
    rw [letters]
    simpa [value?, skipBlank, isBlank] using read
  | true =>
    refine reads_of_step (by decide) fun fuel rest _ _ => ?_
    have read := word?_append "true" (.bool true) rest
    have letters : (Json.bool true).compact.toList = "true".toList := rfl
    rw [letters]
    simpa [value?, skipBlank, isBlank] using read

theorem reads_str (value : String) : Reads (.str value) := by
  refine reads_of_step (by simp [compact_str, quoted_toList]) fun fuel rest _ _ => ?_
  rw [compact_str]
  exact value?_quoted fuel value rest

theorem reads_int {value : Int} (lower : -(wordBound 63 : Int) ≤ value) (upper : value < wordBound 64) :
    Reads (.int value) := by
  obtain ⟨char, others, letters, digit⟩ := head_toString value
  rw [← compact_int] at letters
  refine reads_of_step (by simp [letters]) fun fuel rest _ closes => ?_
  have read := number?_toString lower upper closes
  rw [← compact_int, letters, List.cons_append] at read
  rw [letters, List.cons_append]
  simp [value?, skipBlank, visible_of_digit digit, apart_of_digit digit '"' (by decide),
    apart_of_digit digit '[' (by decide), apart_of_digit digit '\x7b' (by decide),
    apart_of_digit digit 't' (by decide), apart_of_digit digit 'f' (by decide),
    apart_of_digit digit 'n' (by decide), read]

/-- Items are read one after the other; each leaves its letters to the others. -/
theorem items?_joined {item : Json} {items : List Json} (each : ∀ other ∈ item :: items, Reads other) (fuel : Nat)
    (done : List Json) (rest : List Char) (enough : 2 * (joined ((item :: items).map compact)).length + 1 ≤ fuel) :
    items? (fuel + 1) done (joined ((item :: items).map compact) ++ ']' :: rest) =
      some (.arr (done.reverse ++ item :: items), rest) := by
  have closing : ∀ rest, expect? ',' (']' :: rest) = none := expect?_other rfl (by decide)
  induction items generalizing item done fuel with
  | nil =>
    rw [List.map_cons, List.map_nil, joined_singleton] at enough ⊢
    have read := each item List.mem_cons_self fuel (']' :: rest) (by omega) (closes_cons rest (.inr (.inl rfl)))
    rw [items?, read]
    dsimp only
    rw [closing, expect?_mark rfl]
    simp
  | cons next items ih =>
    simp only [List.map_cons, joined_cons_cons, List.length_append, List.length_cons] at enough ih ⊢
    rw [List.append_assoc, List.cons_append]
    have read := each item List.mem_cons_self fuel (',' :: (joined (next.compact :: items.map compact) ++ ']' :: rest))
      (by omega) (closes_cons _ (.inl rfl))
    obtain ⟨fuel, rfl⟩ := Nat.exists_eq_add_of_le' (show 1 ≤ fuel by omega)
    have further := ih (fun other member => each other (List.mem_cons_of_mem _ member)) fuel (item :: done) (by omega)
    rw [items?, read]
    dsimp only
    rw [expect?_mark rfl]
    dsimp only
    rw [further]
    simp

theorem members?_joined {member : String × Json} {members : List (String × Json)}
    (each : ∀ other ∈ member :: members, Reads other.2) (fuel : Nat) (done : List (String × Json)) (rest : List Char)
    (enough : 2 * (joined ((member :: members).map memberText)).length + 1 ≤ fuel) :
    members? (fuel + 1) done (joined ((member :: members).map memberText) ++ '\x7d' :: rest) =
      some (.obj (done.reverse ++ member :: members), rest) := by
  have closing : ∀ rest, expect? ',' ('\x7d' :: rest) = none := expect?_other rfl (by decide)
  induction members generalizing member done fuel with
  | nil =>
    rw [List.map_cons, List.map_nil, joined_singleton, memberText_toList] at enough ⊢
    simp only [List.length_append, List.length_cons] at enough
    obtain ⟨fuel, rfl⟩ := Nat.exists_eq_add_of_le' (show 1 ≤ fuel by omega)
    have read := each member List.mem_cons_self (fuel + 1) ('\x7d' :: rest) (by omega) (closes_cons rest (.inr (.inr rfl)))
    rw [List.append_assoc, List.cons_append, members?, value?_quoted]
    dsimp only
    rw [expect?_mark rfl, Option.bind_some, read]
    dsimp only
    rw [closing, expect?_mark rfl]
    simp
  | cons next members ih =>
    simp only [List.map_cons, joined_cons_cons, memberText_toList member, List.length_append, List.length_cons]
      at enough ih ⊢
    obtain ⟨fuel, rfl⟩ := Nat.exists_eq_add_of_le' (show 1 ≤ fuel by omega)
    have read := each member List.mem_cons_self (fuel + 1)
      (',' :: (joined (memberText next :: members.map memberText) ++ '\x7d' :: rest)) (by omega) (closes_cons _ (.inl rfl))
    have further := ih (fun other among => each other (List.mem_cons_of_mem _ among)) fuel (member :: done) (by omega)
    simp only [List.append_assoc, List.cons_append]
    rw [members?, value?_quoted]
    dsimp only
    rw [expect?_mark rfl, Option.bind_some, read]
    dsimp only
    rw [expect?_mark rfl]
    dsimp only
    rw [further]
    simp

theorem value?_array (fuel : Nat) (rest : List Char) : value? (fuel + 1) ('[' :: rest) =
    match expect? ']' rest with
    | some rest => some (.arr [], rest)
    | none => items? fuel [] rest := rfl

theorem value?_object (fuel : Nat) (rest : List Char) : value? (fuel + 1) ('\x7b' :: rest) =
    match expect? '\x7d' rest with
    | some rest => some (.obj [], rest)
    | none => members? fuel [] rest := rfl

theorem reads_arr {items : List Json} (portable : ∀ item ∈ items, Portable item) (each : ∀ item ∈ items, Reads item) :
    Reads (.arr items) := by
  refine reads_of_step (by simp [compact_arr]) fun fuel rest enough _ => ?_
  simp only [compact_arr, List.length_cons, List.length_append, List.length_nil] at enough ⊢
  cases items with
  | nil => rfl
  | cons item items =>
    obtain ⟨fuel, rfl⟩ := Nat.exists_eq_add_of_le' (show 1 ≤ fuel by omega)
    have read := items?_joined each fuel [] rest (by omega)
    obtain ⟨char, _, starts, visible, noEnd⟩ := (portable item List.mem_cons_self).starts
    obtain ⟨more, opening⟩ := joined_head starts (items.map compact)
    have unclosed : expect? ']' (joined ((item :: items).map compact) ++ ']' :: rest) = none := by
      rw [List.map_cons, opening]
      exact expect?_other visible noEnd _
    rw [List.cons_append, List.append_assoc, List.singleton_append, value?_array, unclosed]
    exact read

theorem reads_obj {members : List (String × Json)} (each : ∀ member ∈ members, Reads member.2) :
    Reads (.obj members) := by
  refine reads_of_step (by simp [compact_obj]) fun fuel rest enough _ => ?_
  simp only [compact_obj, List.length_cons, List.length_append, List.length_nil] at enough ⊢
  cases members with
  | nil => rfl
  | cons member members =>
    obtain ⟨fuel, rfl⟩ := Nat.exists_eq_add_of_le' (show 1 ≤ fuel by omega)
    have read := members?_joined each fuel [] rest (by omega)
    have starts : (memberText member).toList =
        '"' :: (member.1.toList.flatMap escapeChar ++ ['"'] ++ ':' :: member.2.compact.toList) := by
      rw [memberText_toList, quoted_toList, List.cons_append]
    obtain ⟨more, opening⟩ := joined_head starts (members.map memberText)
    have unclosed : expect? '\x7d' (joined ((member :: members).map memberText) ++ '\x7d' :: rest) = none := by
      rw [List.map_cons, opening]
      exact expect?_other rfl (by decide) _
    rw [List.cons_append, List.append_assoc, List.singleton_append, value?_object, unclosed]
    exact read

theorem Portable.reads {json : Json} (portable : Portable json) : Reads json := by
  induction portable with
  | null => exact reads_null
  | bool value => exact reads_bool value
  | int lower upper => exact reads_int lower upper
  | str value => exact reads_str value
  | arr each ih => exact reads_arr each ih
  | obj each ih => exact reads_obj ih

/-- What is written is read back. -/
theorem ofText?_compact {json : Json} (portable : Portable json) : ofText? json.compact = some json := by
  have read := portable.reads (2 * json.compact.length + 2) [] (by rw [String.length_toList]; omega) closes_nil
  rw [List.append_nil] at read
  rw [ofText?, read]
  rfl

end SchemaDoc.Json
