import Mathlib.Data.List.Basic
import Mathlib.Logic.Function.Basic
import SchemaDoc.Text.Uri

/-! Paths and uris. A character is read back from its octets whatever follows them, and an octet from its escape, so that
a path is read back from its uri; different paths have different uris, and all of them are spelled with few letters. -/

namespace SchemaDoc

namespace Text.Utf8

variable {char : Char} {octet : Nat} {pending : Pending} {octets : List Nat}

theorem decodeFrom_cons (pending : Option Pending) (octet : Nat) (octets : List Nat) :
    decodeFrom pending (octet :: octets) = (step pending octet).1 ++ decodeFrom (step pending octet).2 octets := by
  cases pending <;> rfl

theorem decodeFrom_ascii (ascii : octet < 0x80) (octets : List Nat) :
    decodeFrom none (octet :: octets) = Char.ofNat octet :: decodeFrom none octets := by
  rw [decodeFrom_cons, step, fresh, if_pos ascii]
  rfl

theorem decodeFrom_begin (begins : begin? octet = some pending) (octets : List Nat) :
    decodeFrom none (octet :: octets) = decodeFrom (some pending) octets := by
  have high : ¬octet < 0x80 := by
    intro ascii
    have refused : begin? octet = none := by
      simp only [begin?]
      repeat rw [if_neg (by omega)]
    cases refused.symm.trans begins
  rw [decodeFrom_cons, step, fresh, if_neg high, begins]
  rfl

section Continue

variable (least : pending.least ≤ octet) (greatest : octet ≤ pending.greatest)

include least greatest

theorem decodeFrom_more (owed : 1 < pending.owed) (octets : List Nat) :
    decodeFrom (some pending) (octet :: octets) =
      decodeFrom (some { code := pending.code * 64 + (octet - 0x80), owed := pending.owed - 1 }) octets := by
  rw [decodeFrom_cons, step, if_pos ⟨least, greatest⟩]
  simp only [if_neg (Nat.not_le_of_lt owed)]
  rfl

theorem decodeFrom_last (owed : pending.owed ≤ 1) (octets : List Nat) :
    decodeFrom (some pending) (octet :: octets) =
      Char.ofNat (pending.code * 64 + (octet - 0x80)) :: decodeFrom none octets := by
  rw [decodeFrom_cons, step, if_pos ⟨least, greatest⟩]
  simp only [if_pos owed]
  rfl

end Continue

theorem code_valid (char : Char) : char.toNat < 0xD800 ∨ 0xDFFF < char.toNat ∧ char.toNat < 0x110000 := by
  have valid := char.valid
  simp only [UInt32.isValidChar, Nat.isValidChar] at valid
  exact valid

/-- What the first of several octets promises: the bits that it holds, how many octets are owed, and bounds that let the
second octet pass. -/
structure Begins (first bits owed second : Nat) (pending : Pending) : Prop where
  begins : begin? first = some pending
  code : pending.code = bits
  owed : pending.owed = owed
  least : pending.least ≤ second
  greatest : second ≤ pending.greatest

section Begins

variable (code : Nat)

theorem begins_two (above : 0x80 ≤ code) (below : code < 0x800) :
    begin? (0xC0 + code / 64) = some { code := code / 64, owed := 1 } := by
  rw [begin?, if_pos (by omega), Nat.add_sub_cancel_left]

/-- The second octet is held to narrower bounds behind the least first octet, and before the surrogates. -/
theorem begins_three (above : 0x800 ≤ code) (below : code < 0x10000) (valid : code < 0xD800 ∨ 0xDFFF < code) :
    ∃ pending, Begins (0xE0 + code / 4096) (code / 4096) 2 (0x80 + code / 64 % 64) pending := by
  by_cases zero : code / 4096 = 0
  · refine ⟨{ code := 0, owed := 2, least := 0xA0 }, ?_, zero.symm, rfl, ?_, ?_⟩
    · rw [begin?, if_neg (by omega), if_pos (by omega)]
    all_goals dsimp only; omega
  by_cases last : code / 4096 = 0xD
  · refine ⟨{ code := 0xD, owed := 2, greatest := 0x9F }, ?_, last.symm, rfl, ?_, ?_⟩
    · rw [begin?, if_neg (by omega), if_neg (by omega), if_pos (by omega)]
    all_goals dsimp only; omega
  · refine ⟨{ code := code / 4096, owed := 2 }, ?_, rfl, rfl, ?_, ?_⟩
    · rw [begin?, if_neg (by omega), if_neg (by omega), if_neg (by omega), if_pos (by omega), Nat.add_sub_cancel_left]
    all_goals dsimp only; omega

/-- The second octet is held to narrower bounds behind the least and the greatest first octet. -/
theorem begins_four (above : 0x10000 ≤ code) (below : code < 0x110000) :
    ∃ pending, Begins (0xF0 + code / 262144) (code / 262144) 3 (0x80 + code / 4096 % 64) pending := by
  by_cases zero : code / 262144 = 0
  · refine ⟨{ code := 0, owed := 3, least := 0x90 }, ?_, zero.symm, rfl, ?_, ?_⟩
    · rw [begin?, if_neg (by omega), if_neg (by omega), if_neg (by omega), if_neg (by omega), if_pos (by omega)]
    all_goals dsimp only; omega
  by_cases last : code / 262144 = 4
  · refine ⟨{ code := 4, owed := 3, greatest := 0x8F }, ?_, last.symm, rfl, ?_, ?_⟩
    · rw [begin?, if_neg (by omega), if_neg (by omega), if_neg (by omega), if_neg (by omega), if_neg (by omega),
        if_neg (by omega), if_pos (by omega)]
    all_goals dsimp only; omega
  · refine ⟨{ code := code / 262144, owed := 3 }, ?_, rfl, rfl, ?_, ?_⟩
    · rw [begin?, if_neg (by omega), if_neg (by omega), if_neg (by omega), if_neg (by omega), if_neg (by omega),
        if_pos (by omega), Nat.add_sub_cancel_left]
    all_goals dsimp only; omega

end Begins

theorem decodeFrom_encode (char : Char) (octets : List Nat) :
    decodeFrom none (encode char ++ octets) = char :: decodeFrom none octets := by
  have valid := code_valid char
  have back : ∀ code, code = char.toNat → Char.ofNat code = char := by
    rintro _ rfl
    exact Char.ofNat_toNat char
  simp only [encode]
  generalize char.toNat = code at valid back
  split
  · next ascii =>
    rw [List.singleton_append, decodeFrom_ascii ascii, back code rfl]
  split
  · next many two =>
    rw [List.cons_append, List.singleton_append, decodeFrom_begin (begins_two code (by omega) two),
      decodeFrom_last (by dsimp only; omega) (by dsimp only; omega) (Nat.le_refl 1), back _ (by dsimp only; omega)]
  split
  · next _ many three =>
    obtain ⟨pending, begins, top, owed, least, greatest⟩ := begins_three code (by omega) three (by omega)
    rw [List.cons_append, List.cons_append, List.singleton_append, decodeFrom_begin begins,
      decodeFrom_more least greatest (by omega), owed, top,
      decodeFrom_last (by dsimp only; omega) (by dsimp only; omega) (Nat.le_refl 1), back _ (by dsimp only; omega)]
  · next _ _ many =>
    obtain ⟨pending, begins, top, owed, least, greatest⟩ := begins_four code (by omega) (by omega)
    rw [List.cons_append, List.cons_append, List.cons_append, List.singleton_append, decodeFrom_begin begins,
      decodeFrom_more least greatest (by omega), owed, top,
      decodeFrom_more (by dsimp only; omega) (by dsimp only; omega) (by dsimp only; omega),
      decodeFrom_last (by dsimp only; omega) (by dsimp only; omega) (Nat.le_refl 1), back _ (by dsimp only; omega)]

/-- What is encoded is read back. -/
theorem decode_encode (chars : List Char) : decode (chars.flatMap encode) = chars := by
  rw [decode]
  induction chars with
  | nil => rfl
  | cons char chars ih => rw [List.flatMap_cons, decodeFrom_encode, ih]

theorem encode_ascii (ascii : char.toNat < 0x80) : encode char = [char.toNat] := by
  simp only [encode, if_pos ascii]

theorem octet_lt (member : octet ∈ encode char) : octet < 256 := by
  have valid := code_valid char
  simp only [encode] at member
  split at member
  · simp only [List.mem_singleton] at member
    omega
  split at member
  · simp only [List.mem_cons, List.not_mem_nil, or_false] at member
    omega
  split at member
  · simp only [List.mem_cons, List.not_mem_nil, or_false] at member
    omega
  · simp only [List.mem_cons, List.not_mem_nil, or_false] at member
    omega

end Text.Utf8

namespace Uri

open Text

theorem hexDigit_ascii : ∀ value < 16, (hexDigit value).toNat < 0x80 := by decide

theorem hexValue?_hexDigit : ∀ value < 16, hexValue? (hexDigit value).toNat = some value := by decide

/-- An octet is read back from its escape. -/
theorem unescape_escape {octet : Nat} (bound : octet < 256) (rest : List Nat) :
    unescape ((escape octet).flatMap Utf8.encode ++ rest) = octet :: unescape rest := by
  have high : octet / 16 < 16 := by omega
  have low : octet % 16 < 16 := Nat.mod_lt _ (by decide)
  have spelled : (escape octet).flatMap Utf8.encode =
      [37, (hexDigit (octet / 16)).toNat, (hexDigit (octet % 16)).toNat] := by
    simp only [escape, List.flatMap_cons, List.flatMap_nil, List.append_nil, Utf8.encode_ascii (hexDigit_ascii _ high),
      Utf8.encode_ascii (hexDigit_ascii _ low)]
    rfl
  have read : octet? (hexDigit (octet / 16)).toNat (hexDigit (octet % 16)).toNat = some octet := by
    rw [octet?, hexValue?_hexDigit _ high, hexValue?_hexDigit _ low]
    exact congrArg some (Nat.div_add_mod octet 16)
  rw [spelled, List.cons_append, List.cons_append, List.singleton_append, unescape, read]

theorem unescape_plain {octet : Nat} (plain : octet ≠ 37) (rest : List Nat) :
    unescape (octet :: rest) = octet :: unescape rest := by
  rw [unescape]
  rintro high low others same -
  exact plain same

theorem isPlain_cases {char : Char} (plain : isPlain char = true) :
    (('a' ≤ char ∧ char ≤ 'z') ∨ ('A' ≤ char ∧ char ≤ 'Z') ∨ ('0' ≤ char ∧ char ≤ '9')) ∨
      char ∈ ['/', '.', '-', '_', '~'] := by
  unfold isPlain Char.isAlphanum Char.isAlpha Char.isUpper Char.isLower Char.isDigit at plain
  simp only [Bool.or_eq_true, beq_iff_eq, Bool.and_eq_true, decide_eq_true_eq] at plain
  rcases plain with ((((((upper | lower) | digit) | mark) | mark) | mark) | mark) | mark
  · exact .inl (.inr (.inl upper))
  · exact .inl (.inl lower)
  · exact .inl (.inr (.inr digit))
  all_goals exact .inr (by simp [mark])

theorem isPlain_code {char : Char} (plain : isPlain char = true) : char.toNat < 0x80 ∧ char.toNat ≠ 37 := by
  rcases isPlain_cases plain with letter | mark
  · simp only [Char.le_def, UInt32.le_iff_toNat_le] at letter
    change ((97 ≤ char.toNat ∧ char.toNat ≤ 122) ∨ (65 ≤ char.toNat ∧ char.toNat ≤ 90) ∨
      (48 ≤ char.toNat ∧ char.toNat ≤ 57)) at letter
    omega
  · simp only [List.mem_cons, List.not_mem_nil, or_false] at mark
    rcases mark with rfl | rfl | rfl | rfl | rfl
    all_goals decide

/-- The octets of a character are read back from what stands for it in a uri. -/
theorem unescape_encodeChar (char : Char) (rest : List Nat) :
    unescape ((encodeChar char).flatMap Utf8.encode ++ rest) = Utf8.encode char ++ unescape rest := by
  rw [encodeChar]
  split
  · next plain =>
    obtain ⟨ascii, apart⟩ := isPlain_code plain
    rw [List.flatMap_singleton, Utf8.encode_ascii ascii, List.singleton_append, List.singleton_append, unescape_plain apart]
  · have bounds : ∀ octet ∈ Utf8.encode char, octet < 256 := fun octet member => Utf8.octet_lt member
    generalize Utf8.encode char = octets at bounds
    induction octets with
    | nil => rfl
    | cons octet octets ih =>
      obtain ⟨bound, others⟩ := List.forall_mem_cons.mp bounds
      rw [List.flatMap_cons, List.flatMap_append, List.append_assoc, unescape_escape bound, ih others, List.cons_append]

theorem unescape_ofPath (chars : List Char) :
    unescape ((chars.flatMap encodeChar).flatMap Utf8.encode) = chars.flatMap Utf8.encode := by
  induction chars with
  | nil => rfl
  | cons char chars ih => rw [List.flatMap_cons, List.flatMap_append, unescape_encodeChar, ih, List.flatMap_cons]

/-- A path is read back from its uri. -/
theorem toPath_ofPath (path : String) : toPath (ofPath path) = path := by
  have spelled : (ofPath path).toList = scheme.toList ++ path.toList.flatMap encodeChar := by
    rw [ofPath, String.toList_append, String.toList_ofList]
  have starts : scheme.toList.isPrefixOf (scheme.toList ++ path.toList.flatMap encodeChar) = true :=
    List.isPrefixOf_iff_prefix.mpr (List.prefix_append _ _)
  simp only [toPath, spelled, if_pos starts, List.drop_left, unescape_ofPath, Utf8.decode_encode, String.ofList_toList]

theorem ofPath_injective : Function.Injective ofPath := Function.LeftInverse.injective toPath_ofPath

/-- Texts of ASCII letters and digits, five marks, and escapes with two capital hexadecimal digits. -/
inductive IsEscaped : List Char → Prop where
  | nil : IsEscaped []
  | letter {char : Char} {rest : List Char}
      (isLetter : ('a' ≤ char ∧ char ≤ 'z') ∨ ('A' ≤ char ∧ char ≤ 'Z') ∨ ('0' ≤ char ∧ char ≤ '9'))
      (escaped : IsEscaped rest) : IsEscaped (char :: rest)
  | mark {char : Char} {rest : List Char} (isMark : char ∈ ['/', '.', '-', '_', '~']) (escaped : IsEscaped rest) :
      IsEscaped (char :: rest)
  | escape {high low : Char} {rest : List Char} (highDigit : high ∈ "0123456789ABCDEF".toList)
      (lowDigit : low ∈ "0123456789ABCDEF".toList) (escaped : IsEscaped rest) : IsEscaped ('%' :: high :: low :: rest)

theorem hexDigit_mem : ∀ value < 16, hexDigit value ∈ "0123456789ABCDEF".toList := by decide

theorem IsEscaped.plain {char : Char} {rest : List Char} (plain : isPlain char = true) (escaped : IsEscaped rest) :
    IsEscaped (char :: rest) := by
  rcases isPlain_cases plain with isLetter | isMark
  · exact .letter isLetter escaped
  · exact .mark isMark escaped

theorem IsEscaped.encodeChar (char : Char) {rest : List Char} (escaped : IsEscaped rest) :
    IsEscaped (encodeChar char ++ rest) := by
  rw [Uri.encodeChar]
  split
  · next plain => exact escaped.plain plain
  · have bounds : ∀ octet ∈ Utf8.encode char, octet < 256 := fun octet member => Utf8.octet_lt member
    generalize Utf8.encode char = octets at bounds
    induction octets with
    | nil => exact escaped
    | cons octet octets ih =>
      obtain ⟨bound, others⟩ := List.forall_mem_cons.mp bounds
      have high : octet / 16 < 16 := by omega
      have low : octet % 16 < 16 := Nat.mod_lt _ (by decide)
      rw [List.flatMap_cons, List.append_assoc]
      exact .escape (hexDigit_mem _ high) (hexDigit_mem _ low) (ih others)

theorem isEscaped_encode (chars : List Char) : IsEscaped (chars.flatMap Uri.encodeChar) := by
  induction chars with
  | nil => exact .nil
  | cons char chars ih =>
    rw [List.flatMap_cons]
    exact ih.encodeChar char

/-- Uris stand for paths: each one leads back to its path, no two paths share one, and behind the scheme it is spelled
with letters that need no escape and with escapes. -/
theorem ofPath_faithful :
    (∀ path, toPath (ofPath path) = path) ∧ Function.Injective ofPath ∧
      ∀ path, ∃ body, ofPath path = "file://" ++ String.ofList body ∧ IsEscaped body :=
  ⟨toPath_ofPath, ofPath_injective, fun path => ⟨path.toList.flatMap Uri.encodeChar, rfl, isEscaped_encode path.toList⟩⟩

end Uri

end SchemaDoc
