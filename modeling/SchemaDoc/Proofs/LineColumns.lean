import Mathlib.Data.Prod.Lex
import Mathlib.Order.Lattice.Nat
import SchemaDoc.Text.LineIndex

/-! Lines and columns are exact. The starts of lines are zero and the places behind the newline octets, in order,
since no other character has such an octet; halving finds the last of them that is not behind an offset. So the line
of an offset counts the newlines in front of it, and its column the octets behind the last one of these. -/

namespace SchemaDoc

def newlineOctet : UInt8 := 10

theorem newlineOctet_eq {value : Nat} (same : newlineOctet = UInt8.ofNat value) : value % 256 = 10 := by
  have octets := congrArg UInt8.toNat same
  simpa [newlineOctet] using octets.symm

theorem newlineOctet_ne {value : Nat} (low : 128 ≤ value) (high : value < 256) : newlineOctet ≠ UInt8.ofNat value := by
  intro same
  have octet := newlineOctet_eq same
  omega

/-- The octet of a newline stands in no other character: in the longer forms every octet is at least 128. -/
theorem eq_newline_of_mem {char : Char} (member : newlineOctet ∈ String.utf8EncodeChar char) : char = '\n' := by
  have code : char.val.toNat = 10 := by
    rw [String.utf8EncodeChar.eq_1] at member
    split at member
    next ascii =>
      have octet := newlineOctet_eq (List.mem_singleton.mp member)
      omega
    next =>
      exfalso
      simp only [apply_ite (newlineOctet ∈ ·), List.mem_cons, List.not_mem_nil, or_false] at member
      split at member
      next => rcases member with same | same <;> exact newlineOctet_ne (by omega) (by omega) same
      split at member
      next => rcases member with same | same | same <;> exact newlineOctet_ne (by omega) (by omega) same
      next => rcases member with same | same | same | same <;> exact newlineOctet_ne (by omega) (by omega) same
  exact Char.ext (UInt32.toNat_inj.mp code)

def octets (text : String) : List UInt8 := text.toByteArray.data.toList

theorem octets_eq (text : String) : octets text = text.toList.flatMap String.utf8EncodeChar := by
  rw [octets, ← String.utf8Encode_toList, List.utf8Encode]
  simp

theorem length_octets (text : String) : (octets text).length = text.utf8ByteSize := rfl

namespace LineIndex

theorem newlineEnds_eq (found : List Nat) (offset : Nat) (chars : List Char) :
    newlineEnds found offset chars =
      ((chars.flatMap String.utf8EncodeChar).idxsOf newlineOctet offset |>.map (· + 1)).reverse ++ found := by
  induction chars generalizing found offset with
  | nil => rfl
  | cons char chars ih =>
    rw [newlineEnds, ih, List.flatMap_cons, List.idxsOf_append, String.length_utf8EncodeChar]
    split
    next newline =>
      subst newline
      have alone : (String.utf8EncodeChar '\n').idxsOf newlineOctet offset = [offset] := rfl
      simp [alone, Char.utf8Size]
    next other =>
      have none : (String.utf8EncodeChar char).idxsOf newlineOctet offset = [] := by
        rw [List.idxsOf_eq_nil_iff]
        intro octet member
        refine beq_eq_false_iff_ne.mpr ?_
        rintro rfl
        exact other (eq_newline_of_mem member)
      simp [none]

theorem starts_ofText (text : String) :
    (ofText text).starts.toList = 0 :: ((octets text).idxsOf newlineOctet).map (· + 1) := by
  rw [octets_eq]
  simp [ofText, newlineEnds_eq]

/-- The place behind the last newline among octets, or their start. -/
def behindNewline (octets : List UInt8) : Nat := ((octets.idxsOf newlineOctet).getLast?.map (· + 1)).getD 0

theorem behindNewline_le (octets : List UInt8) : behindNewline octets ≤ octets.length := by
  rw [behindNewline]
  cases last : (octets.idxsOf newlineOctet).getLast? with
  | none => exact Nat.zero_le _
  | some place => exact List.lt_add_of_mem_idxsOf place (List.mem_of_getLast? last)

/-- Cut a text at an offset. In front of it begin as many lines as there are newlines and one more, the last of them
behind the last newline; all others begin behind the offset. -/
theorem starts_split {text : String} {offset : Nat} (inside : offset ≤ text.utf8ByteSize) :
    ∃ first later, (ofText text).starts.toList = first ++ later ∧
      first.length = ((octets text).take offset).count newlineOctet + 1 ∧
      first.getLast? = some (behindNewline ((octets text).take offset)) ∧ ∀ start ∈ later, offset < start := by
  have length : ((octets text).take offset).length = offset := by
    rw [List.length_take, length_octets]
    omega
  refine ⟨0 :: (((octets text).take offset).idxsOf newlineOctet).map (· + 1),
    (((octets text).drop offset).idxsOf newlineOctet offset).map (· + 1), ?_, ?_, ?_, ?_⟩
  · rw [starts_ofText]
    conv => lhs; rw [← List.take_append_drop offset (octets text)]
    rw [List.idxsOf_append, List.map_append, length, Nat.zero_add, List.cons_append]
  · rw [List.length_cons, List.length_map, List.length_idxsOf]
  · rw [List.getLast?_cons, List.getLast?_map, behindNewline]
  · intro start member
    obtain ⟨place, among, rfl⟩ := List.mem_map.mp member
    have bound := List.ge_of_mem_idxsOf place among
    omega

theorem ascending_starts (text : String) : (ofText text).starts.toList.Pairwise (· < ·) := by
  rw [starts_ofText, List.pairwise_cons]
  constructor
  · intro start member
    obtain ⟨place, _, rfl⟩ := List.mem_map.mp member
    exact Nat.succ_pos place
  · rw [List.pairwise_map]
    exact List.pairwise_idxsOf.imp fun before => Nat.succ_lt_succ before

/-- The last line that does not start behind the offset. -/
structure IsLine (starts : Array Nat) (offset line : Nat) : Prop where
  begun : ∃ inside : line < starts.size, starts[line] ≤ offset
  last : ∀ later, line < later → ∀ inside : later < starts.size, offset < starts[later]

theorem IsLine.unique {starts : Array Nat} {offset line other : Nat} (isLine : IsLine starts offset line)
    (also : IsLine starts offset other) : line = other := by
  obtain ⟨inside, begun⟩ := isLine.begun
  obtain ⟨inside', begun'⟩ := also.begun
  rcases Nat.lt_trichotomy line other with before | same | behind
  · have after := isLine.last other before inside'
    omega
  · exact same
  · have after := also.last line behind inside
    omega

/-- Halving keeps the line between the first of those that are left and the ones that start behind the offset. -/
theorem isLine_narrow {starts : Array Nat} {offset first count : Nat}
    (ascending : starts.toList.Pairwise (· < ·)) (some : 0 < count) (inside : first + count ≤ starts.size)
    (begun : starts[first] ≤ offset)
    (last : ∀ later, first + count ≤ later → ∀ inside : later < starts.size, offset < starts[later]) :
    IsLine starts offset (narrow starts offset first count inside) := by
  fun_induction narrow starts offset first count inside with
  | case1 first count inside small => exact ⟨⟨by omega, begun⟩, fun later behind => last later (by omega)⟩
  | case2 first count inside more lower ih => exact ih (by omega) lower fun later behind => last later (by omega)
  | case3 first count inside more upper ih =>
    refine ih (by omega) begun fun later behind within => ?_
    have middle : first + count / 2 < starts.size := by omega
    have order : starts[first + count / 2] ≤ starts[later] := by
      rcases Nat.eq_or_lt_of_le (show first + count / 2 ≤ later by omega) with same | before
      · simp only [same, le_refl]
      · exact Nat.le_of_lt (List.pairwise_iff_getElem.mp ascending _ _ middle within before)
    omega

/-- The search finds the line that is begun, or the place behind it: never the place in front of the first line. -/
theorem search_of_isLine {starts : Array Nat} {offset line : Nat} (ascending : starts.toList.Pairwise (· < ·))
    (isLine : IsLine starts offset line) (first : ∃ some : 0 < starts.size, starts[0] ≤ offset) :
    search starts offset = .ok line ∨ search starts offset = .error (line + 1) := by
  obtain ⟨some, begun⟩ := first
  have found : narrow starts offset 0 starts.size (by omega) = line :=
    (isLine_narrow ascending some _ begun fun later behind inside => by omega).unique isLine
  obtain ⟨inside, below⟩ := isLine.begun
  rw [search]
  simp only [found, dif_pos inside]
  split
  next => exact .inl rfl
  next apart =>
    rw [if_pos (by omega)]
    exact .inr rfl

/-- The line of an offset is the one of as many newlines as stand in front of it, and it begins behind the last
of these. -/
theorem isLine_count {text : String} {offset : Nat} (inside : offset ≤ text.utf8ByteSize) :
    IsLine (ofText text).starts offset (((octets text).take offset).count newlineOctet) ∧
      (ofText text).starts[((octets text).take offset).count newlineOctet]? =
        some (behindNewline ((octets text).take offset)) := by
  obtain ⟨first, later, starts, many, last, behind⟩ := starts_split inside
  have place : ∀ line : Nat, (ofText text).starts[line]? = (first ++ later)[line]? := by
    intro line
    rw [← Array.getElem?_toList, starts]
  have found : (ofText text).starts[((octets text).take offset).count newlineOctet]? =
      some (behindNewline ((octets text).take offset)) := by
    rw [place, List.getElem?_append_left (by omega), ← last, List.getLast?_eq_getElem?, many]
    rfl
  obtain ⟨within, start⟩ := Array.getElem?_eq_some_iff.mp found
  refine ⟨⟨⟨within, ?_⟩, fun line beyond among => behind _ ?_⟩, found⟩
  · rw [start]
    exact Nat.le_trans (behindNewline_le _) (List.length_take_le offset _)
  · have located := place line
    rw [Array.getElem?_eq_getElem among, List.getElem?_append_right (by omega)] at located
    exact List.mem_of_getElem? located.symm

theorem lineAt_eq {text : String} {offset : Nat} (inside : offset ≤ text.utf8ByteSize) :
    (ofText text).lineAt offset = ((octets text).take offset).count newlineOctet ∧
      search (ofText text).starts offset ≠ .error 0 := by
  have begins : ∃ some : 0 < (ofText text).starts.size, (ofText text).starts[0] ≤ offset := by
    have first : (ofText text).starts[0]? = some 0 := by rw [← Array.getElem?_toList, starts_ofText]; rfl
    obtain ⟨some, zero⟩ := Array.getElem?_eq_some_iff.mp first
    exact ⟨some, zero.symm ▸ Nat.zero_le offset⟩
  rw [lineAt]
  rcases search_of_isLine (ascending_starts text) (isLine_count inside).1 begins with found | found
  · rw [found]
    exact ⟨rfl, nofun⟩
  · rw [found]
    exact ⟨rfl, fun same => absurd (Except.error.inj same) (Nat.succ_ne_zero _)⟩

theorem behindNewline_take_le (text : String) (offset : Nat) : behindNewline ((octets text).take offset) ≤ offset :=
  Nat.le_trans (behindNewline_le _) (List.length_take_le offset _)

/-- In a text that is short enough the words do not start over. -/
theorem lineColumn_eq {text : String} (short : text.utf8ByteSize < 2 ^ 32 - 1) {offset place : Nat}
    (clamped : place = min offset text.utf8ByteSize) :
    (ofText text).lineColumn offset =
      (1 + ((octets text).take place).count newlineOctet, 1 + (place - behindNewline ((octets text).take place))) := by
  have inside : place ≤ text.utf8ByteSize := clamped ▸ Nat.min_le_right _ _
  have size : (ofText text).size = text.utf8ByteSize := rfl
  have word : wordBound 32 = 2 ^ 32 := rfl
  have lines : ((octets text).take place).count newlineOctet ≤ place :=
    Nat.le_trans List.count_le_length (List.length_take_le place _)
  rw [lineColumn, size, ← clamped]
  simp only [(lineAt_eq inside).1, Array.getD_eq_getD_getElem?, (isLine_count inside).2, Option.getD_some, word]
  rw [Nat.mod_eq_of_lt (by omega), Nat.mod_eq_of_lt (by omega)]
  simp only [Nat.add_comm 1]

/-- Offsets in one line have the same place behind the last newline. -/
theorem behindNewline_of_count {text : String} {offset other : Nat} (inside : offset ≤ text.utf8ByteSize)
    (also : other ≤ text.utf8ByteSize)
    (same : ((octets text).take offset).count newlineOctet = ((octets text).take other).count newlineOctet) :
    behindNewline ((octets text).take offset) = behindNewline ((octets text).take other) := by
  have here := (isLine_count inside).2
  rw [same] at here
  exact Option.some.inj (here.symm.trans (isLine_count also).2)

/-- Lines and columns are exact. The line counts the newlines in front of an offset, and the column the octets behind
the last one of them; the search never asks for a line in front of the first, and the line that it finds is one of
the index, which does not begin behind the offset. Pairs grow with the offset, and two offsets of the text have two
pairs. -/
theorem lineColumn_exact (text : String) (short : text.utf8ByteSize < 2 ^ 32 - 1) :
    (∀ offset place, place = min offset text.utf8ByteSize →
      (ofText text).lineColumn offset =
        (1 + ((octets text).take place).count newlineOctet,
          1 + (place - behindNewline ((octets text).take place))) ∧
      search (ofText text).starts place ≠ .error 0 ∧
      (ofText text).starts[(ofText text).lineAt place]? = some (behindNewline ((octets text).take place)) ∧
      behindNewline ((octets text).take place) ≤ place) ∧
    (∀ offset other, offset ≤ other → toLex ((ofText text).lineColumn offset) ≤ toLex ((ofText text).lineColumn other)) ∧
    (∀ offset other, offset ≤ text.utf8ByteSize → other ≤ text.utf8ByteSize →
      (ofText text).lineColumn offset = (ofText text).lineColumn other → offset = other) := by
  refine ⟨fun offset place clamped => ?_, fun offset other before => ?_, fun offset other inside also same => ?_⟩
  · have inside : place ≤ text.utf8ByteSize := clamped ▸ Nat.min_le_right _ _
    obtain ⟨line, started⟩ := lineAt_eq inside
    refine ⟨lineColumn_eq short clamped, started, ?_, behindNewline_take_le text place⟩
    rw [line]
    exact (isLine_count inside).2
  · have ordered : min offset text.utf8ByteSize ≤ min other text.utf8ByteSize := by omega
    have lines := ((octets text).take_sublist_take_left ordered).count_le newlineOctet
    rw [lineColumn_eq short rfl, lineColumn_eq short rfl, Prod.Lex.toLex_le_toLex]
    rcases Nat.lt_or_eq_of_le lines with further | same
    · exact .inl (Nat.add_lt_add_left further 1)
    · have start := behindNewline_of_count (Nat.min_le_right _ _) (Nat.min_le_right _ _) same
      refine .inr ⟨congrArg (1 + ·) same, ?_⟩
      simp only [start]
      omega
  · rw [lineColumn_eq short rfl, lineColumn_eq short rfl, Nat.min_eq_left inside, Nat.min_eq_left also] at same
    obtain ⟨lines, columns⟩ := Prod.mk.inj same
    have start := behindNewline_of_count inside also (Nat.add_left_cancel lines)
    have lower := behindNewline_take_le text offset
    have lower' := behindNewline_take_le text other
    omega

/-- A text with an empty line and a letter of two octets in front of its end. -/
theorem lineColumn_exact_empty_line :
    "a\n\né".utf8ByteSize < 2 ^ 32 - 1 ∧ (ofText "a\n\né").lineColumn 2 = (2, 1) ∧
    (ofText "a\n\né").lineColumn 3 = (3, 1) ∧ (ofText "a\n\né").lineColumn 1000 = (3, 3) ∧
    toLex ((ofText "a\n\né").lineColumn 2) ≤ toLex ((ofText "a\n\né").lineColumn 3) ∧
    (ofText "a\n\né").lineColumn 1 ≠ (ofText "a\n\né").lineColumn 2 := by
  have short : "a\n\né".utf8ByteSize < 2 ^ 32 - 1 := by decide
  obtain ⟨exact, grows, apart⟩ := lineColumn_exact "a\n\né" short
  refine ⟨short, (exact 2 2 (by decide)).1.trans (by decide), (exact 3 3 (by decide)).1.trans (by decide),
    (exact 1000 5 (by decide)).1.trans (by decide), grows 2 3 (by decide), fun same => ?_⟩
  exact absurd (apart 1 2 (by decide) (by decide) same) (by decide)

end LineIndex

end SchemaDoc
