import Mathlib.Data.List.Infix
import Mathlib.Data.List.TakeDrop
import SchemaDoc.Message

/-! How a template is filled. A template reads in just one way as text with holes in between, and the reading knows
nothing of the arguments. Filling puts into the place of each hole the argument that it asks for and leaves everything
else, so neither a hole without an argument nor the letters of an argument are ever taken for anything but text. -/

namespace SchemaDoc

namespace Template

/-- A hole: a number in braces, which may have a plus sign. -/
@[ext]
structure Hole where
  plus : Bool
  digits : List Char
  written : digits ≠ []
  decimal : ∀ digit ∈ digits, digit.isDigit = true

namespace Hole

def number (hole : Hole) : List Char := if hole.plus then '+' :: hole.digits else hole.digits

def letters (hole : Hole) : List Char := '\x7b' :: (hole.number ++ ['\x7d'])

/-- The place of the argument that the hole asks for. -/
def index (hole : Hole) : Nat := Nat.ofDigitChars 10 hole.digits 0

/-- What stands for a hole in the end: its argument, letter by letter, or else the hole itself. -/
def filled (arguments : List String) (hole : Hole) : List Char :=
  match arguments[hole.index]? with
  | some argument => argument.toList
  | none => hole.letters

variable (hole : Hole)

theorem letters_append (rest : List Char) :
    hole.letters ++ rest = '\x7b' :: (hole.number ++ '\x7d' :: rest) := by simp [letters]

theorem plus_not_mem : '+' ∉ hole.digits := fun member => absurd (hole.decimal _ member) (by decide)

theorem mem_number {char : Char} (member : char ∈ hole.number) : char = '+' ∨ char.isDigit = true := by
  rw [number] at member
  split at member
  · exact (List.mem_cons.mp member).imp_right (hole.decimal char)
  · exact .inr (hole.decimal char member)

theorem no_open : '\x7b' ∉ hole.number ++ ['\x7d'] := by
  intro member
  rcases List.mem_append.mp member with inside | close
  · exact absurd (hole.mem_number inside) (by decide)
  · exact absurd (List.mem_singleton.mp close) (by decide)

/-- The first closing brace is the one that closes the hole. -/
theorem span_number (rest : List Char) :
    (hole.number ++ '\x7d' :: rest).span (· != '\x7d') = (hole.number, '\x7d' :: rest) := by
  have others : ∀ char ∈ hole.number, (char != '\x7d') = true := by
    intro char member
    rw [bne_iff_ne]
    rintro rfl
    exact absurd (hole.mem_number member) (by decide)
  rw [List.span_eq_takeWhile_dropWhile, List.takeWhile_append_of_pos others, List.dropWhile_append_of_pos others]
  simp

theorem unsigned_of_ne {text : List Char} (plain : ∀ digits, text ≠ '+' :: digits) : Message.unsigned text = text := by
  rw [Message.unsigned]
  exact plain

theorem unsigned_number : Message.unsigned hole.number = hole.digits := by
  rw [number]
  split
  · rfl
  · exact unsigned_of_ne fun digits same => hole.plus_not_mem (same ▸ List.mem_cons_self)

theorem plus_iff : hole.plus = true ↔ '+' ∈ hole.number := by
  rw [number]
  split <;> simp_all [plus_not_mem]

theorem number_injective {first second : Hole} (same : first.number = second.number) : first = second := by
  refine Hole.ext (Bool.eq_iff_iff.mpr ?_) ?_
  · rw [plus_iff, plus_iff, same]
  · rw [← first.unsigned_number, same, second.unsigned_number]

theorem letters_append_inj {first second : Hole} {rest others : List Char}
    (same : first.letters ++ rest = second.letters ++ others) : first = second ∧ rest = others := by
  rw [letters_append, letters_append] at same
  have spans := congrArg (List.span (· != '\x7d')) (List.cons.inj same).2
  rw [span_number, span_number] at spans
  obtain ⟨numbers, behind⟩ := Prod.mk.inj spans
  exact ⟨number_injective numbers, (List.cons.inj behind).2⟩

theorem digitsValue?_number : Message.digitsValue? hole.number = some hole.index := by
  obtain ⟨digit, digits, same⟩ := List.exists_cons_of_ne_nil hole.written
  have all : hole.digits.all Char.isDigit = true := List.all_eq_true.mpr hole.decimal
  rw [index, Nat.ofDigitChars_eq_foldl, Message.digitsValue?, unsigned_number]
  rw [same] at all ⊢
  simp only [all, if_true]

theorem exists_number_eq {text : List Char} (some : Message.unsigned text ≠ [])
    (decimal : ∀ digit ∈ Message.unsigned text, digit.isDigit = true) :
    ∃ hole : Hole, hole.number = text ∧ hole.digits = Message.unsigned text := by
  by_cases front : ∃ digits, text = '+' :: digits
  · obtain ⟨digits, rfl⟩ := front
    exact ⟨⟨true, digits, some, decimal⟩, rfl, rfl⟩
  · have plain := unsigned_of_ne (not_exists.mp front)
    rw [plain] at some decimal ⊢
    exact ⟨⟨false, text, some, decimal⟩, rfl, rfl⟩

theorem digitsValue?_eq_some {text : List Char} {value : Nat} (read : Message.digitsValue? text = some value) :
    ∃ hole : Hole, hole.number = text ∧ hole.index = value := by
  rw [Message.digitsValue?] at read
  split at read
  next => cases read
  next some =>
    split at read
    next all =>
      cases read
      obtain ⟨hole, number, digits⟩ := exists_number_eq some (List.all_eq_true.mp all)
      exact ⟨hole, number, by rw [index, digits, Nat.ofDigitChars_eq_foldl]⟩
    next => cases read

end Hole

def Holeless (text : List Char) : Prop := ∀ hole : Hole, ¬ hole.letters <:+: text

/-- What may follow a text without cutting a hole in two: nothing, or an opening brace. -/
def Opens (rest : List Char) : Prop := ∀ char ∈ rest.head?, char = '\x7b'

theorem holeless_nil : Holeless [] := by
  intro hole inside
  cases List.infix_nil.mp inside

theorem Holeless.cons {char : Char} {text : List Char} (holeless : Holeless text)
    (front : ∀ hole : Hole, ¬ hole.letters <+: char :: text) : Holeless (char :: text) := by
  intro hole inside
  rcases List.infix_cons_iff.mp inside with first | later
  · exact front hole first
  · exact holeless hole later

theorem opens_nil : Opens [] := nofun

theorem Hole.opens (hole : Hole) (rest : List Char) : Opens (hole.letters ++ rest) := by
  rw [hole.letters_append]
  rintro _ ⟨⟩
  rfl

/-- A hole that begins in a text ends in it, if the text is followed by nothing or by an opening brace. -/
theorem Hole.prefix_of_opens {hole : Hole} {more letters rest : List Char} (some : letters ≠ []) (opens : Opens rest)
    (same : hole.letters ++ more = letters ++ rest) : hole.letters <+: letters := by
  rcases List.append_eq_append_iff.mp same with ⟨behind, whole, _⟩ | ⟨behind, whole, later⟩
  · exact ⟨behind, whole.symm⟩
  · obtain ⟨first, others, rfl⟩ := List.exists_cons_of_ne_nil some
    cases behind with
    | nil =>
      rw [List.append_nil] at whole
      exact whole ▸ List.prefix_rfl
    | cons char behind =>
      obtain rfl : char = '\x7b' := opens char (by rw [later]; rfl)
      have inside : hole.number ++ ['\x7d'] = others ++ '\x7b' :: behind := (List.cons.inj whole).2
      exact absurd (inside ▸ List.mem_append_right others List.mem_cons_self) hole.no_open

/-- A template taken apart: text, and behind it nothing or a hole with all that follows. -/
inductive Reading where
  | last (text : List Char)
  | next (text : List Char) (hole : Hole) (behind : Reading)

namespace Reading

def letters : Reading → List Char
  | last text => text
  | next text hole behind => text ++ (hole.letters ++ behind.letters)

/-- The letters that stand there once the holes are filled. -/
def filled (arguments : List String) : Reading → List Char
  | last text => text
  | next text hole behind => text ++ (hole.filled arguments ++ behind.filled arguments)

/-- No hole is left in the text between the holes. -/
def Exhaustive : Reading → Prop
  | last text => Holeless text
  | next text _ behind => Holeless text ∧ behind.Exhaustive

/-- A reading of a template tells all of its holes. -/
structure Of (template : String) (reading : Reading) : Prop where
  letters : reading.letters = template.toList
  exhaustive : reading.Exhaustive

theorem exists_cons {reading : Reading} (exhaustive : reading.Exhaustive) {char : Char}
    (front : ∀ hole : Hole, ¬ hole.letters <+: char :: reading.letters) :
    ∃ longer : Reading, longer.letters = char :: reading.letters ∧ longer.Exhaustive := by
  cases reading with
  | last text => exact ⟨last (char :: text), rfl, exhaustive.cons front⟩
  | next text hole behind =>
    refine ⟨next (char :: text) hole behind, rfl, exhaustive.1.cons ?_, exhaustive.2⟩
    intro other first
    exact front other (List.prefix_append_of_prefix first)

theorem exists_exhaustive (text : List Char) : ∃ reading : Reading, reading.letters = text ∧ reading.Exhaustive := by
  induction size : text.length using Nat.strong_induction_on generalizing text with
  | _ size ih =>
    subst size
    cases text with
    | nil => exact ⟨last [], rfl, holeless_nil⟩
    | cons char text =>
      by_cases front : ∃ hole : Hole, hole.letters <+: char :: text
      · obtain ⟨hole, rest, same⟩ := front
        have shorter : rest.length < (char :: text).length := by
          rw [← same, List.length_append]
          exact Nat.lt_add_of_pos_left (Nat.succ_pos _)
        obtain ⟨reading, rfl, exhaustive⟩ := ih _ shorter rest rfl
        exact ⟨next [] hole reading, same, holeless_nil, exhaustive⟩
      · obtain ⟨reading, rfl, exhaustive⟩ := ih _ (Nat.lt_succ_self _) text rfl
        exact exists_cons exhaustive (not_exists.mp front)

end Reading

theorem Holeless.eq_nil_of_append {text more rest behind : List Char} {hole : Hole} (holeless : Holeless (text ++ more))
    (opens : Opens behind) (same : hole.letters ++ rest = more ++ behind) : more = [] := by
  by_contra some
  exact holeless hole ((Hole.prefix_of_opens some opens same).isInfix.trans (List.suffix_append text more).isInfix)

/-- Two texts without holes that reach up to the first hole of the same template are equal. -/
theorem Holeless.unique {first second rest behind : List Char} {hole other : Hole} (firstHoleless : Holeless first)
    (secondHoleless : Holeless second) (same : first ++ (hole.letters ++ rest) = second ++ (other.letters ++ behind)) :
    first = second := by
  rcases List.append_eq_append_iff.mp same with ⟨more, rfl, later⟩ | ⟨more, rfl, later⟩
  · rw [secondHoleless.eq_nil_of_append (other.opens behind) later, List.append_nil]
  · rw [firstHoleless.eq_nil_of_append (hole.opens rest) later, List.append_nil]

theorem Holeless.ne_append {text front behind : List Char} {hole : Hole} (holeless : Holeless text) :
    text ≠ front ++ (hole.letters ++ behind) := by
  rintro rfl
  exact holeless hole ⟨front, behind, List.append_assoc front hole.letters behind⟩

theorem Reading.Exhaustive.unique {first second : Reading} (firstExhaustive : first.Exhaustive)
    (secondExhaustive : second.Exhaustive) (same : first.letters = second.letters) : first = second := by
  induction first generalizing second with
  | last text =>
    cases second with
    | last other => exact congrArg last same
    | next other hole behind => exact absurd same firstExhaustive.ne_append
  | next text hole behind ih =>
    cases second with
    | last other => exact absurd same.symm secondExhaustive.ne_append
    | next other otherHole otherBehind =>
      obtain rfl := firstExhaustive.1.unique secondExhaustive.1 same
      obtain ⟨rfl, later⟩ := Hole.letters_append_inj (List.append_cancel_left same)
      rw [ih firstExhaustive.2 secondExhaustive.2 later]

end Template

namespace Message
open Template

theorem eq_of_span {text number rest : List Char} {close : Char}
    (spans : text.span (· != '\x7d') = (number, close :: rest)) : text = number ++ '\x7d' :: rest := by
  rw [List.span_eq_takeWhile_dropWhile] at spans
  obtain ⟨front, behind⟩ := Prod.mk.inj spans
  have stops := List.head?_dropWhile_not (· != '\x7d') text
  rw [behind] at stops
  have closes : close = '\x7d' := by simpa using stops
  have whole := List.takeWhile_append_dropWhile (p := (· != '\x7d')) (l := text)
  rw [front, behind, closes] at whole
  exact whole.symm

/-- Behind an opening brace an argument is found exactly where a hole goes on that asks for it. -/
theorem hole?_eq_some_iff {arguments : List String} {text rest : List Char} {argument : String} :
    hole? arguments text = some (argument, rest) ↔
      ∃ hole : Hole, '\x7b' :: text = hole.letters ++ rest ∧ arguments[hole.index]? = some argument := by
  constructor
  · intro found
    rw [hole?] at found
    split at found
    next => cases found
    next number close _ spans =>
      obtain ⟨index, read, found⟩ := Option.bind_eq_some_iff.mp found
      obtain ⟨_, asked, pair⟩ := Option.map_eq_some_iff.mp found
      cases pair
      obtain ⟨hole, rfl, rfl⟩ := Hole.digitsValue?_eq_some read
      refine ⟨hole, ?_, asked⟩
      rw [hole.letters_append, eq_of_span spans]
  · rintro ⟨hole, same, asked⟩
    rw [hole.letters_append] at same
    rw [(List.cons.inj same).2, hole?, hole.span_number]
    simp [hole.digitsValue?_number, asked]

theorem length_of_hole? {arguments : List String} {text rest : List Char} {argument : String}
    (found : hole? arguments text = some (argument, rest)) : rest.length < text.length := by
  obtain ⟨hole, same, _⟩ := hole?_eq_some_iff.mp found
  have lengths := congrArg List.length same
  simp only [Hole.letters, List.length_cons, List.length_append] at lengths
  omega

/-- As many steps as there are letters are enough, and more change nothing. -/
theorem fillFrom_congr (arguments : List String) {text : List Char} {first second : Nat}
    (enough : text.length ≤ first) (alsoEnough : text.length ≤ second) :
    fillFrom arguments first text = fillFrom arguments second text := by
  induction first generalizing second text with
  | zero =>
    obtain rfl := List.eq_nil_of_length_eq_zero (Nat.le_zero.mp enough)
    cases second <;> rfl
  | succ first ih =>
    cases text with
    | nil => cases second <;> rfl
    | cons char text =>
      cases second with
      | zero => cases alsoEnough
      | succ second =>
        have firstEnough := Nat.le_of_succ_le_succ enough
        have secondEnough := Nat.le_of_succ_le_succ alsoEnough
        simp only [fillFrom, ih firstEnough secondEnough]
        split
        · split
          next argument rest found =>
            have shorter := (length_of_hole? found).le
            rw [ih (shorter.trans firstEnough) (shorter.trans secondEnough)]
          next => rfl
        · rfl

def fillLetters (arguments : List String) (text : List Char) : List Char := fillFrom arguments text.length text

theorem fill_eq (template : String) (arguments : List String) :
    fill template arguments = String.ofList (fillLetters arguments template.toList) := by
  rw [fill, fillLetters, String.length_toList]

section
variable {arguments : List String}

theorem fillLetters_cons {char : Char} {text : List Char}
    (plain : ∀ (hole : Hole) rest, char :: text = hole.letters ++ rest → arguments[hole.index]? = none) :
    fillLetters arguments (char :: text) = char :: fillLetters arguments text := by
  rw [fillLetters, List.length_cons, fillFrom, fillLetters]
  split
  next opening =>
    subst opening
    split
    next argument rest found =>
      obtain ⟨hole, same, asked⟩ := hole?_eq_some_iff.mp found
      cases (plain hole rest same).symm.trans asked
    next => rfl
  next => rfl

theorem fillLetters_append {letters rest : List Char}
    (plain : ∀ tail, tail <:+ letters → tail ≠ [] → ∀ (hole : Hole) more, tail ++ rest = hole.letters ++ more →
      arguments[hole.index]? = none) :
    fillLetters arguments (letters ++ rest) = letters ++ fillLetters arguments rest := by
  induction letters with
  | nil => rfl
  | cons char letters ih =>
    have inner := ih fun tail within => plain tail (within.trans (List.suffix_cons char letters))
    have front := plain _ List.suffix_rfl (List.cons_ne_nil char letters)
    rw [List.cons_append] at front ⊢
    rw [fillLetters_cons front, inner, List.cons_append]

theorem fillLetters_of_holeless {letters rest : List Char} (holeless : Holeless letters) (opens : Opens rest) :
    fillLetters arguments (letters ++ rest) = letters ++ fillLetters arguments rest := by
  refine fillLetters_append fun tail within some hole more same => ?_
  have inside := Hole.prefix_of_opens some opens same.symm
  exact absurd (inside.isInfix.trans within.isInfix) (holeless hole)

/-- A hole is filled as a whole, and filling goes on behind it: it reads neither the argument nor the hole again. -/
theorem fillLetters_hole (hole : Hole) (rest : List Char) :
    fillLetters arguments (hole.letters ++ rest) = hole.filled arguments ++ fillLetters arguments rest := by
  rw [Hole.filled]
  split
  next argument asked =>
    have found : hole? arguments (hole.number ++ '\x7d' :: rest) = some (argument, rest) :=
      hole?_eq_some_iff.mpr ⟨hole, (hole.letters_append rest).symm, asked⟩
    rw [hole.letters_append, fillLetters, List.length_cons, fillFrom, if_pos rfl, found]
    exact congrArg (argument.toList ++ ·) (fillFrom_congr arguments (length_of_hole? found).le le_rfl)
  next missing =>
    refine fillLetters_append fun tail within some other more same => ?_
    rcases List.suffix_cons_iff.mp within with rfl | later
    · rwa [← (Hole.letters_append_inj same).1]
    · obtain ⟨first, others, rfl⟩ := List.exists_cons_of_ne_nil some
      rw [other.letters_append] at same
      obtain rfl : first = '\x7b' := (List.cons.inj same).1
      exact absurd (later.subset List.mem_cons_self) hole.no_open

/-- Filling a template fills its reading, hole by hole. -/
theorem fillLetters_reading {reading : Reading} (exhaustive : reading.Exhaustive) :
    fillLetters arguments reading.letters = reading.filled arguments := by
  induction reading with
  | last text =>
    have filled : fillLetters arguments (text ++ []) = text ++ [] := fillLetters_of_holeless exhaustive opens_nil
    rwa [List.append_nil] at filled
  | next text hole behind ih =>
    rw [Reading.letters, fillLetters_of_holeless exhaustive.1 (hole.opens _), fillLetters_hole, ih exhaustive.2,
      Reading.filled]

end

/-- The text of a message is its template with all holes filled at once: the template has exactly one reading, and
whatever the arguments are, each hole of it that has an argument gives way to it while the rest stays. -/
theorem render_simultaneous (message : Message) :
    ∃ reading : Reading, (∀ other : Reading, other.Of message.template ↔ other = reading) ∧
      ∀ arguments, message.render arguments = String.ofList (reading.filled arguments) := by
  obtain ⟨reading, letters, exhaustive⟩ := Reading.exists_exhaustive message.template.toList
  refine ⟨reading, fun other => ⟨?_, ?_⟩, fun arguments => ?_⟩
  · intro also
    exact also.exhaustive.unique exhaustive (also.letters.trans letters.symm)
  · rintro rfl
    exact ⟨letters, exhaustive⟩
  · rw [render, fill_eq, ← letters, fillLetters_reading exhaustive]

/-- An argument that looks like a hole is written as it stands, and a hole without an argument stays. -/
example : unmatchedInjection.render ["\"{1}\""] = "Unmatched injection: cannot inject {1} into \"{1}\"" := by decide

end Message

end SchemaDoc
