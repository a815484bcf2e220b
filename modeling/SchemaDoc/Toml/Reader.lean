import SchemaDoc.Number.Word
import SchemaDoc.Toml.Value

/-!
Reading TOML: comments, headers, dotted keys, the four kinds of strings, integers in four bases,
floating point numbers, booleans, dates, arrays and inline tables. A document is either read as a
whole or refused.
-/

namespace SchemaDoc.Toml

/-- What a piece of text was read as, and the text behind it. -/
abbrev Read (α : Type) := Option (α × List Char)

def isSpace (char : Char) : Bool := char == ' ' || char == '\t'

def skipSpace (text : List Char) : List Char := text.dropWhile isSpace

/-- A character that may not stand in a text or comment as it is. -/
def isControl (char : Char) : Bool :=
  (decide (char.toNat < 32) && char != '\t') || char.toNat == 127

/-- The text behind a newline, if one stands here. -/
def newline? : List Char → Option (List Char)
  | '\n' :: rest => some rest
  | '\r' :: '\n' :: rest => some rest
  | _ => none

/-- The text behind a comment; there need not be one. -/
def skipComment? (text : List Char) : Option (List Char) :=
  match text with
  | '#' :: rest =>
    let (comment, rest) := rest.span fun char => char != '\n' && char != '\r'
    if comment.any isControl then none else some rest
  | _ => some text

/-- The end of a line: blanks, a comment, and a newline or the end of the text. -/
def endLine? (text : List Char) : Option (List Char) :=
  (skipComment? (skipSpace text)).bind fun rest =>
    if rest.isEmpty then some [] else newline? rest

/-- Skip blanks, newlines and comments. -/
def skipLines : Nat → List Char → Option (List Char)
  | 0, text => some text
  | fuel + 1, text =>
    (skipComment? (skipSpace text)).bind fun rest =>
      match newline? rest with
      | some next => skipLines fuel next
      | none => some rest

def hexValue? (char : Char) : Option Nat :=
  if char.isDigit then some (char.toNat - 48)
  else if 'a' ≤ char ∧ char ≤ 'f' then some (char.toNat - 87)
  else if 'A' ≤ char ∧ char ≤ 'F' then some (char.toNat - 55)
  else none

/-- The number that digits of a base write, without any underscore. -/
def baseValue? (base : Nat) : List Char → Nat → Option Nat
  | [], value => some value
  | char :: rest, value =>
    (hexValue? char).bind fun digit =>
      if digit < base then baseValue? base rest (base * value + digit) else none

/-- The character of a code written with `count` hexadecimal digits. -/
def codeChar? (count : Nat) (text : List Char) : Read Char :=
  let digits := text.take count
  if digits.length = count then
    (baseValue? 16 digits 0).bind fun code =>
      if code < 0xD800 ∨ (0xE000 ≤ code ∧ code < 0x110000) then
        some (Char.ofNat code, text.drop count)
      else none
  else none

/-- The character behind a backslash. -/
def escape? : List Char → Read Char
  | 'b' :: rest => some (Char.ofNat 8, rest)
  | 't' :: rest => some ('\t', rest)
  | 'n' :: rest => some ('\n', rest)
  | 'f' :: rest => some (Char.ofNat 12, rest)
  | 'r' :: rest => some ('\r', rest)
  | '"' :: rest => some ('"', rest)
  | '\\' :: rest => some ('\\', rest)
  | 'u' :: rest => codeChar? 4 rest
  | 'U' :: rest => codeChar? 8 rest
  | _ => none

/-- The inside of a basic string up to its closing quote; `value` is read so far, last first. -/
def basic? : Nat → List Char → List Char → Read String
  | 0, _, _ => none
  | fuel + 1, value, text =>
    match text with
    | [] => none
    | '"' :: rest => some (String.ofList value.reverse, rest)
    | '\\' :: rest => (escape? rest).bind fun (char, next) => basic? fuel (char :: value) next
    | char :: rest => if isControl char then none else basic? fuel (char :: value) rest

/-- The inside of a literal string up to its closing quote. -/
def literal? (text : List Char) : Read String :=
  match text.span (· != '\'') with
  | (value, _ :: rest) => if value.any isControl then none else some (String.ofList value, rest)
  | (_, []) => none

/-- The text behind a newline that directly follows three quotes. -/
def dropNewline (text : List Char) : List Char := (newline? text).getD text

/-- The end of a string of several lines: three quotes, before which up to two more belong to the
text. -/
def closing? (quote : Char) (value text : List Char) : Read String :=
  let quotes := text.takeWhile (· == quote)
  let inner := min (quotes.length - 3) 2
  some (String.ofList (value.reverse ++ List.replicate inner quote), text.drop (inner + 3))

/-- Skip blanks and newlines behind a backslash that ends a line. -/
def joinLines : List Char → List Char
  | [] => []
  | '\n' :: rest => joinLines rest
  | '\r' :: '\n' :: rest => joinLines rest
  | char :: rest => if isSpace char then joinLines rest else char :: rest

/-- The inside of a basic string of several lines. -/
def longBasic? : Nat → List Char → List Char → Read String
  | 0, _, _ => none
  | fuel + 1, value, text =>
    match text with
    | [] => none
    | '"' :: '"' :: '"' :: _ => closing? '"' value text
    | '\\' :: rest =>
      if (newline? (skipSpace rest)).isSome then longBasic? fuel value (joinLines rest)
      else (escape? rest).bind fun (char, next) => longBasic? fuel (char :: value) next
    | '\r' :: '\n' :: rest => longBasic? fuel ('\n' :: value) rest
    | char :: rest =>
      if isControl char && char != '\n' then none else longBasic? fuel (char :: value) rest

/-- The inside of a literal string of several lines. -/
def longLiteral? : Nat → List Char → List Char → Read String
  | 0, _, _ => none
  | fuel + 1, value, text =>
    match text with
    | [] => none
    | '\'' :: '\'' :: '\'' :: _ => closing? '\'' value text
    | '\r' :: '\n' :: rest => longLiteral? fuel ('\n' :: value) rest
    | char :: rest =>
      if isControl char && char != '\n' then none else longLiteral? fuel (char :: value) rest

/-- A string of any kind. -/
def string? (text : List Char) : Read String :=
  match text with
  | '"' :: '"' :: '"' :: rest => longBasic? (rest.length + 1) [] (dropNewline rest)
  | '"' :: rest => basic? (rest.length + 1) [] rest
  | '\'' :: '\'' :: '\'' :: rest => longLiteral? (rest.length + 1) [] (dropNewline rest)
  | '\'' :: rest => literal? rest
  | _ => none

def isBareKey (char : Char) : Bool := char.isAlphanum || char == '_' || char == '-'

/-- One part of a dotted key. -/
def keyPart? (text : List Char) : Read String :=
  match text with
  | '"' :: rest => basic? (rest.length + 1) [] rest
  | '\'' :: rest => literal? rest
  | _ =>
    match text.span isBareKey with
    | ([], _) => none
    | (key, rest) => some (String.ofList key, rest)

/-- A dotted key of at most so many parts. -/
def keyWithin? : Nat → List Char → Read (List String)
  | 0, _ => none
  | count + 1, text =>
    (keyPart? (skipSpace text)).bind fun (part, rest) =>
      match skipSpace rest with
      | '.' :: more => (keyWithin? count more).map fun (parts, next) => (part :: parts, next)
      | next => some ([part], next)

/-- How many parts a key may have, and how many arrays and inline tables may stand in each other. -/
def deepest : Nat := 79

/-- A dotted key. -/
def key? (text : List Char) : Read (List String) := keyWithin? deepest text

/-- Digits with single underscores between them, taken out. -/
def digits? (isDigit : Char → Bool) : List Char → Option (List Char)
  | [] => none
  | [char] => if isDigit char then some [char] else none
  | char :: '_' :: rest =>
    if isDigit char then (digits? isDigit rest).map (char :: ·) else none
  | char :: rest => if isDigit char then (digits? isDigit rest).map (char :: ·) else none

/-- Decimal digits without a zero in front of others. -/
def decimal? (text : List Char) : Option (List Char) :=
  (digits? Char.isDigit text).bind fun digits =>
    if digits.head? = some '0' ∧ digits.length ≠ 1 then none else some digits

/-- An integer of 64 bits. -/
def bounded? (value : Int) : Option Value :=
  let bound := Int.ofNat (wordBound 63)
  if -bound ≤ value ∧ value < bound then some (.int value) else none

def based? (base : Nat) (text : List Char) : Option Value :=
  (digits? (fun char => (hexValue? char).isSome) text).bind fun digits =>
    (baseValue? base digits 0).bind fun value => bounded? (Int.ofNat value)

def integer? (text : List Char) : Option Value :=
  let signed (negative : Bool) (digits : List Char) : Option Value :=
    (decimal? digits).bind fun digits =>
      (baseValue? 10 digits 0).bind fun value =>
        bounded? (if negative then -Int.ofNat value else Int.ofNat value)
  match text with
  | '0' :: 'x' :: rest => based? 16 rest
  | '0' :: 'o' :: rest => based? 8 rest
  | '0' :: 'b' :: rest => based? 2 rest
  | '+' :: rest => signed false rest
  | '-' :: rest => signed true rest
  | _ => signed false text

def unsigned : List Char → List Char
  | '+' :: rest => rest
  | '-' :: rest => rest
  | text => text

/-- The exponent of a floating point number, behind its letter. -/
def exponent? (text : List Char) : Option Int :=
  (digits? Char.isDigit (unsigned text)).bind fun digits =>
    (baseValue? 10 digits 0).map fun value =>
      if text.head? = some '-' then -Int.ofNat value else Int.ofNat value

/-- A number with a fraction, an exponent, or both, behind its sign. -/
def fractional? (negative : Bool) (text : List Char) : Option Binary64 := do
  let (mantissa, exponent) := text.span fun char => char != 'e' && char != 'E'
  let (whole, fraction) := mantissa.span (· != '.')
  if fraction.isEmpty && exponent.isEmpty then none
  else
    let whole ← decimal? whole
    let places ← if fraction.isEmpty then some [] else digits? Char.isDigit (fraction.drop 1)
    let power ← if exponent.isEmpty then some 0 else exponent? (exponent.drop 1)
    let value ← baseValue? 10 (whole ++ places) 0
    return .ofDecimal negative value (power - Int.ofNat places.length)

/-- A floating point number: digits, or the name of a value that has none. Digits may not write a
number that is too large. -/
def float? (text : List Char) : Option Binary64 :=
  let negative := text.head? == some '-'
  let body := unsigned text
  if body = ['i', 'n', 'f'] then some (.infinity negative)
  else if body = ['n', 'a', 'n'] then some .notNumber
  else (fractional? negative body).filter fun value => value != .infinity false

/-- A number of exactly `count` decimal digits, not above `most`. -/
def fixed? (count most : Nat) (text : List Char) : Read Nat :=
  let digits := text.take count
  if digits.length = count ∧ digits.all Char.isDigit then
    (baseValue? 10 digits 0).bind fun value =>
      if value ≤ most then some (value, text.drop count) else none
  else none

/-- The text behind a mark that must come next. -/
def mark? (mark : Char) : List Char → Option (List Char)
  | [] => none
  | char :: rest => if char = mark then some rest else none

/-- The days of a month. -/
def daysOf (year month : Nat) : Nat :=
  if month = 2 then if year % 4 = 0 ∧ (year % 100 ≠ 0 ∨ year % 400 = 0) then 29 else 28
  else if month = 4 ∨ month = 6 ∨ month = 9 ∨ month = 11 then 30
  else 31

/-- The text behind a day of the calendar. -/
def day? (text : List Char) : Option (List Char) := do
  let (year, text) ← fixed? 4 9999 text
  let (month, text) ← fixed? 2 12 (← mark? '-' text)
  let (day, text) ← fixed? 2 (daysOf year month) (← mark? '-' text)
  if month = 0 ∨ day = 0 then none else some text

/-- The text behind a fraction of a second; there need not be one. -/
def fraction? (text : List Char) : Option (List Char) :=
  match text with
  | '.' :: rest =>
    if rest.head?.any Char.isDigit then some (rest.dropWhile Char.isDigit) else none
  | _ => some text

/-- The text behind a time of the day. -/
def time? (text : List Char) : Option (List Char) := do
  let (_, text) ← fixed? 2 23 text
  let (_, text) ← fixed? 2 59 (← mark? ':' text)
  let (_, text) ← fixed? 2 60 (← mark? ':' text)
  fraction? text

/-- The text behind the distance of a time zone. -/
def zone? : List Char → Option (List Char)
  | [] => none
  | char :: rest =>
    if char = 'Z' ∨ char = 'z' then some rest
    else if char = '+' ∨ char = '-' then do
      let (_, rest) ← fixed? 2 23 rest
      let (_, rest) ← fixed? 2 59 (← mark? ':' rest)
      return rest
    else none

/-- The text behind a time that follows a day; there need not be one. -/
def timeOfDay (text : List Char) : List Char :=
  match text with
  | char :: rest =>
    if char = 'T' ∨ char = 't' ∨ char = ' ' then
      match time? rest with
      | some next => (zone? next).getD next
      | none => text
    else text
  | [] => []

/-- A day, a time, or both. -/
def date? (text : List Char) : Read Value :=
  let behind := ((day? text).map timeOfDay) <|> time? text
  behind.map fun rest => (.date (String.ofList (text.take (text.length - rest.length))), rest)

def isScalarChar (char : Char) : Bool :=
  char.isAlphanum || char == '_' || char == '-' || char == '+' || char == '.'

/-- A value that is one word. -/
def word? (text : List Char) : Read Value :=
  let (word, rest) := text.span isScalarChar
  let value :=
    if word = ['t', 'r', 'u', 'e'] then some (.bool true)
    else if word = ['f', 'a', 'l', 's', 'e'] then some (.bool false)
    else integer? word <|> (float? word).map Value.float
  value.map fun value => (value, rest)

/-- A value without brackets or quotes. -/
def scalar? (text : List Char) : Read Value := date? text <|> word? text

mutual

/-- A value in which at most `room` arrays and inline tables stand in each other. -/
def value? : Nat → Nat → List Char → Read Value
  | 0, _, _ => none
  | fuel + 1, room, text =>
    match text, room with
    | '"' :: _, _ | '\'' :: _, _ => (string? text).map fun (value, rest) => (.text value, rest)
    | '[' :: rest, room + 1 =>
      (items? fuel room rest).map fun (items, rest) => (.array items, rest)
    | '\x7b' :: rest, room + 1 => inlineTable? fuel room (skipSpace rest)
    | _, _ => scalar? text

/-- The items of an array up to its closing bracket. -/
def items? : Nat → Nat → List Char → Read (List Value)
  | 0, _, _ => none
  | fuel + 1, room, text =>
    (skipLines text.length text).bind fun text =>
      match text with
      | ']' :: rest => some ([], rest)
      | _ =>
        (value? fuel room text).bind fun (item, rest) =>
          (skipLines rest.length rest).bind fun rest =>
            match rest with
            | ',' :: rest =>
              (items? fuel room rest).map fun (items, rest) => (item :: items, rest)
            | ']' :: rest => some ([item], rest)
            | _ => none

/-- An inline table behind its opening brace. -/
def inlineTable? : Nat → Nat → List Char → Read Value
  | 0, _, _ => none
  | fuel + 1, room, text =>
    match text with
    | '\x7d' :: rest => some (.table .inline [], rest)
    | _ => (pairs? fuel room [] text).map fun (entries, rest) => (.table .inline entries, rest)

/-- The pairs of an inline table up to its closing brace. -/
def pairs? : Nat → Nat → Entries → List Char → Read Entries
  | 0, _, _, _ => none
  | fuel + 1, room, entries, text =>
    (key? text).bind fun (key, rest) =>
      match rest with
      | '=' :: rest =>
        (value? fuel room (skipSpace rest)).bind fun (value, rest) =>
          (entries.set? value key).bind fun entries =>
            match skipSpace rest with
            | ',' :: rest => pairs? fuel room entries rest
            | '\x7d' :: rest => some (entries, rest)
            | _ => none
      | _ => none

end

/-- A document being read: its entries so far and the table that keys go to. -/
structure Draft where
  entries : Entries := []
  current : List String := []

/-- A header in single or double brackets, with the line it ends. -/
def header? (text : List Char) : Read (Bool × List String) :=
  let (isDouble, inner) := match text with
    | '[' :: rest => (true, rest)
    | _ => (false, text)
  (key? inner).bind fun (key, rest) =>
    let closed := match isDouble, rest with
      | true, ']' :: ']' :: rest => some rest
      | false, ']' :: rest => some rest
      | _, _ => none
    closed.bind fun rest => (endLine? rest).map fun rest => ((isDouble, key), rest)

/-- A key with its value, with the line they end. -/
def assignment? (text : List Char) : Read (List String × Value) :=
  (key? text).bind fun (key, rest) =>
    match rest with
    | '=' :: rest =>
      (value? (2 * rest.length + 2) deepest (skipSpace rest)).bind fun (value, rest) =>
        (endLine? rest).map fun rest => ((key, value), rest)
    | _ => none

/-- The lines of a document, one header or assignment at a time. -/
def lines? : Nat → Draft → List Char → Option Entries
  | 0, draft, _ => some draft.entries
  | fuel + 1, draft, text =>
    (skipLines text.length text).bind fun text =>
      match text with
      | [] => some draft.entries
      | '[' :: rest =>
        (header? rest).bind fun ((isDouble, path), rest) =>
          let opened := if isDouble then draft.entries.push? path else draft.entries.open? path
          opened.bind fun entries => lines? fuel ⟨entries, path⟩ rest
      | _ =>
        (assignment? text).bind fun ((key, value), rest) =>
          (draft.entries.atHeader? (fun table => table.set? value key) draft.current).bind
            fun entries => lines? fuel { draft with entries } rest

/-- Read a document. A byte order mark in front of it is skipped. -/
def parse? (text : String) : Option Entries :=
  let chars := text.toList
  let chars := if chars.head? = some (Char.ofNat 0xFEFF) then chars.drop 1 else chars
  lines? (chars.length + 1) {} chars

end SchemaDoc.Toml
