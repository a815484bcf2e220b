import SchemaDoc.Json
import SchemaDoc.Number.Word

/-!
Reading JSON text. Whole numbers that fit a word of 64 bits stay whole, all others become floating
point numbers; in texts, two escaped surrogates make one character, and a lone one is refused.
-/

namespace SchemaDoc.Json

def isBlank (char : Char) : Bool := char == ' ' || char == '\n' || char == '\t' || char == '\r'

def skipBlank (text : List Char) : List Char := text.dropWhile isBlank

def hexValue? (char : Char) : Option Nat :=
  if char.isDigit then some (char.toNat - 48)
  else if 'a' ≤ char ∧ char ≤ 'f' then some (char.toNat - 87)
  else if 'A' ≤ char ∧ char ≤ 'F' then some (char.toNat - 55)
  else none

/-- The character that a letter behind a backslash stands for. -/
def escape? (char : Char) : Option Char :=
  if char = '"' ∨ char = '\\' ∨ char = '/' then some char
  else if char = 'n' then some '\n'
  else if char = 't' then some '\t'
  else if char = 'r' then some '\r'
  else if char = 'b' then some (Char.ofNat 8)
  else if char = 'f' then some (Char.ofNat 12)
  else none

/-- Where the reader of a text stands. -/
inductive TextState where
  | plain
  /-- Behind a backslash. -/
  | escaped
  /-- Behind some of the four digits of a unit. -/
  | unit (count value : Nat)

def isHighSurrogate (value : Nat) : Bool := 0xD800 ≤ value && value < 0xDC00

def isLowSurrogate (value : Nat) : Bool := 0xDC00 ≤ value && value < 0xE000

/-- The character of a unit, together with the high surrogate in front of it, if there is one. -/
def pairedChar? (high : Option Nat) (value : Nat) : Option Char :=
  match high with
  | some high =>
    if isLowSurrogate value then
      some (Char.ofNat (0x10000 + (high - 0xD800) * 1024 + (value - 0xDC00)))
    else none
  | none => if isLowSurrogate value then none else some (Char.ofNat value)

/-- Read a text up to its closing quote. A high surrogate waits for the low one behind it. -/
def textFrom? (done : List Char) (high : Option Nat) :
    TextState → List Char → Option (String × List Char)
  | _, [] => none
  | .plain, char :: rest =>
    if char = '\\' then textFrom? done high .escaped rest
    else if high.isSome then none
    else if char = '"' then some (String.ofList done.reverse, rest)
    else if char.toNat < 32 then none
    else textFrom? (char :: done) none .plain rest
  | .escaped, char :: rest =>
    if char = 'u' then textFrom? done high (.unit 0 0) rest
    else if high.isSome then none
    else
      match escape? char with
      | some char => textFrom? (char :: done) none .plain rest
      | none => none
  | .unit count value, char :: rest =>
    match hexValue? char with
    | none => none
    | some digit =>
      let value := 16 * value + digit
      if count < 3 then textFrom? done high (.unit (count + 1) value) rest
      else if high.isNone && isHighSurrogate value then textFrom? done (some value) .plain rest
      else
        match pairedChar? high value with
        | some char => textFrom? (char :: done) none .plain rest
        | none => none

def digitsValue (digits : List Char) : Nat :=
  digits.foldl (fun value digit => 10 * value + (digit.toNat - 48)) 0

/-- The digits at the start of a text; there must be one. -/
def digits? (text : List Char) : Option (List Char × List Char) :=
  match text.span Char.isDigit with
  | ([], _) => none
  | parts => some parts

/-- Digits that do not start with a needless zero. -/
def whole? (text : List Char) : Option (List Char × List Char) :=
  (digits? text).bind fun (digits, rest) =>
    if digits.head? == some '0' && digits.length != 1 then none else some (digits, rest)

/-- The digits behind a point, if there is one. -/
def places? : List Char → Option (List Char × List Char)
  | '.' :: rest => digits? rest
  | rest => some ([], rest)

/-- The exponent behind its mark, if there is one. -/
def exponent? : List Char → Option (Option Int × List Char)
  | [] => some (none, [])
  | mark :: rest =>
    if mark = 'e' ∨ mark = 'E' then
      let unsigned := if rest.head? == some '-' || rest.head? == some '+' then rest.drop 1 else rest
      (digits? unsigned).map fun (digits, more) =>
        let value := Int.ofNat (digitsValue digits)
        (some (if rest.head? == some '-' then -value else value), more)
    else some (none, mark :: rest)

/-- The value of a number from its sign, its digits on both sides of the point and its exponent. -/
def numberOf (isNegative : Bool) (whole places : List Char) (exponent : Option Int) : Json :=
  let value := digitsValue whole
  let isWhole := places.isEmpty && exponent.isNone
  if isWhole && !isNegative && value < wordBound 64 then .int (Int.ofNat value)
  else if isWhole && isNegative && 0 < value && value ≤ wordBound 63 then .int (-Int.ofNat value)
  else
    .float (Binary64.ofDecimal isNegative (digitsValue (whole ++ places))
      (exponent.getD 0 - Int.ofNat places.length))

/-- Read a number. -/
def number? (text : List Char) : Option (Json × List Char) := do
  let isNegative := text.head? == some '-'
  let (whole, rest) ← whole? (if isNegative then text.drop 1 else text)
  let (places, rest) ← places? rest
  let (exponent, rest) ← exponent? rest
  return (numberOf isNegative whole places exponent, rest)

/-- Read a word that stands for a value. -/
def word? (word : String) (value : Json) (text : List Char) : Option (Json × List Char) :=
  if word.toList.isPrefixOf text then some (value, text.drop word.length) else none

/-- The text behind a mark that must come next. -/
def expect? (mark : Char) (text : List Char) : Option (List Char) :=
  match skipBlank text with
  | char :: rest => if char = mark then some rest else none
  | [] => none

mutual

/-- Read a value. Each step takes a unit of fuel. -/
def value? : Nat → List Char → Option (Json × List Char)
  | 0, _ => none
  | fuel + 1, text =>
    match skipBlank text with
    | [] => none
    | char :: rest =>
      if char = '"' then (textFrom? [] none .plain rest).map fun (text, rest) => (.str text, rest)
      else if char = '[' then
        match expect? ']' rest with
        | some rest => some (.arr [], rest)
        | none => items? fuel [] rest
      else if char = '\x7b' then
        match expect? '\x7d' rest with
        | some rest => some (.obj [], rest)
        | none => members? fuel [] rest
      else if char = 't' then word? "true" (.bool true) (char :: rest)
      else if char = 'f' then word? "false" (.bool false) (char :: rest)
      else if char = 'n' then word? "null" .null (char :: rest)
      else number? (char :: rest)

/-- Read the items of an array behind those that are `done`. -/
def items? : Nat → List Json → List Char → Option (Json × List Char)
  | 0, _, _ => none
  | fuel + 1, done, text =>
    match value? fuel text with
    | none => none
    | some (item, rest) =>
      match expect? ',' rest with
      | some rest => items? fuel (item :: done) rest
      | none => (expect? ']' rest).map fun rest => (.arr (item :: done).reverse, rest)

/-- Read the members of an object behind those that are `done`. -/
def members? : Nat → List (String × Json) → List Char → Option (Json × List Char)
  | 0, _, _ => none
  | fuel + 1, done, text =>
    match value? fuel text with
    | some (.str name, rest) =>
      match (expect? ':' rest).bind (value? fuel) with
      | none => none
      | some (value, rest) =>
        match expect? ',' rest with
        | some rest => members? fuel ((name, value) :: done) rest
        | none => (expect? '\x7d' rest).map fun rest => (.obj ((name, value) :: done).reverse, rest)
    | _ => none

end

/-- Read a JSON text. A bracket and a comma each cost at most two steps, so that twice the length
bounds the steps. -/
def ofText? (text : String) : Option Json :=
  match value? (2 * text.length + 2) text.toList with
  | some (value, rest) => if (skipBlank rest).isEmpty then some value else none
  | none => none

end SchemaDoc.Json
