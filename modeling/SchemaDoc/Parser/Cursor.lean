import SchemaDoc.Diagnostic
import SchemaDoc.Text.Blank
import SchemaDoc.Tree.Node

/-!
A cursor into a text: how many bytes lie behind it and which characters lie ahead. Line comments
are skipped together with blanks; doc comments, which start with three slashes, are not.
-/

namespace SchemaDoc

/-- May a character start an identifier? -/
def isIdentifierStart (char : Char) : Bool := char == '_' || char.isAlpha

/-- May a character stand inside an identifier? -/
def isIdentifierPart (char : Char) : Bool := isIdentifierStart char || char.isDigit

structure Cursor where
  /-- The bytes of the whole text. -/
  size : Nat
  /-- The bytes already read. -/
  offset : Nat
  /-- The characters still to be read. -/
  rest : List Char
  deriving DecidableEq, Repr, Inhabited

namespace Cursor

/-- The cursor at the start of a text. -/
def ofText (text : String) : Cursor := ⟨text.utf8ByteSize, 0, text.toList⟩

def atEnd (cursor : Cursor) : Bool := cursor.rest.isEmpty

/-- The span from here to a later cursor of the same text. -/
def spanTo (cursor later : Cursor) : Span := ⟨cursor.offset, later.offset⟩

/-- The span of no characters at the cursor. -/
def here (cursor : Cursor) : Span := .point cursor.offset

/-- An upper bound on the number of characters ahead. -/
def remaining (cursor : Cursor) : Nat := cursor.size - cursor.offset + 1

/-- Move behind `taken`, with `rest` ahead. -/
def moveTo (cursor : Cursor) (taken rest : List Char) : Cursor :=
  { cursor with offset := cursor.offset + byteLength taken, rest }

def peek? (cursor : Cursor) : Option Char := cursor.rest.head?

def startsWith (cursor : Cursor) (token : String) : Bool := token.toList.isPrefixOf cursor.rest

/-- Read one character. -/
def advance? (cursor : Cursor) : Option (Char × Cursor) :=
  match cursor.rest with
  | [] => none
  | char :: rest => some (char, cursor.moveTo [char] rest)

/-- Read a token, if it stands here. -/
def read? (cursor : Cursor) (token : String) : Option Cursor :=
  if cursor.startsWith token then
    some (cursor.moveTo token.toList (cursor.rest.drop token.toList.length))
  else none

/-- Read the longest run of characters that satisfy a predicate. -/
def readWhile (cursor : Cursor) (holds : Char → Bool) : List Char × Cursor :=
  let (taken, rest) := cursor.rest.span holds
  (taken, cursor.moveTo taken rest)

/-- Read the rest of the line. Its newline is read as well but is not part of the result. -/
def readLine (cursor : Cursor) : List Char × Cursor :=
  match cursor.rest.span (· != '\n') with
  | (line, []) => (line, cursor.moveTo line [])
  | (line, newline :: rest) => (line, cursor.moveTo (line ++ [newline]) rest)

/-- Skip blanks and line comments from characters that begin at `offset`. The flag tells that the
characters continue a line comment. -/
def triviaEnd : Bool → Nat → List Char → Nat × List Char
  | _, offset, [] => (offset, [])
  | true, offset, char :: rest => triviaEnd (char != '\n') (offset + char.utf8Size) rest
  | false, offset, char :: rest =>
    if Text.isBlank char then triviaEnd false (offset + char.utf8Size) rest
    else if char == '/' && rest.head? == some '/' && (rest.drop 1).head? != some '/' then
      triviaEnd true (offset + char.utf8Size) rest
    else (offset, char :: rest)

/-- Skip blanks and line comments. -/
def skipTrivia (cursor : Cursor) : Cursor :=
  let (offset, rest) := triviaEnd false cursor.offset cursor.rest
  { cursor with offset, rest }

/-- The longest identifier at the cursor; empty when none starts here. -/
def word (cursor : Cursor) : List Char :=
  match cursor.rest with
  | [] => []
  | char :: rest => if isIdentifierStart char then char :: rest.takeWhile isIdentifierPart else []

/-- The cursor behind the word that stands here. -/
def afterWord (cursor : Cursor) : Cursor :=
  cursor.moveTo cursor.word (cursor.rest.drop cursor.word.length)

/-- Read an identifier. -/
def readIdentifier? (cursor : Cursor) : Option (String × Cursor) :=
  if cursor.word.isEmpty then none else some (String.ofList cursor.word, cursor.afterWord)

/-- Read a keyword; a longer word that merely starts with it does not count. -/
def readKeyword? (cursor : Cursor) (keyword : String) : Option Cursor :=
  if cursor.word = keyword.toList then cursor.read? keyword else none

/-- What a doc comment line says: the text behind the three slashes and one space, without
carriage returns at its end. -/
def docLine (line : List Char) : List Char × Nat :=
  let content := (line.reverse.dropWhile (· == '\r')).reverse
  let text := content.drop 3
  (if text.head? == some ' ' then text.drop 1 else text, byteLength content)

/-- Read doc comment lines with the trivia between and behind them: their texts, the end of the
last one and the cursor. -/
def docLines : Nat → Nat → Cursor → List (List Char) × Nat × Cursor
  | 0, stop, cursor => ([], stop, cursor)
  | fuel + 1, stop, cursor =>
    if cursor.startsWith "///" then
      let (line, next) := cursor.readLine
      let (text, length) := docLine line
      let (more, stop, last) := docLines fuel (cursor.offset + length) next.skipTrivia
      (text :: more, stop, last)
    else ([], stop, cursor)

/-- Read the doc comments that stand here and the trivia behind them. -/
def readDocComments? (cursor : Cursor) : Option (Node × Cursor) :=
  match docLines cursor.remaining cursor.offset cursor with
  | ([], _, _) => none
  | (lines, stop, next) =>
    let text := "\n".intercalate (lines.map String.ofList)
    some ({ kind := .docComments text, span := ⟨cursor.offset, stop⟩ }, next)

end Cursor

end SchemaDoc
