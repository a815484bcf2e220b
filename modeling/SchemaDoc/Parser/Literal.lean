import SchemaDoc.Parser.Production

/-!
The smallest productions: identifiers, literals, identifier paths and resource locations.
-/

namespace SchemaDoc.Parser

/-- A node without children from here to `next`. -/
def leaf (kind : Node.Kind) (cursor next : Cursor) : Parsed :=
  { node := { kind, span := cursor.spanTo next }, next }

def identifier : Production := fun cursor =>
  cursor.readIdentifier?.map fun (value, next) => leaf (.identifier value) cursor next

/-- The character that a backslash and `char` stand for. -/
def unescape (char : Char) : Char :=
  if char = 'n' then '\n' else if char = 't' then '\t' else if char = 'r' then '\r' else char

/-- The inside of a string as it was scanned. -/
structure StringBody where
  /-- The value, last character first. -/
  value : List Char
  offset : Nat
  rest : List Char
  isTerminated : Bool

/-- Read the inside of a string and its closing quote. A newline ends the string unless a backslash
stands before it, and is left to be read again. -/
def stringBody (value : List Char) (offset : Nat) : List Char → StringBody
  | [] => ⟨value, offset, [], false⟩
  | char :: rest =>
    if char = '"' then ⟨value, offset + char.utf8Size, rest, true⟩
    else if char = '\n' then ⟨value, offset, char :: rest, false⟩
    else if char = '\\' then
      match rest with
      | [] => ⟨value, offset + char.utf8Size, [], false⟩
      | escaped :: rest =>
        stringBody (unescape escaped :: value) (offset + char.utf8Size + escaped.utf8Size) rest
    else stringBody (char :: value) (offset + char.utf8Size) rest

/-- A text in double quotes. -/
def string : Production := fun cursor =>
  (cursor.read? "\"").map fun opened =>
    let body := stringBody [] opened.offset opened.rest
    let next := { cursor with offset := body.offset, rest := body.rest }
    let parsed := leaf (.string (String.ofList body.value.reverse)) cursor next
    if body.isTerminated then parsed
    else { parsed with errors := [.ofMessage .unterminatedString [] (cursor.spanTo next)] }

/-- The number that decimal digits write. -/
def digitsValue (digits : List Char) : Nat :=
  digits.foldl (fun value digit => 10 * value + (digit.toNat - '0'.toNat)) 0

/-- The digits behind a point. A point without a digit behind it does not belong to the number. -/
def fraction (cursor : Cursor) : List Char × Cursor :=
  match cursor.read? "." with
  | none => ([], cursor)
  | some behindPoint =>
    let (digits, next) := behindPoint.readWhile Char.isDigit
    if digits.isEmpty then ([], cursor) else (digits, next)

def number : Production := fun cursor =>
  let unsigned := (cursor.read? "-").getD cursor
  let (whole, afterWhole) := unsigned.readWhile Char.isDigit
  if whole.isEmpty then none
  else
    let (places, next) := fraction afterWhole
    let value := Binary64.ofDecimal (cursor.startsWith "-") (digitsValue (whole ++ places))
      (-Int.ofNat places.length)
    some (leaf (.number value) cursor next)

def boolean : Production := fun cursor =>
  match cursor.readKeyword? "true" with
  | some next => some (leaf (.boolean true) cursor next)
  | none => (cursor.readKeyword? "false").map fun next => leaf (.boolean false) cursor next

def literal : Production := Production.orElse string (Production.orElse number boolean)

def fieldKey : Production := Production.orElse identifier string

/-- What separates the segments of a path. -/
def pathSeparator : String := "::"

/-- The segments behind the first one, each after a separator. A separator without a segment ends
the path. -/
def moreSegments : Nat → Cursor → Fragment
  | 0, cursor => .empty cursor
  | fuel + 1, cursor =>
    match cursor.read? pathSeparator with
    | none => .empty cursor
    | some next =>
      match identifier next with
      | none => .missing .expectedIdentifier [] next
      | some segment =>
        Fragment.andThen ⟨[segment.node], segment.errors, segment.next⟩ (moreSegments fuel)

/-- The segments of a path from the first one on. -/
def segments (cursor : Cursor) : Option Fragment :=
  (identifier cursor).map fun segment =>
    Fragment.andThen ⟨[segment.node], segment.errors, segment.next⟩ fun next =>
      moreSegments next.remaining next

/-- A path of identifiers; a separator in front of it makes it start at the root module. -/
def identPath : Production := fun cursor =>
  let path (fromRoot : Bool) (found : Fragment) : Parsed :=
    { node := { kind := .identPath fromRoot, span := cursor.spanTo found.next,
                children := found.nodes }
      errors := found.errors
      next := found.next }
  match cursor.read? pathSeparator with
  | some next => some (path true ((segments next).getD (.missing .expectedIdentifier [] next)))
  | none => (segments cursor).map (path false)

def isResourceChar (char : Char) : Bool :=
  char.isLower || char.isDigit || char == '_' || char == '-' || char == '.' || char == '/' ||
    char == ':'

/-- Split a resource location at its first colon. -/
def resourceParts (text : List Char) : Option String × String :=
  match text.span (· != ':') with
  | (path, []) => (none, String.ofList path)
  | (space, _ :: path) => (some (String.ofList space), String.ofList path)

/-- A resource location: `namespace:path`, or a bare path. -/
def resourceLocation : Production := fun cursor =>
  let (text, next) := cursor.readWhile isResourceChar
  if text.isEmpty then none
  else
    let (space, path) := resourceParts text
    some (leaf (.resourceLocation space path) cursor next)

end SchemaDoc.Parser
