import SchemaDoc.Parser.TypeExpr

/-!
The productions in place. They share one place in the text and one list of problems and change both
as they read. An alternative is tried from wherever the one before it stopped: nothing but `attempt`
goes back on its own.
-/

namespace SchemaDoc

/-- The place in the text and the problems found so far. -/
structure ParserState where
  cursor : Cursor
  errors : List Diagnostic := []
  deriving Repr

/-- A reader for one construct. `none` means that the construct does not start here. -/
abbrev SubParser := StateM ParserState (Option Node)

namespace InPlace

/-- Where reading goes on. -/
def place : StateM ParserState Cursor := return (← get).cursor

def moveTo (cursor : Cursor) : StateM ParserState Unit :=
  modify fun state => { state with cursor }

def report (problem : Diagnostic) : StateM ParserState Unit :=
  modify fun state => { state with errors := state.errors ++ [problem] }

/-- Read on and return what was read. -/
def take {α : Type} (read : Cursor → α × Cursor) : StateM ParserState α := do
  let (taken, next) := read (← place)
  moveTo next
  return taken

/-- Read on where this can be done, and return the span of what was read. -/
def takeSpan (read : Cursor → Option Cursor) : StateM ParserState (Option Span) := do
  let start ← place
  match read start with
  | none => return none
  | some next =>
    moveTo next
    return some (start.spanTo next)

/-- Read a token, if it stands here. -/
def token (word : String) : StateM ParserState (Option Span) := takeSpan (·.read? word)

/-- Read a keyword, if it stands here. -/
def keyword (word : String) : StateM ParserState (Option Span) := takeSpan (·.readKeyword? word)

def readWhile (holds : Char → Bool) : StateM ParserState (List Char) := take (·.readWhile holds)

def skipTrivia : StateM ParserState Unit := do moveTo (← place).skipTrivia

/-- Run a parser on problems of its own. Where it finds nothing they are dropped, and state goes
on from where it was tried. -/
def attempt (parser : SubParser) : SubParser := do
  let saved ← get
  set { saved with errors := [] }
  let found ← parser
  match found with
  | some _ => modify fun after => { after with errors := saved.errors ++ after.errors }
  | none => set saved
  return found

/-- The first parser, or the second where that finds nothing; nothing is restored in between. -/
def orElse (first second : SubParser) : SubParser := do
  match ← first with
  | some node => return some node
  | none => second

/-- A node around what a parser finds, with the same span. -/
def wrapped (kind : Node.Kind) (role : Node.Role) (parser : SubParser) : SubParser := do
  match ← parser with
  | none => return none
  | some inner => return some { kind, span := inner.span, children := [inner.tagged role] }

def identifier : SubParser := do
  let start ← place
  match start.readIdentifier? with
  | none => return none
  | some (value, next) =>
    moveTo next
    return some { kind := .identifier value, span := start.spanTo next }

/-- The inside of a string that was opened at `start`, with its closing quote. -/
def stringBody (start : Cursor) : StateM ParserState String := do
  let opened ← place
  let body := Parser.stringBody [] opened.offset opened.rest
  moveTo { opened with offset := body.offset, rest := body.rest }
  unless body.isTerminated do
    report (.ofMessage .unterminatedString [] (start.spanTo (← place)))
  return String.ofList body.value.reverse

def string : SubParser := do
  let start ← place
  match ← token "\"" with
  | none => return none
  | some _ =>
    let value ← stringBody start
    return some { kind := .string value, span := start.spanTo (← place) }

/-- A sign is read before it is known whether digits follow; without them it is given back. The
digits behind a point are looked for on a copy of the cursor. -/
def number : SubParser := do
  let start ← place
  let sign ← token "-"
  let whole ← readWhile Char.isDigit
  if whole.isEmpty then
    moveTo start
    return none
  else
    let places ← take Parser.fraction
    let value := Binary64.ofDecimal sign.isSome (Parser.digitsValue (whole ++ places))
      (-Int.ofNat places.length)
    return some { kind := .number value, span := start.spanTo (← place) }

/-- A keyword that stands for a truth value. -/
def truth (word : String) (value : Bool) : SubParser := do
  match ← keyword word with
  | none => return none
  | some span => return some { kind := .boolean value, span }

def boolean : SubParser := orElse (truth "true" true) (truth "false" false)

def literal : SubParser := orElse string (orElse number boolean)

def fieldKey : SubParser := orElse identifier string

/-- The segments behind the first one. -/
def moreSegments : Nat → StateM ParserState (List Node)
  | 0 => return []
  | fuel + 1 => do
    match ← token Parser.pathSeparator with
    | none => return []
    | some _ =>
      match ← identifier with
      | some segment => return segment :: (← moreSegments fuel)
      | none =>
        report (.ofMessage .expectedIdentifier [] (← place).here)
        return []

/-- The segments of a path; `none` if the path does not start here. Behind a separator a missing
segment is a problem. -/
def segments (fromRoot : Bool) : StateM ParserState (Option (List Node)) := do
  match ← identifier with
  | some segment => return some (segment :: (← moreSegments (← place).remaining))
  | none =>
    if fromRoot then
      report (.ofMessage .expectedIdentifier [] (← place).here)
      return some []
    else return none

def identPath : SubParser := do
  let start ← place
  let fromRoot := (← token Parser.pathSeparator).isSome
  match ← segments fromRoot with
  | none => return none
  | some children =>
    return some { kind := .identPath fromRoot, span := start.spanTo (← place), children }

def resourceLocation : SubParser := do
  let start ← place
  let text ← readWhile Parser.isResourceChar
  if text.isEmpty then return none
  else
    let (space, path) := Parser.resourceParts text
    return some { kind := .resourceLocation space path, span := start.spanTo (← place) }

/-- What stands between the brackets of a list; its absence is a problem. -/
def listItem (item : SubParser) : StateM ParserState (List Node) := do
  match ← attempt item with
  | some node => return [node.tagged .type]
  | none =>
    report (.ofMessage .expectedType [] (← place).here)
    return []

/-- A list type behind the opening bracket that stands at `start`. -/
def listType (item : SubParser) (start : Cursor) : StateM ParserState Node := do
  skipTrivia
  let children ← listItem item
  skipTrivia
  let lastStop := (children.getLast?.map fun node => node.span.stop).getD (start.offset + 1)
  match ← token "]" with
  | some closing => return { kind := .listType, span := ⟨start.offset, closing.stop⟩, children }
  | none =>
    report (.expectedToken "]" (← place).offset)
    return { kind := .listType, span := ⟨start.offset, lastStop⟩, children }

def primitiveType : SubParser := do
  let start ← place
  match Primitive.ofName? (String.ofList start.word) with
  | none => return none
  | some primitive =>
    moveTo start.afterWord
    return some { kind := .primitiveType primitive, span := start.spanTo (← place) }

/-- A type without question marks behind it. -/
def primaryType (item : SubParser) : SubParser := do
  let start ← place
  match ← token "[" with
  | some _ => return some (← listType item start)
  | none =>
    orElse (wrapped .literalType .value literal)
      (orElse primitiveType (wrapped .referenceType .path identPath))

/-- One optional type around a node for each question mark that stands here. -/
def optionalTypes : Nat → Node → StateM ParserState Node
  | 0, node => return node
  | fuel + 1, node => do
    match ← token "?" with
    | none => return node
    | some mark =>
      optionalTypes fuel
        { kind := .optionalType, span := node.span.cover mark, children := [node.tagged .type] }

/-- A type whose items are read by `item`. -/
def typeOf (item : SubParser) : SubParser := do
  match ← primaryType item with
  | none => return none
  | some primary => return some (← optionalTypes (← place).rest.length primary)

/-- A type whose brackets nest less than `depth` deep. -/
def typeWithin : Nat → SubParser
  | 0 => return none
  | depth + 1 => typeOf (typeWithin depth)

/-- A type. Each bracket takes a byte, so no more can nest than there are bytes ahead. -/
def typeExpr : SubParser := do typeWithin (← place).remaining

end InPlace

end SchemaDoc
