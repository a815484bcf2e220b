import SchemaDoc.Number.Shortest

/-!
JSON values and their text. Objects keep the order in which their members were given. Whole numbers
and floating point numbers are apart, since only the latter carry a point when written; an infinite
number has no JSON text and is written as `null`.
-/

namespace SchemaDoc

inductive Json where
  | null
  | bool (value : Bool)
  | int (value : Int)
  | float (value : Binary64)
  | str (value : String)
  | arr (items : List Json)
  | obj (members : List (String × Json))
  deriving Inhabited

namespace Json

def nat (value : Nat) : Json := .int (Int.ofNat value)

/-- A list of texts. -/
def texts (values : List String) : Json := .arr (values.map .str)

/-- The value, or `null` for an absent one. -/
def orNull {α : Type} (encode : α → Json) : Option α → Json
  | none => .null
  | some value => encode value

/-- A member that is written only when it has a value. -/
def member? {α : Type} (name : String) (encode : α → Json) : Option α → List (String × Json)
  | none => []
  | some value => [(name, encode value)]

/-- A member that is written only when the condition holds. -/
def memberIf (condition : Bool) (name : String) (value : Json) : List (String × Json) :=
  if condition then [(name, value)] else []

/-- The member of an object with the given name. Of repeated names the last one counts, but where a
record is read they are refused. -/
def get? (name : String) : Json → Option Json
  | .obj members => members.reverse.lookup name
  | _ => none

def hexDigit (value : Nat) : Char := (Nat.digitChar value)

/-- A character inside a quoted text. -/
def escapeChar (char : Char) : List Char :=
  if char = '"' then ['\\', '"']
  else if char = '\\' then ['\\', '\\']
  else if char = '\n' then ['\\', 'n']
  else if char = '\r' then ['\\', 'r']
  else if char = '\t' then ['\\', 't']
  else if char.toNat = 8 then ['\\', 'b']
  else if char.toNat = 12 then ['\\', 'f']
  else if char.toNat < 32 then
    ['\\', 'u', '0', '0', hexDigit (char.toNat / 16), hexDigit (char.toNat % 16)]
  else [char]

def quoted (text : String) : String :=
  "\"" ++ String.ofList (text.toList.flatMap escapeChar) ++ "\""

/-- A value without inner structure. -/
def scalarText : Json → String
  | .bool true => "true"
  | .bool false => "false"
  | .int value => toString value
  | .float value => if value.isFinite then value.jsonText else "null"
  | .str value => quoted value
  | _ => "null"

mutual

/-- The text on one line, without blanks. -/
def compact : Json → String
  | .arr items => "[" ++ String.intercalate "," (compactItems items) ++ "]"
  | .obj members => "\x7b" ++ String.intercalate "," (compactMembers members) ++ "\x7d"
  | scalar => scalarText scalar

def compactItems : List Json → List String
  | [] => []
  | item :: items => item.compact :: compactItems items

def compactMembers : List (String × Json) → List String
  | [] => []
  | (name, value) :: members => (quoted name ++ ":" ++ value.compact) :: compactMembers members

end

/-- Lines between brackets, one level deeper than `margin`. -/
def block (opening closing margin : String) (lines : List String) : String :=
  match lines with
  | [] => opening ++ closing
  | lines =>
    let inner := margin ++ "  "
    opening ++ "\n" ++ inner ++ String.intercalate (",\n" ++ inner) lines ++ "\n" ++ margin ++
      closing

mutual

/-- The text with one value to a line, indented by two spaces a level. -/
def pretty (margin : String) : Json → String
  | .arr items => block "[" "]" margin (prettyItems (margin ++ "  ") items)
  | .obj members => block "\x7b" "\x7d" margin (prettyMembers (margin ++ "  ") members)
  | scalar => scalarText scalar

def prettyItems (margin : String) : List Json → List String
  | [] => []
  | item :: items => item.pretty margin :: prettyItems margin items

def prettyMembers (margin : String) : List (String × Json) → List String
  | [] => []
  | (name, value) :: members =>
    (quoted name ++ ": " ++ value.pretty margin) :: prettyMembers margin members

end

end Json

end SchemaDoc
