import SchemaDoc.Json

/-!
What the program prints. Every answer is one JSON object that says whether the command succeeded;
its members are written in the order of their names.
-/

namespace SchemaDoc

namespace Json

/-- Put a member in its place by name. -/
def insertMember (entry : String × Json) : List (String × Json) → List (String × Json)
  | [] => [entry]
  | other :: others =>
    if entry.1 < other.1 then entry :: other :: others else other :: insertMember entry others

mutual

/-- The value with the members of each object in the order of their names. -/
def sorted : Json → Json
  | .arr items => .arr (sortedItems items)
  | .obj members => .obj (sortedMembers members)
  | scalar => scalar

def sortedItems : List Json → List Json
  | [] => []
  | item :: items => item.sorted :: sortedItems items

def sortedMembers : List (String × Json) → List (String × Json)
  | [] => []
  | (name, value) :: members => insertMember (name, value.sorted) (sortedMembers members)

end

end Json

/-- What a command answers. -/
inductive Answer where
  | success (members : List (String × Json))
  | failure (message : String)
  /-- A failure that ends the program. -/
  | abort (message : String)
  deriving Inhabited

/-- What the program prints, and the code it exits with. -/
structure Output where
  text : String
  exitCode : Nat
  deriving DecidableEq, Repr, Inhabited

/-- The code for what could not be done or understood. -/
def Output.failureCode : Nat := 2

namespace Answer

def toJson : Answer → Json
  | success members => Json.sorted (.obj (members ++ [("success", .bool true)]))
  | failure message | abort message => .obj [("error", .str message), ("success", .bool false)]

/-- Print an answer. One that ends the program is always spread over lines. -/
def print (pretty : Bool) : Answer → Output
  | abort message => ⟨(abort message).toJson.pretty "" ++ "\n", Output.failureCode⟩
  | answer => ⟨(if pretty then answer.toJson.pretty "" else answer.toJson.compact) ++ "\n", 0⟩

end Answer

end SchemaDoc
