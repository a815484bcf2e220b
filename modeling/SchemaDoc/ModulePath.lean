/-!
Module paths. The flat form is `::` followed by the segments with `::` between them, and the root
module is `::` itself. Flat forms are the keys of the symbol table.
-/

namespace SchemaDoc

/-- The segments from the root module on. -/
structure ModulePath where
  segments : List String := []
  deriving DecidableEq, Repr, Inhabited

namespace ModulePath

def separator : String := "::"

def root : ModulePath := ⟨[]⟩

def isRoot (path : ModulePath) : Bool := path.segments.isEmpty

/-- The pieces between separators, taken from the left. -/
def splitSeparator : List Char → List (List Char)
  | [] => [[]]
  | ':' :: ':' :: rest => [] :: splitSeparator rest
  | char :: rest =>
    match splitSeparator rest with
    | [] => [[char]]
    | piece :: pieces => (char :: piece) :: pieces

/-- The text behind a separator at its start. -/
def stripSeparator : List Char → List Char
  | ':' :: ':' :: rest => rest
  | text => text

/-- Read a flat form. The separator in front may be missing, and empty segments do not count. -/
def parse (text : String) : ModulePath :=
  ⟨((splitSeparator (stripSeparator text.toList)).filter fun piece => !piece.isEmpty).map
    String.ofList⟩

/-- The flat form. -/
def display (path : ModulePath) : String := separator ++ separator.intercalate path.segments

/-- The module inside this one. -/
def child (path : ModulePath) (segment : String) : ModulePath := ⟨path.segments ++ [segment]⟩

/-- The module around this one; the root module has none. -/
def parent? (path : ModulePath) : Option ModulePath :=
  if path.isRoot then none else some ⟨path.segments.dropLast⟩

/-- The key of a declaration in this module. -/
def join (path : ModulePath) (name : String) : String := (path.child name).display

/-- Lexicographic by segments. -/
def compareSegments : List String → List String → Ordering
  | [], [] => .eq
  | [], _ :: _ => .lt
  | _ :: _, [] => .gt
  | first :: firsts, second :: seconds =>
    match compare first second with
    | .eq => compareSegments firsts seconds
    | other => other

end ModulePath

end SchemaDoc
