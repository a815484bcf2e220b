/-!
Paths with forward slashes. Two spellings that differ only in repeated slashes, in `.` pieces or in
a slash at the end have the same components; `..` is kept, since what it means depends on links.
-/

namespace SchemaDoc.Path

/-- A step of a path. -/
inductive Component where
  | root
  | current
  | up
  | name (text : String)
  deriving DecidableEq, Repr

/-- The pieces between slashes. -/
def splitSlash : List Char → List (List Char)
  | [] => [[]]
  | char :: rest =>
    if char = '/' then [] :: splitSlash rest
    else
      match splitSlash rest with
      | [] => [[char]]
      | piece :: pieces => (char :: piece) :: pieces

def pieces (path : String) : List String := (splitSlash path.toList).map String.ofList

def isAbsolute (path : String) : Bool := path.toList.head? == some '/'

/-- A piece that is no step of its own. -/
def isIdle (piece : String) : Bool := piece == "" || piece == "."

def ofPiece (piece : String) : Component := if piece == ".." then .up else .name piece

/-- The steps of a path. A `.` counts only where a relative path begins with it. -/
def components (path : String) : List Component :=
  let steps := ((pieces path).filter fun piece => !isIdle piece).map ofPiece
  if isAbsolute path then .root :: steps
  else if (pieces path).head? == some "." then .current :: steps
  else steps

/-- Pieces without idle ones at the end. -/
def trimIdle (pieces : List String) : List String := (pieces.reverse.dropWhile isIdle).reverse

/-- Pieces without idle ones at either end, as a path. -/
def ofPieces (pieces : List String) : String :=
  "/".intercalate (trimIdle (pieces.dropWhile isIdle))

/-- A path as it is spelled, without idle pieces at the end. Its first piece stays. -/
def trimmed (path : String) : String :=
  match pieces path with
  | [] => ""
  | first :: rest =>
    let kept := trimIdle rest
    if kept.isEmpty && isAbsolute path then "/" else "/".intercalate (first :: kept)

/-- The pieces left when a path with the given pieces is followed along `steps`. -/
def walk : List Component → List String → Option (List String)
  | [], pieces => some pieces
  | _ :: _, [] => none
  | step :: steps, piece :: pieces =>
    if isIdle piece then walk (step :: steps) pieces
    else if ofPiece piece = step then walk steps pieces
    else none

/-- The rest of a path below `base`, as it was spelled. -/
def relativeTo? (path base : String) : Option String :=
  match components base, isAbsolute path with
  | [], _ => some (trimmed path)
  | .root :: steps, true => (walk steps (pieces path)).map ofPieces
  | .root :: _, false => none
  | _, true => none
  | .current :: steps, false =>
    if (pieces path).head? == some "." then (walk steps (pieces path)).map ofPieces else none
  | steps, false =>
    if (pieces path).head? == some "." then none
    else (walk steps (pieces path)).map ofPieces

/-- A path from `base`; an absolute one replaces it. -/
def join (base path : String) : String :=
  if isAbsolute path then path
  else if base.toList.isEmpty || base.toList.getLast? == some '/' then base ++ path
  else base ++ "/" ++ path

/-- The name at the end of a path. -/
def fileName? (path : String) : Option String :=
  match (components path).getLast? with
  | some (.name text) => some text
  | _ => none

/-- The names of the directories in front of the last component. -/
def parents (path : String) : List Component := (components path).dropLast

/-- A file name cut at its last dot. A dot at the very start does not count. -/
def splitName (name : String) : String × Option String :=
  match name.toList.reverse.span (· != '.') with
  | (_, []) => (name, none)
  | (_, [_]) => (name, none)
  | (extension, _ :: stem) =>
    (String.ofList stem.reverse, some (String.ofList extension.reverse))

def stem? (path : String) : Option String := (fileName? path).map fun name => (splitName name).1

def extension? (path : String) : Option String :=
  (fileName? path).bind fun name => (splitName name).2

/-- The spelling of a step. -/
def Component.text : Component → String
  | .root => "/"
  | .current => "."
  | .up => ".."
  | .name text => text

end SchemaDoc.Path
