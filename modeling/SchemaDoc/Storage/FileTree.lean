import SchemaDoc.ModulePath
import SchemaDoc.Storage.Path

/-!
A file system as a value: files and directories by the names that lead to them from the root. With
every entry its directories are present.
-/

namespace SchemaDoc

inductive FileTree.Entry where
  | file (content : ByteArray)
  | directory
  deriving Inhabited

structure FileTree where
  entries : List (List String × FileTree.Entry) := []
  deriving Inhabited

namespace FileTree

/-- The entry that names lead to; the root is a directory. -/
def find? (tree : FileTree) (names : List String) : Option Entry :=
  if names.isEmpty then some .directory else tree.entries.lookup names

def isDirectoryAt (tree : FileTree) (names : List String) : Bool :=
  match tree.find? names with
  | some .directory => true
  | _ => false

/-- Follow the steps of a path. A step up is possible only from a directory. -/
def follow? (tree : FileTree) : List Path.Component → List String → Option (List String)
  | [], names => some names
  | .name text :: steps, names => follow? tree steps (names ++ [text])
  | .up :: steps, names =>
    if tree.isDirectoryAt names then follow? tree steps names.dropLast else none
  | _ :: steps, names => follow? tree steps names

/-- The names that an absolute path leads to. -/
def resolve? (tree : FileTree) (path : String) : Option (List String) :=
  match Path.components path with
  | .root :: steps => tree.follow? steps []
  | _ => none

/-- Whether a path is spelled as that of a directory. -/
def namesDirectory (path : String) : Bool := (Path.pieces path).getLast?.any Path.isIdle

def get? (tree : FileTree) (path : String) : Option Entry :=
  (tree.resolve? path).bind fun names =>
    match tree.find? names with
    | some (.file content) => if namesDirectory path then none else some (.file content)
    | other => other

def contains (tree : FileTree) (path : String) : Bool := (tree.get? path).isSome

def isDirectory (tree : FileTree) (path : String) : Bool :=
  match tree.get? path with
  | some .directory => true
  | _ => false

def content? (tree : FileTree) (path : String) : Option ByteArray :=
  match tree.get? path with
  | some (.file content) => some content
  | _ => none

/-- The text of a file; none when its bytes are no UTF-8. -/
def text? (tree : FileTree) (path : String) : Option String :=
  (tree.content? path).bind String.fromUTF8?

/-- Put an entry in the place of another one. -/
def put (tree : FileTree) (names : List String) (entry : Entry) : FileTree :=
  ⟨(names, entry) :: tree.entries.filter fun other => other.1 != names⟩

/-- Make sure that names lead to a directory. A file on the way makes that impossible. -/
def makeDirectory? (tree : FileTree) (names : List String) : Option FileTree :=
  (List.range names.length).foldlM (fun tree count =>
    let step := names.take (count + 1)
    match tree.find? step with
    | none => some (tree.put step .directory)
    | some .directory => some tree
    | some (.file _) => none) tree

/-- Write a file and the directories around it. -/
def write? (tree : FileTree) (path : String) (content : ByteArray) : Option FileTree :=
  (tree.resolve? path).bind fun names =>
    if names.isEmpty || tree.isDirectoryAt names then none
    else (tree.makeDirectory? names.dropLast).map fun tree => tree.put names (.file content)

/-- Remove an entry and all below it. -/
def remove (tree : FileTree) (path : String) : FileTree :=
  match tree.resolve? path with
  | none => tree
  | some names => ⟨tree.entries.filter fun entry => !names.isPrefixOf entry.1⟩

/-- The entries below names, in the order of their own names: a directory comes with all that is in
it before what follows it. -/
def below (tree : FileTree) (names : List String) : List (List String × Entry) :=
  (tree.entries.filter fun entry => names.isPrefixOf entry.1 && entry.1 != names).mergeSort
    fun first second => ModulePath.compareSegments first.1 second.1 != .gt

end FileTree

end SchemaDoc
