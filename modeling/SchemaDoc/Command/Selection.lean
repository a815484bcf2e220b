import SchemaDoc.Workspace.Load

/-!
What a command line picks: documents by paths, symbols by category and module.
-/

namespace SchemaDoc

/-- Whether a path leads through `directory`, compared component by component. -/
def Path.isBelow (directory path : String) : Bool :=
  (Path.components directory).isPrefixOf (Path.components path)

namespace Selection

/-- The documents that one path names: a directory stands for the registered documents below it,
anything else for itself. -/
def documentsAt (files : FileTree) (registered : List String) (root path : String) : List String :=
  let full := Path.join root path
  if files.isDirectory full then registered.filter fun uri => Path.isBelow full (Uri.toPath uri)
  else [Uri.ofPath full]

/-- The documents that paths name, in the order of their uris, each once. -/
def documents (files : FileTree) (registered : List String) (root : String)
    (paths : List String) : List String :=
  Workspace.sortedUnique (paths.flatMap (documentsAt files registered root))

/-- Whether the key of a symbol lies inside a module: it is the module's own key, or what follows
that key begins a new segment. -/
def isInModule (module : ModulePath) (key : String) : Bool :=
  module.isRoot || key == module.display ||
    (module.display ++ ModulePath.separator).toList.isPrefixOf key.toList

/-- Whether a symbol belongs to a module. An object belongs where the type that describes it
does. -/
def belongsTo (module : ModulePath) (symbol : Symbol) : Bool :=
  match symbol.address.category with
  | .schema => isInModule module symbol.identifier
  | .description _ =>
    (symbol.relations.describedBy.bind fun target => target.path.head?).any (isInModule module)

/-- The symbols of a table that are members of none, narrowed to a category and to a module. -/
def symbols (table : SymbolTable) (category : Option String) (module : Option ModulePath) :
    List Symbol :=
  let categories := table.categories.filter fun known => category.all (· == known.display)
  (categories.flatMap table.topLevel).filter fun symbol =>
    module.all fun module => belongsTo module symbol

end Selection

end SchemaDoc
