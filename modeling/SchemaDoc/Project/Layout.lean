import SchemaDoc.Parser.Cursor
import SchemaDoc.Project.Ignore
import SchemaDoc.Project.Layering
import SchemaDoc.Symbol.Table
import SchemaDoc.Text.Uri

/-!
From files to modules: `a/b.sdoc` implements `::a::b`, `a/mod.sdoc` implements `::a`, and `mod.sdoc`
at the source root implements the root module.
-/

namespace SchemaDoc

/-- Where the documents of a project are. -/
structure Layout where
  projectRoot : String
  sourceRoot : String
  extension : String
  ignoredPaths : List String
  deriving DecidableEq, Repr

namespace Layout

def ofSettings (projectRoot : String) (settings : ProjectSettings) : Layout :=
  { projectRoot
    sourceRoot := match settings.sourceRoot with
      | some directory => Path.join projectRoot directory
      | none => projectRoot
    extension := settings.extension
    ignoredPaths := settings.ignoredPaths }

/-- The stem of a file that stands for the module of its directory. -/
def directoryStem : String := "mod"

/-- What is said about the entries below the source root. The ignore file of the project is asked
last. -/
def policy (layout : Layout) (files : FileTree) (root : List String) : Ignore.Policy :=
  { files
    settings := ⟨root, layout.ignoredPaths.filterMap Ignore.Pattern.ofSetting?⟩
    nested := Ignore.sources.map fun source => (source, source.rulesOf files)
    shared := (files.content? (Path.join (projectDirectory layout.projectRoot) "ignore")).map
      fun content => ⟨[], Ignore.patternsOf content⟩ }

def isHidden (name : String) : Bool := name.toList.head? == some '.'

/-- Whether the walk passes by an entry itself. It does so by a hidden one of which nothing is said. -/
def skips (policy : Ignore.Policy) (names : List String) (isDirectory : Bool) : Bool :=
  match policy.verdict? names isDirectory with
  | some .ignored => true
  | some .kept => false
  | none => names.getLast?.any isHidden

/-- Whether the walk from `root` reaches a file: neither it nor a directory on the way is passed
by. -/
def reaches (policy : Ignore.Policy) (root names : List String) : Bool :=
  (List.range (names.length - root.length)).all fun count =>
    let step := names.take (root.length + count + 1)
    !skips policy step (decide (step.length < names.length))

def hasExtension (layout : Layout) (path : String) : Bool :=
  Path.extension? path == some layout.extension

/-- The documents below the source root, in the order of their paths. -/
def discover (layout : Layout) (files : FileTree) : List String :=
  match files.resolve? layout.sourceRoot with
  | none => []
  | some root =>
    match files.get? layout.sourceRoot with
    | none => []
    | some (.file _) => if layout.hasExtension layout.sourceRoot then [layout.sourceRoot] else []
    | some .directory =>
      let policy := layout.policy files root
      (files.below root).filterMap fun entry =>
        match entry.2 with
        | .directory => none
        | .file _ =>
          let path := Path.join layout.sourceRoot ("/".intercalate (entry.1.drop root.length))
          if layout.hasExtension path && reaches policy root entry.1 then some path else none

/-- Whether a name can be a segment of a module path. -/
def isSegment (name : String) : Bool :=
  match name.toList with
  | [] => true
  | char :: rest => isIdentifierStart char && rest.all isIdentifierPart

/-- The module that a file implements; none when the file is outside the source root or a name on
the way is no identifier. -/
def modulePath? (layout : Layout) (file : String) : Option ModulePath :=
  (Path.relativeTo? file layout.sourceRoot).bind fun relative =>
    (Path.stem? relative).bind fun stem =>
      let parents := (Path.parents relative).map Path.Component.text
      let segments := if stem = directoryStem then parents else parents ++ [stem]
      if segments.all isSegment then some ⟨segments⟩ else none

/-- The modules of files, each with the uri of its file. -/
def modulesOf (layout : Layout) (paths : List String) : List (ModulePath × String) :=
  paths.filterMap fun path => (layout.modulePath? path).map fun module => (module, Uri.ofPath path)

/-- Register modules in place of all that a layout registered before. -/
def register (table : SymbolTable) (modules : List (ModulePath × String)) : SymbolTable :=
  modules.foldl (fun table entry => table.registerModule entry.1 entry.2) table.clearLayout

/-- Register the modules of all documents below the source root. -/
def scan (layout : Layout) (files : FileTree) (table : SymbolTable) :
    List (ModulePath × String) × SymbolTable :=
  let modules := layout.modulesOf (layout.discover files)
  (modules, register table modules)

end Layout

end SchemaDoc
