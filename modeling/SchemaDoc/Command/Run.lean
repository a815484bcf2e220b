import SchemaDoc.Command.Arguments
import SchemaDoc.Command.Output
import SchemaDoc.Command.Selection
import SchemaDoc.Command.Session
import SchemaDoc.Report.Symbols
import SchemaDoc.Wire.Node
import SchemaDoc.Wire.Settings

/-!
The commands. Each one reads the files of the session and answers; those that write answer with the
files as they are afterwards.
-/

namespace SchemaDoc

namespace Session

def init (session : Session) (name : Option String) (force : Bool) : Answer × FileTree :=
  match Project.init session.files session.root name force with
  | .ok (info, files) =>
    (.success [("status", .str "initialized"), ("name", .str info.name), ("path", .str info.root),
      ("config_path", .str (Path.shown session.root info.settingsPath))], files)
  | .error error => (.failure error.message, session.files)

def status (session : Session) (detailed : Bool) : Answer :=
  let status := Project.status session.files session.root session.settings
  .success ([("initialized", .bool status.project.isSome), ("path", .str session.root)] ++
    Json.member? "name" (fun info => .str (ProjectInfo.name info)) status.project ++
    [("source_root", .str (Path.shown session.root status.sourceRoot)),
      ("extension", .str session.settings.project.extension),
      ("documents", .nat status.documentCount)] ++
    Json.memberIf detailed "project_dir"
      (.str (Path.shown session.root (projectDirectory session.root))) ++
    Json.memberIf detailed "known_registries" (Json.texts session.settings.registries.known))

/-- A settings file: where it is and whether it exists. -/
def settingsFile (session : Session) (files : FileTree) (isGlobal : Bool) : List (String × Json) :=
  [("path", .str (Path.shown session.root (session.places.path isGlobal))),
    ("exists", .bool (session.places.isPresent files isGlobal))]

def settingsInit (session : Session) (force : Bool) : Answer × FileTree :=
  match Settings.init session.files session.places true force with
  | .ok files => (.success (session.settingsFile files true), files)
  | .error error => (.failure error.message, session.files)

def settingsShow (session : Session) (isGlobal : Bool) : Answer :=
  let loaded :=
    if isGlobal then Settings.loadGlobal session.files session.places
    else Settings.load session.files session.places session.environment
  match loaded with
  | .ok settings =>
    .success [("level", .str (if isGlobal then "global" else "merged")),
      ("config", settings.toJson), ("limits", settings.limits.toJson)]
  | .error error => .failure error.message

def settingsPath (session : Session) : Answer :=
  .success [
    ("project", .obj (session.settingsFile session.files false)),
    ("global", .obj (session.settingsFile session.files true))]

/-- The problems of documents that were checked, leaving out those without any. -/
def fileReports (root : String) (workspace : Workspace) (least : Severity)
    (results : List (String × Option LoadError)) : List FileReport :=
  results.filterMap fun (uri, error) =>
    let report := FileReport.of (Uri.shown root uri) ((workspace.text? uri).getD "")
      (workspace.diagnostics uri) least
    if error.isSome || report.diagnostics.isEmpty then none else some report

/-- The documents that could not be checked, each with the reason. -/
def failures (root : String) (results : List (String × Option LoadError)) : List Json :=
  results.filterMap fun (uri, error) =>
    error.map fun error =>
      .obj [("file", .str (Uri.shown root uri)), ("error", .str error.message)]

/-- Check the documents that paths name, or all of them where none is given. -/
def check (session : Session) (paths : List String) (least : Severity)
    (trailing : TrailingPolicy) : Answer :=
  let setup := session.setup trailing
  let workspace := session.workspace trailing
  let uris :=
    if paths.isEmpty then Workspace.sortedUnique workspace.moduleDocuments
    else Selection.documents session.files workspace.moduleDocuments session.root paths
  let (results, workspace) := workspace.checkUris setup uris
  let reports := fileReports session.root workspace least results
  let failed := failures session.root results
  let count (severity : Severity) : Json :=
    .nat ((reports.flatMap FileReport.diagnostics).countP fun diagnostic =>
      diagnostic.severity == severity)
  .success ([("checked", .nat (results.length - failed.length)), ("error_count", count .error),
      ("warning_count", count .warning),
      ("files", .arr (reports.map (FileReport.toJson session.root)))] ++
    Json.memberIf (!failed.isEmpty) "failures" (.arr failed))

/-- The problems and, unless only those are wanted, the tree of a document. -/
def parsedFile (session : Session) (trailing : TrailingPolicy) (errorsOnly : Bool)
    (document : TextDocument) : Json :=
  let parsed := SchemaDoc.parse document.text trailing
  let report :=
    FileReport.of (Uri.shown session.root document.uri) document.text parsed.errors .hint
  .obj (report.members session.root ++ Json.memberIf (!errorsOnly) "tree" parsed.node.toJson)

/-- Parse documents, project or not. The first one that cannot be read ends the program. -/
def parse (session : Session) (paths : List String) (trailing : TrailingPolicy)
    (errorsOnly : Bool) : Answer :=
  let read (path : String) : Except DocumentError TextDocument :=
    Documents.fetch session.files session.limits.maxFileSizeBytes
      (Uri.ofPath (Path.join session.root path))
  match paths.mapM read with
  | .ok documents =>
    .success [("files", .arr (documents.map (parsedFile session trailing errorsOnly)))]
  | .error error => .abort error.message

/-- The symbols after all documents were checked. -/
def symbols (session : Session) (category module : Option String) : Answer :=
  let (_, workspace) := (session.workspace .allowed).checkAll (session.setup .allowed)
  .success (SymbolReport.members session.root workspace.table
    (Selection.symbols workspace.table category (module.map ModulePath.parse)))

/-- The modules and their documents, on demand also the documents that implement none. -/
def modules (session : Session) (unmapped : Bool) : Answer :=
  let layout := session.layout
  let (registered, _) := layout.scan session.files {}
  let rows := registered.map fun (module, uri) =>
    Json.obj [("module", .str module.display), ("file", .str (Uri.shown session.root uri))]
  let others := (layout.discover session.files).filter fun path =>
    !registered.any fun entry => entry.2 == Uri.ofPath path
  .success ([("source_root", .str (Path.shown session.root layout.sourceRoot)),
      ("count", .nat rows.length), ("modules", .arr rows)] ++
    Json.memberIf unmapped "unmapped" (Json.texts (others.map (Path.shown session.root))))

end Session

/-- Do what a command says; the answer, and the files afterwards. -/
def Command.run (session : Session) : Command → Answer × FileTree
  | .init name force => session.init name force
  | .status detailed => (session.status detailed, session.files)
  | .settingsInit force => session.settingsInit force
  | .settingsShow isGlobal => (session.settingsShow isGlobal, session.files)
  | .settingsPath => (session.settingsPath, session.files)
  | .check paths least trailing => (session.check paths least trailing, session.files)
  | .parse paths trailing errorsOnly => (session.parse paths trailing errorsOnly, session.files)
  | .symbols category module => (session.symbols category module, session.files)
  | .modules unmapped => (session.modules unmapped, session.files)

namespace Halt

def versionNumber : String := "1.0.0"

/-- What is shown where help was asked for. -/
def helpText : String :=
  "\n".intercalate [
    "Checks schema documents. All answers are JSON.", "",
    "  schemata init [--name NAME] [--force]",
    "  schemata status [--detailed]",
    "  schemata config init [--force]",
    "  schemata config show [--global]",
    "  schemata config path",
    "  schemata check [PATHS] [--severity SEVERITY] [--trailing POLICY]",
    "  schemata parse PATHS [--trailing POLICY] [--errors-only]",
    "  schemata symbols [--category CATEGORY] [--module MODULE]",
    "  schemata modules [--unmapped]", ""]

def output : Halt → Output
  | help => ⟨helpText, 0⟩
  | version name => ⟨name ++ " " ++ versionNumber ++ "\n", 0⟩
  | misuse => ⟨"", Output.failureCode⟩

end Halt

/-- Run the program with arguments in a directory; what it prints, and the files afterwards. -/
def run (root : String) (environment : Environment) (files : FileTree)
    (arguments : List String) : Output × FileTree :=
  match Command.ofArguments arguments with
  | .error halt => (halt.output, files)
  | .ok command =>
    let session := Session.start root environment files
    let (answer, files) := command.run session
    (answer.print session.settings.output.pretty, files)

end SchemaDoc
