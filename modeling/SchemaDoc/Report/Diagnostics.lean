import SchemaDoc.Diagnostic
import SchemaDoc.Json
import SchemaDoc.Storage.Path
import SchemaDoc.Text.LineIndex
import SchemaDoc.Text.Uri

/-!
The problems of a file as a reader sees them: files by their paths below the project root, places by
lines and columns.
-/

namespace SchemaDoc

/-- How a path is shown in a project: below the root without it, elsewhere in full. -/
def Path.shown (root path : String) : String := (Path.relativeTo? path root).getD path

/-- How the file of a uri is shown in a project. -/
def Uri.shown (root uri : String) : String := Path.shown root (Uri.toPath uri)

def LineSpan.members (span : LineSpan) : List (String × Json) :=
  [("line", .nat span.line), ("column", .nat span.column), ("end_line", .nat span.endLine),
    ("end_column", .nat span.endColumn)]

/-- The problems of a file that are reported. -/
structure FileReport where
  file : String
  text : String
  diagnostics : List Diagnostic
  deriving Inhabited

namespace FileReport

/-- Report the problems that are at least as serious as `least`. -/
def of (file text : String) (diagnostics : List Diagnostic) (least : Severity) : FileReport :=
  { file, text
    diagnostics := diagnostics.filter fun diagnostic => least.rank ≤ diagnostic.severity.rank }

/-- A place that a problem refers to. -/
def relatedJson (root : String) (related : RelatedPlace) : Json :=
  .obj [("file", .str (Uri.shown root related.location.uri)),
    ("start", .nat related.location.span.start), ("end", .nat related.location.span.stop),
    ("message", .str related.message)]

def diagnosticJson (root : String) (index : LineIndex) (diagnostic : Diagnostic) : Json :=
  .obj ([("severity", .str diagnostic.severity.display), ("message", .str diagnostic.message)] ++
    (index.locate diagnostic.span).members ++
    Json.memberIf (!diagnostic.related.isEmpty) "related"
      (.arr (diagnostic.related.map (relatedJson root))))

def members (root : String) (report : FileReport) : List (String × Json) :=
  let index := LineIndex.ofText report.text
  [("file", .str report.file), ("count", .nat report.diagnostics.length),
    ("diagnostics", .arr (report.diagnostics.map (diagnosticJson root index)))]

def toJson (root : String) (report : FileReport) : Json := .obj (report.members root)

end FileReport

end SchemaDoc
