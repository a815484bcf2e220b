import SchemaDoc.Message
import SchemaDoc.Text.Span

/-!
Diagnostics: recoverable problems found in a document. Nothing in this library fails on a bad
document; each problem becomes one of these, anchored at a span.
-/

namespace SchemaDoc

/-- How serious a problem is, from least to most. -/
inductive Severity where
  | hint
  | information
  | warning
  | error
  deriving DecidableEq, Repr, Inhabited

namespace Severity

def rank : Severity → Nat
  | hint => 0
  | information => 1
  | warning => 2
  | error => 3

def ofRank? : Nat → Option Severity
  | 0 => some hint
  | 1 => some information
  | 2 => some warning
  | 3 => some error
  | _ => none

def display : Severity → String
  | error => "error"
  | warning => "warning"
  | information => "info"
  | hint => "hint"

/-- Read a severity from a word, in any case of its letters. The words hold ASCII letters only, and
no other letter has one of theirs as its lower case. -/
def ofWord? (word : String) : Option Severity :=
  match String.ofList (word.toList.map Char.toLower) with
  | "error" | "e" => some error
  | "warning" | "warn" | "w" => some warning
  | "info" | "information" | "i" => some information
  | "hint" | "h" => some hint
  | _ => none

/-- What is said about a word that names no severity. -/
def unknownText (word : String) : String :=
  "Unknown severity: '" ++ word ++ "'. Valid: error, warning, info, hint"

end Severity

/-- Another place that helps to understand a problem. -/
structure RelatedPlace where
  location : Location
  message : String
  deriving DecidableEq, Repr, Inhabited

/-- Optional details of a diagnostic. -/
structure DiagnosticInfo where
  codeAction : Option String := none
  deprecated : Bool := false
  unnecessary : Bool := false
  related : List RelatedPlace := []
  deriving DecidableEq, Repr, Inhabited

/-- A problem at a span of a document. -/
structure Diagnostic where
  message : String
  span : Span
  severity : Severity
  info : Option DiagnosticInfo := none
  deriving DecidableEq, Repr, Inhabited

namespace Diagnostic

/-- An error with a message of the catalog. -/
def ofMessage (message : Message) (arguments : List String) (span : Span) : Diagnostic :=
  { message := message.render arguments, span, severity := .error }

/-- An error about a token, quoted, that should stand at an offset. -/
def expectedToken (token : String) (offset : Nat) : Diagnostic :=
  ofMessage .expected [Message.quote token] (.point offset)

def withSeverity (diagnostic : Diagnostic) (severity : Severity) : Diagnostic :=
  { diagnostic with severity }

/-- Change the details; a diagnostic without any starts from empty ones. -/
def withInfo (diagnostic : Diagnostic) (change : DiagnosticInfo → DiagnosticInfo) : Diagnostic :=
  { diagnostic with info := some (change (diagnostic.info.getD {})) }

def withRelated (diagnostic : Diagnostic) (location : Location) (message : String) : Diagnostic :=
  diagnostic.withInfo fun info => { info with related := info.related ++ [⟨location, message⟩] }

def withCodeAction (diagnostic : Diagnostic) (action : String) : Diagnostic :=
  diagnostic.withInfo fun info => { info with codeAction := some action }

def deprecated (diagnostic : Diagnostic) : Diagnostic :=
  diagnostic.withInfo fun info => { info with deprecated := true }

def unnecessary (diagnostic : Diagnostic) : Diagnostic :=
  diagnostic.withInfo fun info => { info with unnecessary := true }

def related (diagnostic : Diagnostic) : List RelatedPlace :=
  (diagnostic.info.map DiagnosticInfo.related).getD []

def isError (diagnostic : Diagnostic) : Bool := diagnostic.severity == .error

end Diagnostic

end SchemaDoc
