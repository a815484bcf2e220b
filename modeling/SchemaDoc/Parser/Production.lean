import SchemaDoc.Parser.Cursor

/-!
The shape of a parser. A production either finds nothing, and then the text is as it was, or it
returns a node together with the problems found inside it and the cursor behind it. Declarations are
put together from fragments: runs of nodes with their problems, composed from left to right.
-/

namespace SchemaDoc

/-- What a successful production returns. -/
structure Parsed where
  node : Node
  errors : List Diagnostic := []
  next : Cursor
  deriving Inhabited, Repr

/-- A parser for one construct. `none` means that the construct does not start here. -/
abbrev Production := Cursor → Option Parsed

/-- The first production, or the second where the first finds nothing. -/
def Production.orElse (first second : Production) : Production :=
  fun cursor => first cursor <|> second cursor

/-- Nodes that follow each other, the problems found on the way, and the cursor behind them. -/
structure Fragment where
  nodes : List Node := []
  errors : List Diagnostic := []
  next : Cursor
  deriving Inhabited, Repr

namespace Fragment

/-- Nothing read. -/
def empty (cursor : Cursor) : Fragment := { next := cursor }

/-- Nothing read, and a problem to report here. -/
def missing (message : Message) (arguments : List String) (cursor : Cursor) : Fragment :=
  { errors := [.ofMessage message arguments cursor.here], next := cursor }

/-- Continue behind the first fragment. -/
def andThen (first : Fragment) (step : Cursor → Fragment) : Fragment :=
  let second := step first.next
  { nodes := first.nodes ++ second.nodes
    errors := first.errors ++ second.errors
    next := second.next }

/-- Skip blanks and comments behind the fragment. -/
def skipTrivia (fragment : Fragment) : Fragment :=
  { fragment with next := fragment.next.skipTrivia }

/-- One parsed node in a role. -/
def ofParsed (parsed : Parsed) (role : Node.Role) : Fragment :=
  { nodes := [parsed.node.tagged role], errors := parsed.errors, next := parsed.next }

/-- What a production finds, in a role; its absence is a problem. -/
def required (production : Production) (role : Node.Role) (message : Message) (cursor : Cursor) :
    Fragment :=
  match production cursor with
  | some parsed => ofParsed parsed role
  | none => missing message [] cursor

/-- The node made of a fragment: it covers its children, and without any it stands at `start`. -/
def finish (fragment : Fragment) (kind : Node.Kind) (start : Nat) : Parsed :=
  { node := { kind, span := Span.coverAll (.point start) (fragment.nodes.map Node.span),
              children := fragment.nodes }
    errors := fragment.errors
    next := fragment.next }

end Fragment

end SchemaDoc
