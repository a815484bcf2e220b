import SchemaDoc.Parser.Production

/-!
Delimited sequences: entries between an opening and a closing token, separated by commas. One loop
serves tables of pairs and lists of items. It never gives up: each thing that is missing becomes a
problem, and the loop goes on only behind a comma or a non-empty entry, so it always advances.
-/

namespace SchemaDoc

/-- Whether a comma may stand behind the last entry. -/
inductive TrailingPolicy where
  | allowed
  | disallowed
  deriving DecidableEq, Repr, Inhabited

namespace TrailingPolicy

/-- Read a policy from a word, in any case of its letters. -/
def ofWord? (word : String) : Option TrailingPolicy :=
  match String.ofList (word.toList.map Char.toLower) with
  | "allowed" | "allow" => some allowed
  | "disallowed" | "disallow" => some disallowed
  | _ => none

def name : TrailingPolicy → String
  | allowed => "allowed"
  | disallowed => "disallowed"

/-- What is said about a word that names no policy. -/
def unknownText (word : String) : String :=
  "Unknown trailing policy: '" ++ word ++ "'. Valid: allowed, disallowed"

end TrailingPolicy

/-- The tokens around a sequence and its policy. -/
structure Delimiters where
  opening : String
  closing : String
  trailing : TrailingPolicy
  deriving DecidableEq, Repr

namespace Delimiters

def braces (trailing : TrailingPolicy) : Delimiters := ⟨"\x7b", "\x7d", trailing⟩

def brackets (trailing : TrailingPolicy) : Delimiters := ⟨"[", "]", trailing⟩

end Delimiters

namespace Parser

/-- What stands between two entries. -/
def entrySeparator : String := ","

/-- How to read an entry and how to tell that one starts. An entry is always returned; where
nothing was read it is empty. -/
structure EntryGrammar where
  entry : Cursor → Parsed
  starts : Cursor → Bool

/-- The entries of a sequence up to its closing token. -/
structure Entries where
  nodes : List Node := []
  errors : List Diagnostic := []
  /-- The end of the last thing that belongs to the sequence. -/
  stop : Nat
  next : Cursor
  deriving Inhabited

/-- Put an entry in front. -/
def Entries.cons (entry : Node) (errors : List Diagnostic) (entries : Entries) : Entries :=
  { entries with nodes := entry :: entries.nodes, errors := errors ++ entries.errors }

/-- The problem of a separator in front of the closing token. -/
def trailingErrors (delimiters : Delimiters) (separator : Span) : List Diagnostic :=
  match delimiters.trailing with
  | .allowed => []
  | .disallowed => [.ofMessage .trailingSeparation [] separator]

/-- Read entries; `stop` is where the sequence ends so far. -/
def entries (delimiters : Delimiters) (grammar : EntryGrammar) : Nat → Nat → Cursor → Entries
  | 0, stop, cursor => { stop, next := cursor }
  | fuel + 1, stop, cursor =>
    let cursor := cursor.skipTrivia
    if cursor.atEnd || cursor.startsWith delimiters.closing then { stop, next := cursor }
    else
      let parsed := grammar.entry cursor
      let isEmpty := parsed.node.span.isEmpty
      let stop := if isEmpty then stop else max stop parsed.node.span.stop
      let behind := parsed.next.skipTrivia
      match behind.read? entrySeparator with
      | some separated =>
        let separator := behind.spanTo separated
        let entry := parsed.node.endedBy separator
        let next := separated.skipTrivia
        if next.startsWith delimiters.closing then
          { nodes := [entry], errors := parsed.errors ++ trailingErrors delimiters separator,
            stop := separator.stop, next }
        else (entries delimiters grammar fuel separator.stop next).cons entry parsed.errors
      | none =>
        if isEmpty then { errors := parsed.errors, stop, next := behind }
        else if !behind.startsWith delimiters.closing && grammar.starts behind then
          (entries delimiters grammar fuel stop behind).cons parsed.node
            (parsed.errors ++ [.expectedToken entrySeparator parsed.node.span.stop])
        else { nodes := [parsed.node], errors := parsed.errors, stop, next := behind }

/-- A whole sequence. Without its opening token nothing is read; without its closing token it ends
with its last entry. -/
def sequence (kind : Node.Kind) (delimiters : Delimiters) (grammar : EntryGrammar)
    (cursor : Cursor) : Parsed :=
  match cursor.read? delimiters.opening with
  | none =>
    { node := { kind, span := cursor.here }
      errors := [.expectedToken delimiters.opening cursor.offset]
      next := cursor }
  | some opened =>
    let inner := entries delimiters grammar opened.remaining opened.offset opened
    let node (stop : Nat) : Node :=
      { kind, span := ⟨cursor.offset, stop⟩, children := inner.nodes }
    match inner.next.read? delimiters.closing with
    | some closed => { node := node closed.offset, errors := inner.errors, next := closed }
    | none =>
      { node := node inner.stop
        errors := inner.errors ++ [.expectedToken delimiters.closing inner.next.offset]
        next := inner.next }

/-- How the pairs of a table are written. -/
structure PairGrammar where
  key : Production
  separator : String
  value : Production
  /-- Whether doc comments may stand in front of a pair. -/
  docs : Bool

namespace PairGrammar

/-- The doc comments in front of a pair. -/
def doc (grammar : PairGrammar) (cursor : Cursor) : Fragment :=
  if grammar.docs then
    match cursor.readDocComments? with
    | some (doc, next) => { nodes := [doc.tagged .doc], next }
    | none => .empty cursor
  else .empty cursor

/-- A pair: what is missing of key, separator and value is a problem each. -/
def pair (grammar : PairGrammar) (cursor : Cursor) : Parsed :=
  let doc := grammar.doc cursor
  let key := (doc.andThen (Fragment.required grammar.key .key .expectedKey)).skipTrivia
  let separated := key.next.read? grammar.separator
  let behind := (separated.getD key.next).skipTrivia
  let separator := separated.map key.next.spanTo
  let value := Fragment.required grammar.value .value .expectedValue behind
  let covered := key.nodes.map Node.span ++ separator.toList ++ value.nodes.map Node.span
  let separatorErrors :=
    if separated.isSome then [] else [.expectedToken grammar.separator key.next.offset]
  { node :=
      { kind := .pair separator none
        span := Span.coverAll (.point doc.next.offset) covered
        children := key.nodes ++ value.nodes }
    errors := key.errors ++ separatorErrors ++ value.errors
    next := value.next }

/-- Whether a pair starts here, be it without its key. -/
def starts (grammar : PairGrammar) (cursor : Cursor) : Bool :=
  (grammar.docs && cursor.startsWith "///") || cursor.startsWith grammar.separator ||
    (grammar.key cursor).isSome

end PairGrammar

/-- A table of pairs. -/
def table (delimiters : Delimiters) (grammar : PairGrammar) : Cursor → Parsed :=
  sequence .table delimiters ⟨grammar.pair, grammar.starts⟩

/-- An item of a list; a missing value is a problem and leaves the item empty. -/
def item (value : Production) (cursor : Cursor) : Parsed :=
  match value cursor with
  | some parsed =>
    { parsed with
      node := { kind := .item none, span := parsed.node.span,
                children := [parsed.node.tagged .value] } }
  | none =>
    { node := { kind := .item none, span := cursor.here }
      errors := [.ofMessage .expectedValue [] cursor.here]
      next := cursor }

/-- A list of items. -/
def list (delimiters : Delimiters) (value : Production) : Cursor → Parsed :=
  sequence .list delimiters ⟨item value, fun cursor => (value cursor).isSome⟩

end Parser

end SchemaDoc
