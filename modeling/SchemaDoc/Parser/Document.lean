import SchemaDoc.Parser.Sequence
import SchemaDoc.Parser.TypeExpr

/-!
Declarations and whole documents.

```text
document    := (doc? declaration)*
declaration := struct | enum | mod | use | inject | describes
struct      := "struct" IDENT table<key ":" type>
enum        := "enum" "(" KIND ")" IDENT table<IDENT "=" literal>
mod         := "mod" IDENT ";"
use         := "export"? "use" path ";"
inject      := "inject" ("struct" path table | "enum" "(" KIND ")" path table)
describes   := path "describes" resource ("[" resource, ... "]")? ";"
type        := ("[" type "]" | literal | PRIMITIVE | path) "?"*
path        := "::"? IDENT ("::" IDENT)*
```

Every text has a tree. A declaration that lacks a part is kept with the parts it has; a line that
starts no declaration is reported and passed over.
-/

namespace SchemaDoc

/-- What a text was read as. -/
structure ParseResult where
  node : Node
  errors : List Diagnostic
  deriving Inhabited, Repr

namespace Parser

/-- The fields of a struct. -/
def structField : PairGrammar := ⟨fieldKey, ":", typeExpr, true⟩

/-- The entries of an enum. -/
def enumField : PairGrammar := ⟨identifier, "=", literal, true⟩

/-- Strings by strings. -/
def stringPair : PairGrammar := ⟨string, ":", string, false⟩

/-- A keyword in its role, if it stands here. -/
def keyword? (word : String) (cursor : Cursor) : Option Fragment :=
  (cursor.readKeyword? word).map fun next =>
    .ofParsed (leaf (.keyword word) cursor next) .keyword

/-- A keyword that may be missing. -/
def optionalKeyword (word : String) (cursor : Cursor) : Fragment :=
  (keyword? word cursor).getD (.empty cursor)

/-- A keyword whose absence is a problem. -/
def requiredKeyword (word : String) (cursor : Cursor) : Fragment :=
  (keyword? word cursor).getD (.missing .expected [Message.quote word] cursor)

def requiredIdentifier (cursor : Cursor) : Fragment :=
  Fragment.required identifier .identifier .expectedIdentifier cursor.skipTrivia

def requiredPath (cursor : Cursor) : Fragment :=
  Fragment.required identPath .path .expectedIdentifier cursor.skipTrivia

/-- A token that leaves no node. -/
def requiredToken (token : String) (cursor : Cursor) : Fragment :=
  let cursor := cursor.skipTrivia
  match cursor.read? token with
  | some next => .empty next
  | none => .missing .expected [Message.quote token] cursor

/-- The semicolon behind a clause. -/
def terminator (cursor : Cursor) : Fragment :=
  let cursor := cursor.skipTrivia
  match cursor.read? ";" with
  | some next => { nodes := [(leaf (.keyword ";") cursor next).node], next }
  | none => .missing .expected [Message.quote ";"] cursor

/-- The word between the parentheses behind `enum`. An unknown word is kept, but reported. -/
def enumKindWord (cursor : Cursor) : Fragment :=
  let cursor := cursor.skipTrivia
  match cursor.readIdentifier? with
  | none => .missing .expected ["an enum kind"] cursor
  | some (word, next) =>
    let found := Fragment.ofParsed (leaf (.keyword word) cursor next) .kind
    if (EnumKind.ofName? word).isSome then found
    else { found with errors := [.ofMessage .expected ["an enum kind"] (cursor.spanTo next)] }

/-- The kind of an enum in parentheses. Without the opening one nothing more is looked for. -/
def enumKindClause (cursor : Cursor) : Fragment :=
  let cursor := cursor.skipTrivia
  match cursor.read? "(" with
  | none => .missing .expected [Message.quote "("] cursor
  | some opened => (enumKindWord opened).andThen (requiredToken ")")

/-- The kind that a fragment names. -/
def enumKind? (fragment : Fragment) : Option EnumKind :=
  (fragment.nodes.find? fun node => node.role == some .kind).bind fun node =>
    match node.kind with
    | .keyword word => EnumKind.ofName? word
    | _ => none

/-- A body of pairs in braces. -/
def body (trailing : TrailingPolicy) (grammar : PairGrammar) (cursor : Cursor) : Fragment :=
  .ofParsed (table (.braces trailing) grammar cursor.skipTrivia) .body

/-- A declaration before its doc comments are put in front. -/
structure Draft where
  kind : Node.Kind
  parts : Fragment

def structDeclaration (trailing : TrailingPolicy) (cursor : Cursor) : Draft :=
  { kind := .struct
    parts := (optionalKeyword "struct" cursor).andThen requiredIdentifier
      |>.andThen (body trailing structField) }

def enumDeclaration (trailing : TrailingPolicy) (cursor : Cursor) : Draft :=
  let parts := (optionalKeyword "enum" cursor).andThen enumKindClause
    |>.andThen requiredIdentifier
    |>.andThen (body trailing enumField)
  { kind := .enum (enumKind? parts), parts }

def moduleDeclaration (cursor : Cursor) : Draft :=
  { kind := .moduleDeclaration
    parts := (optionalKeyword "mod" cursor).andThen requiredIdentifier |>.andThen terminator }

def useClause (cursor : Cursor) : Draft :=
  match keyword? "export" cursor with
  | some exported =>
    { kind := .useClause true
      parts := exported.skipTrivia.andThen (requiredKeyword "use") |>.andThen requiredPath
        |>.andThen terminator }
  | none =>
    { kind := .useClause false
      parts := (requiredKeyword "use" cursor).andThen requiredPath |>.andThen terminator }

/-- The definition that an inject clause adds to another type. -/
def injectedDefinition (trailing : TrailingPolicy) (cursor : Cursor) : Fragment :=
  match keyword? "struct" cursor with
  | some found =>
    let parts := (found.andThen requiredPath).andThen (body trailing structField)
    .ofParsed (parts.finish .injectStruct cursor.offset) .definition
  | none =>
    match keyword? "enum" cursor with
    | some found =>
      let parts := (found.andThen enumKindClause).andThen requiredPath
        |>.andThen (body trailing enumField)
      .ofParsed (parts.finish (.injectEnum (enumKind? parts)) cursor.offset) .definition
    | none => .missing .expected ["\"struct\" or \"enum\""] cursor

def injectClause (trailing : TrailingPolicy) (cursor : Cursor) : Draft :=
  { kind := .injectClause
    parts := (optionalKeyword "inject" cursor).skipTrivia.andThen (injectedDefinition trailing) }

/-- The objects that a describes clause lists. A comma behind the last one is always allowed. -/
def describedObjects (cursor : Cursor) : Fragment :=
  if cursor.startsWith "[" then
    .ofParsed (list (.brackets .allowed) resourceLocation cursor) .objects
  else .empty cursor

def describesClause (cursor : Cursor) : Draft :=
  { kind := .describesClause
    parts := (requiredPath cursor).skipTrivia.andThen (requiredKeyword "describes")
      |>.skipTrivia
      |>.andThen (Fragment.required resourceLocation .registry .expectedResourceLocation)
      |>.skipTrivia
      |>.andThen describedObjects
      |>.andThen terminator }

/-- The declaration that starts here, if one does. A word that is no keyword, or a path separator,
starts a describes clause. -/
def draft (trailing : TrailingPolicy) (cursor : Cursor) : Option Draft :=
  match String.ofList cursor.word with
  | "struct" => some (structDeclaration trailing cursor)
  | "enum" => some (enumDeclaration trailing cursor)
  | "mod" => some (moduleDeclaration cursor)
  | "use" | "export" => some (useClause cursor)
  | "inject" => some (injectClause trailing cursor)
  | "" => if cursor.startsWith pathSeparator then some (describesClause cursor) else none
  | _ => some (describesClause cursor)

/-- A declaration with the doc comments that stand in front of it. -/
def declaration (trailing : TrailingPolicy) (doc : Option Node) (cursor : Cursor) :
    Option Parsed :=
  (draft trailing cursor).map fun found =>
    let docs := doc.toList.map fun node => node.tagged .doc
    Fragment.finish { found.parts with nodes := docs ++ found.parts.nodes } found.kind cursor.offset

/-- Doc comments with no declaration behind them: they are kept, with a warning. -/
def looseDoc : Option Node → Cursor → Fragment
  | none, cursor => .empty cursor
  | some doc, cursor =>
    { nodes := [doc.tagged .doc]
      errors := [(Diagnostic.ofMessage .docCommentNotAttached [] doc.span).withSeverity .warning]
      next := cursor }

/-- Pass over a line that starts no declaration. The report covers the line without the blanks at
its end. -/
def strayLine (cursor : Cursor) : Fragment :=
  if cursor.atEnd then .empty cursor
  else
    let (line, next) := cursor.readLine
    let stop := cursor.offset + byteLength (Text.trimEnd line)
    { errors := [.ofMessage .expectedDeclaration [] ⟨cursor.offset, stop⟩], next }

/-- One declaration, or what stands in its place. -/
def topLevel (trailing : TrailingPolicy) (cursor : Cursor) : Fragment :=
  let (doc, behind) := match cursor.readDocComments? with
    | some (doc, next) => (some doc, next)
    | none => (none, cursor)
  match declaration trailing doc behind with
  | some parsed => { nodes := [parsed.node], errors := parsed.errors, next := parsed.next }
  | none => (looseDoc doc behind).andThen strayLine

/-- All declarations up to the end of the text. -/
def declarations (trailing : TrailingPolicy) : Nat → Cursor → Fragment
  | 0, cursor => .empty cursor
  | fuel + 1, cursor =>
    let cursor := cursor.skipTrivia
    if cursor.atEnd then .empty cursor
    else (topLevel trailing cursor).andThen (declarations trailing fuel)

end Parser

/-- Read a whole document. -/
def parse (text : String) (trailing : TrailingPolicy) : ParseResult :=
  let start := Cursor.ofText text
  let found := Parser.declarations trailing start.remaining start
  { node :=
      { kind := .document, span := ⟨0, text.utf8ByteSize⟩, children := found.nodes }
    errors := found.errors }

/-- Read a table of strings by strings. -/
def parseTable (text : String) (trailing : TrailingPolicy) : ParseResult :=
  let parsed := Parser.table (.braces trailing) Parser.stringPair (Cursor.ofText text).skipTrivia
  { node := parsed.node, errors := parsed.errors }

end SchemaDoc
