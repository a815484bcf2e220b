import SchemaDoc.Parser.Document
import SchemaDoc.Proofs.CursorReading
import SchemaDoc.Proofs.LiteralLaws

/-! The language on paper: declarations as a writer thinks of them, the tokens that spell them, the
texts that these tokens may be spread over, and the trees that stand for them. Nothing here looks at
how a text is read. -/

namespace SchemaDoc

/-- The kind of a node without the places that it records. -/
def Node.Kind.bare : Node.Kind → Node.Kind
  | .pair _ _ => .pair none none
  | .item _ => .item none
  | kind => kind

mutual

def Node.bare : Node → Node
  | ⟨kind, _, role, children⟩ => ⟨kind.bare, .point 0, role, Node.bareAll children⟩

def Node.bareAll : List Node → List Node
  | [] => []
  | node :: nodes => node.bare :: Node.bareAll nodes

end

namespace Grammar

def made (kind : Node.Kind) (children : List Node) : Node := { kind, span := .point 0, children }

structure Identifier where
  first : Char
  rest : List Char
  starts : isIdentifierStart first = true
  continues : ∀ char ∈ rest, isIdentifierPart char = true

def Identifier.text (identifier : Identifier) : List Char := identifier.first :: identifier.rest

def Identifier.tree (identifier : Identifier) : Node := made (.identifier (String.ofList identifier.text)) []

/-- A path of identifiers, from the root module or not. -/
structure Path where
  fromRoot : Bool
  first : Identifier
  more : List Identifier

def Path.text (path : Path) : List Char :=
  (if path.fromRoot then "::".toList else []) ++
    (path.first.text ++ path.more.flatMap fun segment => "::".toList ++ segment.text)

def Path.tree (path : Path) : Node :=
  made (.identPath path.fromRoot) (path.first.tree :: path.more.map Identifier.tree)

/-- A string with one of the ways to write it. -/
structure Quoted where
  written : List Char
  value : List Char
  escaped : Parser.Escaped written value

def Quoted.text (quoted : Quoted) : List Char := '"' :: (quoted.written ++ ['"'])

def Quoted.tree (quoted : Quoted) : Node := made (.string (String.ofList quoted.value)) []

/-- A number in decimal digits, with or without places behind the point. -/
structure Decimal where
  isNegative : Bool
  whole : List Char
  places : List Char
  some : whole ≠ []
  wholeDigits : ∀ digit ∈ whole, digit.isDigit = true
  placeDigits : ∀ digit ∈ places, digit.isDigit = true

def Decimal.text (decimal : Decimal) : List Char :=
  (if decimal.isNegative then ['-'] else []) ++
    (decimal.whole ++ if decimal.places.isEmpty then [] else '.' :: decimal.places)

/-- The digits without the point, scaled by the number of places. -/
def Decimal.value (decimal : Decimal) : Binary64 :=
  .ofDecimal decimal.isNegative (Parser.digitsValue (decimal.whole ++ decimal.places)) (-Int.ofNat decimal.places.length)

inductive Literal where
  | string (value : Quoted)
  | number (value : Decimal)
  | boolean (value : Bool)

def Literal.text : Literal → List Char
  | .string value => value.text
  | .number value => value.text
  | .boolean value => (if value then "true" else "false").toList

def Literal.tree : Literal → Node
  | .string value => value.tree
  | .number value => made (.number value.value) []
  | .boolean value => made (.boolean value) []

/-- A type with the number of question marks behind it. -/
inductive TypeExpr where
  | list (item : TypeExpr) (marks : Nat)
  | literal (value : Literal) (marks : Nat)
  | primitive (value : Primitive) (marks : Nat)
  | reference (path : Path) (marks : Nat)

/-- One optional type around another one for each question mark. -/
def optionalTree (tree : Node) : Nat → Node
  | 0 => tree
  | marks + 1 => optionalTree (made .optionalType [tree.tagged .type]) marks

def TypeExpr.tree : TypeExpr → Node
  | .list item marks => optionalTree (made .listType [item.tree.tagged .type]) marks
  | .literal value marks => optionalTree (made .literalType [value.tree.tagged .value]) marks
  | .primitive value marks => optionalTree (made (.primitiveType value) []) marks
  | .reference path marks => optionalTree (made .referenceType [path.tree.tagged .path]) marks

/-- A resource location, in a namespace or not. A colon ends the namespace, so a location without one
has no colon. -/
structure Resource where
  space : Option (List Char)
  path : List Char
  spaceChars : ∀ chars ∈ space, ∀ char ∈ chars, Parser.isResourceChar char = true ∧ char ≠ ':'
  pathChars : ∀ char ∈ path, Parser.isResourceChar char = true
  noColon : space = none → path ≠ [] ∧ ':' ∉ path

def Resource.text (resource : Resource) : List Char :=
  match resource.space with
  | none => resource.path
  | some space => space ++ ':' :: resource.path

def Resource.tree (resource : Resource) : Node :=
  made (.resourceLocation (resource.space.map String.ofList) (String.ofList resource.path)) []

structure DocLine where
  line : List Char
  noNewline : '\n' ∉ line
  noReturn : '\r' ∉ line

def docTree : List DocLine → List Node
  | [] => []
  | docs => [(made (.docComments ("\n".intercalate (docs.map fun doc => String.ofList doc.line))) []).tagged .doc]

/-- Something with doc comments in front of it, written as a pair. -/
structure Entry (Key Value : Type) where
  docs : List DocLine
  key : Key
  value : Value

def Entry.tree {Key Value : Type} (key : Key → Node) (value : Value → Node) (entry : Entry Key Value) : Node :=
  made (.pair none none) (docTree entry.docs ++ [(key entry.key).tagged .key, (value entry.value).tagged .value])

inductive Key where
  | identifier (name : Identifier)
  | string (value : Quoted)

def Key.text : Key → List Char
  | .identifier name => name.text
  | .string value => value.text

def Key.tree : Key → Node
  | .identifier name => name.tree
  | .string value => value.tree

structure Body (α : Type) where
  entries : List α
  comma : Bool

abbrev Fields := Body (Entry Key TypeExpr)

abbrev Members := Body (Entry Identifier Literal)

def Fields.tree (fields : Fields) : Node :=
  (made .table (fields.entries.map (Entry.tree Key.tree TypeExpr.tree))).tagged .body

def Members.tree (members : Members) : Node :=
  (made .table (members.entries.map (Entry.tree Identifier.tree Literal.tree))).tagged .body

def objectsTree (objects : Body Resource) : Node :=
  (made .list (objects.entries.map fun object => made (.item none) [object.tree.tagged .value])).tagged .objects

/-- The six forms of a declaration; an injection adds a struct or an enum. -/
inductive Form where
  | struct (name : Identifier) (fields : Fields)
  | enum (kind : EnumKind) (name : Identifier) (members : Members)
  | module (name : Identifier)
  | use (isExport : Bool) (path : Path)
  | injectStruct (path : Path) (fields : Fields)
  | injectEnum (kind : EnumKind) (path : Path) (members : Members)
  | describes (path : Path) (registry : Resource) (objects : Option (Body Resource))

structure Declaration where
  docs : List DocLine
  form : Form

def keywordTree (word : String) : Node := (made (.keyword word) []).tagged .keyword

def kindTree (kind : EnumKind) : Node := (made (.keyword kind.name) []).tagged .kind

def semicolonTree : Node := made (.keyword ";") []

def Form.kind : Form → Node.Kind
  | .struct _ _ => .struct
  | .enum kind _ _ => .enum (some kind)
  | .module _ => .moduleDeclaration
  | .use isExport _ => .useClause isExport
  | .injectStruct _ _ | .injectEnum _ _ _ => .injectClause
  | .describes _ _ _ => .describesClause

/-- The parts of a declaration in the order of the text. -/
def Form.parts : Form → List Node
  | .struct name fields => [keywordTree "struct", name.tree.tagged .identifier, fields.tree]
  | .enum kind name members => [keywordTree "enum", kindTree kind, name.tree.tagged .identifier, members.tree]
  | .module name => [keywordTree "mod", name.tree.tagged .identifier, semicolonTree]
  | .use isExport path =>
    (if isExport then [keywordTree "export"] else []) ++ [keywordTree "use", path.tree.tagged .path, semicolonTree]
  | .injectStruct path fields =>
    let parts := [keywordTree "struct", path.tree.tagged .path, fields.tree]
    [keywordTree "inject", (made .injectStruct parts).tagged .definition]
  | .injectEnum kind path members =>
    let parts := [keywordTree "enum", kindTree kind, path.tree.tagged .path, members.tree]
    [keywordTree "inject", (made (.injectEnum (some kind)) parts).tagged .definition]
  | .describes path registry objects =>
    [path.tree.tagged .path, keywordTree "describes", registry.tree.tagged .registry] ++
      (objects.map objectsTree).toList ++ [semicolonTree]

def Declaration.tree (declaration : Declaration) : Node :=
  made declaration.form.kind (docTree declaration.docs ++ declaration.form.parts)

/-- A token. Only a doc comment has to be ended by its line. -/
structure Token where
  text : List Char
  isDoc : Bool := false

def token (text : String) : Token := { text := text.toList }

def docTokens (docs : List DocLine) : List Token :=
  docs.map fun doc => { text := "/// ".toList ++ doc.line, isDoc := true }

/-- The tokens of a type. No gap is allowed in front of question marks, so they belong to the last
token. -/
def TypeExpr.tokens : TypeExpr → List Token
  | .list item marks => token "[" :: (item.tokens ++ [{ text := ']' :: List.replicate marks '?' }])
  | .literal value marks => [{ text := value.text ++ List.replicate marks '?' }]
  | .primitive value marks => [{ text := value.name.toList ++ List.replicate marks '?' }]
  | .reference path marks => [{ text := path.text ++ List.replicate marks '?' }]

/-- Entries with commas between them, and one behind the last if there is to be one. -/
def commaTokens {α : Type} (tokens : α → List Token) (comma : Bool) : List α → List Token
  | [] => []
  | [entry] => tokens entry ++ if comma then [token ","] else []
  | entry :: next :: entries => tokens entry ++ token "," :: commaTokens tokens comma (next :: entries)

def Body.tokens {α : Type} (opening closing : String) (tokens : α → List Token) (body : Body α) : List Token :=
  token opening :: (commaTokens tokens body.comma body.entries ++ [token closing])

def fieldTokens (field : Entry Key TypeExpr) : List Token :=
  docTokens field.docs ++ { text := field.key.text } :: token ":" :: field.value.tokens

def memberTokens (member : Entry Identifier Literal) : List Token :=
  docTokens member.docs ++ [{ text := member.key.text }, token "=", { text := member.value.text }]

def Fields.tokens (fields : Fields) : List Token := Body.tokens "\x7b" "\x7d" fieldTokens fields

def Members.tokens (members : Members) : List Token := Body.tokens "\x7b" "\x7d" memberTokens members

def objectsTokens (objects : Body Resource) : List Token :=
  objects.tokens "[" "]" fun object => [{ text := object.text }]

def enumTokens (kind : EnumKind) (name : List Char) (members : Members) : List Token :=
  token "enum" :: token "(" :: token kind.name :: token ")" :: { text := name } :: members.tokens

def Form.tokens : Form → List Token
  | .struct name fields => token "struct" :: { text := name.text } :: fields.tokens
  | .enum kind name members => enumTokens kind name.text members
  | .module name => [token "mod", { text := name.text }, token ";"]
  | .use isExport path =>
    (if isExport then [token "export"] else []) ++ [token "use", { text := path.text }, token ";"]
  | .injectStruct path fields => token "inject" :: token "struct" :: { text := path.text } :: fields.tokens
  | .injectEnum kind path members => token "inject" :: enumTokens kind path.text members
  | .describes path registry objects =>
    { text := path.text } :: token "describes" :: { text := registry.text } ::
      ((objects.map objectsTokens).getD [] ++ [token ";"])

def Declaration.tokens (declaration : Declaration) : List Token :=
  docTokens declaration.docs ++ declaration.form.tokens

/-- Blanks and whole line comments, wherever they stand. -/
def Filler (gap : List Char) : Prop := ∀ rest, Trivia rest gap

/-- A gap behind a token: one blank, and the end of the line behind a doc comment, then any filler. -/
def Token.Gap (token : Token) (gap : List Char) : Prop :=
  ∃ char filler, gap = char :: filler ∧ Filler filler ∧
    if token.isDoc then char = '\n' else Text.isBlank char = true

/-- The texts that tokens may be spread over. The last token may end the text. -/
inductive Spread : List Token → List Char → Prop where
  | nil : Spread [] []
  | last {token tail} (trivia : Trivia [] tail) : Spread [token] (token.text ++ tail)
  | cons {token next tokens gap chars} (spaced : token.Gap gap) (more : Spread (next :: tokens) chars) :
      Spread (token :: next :: tokens) (token.text ++ (gap ++ chars))

/-- The text writes the declarations, one behind the other. -/
def Written (declarations : List Declaration) (text : List Char) : Prop :=
  ∃ filler chars, text = filler ++ chars ∧ Trivia chars filler ∧ Spread (declarations.flatMap Declaration.tokens) chars

/-- The path does not begin with one of the words, or a separator stands in front of it. -/
def Path.Avoids (words : List String) (path : Path) : Prop :=
  path.fromRoot = true ∨ String.ofList path.first.text ∉ words

/-- The words that begin a declaration other than a describes clause. -/
def declarationWords : List String := ["struct", "enum", "mod", "use", "export", "inject"]

/-- The words that are types of their own. -/
def typeWords : List String := "true" :: "false" :: Primitive.all.map Primitive.name

/-- No reference in the type begins with a word that is a type of its own. -/
def TypeExpr.Readable : TypeExpr → Prop
  | .list item _ => item.Readable
  | .reference path _ => path.Avoids typeWords
  | _ => True

/-- The text begins with two slashes and no third one. -/
def OpensComment (text : List Char) : Prop := ∃ line, text = '/' :: '/' :: line ∧ line.head? ≠ some '/'

def Fields.Readable (fields : Fields) : Prop := ∀ field ∈ fields.entries, field.value.Readable

/-- Nothing in the declaration is taken for something else: no path for a keyword or a type, and no
resource location for a comment. -/
def Declaration.Readable (declaration : Declaration) : Prop :=
  match declaration.form with
  | .struct _ fields | .injectStruct _ fields => fields.Readable
  | .describes path registry objects =>
    path.Avoids declarationWords ∧ ¬ OpensComment registry.text ∧
      ∀ body ∈ objects, ∀ object ∈ body.entries, ¬ OpensComment object.text
  | _ => True

end Grammar

end SchemaDoc
