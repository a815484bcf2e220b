import SchemaDoc.Parser.Literal

/-!
Type expressions: lists in brackets, literals, primitive names and references, each followed by any
number of question marks.
-/

namespace SchemaDoc.Parser

/-- A list type from its opening bracket on. Without its closing bracket it ends with its item. -/
def listType (item : Production) (cursor opened : Cursor) : Parsed :=
  let inner := (Fragment.required item .type .expectedType opened.skipTrivia).skipTrivia
  let lastStop := (inner.nodes.getLast?.map fun node => node.span.stop).getD (cursor.offset + 1)
  let node (stop : Nat) : Node :=
    { kind := .listType, span := ⟨cursor.offset, stop⟩, children := inner.nodes }
  match inner.next.read? "]" with
  | some closed => { node := node closed.offset, errors := inner.errors, next := closed }
  | none =>
    { node := node lastStop
      errors := inner.errors ++ [.expectedToken "]" inner.next.offset]
      next := inner.next }

/-- A node around another one, with the same span. -/
def wrap (kind : Node.Kind) (role : Node.Role) (inner : Parsed) : Parsed :=
  { inner with node := { kind, span := inner.node.span, children := [inner.node.tagged role] } }

def primitiveType : Production := fun cursor =>
  (Primitive.ofName? (String.ofList cursor.word)).map fun primitive =>
    leaf (.primitiveType primitive) cursor cursor.afterWord

/-- A type without question marks behind it. -/
def primaryType (item : Production) : Production := fun cursor =>
  match cursor.read? "[" with
  | some opened => some (listType item cursor opened)
  | none =>
    (literal cursor).map (wrap .literalType .value) <|> primitiveType cursor <|>
      (identPath cursor).map (wrap .referenceType .path)

/-- One optional type around a node for each question mark; the first mark stands at `offset`. -/
def optionalTypes (node : Node) (offset : Nat) : List Char → Node
  | [] => node
  | _ :: marks =>
    let outer : Node :=
      { kind := .optionalType, span := node.span.cover ⟨offset, offset + 1⟩,
        children := [node.tagged .type] }
    optionalTypes outer (offset + 1) marks

/-- A type whose brackets nest less than `depth` deep. -/
def typeWithin : Nat → Production
  | 0 => fun _ => none
  | depth + 1 => fun cursor =>
    (primaryType (typeWithin depth) cursor).map fun primary =>
      let (marks, next) := primary.next.readWhile (· == '?')
      { primary with node := optionalTypes primary.node primary.next.offset marks, next }

/-- A type. Each bracket takes a byte, so no more can nest than there are bytes ahead. -/
def typeExpr : Production := fun cursor => typeWithin cursor.remaining cursor

end SchemaDoc.Parser
