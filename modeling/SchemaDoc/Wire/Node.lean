import SchemaDoc.Tree.Node
import SchemaDoc.Wire.Diagnostic

/-!
Syntax trees as JSON: one object a node, with what its kind carries beside its type and range.
Absent roles, separators and children are left out.
-/

namespace SchemaDoc.Node

/-- The members that a kind adds to its node. -/
def Kind.members : Kind → List (String × Json)
  | .docComments text => [("text", .str text)]
  | .keyword value | .identifier value | .string value => [("value", .str value)]
  | .number value => [("value", .float value)]
  | .boolean value => [("value", .bool value)]
  | .resourceLocation space path => Json.member? "namespace" .str space ++ [("path", .str path)]
  | .identPath fromRoot => [("from_global_root", .bool fromRoot)]
  | .pair separator stop =>
    Json.member? "sep" Span.toJson separator ++ Json.member? "end" Span.toJson stop
  | .item stop => Json.member? "end" Span.toJson stop
  | .primitiveType primitive => [("name", .str primitive.name)]
  | .enum kind | .injectEnum kind => Json.member? "kind" (fun known => .str known.name) kind
  | .useClause isExport => [("is_export", .bool isExport)]
  | _ => []

mutual

def toJson : Node → Json
  | ⟨kind, span, role, children⟩ =>
    .obj (("type", .str kind.name) :: kind.members ++ [("range", span.toJson)] ++
      Json.member? "field" (fun known => .str known.name) role ++
      Json.memberIf (!children.isEmpty) "children" (.arr (forestJson children)))

def forestJson : List Node → List Json
  | [] => []
  | node :: nodes => node.toJson :: forestJson nodes

end

end SchemaDoc.Node
