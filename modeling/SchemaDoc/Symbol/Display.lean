import SchemaDoc.Number.Shortest
import SchemaDoc.Symbol.Basic
import SchemaDoc.Text.Quoted

/-!
Literals for people: numbers without an exponent, strings in quotes.
-/

namespace SchemaDoc

def LiteralValue.display : LiteralValue → String
  | .boolean true => "true"
  | .boolean false => "false"
  | .number value => value.display
  | .string value => Text.quoted value

end SchemaDoc
