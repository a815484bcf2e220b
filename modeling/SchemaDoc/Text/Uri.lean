import SchemaDoc.Text.Utf8

/-!
Paths as `file://` uris. Letters, digits and a few marks stay as they are; every other octet of the
path is written as `%` and two capital hexadecimal digits. Reading takes both cases of the digits
and leaves a `%` that starts no escape alone.
-/

namespace SchemaDoc.Uri

def scheme : String := "file://"

/-- A character that needs no escape. -/
def isPlain (char : Char) : Bool :=
  char.isAlphanum || char == '/' || char == '.' || char == '-' || char == '_' || char == '~'

/-- A capital hexadecimal digit. -/
def hexDigit (value : Nat) : Char := (Nat.digitChar value).toUpper

/-- The escape of an octet. -/
def escape (octet : Nat) : List Char := ['%', hexDigit (octet / 16), hexDigit (octet % 16)]

def encodeChar (char : Char) : List Char :=
  if isPlain char then [char] else (Text.Utf8.encode char).flatMap escape

/-- The value of a hexadecimal digit, given by its octet. -/
def hexValue? (octet : Nat) : Option Nat :=
  if 48 ≤ octet ∧ octet ≤ 57 then some (octet - 48)
  else if 65 ≤ octet ∧ octet ≤ 70 then some (octet - 55)
  else if 97 ≤ octet ∧ octet ≤ 102 then some (octet - 87)
  else none

/-- The octet that two hexadecimal digits write. -/
def octet? (high low : Nat) : Option Nat :=
  (hexValue? high).bind fun high => (hexValue? low).map fun low => 16 * high + low

/-- Replace escapes by the octets they write. -/
def unescape : List Nat → List Nat
  | 37 :: high :: low :: rest =>
    match octet? high low with
    | some octet => octet :: unescape rest
    | none => 37 :: unescape (high :: low :: rest)
  | octet :: rest => octet :: unescape rest
  | [] => []

/-- The uri of an absolute path. -/
def ofPath (path : String) : String :=
  scheme ++ String.ofList (path.toList.flatMap encodeChar)

/-- The path that a uri names. A text of another scheme stands for itself. -/
def toPath (uri : String) : String :=
  if scheme.toList.isPrefixOf uri.toList then
    let octets := (uri.toList.drop scheme.toList.length).flatMap Text.Utf8.encode
    String.ofList (Text.Utf8.decode (unescape octets))
  else uri

end SchemaDoc.Uri
