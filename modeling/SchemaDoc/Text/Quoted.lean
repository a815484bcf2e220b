import SchemaDoc.Text.Printable

/-!
Quoted text for people: in double quotes, with a backslash before what would end or garble it. A
character that shows nothing, or that would merge with the one before it, is written by its code.
-/

namespace SchemaDoc.Text

/-- A character by its code, in lower case hexadecimal. -/
def escapeCode (char : Char) : List Char :=
  ['\\', 'u', '\x7b'] ++ Nat.toDigits 16 char.toNat ++ ['\x7d']

def quoteChar (char : Char) : List Char :=
  if char.toNat = 0 then ['\\', '0']
  else if char = '\t' then ['\\', 't']
  else if char = '\r' then ['\\', 'r']
  else if char = '\n' then ['\\', 'n']
  else if char = '"' then ['\\', '"']
  else if char = '\\' then ['\\', '\\']
  else if extendsPrevious char || isUnprintable char then escapeCode char
  else [char]

def quoted (text : String) : String :=
  "\"" ++ String.ofList (text.toList.flatMap quoteChar) ++ "\""

end SchemaDoc.Text
