/-!
Writing TOML: strings in the plainest form that holds them, and arrays with one item to a line.
-/

namespace SchemaDoc.Toml

/-- The length of the longest run of a character. -/
def longestRun (char : Char) (text : List Char) : Nat :=
  (text.foldl (fun (longest, current) next =>
    let current := if next = char then current + 1 else 0
    (max longest current, current)) (0, 0)).1

def hexDigits (value : Nat) : List Char :=
  [value / 4096 % 16, value / 256 % 16, value / 16 % 16, value % 16].map fun digit =>
    (Nat.digitChar digit).toUpper

/-- A character other than a quote between double quotes. In a string of several lines newlines
stay. -/
def basicChar (isLong : Bool) (char : Char) : List Char :=
  if char.toNat = 8 then ['\\', 'b']
  else if char = '\t' then ['\\', 't']
  else if char = '\n' then if isLong then ['\n'] else ['\\', 'n']
  else if char.toNat = 12 then ['\\', 'f']
  else if char = '\r' then ['\\', 'r']
  else if char = '\\' then ['\\', '\\']
  else if char.toNat < 32 ∨ char.toNat = 127 then ['\\', 'u'] ++ hexDigits char.toNat
  else [char]

/-- The text between double quotes. In a string of several lines up to two quotes may stand next to
each other as they are; `quotes` counts those just written. -/
def basicText (isLong : Bool) (quotes : Nat) : List Char → List Char
  | [] => []
  | char :: rest =>
    if char = '"' then
      if isLong ∧ quotes < 2 then '"' :: basicText isLong (quotes + 1) rest
      else '\\' :: '"' :: basicText isLong 0 rest
    else basicChar isLong char ++ basicText isLong 0 rest

/-- A string: in double quotes if nothing needs an escape, else in single quotes, else over several
lines, else with escapes. -/
def quote (text : String) : String :=
  let chars := text.toList
  let needsCodes := chars.any fun char =>
    (decide (char.toNat < 32) && char != '\t' && char != '\n') || char.toNat == 127
  let hasBackslash := chars.contains '\\'
  let hasNewline := chars.contains '\n'
  let singles := longestRun '\'' chars
  let doubles := longestRun '"' chars
  let basic (isLong : Bool) : String := String.ofList (basicText isLong 0 chars)
  let start := if hasNewline then "\n" else ""
  let short := "\"" ++ basic false ++ "\""
  let long := "\"\"\"" ++ start ++ basic true ++ "\"\"\""
  if !needsCodes && !hasBackslash && doubles = 0 && !hasNewline then short
  else if !needsCodes && singles = 0 && !hasNewline then "'" ++ text ++ "'"
  else if !needsCodes && !hasBackslash && doubles ≤ 2 then long
  else if !needsCodes && singles ≤ 2 then "'''" ++ start ++ text ++ "'''"
  else if hasNewline then long
  else short

/-- An array of strings, one to a line, with a comma behind each. -/
def array (items : List String) : String :=
  if items.isEmpty then "[]"
  else "[\n" ++ String.join (items.map fun item => "    " ++ quote item ++ ",\n") ++ "]"

/-- A table: its header and its lines. -/
def tableText (name : String) (lines : List (String × String)) : String :=
  "[" ++ name ++ "]\n" ++ String.join (lines.map fun (key, value) => key ++ " = " ++ value ++ "\n")

end SchemaDoc.Toml
