/-!
Which characters separate tokens. The set is Unicode's `White_Space` property; nothing else, in
particular no byte order mark and no zero width space, counts as blank.
-/

namespace SchemaDoc.Text

/-- A character with the `White_Space` property. -/
def isBlank (char : Char) : Bool :=
  let code := char.toNat
  (0x09 ≤ code && code ≤ 0x0D) || code == 0x20 || code == 0x85 || code == 0xA0 ||
    code == 0x1680 || (0x2000 ≤ code && code ≤ 0x200A) || code == 0x2028 || code == 0x2029 ||
    code == 0x202F || code == 0x205F || code == 0x3000

/-- A line without the blanks at its end. -/
def trimEnd (line : List Char) : List Char :=
  (line.reverse.dropWhile isBlank).reverse

end SchemaDoc.Text
