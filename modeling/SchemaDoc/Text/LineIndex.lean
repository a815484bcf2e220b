import SchemaDoc.Number.Word
import SchemaDoc.Text.Span

/-!
Lines and columns for display. Both count from one, and a column counts bytes, so the pair of an
offset is found from the line starts alone: the line is searched by halving.
-/

namespace SchemaDoc

/-- Where each line of a text starts. -/
structure LineIndex where
  /-- Ascending; the first line starts at zero. -/
  starts : Array Nat
  size : Nat
  deriving Repr, Inhabited

namespace LineIndex

/-- The offsets just after each newline, for characters that begin at `offset`; collected in
reverse order on top of `found`. -/
def newlineEnds (found : List Nat) (offset : Nat) : List Char → List Nat
  | [] => found
  | char :: chars =>
    let next := offset + char.utf8Size
    newlineEnds (if char = '\n' then next :: found else found) next chars

def ofText (text : String) : LineIndex :=
  { starts := (0 :: (newlineEnds [] 0 text.toList).reverse).toArray, size := text.utf8ByteSize }

def lineCount (index : LineIndex) : Nat := index.starts.size

/-- Halve `count` lines from `first` on until one is left. The upper half is kept where it begins at
or before the offset. -/
def narrow (starts : Array Nat) (offset first count : Nat) (inside : first + count ≤ starts.size) :
    Nat :=
  if small : count ≤ 1 then first
  else if starts[first + count / 2] ≤ offset then
    narrow starts offset (first + count / 2) (count - count / 2) (by omega)
  else narrow starts offset first (count - count / 2) (by omega)
termination_by count

/-- The line that starts at the offset, or else the one in front of which such a line would stand. -/
def search (starts : Array Nat) (offset : Nat) : Except Nat Nat :=
  let line := narrow starts offset 0 starts.size (by omega)
  if inside : line < starts.size then
    if starts[line] = offset then .ok line
    else if starts[line] < offset then .error (line + 1)
    else .error line
  else .error 0

/-- The line, counted from zero, in which an offset stands. -/
def lineAt (index : LineIndex) (offset : Nat) : Nat :=
  match search index.starts offset with
  | .ok line => line
  | .error next => next - 1

/-- The line and column of an offset, as words of 32 bits; an offset beyond the text stands for its
end. -/
def lineColumn (index : LineIndex) (offset : Nat) : Nat × Nat :=
  let offset := min offset index.size
  let line := index.lineAt offset
  let column := offset - index.starts.getD line 0
  ((line + 1) % wordBound 32, (column + 1) % wordBound 32)

end LineIndex

/-- A span by lines and columns. -/
structure LineSpan where
  line : Nat
  column : Nat
  endLine : Nat
  endColumn : Nat
  deriving DecidableEq, Repr

def LineIndex.locate (index : LineIndex) (span : Span) : LineSpan :=
  let first := index.lineColumn span.start
  let last := index.lineColumn span.stop
  ⟨first.1, first.2, last.1, last.2⟩

end SchemaDoc
