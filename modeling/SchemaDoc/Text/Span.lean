/-!
Places in a document. All offsets count UTF-8 bytes from the start of the text, so a span can be
handed to an editor without looking at the text again.
-/

namespace SchemaDoc

/-- The number of bytes that characters take in UTF-8. -/
def byteLength (chars : List Char) : Nat :=
  chars.foldr (fun char size => char.utf8Size + size) 0

/-- The bytes from `start` up to, but not including, `stop`. -/
structure Span where
  start : Nat
  stop : Nat
  deriving DecidableEq, Repr, Inhabited

namespace Span

/-- The empty span that marks the place between two characters. -/
def point (offset : Nat) : Span := ⟨offset, offset⟩

/-- The smallest span that covers both. -/
def cover (first second : Span) : Span :=
  ⟨min first.start second.start, max first.stop second.stop⟩

/-- The smallest span that covers all of `spans`, or `fallback` when there is none. -/
def coverAll (fallback : Span) : List Span → Span
  | [] => fallback
  | span :: spans => spans.foldl cover span

def length (span : Span) : Nat := span.stop - span.start

def isEmpty (span : Span) : Bool := span.start == span.stop

def contains (outer inner : Span) : Bool :=
  decide (outer.start ≤ inner.start) && decide (inner.stop ≤ outer.stop)

/-- An offset at either end counts as contained: a caret may stand there. -/
def containsOffset (span : Span) (offset : Nat) : Bool :=
  decide (span.start ≤ offset) && decide (offset ≤ span.stop)

/-- Move both ends to the right. -/
def shift (distance : Nat) (span : Span) : Span :=
  ⟨span.start + distance, span.stop + distance⟩

/-- The characters after the first `count` bytes; none when a character stands across the cut or
the text is shorter. -/
def dropBytes : Nat → List Char → Option (List Char)
  | 0, chars => some chars
  | _ + 1, [] => none
  | count + 1, char :: chars =>
    if char.utf8Size ≤ count + 1 then dropBytes (count + 1 - char.utf8Size) chars else none

/-- The characters in the first `count` bytes, in reverse order on top of `taken`; none when a
character stands across the cut or the text is shorter. -/
def takeBytes (taken : List Char) : Nat → List Char → Option (List Char)
  | 0, _ => some taken
  | _ + 1, [] => none
  | count + 1, char :: chars =>
    if char.utf8Size ≤ count + 1 then
      takeBytes (char :: taken) (count + 1 - char.utf8Size) chars
    else none

/-- The text that the span covers, clamped to the text. A span that cuts a character covers
nothing. -/
def slice (span : Span) (text : String) : String :=
  let stop := min span.stop text.utf8ByteSize
  let start := min span.start stop
  match dropBytes start text.toList with
  | none => ""
  | some rest =>
    match takeBytes [] (stop - start) rest with
    | none => ""
    | some taken => String.ofList taken.reverse

def display (span : Span) : String :=
  "[" ++ toString span.start ++ ", " ++ toString span.stop ++ "]"

end Span

/-- A span of one document. -/
structure Location where
  uri : String
  span : Span
  deriving DecidableEq, Repr, Inhabited

def Location.display (location : Location) : String :=
  location.uri ++ "@" ++ toString location.span.start ++ ".." ++ toString location.span.stop

end SchemaDoc
