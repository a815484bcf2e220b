/-!
UTF-8 by octets. Encoding follows the four forms of the standard. Decoding never fails: a maximal
run of octets that begins a character but does not complete it, and every octet that cannot begin
one, becomes a replacement character.
-/

namespace SchemaDoc.Text.Utf8

/-- The octets of a character. -/
def encode (char : Char) : List Nat :=
  let code := char.toNat
  if code < 0x80 then [code]
  else if code < 0x800 then [0xC0 + code / 64, 0x80 + code % 64]
  else if code < 0x10000 then
    [0xE0 + code / 4096, 0x80 + code / 64 % 64, 0x80 + code % 64]
  else
    [0xF0 + code / 262144, 0x80 + code / 4096 % 64, 0x80 + code / 64 % 64, 0x80 + code % 64]

/-- What stands for octets that are no character. -/
def replacement : Char := Char.ofNat 0xFFFD

/-- The first octets of a character: the bits read so far, how many octets are owed, and the least
and greatest value of the next one. -/
structure Pending where
  code : Nat
  owed : Nat
  least : Nat := 0x80
  greatest : Nat := 0xBF
  deriving DecidableEq, Repr

/-- What the first octet of a character promises. The bounds on the second octet rule out forms
that are too long, surrogates and codes beyond Unicode. -/
def begin? (octet : Nat) : Option Pending :=
  if 0xC2 ≤ octet ∧ octet ≤ 0xDF then some { code := octet - 0xC0, owed := 1 }
  else if octet = 0xE0 then some { code := 0, owed := 2, least := 0xA0 }
  else if octet = 0xED then some { code := 0xD, owed := 2, greatest := 0x9F }
  else if 0xE1 ≤ octet ∧ octet ≤ 0xEF then some { code := octet - 0xE0, owed := 2 }
  else if octet = 0xF0 then some { code := 0, owed := 3, least := 0x90 }
  else if 0xF1 ≤ octet ∧ octet ≤ 0xF3 then some { code := octet - 0xF0, owed := 3 }
  else if octet = 0xF4 then some { code := 4, owed := 3, greatest := 0x8F }
  else none

/-- Read an octet between two characters. -/
def fresh (octet : Nat) : List Char × Option Pending :=
  if octet < 0x80 then ([Char.ofNat octet], none)
  else
    match begin? octet with
    | some pending => ([], some pending)
    | none => ([replacement], none)

/-- Read an octet: the characters that it completes and what is owed behind it. -/
def step : Option Pending → Nat → List Char × Option Pending
  | none, octet => fresh octet
  | some pending, octet =>
    if pending.least ≤ octet ∧ octet ≤ pending.greatest then
      let code := pending.code * 64 + (octet - 0x80)
      if pending.owed ≤ 1 then ([Char.ofNat code], none)
      else ([], some { code, owed := pending.owed - 1 })
    else
      let (chars, next) := fresh octet
      (replacement :: chars, next)

/-- Decode octets behind the beginning of a character. -/
def decodeFrom : Option Pending → List Nat → List Char
  | none, [] => []
  | some _, [] => [replacement]
  | pending, octet :: octets =>
    let (chars, next) := step pending octet
    chars ++ decodeFrom next octets

def decode (octets : List Nat) : List Char := decodeFrom none octets

end SchemaDoc.Text.Utf8
