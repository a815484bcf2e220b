/-!
Words of a fixed number of bits, as bounds on natural numbers.
-/

namespace SchemaDoc

/-- The values of a word of `bits` bits lie below this bound. -/
def wordBound (bits : Nat) : Nat := Nat.pow 2 bits

end SchemaDoc
