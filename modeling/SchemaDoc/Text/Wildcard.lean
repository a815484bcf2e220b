/-!
Patterns with wildcards over sequences of any kind: characters of a name as well as names of a path.
A wildcard stands for any run of items, also for none. Matching works from the end of a pattern to
its start and keeps one answer for every ending of the sequence, so its cost is the product of the
two lengths, however many wildcards there are.
-/

namespace SchemaDoc

/-- A piece of a pattern whose single items are described by marks. -/
inductive Wildcard (Mark : Type) where
  /-- Any run of items. -/
  | run
  /-- One item that fits the mark. -/
  | one (mark : Mark)
  deriving DecidableEq, Repr

namespace Wildcard

variable {Mark Item : Type}

/-- For every ending of a sequence, whether this ending or one behind it was accepted. -/
def widen : List Bool → List Bool
  | [] => []
  | accepted :: shorter =>
    let rest := widen shorter
    (accepted || rest.headD false) :: rest

/-- For every ending of a sequence, whether its first item passes and what follows was accepted. -/
def prepend (passes : Item → Bool) : List Item → List Bool → List Bool
  | [], _ => [false]
  | item :: items, accepted =>
    let shorter := accepted.drop 1
    (passes item && shorter.headD false) :: prepend passes items shorter

/-- For every ending of a sequence, from the whole to the empty one, whether a pattern matches. -/
def endings (fits : Mark → Item → Bool) (items : List Item) : List (Wildcard Mark) → List Bool
  | [] => List.replicate items.length false ++ [true]
  | run :: pattern => widen (endings fits items pattern)
  | one mark :: pattern => prepend (fits mark) items (endings fits items pattern)

/-- Whether a pattern matches a whole sequence. -/
def accepts (fits : Mark → Item → Bool) (pattern : List (Wildcard Mark)) (items : List Item) :
    Bool :=
  (endings fits items pattern).headD false

end Wildcard

end SchemaDoc
