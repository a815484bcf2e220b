import SchemaDoc.Number.Binary64

/-!
TOML values. A table remembers how it came about, since that decides whether a later line may add
to it: a table that a header opened is closed for dotted keys, a table that dotted keys opened is
closed for headers, and an inline table is closed for both.
-/

namespace SchemaDoc.Toml

/-- How a table came about. -/
inductive Origin where
  /-- A header names it. -/
  | header
  /-- It is on the way to a table that a header names. -/
  | implied
  /-- It is on the way of a dotted key. -/
  | dotted
  | inline
  deriving DecidableEq, Repr

inductive Value where
  | text (value : String)
  | int (value : Int)
  | float (value : Binary64)
  | bool (value : Bool)
  | date (digits : String)
  | array (items : List Value)
  | table (origin : Origin) (entries : List (String × Value))
  /-- The tables of headers in double brackets, in order. -/
  | tables (items : List (List (String × Value)))
  deriving Inhabited, Repr

/-- The entries of a table, in the order of the text. -/
abbrev Entries := List (String × Value)

/-- Replace the value of a key that is present. -/
def Entries.replace (entries : Entries) (key : String) (value : Value) : Entries :=
  entries.map fun entry => if entry.1 = key then (key, value) else entry

/-- Add a key that is not present. -/
def Entries.add? (entries : Entries) (key : String) (value : Value) : Option Entries :=
  if (entries.lookup key).isSome then none else some (entries ++ [(key, value)])

/-- Change the table at the end of a path of headers. Tables that are missing on the way are opened;
of the tables in double brackets the last one is meant. -/
def Entries.atHeader? (change : Entries → Option Entries) : List String → Entries → Option Entries
  | [], entries => change entries
  | key :: keys, entries =>
    match entries.lookup key with
    | none => (atHeader? change keys []).map fun inner => entries ++ [(key, .table .implied inner)]
    | some (.table .inline _) => none
    | some (.table origin inner) =>
      (atHeader? change keys inner).map fun inner => entries.replace key (.table origin inner)
    | some (.tables items) =>
      match items.reverse with
      | [] => none
      | last :: before =>
        (atHeader? change keys last).map fun inner =>
          entries.replace key (.tables (inner :: before).reverse)
    | some _ => none

/-- Open the table that a header names. It must be new, or known only as being on the way. -/
def Entries.open? (path : List String) (entries : Entries) : Option Entries :=
  match path.getLast? with
  | none => none
  | some key =>
    entries.atHeader? (fun parent =>
      match parent.lookup key with
      | none => some (parent ++ [(key, .table .header [])])
      | some (.table .implied inner) => some (parent.replace key (.table .header inner))
      | some _ => none) path.dropLast

/-- Open one more table of a header in double brackets. -/
def Entries.push? (path : List String) (entries : Entries) : Option Entries :=
  match path.getLast? with
  | none => none
  | some key =>
    entries.atHeader? (fun parent =>
      match parent.lookup key with
      | none => some (parent ++ [(key, .tables [[]])])
      | some (.tables items) => some (parent.replace key (.tables (items ++ [[]])))
      | some _ => none) path.dropLast

/-- Set a dotted key. The tables on its way are opened by it, and the last of them must be; of the
tables in double brackets the last one is meant. -/
def Entries.set? (value : Value) : List String → Entries → Option Entries
  | [], _ => none
  | [key], entries => entries.add? key value
  | key :: keys, entries =>
    match entries.lookup key with
    | none => (set? value keys []).map fun inner => entries ++ [(key, .table .dotted inner)]
    | some (.table .dotted inner) =>
      (set? value keys inner).map fun inner => entries.replace key (.table .dotted inner)
    | some (.table .implied inner) =>
      if keys.length = 1 then none
      else (set? value keys inner).map fun inner => entries.replace key (.table .implied inner)
    | some (.tables items) =>
      match items.reverse with
      | [] => none
      | last :: before =>
        if keys.length = 1 then none
        else (set? value keys last).map fun inner =>
          entries.replace key (.tables (inner :: before).reverse)
    | some _ => none

end SchemaDoc.Toml
