import SchemaDoc.Storage.FileTree
import SchemaDoc.Text.Blank
import SchemaDoc.Text.Wildcard

/-!
Ignore patterns. A pattern without a slash matches a name at any depth; one with a slash matches
from its directory on. A slash at the end restricts it to directories, `*` stands for any run of
characters within a name, brackets for one of the characters in them, and a name `**` for any run of
directories. A character behind a backslash stands for itself. An exclamation mark in front makes an
exception from the patterns before. Blanks at the end of a pattern do not belong to it.
-/

namespace SchemaDoc.Ignore

/-- What a character of a name must be. -/
inductive CharMark where
  | any
  | exactly (char : Char)
  | among (isNegated : Bool) (ranges : List (Char × Char))
  deriving DecidableEq, Repr

def CharMark.fits : CharMark → Char → Bool
  | any, _ => true
  | exactly expected, char => expected == char
  | among isNegated ranges, char =>
    (ranges.any fun (low, high) => decide (low ≤ char ∧ char ≤ high)) != isNegated

/-- What a name on the way must look like. -/
abbrev NamePattern := List (Wildcard CharMark)

def NamePattern.fits (pattern : NamePattern) (name : String) : Bool :=
  Wildcard.accepts CharMark.fits pattern name.toList

/-- Brackets that are still open: the ranges in them, the latest first, and whether that one waits for its
end. -/
structure Brackets where
  isNegated : Bool
  ranges : List (Char × Char) := []
  isWaiting : Bool := false

/-- One more character in brackets. The first one always stands for itself, and a range must not run
backwards. -/
def Brackets.add? (brackets : Brackets) (char : Char) : Option Brackets :=
  match brackets.ranges, brackets.isWaiting with
  | (low, _) :: ranges, true =>
    if char < low then none
    else some { brackets with ranges := (low, char) :: ranges, isWaiting := false }
  | _ :: _, false =>
    if char = '-' then some { brackets with isWaiting := true }
    else some { brackets with ranges := (char, char) :: brackets.ranges }
  | [], _ => some { brackets with ranges := [(char, char)] }

/-- What closed brackets stand for. A dash at the end stands for itself. -/
def Brackets.mark (brackets : Brackets) : CharMark :=
  .among brackets.isNegated
    (if brackets.isWaiting then ('-', '-') :: brackets.ranges else brackets.ranges)

/-- Put a piece in front of the first name. -/
def attach (piece : Wildcard CharMark) : List NamePattern → List NamePattern
  | [] => [[piece]]
  | name :: names => (piece :: name) :: names

/-- The names between the slashes of a pattern, read from within brackets or outside of any. There
are none where brackets stay open or a backslash has nothing behind it. -/
def readNames? : Option Brackets → List Char → Option (List NamePattern)
  | some _, [] => none
  | some brackets, char :: rest =>
    if char = ']' ∧ brackets.ranges ≠ [] then
      (readNames? none rest).map (attach (.one brackets.mark))
    else (brackets.add? char).bind fun brackets => readNames? (some brackets) rest
  | none, [] => some [[]]
  | none, ['\\'] => none
  | none, '\\' :: char :: rest =>
    (readNames? none rest).map (if char = '/' then ([] :: ·) else attach (.one (.exactly char)))
  | none, '[' :: '!' :: rest => readNames? (some { isNegated := true }) rest
  | none, '[' :: '^' :: rest => readNames? (some { isNegated := true }) rest
  | none, '[' :: rest => readNames? (some { isNegated := false }) rest
  | none, '/' :: rest => (readNames? none rest).map ([] :: ·)
  | none, '*' :: rest => (readNames? none rest).map (attach .run)
  | none, '?' :: rest => (readNames? none rest).map (attach (.one .any))
  | none, char :: rest => (readNames? none rest).map (attach (.one (.exactly char)))

/-- Any run of directories. -/
def deep : NamePattern := [.run, .run]

/-- The names that an entry is compared with. A slash behind nothing but `**` adds no name, and what
ends in `**` means all that is in the directories before it. -/
def completed (names : List NamePattern) : List NamePattern :=
  if names.length ≤ 1 then names.filter fun name => !name.isEmpty
  else if names.getLast? == some [] && names.dropLast.all (· == deep) then names.dropLast
  else if names.getLast? == some deep then names ++ [[.run]]
  else names

structure Pattern where
  /-- The names from the directory of the pattern on. -/
  names : List (Wildcard NamePattern)
  directoriesOnly : Bool
  /-- Whether what matches is kept after all. -/
  isException : Bool
  deriving DecidableEq, Repr

/-- Whether an entry, given by its names from the directory of the pattern on, matches. -/
def Pattern.matchesEntry (pattern : Pattern) (names : List String) (isDirectory : Bool) : Bool :=
  (isDirectory || !pattern.directoriesOnly) &&
    Wildcard.accepts NamePattern.fits pattern.names names

/-- Read a pattern. The empty one matches everything. -/
def Pattern.read? (isException : Bool) (line : List Char) : Option Pattern :=
  let startsAtTop := line.head? == some '/'
  let body := if startsAtTop then line.drop 1 else line
  let directoriesOnly := body.getLast? == some '/'
  let body := if directoriesOnly then body.dropLast else body
  let body := if directoriesOnly && body.getLast? == some '\\' then body.dropLast else body
  (readNames? none body).map fun read =>
    let names := (completed read).map fun name => if name = deep then .run else .one name
    { names := if startsAtTop || body.contains '/' then names else .run :: names
      directoriesOnly, isException }

/-- A line without the blanks at its end, unless the last one stands behind a backslash. -/
def trimmed (line : List Char) : List Char :=
  if ['\\', ' '].isSuffixOf line then line else Text.trimEnd line

/-- The pattern of a path that settings ignore, which is never an exception. -/
def Pattern.ofSetting? (text : String) : Option Pattern := read? false (trimmed text.toList)

def Pattern.ofLine? (line : String) : Option Pattern :=
  match trimmed line.toList with
  | '!' :: rest => read? true rest
  | chars => read? false chars

/-- The lines of a file that come before the first one that is no text. -/
def linesOf (content : ByteArray) : List String :=
  let lines := (content.toList.splitOn 10).map fun line => String.fromUTF8? line.toByteArray
  (lines.takeWhile Option.isSome).filterMap id

/-- The patterns in an ignore file. Blank lines, comments and lines that are no pattern hold none, and
byte order marks in front of the file are skipped. -/
def patternsOf (content : ByteArray) : List Pattern :=
  let lines := match linesOf content with
    | [] => []
    | first :: rest =>
      String.ofList (first.toList.dropWhile fun char => char == Char.ofNat 0xFEFF) :: rest
  (lines.filter fun line =>
    line.toList.head? != some '#' && !line.toList.all Text.isBlank).filterMap Pattern.ofLine?

/-- What is decided about an entry. -/
inductive Verdict where
  | ignored
  | kept
  deriving DecidableEq, Repr

def Pattern.verdict (pattern : Pattern) : Verdict :=
  if pattern.isException then .kept else .ignored

/-- Patterns with the names of the directory that they start from. -/
structure Rules where
  directory : List String
  patterns : List Pattern

/-- What the last pattern that matches an entry decides about it. -/
def Rules.verdict? (rules : Rules) (names : List String) (isDirectory : Bool) : Option Verdict :=
  if rules.directory.isPrefixOf names && names.length != rules.directory.length then
    (rules.patterns.reverse.find? fun pattern =>
      pattern.matchesEntry (names.drop rules.directory.length) isDirectory).map Pattern.verdict
  else none

/-- A kind of ignore file. -/
structure Source where
  /-- The names that lead to it from the directory that it is for. -/
  names : List String
  /-- Whether it says nothing about the repositories inside of its own. -/
  isOfRepository : Bool

/-- The ignore files of a directory, those that go before others first. -/
def sources : List Source :=
  [⟨[".ignore"], false⟩, ⟨[".gitignore"], true⟩, ⟨[".git", "info", "exclude"], true⟩]

/-- The rules of all files of a kind. -/
def Source.rulesOf (source : Source) (files : FileTree) : List Rules :=
  files.entries.filterMap fun entry =>
    match entry.2 with
    | .directory => none
    | .file content =>
      if source.names.isSuffixOf entry.1 then
        some ⟨entry.1.take (entry.1.length - source.names.length), patternsOf content⟩
      else none

/-- The directories that lead to an entry, the nearest first. -/
def directoriesOf (names : List String) : List (List String) :=
  (List.range names.length).reverse.map names.take

def isRepository (files : FileTree) (directory : List String) : Bool :=
  (files.find? (directory ++ [".git"])).isSome

/-- The directories whose files of a kind are asked about an entry. -/
def Source.directoriesOf (source : Source) (files : FileTree) (names : List String) :
    List (List String) :=
  let directories := Ignore.directoriesOf names
  if source.isOfRepository then directories.take (directories.findIdx (isRepository files) + 1)
  else directories

/-- All that is said about the entries of a tree: by settings, by the ignore files of each kind, and by
one file for all. -/
structure Policy where
  files : FileTree
  settings : Rules
  nested : List (Source × List Rules)
  shared : Option Rules

/-- What the nearest ignore file of a kind that speaks of an entry decides about it. -/
def nearest? (files : FileTree) (source : Source) (rules : List Rules) (names : List String)
    (isDirectory : Bool) : Option Verdict :=
  (source.directoriesOf files names).findSome? fun directory =>
    (rules.find? fun rule => rule.directory == directory).bind fun rule =>
      rule.verdict? names isDirectory

def Policy.verdict? (policy : Policy) (names : List String) (isDirectory : Bool) : Option Verdict :=
  (policy.settings.verdict? names isDirectory).or
    ((policy.nested.findSome? fun (source, rules) =>
      nearest? policy.files source rules names isDirectory).or
        (policy.shared.bind fun rules => rules.verdict? names isDirectory))

end SchemaDoc.Ignore
