/-!
The catalog of messages. A message is named by a stable key; its wording is an English template
with numbered holes. Filling the holes is simultaneous: text that comes in through an argument is
never read as a hole.
-/

namespace SchemaDoc

/-- What there is to report. -/
inductive Message where
  | expected
  | expectedKey
  | expectedValue
  | expectedIdentifier
  | expectedType
  | expectedDeclaration
  | expectedResourceLocation
  | trailingSeparation
  | unterminatedString
  | docCommentNotAttached
  | undefinedModuleSegment
  | emptyModuleSegment
  | duplicatedIdentifier
  | duplicatedIdentifierRelated
  | duplicatedModuleDeclaration
  | duplicatedModuleDeclarationRelated
  | nonExistentModule
  | superFromRoot
  | unknownModule
  | unknownIdentifier
  | circularModuleDependency
  | pathTooDeep
  | unmatchedInjection
  | compoundDefinition
  | enumDefinition
  deriving DecidableEq, Repr, Inhabited

namespace Message

/-- The identifier of the message, independent of its wording. -/
def id : Message → String
  | expected => "schemata.parser.expected"
  | expectedKey => "schemata.parser.expected-key"
  | expectedValue => "schemata.parser.expected-value"
  | expectedIdentifier => "schemata.parser.expected-identifier"
  | expectedType => "schemata.parser.expected-type"
  | expectedDeclaration => "schemata.parser.expected-declaration"
  | expectedResourceLocation => "schemata.parser.expected-resource-location"
  | trailingSeparation => "schemata.parser.trailing-separation"
  | unterminatedString => "schemata.parser.unterminated-string"
  | docCommentNotAttached => "schemata.parser.doc-comment-not-attached"
  | undefinedModuleSegment => "schemata.checker.entry.undefined-mod-seg"
  | emptyModuleSegment => "schemata.checker.entry.empty-mod-seg"
  | duplicatedIdentifier => "schemata.checker.duplicated-identifier"
  | duplicatedIdentifierRelated => "schemata.checker.duplicated-identifier.related"
  | duplicatedModuleDeclaration => "schemata.checker.module-declaration.duplicated"
  | duplicatedModuleDeclarationRelated => "schemata.checker.module-declaration.duplicated.related"
  | nonExistentModule => "schemata.checker.module-declaration.non-existent"
  | superFromRoot => "schemata.checker.ident-path.super-from-root"
  | unknownModule => "schemata.checker.ident-path.unknown-module"
  | unknownIdentifier => "schemata.checker.ident-path.unknown-identifier"
  | circularModuleDependency => "schemata.checker.ident-path.circular-dependency"
  | pathTooDeep => "schemata.checker.ident-path.too-deep"
  | unmatchedInjection => "schemata.checker.inject-clause.unmatched-injection"
  | compoundDefinition => "schemata.node.compound-definition"
  | enumDefinition => "schemata.node.enum-definition"

/-- The wording, with a hole for each argument. -/
def template : Message → String
  | expected => "Expected {0}"
  | expectedKey => "Expected a key"
  | expectedValue => "Expected a value"
  | expectedIdentifier => "Expected an identifier"
  | expectedType => "Expected a type"
  | expectedDeclaration => "Expected a declaration"
  | expectedResourceLocation => "Expected a resource location"
  | trailingSeparation => "Trailing separation"
  | unterminatedString => "Unterminated string"
  | docCommentNotAttached => "Doc comment is not attached to a declaration"
  | undefinedModuleSegment =>
    "Undefined module segment: this file is not part of any registered module"
  | emptyModuleSegment =>
    "Empty module segment: declarations in this file belong to the root module"
  | duplicatedIdentifier => "Duplicated identifier {0}"
  | duplicatedIdentifierRelated => "{0} is first declared here"
  | duplicatedModuleDeclaration => "Duplicated module declaration {0}"
  | duplicatedModuleDeclarationRelated => "Module {0} is first declared here"
  | nonExistentModule => "Module {0} does not exist"
  | superFromRoot => "Cannot go above root with \"super\""
  | unknownModule => "Unknown module {0}"
  | unknownIdentifier => "Unknown identifier {0} in module {1}"
  | circularModuleDependency => "Circular module dependency on {0}"
  | pathTooDeep => "Identifier path exceeds the maximum depth of {0}"
  | unmatchedInjection => "Unmatched injection: cannot inject {1} into {0}"
  | compoundDefinition => "struct"
  | enumDefinition => "enum"

/-- Every message, in the order of the catalog. -/
def all : List Message :=
  [expected, expectedKey, expectedValue, expectedIdentifier, expectedType, expectedDeclaration,
    expectedResourceLocation, trailingSeparation, unterminatedString, docCommentNotAttached,
    undefinedModuleSegment, emptyModuleSegment, duplicatedIdentifier, duplicatedIdentifierRelated,
    duplicatedModuleDeclaration, duplicatedModuleDeclarationRelated, nonExistentModule,
    superFromRoot, unknownModule, unknownIdentifier, circularModuleDependency, pathTooDeep,
    unmatchedInjection, compoundDefinition, enumDefinition]

/-- A number without the plus sign that may stand in front of it. -/
def unsigned : List Char → List Char
  | '+' :: digits => digits
  | digits => digits

/-- The number that digits write, behind a plus sign or alone, and nothing for other text. -/
def digitsValue? (number : List Char) : Option Nat :=
  match unsigned number with
  | [] => none
  | digits =>
    if digits.all Char.isDigit then
      some (digits.foldl (fun value digit => 10 * value + (digit.toNat - '0'.toNat)) 0)
    else none

/-- The argument that the hole at the start of `text` asks for, and the text behind the hole; the
brace that opens the hole is already read. -/
def hole? (arguments : List String) (text : List Char) : Option (String × List Char) :=
  match text.span (· != '\x7d') with
  | (_, []) => none
  | (number, _ :: rest) =>
    (digitsValue? number).bind fun index => arguments[index]?.map fun argument => (argument, rest)

/-- Replace each hole that has an argument, from left to right and never inside an argument. Every
other character stays. The fuel is the number of characters to read. -/
def fillFrom (arguments : List String) : Nat → List Char → List Char
  | 0, text => text
  | _ + 1, [] => []
  | fuel + 1, char :: text =>
    if char = '\x7b' then
      match hole? arguments text with
      | some (argument, rest) => argument.toList ++ fillFrom arguments fuel rest
      | none => char :: fillFrom arguments fuel text
    else char :: fillFrom arguments fuel text

/-- A template with its holes filled. -/
def fill (template : String) (arguments : List String) : String :=
  String.ofList (fillFrom arguments template.length template.toList)

/-- The text of a message. -/
def render (message : Message) (arguments : List String) : String :=
  fill message.template arguments

/-- An argument in quotes. -/
def quote (value : String) : String := "\"" ++ value ++ "\""

end Message

end SchemaDoc
