import SchemaDoc.Json
import SchemaDoc.Number.Word
import SchemaDoc.Diagnostic

/-!
Diagnostics as JSON. Encoding leaves out what has its default value; decoding puts the default back.
A record may also come as the list of its fields in order; then only fields with a default may be
missing from its end.
-/

namespace SchemaDoc

namespace Json

/-- The whole numbers that an offset can be. -/
def toOffset? : Json → Option Nat
  | .int value => if 0 ≤ value ∧ value.toNat < wordBound 64 then some value.toNat else none
  | _ => none

def toText? : Json → Option String
  | .str value => some value
  | _ => none

def toBool? : Json → Option Bool
  | .bool value => some value
  | _ => none

def toItems? : Json → Option (List Json)
  | .arr items => some items
  | _ => none

/-- The fields of a record in the order of `names`: from an object by name, from a list by
position. None of the names may be repeated, and a list may not be longer than the record. -/
def fields? (names : List String) : Json → Option (List (Option Json))
  | .obj members =>
    if names.any fun name => 1 < (members.map Prod.fst).count name then none
    else some (names.map fun name => (Json.obj members).get? name)
  | .arr items =>
    if items.length ≤ names.length then
      some (items.map some ++ List.replicate (names.length - items.length) none)
    else none
  | _ => none

/-- Whether a record that comes as a list gives at least its first `count` fields. An object has no
such condition. -/
def givesFirst (count : Nat) : Json → Bool
  | .arr items => decide (count ≤ items.length)
  | _ => true

end Json

namespace Span

def toJson (span : Span) : Json :=
  .obj [("start", .nat span.start), ("end", .nat span.stop)]

def ofJson? (json : Json) : Option Span :=
  match json.fields? ["start", "end"] with
  | some [some start, some stop] => do
    let start ← start.toOffset?
    let stop ← stop.toOffset?
    return ⟨start, stop⟩
  | _ => none

end Span

namespace Location

def toJson (location : Location) : Json :=
  .obj [("uri", .str location.uri), ("range", location.span.toJson)]

def ofJson? (json : Json) : Option Location :=
  match json.fields? ["uri", "range"] with
  | some [some uri, some span] => do
    let uri ← uri.toText?
    let span ← Span.ofJson? span
    return ⟨uri, span⟩
  | _ => none

end Location

namespace RelatedPlace

def toJson (related : RelatedPlace) : Json :=
  .obj [("location", related.location.toJson), ("message", .str related.message)]

def ofJson? (json : Json) : Option RelatedPlace :=
  match json.fields? ["location", "message"] with
  | some [some location, some message] => do
    let location ← Location.ofJson? location
    let message ← message.toText?
    return ⟨location, message⟩
  | _ => none

end RelatedPlace

namespace DiagnosticInfo

def toJson (info : DiagnosticInfo) : Json :=
  .obj (Json.member? "codeAction" .str info.codeAction ++
    Json.memberIf info.deprecated "deprecated" (.bool true) ++
    Json.memberIf info.unnecessary "unnecessary" (.bool true) ++
    Json.memberIf (!info.related.isEmpty) "related" (.arr (info.related.map RelatedPlace.toJson)))

/-- An absent or empty code action is none. -/
def codeAction? : Option Json → Option (Option String)
  | none | some .null => some none
  | some json => json.toText?.map some

def flag? : Option Json → Option Bool
  | none => some false
  | some json => json.toBool?

def related? : Option Json → Option (List RelatedPlace)
  | none => some []
  | some json => json.toItems?.bind fun items => items.mapM RelatedPlace.ofJson?

def ofJson? (json : Json) : Option DiagnosticInfo :=
  match json.fields? ["codeAction", "deprecated", "unnecessary", "related"] with
  | some [action, deprecated, unnecessary, related] =>
    if json.givesFirst 1 then do
      let codeAction ← codeAction? action
      let deprecated ← flag? deprecated
      let unnecessary ← flag? unnecessary
      let related ← related? related
      return { codeAction, deprecated, unnecessary, related }
    else none
  | _ => none

end DiagnosticInfo

namespace Diagnostic

def toJson (diagnostic : Diagnostic) : Json :=
  .obj ([("message", .str diagnostic.message), ("range", diagnostic.span.toJson),
      ("severity", .nat diagnostic.severity.rank)] ++
    Json.member? "info" DiagnosticInfo.toJson diagnostic.info)

/-- Absent details are none. -/
def info? : Option Json → Option (Option DiagnosticInfo)
  | none | some .null => some none
  | some json => (DiagnosticInfo.ofJson? json).map some

def ofJson? (json : Json) : Option Diagnostic :=
  match json.fields? ["message", "range", "severity", "info"] with
  | some [some message, some span, some severity, info] =>
    if json.givesFirst 4 then do
      let message ← message.toText?
      let span ← Span.ofJson? span
      let severity ← severity.toOffset?.bind Severity.ofRank?
      let info ← info? info
      return { message, span, severity, info }
    else none
  | _ => none

end Diagnostic

end SchemaDoc
