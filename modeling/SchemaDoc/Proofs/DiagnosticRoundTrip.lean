import Mathlib.Data.List.Nodup
import SchemaDoc.Proofs.JsonText
import SchemaDoc.Wire.Diagnostic

/-! Diagnostics survive their encoding, as a value and as text. A record is written with the members that have
something to say; a reader looks each of them up by its name and puts back what was left out. The offsets of a
diagnostic are words, since a reader refuses others. -/

namespace SchemaDoc

namespace Json

theorem get?_append (name : String) (first second : List (String × Json)) :
    (Json.obj (first ++ second)).get? name = ((Json.obj second).get? name).or ((Json.obj first).get? name) := by
  simp [get?, List.lookup_append]

theorem get?_nil (name : String) : (Json.obj []).get? name = none := rfl

theorem get?_cons (name other : String) (value : Json) (members : List (String × Json)) :
    (Json.obj ((name, value) :: members)).get? other =
      ((Json.obj members).get? other).or (if other = name then some value else none) := by
  have alone : (Json.obj [(name, value)]).get? other = if other = name then some value else none := by
    by_cases same : other = name
    · simp [get?, same]
    · simp [get?, List.lookup_cons, same, beq_eq_false_iff_ne.mpr same]
  rw [← alone]
  exact get?_append other [(name, value)] members

theorem get?_member? {α : Type} (name other : String) (encode : α → Json) (value : Option α) :
    (Json.obj (member? name encode value)).get? other = if other = name then value.map encode else none := by
  cases value with
  | none => simp [member?, get?_nil]
  | some value => simp [member?, get?_cons, get?_nil]

theorem get?_memberIf (condition : Bool) (name other : String) (value : Json) :
    (Json.obj (memberIf condition name value)).get? other = if condition ∧ other = name then some value else none := by
  cases condition <;> simp [memberIf, get?_cons, get?_nil]

theorem mem_member? {α : Type} {name : String} {encode : α → Json} {value : Option α} {member : String × Json} :
    member ∈ member? name encode value ↔ ∃ inner ∈ value, member = (name, encode inner) := by
  cases value <;> simp [member?]

theorem mem_memberIf {condition : Bool} {name : String} {value : Json} {member : String × Json} :
    member ∈ memberIf condition name value ↔ condition = true ∧ member = (name, value) := by
  cases condition <;> simp [memberIf]

theorem fields?_obj (names : List String) {members : List (String × Json)} (once : (members.map Prod.fst).Nodup) :
    (Json.obj members).fields? names = some (names.map fun name => (Json.obj members).get? name) := by
  have repeated : (names.any fun name => decide (1 < (members.map Prod.fst).count name)) = false := by
    refine List.any_eq_false.mpr fun name _ => ?_
    have atMost := List.nodup_iff_count_le_one.mp once name
    simpa using atMost
  rw [fields?, repeated]
  rfl

theorem names_member? {α : Type} (name : String) (encode : α → Json) (value : Option α) :
    ((member? name encode value).map Prod.fst).Sublist [name] := by
  cases value with
  | none => exact List.nil_sublist _
  | some value => exact List.Sublist.refl _

theorem names_memberIf (condition : Bool) (name : String) (value : Json) :
    ((memberIf condition name value).map Prod.fst).Sublist [name] := by
  cases condition with
  | false => exact List.nil_sublist _
  | true => exact List.Sublist.refl _

theorem toOffset?_nat {value : Nat} (word : value < wordBound 64) : (Json.nat value).toOffset? = some value := by
  have positive : (0 : Int) ≤ Int.ofNat value := Int.natCast_nonneg value
  simp [nat, toOffset?, word]

theorem portable_nat {value : Nat} (word : value < wordBound 64) : (Json.nat value).Portable := by
  refine .int ?_ (Int.ofNat_lt.mpr word)
  have positive : (0 : Int) ≤ Int.ofNat value := Int.natCast_nonneg value
  omega

end Json

open Json

def Span.Fits (span : Span) : Prop := span.start < wordBound 64 ∧ span.stop < wordBound 64

theorem Span.ofJson?_toJson {span : Span} (fits : span.Fits) : Span.ofJson? span.toJson = some span := by
  rw [toJson, ofJson?, fields?_obj _ (by simp)]
  simp [get?_cons, get?_nil, toOffset?_nat fits.1, toOffset?_nat fits.2]

theorem Span.portable_toJson {span : Span} (fits : span.Fits) : span.toJson.Portable := by
  refine .obj fun member among => ?_
  simp only [List.mem_cons, List.not_mem_nil, or_false] at among
  rcases among with rfl | rfl
  · exact portable_nat fits.1
  · exact portable_nat fits.2

theorem RelatedPlace.ofJson?_toJson {related : RelatedPlace} (fits : related.location.span.Fits) :
    RelatedPlace.ofJson? related.toJson = some related := by
  have location : Location.ofJson? related.location.toJson = some related.location := by
    rw [Location.toJson, Location.ofJson?, fields?_obj _ (by simp)]
    simp [get?_cons, get?_nil, toText?, Span.ofJson?_toJson fits]
  rw [toJson, ofJson?, fields?_obj _ (by simp)]
  simp [get?_cons, get?_nil, toText?, location]

theorem RelatedPlace.portable_toJson {related : RelatedPlace} (fits : related.location.span.Fits) :
    related.toJson.Portable := by
  have location : related.location.toJson.Portable := by
    refine .obj fun member among => ?_
    simp only [List.mem_cons, List.not_mem_nil, or_false] at among
    rcases among with rfl | rfl
    · exact .str _
    · exact Span.portable_toJson fits
  refine .obj fun member among => ?_
  simp only [List.mem_cons, List.not_mem_nil, or_false] at among
  rcases among with rfl | rfl
  · exact location
  · exact .str _

namespace DiagnosticInfo

def Fits (info : DiagnosticInfo) : Prop := ∀ related ∈ info.related, related.location.span.Fits

theorem codeAction?_encoded (action : Option String) : codeAction? (action.map .str) = some action := by
  cases action <;> rfl

theorem flag?_encoded (flag : Bool) : flag? (if flag then some (.bool true) else none) = some flag := by
  cases flag <;> rfl

theorem related?_encoded {places : List RelatedPlace} (fits : ∀ related ∈ places, related.location.span.Fits) :
    related? (if places = [] then none else some (.arr (places.map RelatedPlace.toJson))) = some places := by
  have each : (places.map RelatedPlace.toJson).mapM RelatedPlace.ofJson? = some places := by
    induction places with
    | nil => rfl
    | cons place places ih =>
      obtain ⟨first, others⟩ := List.forall_mem_cons.mp fits
      simp [RelatedPlace.ofJson?_toJson first, ih others]
  cases places with
  | nil => rfl
  | cons place places => exact each

theorem nodup_names (info : DiagnosticInfo) :
    ((Json.member? "codeAction" .str info.codeAction ++ Json.memberIf info.deprecated "deprecated" (.bool true) ++
      Json.memberIf info.unnecessary "unnecessary" (.bool true) ++
      Json.memberIf (!info.related.isEmpty) "related" (.arr (info.related.map RelatedPlace.toJson))).map Prod.fst).Nodup := by
  have names : ["codeAction", "deprecated", "unnecessary", "related"].Nodup := by decide
  refine names.sublist ?_
  rw [List.map_append, List.map_append, List.map_append]
  exact (((names_member? _ _ _).append (names_memberIf _ _ _)).append (names_memberIf _ _ _)).append (names_memberIf _ _ _)

theorem ofJson?_toJson {info : DiagnosticInfo} (fits : info.Fits) : DiagnosticInfo.ofJson? info.toJson = some info := by
  rw [toJson, ofJson?, fields?_obj _ info.nodup_names]
  simp [get?_append, get?_member?, get?_memberIf, givesFirst, codeAction?_encoded, flag?_encoded, related?_encoded fits]

theorem portable_toJson {info : DiagnosticInfo} (fits : info.Fits) : info.toJson.Portable := by
  refine .obj fun member among => ?_
  simp only [List.mem_append] at among
  rcases among with ((among | among) | among) | among
  · obtain ⟨action, _, rfl⟩ := mem_member?.mp among
    exact .str action
  · rw [(mem_memberIf.mp among).2]
    exact .bool true
  · rw [(mem_memberIf.mp among).2]
    exact .bool true
  · rw [(mem_memberIf.mp among).2]
    refine .arr fun item of => ?_
    obtain ⟨related, place, rfl⟩ := List.mem_map.mp of
    exact RelatedPlace.portable_toJson (fits related place)

end DiagnosticInfo

namespace Diagnostic

structure Fits (diagnostic : Diagnostic) : Prop where
  span : diagnostic.span.Fits
  info : ∀ info ∈ diagnostic.info, info.Fits

theorem info?_encoded {info : Option DiagnosticInfo} (fits : ∀ details ∈ info, details.Fits) :
    info? (info.map DiagnosticInfo.toJson) = some info := by
  cases info with
  | none => rfl
  | some details =>
    have read := DiagnosticInfo.ofJson?_toJson (fits details rfl)
    exact congrArg (Option.map some) read

theorem severity_encoded (severity : Severity) :
    (Json.nat severity.rank).toOffset?.bind Severity.ofRank? = some severity := by
  cases severity <;> rfl

theorem portable_rank (severity : Severity) : (Json.nat severity.rank).Portable := by
  cases severity <;> exact portable_nat (by decide)

theorem ofJson?_toJson {diagnostic : Diagnostic} (fits : diagnostic.Fits) :
    Diagnostic.ofJson? diagnostic.toJson = some diagnostic := by
  have once : (([("message", .str diagnostic.message), ("range", diagnostic.span.toJson),
      ("severity", .nat diagnostic.severity.rank)] ++
    Json.member? "info" DiagnosticInfo.toJson diagnostic.info).map Prod.fst).Nodup := by
    have names : (["message", "range", "severity"] ++ ["info"]).Nodup := by decide
    rw [List.map_append]
    exact names.sublist (List.Sublist.append (List.Sublist.refl _) (names_member? _ _ _))
  rw [toJson, ofJson?, fields?_obj _ once]
  simp [get?_cons, get?_member?, givesFirst, toText?, Span.ofJson?_toJson fits.span, severity_encoded,
    info?_encoded fits.info]

theorem portable_toJson {diagnostic : Diagnostic} (fits : diagnostic.Fits) : diagnostic.toJson.Portable := by
  refine .obj fun member among => ?_
  simp only [List.mem_append, List.mem_cons, List.not_mem_nil, or_false] at among
  rcases among with (rfl | rfl | rfl) | among
  · exact .str _
  · exact Span.portable_toJson fits.span
  · exact portable_rank diagnostic.severity
  · obtain ⟨info, some, rfl⟩ := mem_member?.mp among
    exact DiagnosticInfo.portable_toJson (fits.info info some)

/-- What is relied on in a printer and a reader of JSON: a value that has a text is read back from it. -/
def RoundTrips (print : Json → String) (read : String → Option Json) : Prop :=
  ∀ json : Json, json.Portable → read (print json) = some json

theorem roundTrips_compact : RoundTrips Json.compact Json.ofText? := fun _ portable => ofText?_compact portable

/-- A diagnostic that is read back from its encoding, as a value and as text. -/
structure Survives (print : Json → String) (read : String → Option Json) (diagnostic : Diagnostic) : Prop where
  value : Diagnostic.ofJson? diagnostic.toJson = some diagnostic
  text : (read (print diagnostic.toJson)).bind Diagnostic.ofJson? = some diagnostic

theorem Fits.survives {print : Json → String} {read : String → Option Json} (trips : RoundTrips print read)
    {diagnostic : Diagnostic} (fits : diagnostic.Fits) : diagnostic.Survives print read := by
  refine ⟨ofJson?_toJson fits, ?_⟩
  rw [trips _ (portable_toJson fits)]
  exact ofJson?_toJson fits

inductive Addition where
  | severity (severity : Severity)
  | related (location : Location) (message : String)
  | codeAction (action : String)
  | deprecated
  | unnecessary
  deriving DecidableEq, Repr

def Addition.Fits : Addition → Prop
  | .related location _ => location.span.Fits
  | _ => True

def add (diagnostic : Diagnostic) : Addition → Diagnostic
  | .severity severity => diagnostic.withSeverity severity
  | .related location message => diagnostic.withRelated location message
  | .codeAction action => diagnostic.withCodeAction action
  | .deprecated => diagnostic.deprecated
  | .unnecessary => diagnostic.unnecessary

/-- Details that are changed still fit when the change keeps to words, also where there were none before. -/
theorem Fits.withInfo {diagnostic : Diagnostic} (fits : diagnostic.Fits) {change : DiagnosticInfo → DiagnosticInfo}
    (kept : ∀ info : DiagnosticInfo, info.Fits → (change info).Fits) : (diagnostic.withInfo change).Fits where
  span := fits.span
  info := by
    rintro _ ⟨⟩
    apply kept
    cases same : diagnostic.info with
    | none => exact fun _ among => absurd among List.not_mem_nil
    | some info => exact fits.info info same

theorem Fits.add {diagnostic : Diagnostic} (fits : diagnostic.Fits) {addition : Addition} (also : addition.Fits) :
    (diagnostic.add addition).Fits := by
  cases addition with
  | severity severity => exact ⟨fits.span, fits.info⟩
  | related location message =>
    rw [Diagnostic.add, withRelated]
    refine fits.withInfo fun info inside related among => ?_
    rcases List.mem_append.mp among with among | among
    · exact inside related among
    · obtain rfl := List.mem_singleton.mp among
      exact also
  | codeAction action =>
    rw [Diagnostic.add, withCodeAction]
    exact fits.withInfo fun info inside => inside
  | deprecated =>
    rw [Diagnostic.add, Diagnostic.deprecated]
    exact fits.withInfo fun info inside => inside
  | unnecessary =>
    rw [Diagnostic.add, Diagnostic.unnecessary]
    exact fits.withInfo fun info inside => inside

theorem Fits.run {diagnostic : Diagnostic} (fits : diagnostic.Fits) {additions : List Addition}
    (also : ∀ addition ∈ additions, addition.Fits) : (additions.foldl Diagnostic.add diagnostic).Fits := by
  induction additions generalizing diagnostic with
  | nil => exact fits
  | cons addition additions ih =>
    obtain ⟨first, others⟩ := List.forall_mem_cons.mp also
    exact ih (fits.add first) others

/-- Every diagnostic survives its encoding, and so does every one that is built from it. In particular details that
are all left out are not taken for no details. This is so with every printer and reader of JSON that can be relied on,
and those in use can. -/
theorem survives_encoding : RoundTrips Json.compact Json.ofText? ∧
    ∀ {print : Json → String} {read : String → Option Json}, RoundTrips print read →
      ∀ diagnostic : Diagnostic, diagnostic.Fits →
        diagnostic.Survives print read ∧
        (∀ additions : List Addition, (∀ addition ∈ additions, addition.Fits) →
          (additions.foldl add diagnostic).Survives print read) ∧
        ∀ other : Diagnostic, other.Fits → (print other.toJson = print diagnostic.toJson ↔ other = diagnostic) := by
  refine ⟨roundTrips_compact, ?_⟩
  intro print read trips diagnostic fits
  refine ⟨fits.survives trips, fun additions also => (fits.run also).survives trips, fun other fitsOther => ⟨fun same => ?_, ?_⟩⟩
  · have again := (fitsOther.survives trips).text
    rw [same, (fits.survives trips).text] at again
    exact (Option.some.inj again).symm
  · rintro rfl
    rfl

/-- A message with letters that are escaped, with details that say nothing and with none at all; and what is built
from it by two steps. -/
theorem survives_encoding_empty_details :
    let plain : Diagnostic := { message := "\"\\\n\u0001é\"", span := ⟨3, 1⟩, severity := .hint }
    let empty : Diagnostic := { plain with info := some {} }
    let place : Location := ⟨"file:///a.sdoc", ⟨0, 2⟩⟩
    plain.Fits ∧ empty.Fits ∧ plain.Survives Json.compact Json.ofText? ∧ empty.Survives Json.compact Json.ofText? ∧
    plain.toJson.compact ≠ empty.toJson.compact ∧
    ((plain.withRelated place "first").deprecated).Survives Json.compact Json.ofText? := by
  intro plain empty place
  have span : plain.span.Fits := ⟨by decide, by decide⟩
  have fits : plain.Fits := ⟨span, nofun⟩
  have also : empty.Fits := ⟨span, by rintro _ ⟨⟩ _ among; exact absurd among List.not_mem_nil⟩
  obtain ⟨trips, everywhere⟩ := survives_encoding
  obtain ⟨survives, built, apart⟩ := everywhere trips plain fits
  refine ⟨fits, also, survives, (everywhere trips empty also).1, fun same => ?_, ?_⟩
  · exact absurd ((apart empty also).mp same.symm) (by decide)
  · refine built [.related place "first", .deprecated] fun addition among => ?_
    simp only [List.mem_cons, List.not_mem_nil, or_false] at among
    rcases among with rfl | rfl
    · exact ⟨by decide, by decide⟩
    · trivial

end Diagnostic

end SchemaDoc
