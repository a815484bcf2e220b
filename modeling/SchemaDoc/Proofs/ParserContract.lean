import SchemaDoc.Proofs.DocumentCoverage
import SchemaDoc.Proofs.InPlaceProductions
import SchemaDoc.Proofs.LiteralLaws

/-! What a caller of a parser relies on, wherever in a text it calls it. Nothing found is nothing changed;
what is found starts where the parser was called, is well formed and lies inside of what was read. -/

namespace SchemaDoc

/-- The cursor between two characters of a text. -/
def Cursor.ofPos {text : String} (pos : text.Pos) : Cursor :=
  ⟨text.utf8ByteSize, pos.offset.byteIdx, (text.sliceFrom pos).copy.toList⟩

theorem Cursor.le_ofPos {text : String} (pos : text.Pos) : ofText text ≤ ofPos pos := by
  have split := pos.splits
  refine ⟨(text.sliceTo pos).copy.toList, ?_, ?_, rfl⟩
  · simp only [ofText, ofPos, ← String.toList_append, ← split.eq_append]
  · simp only [ofText, ofPos, byteLength_toList, Nat.zero_add, split.offset_eq_rawEndPos, String.byteIdx_rawEndPos]

theorem Cursor.exists_pos {text : String} {cursor : Cursor} (behind : ofText text ≤ cursor) :
    ∃ pos : text.Pos, cursor = ofPos pos := by
  let pos : text.Pos := ⟨⟨cursor.offset⟩, (valid_of_le behind).1⟩
  exact ⟨pos, eq_of_offset behind (le_ofPos pos) rfl⟩

/-- The contract of a parser in place. -/
structure SubParser.Contract (text : String) (parser : SubParser) : Prop where
  /-- Where nothing is found, nothing has changed. -/
  untouched : ∀ (pos : text.Pos) errors after, parser.run ⟨.ofPos pos, errors⟩ = (none, after) →
    after = ⟨.ofPos pos, errors⟩
  /-- The parser needs no one to go back for it. -/
  attempted : InPlace.attempt parser = parser
  /-- What is found lies between the place of the call and the one behind it. -/
  found : ∀ (pos : text.Pos) errors node after, parser.run ⟨.ofPos pos, errors⟩ = (some node, after) →
    ∃ next : text.Pos, after.cursor = .ofPos next ∧ pos < next ∧ node.span.start = pos.offset.byteIdx ∧
      pos.offset.byteIdx < node.span.stop ∧ node.span.stop ≤ next.offset.byteIdx ∧ node.isWellFormed = true

/-- A production that finds well placed nodes only keeps the contract in place. -/
theorem Production.Lawful.contract {production : Production} (lawful : production.Lawful) (text : String) :
    production.inPlace.Contract text where
  untouched _ _ _ ran := Production.of_run_inPlace_none ran
  attempted := InPlace.attempt_inPlace production
  found := by
    intro pos errors node after ran
    obtain ⟨parsed, result, rfl, moved⟩ := Production.of_run_inPlace_some ran
    have found := lawful result
    obtain ⟨last, _, advances, skips, span⟩ := found.frame
    obtain ⟨next, there⟩ := Cursor.exists_pos ((Cursor.le_ofPos pos).trans found.node.le)
    have behind : parsed.next.offset = next.offset.byteIdx := congrArg Cursor.offset there
    have stop := Cursor.offset_le skips.le
    have onward : pos.offset.byteIdx < next.offset.byteIdx := behind ▸ found.advances
    refine ⟨next, moved.trans there, onward, found.start, ?_, ?_, found.node.wellFormed⟩
    · rw [span]
      exact advances
    · rw [span, ← behind]
      exact stop

/-- The constructs that declarations are made of. -/
inductive Construct where
  | identifier
  | string
  | number
  | boolean
  | literal
  | fieldKey
  | identPath
  | resourceLocation
  | typeExpr
  deriving DecidableEq, Repr

namespace Construct

def production : Construct → Production
  | identifier => Parser.identifier
  | string => Parser.string
  | number => Parser.number
  | boolean => Parser.boolean
  | literal => Parser.literal
  | fieldKey => Parser.fieldKey
  | identPath => Parser.identPath
  | resourceLocation => Parser.resourceLocation
  | typeExpr => Parser.typeExpr

def parser : Construct → SubParser
  | identifier => InPlace.identifier
  | string => InPlace.string
  | number => InPlace.number
  | boolean => InPlace.boolean
  | literal => InPlace.literal
  | fieldKey => InPlace.fieldKey
  | identPath => InPlace.identPath
  | resourceLocation => InPlace.resourceLocation
  | typeExpr => InPlace.typeExpr

theorem production_lawful (construct : Construct) : construct.production.Lawful := by
  cases construct with
  | identifier => exact Parser.identifier_lawful
  | string => exact Parser.string_lawful
  | number => exact Parser.number_lawful
  | boolean => exact Parser.boolean_lawful
  | literal => exact Parser.literal_lawful
  | fieldKey => exact Parser.fieldKey_lawful
  | identPath => exact Parser.identPath_lawful
  | resourceLocation => exact Parser.resourceLocation_lawful
  | typeExpr => exact Parser.typeExpr_lawful

theorem parser_eq (construct : Construct) : construct.parser = construct.production.inPlace := by
  cases construct with
  | identifier => exact InPlace.identifier_eq
  | string => exact InPlace.string_eq
  | number => exact InPlace.number_eq
  | boolean => exact InPlace.boolean_eq
  | literal => exact InPlace.literal_eq
  | fieldKey => exact InPlace.fieldKey_eq
  | identPath => exact InPlace.identPath_eq
  | resourceLocation => exact InPlace.resourceLocation_eq
  | typeExpr => exact InPlace.typeExpr_eq

/-- Wherever in a text a construct is tried, its parser keeps the contract, and reads in place what the grammar
reads. -/
theorem keeps_contract (construct : Construct) (text : String) :
    construct.parser = construct.production.inPlace ∧ construct.parser.Contract text := by
  have lawful := construct.production_lawful.contract text
  rw [← construct.parser_eq] at lawful
  exact ⟨construct.parser_eq, lawful⟩

/-- A sign that no digit follows is given back before the truth values are tried. -/
example : InPlace.literal.run ⟨.ofText "-x", []⟩ = (none, ⟨.ofText "-x", []⟩) := rfl

end Construct

end SchemaDoc
