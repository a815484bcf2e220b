import SchemaDoc.Proofs.CompleteParts
import SchemaDoc.Proofs.SequenceProgress

/-! The policy for trailing separators decides about reports and about nothing else. A document is read twice
here, and the two readings are followed side by side: they are alike except for one report behind each body
whose last pair is followed by a separator. What stands between the bodies does not know of the policy, and
reports no separator. -/

namespace SchemaDoc

namespace Diagnostic

/-- The report of a separator behind the last entry. -/
def isTrailing (diagnostic : Diagnostic) : Bool := diagnostic.message == Message.trailingSeparation.render []

theorem isTrailing_trailing (separator : Span) : isTrailing (.ofMessage .trailingSeparation [] separator) = true := by
  simp [isTrailing, ofMessage]

theorem isTrailing_other (message : Message) {arguments : List String} (span : Span)
    (other : message.render arguments ≠ Message.trailingSeparation.render []) :
    isTrailing (.ofMessage message arguments span) = false := by
  simpa [isTrailing, ofMessage] using other

theorem isTrailing_expected (argument : String) (span : Span) :
    isTrailing (.ofMessage .expected [argument] span) = false := by
  refine isTrailing_other _ span ?_
  intro same
  rw [Message.render_expected] at same
  have plain : (Message.trailingSeparation.render []).toList = "Trailing separation".toList := by decide
  have chars := congrArg String.toList same
  simp [plain] at chars

end Diagnostic

def Quiet (errors : List Diagnostic) : Prop := ∀ diagnostic ∈ errors, diagnostic.isTrailing = false

theorem quiet_nil : Quiet [] := by simp [Quiet]

theorem quiet_singleton {diagnostic : Diagnostic} (other : diagnostic.isTrailing = false) : Quiet [diagnostic] := by
  simpa [Quiet] using other

theorem Quiet.append {errors more : List Diagnostic} (quiet : Quiet errors) (also : Quiet more) :
    Quiet (errors ++ more) := by
  intro diagnostic member
  rcases List.mem_append.mp member with member | member
  · exact quiet diagnostic member
  · exact also diagnostic member

namespace Node

/-- A struct or an enum, be it on its own or injected. -/
def Kind.isDefinition : Kind → Bool
  | .struct | .enum _ | .injectStruct | .injectEnum _ => true
  | _ => false

/-- The separator behind an entry. -/
def endSeparator? (entry : Node) : Option Span :=
  match entry.kind with
  | .pair _ stop | .item stop => stop
  | _ => none

/-- The separator behind the last entry of a sequence that goes on behind it. -/
def trailingSeparator? (sequence : Node) : Option Span :=
  sequence.children.getLast?.bind fun last =>
    if last.span.stop < sequence.span.stop then last.endSeparator? else none

def body? (node : Node) : Option Node := if node.kind.isDefinition then node.child? .body else none

def trailingSeparators (nodes : List Node) : List Span :=
  (forestPreorder nodes).filterMap fun node => node.body?.bind trailingSeparator?

theorem trailingSeparators_append (nodes more : List Node) :
    trailingSeparators (nodes ++ more) = trailingSeparators nodes ++ trailingSeparators more := by
  have both : forestPreorder (nodes ++ more) = forestPreorder nodes ++ forestPreorder more := by
    induction nodes with
    | nil => rfl
    | cons node nodes ih => simp [forestPreorder, ih]
  simp [trailingSeparators, both]

theorem trailingSeparators_singleton (kind : Kind) (span : Span) (role : Option Role) (children : List Node) :
    trailingSeparators [⟨kind, span, role, children⟩] =
      ((body? ⟨kind, span, role, children⟩).bind trailingSeparator?).toList ++ trailingSeparators children := by
  simp only [trailingSeparators, forestPreorder, preorder, List.append_nil]
  cases body : (body? ⟨kind, span, role, children⟩).bind trailingSeparator? <;> simp [body]

theorem trailingSeparators_other (kind : Kind) (noDefinition : kind.isDefinition = false) (span : Span)
    (role : Option Role) (children : List Node) :
    trailingSeparators [⟨kind, span, role, children⟩] = trailingSeparators children := by
  simp [trailingSeparators_singleton, body?, noDefinition]

def Bare (node : Node) : Prop := ∀ inner ∈ node.preorder, inner.kind.isDefinition = false

variable {node : Node} {nodes : List Node}

theorem bare_iff : node.Bare ↔ node.kind.isDefinition = false ∧ ∀ child ∈ node.children, child.Bare :=
  forall_mem_preorder

theorem bare_leaf (kind : node.kind.isDefinition = false) (leaf : node.children = []) : node.Bare :=
  bare_iff.mpr ⟨kind, by simp [leaf]⟩

theorem Bare.tagged (bare : node.Bare) (role : Role) : (node.tagged role).Bare := by
  have parts := bare_iff.mp bare
  exact bare_iff.mpr parts

theorem Bare.endedBy (bare : node.Bare) (separator : Span) : (node.endedBy separator).Bare := by
  obtain ⟨own, children⟩ := bare_iff.mp bare
  refine bare_iff.mpr ⟨?_, children⟩
  obtain ⟨kind, span, role, nodes⟩ := node
  cases kind <;> exact own

theorem trailingSeparators_bare (bare : ∀ node ∈ nodes, node.Bare) : trailingSeparators nodes = [] := by
  refine List.filterMap_eq_nil_iff.mpr ?_
  intro inner member
  obtain ⟨node, among, inside⟩ := mem_forestPreorder.mp member
  simp [body?, bare node among inner inside]

theorem endSeparator?_endedBy (isEntry : node.IsEntry) (separator : Span) :
    (node.endedBy separator).endSeparator? = some separator := by
  obtain ⟨kind, span, role, nodes⟩ := node
  cases kind with
  | pair | item => rfl
  | _ => exact isEntry.elim

end Node

structure Parsed.Plain (parsed : Parsed) : Prop where
  quiet : Quiet parsed.errors
  bare : parsed.node.Bare

def Production.Plain (production : Production) : Prop := ∀ ⦃cursor parsed⦄, production cursor = some parsed → parsed.Plain

theorem Production.Plain.orElse {first second : Production} (plain : first.Plain) (also : second.Plain) :
    (Production.orElse first second).Plain := by
  intro cursor parsed found
  simp only [Production.orElse, Option.orElse_eq_orElse, Option.orElse_eq_or, Option.or_eq_some_iff] at found
  rcases found with found | ⟨_, found⟩
  · exact plain found
  · exact also found

structure Fragment.Plain (fragment : Fragment) : Prop where
  quiet : Quiet fragment.errors
  bare : ∀ node ∈ fragment.nodes, node.Bare
  bodiless : ∀ node ∈ fragment.nodes, node.role ≠ some .body

namespace Fragment

theorem plain_empty (cursor : Cursor) : (empty cursor).Plain := ⟨quiet_nil, by simp [empty], by simp [empty]⟩

theorem plain_missing {message : Message} {arguments : List String} (cursor : Cursor)
    (other : message.render arguments ≠ Message.trailingSeparation.render []) : (missing message arguments cursor).Plain :=
  ⟨quiet_singleton (Diagnostic.isTrailing_other _ _ other), by simp [missing], by simp [missing]⟩

theorem plain_expected (argument : String) (cursor : Cursor) : (missing .expected [argument] cursor).Plain :=
  ⟨quiet_singleton (Diagnostic.isTrailing_expected argument _), by simp [missing], by simp [missing]⟩

theorem plain_ofParsed {parsed : Parsed} (plain : parsed.Plain) (role : Node.Role) (noBody : role ≠ .body) :
    (ofParsed parsed role).Plain :=
  ⟨plain.quiet, by simpa [ofParsed] using plain.bare.tagged role, by simpa [ofParsed, Node.tagged] using noBody⟩

theorem plain_required {production : Production} (plain : production.Plain) (role : Node.Role) (message : Message)
    (noBody : role ≠ .body) (other : message.render [] ≠ Message.trailingSeparation.render []) (cursor : Cursor) :
    (required production role message cursor).Plain := by
  unfold required
  split
  next parsed found => exact plain_ofParsed (plain found) role noBody
  next => exact plain_missing cursor other

theorem Plain.andThen {first : Fragment} {step : Cursor → Fragment} (plain : first.Plain)
    (also : (step first.next).Plain) : (first.andThen step).Plain :=
  ⟨plain.quiet.append also.quiet, List.forall_mem_append.mpr ⟨plain.bare, also.bare⟩,
    List.forall_mem_append.mpr ⟨plain.bodiless, also.bodiless⟩⟩

theorem Plain.skipTrivia {fragment : Fragment} (plain : fragment.Plain) : fragment.skipTrivia.Plain :=
  ⟨plain.quiet, plain.bare, plain.bodiless⟩

end Fragment

namespace Parser

theorem plain_leaf (kind : Node.Kind) (noDefinition : kind.isDefinition = false) (cursor next : Cursor) :
    (leaf kind cursor next).Plain := ⟨quiet_nil, Node.bare_leaf noDefinition rfl⟩

theorem identifier_plain : identifier.Plain := by
  intro cursor parsed found
  obtain ⟨⟨value, next⟩, _, rfl⟩ := Option.map_eq_some_iff.mp found
  exact plain_leaf _ rfl cursor next

theorem string_plain : string.Plain := by
  intro cursor parsed found
  obtain ⟨opened, _, rfl⟩ := Option.map_eq_some_iff.mp found
  dsimp only
  split
  · exact plain_leaf _ rfl _ _
  · exact ⟨quiet_singleton (Diagnostic.isTrailing_other _ _ (by decide)), Node.bare_leaf rfl rfl⟩

theorem number_plain : number.Plain := by
  intro cursor parsed found
  simp only [number] at found
  split at found
  next => cases found
  next =>
    cases found
    exact plain_leaf _ rfl _ _

theorem boolean_plain : boolean.Plain := by
  intro cursor parsed found
  unfold boolean at found
  split at found
  next next _ =>
    cases found
    exact plain_leaf _ rfl cursor next
  next =>
    obtain ⟨next, _, rfl⟩ := Option.map_eq_some_iff.mp found
    exact plain_leaf _ rfl cursor next

theorem literal_plain : literal.Plain := string_plain.orElse (number_plain.orElse boolean_plain)

theorem fieldKey_plain : fieldKey.Plain := identifier_plain.orElse string_plain

theorem resourceLocation_plain : resourceLocation.Plain := by
  intro cursor parsed found
  simp only [resourceLocation] at found
  split at found
  next => cases found
  next =>
    cases found
    exact plain_leaf _ rfl _ _

theorem plain_segment {cursor : Cursor} {segment : Parsed} (found : identifier cursor = some segment) :
    Fragment.Plain ⟨[segment.node], segment.errors, segment.next⟩ := by
  have plain := identifier_plain found
  obtain ⟨⟨value, next⟩, _, rfl⟩ := Option.map_eq_some_iff.mp found
  exact ⟨plain.quiet, by simpa using plain.bare, by simp [leaf]⟩

private theorem moreSegments_plain (fuel : Nat) (cursor : Cursor) : (moreSegments fuel cursor).Plain := by
  induction fuel generalizing cursor with
  | zero => exact Fragment.plain_empty cursor
  | succ fuel ih =>
    unfold moreSegments
    split
    next => exact Fragment.plain_empty cursor
    next next _ =>
      split
      next => exact Fragment.plain_missing next (by decide)
      next segment found => exact (plain_segment found).andThen (ih segment.next)

theorem identPath_plain : identPath.Plain := by
  have whole : ∀ {cursor : Cursor} {fragment : Fragment} {fromRoot : Bool}, fragment.Plain →
      Parsed.Plain
        { node := { kind := .identPath fromRoot, span := cursor.spanTo fragment.next, children := fragment.nodes }
          errors := fragment.errors, next := fragment.next } :=
    fun plain => ⟨plain.quiet, Node.bare_iff.mpr ⟨rfl, plain.bare⟩⟩
  have all : ∀ {cursor : Cursor} {fragment : Fragment}, segments cursor = some fragment → fragment.Plain := by
    intro cursor fragment found
    obtain ⟨segment, read, rfl⟩ := Option.map_eq_some_iff.mp found
    exact (plain_segment read).andThen (moreSegments_plain _ segment.next)
  intro cursor parsed found
  simp only [identPath] at found
  split at found
  next next _ =>
    cases found
    cases read : segments next with
    | none => exact whole (Fragment.plain_missing next (by decide))
    | some fragment => exact whole (all read)
  next =>
    obtain ⟨fragment, read, rfl⟩ := Option.map_eq_some_iff.mp found
    exact whole (all read)

theorem primitiveType_plain : primitiveType.Plain := by
  intro cursor parsed found
  obtain ⟨primitive, _, rfl⟩ := Option.map_eq_some_iff.mp found
  exact plain_leaf _ rfl _ _

theorem plain_wrap {kind : Node.Kind} {role : Node.Role} {inner : Parsed} (noDefinition : kind.isDefinition = false)
    (plain : inner.Plain) : (wrap kind role inner).Plain :=
  ⟨plain.quiet, Node.bare_iff.mpr ⟨noDefinition, by simpa [wrap] using plain.bare.tagged role⟩⟩

theorem listType_plain {item : Production} (plain : item.Plain) (cursor opened : Cursor) :
    (listType item cursor opened).Plain := by
  have inner := (Fragment.plain_required plain .type .expectedType (by decide)
    (by decide) opened.skipTrivia).skipTrivia
  unfold listType
  dsimp only
  split
  next => exact ⟨inner.quiet, Node.bare_iff.mpr ⟨rfl, inner.bare⟩⟩
  next =>
    exact ⟨inner.quiet.append (quiet_singleton (Diagnostic.isTrailing_expected _ _)),
      Node.bare_iff.mpr ⟨rfl, inner.bare⟩⟩

theorem primaryType_plain {item : Production} (plain : item.Plain) : (primaryType item).Plain := by
  intro cursor parsed found
  unfold primaryType at found
  split at found
  next opened _ =>
    cases found
    exact listType_plain plain cursor opened
  next =>
    simp only [Option.orElse_eq_orElse, Option.orElse_eq_or, Option.or_eq_some_iff] at found
    rcases found with found | ⟨_, found | ⟨_, found⟩⟩
    · obtain ⟨inner, read, rfl⟩ := Option.map_eq_some_iff.mp found
      exact plain_wrap rfl (literal_plain read)
    · exact primitiveType_plain found
    · obtain ⟨inner, read, rfl⟩ := Option.map_eq_some_iff.mp found
      exact plain_wrap rfl (identPath_plain read)

theorem optionalTypes_bare {node : Node} (bare : node.Bare) (offset : Nat) (marks : List Char) :
    (optionalTypes node offset marks).Bare := by
  induction marks generalizing node offset with
  | nil => exact bare
  | cons mark marks ih => exact ih (Node.bare_iff.mpr ⟨rfl, by simpa using bare.tagged .type⟩) _

theorem typeExpr_plain : typeExpr.Plain := by
  have within : ∀ depth, (typeWithin depth).Plain := by
    intro depth
    induction depth with
    | zero =>
      intro cursor parsed found
      cases found
    | succ depth ih =>
      intro cursor parsed found
      obtain ⟨primary, read, rfl⟩ := Option.map_eq_some_iff.mp found
      have plain := primaryType_plain ih read
      exact ⟨plain.quiet, optionalTypes_bare plain.bare _ _⟩
  exact fun cursor _ found => within cursor.remaining found

def Entries.dangling? (closing : String) (found : Entries) : Option Span :=
  if found.next.startsWith closing then found.nodes.getLast?.bind Node.endSeparator? else none

def Entries.reporting (closing : String) (found : Entries) : Entries :=
  { found with errors := found.errors ++ (found.dangling? closing).toList.map (.ofMessage .trailingSeparation []) }

def Round.reporting (closing : String) : Round → Round
  | .last found => .last (found.reporting closing)
  | .onward entry errors stop next => .onward entry errors stop next

structure EntryGrammar.Tidy (grammar : EntryGrammar) : Prop where
  lawful : ∀ cursor, (grammar.entry cursor).Lawful cursor
  plain : ∀ cursor, (grammar.entry cursor).Plain
  isEntry : ∀ cursor, (grammar.entry cursor).node.IsEntry
  unended : ∀ cursor, (grammar.entry cursor).node.endSeparator? = none

section Loop

variable {grammar : EntryGrammar} {opening closing : String} {stop : Nat} {cursor : Cursor}

theorem Entries.reporting_of_none {found : Entries} (none : found.dangling? closing = none) :
    found.reporting closing = found := by
  simp [reporting, none]

/-- Under the strict policy a round does the same, and its end is reported. -/
theorem round_reporting (tidy : grammar.Tidy) (opening closing : String) (stop : Nat) (cursor : Cursor) :
    round ⟨opening, closing, .disallowed⟩ grammar stop cursor =
      (round ⟨opening, closing, .allowed⟩ grammar stop cursor).reporting closing := by
  have isEntry := tidy.isEntry cursor.skipTrivia
  have unended := tidy.unended cursor.skipTrivia
  simp only [round]
  generalize grammar.entry cursor.skipTrivia = parsed at isEntry unended
  split
  next => simp [Round.reporting, Entries.reporting_of_none, Entries.dangling?]
  next =>
    cases parsed.next.skipTrivia.read? entrySeparator with
    | some separated =>
      dsimp only
      split
      next closes =>
        simp [Round.reporting, Entries.reporting, Entries.dangling?, trailingErrors, closes,
          Node.endSeparator?_endedBy isEntry]
      next => rfl
    | none =>
      dsimp only
      split
      next => simp [Round.reporting, Entries.reporting_of_none, Entries.dangling?]
      next =>
        split
        next => rfl
        next => simp [Round.reporting, Entries.reporting_of_none, Entries.dangling?, unended]

/-- What the entries of a sequence leave behind. Where none is found, nothing was read; and behind a separator
the sequence does not reach farther than its last entry. -/
structure Entries.Tidy (closing : String) (stop : Nat) (cursor : Cursor) (found : Entries) : Prop where
  quiet : Quiet found.errors
  bare : ∀ node ∈ found.nodes, node.Bare
  nothing : found.nodes = [] → cursor.skipTrivia = cursor → cursor.startsWith closing = false →
    found.stop = stop ∧ found.next = cursor
  ends : ∀ last ∈ found.nodes.getLast?, last.endSeparator?.isSome → found.stop ≤ last.span.stop

def Round.Tidy (closing : String) (stop : Nat) (cursor : Cursor) : Round → Prop
  | .last found => found.Tidy closing stop cursor
  | .onward entry errors reached next =>
    Quiet errors ∧ entry.Bare ∧ next.skipTrivia = next ∧ next.startsWith closing = false ∧
      (entry.endSeparator?.isSome → reached ≤ entry.span.stop)

theorem round_tidy (tidy : grammar.Tidy) (opening closing : String) (stop : Nat) (cursor : Cursor) :
    (round ⟨opening, closing, .allowed⟩ grammar stop cursor).Tidy closing stop cursor := by
  have placed := tidy.lawful cursor.skipTrivia
  have plain := tidy.plain cursor.skipTrivia
  have unended := tidy.unended cursor.skipTrivia
  simp only [round]
  generalize grammar.entry cursor.skipTrivia = parsed at placed plain unended
  have reaches : ∀ separator : Span, separator.stop ≤ (parsed.node.endedBy separator).span.stop :=
    fun _ => Nat.le_max_right _ _
  split
  next => exact ⟨quiet_nil, by simp, fun _ settled _ => ⟨rfl, settled⟩, by simp⟩
  next ahead =>
    cases read : parsed.next.skipTrivia.read? entrySeparator with
    | some separated =>
      have bare := plain.bare.endedBy (parsed.next.skipTrivia.spanTo separated)
      dsimp only
      split
      next => exact ⟨by simpa [trailingErrors] using plain.quiet, by simpa using bare, by simp, by simp [reaches]⟩
      next unclosed =>
        exact ⟨plain.quiet, bare, separated.skipTrivia_skipTrivia, by simpa using unclosed, fun _ => reaches _⟩
    | none =>
      dsimp only
      split
      next isEmpty =>
        refine ⟨plain.quiet, by simp, fun _ settled _ => ⟨by simp, ?_⟩, by simp⟩
        rw [← (skips_of_isEmpty placed isEmpty).skipTrivia_eq, cursor.skipTrivia_skipTrivia, settled]
      next =>
        split
        next goesOn =>
          simp only [Bool.and_eq_true, Bool.not_eq_true'] at goesOn
          exact ⟨plain.quiet.append (quiet_singleton (Diagnostic.isTrailing_expected _ _)), plain.bare,
            parsed.next.skipTrivia_skipTrivia, goesOn.1, by simp [unended]⟩
        next => exact ⟨plain.quiet, by simpa using plain.bare, by simp, by simp [unended]⟩

theorem entries_tidy (tidy : grammar.Tidy) (opening closing : String) (fuel stop : Nat) (cursor : Cursor) :
    (entries ⟨opening, closing, .allowed⟩ grammar fuel stop cursor).Tidy closing stop cursor := by
  induction fuel generalizing stop cursor with
  | zero => exact ⟨quiet_nil, by simp [entries], fun _ _ _ => ⟨rfl, rfl⟩, by simp [entries]⟩
  | succ fuel ih =>
    have one := round_tidy tidy opening closing stop cursor
    rw [entries_succ]
    cases ends : round ⟨opening, closing, .allowed⟩ grammar stop cursor with
    | last found =>
      rw [ends] at one
      exact one
    | onward entry errors reached next =>
      rw [ends] at one
      obtain ⟨quiet, bare, settled, unclosed, reaches⟩ := one
      have rest := ih reached next
      refine ⟨quiet.append rest.quiet, List.forall_mem_cons.mpr ⟨bare, rest.bare⟩, by simp [Entries.cons], ?_⟩
      dsimp only
      generalize entries ⟨opening, closing, .allowed⟩ grammar fuel reached next = found at rest
      intro last isLast ended
      cases nodes : found.nodes with
      | nil =>
        obtain rfl : entry = last := by simpa [Entries.cons, nodes] using isLast
        have same := (rest.nothing nodes settled unclosed).1
        exact Nat.le_trans (Nat.le_of_eq same) (reaches ended)
      | cons first more =>
        rw [Entries.cons, nodes, List.getLast?_cons_cons, ← nodes] at isLast
        exact rest.ends last isLast ended

/-- The two readings of the same entries differ by the report at their end. -/
theorem entries_reporting (tidy : grammar.Tidy) (opening closing : String) (fuel stop : Nat) (cursor : Cursor) :
    entries ⟨opening, closing, .disallowed⟩ grammar fuel stop cursor =
      (entries ⟨opening, closing, .allowed⟩ grammar fuel stop cursor).reporting closing := by
  induction fuel generalizing stop cursor with
  | zero => simp [entries, Entries.reporting_of_none, Entries.dangling?]
  | succ fuel ih =>
    have one := round_tidy tidy opening closing stop cursor
    rw [entries_succ, entries_succ, round_reporting tidy]
    cases ends : round ⟨opening, closing, .allowed⟩ grammar stop cursor with
    | last found => rfl
    | onward entry errors reached next =>
      rw [ends] at one
      obtain ⟨_, _, settled, unclosed, _⟩ := one
      have rest := entries_tidy tidy opening closing fuel reached next
      simp only [Round.reporting, ih]
      generalize entries ⟨opening, closing, .allowed⟩ grammar fuel reached next = found at rest
      have same : (found.cons entry errors).dangling? closing = found.dangling? closing := by
        cases nodes : found.nodes with
        | nil =>
          have stays : found.next.startsWith closing = false := by rw [(rest.nothing nodes settled unclosed).2, unclosed]
          simp [Entries.dangling?, Entries.cons, stays]
        | cons first more => simp [Entries.dangling?, Entries.cons, nodes]
      simp only [Entries.reporting, same]
      simp [Entries.cons]

end Loop

theorem PairGrammar.pair_plain {grammar : PairGrammar} (keys : grammar.key.Plain) (values : grammar.value.Plain)
    (cursor : Cursor) : (grammar.pair cursor).Plain := by
  have doc : (grammar.doc cursor).Plain := by
    unfold doc
    split
    · split
      next doc next found =>
        obtain ⟨text, last, rfl, _⟩ := Cursor.readDocComments?_reads found
        have plain : Parsed.Plain { node := { kind := .docComments text, span := cursor.spanTo last }, next } :=
          ⟨quiet_nil, Node.bare_leaf rfl rfl⟩
        exact Fragment.plain_ofParsed plain .doc (by decide)
      next => exact Fragment.plain_empty cursor
    · exact Fragment.plain_empty cursor
  have key := (doc.andThen (Fragment.plain_required keys .key .expectedKey (by decide) (by decide)
    (grammar.doc cursor).next)).skipTrivia
  have value := Fragment.plain_required values .value .expectedValue (by decide) (by decide)
  unfold pair
  dsimp only
  refine ⟨(key.quiet.append ?_).append (value _).quiet, Node.bare_iff.mpr ⟨rfl, ?_⟩⟩
  · split
    · exact quiet_nil
    · exact quiet_singleton (Diagnostic.isTrailing_expected _ _)
  · exact List.forall_mem_append.mpr ⟨key.bare, (value _).bare⟩

theorem PairGrammar.tidy {grammar : PairGrammar} (keys : grammar.key.Lawful) (values : grammar.value.Lawful)
    (plainKeys : grammar.key.Plain) (plainValues : grammar.value.Plain) :
    EntryGrammar.Tidy ⟨grammar.pair, grammar.starts⟩ where
  lawful := PairGrammar.pair_lawful keys values
  plain := PairGrammar.pair_plain plainKeys plainValues
  isEntry _ := trivial
  unended _ := rfl

theorem item_tidy {value : Production} (lawful : value.Lawful) (plain : value.Plain) :
    EntryGrammar.Tidy ⟨item value, fun cursor => (value cursor).isSome⟩ where
  lawful := item_lawful lawful
  plain cursor := by
    dsimp only [item]
    split
    next parsed found =>
      have inner := plain found
      exact ⟨inner.quiet, Node.bare_iff.mpr ⟨rfl, by simpa using inner.bare.tagged .value⟩⟩
    next => exact ⟨quiet_singleton (Diagnostic.isTrailing_other _ _ (by decide)), Node.bare_leaf rfl rfl⟩
  isEntry cursor := by
    dsimp only [item]
    split <;> trivial
  unended cursor := by
    dsimp only [item]
    split <;> rfl

end Parser

/-- The strict list has the reports of the separators in addition, in their order. -/
structure Adds (separators : List Span) (lenient strict : List Diagnostic) : Prop where
  kept : lenient = strict.filter fun diagnostic => !diagnostic.isTrailing
  added : strict.filter Diagnostic.isTrailing = separators.map (.ofMessage .trailingSeparation [])

theorem Quiet.adds {errors : List Diagnostic} (quiet : Quiet errors) : Adds [] errors errors where
  kept := (List.filter_eq_self.mpr fun diagnostic member => by simp [quiet diagnostic member]).symm
  added := List.filter_eq_nil_iff.mpr fun diagnostic member => by simp [quiet diagnostic member]

theorem adds_reports (separators : List Span) :
    Adds separators [] (separators.map (.ofMessage .trailingSeparation [])) := by
  have all : ∀ diagnostic ∈ separators.map (Diagnostic.ofMessage .trailingSeparation []), diagnostic.isTrailing = true := by
    intro diagnostic member
    obtain ⟨separator, _, rfl⟩ := List.mem_map.mp member
    exact Diagnostic.isTrailing_trailing separator
  exact ⟨(List.filter_eq_nil_iff.mpr fun diagnostic member => by simp [all diagnostic member]).symm,
    List.filter_eq_self.mpr all⟩

theorem Adds.append {separators others : List Span} {lenient strict more rest : List Diagnostic}
    (adds : Adds separators lenient strict) (also : Adds others more rest) :
    Adds (separators ++ others) (lenient ++ more) (strict ++ rest) := by
  obtain ⟨kept, added⟩ := adds
  obtain ⟨keptMore, addedMore⟩ := also
  exact ⟨by simp [kept, keptMore], by simp [added, addedMore]⟩

namespace Parser

/-- The same container is read under both policies. What is added is the report of its trailing separator. -/
structure SameContainer (lenient strict : Parsed) : Prop where
  node : lenient.node = strict.node
  next : lenient.next = strict.next
  errors : Adds strict.node.trailingSeparator?.toList lenient.errors strict.errors
  bare : strict.node.Bare

theorem table_sameContainer {grammar : EntryGrammar} (tidy : grammar.Tidy) (opening closing : String)
    (visible : closing.toList ≠ []) (cursor : Cursor) :
    SameContainer (sequence .table ⟨opening, closing, .allowed⟩ grammar cursor)
      (sequence .table ⟨opening, closing, .disallowed⟩ grammar cursor) := by
  simp only [sequence]
  split
  next =>
    exact ⟨rfl, rfl, (quiet_singleton (Diagnostic.isTrailing_expected _ _)).adds, Node.bare_leaf rfl rfl⟩
  next opened read =>
    rw [entries_reporting tidy]
    have inner := entries_tidy tidy opening closing opened.remaining opened.offset opened
    have placed : (entries ⟨opening, closing, .allowed⟩ grammar opened.remaining opened.offset opened).Lawful opened opened
        opened.offset :=
      entries_lawful tidy.lawful opened.remaining ⟨opened, le_refl opened, rfl, .refl opened⟩
    generalize entries ⟨opening, closing, .allowed⟩ grammar opened.remaining opened.offset opened = found at inner placed
    simp only [Entries.reporting]
    have bare : ∀ span, Node.Bare { kind := .table, span, children := found.nodes } :=
      fun span => Node.bare_iff.mpr ⟨rfl, inner.bare⟩
    split
    next closed readClosed =>
      have reads := Cursor.read?_reads readClosed
      have starts : found.next.startsWith closing = true := Cursor.startsWith_iff.mpr ⟨_, reads.rest⟩
      have same : Node.trailingSeparator?
          { kind := .table, span := ⟨cursor.offset, closed.offset⟩, children := found.nodes } =
          found.dangling? closing := by
        simp only [Node.trailingSeparator?, Entries.dangling?, starts, if_true]
        refine Option.bind_congr fun last isLast => if_pos ?_
        have inside := (placed.laid.mem (List.mem_of_getLast? isLast)).between.bounds.2
        exact Nat.lt_of_le_of_lt inside (reads.offset_lt visible)
      refine ⟨rfl, rfl, ?_, bare _⟩
      have all := inner.quiet.adds.append (adds_reports (found.dangling? closing).toList)
      simpa [same] using all
    next unread =>
      have unclosed : found.next.startsWith closing = false := by simp [← Cursor.isSome_read?, unread]
      have nothing : found.dangling? closing = none := by simp [Entries.dangling?, unclosed]
      have same : Node.trailingSeparator?
          { kind := .table, span := ⟨cursor.offset, found.stop⟩, children := found.nodes } = none := by
        refine Option.bind_eq_none_iff.mpr fun last isLast => ?_
        split
        next beyond =>
          cases ended : last.endSeparator? with
          | none => rfl
          | some separator => exact absurd (inner.ends last isLast (by simp [ended])) (Nat.not_le_of_lt beyond)
        next => rfl
      refine ⟨rfl, rfl, ?_, bare _⟩
      have all := inner.quiet.append (quiet_singleton (Diagnostic.isTrailing_expected (Message.quote closing)
        (.point found.next.offset)))
      simpa [same, nothing, Diagnostic.expectedToken] using all.adds

theorem list_plain {value : Production} (lawful : value.Lawful) (plain : value.Plain) (opening closing : String)
    (cursor : Cursor) : (list ⟨opening, closing, .allowed⟩ value cursor).Plain := by
  simp only [list, sequence]
  split
  next => exact ⟨quiet_singleton (Diagnostic.isTrailing_expected _ _), Node.bare_leaf rfl rfl⟩
  next opened read =>
    have inner := entries_tidy (item_tidy lawful plain) opening closing opened.remaining opened.offset opened
    split
    next => exact ⟨inner.quiet, Node.bare_iff.mpr ⟨rfl, inner.bare⟩⟩
    next =>
      exact ⟨inner.quiet.append (quiet_singleton (Diagnostic.isTrailing_expected _ _)),
        Node.bare_iff.mpr ⟨rfl, inner.bare⟩⟩

end Parser

structure Fragment.Stricter (separators : List Span) (lenient strict : Fragment) : Prop where
  nodes : lenient.nodes = strict.nodes
  next : lenient.next = strict.next
  errors : Adds separators lenient.errors strict.errors

theorem Fragment.Plain.stricter {fragment : Fragment} (plain : fragment.Plain) : Stricter [] fragment fragment :=
  ⟨rfl, rfl, plain.quiet.adds⟩

theorem Fragment.Stricter.andThen {separators others : List Span} {lenient strict : Fragment}
    {step other : Cursor → Fragment} (stricter : Stricter separators lenient strict)
    (also : Stricter others (step strict.next) (other strict.next)) :
    Stricter (separators ++ others) (lenient.andThen step) (strict.andThen other) := by
  obtain ⟨nodes, next, errors⟩ := stricter
  rw [← next] at also
  refine ⟨?_, ?_, ?_⟩ <;> simp only [Fragment.andThen, next] at also ⊢
  · rw [nodes, also.nodes]
  · exact also.next
  · exact errors.append also.errors

namespace Parser

theorem keyword?_plain {word : String} {cursor : Cursor} {fragment : Fragment}
    (found : keyword? word cursor = some fragment) : fragment.Plain := by
  obtain ⟨next, _, rfl⟩ := Option.map_eq_some_iff.mp found
  exact Fragment.plain_ofParsed (plain_leaf _ rfl cursor next) .keyword (by decide)

theorem optionalKeyword_plain (word : String) (cursor : Cursor) : (optionalKeyword word cursor).Plain := by
  unfold optionalKeyword
  cases found : keyword? word cursor with
  | none => exact Fragment.plain_empty cursor
  | some fragment => exact keyword?_plain found

theorem requiredKeyword_plain (word : String) (cursor : Cursor) : (requiredKeyword word cursor).Plain := by
  unfold requiredKeyword
  cases found : keyword? word cursor with
  | none => exact Fragment.plain_expected _ cursor
  | some fragment => exact keyword?_plain found

theorem requiredIdentifier_plain (cursor : Cursor) : (requiredIdentifier cursor).Plain :=
  Fragment.plain_required identifier_plain _ _ (by decide) (by decide) _

theorem requiredPath_plain (cursor : Cursor) : (requiredPath cursor).Plain :=
  Fragment.plain_required identPath_plain _ _ (by decide) (by decide) _

theorem requiredToken_plain (token : String) (cursor : Cursor) : (requiredToken token cursor).Plain := by
  unfold requiredToken
  dsimp only
  split
  · exact Fragment.plain_empty _
  · exact Fragment.plain_expected _ _

theorem terminator_plain (cursor : Cursor) : (terminator cursor).Plain := by
  unfold terminator
  dsimp only
  split
  · exact ⟨quiet_nil, by simpa using Node.bare_leaf rfl rfl, by simp [leaf]⟩
  · exact Fragment.plain_expected _ _

theorem enumKindClause_plain (cursor : Cursor) : (enumKindClause cursor).Plain := by
  have word : ∀ cursor, (enumKindWord cursor).Plain := by
    intro cursor
    unfold enumKindWord
    dsimp only
    split
    · exact Fragment.plain_expected _ _
    next word next _ =>
      have found := Fragment.plain_ofParsed (plain_leaf (.keyword word) rfl cursor.skipTrivia next) .kind
        (by decide)
      split
      · exact found
      · exact ⟨quiet_singleton (Diagnostic.isTrailing_expected _ _), found.bare, found.bodiless⟩
  unfold enumKindClause
  dsimp only
  split
  · exact Fragment.plain_expected _ _
  next opened _ => exact (word opened).andThen (requiredToken_plain ")" _)

theorem describedObjects_plain (cursor : Cursor) : (describedObjects cursor).Plain := by
  unfold describedObjects
  split
  · exact Fragment.plain_ofParsed (list_plain resourceLocation_lawful resourceLocation_plain _ _ cursor) _ (by decide)
  · exact Fragment.plain_empty cursor

theorem structField_tidy : EntryGrammar.Tidy ⟨structField.pair, structField.starts⟩ :=
  PairGrammar.tidy fieldKey_lawful typeExpr_lawful fieldKey_plain typeExpr_plain

theorem enumField_tidy : EntryGrammar.Tidy ⟨enumField.pair, enumField.starts⟩ :=
  PairGrammar.tidy identifier_lawful literal_lawful identifier_plain literal_plain

def Aside (nodes : List Node) : Prop := ∀ node ∈ nodes, node.Bare ∧ node.role ≠ some .body

/-- A definition is read alike under both policies, up to the report of the separator behind its last pair. -/
theorem definition_stricter {grammar : PairGrammar} (tidy : EntryGrammar.Tidy ⟨grammar.pair, grammar.starts⟩)
    {front : Fragment} (plain : front.Plain) {docs : List Node} (aside : Aside docs) (kind : Node.Kind)
    (isDefinition : kind.isDefinition = true) (span : Span) (role : Option Node.Role) :
    Fragment.Stricter
      (Node.trailingSeparators [⟨kind, span, role, docs ++ (front.andThen (body .disallowed grammar)).nodes⟩])
      (front.andThen (body .allowed grammar)) (front.andThen (body .disallowed grammar)) := by
  have same := table_sameContainer tidy "\x7b" "\x7d" (by decide) front.next.skipTrivia
  have others : ∀ node ∈ docs ++ front.nodes, node.role ≠ some .body :=
    List.forall_mem_append.mpr ⟨fun node member => (aside node member).2, plain.bodiless⟩
  have bare : ∀ node ∈ docs ++ (front.andThen (body .disallowed grammar)).nodes, node.Bare := by
    refine List.forall_mem_append.mpr ⟨fun node member => (aside node member).1, ?_⟩
    refine List.forall_mem_append.mpr ⟨plain.bare, ?_⟩
    simpa [body, Fragment.ofParsed, table, Delimiters.braces] using same.bare.tagged .body
  have reports : Node.trailingSeparators [⟨kind, span, role, docs ++ (front.andThen (body .disallowed grammar)).nodes⟩] =
      (table (.braces .disallowed) grammar front.next.skipTrivia).node.trailingSeparator?.toList := by
    rw [Node.trailingSeparators_singleton, Node.trailingSeparators_bare bare, List.append_nil, Node.body?,
      if_pos isDefinition]
    simp only [Fragment.andThen, ← List.append_assoc]
    rw [Node.child?_behind others]
    simp [body, Fragment.ofParsed, Node.tagged, Node.trailingSeparator?]
  rw [reports]
  have inner : Fragment.Stricter (table (.braces .disallowed) grammar front.next.skipTrivia).node.trailingSeparator?.toList
      (body .allowed grammar front.next) (body .disallowed grammar front.next) := by
    refine ⟨?_, same.next, same.errors⟩
    simp only [body, Fragment.ofParsed, table, Delimiters.braces, same.node]
  exact plain.stricter.andThen inner

/-- The draft of a declaration is the same under both policies, and what is added reports the separators that its
node will show. -/
structure Draft.Stricter (lenient strict : Draft) : Prop where
  kind : lenient.kind = strict.kind
  parts : ∀ {docs : List Node}, Aside docs → ∀ span role, Fragment.Stricter
    (Node.trailingSeparators [⟨strict.kind, span, role, docs ++ strict.parts.nodes⟩]) lenient.parts strict.parts

theorem draft_of_plain {kind : Node.Kind} {parts : Fragment} (plain : parts.Plain)
    (noDefinition : kind.isDefinition = false) : Draft.Stricter ⟨kind, parts⟩ ⟨kind, parts⟩ := by
  refine ⟨rfl, fun aside span role => ?_⟩
  have bare := List.forall_mem_append.mpr ⟨fun node member => (aside node member).1, plain.bare⟩
  rw [Node.trailingSeparators_other _ noDefinition, Node.trailingSeparators_bare bare]
  exact plain.stricter

theorem structDeclaration_stricter (cursor : Cursor) :
    (structDeclaration .allowed cursor).Stricter (structDeclaration .disallowed cursor) := by
  have front := (optionalKeyword_plain "struct" cursor).andThen (requiredIdentifier_plain _)
  exact ⟨rfl, fun aside span role => definition_stricter structField_tidy front aside _ rfl span role⟩

theorem enumKind?_congr {lenient strict : Fragment} (same : lenient.nodes = strict.nodes) :
    enumKind? lenient = enumKind? strict := by
  simp only [enumKind?, same]

theorem enumDeclaration_stricter (cursor : Cursor) :
    (enumDeclaration .allowed cursor).Stricter (enumDeclaration .disallowed cursor) := by
  have front := ((optionalKeyword_plain "enum" cursor).andThen (enumKindClause_plain _)).andThen (requiredIdentifier_plain _)
  have parts : ∀ {docs : List Node}, Aside docs → ∀ kind span role, _ :=
    fun aside kind span role => definition_stricter enumField_tidy front aside (.enum kind) rfl span role
  have nothing : Aside [] := by simp [Aside]
  exact ⟨congrArg Node.Kind.enum (enumKind?_congr (parts nothing none (.point 0) none).nodes),
    fun aside span role => parts aside _ span role⟩

/-- What an inject clause adds is a definition of its own. -/
theorem injectedDefinition_stricter (cursor : Cursor) :
    Fragment.Stricter (Node.trailingSeparators (injectedDefinition .disallowed cursor).nodes)
      (injectedDefinition .allowed cursor) (injectedDefinition .disallowed cursor) := by
  have nothing : Aside [] := by simp [Aside]
  have finish : ∀ {kind : Node.Kind} {lenient strict : Fragment}, (∀ span role, Fragment.Stricter
        (Node.trailingSeparators [⟨kind, span, role, strict.nodes⟩]) lenient strict) →
      Fragment.Stricter (Node.trailingSeparators (Fragment.ofParsed (strict.finish kind cursor.offset) .definition).nodes)
        (.ofParsed (lenient.finish kind cursor.offset) .definition)
        (.ofParsed (strict.finish kind cursor.offset) .definition) := by
    intro kind lenient strict stricter
    have same := stricter (Span.coverAll (.point cursor.offset) (strict.nodes.map Node.span)) (some .definition)
    refine ⟨?_, same.next, same.errors⟩
    simp only [Fragment.ofParsed, Fragment.finish, same.nodes]
  unfold injectedDefinition
  split
  next found read =>
    have front := (keyword?_plain read).andThen (requiredPath_plain _)
    exact finish fun span role => definition_stricter structField_tidy front nothing _ rfl span role
  next =>
    split
    next found read =>
      have front := ((keyword?_plain read).andThen (enumKindClause_plain _)).andThen (requiredPath_plain _)
      have parts : ∀ kind span role, _ :=
        fun kind span role => definition_stricter enumField_tidy front nothing (.injectEnum kind) rfl span role
      simp only [enumKind?_congr (parts none (.point 0) none).nodes]
      exact finish (parts _)
    next =>
      have plain := Fragment.plain_expected "\"struct\" or \"enum\"" cursor
      rw [Node.trailingSeparators_bare plain.bare]
      exact plain.stricter

theorem injectClause_stricter (cursor : Cursor) :
    (injectClause .allowed cursor).Stricter (injectClause .disallowed cursor) := by
  have front := (optionalKeyword_plain "inject" cursor).skipTrivia
  have inner := front.stricter.andThen (injectedDefinition_stricter (optionalKeyword "inject" cursor).skipTrivia.next)
  refine ⟨rfl, fun {docs} aside span role => ?_⟩
  have bare : Node.trailingSeparators docs = [] := Node.trailingSeparators_bare fun node member => (aside node member).1
  have own := Node.trailingSeparators_other .injectClause rfl span role
    (docs ++ (injectClause .disallowed cursor).parts.nodes)
  rw [Node.trailingSeparators_append, bare, List.nil_append] at own
  refine own.symm ▸ ?_
  simp only [injectClause, Fragment.andThen, Node.trailingSeparators_append, Node.trailingSeparators_bare front.bare]
  exact inner

theorem moduleDeclaration_stricter (cursor : Cursor) : (moduleDeclaration cursor).Stricter (moduleDeclaration cursor) := by
  have front := (optionalKeyword_plain "mod" cursor).andThen (requiredIdentifier_plain _)
  exact draft_of_plain (front.andThen (terminator_plain _)) rfl

theorem useClause_stricter (cursor : Cursor) : (useClause cursor).Stricter (useClause cursor) := by
  unfold useClause
  split
  next exported read =>
    have front := (keyword?_plain read).skipTrivia.andThen (requiredKeyword_plain "use" _)
    exact draft_of_plain ((front.andThen (requiredPath_plain _)).andThen (terminator_plain _)) rfl
  next =>
    have front := (requiredKeyword_plain "use" cursor).andThen (requiredPath_plain _)
    exact draft_of_plain (front.andThen (terminator_plain _)) rfl

theorem describesClause_stricter (cursor : Cursor) : (describesClause cursor).Stricter (describesClause cursor) := by
  have front := ((requiredPath_plain cursor).skipTrivia.andThen (requiredKeyword_plain "describes" _)).skipTrivia
  have registry := (front.andThen (Fragment.plain_required resourceLocation_plain .registry
    .expectedResourceLocation (by decide) (by decide) _)).skipTrivia
  exact draft_of_plain ((registry.andThen (describedObjects_plain _)).andThen (terminator_plain _)) rfl

/-- Both policies find the same kind of declaration, or none. -/
theorem draft_stricter (cursor : Cursor) :
    Option.Rel Draft.Stricter (draft .allowed cursor) (draft .disallowed cursor) := by
  unfold draft
  split
  · exact .some (structDeclaration_stricter cursor)
  · exact .some (enumDeclaration_stricter cursor)
  · exact .some (moduleDeclaration_stricter cursor)
  · exact .some (useClause_stricter cursor)
  · exact .some (useClause_stricter cursor)
  · exact .some (injectClause_stricter cursor)
  · split
    · exact .some (describesClause_stricter cursor)
    · exact .none
  · exact .some (describesClause_stricter cursor)

theorem aside_docs {cursor next : Cursor} {doc : Node} (found : cursor.readDocComments? = some (doc, next)) :
    Aside [doc.tagged .doc] := by
  obtain ⟨text, last, rfl, _⟩ := Cursor.readDocComments?_reads found
  simpa [Aside, Node.tagged] using Node.bare_leaf rfl rfl

theorem looseDoc_plain {doc : Option Node} (aside : Aside (doc.toList.map fun node => Node.tagged node .doc))
    (behind : Cursor) : (looseDoc doc behind).Plain := by
  cases doc with
  | none => exact Fragment.plain_empty behind
  | some doc =>
    exact ⟨quiet_singleton (Diagnostic.isTrailing_other .docCommentNotAttached doc.span (by decide)),
      fun node member => (aside node member).1, fun node member => (aside node member).2⟩

theorem strayLine_plain (cursor : Cursor) : (strayLine cursor).Plain := by
  unfold strayLine
  split
  · exact Fragment.plain_empty cursor
  · exact ⟨quiet_singleton (Diagnostic.isTrailing_other _ _ (by decide)), by simp, by simp⟩

/-- What is added reports the separators of the declaration that stands there. -/
theorem declared_stricter (doc : Option Node) (aside : Aside (doc.toList.map fun node => Node.tagged node .doc))
    (behind : Cursor) :
    Fragment.Stricter (Node.trailingSeparators (declared .disallowed doc behind).nodes) (declared .allowed doc behind)
      (declared .disallowed doc behind) := by
  have same := draft_stricter behind
  simp only [declared, declaration]
  generalize draft .allowed behind = lenient at same
  generalize draft .disallowed behind = strict at same
  cases same with
  | none =>
    have plain := (looseDoc_plain aside behind).andThen (strayLine_plain _)
    have stricter := plain.stricter
    rwa [← Node.trailingSeparators_bare plain.bare] at stricter
  | some drafts =>
    obtain ⟨kind, parts⟩ := drafts
    have same := parts aside
    refine ⟨?_, (same (.point 0) none).next, (same _ none).errors⟩
    simp only [Option.map_some, Fragment.finish, kind, (same (.point 0) none).nodes]

theorem topLevel_stricter (cursor : Cursor) :
    Fragment.Stricter (Node.trailingSeparators (topLevel .disallowed cursor).nodes) (topLevel .allowed cursor)
      (topLevel .disallowed cursor) := by
  unfold topLevel
  cases found : cursor.readDocComments? with
  | none => exact declared_stricter none (by simp [Aside]) cursor
  | some docs => exact declared_stricter (some docs.1) (aside_docs found) docs.2

theorem declarations_stricter (fuel : Nat) (cursor : Cursor) :
    Fragment.Stricter (Node.trailingSeparators (declarations .disallowed fuel cursor).nodes)
      (declarations .allowed fuel cursor) (declarations .disallowed fuel cursor) := by
  induction fuel generalizing cursor with
  | zero => exact (Fragment.plain_empty cursor).stricter
  | succ fuel ih =>
    simp only [declarations]
    split
    · exact (Fragment.plain_empty _).stricter
    · have both := (topLevel_stricter cursor.skipTrivia).andThen (ih _)
      rwa [← Node.trailingSeparators_append] at both

theorem stringPair_tidy : EntryGrammar.Tidy ⟨stringPair.pair, stringPair.starts⟩ :=
  PairGrammar.tidy string_lawful string_lawful string_plain string_plain

end Parser

/-- The policy only adds reports. Under both the same tree is read. What the strict one reports in addition are
the separators behind the last pairs of the bodies of structs and enums, one for each body that goes on behind
that pair; in a table that is read on its own, the separator behind its last pair. -/
theorem parse_trailing (text : String) :
    ((parse text .allowed).node = (parse text .disallowed).node ∧
      (parse text .allowed).errors = (parse text .disallowed).errors.filter (fun diagnostic => !diagnostic.isTrailing) ∧
      (parse text .disallowed).errors.filter Diagnostic.isTrailing =
        ((parse text .disallowed).node.preorder.filterMap fun node => node.body?.bind Node.trailingSeparator?).map
          (.ofMessage .trailingSeparation [])) ∧
    (parseTable text .allowed).node = (parseTable text .disallowed).node ∧
    (parseTable text .allowed).errors =
      (parseTable text .disallowed).errors.filter (fun diagnostic => !diagnostic.isTrailing) ∧
    (parseTable text .disallowed).errors.filter Diagnostic.isTrailing =
      (parseTable text .disallowed).node.trailingSeparator?.toList.map (.ofMessage .trailingSeparation []) := by
  have document := Parser.declarations_stricter (Cursor.ofText text).remaining (.ofText text)
  have table : Parser.SameContainer _ _ :=
    Parser.table_sameContainer Parser.stringPair_tidy "\x7b" "\x7d" (by decide) (Cursor.ofText text).skipTrivia
  refine ⟨⟨?_, document.errors.kept, ?_⟩, table.node, table.errors.kept, table.errors.added⟩
  · simp only [parse, document.nodes]
  · have root : Node.trailingSeparators [(parse text .disallowed).node] = _ := Node.trailingSeparators_other _ rfl _ _ _
    simp only [Node.trailingSeparators, Node.forestPreorder, List.append_nil] at root
    rw [root]
    exact document.errors.added

end SchemaDoc
