import SchemaDoc.Proofs.DocumentCoverage
import SchemaDoc.Proofs.TokenReading

/-! Sequences come to an end whatever stands in them. Nothing is asked of the entries but that they stay
inside of what is read of them. A round of the loop that is not the last one has advanced, so the bound on
the number of rounds never ends the loop, and what is read is a well formed part of the text. -/

namespace SchemaDoc

/-- The span is in order and lies between two offsets. -/
structure Span.Within (low high : Nat) (span : Span) : Prop where
  start : low ≤ span.start
  ordered : span.start ≤ span.stop
  stop : span.stop ≤ high

namespace Span

variable {low high : Nat} {span : Span}

theorem Within.mono {lower higher : Nat} (within : span.Within low high) (before : lower ≤ low) (after : high ≤ higher) :
    span.Within lower higher :=
  ⟨Nat.le_trans before within.start, within.ordered, Nat.le_trans within.stop after⟩

theorem Within.le (within : span.Within low high) : low ≤ high :=
  Nat.le_trans within.start (Nat.le_trans within.ordered within.stop)

theorem within_point {offset : Nat} (before : low ≤ offset) (after : offset ≤ high) : (point offset).Within low high :=
  ⟨before, Nat.le_refl _, after⟩

theorem within_spanTo {cursor next : Cursor} (onward : cursor ≤ next) :
    (cursor.spanTo next).Within cursor.offset next.offset :=
  ⟨Nat.le_refl _, Cursor.offset_le onward, Nat.le_refl _⟩

theorem Within.cover {other : Span} (within : span.Within low high) (also : other.Within low high) :
    (span.cover other).Within low high := by
  obtain ⟨start, ordered, stop⟩ := within
  obtain ⟨otherStart, otherOrdered, otherStop⟩ := also
  constructor <;> simp only [Span.cover] <;> omega

theorem coverAll_within {fallback : Span} {spans : List Span} (empty : fallback.Within low high)
    (each : ∀ span ∈ spans, span.Within low high) : (coverAll fallback spans).Within low high := by
  cases spans with
  | nil => exact empty
  | cons first rest =>
    rw [List.forall_mem_cons] at each
    obtain ⟨start, rest⟩ := each
    exact List.foldlRecOn (motive := (Within low high)) _ _ start fun cover within span member =>
      within.cover (rest span member)

end Span

namespace Node

/-- A well formed tree between two offsets. -/
structure Inside (low high : Nat) (node : Node) : Prop where
  wellFormed : node.isWellFormed = true
  within : node.span.Within low high

variable {low high : Nat} {node : Node} {nodes : List Node}

theorem Inside.tagged (inside : node.Inside low high) (role : Role) : (node.tagged role).Inside low high :=
  have wellFormed := isWellFormed_iff.mp inside.wellFormed
  ⟨isWellFormed_iff.mpr wellFormed, inside.within⟩

theorem Inside.mono {lower higher : Nat} (inside : node.Inside low high) (before : lower ≤ low) (after : high ≤ higher) :
    node.Inside lower higher :=
  ⟨inside.wellFormed, inside.within.mono before after⟩

theorem inside_leaf (within : node.span.Within low high) (leaf : node.children = []) (plain : node.separators = []) :
    node.Inside low high :=
  ⟨isWellFormed_iff.mpr (by simp [leaf, plain, ordered]), within⟩

def Row (low : Nat) : List Node → Nat → Prop
  | [], high => low ≤ high
  | node :: nodes, high => ∃ middle, node.Inside low middle ∧ Row middle nodes high

theorem row_singleton (inside : node.Inside low high) : Row low [node] high := ⟨high, inside, Nat.le_refl _⟩

theorem Row.le (row : Row low nodes high) : low ≤ high := by
  induction nodes generalizing low with
  | nil => exact row
  | cons node nodes ih =>
    obtain ⟨middle, inside, rest⟩ := row
    exact Nat.le_trans inside.within.le (ih rest)

theorem Row.append {middle : Nat} {more : List Node} (before : Row low nodes middle) (after : Row middle more high) :
    Row low (nodes ++ more) high := by
  induction nodes generalizing low with
  | nil =>
    have onward : low ≤ middle := before
    cases more with
    | nil => exact Nat.le_trans onward after
    | cons node more =>
      obtain ⟨stop, inside, rest⟩ := after
      exact ⟨stop, inside.mono onward (Nat.le_refl _), rest⟩
  | cons node nodes ih =>
    obtain ⟨stop, inside, rest⟩ := before
    exact ⟨stop, inside, ih rest⟩

theorem Row.mono {lower higher : Nat} (row : Row low nodes high) (before : lower ≤ low) (after : high ≤ higher) :
    Row lower nodes higher := by
  have start : Row lower [] low := before
  have rest : Row high [] higher := after
  simpa using (start.append row).append rest

theorem Row.mem (row : Row low nodes high) (member : node ∈ nodes) : node.Inside low high := by
  induction nodes generalizing low with
  | nil => cases member
  | cons first nodes ih =>
    obtain ⟨middle, inside, rest⟩ := row
    rcases List.mem_cons.mp member with rfl | member
    · exact inside.mono (Nat.le_refl _) rest.le
    · exact (ih rest member).mono inside.within.le (Nat.le_refl _)

theorem Row.ordered (row : Row low nodes high) : ordered nodes = true := by
  induction nodes generalizing low with
  | nil => rfl
  | cons node nodes ih =>
    obtain ⟨middle, inside, rest⟩ := row
    cases nodes with
    | nil => rfl
    | cons next nodes =>
      have upper := inside.within.stop
      have lower := (rest.mem (List.mem_cons_self ..)).within.start
      simp only [Node.ordered, Bool.and_eq_true, decide_eq_true_eq]
      exact ⟨Nat.le_trans upper lower, ih rest⟩

theorem Row.enclosed (row : Row low node.children high) (within : node.span.Within low high)
    (separators : ∀ span ∈ node.separators, node.span.contains span = true)
    (children : ∀ child ∈ node.children, node.span.contains child.span = true) : node.Inside low high :=
  ⟨isWellFormed_iff.mpr ⟨separators, children, row.ordered, fun _ member => (row.mem member).wellFormed⟩, within⟩

theorem Inside.endedBy {separator : Span} {last : Nat} (inside : node.Inside low high)
    (within : separator.Within high last) : (node.endedBy separator).Inside low last := by
  have covers := (inside.within.mono (Nat.le_refl _) within.le).cover (within.mono inside.within.le (Nat.le_refl _))
  exact ⟨isWellFormed_endedBy inside.wellFormed separator, covers⟩

end Node

/-- At a place of the text the production finds nothing, or it advances and returns a well formed node
inside of what it read. -/
def Production.Advances (text : String) (production : Production) : Prop :=
  ∀ ⦃cursor parsed⦄, Cursor.ofText text ≤ cursor → production cursor = some parsed →
    cursor ≤ parsed.next ∧ cursor.offset < parsed.next.offset ∧ parsed.node.Inside cursor.offset parsed.next.offset

/-- What the documents are made of advances wherever it stands. -/
theorem Production.Lawful.advances {production : Production} (lawful : production.Lawful) (text : String) :
    production.Advances text := by
  intro cursor parsed _ found
  have placed := lawful found
  have between := placed.node.between
  exact ⟨placed.node.le, placed.advances, placed.node.wellFormed, between.bounds.1, between.ordered, between.bounds.2⟩

namespace Parser

def EntryGrammar.Stays (text : String) (grammar : EntryGrammar) : Prop :=
  ∀ ⦃cursor⦄, Cursor.ofText text ≤ cursor → cursor ≤ (grammar.entry cursor).next ∧
    (grammar.entry cursor).node.Inside cursor.offset (grammar.entry cursor).next.offset

/-- How a round of the loop ends: it is the last one, or the loop goes on behind an entry. -/
inductive Round where
  | last (found : Entries)
  | onward (entry : Node) (errors : List Diagnostic) (stop : Nat) (next : Cursor)

/-- One round, from a place where the sequence ends at `stop` so far. -/
def round (delimiters : Delimiters) (grammar : EntryGrammar) (stop : Nat) (cursor : Cursor) : Round :=
  let cursor := cursor.skipTrivia
  if cursor.atEnd || cursor.startsWith delimiters.closing then .last { stop, next := cursor }
  else
    let parsed := grammar.entry cursor
    let stop := if parsed.node.span.isEmpty then stop else max stop parsed.node.span.stop
    let behind := parsed.next.skipTrivia
    match behind.read? entrySeparator with
    | some separated =>
      let separator := behind.spanTo separated
      let next := separated.skipTrivia
      if next.startsWith delimiters.closing then
        .last { nodes := [parsed.node.endedBy separator],
                errors := parsed.errors ++ trailingErrors delimiters separator, stop := separator.stop, next }
      else .onward (parsed.node.endedBy separator) parsed.errors separator.stop next
    | none =>
      if parsed.node.span.isEmpty then .last { errors := parsed.errors, stop, next := behind }
      else if !behind.startsWith delimiters.closing && grammar.starts behind then
        .onward parsed.node (parsed.errors ++ [.expectedToken entrySeparator parsed.node.span.stop]) stop behind
      else .last { nodes := [parsed.node], errors := parsed.errors, stop, next := behind }

/-- The rounds of the loop up to its own end: the places where they begin, and what they find together. -/
inductive Rounds (delimiters : Delimiters) (grammar : EntryGrammar) : Nat → Cursor → List Cursor → Entries → Prop where
  | last {stop cursor found} (ends : round delimiters grammar stop cursor = .last found) :
      Rounds delimiters grammar stop cursor [cursor] found
  | onward {stop cursor entry errors reached next places found}
      (goesOn : round delimiters grammar stop cursor = .onward entry errors reached next)
      (more : Rounds delimiters grammar reached next places found) :
      Rounds delimiters grammar stop cursor (cursor :: places) (found.cons entry errors)

section Loop

variable {text : String} {delimiters : Delimiters} {grammar : EntryGrammar} {stop : Nat} {cursor : Cursor}

theorem entries_succ (delimiters : Delimiters) (grammar : EntryGrammar) (fuel stop : Nat) (cursor : Cursor) :
    entries delimiters grammar (fuel + 1) stop cursor =
      match round delimiters grammar stop cursor with
      | .last found => found
      | .onward entry errors reached next => (entries delimiters grammar fuel reached next).cons entry errors := by
  simp only [entries, round]
  split
  · rfl
  · cases (grammar.entry cursor.skipTrivia).next.skipTrivia.read? entrySeparator with
    | some separated =>
      dsimp only
      split <;> rfl
    | none =>
      dsimp only
      split
      · rfl
      · split <;> rfl

structure Reached (stop : Nat) (cursor : Cursor) (entry : Node) (reached : Nat) (next : Cursor) : Prop where
  onward : cursor ≤ next
  inside : entry.Inside cursor.offset next.offset
  covered : entry.span.stop ≤ reached
  grows : stop ≤ reached
  bounded : reached ≤ next.offset

/-- The entries lie in a row behind the cursor, up to the end of the sequence and no farther than the reader. -/
structure Entries.Arranged (stop : Nat) (cursor : Cursor) (found : Entries) : Prop where
  onward : cursor ≤ found.next
  row : Node.Row cursor.offset found.nodes found.next.offset
  covered : ∀ node ∈ found.nodes, node.span.stop ≤ found.stop
  grows : stop ≤ found.stop
  bounded : found.stop ≤ found.next.offset

theorem Entries.arranged_none {next : Cursor} {errors : List Diagnostic} (onward : cursor ≤ next)
    (bounded : stop ≤ next.offset) : Entries.Arranged stop cursor { errors, stop, next } :=
  ⟨onward, Cursor.offset_le onward, by simp, Nat.le_refl _, bounded⟩

theorem Entries.Arranged.cons {found : Entries} {entry : Node} {reached : Nat} {next : Cursor}
    (errors : List Diagnostic) (first : Reached stop cursor entry reached next) (rest : found.Arranged reached next) :
    (found.cons entry errors).Arranged stop cursor where
  onward := first.onward.trans rest.onward
  row := ⟨next.offset, first.inside, rest.row⟩
  covered := List.forall_mem_cons.mpr ⟨Nat.le_trans first.covered rest.grows, rest.covered⟩
  grows := Nat.le_trans first.grows rest.grows
  bounded := rest.bounded

theorem Reached.arranged {entry : Node} {reached : Nat} {next : Cursor} (errors : List Diagnostic)
    (first : Reached stop cursor entry reached next) :
    Entries.Arranged stop cursor { nodes := [entry], errors, stop := reached, next } := by
  have rest : Entries.Arranged reached next { stop := reached, next } := Entries.arranged_none (le_refl next) first.bounded
  have all := rest.cons errors first
  rwa [Entries.cons, List.append_nil] at all

/-- What reaches from before the entries over the last one of them. -/
theorem Entries.Arranged.container {found : Entries} (arranged : found.Arranged stop cursor) {kind : Node.Kind}
    (plain : ∀ span role children, (⟨kind, span, role, children⟩ : Node).separators = []) {low last : Nat}
    (before : low ≤ cursor.offset) (ordered : low ≤ stop) (covers : found.stop ≤ last) :
    Node.isWellFormed { kind, span := ⟨low, last⟩, children := found.nodes } = true := by
  have row := arranged.row.mono before (Nat.le_max_left found.next.offset last)
  have within : (⟨low, last⟩ : Span).Within low (max found.next.offset last) :=
    ⟨Nat.le_refl _, Nat.le_trans ordered (Nat.le_trans arranged.grows covers), Nat.le_max_right ..⟩
  refine (row.enclosed within (by simp [plain]) ?_).wellFormed
  intro child member
  exact Span.contains_iff.mpr ⟨(row.mem member).within.start, Nat.le_trans (arranged.covered child member) covers⟩

def Round.Sound (stop : Nat) (cursor : Cursor) : Round → Prop
  | .last found => found.Arranged stop cursor
  | .onward entry _ reached next => Reached stop cursor entry reached next ∧ cursor.offset < next.offset

theorem round_sound (delimiters : Delimiters) (stays : grammar.Stays text) (behind : Cursor.ofText text ≤ cursor)
    (before : stop ≤ cursor.offset) :
    (round delimiters grammar stop cursor).Sound stop cursor := by
  have lead := cursor.le_skipTrivia
  obtain ⟨read, inside⟩ := stays (behind.trans lead)
  simp only [round]
  generalize grammar.entry cursor.skipTrivia = parsed at read inside
  have tail := parsed.next.le_skipTrivia
  have onward := lead.trans (read.trans tail)
  have first := Cursor.offset_le lead
  have last := Cursor.offset_le tail
  obtain ⟨start, ordered, stops⟩ := inside.within
  split
  next => exact Entries.arranged_none lead (Nat.le_trans before first)
  next =>
    split
    next separated comma =>
      have reads := Cursor.read?_reads comma
      have moved := reads.offset_lt (by decide)
      have closes := Cursor.offset_le separated.le_skipTrivia
      have separator := (Span.within_spanTo reads.le).mono last closes
      have ended : Reached stop cursor (parsed.node.endedBy (parsed.next.skipTrivia.spanTo separated)) separated.offset
          separated.skipTrivia := by
        refine ⟨onward.trans (reads.le.trans separated.le_skipTrivia), ?_, ?_, ?_, closes⟩
        · exact (inside.mono first (Nat.le_refl _)).endedBy separator
        · simp only [Node.endedBy, Span.cover, Cursor.spanTo]
          omega
        · have all := Cursor.offset_le (onward.trans reads.le)
          omega
      split
      next => exact ended.arranged _
      next => exact ⟨ended, by omega⟩
    next =>
      split
      next => exact Entries.arranged_none onward (by omega)
      next some =>
        have kept : Reached stop cursor parsed.node (max stop parsed.node.span.stop) parsed.next.skipTrivia :=
          ⟨onward, inside.mono first last, Nat.le_max_right _ _, Nat.le_max_left _ _, by omega⟩
        have filled : parsed.node.span.start ≠ parsed.node.span.stop := by simpa [Span.isEmpty] using some
        split
        next => exact ⟨kept, by omega⟩
        next => exact kept.arranged _

/-- The loop ends by itself: with more rounds at hand than there are bytes ahead, none is missing. -/
theorem entries_rounds (delimiters : Delimiters) (stays : grammar.Stays text) {fuel : Nat}
    (enough : byteLength cursor.rest < fuel) (behind : Cursor.ofText text ≤ cursor) (before : stop ≤ cursor.offset) :
    ∃ places, Rounds delimiters grammar stop cursor places (entries delimiters grammar fuel stop cursor) := by
  induction fuel generalizing stop cursor with
  | zero => exact absurd enough (Nat.not_lt_zero _)
  | succ fuel ih =>
    have sound := round_sound delimiters stays behind before
    rw [entries_succ]
    cases ends : round delimiters grammar stop cursor with
    | last found => exact ⟨[cursor], .last ends⟩
    | onward entry errors reached next =>
      rw [ends] at sound
      obtain ⟨first, advanced⟩ := sound
      have whole := Cursor.offset_add_rest first.onward
      obtain ⟨places, more⟩ := ih (by omega) (behind.trans first.onward) first.bounded
      exact ⟨cursor :: places, .onward ends more⟩

/-- The places where the rounds of a run begin: each is one of the text and lies behind the one before. -/
structure Advancing (text : String) (places : List Cursor) : Prop where
  chain : places.IsChain fun place next => place.offset < next.offset
  behind : ∀ place ∈ places, Cursor.ofText text ≤ place

theorem Rounds.sound {places : List Cursor} {found : Entries} (rounds : Rounds delimiters grammar stop cursor places found)
    (stays : grammar.Stays text) (behind : Cursor.ofText text ≤ cursor) (before : stop ≤ cursor.offset) :
    found.Arranged stop cursor ∧ Advancing text places := by
  induction rounds with
  | last ends =>
    have sound := round_sound delimiters stays behind before
    rw [ends] at sound
    exact ⟨sound, .singleton _, by simpa using behind⟩
  | onward goesOn more ih =>
    have sound := round_sound delimiters stays behind before
    rw [goesOn] at sound
    obtain ⟨first, advanced⟩ := sound
    obtain ⟨arranged, chain, places⟩ := ih (behind.trans first.onward) first.bounded
    refine ⟨arranged.cons _ first, ?_, List.forall_mem_cons.mpr ⟨behind, places⟩⟩
    cases more with
    | last => exact .cons_cons advanced chain
    | onward => exact .cons_cons advanced chain

end Loop

end Parser

structure Fragment.Fits (cursor : Cursor) (fragment : Fragment) : Prop where
  onward : cursor ≤ fragment.next
  row : Node.Row cursor.offset fragment.nodes fragment.next.offset

namespace Fragment

variable {text : String} {cursor : Cursor}

theorem fits_none {next : Cursor} {errors : List Diagnostic} (onward : cursor ≤ next) : Fits cursor { errors, next } :=
  ⟨onward, Cursor.offset_le onward⟩

theorem Fits.andThen {first : Fragment} {step : Cursor → Fragment} (fits : first.Fits cursor)
    (also : (step first.next).Fits first.next) : (first.andThen step).Fits cursor :=
  ⟨fits.onward.trans also.onward, fits.row.append also.row⟩

theorem Fits.skipTrivia {fragment : Fragment} (fits : fragment.Fits cursor) : fragment.skipTrivia.Fits cursor :=
  ⟨fits.onward.trans fragment.next.le_skipTrivia,
    fits.row.mono (Nat.le_refl _) (Cursor.offset_le fragment.next.le_skipTrivia)⟩

theorem fits_required {production : Production} (advances : production.Advances text) (role : Node.Role)
    (message : Message) (behind : Cursor.ofText text ≤ cursor) : (required production role message cursor).Fits cursor := by
  unfold required
  split
  next parsed found =>
    obtain ⟨onward, _, inside⟩ := advances behind found
    exact ⟨onward, Node.row_singleton (inside.tagged role)⟩
  next => exact fits_none (le_refl cursor)

end Fragment

namespace Parser

variable {text : String}

theorem PairGrammar.doc_fits (grammar : PairGrammar) (cursor : Cursor) : (grammar.doc cursor).Fits cursor := by
  unfold doc
  split
  · split
    next doc next found =>
      obtain ⟨_, last, rfl, before, _, skips⟩ := Cursor.readDocComments?_reads found
      have within := (Span.within_spanTo before).mono (Nat.le_refl _) (Cursor.offset_le skips.le)
      exact ⟨before.trans skips.le, Node.row_singleton ((Node.inside_leaf within rfl rfl).tagged .doc)⟩
    next => exact Fragment.fits_none (le_refl cursor)
  · exact Fragment.fits_none (le_refl cursor)

theorem PairGrammar.pair_stays {grammar : PairGrammar} (keys : grammar.key.Advances text)
    (values : grammar.value.Advances text) : EntryGrammar.Stays text ⟨grammar.pair, grammar.starts⟩ := by
  intro cursor behind
  have docFits := grammar.doc_fits cursor
  simp only [pair]
  generalize grammar.doc cursor = doc at docFits
  have keyFits := (docFits.andThen (Fragment.fits_required keys .key .expectedKey (behind.trans docFits.onward))).skipTrivia
  have afterDoc : doc.next.offset ≤ (doc.andThen (Fragment.required grammar.key .key .expectedKey)).skipTrivia.next.offset :=
    Cursor.offset_le ((Fragment.fits_required keys .key .expectedKey (behind.trans docFits.onward)).skipTrivia.onward)
  generalize (doc.andThen (Fragment.required grammar.key .key .expectedKey)).skipTrivia = key at keyFits afterDoc
  have separator : key.next ≤ (key.next.read? grammar.separator).getD key.next ∧
      ∀ span ∈ (key.next.read? grammar.separator).map key.next.spanTo,
        span.Within key.next.offset ((key.next.read? grammar.separator).getD key.next).offset := by
    cases read : key.next.read? grammar.separator with
    | none => simp
    | some next => simpa using ⟨Cursor.read?_le read, Span.within_spanTo (Cursor.read?_le read)⟩
  generalize key.next.read? grammar.separator = separated at separator
  obtain ⟨toSeparator, separator⟩ := separator
  have toValue := toSeparator.trans (separated.getD key.next).le_skipTrivia
  have valueFits := Fragment.fits_required values .value .expectedValue (behind.trans (keyFits.onward.trans toValue))
  have tail := Cursor.offset_le ((separated.getD key.next).le_skipTrivia.trans valueFits.onward)
  generalize Fragment.required grammar.value .value .expectedValue (separated.getD key.next).skipTrivia = value
    at valueFits tail
  have row := (keyFits.row.mono (Nat.le_refl _) (Cursor.offset_le toValue)).append valueFits.row
  have onward := keyFits.onward.trans (toValue.trans valueFits.onward)
  refine ⟨onward, row.enclosed ?_ ?_ ?_⟩
  · refine Span.coverAll_within ?_ ?_
    · exact Span.within_point (Cursor.offset_le docFits.onward)
        (Nat.le_trans afterDoc (Cursor.offset_le (toValue.trans valueFits.onward)))
    · intro span member
      rw [List.append_assoc, List.mem_append, List.mem_append] at member
      rcases member with member | member | member
      · obtain ⟨node, among, rfl⟩ := List.mem_map.mp member
        exact (row.mem (List.mem_append_left _ among)).within
      · exact (separator span (Option.mem_toList.mp member)).mono (Cursor.offset_le keyFits.onward) tail
      · obtain ⟨node, among, rfl⟩ := List.mem_map.mp member
        exact (row.mem (List.mem_append_right _ among)).within
  · intro span member
    simp only [Node.separators, Option.toList_none, List.append_nil] at member
    exact Span.coverAll_contains (by simp [member])
  · intro child member
    apply Span.coverAll_contains
    rcases List.mem_append.mp member with member | member
    · exact List.mem_append_left _ (List.mem_append_left _ (List.mem_map_of_mem member))
    · exact List.mem_append_right _ (List.mem_map_of_mem member)

theorem item_stays {value : Production} (values : value.Advances text) :
    EntryGrammar.Stays text ⟨item value, fun cursor => (value cursor).isSome⟩ := by
  intro cursor behind
  simp only [item]
  split
  next parsed found =>
    obtain ⟨onward, _, inside⟩ := values behind found
    refine ⟨onward, (Node.row_singleton (inside.tagged .value)).enclosed inside.within (by simp [Node.separators]) ?_⟩
    intro child member
    obtain rfl := List.mem_singleton.mp member
    exact Span.contains_refl _
  next => exact ⟨le_refl cursor, Node.inside_leaf (Span.within_point (Nat.le_refl _) (Nat.le_refl _)) rfl rfl⟩

/-- The cursor stands between two characters of the text. -/
structure InText (text : String) (cursor : Cursor) : Prop where
  valid : (⟨cursor.offset⟩ : String.Pos.Raw).IsValid text
  bounded : cursor.offset ≤ text.utf8ByteSize

/-- What is read of a sequence. Behind its opening token it is what the rounds of the loop find up to their
own end; each of them that is not the last one has advanced. -/
structure Progresses (text : String) (delimiters : Delimiters) (grammar : EntryGrammar) (cursor : Cursor)
    (parsed : Parsed) : Prop where
  onward : cursor.offset ≤ parsed.next.offset
  inText : InText text parsed.next
  wellFormed : parsed.node.isWellFormed = true
  starts : parsed.node.span.start = cursor.offset
  ordered : cursor.offset ≤ parsed.node.span.stop
  stops : parsed.node.span.stop ≤ parsed.next.offset
  unopened : cursor.startsWith delimiters.opening = false →
    parsed.next = cursor ∧ parsed.node.children = [] ∧
    parsed.errors = [.expectedToken delimiters.opening cursor.offset]
  opened : ∀ opened, cursor.read? delimiters.opening = some opened →
    ∃ places found, Rounds delimiters grammar opened.offset opened places found ∧
      places.IsChain (fun place next => place.offset < next.offset) ∧ (∀ place ∈ places, InText text place) ∧
      InText text found.next ∧ parsed.node.children = found.nodes ∧
      parsed.next = (found.next.read? delimiters.closing).getD found.next ∧
      parsed.errors = found.errors ++
        if found.next.startsWith delimiters.closing then [] else [.expectedToken delimiters.closing found.next.offset]

theorem inText_of_le {cursor : Cursor} (behind : Cursor.ofText text ≤ cursor) : InText text cursor :=
  ⟨(Cursor.valid_of_le behind).1, (Cursor.valid_of_le behind).2⟩

/-- Whatever the delimiters are, also without any character, a sequence of entries that stay inside of what is
read of them comes to its end. -/
theorem sequence_progresses {kind : Node.Kind} {grammar : EntryGrammar} (delimiters : Delimiters)
    (plain : ∀ span role children, (⟨kind, span, role, children⟩ : Node).separators = [])
    (stays : grammar.Stays text) {cursor : Cursor} (behind : Cursor.ofText text ≤ cursor) :
    Progresses text delimiters grammar cursor (sequence kind delimiters grammar cursor) := by
  unfold sequence
  split
  next unread =>
    have here : cursor.here.Within cursor.offset cursor.offset := Span.within_point (Nat.le_refl _) (Nat.le_refl _)
    refine ⟨Nat.le_refl _, inText_of_le behind, (Node.inside_leaf here rfl (plain _ _ _)).wellFormed, rfl, Nat.le_refl _,
      Nat.le_refl _, fun _ => ⟨rfl, rfl, rfl⟩, fun opened read => ?_⟩
    rw [unread] at read
    cases read
  next opened read =>
    have toOpened := Cursor.read?_le read
    have inside := behind.trans toOpened
    obtain ⟨places, rounds⟩ :=
      entries_rounds delimiters stays (Cursor.whole_of_le inside).enough inside (Nat.le_refl opened.offset)
    dsimp only
    generalize entries delimiters grammar opened.remaining opened.offset opened = found at rounds
    obtain ⟨arranged, chain, visited⟩ := rounds.sound stays inside (Nat.le_refl opened.offset)
    have onward := toOpened.trans arranged.onward
    have opening := Cursor.offset_le toOpened
    have ended := inText_of_le (inside.trans arranged.onward)
    have stops := Nat.le_trans opening arranged.grows
    have isOpened : cursor.startsWith delimiters.opening ≠ false := by simp [← Cursor.isSome_read?, read]
    split
    next closed readClosed =>
      have toClosed := Cursor.read?_le readClosed
      have starts : found.next.startsWith delimiters.closing = true := by simp [← Cursor.isSome_read?, readClosed]
      have grows := Nat.le_trans arranged.bounded (Cursor.offset_le toClosed)
      refine ⟨Cursor.offset_le (onward.trans toClosed), inText_of_le (inside.trans (arranged.onward.trans toClosed)),
        arranged.container plain opening opening grows, rfl, Nat.le_trans stops grows, Nat.le_refl _, fun unopened => absurd unopened isOpened, ?_⟩
      intro also same
      obtain rfl := Option.some.inj (read.symm.trans same)
      refine ⟨places, found, rounds, chain, fun place member => inText_of_le (visited place member), ended, rfl, ?_, ?_⟩
      · rw [readClosed]
        rfl
      · simp [starts]
    next unclosed =>
      have starts : found.next.startsWith delimiters.closing = false := by simp [← Cursor.isSome_read?, unclosed]
      refine ⟨Cursor.offset_le onward, ended, arranged.container plain opening opening (Nat.le_refl _), rfl, stops,
        arranged.bounded, fun unopened => absurd unopened isOpened, ?_⟩
      intro also same
      obtain rfl := Option.some.inj (read.symm.trans same)
      refine ⟨places, found, rounds, chain, fun place member => inText_of_le (visited place member), ended, rfl, ?_, ?_⟩
      · rw [unclosed]
        rfl
      · simp [starts]

/-- Tables and lists always come to their end, whatever the text, the place in it and the delimiters are, as long
as what is tried for keys and values advances where it finds something. -/
theorem table_list_progress (text : String) (delimiters : Delimiters) (grammar : PairGrammar) (cursor : Cursor)
    (behind : Cursor.ofText text ≤ cursor) (keys : grammar.key.Advances text) (values : grammar.value.Advances text) :
    Progresses text delimiters ⟨grammar.pair, grammar.starts⟩ cursor (table delimiters grammar cursor) ∧
    Progresses text delimiters ⟨item grammar.value, fun next => (grammar.value next).isSome⟩ cursor
      (list delimiters grammar.value cursor) :=
  ⟨sequence_progresses delimiters (fun _ _ _ => rfl) (PairGrammar.pair_stays keys values) behind,
    sequence_progresses delimiters (fun _ _ _ => rfl) (item_stays values) behind⟩

/-- Names and literals with nothing between them, in a sequence that needs no opening token. -/
theorem table_list_progress_untidy :
    let text := "a 1 b,, = // c"
    let delimiters : Delimiters := ⟨"", "]", .disallowed⟩
    let grammar : PairGrammar := ⟨identifier, "", literal, true⟩
    Cursor.ofText text ≤ Cursor.ofText text ∧ grammar.key.Advances text ∧ grammar.value.Advances text ∧
    Progresses text delimiters ⟨grammar.pair, grammar.starts⟩ (.ofText text) (table delimiters grammar (.ofText text)) :=
  have keys := identifier_lawful.advances _
  have values := literal_lawful.advances _
  ⟨le_refl _, keys, values, (table_list_progress _ _ ⟨identifier, "", literal, true⟩ _ (le_refl _) keys values).1⟩

end Parser

end SchemaDoc
