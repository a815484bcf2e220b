import SchemaDoc.Parser.Sequence
import SchemaDoc.Proofs.ProductionLaws

/-! Tables and lists are lawful whenever their entries are. The loop carries the place where the
sequence ends so far: between it and the cursor there is only trivia, so a sequence that lacks its
closing token still covers everything that was read of it. -/

namespace SchemaDoc

theorem Node.mem_separators_endedBy {entry : Node} {separator span : Span}
    (member : span ∈ (entry.endedBy separator).separators) : span ∈ entry.separators ∨ span = separator := by
  obtain ⟨kind, own, role, children⟩ := entry
  cases kind <;> simp_all [endedBy, separators]
  rcases member with member | member <;> simp [member]

theorem Node.isWellFormed_endedBy {entry : Node} (wellFormed : entry.isWellFormed = true) (separator : Span) :
    (entry.endedBy separator).isWellFormed = true := by
  obtain ⟨separators, children, ordered, each⟩ := isWellFormed_iff.mp wellFormed
  have grows := Span.cover_contains_left entry.span separator
  refine isWellFormed_iff.mpr ⟨?_, ?_, ordered, each⟩
  · intro span member
    rcases mem_separators_endedBy member with member | rfl
    · exact Span.contains_trans grows (separators span member)
    · exact Span.cover_contains_right _ _
  · intro child member
    exact Span.contains_trans grows (children child member)

theorem Node.Lawful.endedBy {first behind start stop : Cursor} {entry : Node} (lawful : entry.Lawful first behind)
    (before : behind ≤ start) (inside : start ≤ stop) :
    (entry.endedBy (start.spanTo stop)).Lawful first stop := by
  have onward := before.trans inside
  have separator : (start.spanTo stop).Between first stop :=
    Span.between_spanTo (lawful.le.trans before) inside (le_refl stop)
  have own := lawful.between.mono (le_refl first) onward
  refine ⟨isWellFormed_endedBy lawful.wellFormed _, fun inner member span recorded => ?_⟩
  rcases mem_preorder.mp member with rfl | below
  · rcases List.mem_cons.mp recorded with rfl | recorded
    · exact own.cover separator
    rcases mem_separators_endedBy recorded with recorded | rfl
    · have placed := lawful.spans entry entry.self_mem_preorder span (List.mem_cons_of_mem _ recorded)
      exact placed.mono (le_refl first) onward
    · exact separator
  · have placed := lawful.spans inner (mem_preorder.mpr (.inr below)) span recorded
    exact placed.mono (le_refl first) onward

namespace Parser

namespace PairGrammar

theorem doc_sound (grammar : PairGrammar) (cursor : Cursor) : (grammar.doc cursor).Sound cursor := by
  unfold doc
  split
  · split
    next doc next found => exact Fragment.sound_docComments found
    next => exact Fragment.sound_empty cursor
  · exact Fragment.sound_empty cursor

/-- A token that may be missing: what was read of it and what is reported. -/
private theorem separator_lawful (token : String) (cursor : Cursor) :
    let separated := cursor.read? token
    let middle := separated.getD cursor
    let spans := (separated.map cursor.spanTo).toList
    cursor ≤ middle ∧ (∀ span ∈ spans, span.Between cursor middle) ∧ Span.Framed cursor spans middle ∧
      ∀ diagnostic ∈ if separated.isSome then [] else [Diagnostic.expectedToken token cursor.offset],
        diagnostic.Inside cursor middle := by
  dsimp only
  cases read : cursor.read? token with
  | none =>
    refine ⟨le_refl cursor, by simp, .inl ⟨rfl, .refl cursor⟩, ?_⟩
    intro diagnostic member
    obtain rfl := List.mem_singleton.mp member
    exact Diagnostic.inside_expectedToken token ⟨cursor, le_refl cursor, le_refl cursor, rfl⟩
  | some next =>
    have before := Cursor.read?_le read
    refine ⟨before, ?_, .inr ⟨cursor, next, Span.frame_singleton (.refl cursor) before (.refl next)⟩, by simp⟩
    intro span member
    obtain rfl := List.mem_singleton.mp member
    exact Span.between_spanTo (le_refl cursor) before (le_refl next)

/-- A pair is lawful at every cursor, whatever is missing of it. -/
theorem pair_lawful {grammar : PairGrammar} (keys : grammar.key.Lawful) (values : grammar.value.Lawful)
    (cursor : Cursor) : (grammar.pair cursor).Lawful cursor := by
  obtain ⟨docLawful, docFramed⟩ := grammar.doc_sound cursor
  unfold pair
  dsimp only [Fragment.andThen, Fragment.skipTrivia]
  generalize grammar.doc cursor = doc at docLawful docFramed
  have keyLawful := (Fragment.lawful_required keys .key .expectedKey doc.next (by decide)).skipTrivia
  have keyFramed := (Fragment.framed_required keys .key .expectedKey doc.next).skipTrivia
  dsimp only [Fragment.Framed, Fragment.skipTrivia] at keyLawful keyFramed
  generalize Fragment.required grammar.key .key .expectedKey doc.next = key at keyLawful keyFramed
  obtain ⟨onward, sepBetween, sepFramed, sepErrors⟩ := separator_lawful grammar.separator key.next.skipTrivia
  generalize key.next.skipTrivia.read? grammar.separator = separated at onward sepBetween sepFramed sepErrors
  generalize separated.getD key.next.skipTrivia = middle at onward sepBetween sepFramed sepErrors
  have valueLawful := Fragment.lawful_required values .value .expectedValue middle.skipTrivia (by decide)
  have valueFramed := Fragment.framed_required values .value .expectedValue middle.skipTrivia
  generalize Fragment.required grammar.value .value .expectedValue middle.skipTrivia = value at valueLawful valueFramed
  have toValue := onward.trans (middle.le_skipTrivia.trans valueLawful.le)
  have fromKey := docLawful.le.trans keyLawful.le
  have laid : Node.Laid cursor (doc.nodes ++ key.nodes ++ value.nodes) value.next := by
    have start := docLawful.laid.append keyLawful.laid
    exact (start.mono_right (onward.trans middle.le_skipTrivia)).append valueLawful.laid
  have rest := keyFramed.append ((sepFramed.skip middle.skips_skipTrivia).append valueFramed)
  have all := Span.Framed.append docFramed rest
  refine Parsed.lawful_cover laid rfl ?_ ?_ ?_ ?_ ?_ ?_
  · intro child member
    rcases List.mem_append.mp member with member | member
    · exact List.mem_append_left _ (List.mem_append_left _ (List.mem_map_of_mem member))
    · exact List.mem_append_right _ (List.mem_map_of_mem member)
  · intro separator member
    simp only [Node.separators, Option.toList_none, List.append_nil] at member
    simp [member]
  · intro span member
    rcases List.mem_append.mp member with member | member
    · rcases List.mem_append.mp member with member | member
      · obtain ⟨node, among, rfl⟩ := List.mem_map.mp member
        exact (laid.mem (List.mem_append_left _ among)).between
      · exact (sepBetween span member).mono fromKey (middle.le_skipTrivia.trans valueLawful.le)
    · obtain ⟨node, among, rfl⟩ := List.mem_map.mp member
      exact (laid.mem (List.mem_append_right _ among)).between
  · simpa using all
  · intro none
    simp only [List.append_eq_nil_iff, List.map_eq_nil_iff] at none
    obtain ⟨⟨⟨noDoc, noKey⟩, noSeparator⟩, noValue⟩ := none
    rw [Fragment.Framed, noDoc] at docFramed
    rw [noKey, noSeparator, noValue] at rest
    exact ⟨docFramed.skips, rest.skips⟩
  · intro diagnostic member
    simp only [List.mem_append] at member
    rcases member with ((member | member) | member) | member
    · exact (docLawful.errors diagnostic member).mono (le_refl cursor) (keyLawful.le.trans toValue)
    · exact (keyLawful.errors diagnostic member).mono docLawful.le toValue
    · exact (sepErrors diagnostic member).mono fromKey (middle.le_skipTrivia.trans valueLawful.le)
    · exact (valueLawful.errors diagnostic member).mono
        (fromKey.trans (onward.trans middle.le_skipTrivia)) (le_refl value.next)

end PairGrammar

theorem item_lawful {value : Production} (lawful : value.Lawful) (cursor : Cursor) :
    (item value cursor).Lawful cursor := by
  unfold item
  split
  next parsed found =>
    have placed := lawful found
    obtain ⟨last, before, _, skips, span⟩ := placed.frame
    refine Parsed.lawful_covering (Node.laid_singleton (placed.node.tagged .value)) before skips span ?_ rfl placed.errors
    intro child member
    obtain rfl := List.mem_singleton.mp member
    exact Nat.le_of_eq (congrArg Span.stop span)
  next =>
    have here : cursor.here.Between cursor cursor := Span.between_here (le_refl cursor) (le_refl cursor)
    refine ⟨Node.lawful_leaf here rfl rfl, ⟨cursor, cursor, .refl cursor, le_refl cursor, .refl cursor, rfl⟩, ?_⟩
    intro diagnostic member
    obtain rfl := List.mem_singleton.mp member
    exact Diagnostic.inside_ofMessage here (by decide)

def EndsAt (first : Cursor) (stop : Nat) (cursor : Cursor) : Prop :=
  ∃ last, first ≤ last ∧ last.offset = stop ∧ last.Skips cursor

theorem EndsAt.skip {first cursor next : Cursor} {stop : Nat} (ends : EndsAt first stop cursor)
    (skips : cursor.Skips next) : EndsAt first stop next := by
  obtain ⟨last, before, same, trivia⟩ := ends
  exact ⟨last, before, same, trivia.trans skips⟩

/-- Behind an entry the sequence ends with it. -/
private theorem EndsAt.entry {first cursor : Cursor} {stop : Nat} {parsed : Parsed} (ends : EndsAt first stop cursor)
    (lawful : parsed.Lawful cursor.skipTrivia) :
    ∃ last, first ≤ last ∧ stop ≤ last.offset ∧ parsed.node.span.stop = last.offset ∧ last.Skips parsed.next.skipTrivia := by
  obtain ⟨former, before, rfl, trivia⟩ := ends
  obtain ⟨start, last, lead, inside, tail, span⟩ := lawful.frame
  have onward := trivia.le.trans (cursor.le_skipTrivia.trans (lead.le.trans inside))
  refine ⟨last, before.trans onward, Cursor.offset_le onward, ?_, tail.trans parsed.next.skips_skipTrivia⟩
  rw [span, Cursor.spanTo]

/-- An entry that turns out to be empty was read from trivia alone. -/
theorem skips_of_isEmpty {cursor : Cursor} {parsed : Parsed} (lawful : parsed.Lawful cursor)
    (isEmpty : parsed.node.span.isEmpty = true) : cursor.Skips parsed.next := by
  obtain ⟨start, last, lead, inside, tail, span⟩ := lawful.frame
  have same : start = last := by
    refine Cursor.eq_of_offset lead.le (lead.le.trans inside) ?_
    simpa [Span.isEmpty, span, Cursor.spanTo] using isEmpty
  subst same
  exact lead.trans tail

/-- Behind an empty entry the sequence ends where it did. -/
private theorem EndsAt.empty {first cursor : Cursor} {stop : Nat} {parsed : Parsed} (ends : EndsAt first stop cursor)
    (lawful : parsed.Lawful cursor.skipTrivia) (isEmpty : parsed.node.span.isEmpty = true) :
    EndsAt first stop parsed.next.skipTrivia :=
  ends.skip (cursor.skips_skipTrivia.trans ((skips_of_isEmpty lawful isEmpty).trans parsed.next.skips_skipTrivia))

/-- What holds of the entries read so far, with `stop` as the end of the sequence before them. -/
structure Entries.Lawful (first cursor : Cursor) (stop : Nat) (entries : Entries) : Prop where
  laid : Node.Laid cursor entries.nodes entries.next
  inside : ∀ node ∈ entries.nodes, node.span.stop ≤ entries.stop
  grows : stop ≤ entries.stop
  ends : EndsAt first entries.stop entries.next
  errors : ∀ diagnostic ∈ entries.errors, diagnostic.Inside cursor entries.next

/-- The loop continues behind an entry. -/
theorem Entries.Lawful.cons {first cursor next : Cursor} {entries : Entries} {stop reached : Nat} {entry : Node}
    {errors : List Diagnostic} (rest : entries.Lawful first next reached) (lawful : entry.Lawful cursor next)
    (inside : entry.span.stop ≤ reached) (grows : stop ≤ reached)
    (problems : ∀ diagnostic ∈ errors, diagnostic.Inside cursor next) :
    (entries.cons entry errors).Lawful first cursor stop where
  laid := ⟨next, lawful, rest.laid⟩
  inside := by
    intro node member
    rcases List.mem_cons.mp member with rfl | member
    · exact Nat.le_trans inside rest.grows
    · exact rest.inside node member
  grows := Nat.le_trans grows rest.grows
  ends := rest.ends
  errors := by
    intro diagnostic member
    rcases List.mem_append.mp member with member | member
    · exact (problems diagnostic member).mono (le_refl cursor) rest.laid.le
    · exact (rest.errors diagnostic member).mono lawful.le (le_refl _)

private theorem lawful_stopped {first cursor next : Cursor} {stop : Nat} {errors : List Diagnostic}
    (before : cursor ≤ next) (ends : EndsAt first stop next)
    (problems : ∀ diagnostic ∈ errors, diagnostic.Inside cursor next) :
    Entries.Lawful first cursor stop { errors, stop, next } :=
  ⟨before, by simp, Nat.le_refl stop, ends, problems⟩

private theorem trailing_inside (delimiters : Delimiters) {first last : Cursor} {separator : Span}
    (between : separator.Between first last) :
    ∀ diagnostic ∈ trailingErrors delimiters separator, diagnostic.Inside first last := by
  intro diagnostic member
  unfold trailingErrors at member
  split at member
  · cases member
  · obtain rfl := List.mem_singleton.mp member
    exact Diagnostic.inside_ofMessage between (by decide)

private theorem lawful_ended {first cursor next : Cursor} {stop reached : Nat} {entry : Node} {errors : List Diagnostic}
    (ends : EndsAt first reached next) (lawful : entry.Lawful cursor next) (inside : entry.span.stop ≤ reached)
    (grows : stop ≤ reached) (problems : ∀ diagnostic ∈ errors, diagnostic.Inside cursor next) :
    Entries.Lawful first cursor stop { nodes := [entry], errors, stop := reached, next } := by
  have rest : Entries.Lawful first next reached { stop := reached, next } := lawful_stopped (le_refl next) ends (by simp)
  have all := rest.cons lawful inside grows problems
  rwa [Entries.cons, List.append_nil] at all

theorem entries_lawful {delimiters : Delimiters} {grammar : EntryGrammar}
    (lawful : ∀ cursor, (grammar.entry cursor).Lawful cursor) (fuel : Nat) {first cursor : Cursor} {stop : Nat}
    (ends : EndsAt first stop cursor) : (entries delimiters grammar fuel stop cursor).Lawful first cursor stop := by
  induction fuel generalizing stop cursor with
  | zero => exact lawful_stopped (le_refl cursor) ends (by simp)
  | succ fuel ih =>
    unfold entries
    dsimp only
    have skips := cursor.skips_skipTrivia
    split
    next => exact lawful_stopped skips.le (ends.skip skips) (by simp)
    next =>
      have entry := lawful cursor.skipTrivia
      generalize grammar.entry cursor.skipTrivia = parsed at entry
      obtain ⟨last, before, reaches, spanStop, tail⟩ := ends.entry entry
      have behind := parsed.next.le_skipTrivia
      have node := entry.node.mono skips.le (le_refl parsed.next)
      have problems : ∀ {later : Cursor}, parsed.next ≤ later →
          ∀ diagnostic ∈ parsed.errors, diagnostic.Inside cursor later :=
        fun after diagnostic member => (entry.errors diagnostic member).mono skips.le after
      split
      next separated read =>
        have comma := Cursor.read?_le read
        have onward := tail.le.trans comma
        have placed := node.endedBy behind comma
        have closes := separated.skips_skipTrivia
        have grows := Nat.le_trans reaches (Cursor.offset_le onward)
        have reached : EndsAt first separated.offset separated.skipTrivia := ⟨separated, before.trans onward, rfl, closes⟩
        have kept := problems (behind.trans (comma.trans closes.le))
        have wider := placed.mono (le_refl cursor) closes.le
        split
        next =>
          refine lawful_ended reached wider placed.between.bounds.2 grows ?_
          intro diagnostic member
          rcases List.mem_append.mp member with member | member
          · exact kept diagnostic member
          · exact trailing_inside delimiters (Span.between_spanTo (node.le.trans behind) comma closes.le) diagnostic member
        next => exact (ih reached).cons wider placed.between.bounds.2 grows kept
      next =>
        have kept := problems behind
        split
        next isEmpty => exact lawful_stopped (node.le.trans behind) (ends.empty entry isEmpty) kept
        next some =>
          have stopped : max stop parsed.node.span.stop = last.offset := by omega
          have reached : EndsAt first (max stop parsed.node.span.stop) parsed.next.skipTrivia :=
            ⟨last, before, stopped.symm, tail⟩
          have wider := node.mono (le_refl cursor) behind
          split
          next =>
            refine (ih reached).cons wider (Nat.le_max_right _ _) (Nat.le_max_left _ _) ?_
            intro diagnostic member
            rcases List.mem_append.mp member with member | member
            · exact kept diagnostic member
            · obtain rfl := List.mem_singleton.mp member
              exact Diagnostic.inside_expectedToken _ wider.between.stop
          next => exact lawful_ended reached wider (Nat.le_max_right _ _) (Nat.le_max_left _ _) kept

/-- A sequence of lawful entries is lawful, whether it is opened and closed or not. -/
theorem sequence_lawful {kind : Node.Kind} {delimiters : Delimiters} {grammar : EntryGrammar}
    (plain : ∀ span role children, (⟨kind, span, role, children⟩ : Node).separators = [])
    (lawful : ∀ cursor, (grammar.entry cursor).Lawful cursor) (cursor : Cursor) :
    (sequence kind delimiters grammar cursor).Lawful cursor := by
  unfold sequence
  split
  next =>
    have here : cursor.here.Between cursor cursor := Span.between_here (le_refl cursor) (le_refl cursor)
    refine ⟨Node.lawful_leaf here rfl (plain _ _ _),
      ⟨cursor, cursor, .refl cursor, le_refl cursor, .refl cursor, rfl⟩, ?_⟩
    intro diagnostic member
    obtain rfl := List.mem_singleton.mp member
    exact Diagnostic.inside_expectedToken _ ⟨cursor, le_refl cursor, le_refl cursor, rfl⟩
  next opened read =>
    have before := Cursor.read?_le read
    have opening : EndsAt opened opened.offset opened := ⟨opened, le_refl opened, rfl, .refl opened⟩
    have inner : (entries delimiters grammar opened.remaining opened.offset opened).Lawful opened opened opened.offset :=
      entries_lawful lawful opened.remaining opening
    dsimp only
    generalize entries delimiters grammar opened.remaining opened.offset opened = found at inner
    have start : Node.Laid cursor [] opened := before
    have laid := start.append inner.laid
    have problems : ∀ diagnostic ∈ found.errors, diagnostic.Inside cursor found.next :=
      fun diagnostic member => (inner.errors diagnostic member).mono before (le_refl found.next)
    split
    next closed readClosed =>
      have after := Cursor.read?_le readClosed
      refine Parsed.lawful_covering (laid.mono_right after) (laid.le.trans after) (.refl closed) rfl ?_ (plain _ _ _) ?_
      · intro child member
        exact Nat.le_trans (laid.mem member).between.bounds.2 (Cursor.offset_le after)
      · intro diagnostic member
        exact (problems diagnostic member).mono (le_refl cursor) after
    next =>
      obtain ⟨last, reached, stopped, skips⟩ := inner.ends
      refine Parsed.lawful_covering laid (before.trans reached) skips ?_ ?_ (plain _ _ _) ?_
      · simp only [Cursor.spanTo, stopped]
      · intro child member
        rw [stopped]
        exact inner.inside child member
      · intro diagnostic member
        rcases List.mem_append.mp member with member | member
        · exact problems diagnostic member
        · obtain rfl := List.mem_singleton.mp member
          exact Diagnostic.inside_expectedToken _ ⟨found.next, laid.le, le_refl found.next, rfl⟩

theorem table_lawful {delimiters : Delimiters} {grammar : PairGrammar} (keys : grammar.key.Lawful)
    (values : grammar.value.Lawful) (cursor : Cursor) : (table delimiters grammar cursor).Lawful cursor :=
  sequence_lawful (fun _ _ _ => rfl) (PairGrammar.pair_lawful keys values) cursor

theorem list_lawful {delimiters : Delimiters} {value : Production} (lawful : value.Lawful) (cursor : Cursor) :
    (list delimiters value cursor).Lawful cursor :=
  sequence_lawful (fun _ _ _ => rfl) (item_lawful lawful) cursor

end Parser

end SchemaDoc
