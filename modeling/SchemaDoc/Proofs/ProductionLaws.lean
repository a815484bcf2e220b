import SchemaDoc.Proofs.NodePlacement

/-! What holds of everything that a parser returns. Its node is well formed and stands between the
cursor where it began and the one where it ended, its problems lie there too, and nothing but trivia
was read outside of its node. Fragments compose, so a declaration needs one such fact for each of
its parts. -/

namespace SchemaDoc

theorem Message.render_expected (argument : String) :
    Message.expected.render [argument] = "Expected " ++ argument := by
  have filled : fillFrom [argument] "Expected {0}".length "Expected {0}".toList =
      "Expected ".toList ++ (argument.toList ++ []) := rfl
  apply String.toList_injective
  simp only [render, fill, template, String.toList_ofList, filled, List.append_nil, String.toList_append]

/-- A token in quotes is never taken for the report of a line that starts no declaration. -/
theorem Message.render_quote_ne (token : String) :
    Message.expected.render [quote token] ≠ Message.expectedDeclaration.render [] := by
  intro same
  rw [render_expected] at same
  have plain : (Message.expectedDeclaration.render []).toList = "Expected a declaration".toList := by decide
  have chars := congrArg String.toList same
  simp [plain, quote] at chars

structure Diagnostic.Inside (first last : Cursor) (diagnostic : Diagnostic) : Prop where
  between : diagnostic.span.Between first last
  isError : diagnostic.severity = .error
  inner : diagnostic.message ≠ Message.expectedDeclaration.render []

namespace Diagnostic

theorem Inside.mono {first last outer behind : Cursor} {diagnostic : Diagnostic}
    (inside : diagnostic.Inside first last) (before : outer ≤ first) (after : last ≤ behind) :
    diagnostic.Inside outer behind :=
  ⟨inside.between.mono before after, inside.isError, inside.inner⟩

theorem inside_ofMessage {first last : Cursor} {message : Message} {arguments : List String} {span : Span}
    (between : span.Between first last)
    (inner : message.render arguments ≠ Message.expectedDeclaration.render []) :
    (ofMessage message arguments span).Inside first last := ⟨between, rfl, inner⟩

theorem inside_expectedToken {first last : Cursor} {offset : Nat} (token : String)
    (passes : first.Passes offset last) : (expectedToken token offset).Inside first last :=
  inside_ofMessage (Span.between_point passes) (Message.render_quote_ne token)

end Diagnostic

namespace Span

/-- The spans reach from one cursor to another, and only trivia was read outside of them. -/
structure Frame (cursor first last next : Cursor) (spans : List Span) : Prop where
  before : cursor.Skips first
  inside : first ≤ last
  after : last.Skips next
  starts : ∃ span ∈ spans, span.start = first.offset
  stops : ∃ span ∈ spans, span.stop = last.offset
  within : ∀ span ∈ spans, (first.spanTo last).contains span = true

def Framed (cursor : Cursor) (spans : List Span) (next : Cursor) : Prop :=
  (spans = [] ∧ cursor.Skips next) ∨ ∃ first last, Frame cursor first last next spans

theorem frame_singleton {cursor first last next : Cursor} (before : cursor.Skips first)
    (inside : first ≤ last) (after : last.Skips next) : Frame cursor first last next [first.spanTo last] :=
  ⟨before, inside, after, ⟨_, List.mem_singleton_self _, rfl⟩, ⟨_, List.mem_singleton_self _, rfl⟩,
    by simp [contains_refl]⟩

theorem Frame.cover {cursor first last next : Cursor} {spans : List Span} {fallback : Span}
    (frame : Frame cursor first last next spans) : coverAll fallback spans = first.spanTo last :=
  coverAll_eq frame.starts frame.stops frame.within

/-- Between two frames anything may have been read, as long as its spans lie there. -/
theorem Frame.bridge {cursor first last middle resumed start stop next : Cursor} {spans inner more : List Span}
    (frame : Frame cursor first last middle spans) (between : ∀ span ∈ inner, span.Between middle resumed)
    (onward : middle ≤ resumed) (follower : Frame resumed start stop next more) :
    Frame cursor first stop next (spans ++ (inner ++ more)) := by
  have left := Cursor.offset_le frame.inside
  have gap := Cursor.offset_le (frame.after.le.trans onward)
  have lead := Cursor.offset_le follower.before.le
  have right := Cursor.offset_le follower.inside
  have joined := frame.after.le.trans (onward.trans follower.before.le)
  refine ⟨frame.before, frame.inside.trans (joined.trans follower.inside), follower.after, ?_, ?_, ?_⟩
  · obtain ⟨span, member, atStart⟩ := frame.starts
    exact ⟨span, by simp [member], atStart⟩
  · obtain ⟨span, member, atStop⟩ := follower.stops
    exact ⟨span, by simp [member], atStop⟩
  · intro span member
    simp only [contains_iff, Cursor.spanTo]
    rcases List.mem_append.mp member with member | member
    · have bounds := contains_iff.mp (frame.within span member)
      simp only [Cursor.spanTo] at bounds
      omega
    rcases List.mem_append.mp member with member | member
    · have bounds := (between span member).bounds
      have trivia := Cursor.offset_le frame.after.le
      omega
    · have bounds := contains_iff.mp (follower.within span member)
      simp only [Cursor.spanTo] at bounds
      omega

theorem Framed.skips {cursor next : Cursor} (framed : Framed cursor [] next) : cursor.Skips next := by
  rcases framed with ⟨_, trivia⟩ | ⟨first, last, frame⟩
  · exact trivia
  · obtain ⟨span, member, _⟩ := frame.starts
    cases member

theorem Framed.lead {cursor start next : Cursor} {spans : List Span} (framed : Framed start spans next)
    (skips : cursor.Skips start) : Framed cursor spans next := by
  rcases framed with ⟨none, trivia⟩ | ⟨first, last, frame⟩
  · exact .inl ⟨none, skips.trans trivia⟩
  · exact .inr ⟨first, last, { frame with before := skips.trans frame.before }⟩

theorem Framed.skip {cursor next later : Cursor} {spans : List Span} (framed : Framed cursor spans next)
    (skips : next.Skips later) : Framed cursor spans later := by
  rcases framed with ⟨none, trivia⟩ | ⟨first, last, frame⟩
  · exact .inl ⟨none, trivia.trans skips⟩
  · exact .inr ⟨first, last, { frame with after := frame.after.trans skips }⟩

theorem Framed.append {cursor middle next : Cursor} {spans more : List Span}
    (framed : Framed cursor spans middle) (also : Framed middle more next) :
    Framed cursor (spans ++ more) next := by
  rcases framed with ⟨rfl, trivia⟩ | ⟨first, last, frame⟩
  · rcases also with ⟨rfl, rest⟩ | ⟨first, last, frame⟩
    · exact .inl ⟨rfl, trivia.trans rest⟩
    · exact .inr ⟨first, last, { frame with before := trivia.trans frame.before }⟩
  · rcases also with ⟨rfl, rest⟩ | ⟨start, stop, follower⟩
    · rw [List.append_nil]
      exact .inr ⟨first, last, { frame with after := frame.after.trans rest }⟩
    · have nothing : ∀ span ∈ ([] : List Span), span.Between middle middle := by simp
      exact .inr ⟨first, stop, frame.bridge nothing (le_refl middle) follower⟩

end Span

namespace Parsed

structure Lawful (cursor : Cursor) (parsed : Parsed) : Prop where
  node : parsed.node.Lawful cursor parsed.next
  frame : ∃ first last, cursor.Skips first ∧ first ≤ last ∧ last.Skips parsed.next ∧
    parsed.node.span = first.spanTo last
  errors : ∀ diagnostic ∈ parsed.errors, diagnostic.Inside cursor parsed.next

structure Found (cursor : Cursor) (parsed : Parsed) : Prop where
  node : parsed.node.Lawful cursor parsed.next
  frame : ∃ last, cursor ≤ last ∧ cursor.offset < last.offset ∧ last.Skips parsed.next ∧
    parsed.node.span = cursor.spanTo last
  errors : ∀ diagnostic ∈ parsed.errors, diagnostic.Inside cursor parsed.next

theorem Found.lawful {cursor : Cursor} {parsed : Parsed} (found : parsed.Found cursor) :
    parsed.Lawful cursor := by
  obtain ⟨last, before, _, skips, span⟩ := found.frame
  exact ⟨found.node, ⟨cursor, last, .refl cursor, before, skips, span⟩, found.errors⟩

theorem Found.start {cursor : Cursor} {parsed : Parsed} (found : parsed.Found cursor) :
    parsed.node.span.start = cursor.offset := by
  obtain ⟨last, _, _, _, span⟩ := found.frame
  rw [span]
  rfl

theorem Found.advances {cursor : Cursor} {parsed : Parsed} (found : parsed.Found cursor) :
    cursor.offset < parsed.next.offset := by
  obtain ⟨last, _, moved, skips, _⟩ := found.frame
  exact Nat.lt_of_lt_of_le moved (Cursor.offset_le skips.le)

theorem found_covering {cursor last : Cursor} {parsed : Parsed}
    (laid : Node.Laid cursor parsed.node.children parsed.next) (before : cursor ≤ last)
    (advances : cursor.offset < last.offset) (skips : last.Skips parsed.next)
    (span : parsed.node.span = cursor.spanTo last)
    (inside : ∀ child ∈ parsed.node.children, child.span.stop ≤ last.offset)
    (plain : parsed.node.separators = [])
    (errors : ∀ diagnostic ∈ parsed.errors, diagnostic.Inside cursor parsed.next) : parsed.Found cursor where
  node := laid.covered before skips.le span inside plain
  frame := ⟨last, before, advances, skips, span⟩
  errors := errors

theorem lawful_covering {cursor last : Cursor} {parsed : Parsed}
    (laid : Node.Laid cursor parsed.node.children parsed.next) (before : cursor ≤ last)
    (skips : last.Skips parsed.next) (span : parsed.node.span = cursor.spanTo last)
    (inside : ∀ child ∈ parsed.node.children, child.span.stop ≤ last.offset)
    (plain : parsed.node.separators = [])
    (errors : ∀ diagnostic ∈ parsed.errors, diagnostic.Inside cursor parsed.next) : parsed.Lawful cursor where
  node := laid.covered before skips.le span inside plain
  frame := ⟨cursor, last, .refl cursor, before, skips, span⟩
  errors := errors

/-- A node whose span is the cover of its children and separators. If it has none, it stands at a
place with only trivia around it. -/
theorem lawful_cover {cursor start : Cursor} {parsed : Parsed} {spans : List Span}
    (laid : Node.Laid cursor parsed.node.children parsed.next)
    (span : parsed.node.span = Span.coverAll (.point start.offset) spans)
    (children : ∀ child ∈ parsed.node.children, child.span ∈ spans)
    (separators : ∀ separator ∈ parsed.node.separators, separator ∈ spans)
    (between : ∀ own ∈ spans, own.Between cursor parsed.next)
    (framed : Span.Framed cursor spans parsed.next)
    (empty : spans = [] → cursor.Skips start ∧ start.Skips parsed.next)
    (errors : ∀ diagnostic ∈ parsed.errors, diagnostic.Inside cursor parsed.next) : parsed.Lawful cursor where
  node := by
    have whole : parsed.node.span.Between cursor parsed.next := by
      rw [span]
      refine Span.coverAll_between ?_ between
      intro none
      obtain ⟨before, after⟩ := empty none
      exact Span.between_point ⟨start, before.le, after.le, rfl⟩
    apply laid.enclosed
    · intro own member
      rcases List.mem_cons.mp member with rfl | member
      · exact whole
      · exact between own (separators own member)
    · intro separator member
      rw [span]
      exact Span.coverAll_contains (separators separator member)
    · intro child member
      rw [span]
      exact Span.coverAll_contains (children child member)
  frame := by
    rcases framed with ⟨none, _⟩ | ⟨first, last, frame⟩
    · obtain ⟨before, after⟩ := empty none
      refine ⟨start, start, before, le_refl start, after, ?_⟩
      rw [span, none]
      rfl
    · exact ⟨first, last, frame.before, frame.inside, frame.after, span.trans frame.cover⟩
  errors := errors

theorem Lawful.framed {cursor : Cursor} {parsed : Parsed} (lawful : parsed.Lawful cursor) :
    ∃ first last, Span.Frame cursor first last parsed.next [parsed.node.span] := by
  obtain ⟨first, last, before, inside, after, span⟩ := lawful.frame
  rw [span]
  exact ⟨first, last, Span.frame_singleton before inside after⟩

end Parsed

/-- What the production finds starts here and is well placed. -/
def Production.Lawful (production : Production) : Prop :=
  ∀ ⦃cursor parsed⦄, production cursor = some parsed → parsed.Found cursor

theorem Production.Lawful.orElse {first second : Production} (lawful : first.Lawful)
    (also : second.Lawful) : (Production.orElse first second).Lawful := by
  intro cursor parsed found
  simp only [Production.orElse, Option.orElse_eq_orElse, Option.orElse_eq_or, Option.or_eq_some_iff] at found
  rcases found with found | ⟨_, found⟩
  · exact lawful found
  · exact also found

namespace Fragment

structure Lawful (cursor : Cursor) (fragment : Fragment) : Prop where
  laid : Node.Laid cursor fragment.nodes fragment.next
  errors : ∀ diagnostic ∈ fragment.errors, diagnostic.Inside cursor fragment.next

theorem lawful_empty {cursor next : Cursor} (before : cursor ≤ next) : (empty next).Lawful cursor :=
  ⟨before, by simp [empty]⟩

theorem lawful_missing (message : Message) (arguments : List String) (cursor : Cursor)
    (inner : message.render arguments ≠ Message.expectedDeclaration.render []) :
    (missing message arguments cursor).Lawful cursor := by
  refine ⟨le_refl cursor, ?_⟩
  intro diagnostic member
  obtain rfl := List.mem_singleton.mp member
  exact Diagnostic.inside_ofMessage (Span.between_here (le_refl cursor) (le_refl cursor)) inner

theorem Lawful.le {cursor : Cursor} {fragment : Fragment} (lawful : fragment.Lawful cursor) :
    cursor ≤ fragment.next := lawful.laid.le

theorem Lawful.mono_left {cursor outer : Cursor} {fragment : Fragment} (lawful : fragment.Lawful cursor)
    (before : outer ≤ cursor) : fragment.Lawful outer := by
  have start : Node.Laid outer [] cursor := before
  refine ⟨start.append lawful.laid, ?_⟩
  intro diagnostic member
  exact (lawful.errors diagnostic member).mono before (le_refl _)

theorem Lawful.andThen {cursor : Cursor} {first : Fragment} {step : Cursor → Fragment}
    (lawful : first.Lawful cursor) (also : (step first.next).Lawful first.next) :
    (first.andThen step).Lawful cursor := by
  refine ⟨lawful.laid.append also.laid, ?_⟩
  intro diagnostic member
  rcases List.mem_append.mp member with member | member
  · exact (lawful.errors diagnostic member).mono (le_refl cursor) also.le
  · exact (also.errors diagnostic member).mono lawful.le (le_refl _)

theorem Lawful.skipTrivia {cursor : Cursor} {fragment : Fragment} (lawful : fragment.Lawful cursor) :
    fragment.skipTrivia.Lawful cursor := by
  have onward := Cursor.le_skipTrivia fragment.next
  refine ⟨lawful.laid.mono_right onward, ?_⟩
  intro diagnostic member
  exact (lawful.errors diagnostic member).mono (le_refl cursor) onward

theorem lawful_ofParsed {cursor : Cursor} {parsed : Parsed} (lawful : parsed.Lawful cursor)
    (role : Node.Role) : (ofParsed parsed role).Lawful cursor :=
  ⟨Node.laid_singleton (lawful.node.tagged role), lawful.errors⟩

theorem lawful_required {production : Production} (lawful : production.Lawful) (role : Node.Role)
    (message : Message) (cursor : Cursor)
    (inner : message.render [] ≠ Message.expectedDeclaration.render []) :
    (required production role message cursor).Lawful cursor := by
  unfold required
  split
  next parsed found => exact lawful_ofParsed (lawful found).lawful role
  next => exact lawful_missing message [] cursor inner

def Framed (cursor : Cursor) (fragment : Fragment) : Prop :=
  Span.Framed cursor (fragment.nodes.map Node.span) fragment.next

theorem framed_empty {cursor next : Cursor} (skips : cursor.Skips next) : (empty next).Framed cursor :=
  .inl ⟨rfl, skips⟩

theorem Framed.skipTrivia {cursor : Cursor} {fragment : Fragment} (framed : fragment.Framed cursor) :
    fragment.skipTrivia.Framed cursor := Span.Framed.skip framed (Cursor.skips_skipTrivia _)

theorem Framed.andThen {cursor : Cursor} {first : Fragment} {step : Cursor → Fragment}
    (framed : first.Framed cursor) (also : (step first.next).Framed first.next) :
    (first.andThen step).Framed cursor := by
  unfold Framed
  simp only [Fragment.andThen, List.map_append]
  exact Span.Framed.append framed also

theorem Framed.bridge {cursor : Cursor} {first : Fragment} {inner step : Cursor → Fragment}
    (framed : first.Framed cursor) (lawful : (inner first.next).Lawful first.next)
    (also : (step (inner first.next).next).Framed (inner first.next).next)
    (some : first.nodes ≠ []) (more : (step (inner first.next).next).nodes ≠ []) :
    ((first.andThen inner).andThen step).Framed cursor := by
  rcases framed with ⟨none, _⟩ | ⟨start, last, frame⟩
  · exact absurd (List.map_eq_nil_iff.mp none) some
  rcases also with ⟨none, _⟩ | ⟨resumed, stop, follower⟩
  · exact absurd (List.map_eq_nil_iff.mp none) more
  have between : ∀ span ∈ (inner first.next).nodes.map Node.span,
      span.Between first.next (inner first.next).next := by
    intro span member
    obtain ⟨node, among, rfl⟩ := List.mem_map.mp member
    exact (lawful.laid.mem among).between
  refine .inr ⟨start, stop, ?_⟩
  simpa [Fragment.andThen] using frame.bridge between lawful.le follower

theorem framed_ofParsed {cursor : Cursor} {parsed : Parsed} (lawful : parsed.Lawful cursor)
    (role : Node.Role) : (ofParsed parsed role).Framed cursor := .inr lawful.framed

theorem framed_required {production : Production} (lawful : production.Lawful) (role : Node.Role)
    (message : Message) (cursor : Cursor) : (required production role message cursor).Framed cursor := by
  unfold required
  split
  next parsed found => exact framed_ofParsed (lawful found).lawful role
  next => exact .inl ⟨rfl, .refl cursor⟩

structure Sound (cursor : Cursor) (fragment : Fragment) : Prop where
  lawful : fragment.Lawful cursor
  framed : fragment.Framed cursor

theorem sound_empty (cursor : Cursor) : (empty cursor).Sound cursor :=
  ⟨lawful_empty (le_refl cursor), framed_empty (.refl cursor)⟩

theorem sound_missing (message : Message) (arguments : List String) (cursor : Cursor)
    (inner : message.render arguments ≠ Message.expectedDeclaration.render []) :
    (missing message arguments cursor).Sound cursor :=
  ⟨lawful_missing message arguments cursor inner, .inl ⟨rfl, .refl cursor⟩⟩

theorem sound_ofParsed {cursor : Cursor} {parsed : Parsed} (lawful : parsed.Lawful cursor) (role : Node.Role) :
    (ofParsed parsed role).Sound cursor := ⟨lawful_ofParsed lawful role, framed_ofParsed lawful role⟩

theorem sound_required {production : Production} (lawful : production.Lawful) (role : Node.Role)
    (message : Message) (cursor : Cursor)
    (inner : message.render [] ≠ Message.expectedDeclaration.render []) :
    (required production role message cursor).Sound cursor :=
  ⟨lawful_required lawful role message cursor inner, framed_required lawful role message cursor⟩

theorem sound_docComments {cursor next : Cursor} {doc : Node} (found : cursor.readDocComments? = some (doc, next)) :
    Sound cursor { nodes := [doc.tagged .doc], next } := by
  obtain ⟨text, last, rfl, before, _, skips⟩ := Cursor.readDocComments?_reads found
  have placed : Node.Lawful cursor next { kind := .docComments text, span := cursor.spanTo last } :=
    Node.lawful_leaf (Span.between_spanTo (le_refl cursor) before skips.le) rfl rfl
  refine ⟨⟨Node.laid_singleton (placed.tagged .doc), by simp⟩, .inr ⟨cursor, last, ?_⟩⟩
  exact Span.frame_singleton (.refl cursor) before skips

theorem Sound.andThen {cursor : Cursor} {first : Fragment} {step : Cursor → Fragment}
    (sound : first.Sound cursor) (also : (step first.next).Sound first.next) : (first.andThen step).Sound cursor :=
  ⟨sound.lawful.andThen also.lawful, sound.framed.andThen also.framed⟩

theorem Sound.skipTrivia {cursor : Cursor} {fragment : Fragment} (sound : fragment.Sound cursor) :
    fragment.skipTrivia.Sound cursor := ⟨sound.lawful.skipTrivia, sound.framed.skipTrivia⟩

theorem Sound.lead {cursor start : Cursor} {fragment : Fragment} (sound : fragment.Sound start)
    (skips : cursor.Skips start) : fragment.Sound cursor :=
  ⟨sound.lawful.mono_left skips.le, Span.Framed.lead sound.framed skips⟩

/-- The node made of a fragment is lawful. Without any part it stands where nothing was read. -/
theorem Lawful.finish {cursor start : Cursor} {fragment : Fragment} (lawful : fragment.Lawful cursor)
    (framed : fragment.Framed cursor) (kind : Node.Kind)
    (empty : fragment.nodes = [] → cursor.Skips start ∧ start.Skips fragment.next)
    (plain : (fragment.finish kind start.offset).node.separators = []) :
    (fragment.finish kind start.offset).Lawful cursor := by
  refine Parsed.lawful_cover lawful.laid rfl ?_ ?_ ?_ framed ?_ lawful.errors
  · intro child member
    exact List.mem_map_of_mem member
  · simp [plain]
  · intro own member
    obtain ⟨node, among, rfl⟩ := List.mem_map.mp member
    exact (lawful.laid.mem among).between
  · intro none
    exact empty (List.map_eq_nil_iff.mp none)

end Fragment

end SchemaDoc
