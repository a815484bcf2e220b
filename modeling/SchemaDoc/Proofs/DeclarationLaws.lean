import SchemaDoc.Parser.Document
import SchemaDoc.Proofs.LiteralLaws
import SchemaDoc.Proofs.SequenceLaws

/-! Each form of declaration is lawful, and its node reaches over all that was read of it. Only the
parentheses around the kind of an enum leave no node; the body behind them always does, so they too
lie inside of the declaration. -/

namespace SchemaDoc.Parser

theorem keyword?_found {word : String} {cursor : Cursor} {fragment : Fragment} (nonempty : word.toList ≠ [])
    (found : keyword? word cursor = some fragment) :
    ∃ parsed, parsed.Found cursor ∧ fragment = .ofParsed parsed .keyword := by
  obtain ⟨next, read, rfl⟩ := Option.map_eq_some_iff.mp found
  have reads := Cursor.readKeyword?_reads read
  exact ⟨_, found_leaf reads.le (reads.offset_lt nonempty) rfl, rfl⟩

theorem keyword?_sound {word : String} {cursor : Cursor} {fragment : Fragment} (nonempty : word.toList ≠ [])
    (found : keyword? word cursor = some fragment) : fragment.Sound cursor := by
  obtain ⟨parsed, placed, rfl⟩ := keyword?_found nonempty found
  exact Fragment.sound_ofParsed placed.lawful .keyword

theorem optionalKeyword_sound (word : String) (cursor : Cursor) (nonempty : word.toList ≠ []) :
    (optionalKeyword word cursor).Sound cursor := by
  unfold optionalKeyword
  cases found : keyword? word cursor with
  | none => exact Fragment.sound_empty cursor
  | some fragment => exact keyword?_sound nonempty found

theorem requiredKeyword_sound (word : String) (cursor : Cursor) (nonempty : word.toList ≠ []) :
    (requiredKeyword word cursor).Sound cursor := by
  unfold requiredKeyword
  cases found : keyword? word cursor with
  | none => exact Fragment.sound_missing _ _ cursor (Message.render_quote_ne word)
  | some fragment => exact keyword?_sound nonempty found

theorem requiredIdentifier_sound (cursor : Cursor) : (requiredIdentifier cursor).Sound cursor :=
  (Fragment.sound_required identifier_lawful _ _ _ (by decide)).lead cursor.skips_skipTrivia

theorem requiredPath_sound (cursor : Cursor) : (requiredPath cursor).Sound cursor :=
  (Fragment.sound_required identPath_lawful _ _ _ (by decide)).lead cursor.skips_skipTrivia

theorem terminator_sound (cursor : Cursor) : (terminator cursor).Sound cursor := by
  have skips := cursor.skips_skipTrivia
  unfold terminator
  dsimp only
  split
  next next read =>
    have reads := Cursor.read?_reads read
    have placed : (leaf (.keyword ";") cursor.skipTrivia next).Found cursor.skipTrivia :=
      found_leaf reads.le (reads.offset_lt (by simp)) rfl
    refine ⟨⟨Node.laid_singleton (placed.node.mono skips.le (le_refl next)), by simp⟩,
      .inr ⟨cursor.skipTrivia, next, ?_⟩⟩
    exact Span.frame_singleton skips reads.le (.refl next)
  next => exact (Fragment.sound_missing _ _ _ (Message.render_quote_ne ";")).lead skips

theorem requiredToken_lawful (token : String) (cursor : Cursor) : (requiredToken token cursor).Lawful cursor := by
  unfold requiredToken
  dsimp only
  split
  next next read => exact Fragment.lawful_empty (cursor.le_skipTrivia.trans (Cursor.read?_le read))
  next =>
    have missing := Fragment.lawful_missing _ _ cursor.skipTrivia (Message.render_quote_ne token)
    exact missing.mono_left cursor.le_skipTrivia

theorem enumKindWord_lawful (cursor : Cursor) : (enumKindWord cursor).Lawful cursor := by
  have onward := cursor.le_skipTrivia
  unfold enumKindWord
  dsimp only
  split
  next => exact (Fragment.lawful_missing _ _ _ (by decide)).mono_left onward
  next word next read =>
    obtain ⟨some, rfl, rfl⟩ := Cursor.readIdentifier?_eq_some read
    have reads := cursor.skipTrivia.reads_afterWord
    have leafFound : (leaf (.keyword (String.ofList cursor.skipTrivia.word)) cursor.skipTrivia
        cursor.skipTrivia.afterWord).Found cursor.skipTrivia := found_leaf reads.le (reads.offset_lt some) rfl
    have placed := Fragment.lawful_ofParsed leafFound.lawful .kind
    split
    · exact placed.mono_left onward
    · refine Fragment.Lawful.mono_left ⟨placed.laid, ?_⟩ onward
      intro diagnostic member
      obtain rfl := List.mem_singleton.mp member
      exact Diagnostic.inside_ofMessage (Span.between_spanTo (le_refl _) reads.le (le_refl _)) (by decide)

theorem enumKindClause_lawful (cursor : Cursor) : (enumKindClause cursor).Lawful cursor := by
  have onward := cursor.le_skipTrivia
  unfold enumKindClause
  dsimp only
  split
  next => exact (Fragment.lawful_missing _ _ _ (Message.render_quote_ne "(")).mono_left onward
  next opened read =>
    have inner := (enumKindWord_lawful opened).andThen (requiredToken_lawful ")" _)
    exact inner.mono_left (onward.trans (Cursor.read?_le read))

theorem structBody_sound (trailing : TrailingPolicy) (cursor : Cursor) :
    (body trailing structField cursor).Sound cursor :=
  (Fragment.sound_ofParsed (table_lawful fieldKey_lawful typeExpr_lawful _) .body).lead cursor.skips_skipTrivia

theorem enumBody_sound (trailing : TrailingPolicy) (cursor : Cursor) :
    (body trailing enumField cursor).Sound cursor :=
  (Fragment.sound_ofParsed (table_lawful identifier_lawful literal_lawful _) .body).lead cursor.skips_skipTrivia

/-- The kind of an enum between its keyword and its name: the parentheses lie inside. -/
theorem enumKind_sound {found : Fragment} {cursor : Cursor} {name : Cursor → Fragment} (trailing : TrailingPolicy)
    (sound : found.Sound cursor) (some : found.nodes ≠ []) (named : ∀ cursor, (name cursor).Sound cursor) :
    (((found.andThen enumKindClause).andThen name).andThen (body trailing enumField)).Sound cursor := by
  let rest := fun cursor => (name cursor).andThen (body trailing enumField)
  have clause := enumKindClause_lawful found.next
  have behind : (rest (enumKindClause found.next).next).Sound (enumKindClause found.next).next :=
    (named _).andThen (enumBody_sound trailing _)
  have more : (rest (enumKindClause found.next).next).nodes ≠ [] := by
    simp [rest, Fragment.andThen, body, Fragment.ofParsed]
  have joined : ((found.andThen enumKindClause).andThen rest).Sound cursor :=
    ⟨(sound.lawful.andThen clause).andThen behind.lawful, sound.framed.bridge clause behind.framed some more⟩
  simpa [rest, Fragment.andThen] using joined

theorem injectedDefinition_sound (trailing : TrailingPolicy) (cursor : Cursor) :
    (injectedDefinition trailing cursor).Sound cursor := by
  unfold injectedDefinition
  split
  next found read =>
    obtain ⟨parsed, placed, rfl⟩ := keyword?_found (by decide) read
    have parts := ((Fragment.sound_ofParsed placed.lawful .keyword).andThen (requiredPath_sound _)).andThen
      (structBody_sound trailing _)
    exact Fragment.sound_ofParsed (parts.lawful.finish parts.framed _ (by simp [Fragment.andThen, Fragment.ofParsed]) rfl) _
  next =>
    split
    next found read =>
      obtain ⟨parsed, placed, rfl⟩ := keyword?_found (by decide) read
      have parts := enumKind_sound trailing (Fragment.sound_ofParsed placed.lawful .keyword)
        (by simp [Fragment.ofParsed]) requiredPath_sound
      exact Fragment.sound_ofParsed (parts.lawful.finish parts.framed _ (by simp [Fragment.andThen, Fragment.ofParsed]) rfl) _
    next => exact Fragment.sound_missing _ _ cursor (by decide)

theorem describedObjects_sound (cursor : Cursor) : (describedObjects cursor).Sound cursor := by
  unfold describedObjects
  split
  · exact Fragment.sound_ofParsed (list_lawful resourceLocation_lawful cursor) .objects
  · exact Fragment.sound_empty cursor

def Visible (fragment : Fragment) : Prop := ∃ node ∈ fragment.nodes, node.span.start < node.span.stop

theorem Visible.andThen {first : Fragment} (visible : Visible first) (step : Cursor → Fragment) :
    Visible (first.andThen step) := by
  obtain ⟨node, member, some⟩ := visible
  exact ⟨node, List.mem_append_left _ member, some⟩

theorem Visible.skipTrivia {fragment : Fragment} (visible : Visible fragment) : Visible fragment.skipTrivia := visible

theorem visible_ofParsed {cursor : Cursor} {parsed : Parsed} (found : parsed.Found cursor) (role : Node.Role) :
    Visible (.ofParsed parsed role) := by
  obtain ⟨last, _, advances, _, span⟩ := found.frame
  refine ⟨_, List.mem_singleton_self _, ?_⟩
  simp only [Node.tagged, span]
  exact advances

/-- What is known of the parts of a declaration when its first word says that one starts here. -/
structure Draft.Sound (cursor : Cursor) (found : Draft) : Prop where
  parts : found.parts.Sound cursor
  visible : Visible found.parts
  plain : ∀ span role children, (⟨found.kind, span, role, children⟩ : Node).separators = []

theorem keyword?_of_word {word : String} {cursor : Cursor} (same : cursor.word = word.toList) :
    ∃ fragment, keyword? word cursor = some fragment := by
  obtain ⟨next, read⟩ := Cursor.readKeyword?_of_word same
  exact ⟨_, by rw [keyword?, read, Option.map_some]⟩

theorem structDeclaration_sound (trailing : TrailingPolicy) {cursor : Cursor}
    (same : cursor.word = "struct".toList) : (structDeclaration trailing cursor).Sound cursor := by
  obtain ⟨fragment, read⟩ := keyword?_of_word same
  obtain ⟨parsed, found, rfl⟩ := keyword?_found (by decide) read
  refine ⟨?_, ?_, fun _ _ _ => rfl⟩
  · exact ((optionalKeyword_sound _ cursor (by decide)).andThen (requiredIdentifier_sound _)).andThen
      (structBody_sound trailing _)
  · simp only [structDeclaration, optionalKeyword, read, Option.getD_some]
    exact ((visible_ofParsed found .keyword).andThen _).andThen _

theorem enumDeclaration_sound (trailing : TrailingPolicy) {cursor : Cursor}
    (same : cursor.word = "enum".toList) : (enumDeclaration trailing cursor).Sound cursor := by
  obtain ⟨fragment, read⟩ := keyword?_of_word same
  obtain ⟨parsed, found, rfl⟩ := keyword?_found (by decide) read
  have sound := enumKind_sound trailing (Fragment.sound_ofParsed found.lawful .keyword) (by simp [Fragment.ofParsed])
    requiredIdentifier_sound
  simp only [enumDeclaration, optionalKeyword, read, Option.getD_some]
  exact ⟨sound, (((visible_ofParsed found .keyword).andThen _).andThen _).andThen _, fun _ _ _ => rfl⟩

theorem moduleDeclaration_sound {cursor : Cursor} (same : cursor.word = "mod".toList) :
    (moduleDeclaration cursor).Sound cursor := by
  obtain ⟨fragment, read⟩ := keyword?_of_word same
  obtain ⟨parsed, found, rfl⟩ := keyword?_found (by decide) read
  refine ⟨?_, ?_, fun _ _ _ => rfl⟩
  · exact ((optionalKeyword_sound _ cursor (by decide)).andThen (requiredIdentifier_sound _)).andThen
      (terminator_sound _)
  · simp only [moduleDeclaration, optionalKeyword, read, Option.getD_some]
    exact ((visible_ofParsed found .keyword).andThen _).andThen _

theorem useClause_sound {cursor : Cursor} (same : cursor.word = "use".toList ∨ cursor.word = "export".toList) :
    (useClause cursor).Sound cursor := by
  unfold useClause
  split
  next exported read =>
    obtain ⟨parsed, found, rfl⟩ := keyword?_found (by decide) read
    have first := (Fragment.sound_ofParsed found.lawful .keyword).skipTrivia
    refine ⟨?_, ?_, fun _ _ _ => rfl⟩
    · exact ((first.andThen (requiredKeyword_sound _ _ (by decide))).andThen (requiredPath_sound _)).andThen
        (terminator_sound _)
    · exact (((visible_ofParsed found .keyword).skipTrivia.andThen _).andThen _).andThen _
  next none =>
    have isUse : cursor.word = "use".toList := by
      rcases same with same | same
      · exact same
      · obtain ⟨fragment, read⟩ := keyword?_of_word same
        rw [read] at none
        cases none
    obtain ⟨fragment, read⟩ := keyword?_of_word isUse
    obtain ⟨parsed, found, rfl⟩ := keyword?_found (by decide) read
    refine ⟨?_, ?_, fun _ _ _ => rfl⟩
    · exact ((requiredKeyword_sound _ cursor (by decide)).andThen (requiredPath_sound _)).andThen (terminator_sound _)
    · simp only [requiredKeyword, read, Option.getD_some]
      exact ((visible_ofParsed found .keyword).andThen _).andThen _

theorem injectClause_sound (trailing : TrailingPolicy) {cursor : Cursor}
    (same : cursor.word = "inject".toList) : (injectClause trailing cursor).Sound cursor := by
  obtain ⟨fragment, read⟩ := keyword?_of_word same
  obtain ⟨parsed, found, rfl⟩ := keyword?_found (by decide) read
  refine ⟨?_, ?_, fun _ _ _ => rfl⟩
  · exact (optionalKeyword_sound _ cursor (by decide)).skipTrivia.andThen (injectedDefinition_sound trailing _)
  · simp only [injectClause, optionalKeyword, read, Option.getD_some]
    exact (visible_ofParsed found .keyword).skipTrivia.andThen _

/-- A path is found wherever a word or a path separator stands. -/
theorem identPath_of_start {cursor : Cursor} (starts : cursor.word ≠ [] ∨ cursor.startsWith pathSeparator = true) :
    cursor.skipTrivia = cursor ∧ ∃ parsed, identPath cursor = some parsed := by
  cases read : cursor.read? pathSeparator with
  | some next =>
    have ahead := (Cursor.read?_reads read).rest
    refine ⟨Cursor.skipTrivia_eq_self ahead (by decide) (by decide), ?_⟩
    simp only [identPath, read]
    exact ⟨_, rfl⟩
  | none =>
    have some : cursor.word ≠ [] := by
      rcases starts with some | separated
      · exact some
      · simp [Cursor.read?, separated] at read
    obtain ⟨char, rest, ahead, starting⟩ := Cursor.word_ne_nil some
    obtain ⟨notBlank, notSlash⟩ := isIdentifierStart_visible starting
    refine ⟨Cursor.skipTrivia_eq_self ahead notBlank notSlash, ?_⟩
    simp [identPath, read, segments, identifier, Cursor.readIdentifier?, some]

theorem describesClause_sound {cursor : Cursor}
    (starts : cursor.word ≠ [] ∨ cursor.startsWith pathSeparator = true) : (describesClause cursor).Sound cursor := by
  obtain ⟨atOnce, parsed, read⟩ := identPath_of_start starts
  refine ⟨?_, ?_, fun _ _ _ => rfl⟩
  · exact ((((((requiredPath_sound cursor).skipTrivia.andThen (requiredKeyword_sound _ _ (by decide))).skipTrivia).andThen
      (Fragment.sound_required resourceLocation_lawful _ _ _ (by decide))).skipTrivia.andThen
      (describedObjects_sound _)).andThen (terminator_sound _))
  · have visible : Visible (requiredPath cursor) := by
      simp only [requiredPath, Fragment.required, atOnce, read]
      exact visible_ofParsed (identPath_lawful read) .path
    exact ((((visible.skipTrivia.andThen _).skipTrivia.andThen _).skipTrivia.andThen _).andThen _)

theorem draft_sound {trailing : TrailingPolicy} {cursor : Cursor} {found : Draft}
    (read : draft trailing cursor = some found) : found.Sound cursor := by
  unfold draft at read
  have spelled : ∀ {word : String}, String.ofList cursor.word = word → cursor.word = word.toList := by
    rintro word rfl
    simp
  split at read
  next word =>
    cases read
    exact structDeclaration_sound trailing (spelled word)
  next word =>
    cases read
    exact enumDeclaration_sound trailing (spelled word)
  next word =>
    cases read
    exact moduleDeclaration_sound (spelled word)
  next word =>
    cases read
    exact useClause_sound (.inl (spelled word))
  next word =>
    cases read
    exact useClause_sound (.inr (spelled word))
  next word =>
    cases read
    exact injectClause_sound trailing (spelled word)
  next =>
    split at read
    next separated =>
      cases read
      exact describesClause_sound (.inr separated)
    next => cases read
  next other =>
    cases read
    refine describesClause_sound (.inl ?_)
    intro none
    exact other (by simp [none])

/-- A declaration behind its doc comments is lawful and not empty. -/
theorem declaration_lawful {trailing : TrailingPolicy} {doc : Option Node} {cursor behind : Cursor} {parsed : Parsed}
    (read : declaration trailing doc behind = some parsed)
    (docs : Fragment.Sound cursor { nodes := doc.toList.map fun node => node.tagged .doc, next := behind }) :
    parsed.Lawful cursor ∧ parsed.node.span.start < parsed.node.span.stop := by
  obtain ⟨found, drafted, rfl⟩ := Option.map_eq_some_iff.mp read
  have sound := draft_sound drafted
  let parts : Fragment := { nodes := doc.toList.map fun node => node.tagged .doc, next := behind }
  have whole : (parts.andThen fun _ => found.parts).Sound cursor := docs.andThen sound.parts
  obtain ⟨node, member, some⟩ := sound.visible
  have among : node ∈ (parts.andThen fun _ => found.parts).nodes := List.mem_append_right _ member
  refine ⟨whole.lawful.finish whole.framed found.kind ?_ (sound.plain _ _ _), ?_⟩
  · intro none
    rw [none] at among
    cases among
  · have covered : (Span.coverAll (.point behind.offset)
        ((parts.andThen fun _ => found.parts).nodes.map Node.span)).contains node.span = true :=
      Span.coverAll_contains (List.mem_map_of_mem among)
    obtain ⟨lower, upper⟩ := Span.contains_iff.mp covered
    exact Nat.lt_of_le_of_lt lower (Nat.lt_of_lt_of_le some upper)

end SchemaDoc.Parser
