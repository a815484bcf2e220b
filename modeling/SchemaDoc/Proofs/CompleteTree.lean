import SchemaDoc.Proofs.CompleteParts
import SchemaDoc.Proofs.DocumentCoverage

/-! A document without errors is complete. Every problem inside of a declaration is an error, so a
declaration in such a document was read without any, and then none of its parts is missing. -/

namespace SchemaDoc.Parser

def Supplied (text : String) (role : Option Node.Role) (kind : String) (fragment : Fragment) : Prop :=
  ∃ node, fragment.nodes = [node] ∧ node.role = role ∧ node.kind.name = kind ∧ node.AllComplete text

def Keywords (text : String) (fragment : Fragment) : Prop :=
  ∀ node ∈ fragment.nodes, node.role = some .keyword ∧ node.AllComplete text

theorem required_supplied {text kind : String} {production : Production} {role : Node.Role} {message : Message}
    {cursor : Cursor} (completes : production.Completes text)
    (named : ∀ parsed, production cursor = some parsed → parsed.node.kind.name = kind)
    (behind : Cursor.ofText text ≤ cursor) (clean : (Fragment.required production role message cursor).errors = []) :
    Supplied text (some role) kind (Fragment.required production role message cursor) := by
  obtain ⟨parsed, found, fine, same⟩ := Fragment.required_of_clean clean
  rw [same]
  exact ⟨_, rfl, rfl, named parsed found, (completes behind found fine).tagged role⟩

theorem requiredIdentifier_supplied {text : String} {cursor : Cursor} (behind : Cursor.ofText text ≤ cursor)
    (clean : (requiredIdentifier cursor).errors = []) :
    Supplied text (some .identifier) "identifier" (requiredIdentifier cursor) :=
  required_supplied (identifier_completes text) (fun _ found => (identifier_reads found).2.1)
    (behind.trans cursor.le_skipTrivia) clean

theorem requiredPath_supplied {text : String} {cursor : Cursor} (behind : Cursor.ofText text ≤ cursor)
    (clean : (requiredPath cursor).errors = []) : Supplied text (some .path) "ident_path" (requiredPath cursor) := by
  refine required_supplied (identPath_completes text) ?_ (behind.trans cursor.le_skipTrivia) clean
  intro parsed found
  unfold identPath at found
  dsimp only at found
  split at found
  next =>
    cases found
    rfl
  next =>
    obtain ⟨_, _, rfl⟩ := Option.map_eq_some_iff.mp found
    rfl

theorem registry_supplied {text : String} {cursor : Cursor} (behind : Cursor.ofText text ≤ cursor)
    (clean : (Fragment.required resourceLocation .registry .expectedResourceLocation cursor).errors = []) :
    Supplied text (some .registry) "resource_location"
      (Fragment.required resourceLocation .registry .expectedResourceLocation cursor) := by
  refine required_supplied (resourceLocation_completes text) ?_ behind clean
  intro parsed found
  unfold resourceLocation at found
  dsimp only at found
  split at found
  next => cases found
  next =>
    cases found
    rfl

theorem body_supplied {text : String} {trailing : TrailingPolicy} {grammar : PairGrammar} {cursor : Cursor}
    (keys : grammar.key.Lawful) (values : grammar.value.Lawful) (completeKeys : grammar.key.Completes text)
    (completeValues : grammar.value.Completes text) (behind : Cursor.ofText text ≤ cursor)
    (clean : (body trailing grammar cursor).errors = []) :
    Supplied text (some .body) "table" (body trailing grammar cursor) := by
  have complete := table_completes keys values completeKeys completeValues (behind.trans cursor.le_skipTrivia) clean
  refine ⟨_, rfl, rfl, ?_, complete.tagged .body⟩
  simp only [table, sequence, Node.tagged]
  split
  · rfl
  · split <;> rfl

theorem terminator_completes {text : String} (cursor : Cursor) :
    ∀ node ∈ (terminator cursor).nodes, node.AllComplete text := by
  unfold terminator
  dsimp only
  split
  next =>
    intro node member
    obtain rfl := List.mem_singleton.mp member
    exact allComplete_leaf trivial
  next => simp [Fragment.missing]

theorem keyword?_keywords {text word : String} {cursor : Cursor} {fragment : Fragment}
    (found : keyword? word cursor = some fragment) : Keywords text fragment := by
  obtain ⟨next, _, rfl⟩ := Option.map_eq_some_iff.mp found
  intro node member
  obtain rfl := List.mem_singleton.mp member
  have whole : (leaf (.keyword word) cursor next).node.AllComplete text := allComplete_leaf trivial
  exact ⟨rfl, whole.tagged .keyword⟩

theorem optionalKeyword_keywords (text word : String) (cursor : Cursor) :
    Keywords text (optionalKeyword word cursor) := by
  unfold optionalKeyword
  cases found : keyword? word cursor with
  | none => simp [Keywords, Fragment.empty]
  | some fragment => exact keyword?_keywords found

theorem requiredKeyword_keywords (text word : String) (cursor : Cursor) :
    Keywords text (requiredKeyword word cursor) := by
  unfold requiredKeyword
  cases found : keyword? word cursor with
  | none => simp [Keywords, Fragment.missing]
  | some fragment => exact keyword?_keywords found

theorem Keywords.introduces {text : String} {fragment : Fragment} (keywords : Keywords text fragment) :
    ∀ node ∈ fragment.nodes, (node.role = some .keyword ∨ node.role = some .kind) ∧ node.AllComplete text :=
  fun node member => ⟨.inl (keywords node member).1, (keywords node member).2⟩

/-- The kind of an enum without a problem: one word that names a kind. -/
theorem enumKindClause_of_clean (text : String) {cursor : Cursor} (clean : (enumKindClause cursor).errors = []) :
    ∃ node word, (enumKindClause cursor).nodes = [node] ∧ node.role = some .kind ∧ node.kind = .keyword word ∧
      (EnumKind.ofName? word).isSome = true ∧ node.AllComplete text := by
  unfold enumKindClause at clean ⊢
  dsimp only at clean ⊢
  split at clean
  next => simp [Fragment.missing] at clean
  next opened read =>
    obtain ⟨wordClean, closingClean⟩ := List.append_eq_nil_iff.mp clean
    have closed : (requiredToken ")" (enumKindWord opened).next).nodes = [] := by
      unfold requiredToken
      dsimp only
      split <;> rfl
    simp only [Fragment.andThen, closed, List.append_nil]
    unfold enumKindWord at wordClean ⊢
    dsimp only at wordClean ⊢
    split at wordClean
    next => simp [Fragment.missing] at wordClean
    next word next _ =>
      have whole : (leaf (.keyword word) opened.skipTrivia next).node.AllComplete text := allComplete_leaf trivial
      split at wordClean
      next known =>
        simp only [known, if_true]
        exact ⟨_, word, rfl, rfl, rfl, known, whole.tagged .kind⟩
      next => simp at wordClean

/-- Doc comments, keywords and the kind of an enum are passed over when a part is looked for. -/
private theorem front_plays_no {docs front : List Node} (isDoc : ∀ doc ∈ docs, doc.role = some .doc)
    (introduces : ∀ node ∈ front, node.role = some .keyword ∨ node.role = some .kind) {part : Node.Role}
    (noDoc : part ≠ .doc) (noKeyword : part ≠ .keyword) (noKind : part ≠ .kind) :
    ∀ node ∈ docs ++ front, node.role ≠ some part := by
  intro node member same
  rcases List.mem_append.mp member with member | member
  · rw [isDoc node member] at same
    exact noDoc (Option.some.inj same).symm
  · rcases introduces node member with tag | tag
    · rw [tag] at same
      exact noKeyword (Option.some.inj same).symm
    · rw [tag] at same
      exact noKind (Option.some.inj same).symm

/-- The name and the body of a definition, behind what introduces it and doc comments. -/
theorem definition_completes {text kind : String} {front : Fragment} {name members : Cursor → Fragment}
    {role : Node.Role} (isName : role = .identifier ∨ role = .path)
    (introduces : ∀ node ∈ front.nodes, (node.role = some .keyword ∨ node.role = some .kind) ∧ node.AllComplete text)
    (named : Supplied text (some role) kind (name front.next))
    (bodied : Supplied text (some .body) "table" (members (name front.next).next)) :
    (∀ node ∈ ((front.andThen name).andThen members).nodes, node.AllComplete text) ∧
      ∀ own span docs, (∀ doc ∈ docs, doc.role = some .doc) →
        let node : Node := ⟨own, span, none, docs ++ ((front.andThen name).andThen members).nodes⟩
        node.Has role kind ∧ node.Has .body "table" := by
  obtain ⟨nameNode, nameNodes, nameRole, nameKind, nameComplete⟩ := named
  obtain ⟨bodyNode, bodyNodes, bodyRole, bodyKind, bodyComplete⟩ := bodied
  have nodes : ((front.andThen name).andThen members).nodes = front.nodes ++ [nameNode, bodyNode] := by
    simp [Fragment.andThen, nameNodes, bodyNodes]
  rw [nodes]
  constructor
  · intro node member
    simp only [List.mem_append, List.mem_cons, List.not_mem_nil, or_false] at member
    rcases member with member | rfl | rfl
    · exact (introduces node member).2
    · exact nameComplete
    · exact bodyComplete
  · intro own span docs isDoc
    have front : ∀ node ∈ front.nodes, node.role = some .keyword ∨ node.role = some .kind :=
      fun node member => (introduces node member).1
    obtain ⟨noDoc, noKeyword, noKind, noBody⟩ : role ≠ .doc ∧ role ≠ .keyword ∧ role ≠ .kind ∧ role ≠ .body := by
      rcases isName with rfl | rfl <;> decide
    rw [← List.append_assoc]
    refine ⟨⟨nameNode, ?_, nameKind⟩, ⟨bodyNode, ?_, bodyKind⟩⟩
    · rw [Node.child?_behind (front_plays_no isDoc front noDoc noKeyword noKind)]
      simp [nameRole]
    · rw [Node.child?_behind (front_plays_no isDoc front (by decide) (by decide) (by decide))]
      simp [nameRole, bodyRole, noBody]

theorem enumKind?_of_nodes {word : String} {fragment : Fragment} {front rest : List Node} {node : Node}
    (nodes : fragment.nodes = front ++ node :: rest) (keywords : ∀ other ∈ front, other.role = some .keyword)
    (role : node.role = some .kind) (named : node.kind = .keyword word)
    (known : (EnumKind.ofName? word).isSome = true) : (enumKind? fragment).isSome = true := by
  have found : fragment.nodes.find? (fun node => node.role == some .kind) = some node := by
    rw [nodes, List.find?_append, List.find?_eq_none.mpr]
    · simp [role]
    · intro other member
      simp [keywords other member]
  simp [enumKind?, found, named, known]

/-- A declaration that was read without a problem has its parts, whatever doc comments stand in front
of it. -/
structure Draft.Complete (text : String) (found : Draft) : Prop where
  own : ∀ span docs, (∀ doc ∈ docs, doc.role = some .doc) →
    Node.Complete text ⟨found.kind, span, none, docs ++ found.parts.nodes⟩
  parts : ∀ node ∈ found.parts.nodes, node.AllComplete text

theorem structBody_supplied {text : String} {trailing : TrailingPolicy} {cursor : Cursor}
    (behind : Cursor.ofText text ≤ cursor) (clean : (body trailing structField cursor).errors = []) :
    Supplied text (some .body) "table" (body trailing structField cursor) :=
  body_supplied fieldKey_lawful typeExpr_lawful (fieldKey_completes text) (typeExpr_completes text) behind clean

theorem enumBody_supplied {text : String} {trailing : TrailingPolicy} {cursor : Cursor}
    (behind : Cursor.ofText text ≤ cursor) (clean : (body trailing enumField cursor).errors = []) :
    Supplied text (some .body) "table" (body trailing enumField cursor) :=
  body_supplied identifier_lawful literal_lawful (identifier_completes text) (literal_completes text) behind clean

theorem structDeclaration_completes {text : String} (trailing : TrailingPolicy) {cursor : Cursor}
    (behind : Cursor.ofText text ≤ cursor) (clean : (structDeclaration trailing cursor).parts.errors = []) :
    (structDeclaration trailing cursor).Complete text := by
  simp only [structDeclaration, Fragment.andThen, List.append_eq_nil_iff] at clean
  obtain ⟨⟨_, nameClean⟩, bodyClean⟩ := clean
  have toName := behind.trans (optionalKeyword_sound "struct" cursor (by decide)).lawful.le
  have toBody := toName.trans (requiredIdentifier_sound _).lawful.le
  have keywords := optionalKeyword_keywords text "struct" cursor
  obtain ⟨parts, own⟩ := definition_completes (.inl rfl) keywords.introduces
    (requiredIdentifier_supplied toName nameClean) (structBody_supplied toBody bodyClean)
  exact ⟨fun span docs isDoc => own .struct span docs isDoc, parts⟩

/-- An enum and an injected enum differ only in how they are named. -/
theorem enumParts_completes {text kind : String} {trailing : TrailingPolicy} {first : Fragment}
    {name : Cursor → Fragment} {role : Node.Role} (isName : role = .identifier ∨ role = .path)
    (behind : Cursor.ofText text ≤ first.next) (keywords : Keywords text first)
    (sound : ∀ cursor, (name cursor).Sound cursor)
    (named : ∀ {cursor}, Cursor.ofText text ≤ cursor → (name cursor).errors = [] →
      Supplied text (some role) kind (name cursor))
    (clean : (((first.andThen enumKindClause).andThen name).andThen (body trailing enumField)).errors = []) :
    let parts := ((first.andThen enumKindClause).andThen name).andThen (body trailing enumField)
    (∀ node ∈ parts.nodes, node.AllComplete text) ∧ (enumKind? parts).isSome = true ∧
      ∀ own span docs, (∀ doc ∈ docs, doc.role = some .doc) →
        let node : Node := ⟨own, span, none, docs ++ parts.nodes⟩
        node.Has role kind ∧ node.Has .body "table" := by
  simp only [Fragment.andThen, List.append_eq_nil_iff] at clean
  obtain ⟨⟨⟨_, kindClean⟩, nameClean⟩, bodyClean⟩ := clean
  obtain ⟨kindNode, word, kindNodes, kindRole, kindKind, known, kindComplete⟩ := enumKindClause_of_clean text kindClean
  have toName := behind.trans (enumKindClause_lawful first.next).le
  have toBody := toName.trans (sound _).lawful.le
  have front : ∀ node ∈ (first.andThen enumKindClause).nodes,
      (node.role = some .keyword ∨ node.role = some .kind) ∧ node.AllComplete text := by
    intro node member
    simp only [Fragment.andThen, kindNodes, List.mem_append, List.mem_singleton] at member
    rcases member with member | rfl
    · exact keywords.introduces node member
    · exact ⟨.inr kindRole, kindComplete⟩
  obtain ⟨parts, own⟩ := definition_completes isName front (named toName nameClean)
    (enumBody_supplied toBody bodyClean)
  have nodes : (((first.andThen enumKindClause).andThen name).andThen (body trailing enumField)).nodes =
      first.nodes ++ kindNode :: ((name (enumKindClause first.next).next).nodes ++
        (body trailing enumField (name (enumKindClause first.next).next).next).nodes) := by
    simp [Fragment.andThen, kindNodes]
  exact ⟨parts, enumKind?_of_nodes nodes (fun node member => (keywords node member).1) kindRole kindKind known, own⟩

theorem enumDeclaration_completes {text : String} (trailing : TrailingPolicy) {cursor : Cursor}
    (behind : Cursor.ofText text ≤ cursor) (clean : (enumDeclaration trailing cursor).parts.errors = []) :
    (enumDeclaration trailing cursor).Complete text := by
  have onward := behind.trans (optionalKeyword_sound "enum" cursor (by decide)).lawful.le
  have keywords := optionalKeyword_keywords text "enum" cursor
  obtain ⟨parts, known, own⟩ := enumParts_completes (.inl rfl) onward keywords requiredIdentifier_sound
    requiredIdentifier_supplied clean
  exact ⟨fun span docs isDoc => ⟨known, own _ span docs isDoc⟩, parts⟩

/-- A clause of keywords, one part and what stands behind it. -/
theorem clause_completes {text kind : String} {front : Fragment} {step last : Cursor → Fragment} {role : Node.Role}
    (isPart : role = .identifier ∨ role = .path ∨ role = .definition) (keywords : Keywords text front)
    (supplied : Supplied text (some role) kind (step front.next))
    (complete : ∀ cursor, ∀ node ∈ (last cursor).nodes, node.AllComplete text) :
    (∀ node ∈ ((front.andThen step).andThen last).nodes, node.AllComplete text) ∧
      ∀ own span docs, (∀ doc ∈ docs, doc.role = some .doc) →
        Node.Has ⟨own, span, none, docs ++ ((front.andThen step).andThen last).nodes⟩ role kind := by
  obtain ⟨part, partNodes, partRole, partKind, partComplete⟩ := supplied
  have nodes : ((front.andThen step).andThen last).nodes =
      front.nodes ++ part :: (last (step front.next).next).nodes := by
    simp [Fragment.andThen, partNodes]
  rw [nodes]
  constructor
  · intro node member
    simp only [List.mem_append, List.mem_cons] at member
    rcases member with member | rfl | member
    · exact (keywords node member).2
    · exact partComplete
    · exact complete _ node member
  · intro own span docs isDoc
    have front : ∀ node ∈ front.nodes, node.role = some .keyword ∨ node.role = some .kind :=
      fun node member => .inl (keywords node member).1
    obtain ⟨noDoc, noKeyword, noKind⟩ : role ≠ .doc ∧ role ≠ .keyword ∧ role ≠ .kind := by
      rcases isPart with rfl | rfl | rfl <;> decide
    refine ⟨part, ?_, partKind⟩
    rw [← List.append_assoc, Node.child?_behind (front_plays_no isDoc front noDoc noKeyword noKind)]
    simp [partRole]

theorem moduleDeclaration_completes {text : String} {cursor : Cursor} (behind : Cursor.ofText text ≤ cursor)
    (clean : (moduleDeclaration cursor).parts.errors = []) : (moduleDeclaration cursor).Complete text := by
  simp only [moduleDeclaration, Fragment.andThen, List.append_eq_nil_iff] at clean
  have toName := behind.trans (optionalKeyword_sound "mod" cursor (by decide)).lawful.le
  obtain ⟨parts, own⟩ := clause_completes (.inl rfl) (optionalKeyword_keywords text "mod" cursor)
    (requiredIdentifier_supplied toName clean.1.2) terminator_completes
  exact ⟨fun span docs isDoc => own _ span docs isDoc, parts⟩

theorem useClause_completes {text : String} {cursor : Cursor} (behind : Cursor.ofText text ≤ cursor) :
    (useClause cursor).parts.errors = [] → (useClause cursor).Complete text := by
  unfold useClause
  split
  next exported read =>
    intro clean
    simp only [Fragment.andThen, Fragment.skipTrivia, List.append_eq_nil_iff] at clean
    have toUse := behind.trans (keyword?_sound (by decide) read).skipTrivia.lawful.le
    have toPath := toUse.trans (requiredKeyword_sound "use" _ (by decide)).lawful.le
    have keywords : Keywords text (exported.skipTrivia.andThen (requiredKeyword "use")) := by
      intro node member
      rcases List.mem_append.mp member with member | member
      · exact keyword?_keywords read node member
      · exact requiredKeyword_keywords text "use" _ node member
    obtain ⟨parts, own⟩ := clause_completes (.inr (.inl rfl)) keywords (requiredPath_supplied toPath clean.1.2)
      terminator_completes
    exact ⟨fun span docs isDoc => own _ span docs isDoc, parts⟩
  next =>
    intro clean
    simp only [Fragment.andThen, List.append_eq_nil_iff] at clean
    have toPath := behind.trans (requiredKeyword_sound "use" cursor (by decide)).lawful.le
    obtain ⟨parts, own⟩ := clause_completes (.inr (.inl rfl)) (requiredKeyword_keywords text "use" cursor)
      (requiredPath_supplied toPath clean.1.2) terminator_completes
    exact ⟨fun span docs isDoc => own _ span docs isDoc, parts⟩

theorem injectedDefinition_supplied {text : String} (trailing : TrailingPolicy) {cursor : Cursor}
    (behind : Cursor.ofText text ≤ cursor) : (injectedDefinition trailing cursor).errors = [] →
      Supplied text (some .definition) "inject_struct" (injectedDefinition trailing cursor) ∨
      Supplied text (some .definition) "inject_enum" (injectedDefinition trailing cursor) := by
  unfold injectedDefinition
  split
  next found read =>
    intro clean
    simp only [Fragment.ofParsed, Fragment.finish, Fragment.andThen, List.append_eq_nil_iff] at clean
    have toPath := behind.trans (keyword?_sound (by decide) read).lawful.le
    have toBody := toPath.trans (requiredPath_sound _).lawful.le
    obtain ⟨parts, own⟩ := definition_completes (.inr rfl) (keyword?_keywords read).introduces
      (requiredPath_supplied toPath clean.1.2) (structBody_supplied toBody clean.2)
    have whole : (Fragment.finish ((found.andThen requiredPath).andThen (body trailing structField)) .injectStruct
        cursor.offset).node.AllComplete text := Node.allComplete_iff.mpr ⟨own .injectStruct _ [] (by simp), parts⟩
    exact .inl ⟨_, rfl, rfl, rfl, whole.tagged .definition⟩
  next =>
    split
    next found read =>
      intro clean
      have toKind := behind.trans (keyword?_sound (by decide) read).lawful.le
      obtain ⟨parts, known, own⟩ := enumParts_completes (.inr rfl) toKind (keyword?_keywords read) requiredPath_sound
        requiredPath_supplied clean
      let inner := ((found.andThen enumKindClause).andThen requiredPath).andThen (body trailing enumField)
      have whole : (inner.finish (.injectEnum (enumKind? inner)) cursor.offset).node.AllComplete text :=
        Node.allComplete_iff.mpr ⟨⟨known, own (.injectEnum (enumKind? inner)) _ [] (by simp)⟩, parts⟩
      exact .inr ⟨_, rfl, rfl, rfl, whole.tagged .definition⟩
    next =>
      intro clean
      simp [Fragment.missing] at clean

theorem injectClause_completes {text : String} (trailing : TrailingPolicy) {cursor : Cursor}
    (behind : Cursor.ofText text ≤ cursor) (clean : (injectClause trailing cursor).parts.errors = []) :
    (injectClause trailing cursor).Complete text := by
  simp only [injectClause, Fragment.andThen, Fragment.skipTrivia, List.append_eq_nil_iff] at clean
  have onward := behind.trans (optionalKeyword_sound "inject" cursor (by decide)).skipTrivia.lawful.le
  have keywords : Keywords text (optionalKeyword "inject" cursor).skipTrivia :=
    optionalKeyword_keywords text "inject" cursor
  have nothing : ∀ cursor, ∀ node ∈ (Fragment.empty cursor).nodes, node.AllComplete text := by simp [Fragment.empty]
  rcases injectedDefinition_supplied trailing onward clean.2 with supplied | supplied
  · obtain ⟨parts, own⟩ := clause_completes (.inr (.inr rfl)) keywords supplied nothing
    simp only [Fragment.andThen, Fragment.empty, List.append_nil] at parts own
    exact ⟨fun span docs isDoc => .inl (own _ span docs isDoc), parts⟩
  · obtain ⟨parts, own⟩ := clause_completes (.inr (.inr rfl)) keywords supplied nothing
    simp only [Fragment.andThen, Fragment.empty, List.append_nil] at parts own
    exact ⟨fun span docs isDoc => .inr (own _ span docs isDoc), parts⟩

theorem describedObjects_completes {text : String} {cursor : Cursor} (behind : Cursor.ofText text ≤ cursor) :
    (describedObjects cursor).errors = [] → ∀ node ∈ (describedObjects cursor).nodes, node.AllComplete text := by
  unfold describedObjects
  split
  next =>
    intro clean node member
    obtain rfl := List.mem_singleton.mp member
    exact (list_completes resourceLocation_lawful (resourceLocation_completes text) behind clean).tagged .objects
  next => simp [Fragment.empty]

theorem describesClause_completes {text : String} {cursor : Cursor} (behind : Cursor.ofText text ≤ cursor)
    (clean : (describesClause cursor).parts.errors = []) : (describesClause cursor).Complete text := by
  have toWord := behind.trans (requiredPath_sound cursor).skipTrivia.lawful.le
  simp only [describesClause, Fragment.andThen, Fragment.skipTrivia, List.append_eq_nil_iff] at clean toWord
  obtain ⟨⟨⟨⟨pathClean, _⟩, registryClean⟩, objectsClean⟩, _⟩ := clean
  obtain ⟨path, pathNodes, pathRole, pathKind, pathComplete⟩ := requiredPath_supplied behind pathClean
  let word := requiredKeyword "describes" (requiredPath cursor).next.skipTrivia
  have keywords : Keywords text word := requiredKeyword_keywords text "describes" _
  have toRegistry := toWord.trans (requiredKeyword_sound "describes" _ (by decide)).skipTrivia.lawful.le
  let registryPart := Fragment.required resourceLocation .registry .expectedResourceLocation word.next.skipTrivia
  obtain ⟨registry, registryNodes, registryRole, registryKind, registryComplete⟩ :=
    registry_supplied toRegistry registryClean
  have registrySound : registryPart.Sound word.next.skipTrivia :=
    Fragment.sound_required resourceLocation_lawful _ _ _ (by decide)
  have toObjects := toRegistry.trans registrySound.skipTrivia.lawful.le
  have objects := describedObjects_completes toObjects objectsClean
  let objectsPart := describedObjects registryPart.next.skipTrivia
  have nodes : (describesClause cursor).parts.nodes =
      (path :: word.nodes) ++ registry :: (objectsPart.nodes ++ (terminator objectsPart.next).nodes) := by
    have found : registryPart.nodes = [registry] := registryNodes
    have whole : (describesClause cursor).parts.nodes = (requiredPath cursor).nodes ++ word.nodes ++
        registryPart.nodes ++ objectsPart.nodes ++ (terminator objectsPart.next).nodes := by
      simp only [describesClause, Fragment.andThen, Fragment.skipTrivia, word, registryPart, objectsPart]
    rw [whole, pathNodes, found]
    simp
  refine ⟨?_, ?_⟩
  · intro span docs isDoc
    rw [nodes]
    refine ⟨⟨path, ?_, pathKind⟩, ⟨registry, ?_, registryKind⟩⟩
    · have others : ∀ node ∈ docs, node.role ≠ some .path := by
        intro node member
        simp [isDoc node member]
      rw [Node.child?_behind others]
      simp [pathRole]
    · have others : ∀ node ∈ docs ++ (path :: word.nodes), node.role ≠ some .registry := by
        intro node member
        simp only [List.mem_append, List.mem_cons] at member
        rcases member with member | rfl | member
        · simp [isDoc node member]
        · simp [pathRole]
        · simp [(keywords node member).1]
      rw [← List.append_assoc, Node.child?_behind others]
      simp [registryRole]
  · intro node member
    rw [nodes] at member
    simp only [List.mem_append, List.mem_cons] at member
    rcases member with (rfl | member) | rfl | member | member
    · exact pathComplete
    · exact (keywords node member).2
    · exact registryComplete
    · exact objects node member
    · exact terminator_completes _ node member

theorem draft_completes {text : String} {trailing : TrailingPolicy} {cursor : Cursor} {found : Draft}
    (behind : Cursor.ofText text ≤ cursor) (read : draft trailing cursor = some found)
    (clean : found.parts.errors = []) : found.Complete text := by
  unfold draft at read
  split at read
  next =>
    cases read
    exact structDeclaration_completes trailing behind clean
  next =>
    cases read
    exact enumDeclaration_completes trailing behind clean
  next =>
    cases read
    exact moduleDeclaration_completes behind clean
  next =>
    cases read
    exact useClause_completes behind clean
  next =>
    cases read
    exact useClause_completes behind clean
  next =>
    cases read
    exact injectClause_completes trailing behind clean
  next =>
    split at read
    next =>
      cases read
      exact describesClause_completes behind clean
    next => cases read
  next =>
    cases read
    exact describesClause_completes behind clean

theorem declaration_completes {text : String} {trailing : TrailingPolicy} {doc : Option Node} {cursor : Cursor}
    {parsed : Parsed} (behind : Cursor.ofText text ≤ cursor) (read : declaration trailing doc cursor = some parsed)
    (docs : ∀ node ∈ doc, (node.tagged .doc).AllComplete text) (clean : parsed.errors = []) :
    parsed.node.AllComplete text := by
  obtain ⟨found, drafted, rfl⟩ := Option.map_eq_some_iff.mp read
  have complete := draft_completes behind drafted clean
  refine Node.allComplete_iff.mpr ⟨?_, ?_⟩
  · refine complete.own _ _ ?_
    intro node member
    obtain ⟨inner, _, rfl⟩ := List.mem_map.mp member
    rfl
  · intro child member
    rcases List.mem_append.mp member with member | member
    · obtain ⟨inner, among, rfl⟩ := List.mem_map.mp member
      exact docs inner (by simpa using among)
    · exact complete.parts child member

def Flawless (text : String) (fragment : Fragment) : Prop :=
  (∀ diagnostic ∈ fragment.errors, diagnostic.severity ≠ .error) → ∀ node ∈ fragment.nodes, node.AllComplete text

/-- All problems inside of a declaration are errors, so without errors there is none. -/
private theorem errors_eq_nil {first last : Cursor} {errors : List Diagnostic}
    (inside : ∀ diagnostic ∈ errors, diagnostic.Inside first last)
    (clean : ∀ diagnostic ∈ errors, diagnostic.severity ≠ .error) : errors = [] := by
  apply List.eq_nil_iff_forall_not_mem.mpr
  intro diagnostic member
  exact clean diagnostic member (inside diagnostic member).isError

theorem strayLine_nodes (cursor : Cursor) : (strayLine cursor).nodes = [] := by
  unfold strayLine
  split <;> rfl

theorem topLevel_flawless {text : String} (trailing : TrailingPolicy) {cursor : Cursor}
    (behind : Cursor.ofText text ≤ cursor) : Flawless text (topLevel trailing cursor) := by
  unfold topLevel
  cases found : cursor.readDocComments? with
  | none =>
    dsimp only
    split
    next parsed read =>
      intro clean node member
      obtain rfl := List.mem_singleton.mp member
      obtain ⟨lawful, _⟩ := declaration_lawful read (Fragment.sound_empty cursor)
      exact declaration_completes behind read (by simp) (errors_eq_nil lawful.errors clean)
    next =>
      intro _ node member
      simp [Fragment.andThen, looseDoc, Fragment.empty, strayLine_nodes] at member
  | some docs =>
    obtain ⟨doc, next⟩ := docs
    dsimp only
    split
    next parsed read =>
      intro clean node member
      obtain rfl := List.mem_singleton.mp member
      have sound := Fragment.sound_docComments found
      obtain ⟨lawful, _⟩ := declaration_lawful read sound
      refine declaration_completes (behind.trans sound.lawful.le) read ?_ (errors_eq_nil lawful.errors clean)
      intro node member
      obtain rfl := Option.mem_some_iff.mp member
      exact docComments_completes found
    next =>
      intro _ node member
      simp only [Fragment.andThen, looseDoc, strayLine_nodes, List.append_nil, List.mem_singleton] at member
      subst member
      exact docComments_completes found

theorem declarations_flawless {text : String} (trailing : TrailingPolicy) (fuel : Nat) {cursor : Cursor}
    (behind : Cursor.ofText text ≤ cursor) : Flawless text (declarations trailing fuel cursor) := by
  induction fuel generalizing cursor with
  | zero => simp [Flawless, declarations, Fragment.empty]
  | succ fuel ih =>
    unfold declarations
    dsimp only
    split
    next => simp [Flawless, Fragment.empty]
    next more =>
      have start := behind.trans cursor.le_skipTrivia
      obtain ⟨outline, _⟩ := topLevel_outline trailing (rfl : cursor.skipTrivia = _)
        (by simpa [Cursor.atEnd] using more)
      intro clean node member
      have first := fun diagnostic among => clean diagnostic (List.mem_append_left _ among)
      have later := fun diagnostic among => clean diagnostic (List.mem_append_right _ among)
      rcases List.mem_append.mp member with member | member
      · exact topLevel_flawless trailing start first node member
      · exact ih (start.trans outline.laid.le) later node member

end SchemaDoc.Parser

namespace SchemaDoc

/-- A text that is read without an error has a complete tree. -/
theorem parse_complete (text : String) (trailing : TrailingPolicy)
    (clean : ∀ diagnostic ∈ (parse text trailing).errors, diagnostic.severity ≠ .error) :
    ∀ node ∈ (parse text trailing).node.preorder, node.Complete text := by
  have children := Parser.declarations_flawless trailing (Cursor.ofText text).remaining (le_refl _) clean
  have root : (parse text trailing).node.AllComplete text := Node.allComplete_iff.mpr ⟨trivial, children⟩
  exact root

theorem parse_complete_noted_struct :
    let text := "/// A note.\nstruct S \x7b \"a\": [T::U]?, b: int \x7d\nuse x::y;"
    (∀ diagnostic ∈ (parse text .allowed).errors, diagnostic.severity ≠ .error) ∧
      ∀ node ∈ (parse text .allowed).node.preorder, node.Complete text := by
  intro text
  have clean : ∀ diagnostic ∈ (parse text .allowed).errors, diagnostic.severity ≠ .error := by decide +kernel
  exact ⟨clean, parse_complete text .allowed clean⟩

end SchemaDoc
