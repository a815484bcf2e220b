import SchemaDoc.Proofs.CompleteParts
import SchemaDoc.Proofs.DocumentOutline

/-! Where the leaves of a tree come from. Each token and each path of a tree is what its own production
found at a place of the text, and the problems found with it are reported, however deep it stands and
however much around it is missing. What is known of the productions is thereby known of every tree. -/

namespace SchemaDoc

def Parser.keywordToken (word : String) : Production := fun cursor =>
  if word = "" then none
  else (cursor.readKeyword? word <|> if word = ";" then cursor.read? word else none).map fun next =>
    leaf (.keyword word) cursor next

/-- The production that finds nodes of the kind: those of tokens and paths have one. -/
def Node.Kind.source? : Node.Kind → Option Production
  | .keyword word => some (Parser.keywordToken word)
  | .identifier _ => some Parser.identifier
  | .string _ => some Parser.string
  | .number _ => some Parser.number
  | .boolean _ => some Parser.boolean
  | .resourceLocation _ _ => some Parser.resourceLocation
  | .identPath _ => some Parser.identPath
  | .primitiveType _ => some Parser.primitiveType
  | _ => none

namespace Node

def Plays (node : Node) (role : Role) : Prop :=
  (role = .identifier → ∃ value, node.kind = .identifier value) ∧
    (role = .path → ∃ fromRoot, node.kind = .identPath fromRoot)

theorem plays_other {role : Role} (node : Node) (noIdentifier : role ≠ .identifier) (noPath : role ≠ .path) :
    node.Plays role := ⟨fun same => absurd same noIdentifier, fun same => absurd same noPath⟩

def IsFound (text : String) (errors : List Diagnostic) (production : Production) (node : Node) : Prop :=
  ∃ cursor parsed, Cursor.ofText text ≤ cursor ∧ production cursor = some parsed ∧ parsed.errors ⊆ errors ∧
    parsed.node.kind = node.kind ∧ parsed.node.span = node.span ∧ parsed.node.children = node.children

/-- The node comes from its production, if its kind has one, and fits its role. -/
structure Traced (text : String) (errors : List Diagnostic) (node : Node) : Prop where
  found : ∀ production ∈ node.kind.source?, node.IsFound text errors production
  plays : ∀ role ∈ node.role, node.Plays role

def AllTraced (text : String) (errors : List Diagnostic) (node : Node) : Prop :=
  ∀ inner ∈ node.preorder, inner.Traced text errors

variable {text : String} {errors more : List Diagnostic} {node : Node}

theorem Traced.mono (traced : node.Traced text errors) (subset : errors ⊆ more) : node.Traced text more where
  found production source := by
    obtain ⟨cursor, parsed, behind, found, reported, same⟩ := traced.found production source
    exact ⟨cursor, parsed, behind, found, List.Subset.trans reported subset, same⟩
  plays := traced.plays

theorem AllTraced.mono (all : node.AllTraced text errors) (subset : errors ⊆ more) : node.AllTraced text more :=
  fun inner member => (all inner member).mono subset

theorem allTraced_iff : node.AllTraced text errors ↔
    node.Traced text errors ∧ ∀ child ∈ node.children, child.AllTraced text errors := forall_mem_preorder

theorem AllTraced.tagged (all : node.AllTraced text errors) {role : Role} (plays : node.Plays role) :
    (node.tagged role).AllTraced text errors := by
  obtain ⟨own, children⟩ := allTraced_iff.mp all
  refine allTraced_iff.mpr ⟨⟨own.found, ?_⟩, children⟩
  intro other same
  cases Option.mem_some_iff.mp same
  exact plays

theorem AllTraced.endedBy {entry : Node} (all : entry.AllTraced text errors) (isEntry : entry.IsEntry)
    (separator : Span) : (entry.endedBy separator).AllTraced text errors := by
  obtain ⟨own, children⟩ := allTraced_iff.mp all
  obtain ⟨kind, span, role, nodes⟩ := entry
  cases kind with
  | pair | item =>
    refine allTraced_iff.mpr ⟨⟨by simp [Node.endedBy, Kind.source?], ?_⟩, children⟩
    intro role tag
    obtain ⟨identifier, path⟩ := own.plays role tag
    constructor
    · intro same
      obtain ⟨value, absurd⟩ := identifier same
      cases absurd
    · intro same
      obtain ⟨fromRoot, absurd⟩ := path same
      cases absurd
  | _ => exact isEntry.elim

/-- A node of parts, of a kind that no production of its own finds. -/
theorem allTraced_of_children {kind : Kind} {span : Span} {children : List Node} (plain : kind.source? = none)
    (traced : ∀ child ∈ children, child.AllTraced text errors) :
    AllTraced text errors ⟨kind, span, none, children⟩ :=
  allTraced_iff.mpr ⟨⟨by simp [plain], by simp⟩, traced⟩

end Node

def Parsed.Traced (text : String) (parsed : Parsed) : Prop := parsed.node.AllTraced text parsed.errors

def Production.Traced (text : String) (production : Production) : Prop :=
  ∀ ⦃cursor parsed⦄, Cursor.ofText text ≤ cursor → production cursor = some parsed → parsed.Traced text

theorem Production.Traced.orElse {text : String} {first second : Production} (traced : first.Traced text)
    (also : second.Traced text) : (Production.orElse first second).Traced text := by
  intro cursor parsed behind found
  simp only [Production.orElse, Option.orElse_eq_orElse, Option.orElse_eq_or, Option.or_eq_some_iff] at found
  rcases found with found | ⟨_, found⟩
  · exact traced behind found
  · exact also behind found

/-- A token without children and without a role is traced to where it was found. -/
theorem Production.traced_token {text : String} {production : Production}
    (token : ∀ ⦃cursor parsed⦄, production cursor = some parsed →
      parsed.node.kind.source? = some production ∧ parsed.node.role = none ∧ parsed.node.children = []) :
    production.Traced text := by
  intro cursor parsed behind found
  obtain ⟨source, plain, leaf⟩ := token found
  refine Node.allTraced_iff.mpr ⟨⟨?_, by simp [plain]⟩, by simp [leaf]⟩
  rintro other same
  cases source.symm.trans same
  exact ⟨cursor, parsed, behind, found, List.Subset.refl _, rfl, rfl, rfl⟩

namespace Fragment

def Traced (text : String) (fragment : Fragment) : Prop := ∀ node ∈ fragment.nodes, node.AllTraced text fragment.errors

theorem traced_empty (text : String) (cursor : Cursor) : (empty cursor).Traced text := by simp [Traced, empty]

theorem traced_missing (text : String) (message : Message) (arguments : List String) (cursor : Cursor) :
    (missing message arguments cursor).Traced text := by simp [Traced, missing]

theorem traced_ofParsed {text : String} {parsed : Parsed} (traced : parsed.Traced text) {role : Node.Role}
    (plays : parsed.node.Plays role) : (ofParsed parsed role).Traced text := by
  intro node member
  cases List.mem_singleton.mp member
  exact Node.AllTraced.tagged traced plays

theorem next_andThen (first : Fragment) (step : Cursor → Fragment) :
    (first.andThen step).next = (step first.next).next := rfl

theorem next_skipTrivia (fragment : Fragment) : fragment.skipTrivia.next = fragment.next.skipTrivia := rfl

theorem Traced.andThen {text : String} {first : Fragment} {step : Cursor → Fragment} (traced : first.Traced text)
    (also : (step first.next).Traced text) : (first.andThen step).Traced text := by
  intro node member
  rcases List.mem_append.mp member with member | member
  · exact (traced node member).mono (List.subset_append_left ..)
  · exact (also node member).mono (List.subset_append_right ..)

theorem Traced.skipTrivia {text : String} {fragment : Fragment} (traced : fragment.Traced text) :
    fragment.skipTrivia.Traced text := traced

theorem traced_required {text : String} {production : Production} {role : Node.Role} {message : Message}
    {cursor : Cursor} (traced : production.Traced text) (behind : Cursor.ofText text ≤ cursor)
    (plays : ∀ parsed, production cursor = some parsed → parsed.node.Plays role) :
    (required production role message cursor).Traced text := by
  rw [required]
  split
  · next parsed found => exact traced_ofParsed (traced behind found) (plays parsed found)
  · exact traced_missing text message [] cursor

/-- Most roles say nothing about who plays them. -/
theorem traced_required_other {text : String} {production : Production} {role : Node.Role} {message : Message}
    {cursor : Cursor} (traced : production.Traced text) (behind : Cursor.ofText text ≤ cursor)
    (noIdentifier : role ≠ .identifier) (noPath : role ≠ .path) :
    (required production role message cursor).Traced text :=
  traced_required traced behind fun parsed _ => parsed.node.plays_other noIdentifier noPath

/-- The node made of a fragment, of a kind that no production of its own finds. -/
theorem Traced.finish {text : String} {fragment : Fragment} (traced : fragment.Traced text) {kind : Node.Kind}
    (plain : kind.source? = none) (start : Nat) : (fragment.finish kind start).Traced text :=
  Node.allTraced_of_children plain traced

end Fragment

namespace Parser

theorem identifier_kind {cursor : Cursor} {parsed : Parsed} (found : identifier cursor = some parsed) :
    ∃ value, parsed.node.kind = .identifier value := by
  obtain ⟨⟨value, next⟩, -, rfl⟩ := Option.map_eq_some_iff.mp found
  exact ⟨value, rfl⟩

theorem identifier_traced (text : String) : identifier.Traced text := by
  refine Production.traced_token fun cursor parsed found => ?_
  obtain ⟨⟨value, next⟩, -, rfl⟩ := Option.map_eq_some_iff.mp found
  exact ⟨rfl, rfl, rfl⟩

theorem string_traced (text : String) : string.Traced text := by
  refine Production.traced_token fun cursor parsed found => ?_
  obtain ⟨opened, -, rfl⟩ := Option.map_eq_some_iff.mp found
  dsimp only
  split <;> exact ⟨rfl, rfl, rfl⟩

theorem number_traced (text : String) : number.Traced text := by
  refine Production.traced_token fun cursor parsed found => ?_
  unfold number at found
  dsimp only at found
  split at found
  · cases found
  · cases found
    exact ⟨rfl, rfl, rfl⟩

theorem boolean_traced (text : String) : boolean.Traced text := by
  refine Production.traced_token fun cursor parsed found => ?_
  unfold boolean at found
  split at found
  · cases found
    exact ⟨rfl, rfl, rfl⟩
  · obtain ⟨next, -, rfl⟩ := Option.map_eq_some_iff.mp found
    exact ⟨rfl, rfl, rfl⟩

theorem literal_traced (text : String) : literal.Traced text :=
  (string_traced text).orElse ((number_traced text).orElse (boolean_traced text))

theorem fieldKey_traced (text : String) : fieldKey.Traced text :=
  (identifier_traced text).orElse (string_traced text)

theorem resourceLocation_traced (text : String) : resourceLocation.Traced text := by
  refine Production.traced_token fun cursor parsed found => ?_
  unfold resourceLocation at found
  dsimp only at found
  split at found
  · cases found
  · cases found
    exact ⟨rfl, rfl, rfl⟩

theorem primitiveType_traced (text : String) : primitiveType.Traced text := by
  refine Production.traced_token fun cursor parsed found => ?_
  obtain ⟨primitive, -, rfl⟩ := Option.map_eq_some_iff.mp found
  exact ⟨rfl, rfl, rfl⟩

theorem keywordToken_traced (text word : String) : (keywordToken word).Traced text := by
  refine Production.traced_token fun cursor parsed found => ?_
  obtain ⟨next, -, rfl⟩ := Option.map_eq_some_iff.mp (Option.ite_none_left_eq_some.mp found).2
  exact ⟨rfl, rfl, rfl⟩

private theorem traced_segment {text : String} {cursor : Cursor} {segment : Parsed} {step : Cursor → Fragment}
    (behind : Cursor.ofText text ≤ cursor) (found : identifier cursor = some segment)
    (more : (step segment.next).Traced text) :
    (Fragment.andThen ⟨[segment.node], segment.errors, segment.next⟩ step).Traced text := by
  refine Fragment.Traced.andThen ?_ more
  intro node member
  cases List.mem_singleton.mp member
  exact identifier_traced text behind found

private theorem moreSegments_traced {text : String} (fuel : Nat) {cursor : Cursor}
    (behind : Cursor.ofText text ≤ cursor) : (moreSegments fuel cursor).Traced text := by
  induction fuel generalizing cursor with
  | zero => exact Fragment.traced_empty text cursor
  | succ fuel ih =>
    unfold moreSegments
    split
    · exact Fragment.traced_empty text cursor
    · next next read =>
      have onward := behind.trans (Cursor.read?_le read)
      split
      · exact Fragment.traced_missing text _ _ next
      · next segment found => exact traced_segment onward found (ih (onward.trans (identifier_lawful found).node.le))

theorem segments_traced {text : String} {cursor : Cursor} {fragment : Fragment}
    (behind : Cursor.ofText text ≤ cursor) (found : segments cursor = some fragment) : fragment.Traced text := by
  obtain ⟨segment, read, rfl⟩ := Option.map_eq_some_iff.mp found
  exact traced_segment behind read (moreSegments_traced _ (behind.trans (identifier_lawful read).node.le))

theorem identPath_kind {cursor : Cursor} {parsed : Parsed} (found : identPath cursor = some parsed) :
    ∃ fromRoot, parsed.node.kind = .identPath fromRoot := by
  unfold identPath at found
  dsimp only at found
  split at found
  · cases found
    exact ⟨true, rfl⟩
  · obtain ⟨fragment, -, rfl⟩ := Option.map_eq_some_iff.mp found
    exact ⟨false, rfl⟩

theorem identPath_traced (text : String) : identPath.Traced text := by
  intro cursor parsed behind found
  obtain ⟨fromRoot, kind⟩ := identPath_kind found
  have origin : ∀ production ∈ parsed.node.kind.source?, parsed.node.IsFound text parsed.errors production := by
    rw [kind]
    rintro production ⟨⟩
    exact ⟨cursor, parsed, behind, found, List.Subset.refl _, rfl, rfl, rfl⟩
  unfold identPath at found
  dsimp only at found
  split at found
  · next next read =>
    cases found
    refine Node.allTraced_iff.mpr ⟨⟨origin, by simp⟩, ?_⟩
    cases inner : segments next with
    | none => exact Fragment.traced_missing text .expectedIdentifier [] next
    | some fragment => exact segments_traced (behind.trans (Cursor.read?_le read)) inner
  · obtain ⟨fragment, inner, rfl⟩ := Option.map_eq_some_iff.mp found
    exact Node.allTraced_iff.mpr ⟨⟨origin, by simp⟩, segments_traced behind inner⟩

theorem listType_traced {text : String} {item : Production} {cursor opened : Cursor} (traced : item.Traced text)
    (behind : Cursor.ofText text ≤ opened) : (listType item cursor opened).Traced text := by
  have inner : (Fragment.required item .type .expectedType opened.skipTrivia).Traced text :=
    Fragment.traced_required_other traced (behind.trans opened.le_skipTrivia) (by decide) (by decide)
  unfold listType
  dsimp only
  split
  · exact Node.allTraced_of_children rfl inner
  · exact Node.allTraced_of_children rfl fun child member => (inner child member).mono (List.subset_append_left ..)

theorem wrap_traced {text : String} {kind : Node.Kind} {role : Node.Role} {inner : Parsed} (traced : inner.Traced text)
    (plays : inner.node.Plays role) (plain : kind.source? = none) : (wrap kind role inner).Traced text := by
  refine Node.allTraced_of_children plain ?_
  intro child member
  cases List.mem_singleton.mp member
  exact Node.AllTraced.tagged traced plays

theorem primaryType_traced {text : String} {item : Production} (traced : item.Traced text) :
    (primaryType item).Traced text := by
  intro cursor parsed behind found
  unfold primaryType at found
  split at found
  · next opened read =>
    cases found
    exact listType_traced traced (behind.trans (Cursor.read?_le read))
  · simp only [Option.orElse_eq_orElse, Option.orElse_eq_or, Option.or_eq_some_iff] at found
    rcases found with found | ⟨_, found | ⟨_, found⟩⟩
    · obtain ⟨inner, read, rfl⟩ := Option.map_eq_some_iff.mp found
      exact wrap_traced (literal_traced text behind read) (Node.plays_other _ (by decide) (by decide)) rfl
    · exact primitiveType_traced text behind found
    · obtain ⟨inner, read, rfl⟩ := Option.map_eq_some_iff.mp found
      exact wrap_traced (identPath_traced text behind read) ⟨by simp, fun _ => identPath_kind read⟩ rfl

theorem optionalTypes_traced {text : String} {errors : List Diagnostic} {node : Node}
    (traced : node.AllTraced text errors) (offset : Nat) (marks : List Char) :
    (optionalTypes node offset marks).AllTraced text errors := by
  induction marks generalizing node offset with
  | nil => exact traced
  | cons mark marks ih =>
    apply ih
    refine Node.allTraced_of_children rfl ?_
    simpa using traced.tagged (node.plays_other (by decide) (by decide))

theorem typeExpr_traced (text : String) : typeExpr.Traced text := by
  have within : ∀ depth, (typeWithin depth).Traced text := by
    intro depth
    induction depth with
    | zero =>
      intro cursor parsed _ found
      cases found
    | succ depth ih =>
      intro cursor parsed behind found
      obtain ⟨primary, read, rfl⟩ := Option.map_eq_some_iff.mp found
      exact optionalTypes_traced (primaryType_traced ih behind read) _ _
  intro cursor parsed behind found
  exact within cursor.remaining behind found

theorem docComments_traced {text : String} {errors : List Diagnostic} {cursor next : Cursor} {doc : Node}
    (found : cursor.readDocComments? = some (doc, next)) : (doc.tagged .doc).AllTraced text errors := by
  obtain ⟨content, last, rfl, _⟩ := Cursor.readDocComments?_reads found
  exact (Node.allTraced_of_children rfl (by simp)).tagged (Node.plays_other _ (by decide) (by decide))

theorem PairGrammar.doc_traced (text : String) (grammar : PairGrammar) (cursor : Cursor) :
    (grammar.doc cursor).Traced text := by
  rw [PairGrammar.doc]
  split
  · split
    · next doc next found =>
      intro node member
      cases List.mem_singleton.mp member
      exact docComments_traced found
    · exact Fragment.traced_empty text cursor
  · exact Fragment.traced_empty text cursor

theorem PairGrammar.pair_traced {text : String} {grammar : PairGrammar} (keys : grammar.key.Lawful)
    (tracedKeys : grammar.key.Traced text) (tracedValues : grammar.value.Traced text) {cursor : Cursor}
    (behind : Cursor.ofText text ≤ cursor) : (grammar.pair cursor).Traced text := by
  have start := behind.trans (grammar.doc_sound cursor).lawful.le
  have key := (grammar.doc_traced text cursor).andThen
    (Fragment.traced_required_other tracedKeys start (by decide : Node.Role.key ≠ .identifier) (by decide)
      : (Fragment.required grammar.key .key .expectedKey (grammar.doc cursor).next).Traced text)
  unfold pair
  dsimp only
  generalize keyed : (grammar.doc cursor).andThen (Fragment.required grammar.key .key .expectedKey) = found at key
  have onward : Cursor.ofText text ≤ found.next := by
    rw [← keyed]
    exact start.trans (Fragment.lawful_required keys _ _ _ (by decide)).le
  have toValue : Cursor.ofText text ≤ ((found.skipTrivia.next.read? grammar.separator).getD
      found.skipTrivia.next).skipTrivia := by
    have settled := onward.trans found.next.le_skipTrivia
    cases separated : found.skipTrivia.next.read? grammar.separator with
    | none => exact settled.trans (Cursor.le_skipTrivia _)
    | some middle => exact settled.trans ((Cursor.read?_le separated).trans middle.le_skipTrivia)
  have value : (Fragment.required grammar.value .value .expectedValue _).Traced text :=
    Fragment.traced_required_other tracedValues toValue (by decide) (by decide)
  refine Node.allTraced_of_children rfl ?_
  intro child member
  rcases List.mem_append.mp member with member | member
  · refine (key child member).mono ?_
    exact List.Subset.trans (List.subset_append_left ..) (List.subset_append_left ..)
  · exact (value child member).mono (List.subset_append_right ..)

theorem item_traced {text : String} {value : Production} (traced : value.Traced text) {cursor : Cursor}
    (behind : Cursor.ofText text ≤ cursor) : (item value cursor).Traced text := by
  unfold item
  split
  · next parsed found =>
    refine Node.allTraced_of_children rfl ?_
    simpa using Node.AllTraced.tagged (traced behind found) (parsed.node.plays_other (by decide) (by decide))
  · exact Node.allTraced_of_children rfl (by simp)

theorem entries_traced {text : String} {delimiters : Delimiters} {grammar : EntryGrammar}
    (lawful : ∀ cursor, (grammar.entry cursor).Lawful cursor)
    (isEntry : ∀ cursor, (grammar.entry cursor).node.IsEntry)
    (traced : ∀ cursor, Cursor.ofText text ≤ cursor → (grammar.entry cursor).Traced text)
    (fuel : Nat) {cursor : Cursor} {stop : Nat} (behind : Cursor.ofText text ≤ cursor) :
    ∀ node ∈ (entries delimiters grammar fuel stop cursor).nodes,
      node.AllTraced text (entries delimiters grammar fuel stop cursor).errors := by
  induction fuel generalizing stop cursor with
  | zero => simp [entries]
  | succ fuel ih =>
    unfold entries
    dsimp only
    split
    · simp
    · have start := behind.trans cursor.le_skipTrivia
      have placed := lawful cursor.skipTrivia
      have entry := isEntry cursor.skipTrivia
      have whole : Node.AllTraced text _ _ := traced cursor.skipTrivia start
      generalize grammar.entry cursor.skipTrivia = parsed at placed entry whole
      have onward := start.trans (placed.node.le.trans parsed.next.le_skipTrivia)
      split
      · next separated read =>
        have next := onward.trans ((Cursor.read?_le read).trans separated.le_skipTrivia)
        have ended := whole.endedBy entry (parsed.next.skipTrivia.spanTo separated)
        split
        · simpa using ended.mono (List.subset_append_left ..)
        · refine List.forall_mem_cons.mpr ⟨ended.mono (List.subset_append_left ..), fun node member => ?_⟩
          exact (ih next node member).mono (List.subset_append_right ..)
      · split
        · simp
        · split
          · refine List.forall_mem_cons.mpr ⟨whole.mono ?_, fun node member => ?_⟩
            · exact List.Subset.trans (List.subset_append_left ..) (List.subset_append_left ..)
            · exact (ih onward node member).mono (List.subset_append_right ..)
          · simpa using whole

theorem sequence_traced {text : String} {kind : Node.Kind} {delimiters : Delimiters} {grammar : EntryGrammar}
    (plain : kind.source? = none) (lawful : ∀ cursor, (grammar.entry cursor).Lawful cursor)
    (isEntry : ∀ cursor, (grammar.entry cursor).node.IsEntry)
    (traced : ∀ cursor, Cursor.ofText text ≤ cursor → (grammar.entry cursor).Traced text)
    {cursor : Cursor} (behind : Cursor.ofText text ≤ cursor) :
    (sequence kind delimiters grammar cursor).Traced text := by
  unfold sequence
  split
  · exact Node.allTraced_of_children plain (by simp)
  · next opened read =>
    have inner : ∀ node ∈ (entries delimiters grammar opened.remaining opened.offset opened).nodes, _ :=
      entries_traced lawful isEntry traced opened.remaining (behind.trans (Cursor.read?_le read))
    dsimp only
    split
    · exact Node.allTraced_of_children plain inner
    · exact Node.allTraced_of_children plain fun node member => (inner node member).mono (List.subset_append_left ..)

theorem table_traced {text : String} {delimiters : Delimiters} {grammar : PairGrammar} (keys : grammar.key.Lawful)
    (values : grammar.value.Lawful) (tracedKeys : grammar.key.Traced text)
    (tracedValues : grammar.value.Traced text) {cursor : Cursor} (behind : Cursor.ofText text ≤ cursor) :
    (table delimiters grammar cursor).Traced text := by
  refine sequence_traced rfl (PairGrammar.pair_lawful keys values) ?_ ?_ behind
  · intro _
    exact trivial
  · intro _ onward
    exact PairGrammar.pair_traced keys tracedKeys tracedValues onward

theorem list_traced {text : String} {delimiters : Delimiters} {value : Production} (lawful : value.Lawful)
    (traced : value.Traced text) {cursor : Cursor} (behind : Cursor.ofText text ≤ cursor) :
    (list delimiters value cursor).Traced text := by
  refine sequence_traced rfl (item_lawful lawful) ?_ (fun _ onward => item_traced traced onward) behind
  intro other
  dsimp only [item]
  split <;> exact trivial

theorem traced_keyword {text word : String} {cursor next : Cursor} (behind : Cursor.ofText text ≤ cursor)
    (found : keywordToken word cursor = some (leaf (.keyword word) cursor next)) {role : Node.Role}
    (noIdentifier : role ≠ .identifier) (noPath : role ≠ .path) :
    (Fragment.ofParsed (leaf (.keyword word) cursor next) role).Traced text :=
  Fragment.traced_ofParsed (keywordToken_traced text word behind found) (Node.plays_other _ noIdentifier noPath)

theorem keyword?_traced {text : String} (word : String) (nonempty : word ≠ "") {cursor : Cursor} {fragment : Fragment}
    (behind : Cursor.ofText text ≤ cursor) (found : keyword? word cursor = some fragment) : fragment.Traced text := by
  obtain ⟨next, read, rfl⟩ := Option.map_eq_some_iff.mp found
  refine traced_keyword behind ?_ (by decide) (by decide)
  simp [keywordToken, nonempty, read]

theorem optionalKeyword_traced {text : String} (word : String) (nonempty : word ≠ "") {cursor : Cursor}
    (behind : Cursor.ofText text ≤ cursor) : (optionalKeyword word cursor).Traced text := by
  unfold optionalKeyword
  cases found : keyword? word cursor with
  | none => exact Fragment.traced_empty text cursor
  | some fragment => exact keyword?_traced word nonempty behind found

theorem requiredKeyword_traced {text : String} (word : String) (nonempty : word ≠ "") {cursor : Cursor}
    (behind : Cursor.ofText text ≤ cursor) : (requiredKeyword word cursor).Traced text := by
  unfold requiredKeyword
  cases found : keyword? word cursor with
  | none => exact Fragment.traced_missing text _ _ cursor
  | some fragment => exact keyword?_traced word nonempty behind found

theorem requiredIdentifier_traced {text : String} {cursor : Cursor} (behind : Cursor.ofText text ≤ cursor) :
    (requiredIdentifier cursor).Traced text :=
  Fragment.traced_required (identifier_traced text) (behind.trans cursor.le_skipTrivia)
    fun _ found => ⟨fun _ => identifier_kind found, by simp⟩

theorem requiredPath_traced {text : String} {cursor : Cursor} (behind : Cursor.ofText text ≤ cursor) :
    (requiredPath cursor).Traced text :=
  Fragment.traced_required (identPath_traced text) (behind.trans cursor.le_skipTrivia)
    fun _ found => ⟨by simp, fun _ => identPath_kind found⟩

theorem terminator_traced {text : String} {cursor : Cursor} (behind : Cursor.ofText text ≤ cursor) :
    (terminator cursor).Traced text := by
  unfold terminator
  dsimp only
  split
  · next next read =>
    intro node member
    cases List.mem_singleton.mp member
    have found : keywordToken ";" cursor.skipTrivia = some (leaf (.keyword ";") cursor.skipTrivia next) := by
      cases word : cursor.skipTrivia.readKeyword? ";" with
      | none => simp [keywordToken, word, read]
      | some other =>
        have same : cursor.skipTrivia.read? ";" = some other := (Option.ite_none_right_eq_some.mp word).2
        cases read.symm.trans same
        simp [keywordToken, word]
    exact keywordToken_traced text ";" (behind.trans cursor.le_skipTrivia) found
  · exact Fragment.traced_missing text _ _ _

theorem enumKindClause_traced {text : String} {cursor : Cursor} (behind : Cursor.ofText text ≤ cursor) :
    (enumKindClause cursor).Traced text := by
  have closing : ∀ cursor, (requiredToken ")" cursor).Traced text := by
    intro cursor
    unfold requiredToken
    dsimp only
    split
    · exact Fragment.traced_empty text _
    · exact Fragment.traced_missing text _ _ _
  have word : ∀ {cursor}, Cursor.ofText text ≤ cursor → (enumKindWord cursor).Traced text := by
    intro cursor onward
    unfold enumKindWord
    dsimp only
    split
    · exact Fragment.traced_missing text _ _ _
    · next word next read =>
      obtain ⟨nonempty, rfl, rfl⟩ := Cursor.readIdentifier?_eq_some read
      have keyword : cursor.skipTrivia.readKeyword? (String.ofList cursor.skipTrivia.word) =
          some cursor.skipTrivia.afterWord := by
        obtain ⟨rest, split⟩ := cursor.skipTrivia.word_prefix
        rw [Cursor.readKeyword?, if_pos String.toList_ofList.symm,
          Cursor.read?_of_rest (by rw [String.toList_ofList, split]), Cursor.afterWord, ← split]
        simp
      have found : (Fragment.ofParsed (leaf (.keyword (String.ofList cursor.skipTrivia.word)) cursor.skipTrivia
          cursor.skipTrivia.afterWord) .kind).Traced text := by
        refine traced_keyword (onward.trans cursor.le_skipTrivia) ?_ (by decide) (by decide)
        simp [keywordToken, keyword, nonempty]
      split
      · exact found
      · intro node member
        exact (found node member).mono (List.nil_subset _)
  unfold enumKindClause
  dsimp only
  split
  · exact Fragment.traced_missing text _ _ _
  · next opened read =>
    exact (word ((behind.trans cursor.le_skipTrivia).trans (Cursor.read?_le read))).andThen (closing _)

theorem body_traced {text : String} {trailing : TrailingPolicy} {grammar : PairGrammar} (keys : grammar.key.Lawful)
    (values : grammar.value.Lawful) (tracedKeys : grammar.key.Traced text)
    (tracedValues : grammar.value.Traced text) {cursor : Cursor} (behind : Cursor.ofText text ≤ cursor) :
    (body trailing grammar cursor).Traced text :=
  Fragment.traced_ofParsed
    (table_traced keys values tracedKeys tracedValues (behind.trans cursor.le_skipTrivia))
    (Node.plays_other _ (by decide) (by decide))

theorem structBody_traced {text : String} (trailing : TrailingPolicy) {cursor : Cursor}
    (behind : Cursor.ofText text ≤ cursor) : (body trailing structField cursor).Traced text :=
  body_traced fieldKey_lawful typeExpr_lawful (fieldKey_traced text) (typeExpr_traced text) behind

theorem enumBody_traced {text : String} (trailing : TrailingPolicy) {cursor : Cursor}
    (behind : Cursor.ofText text ≤ cursor) : (body trailing enumField cursor).Traced text :=
  body_traced identifier_lawful literal_lawful (identifier_traced text) (literal_traced text) behind

theorem injectedDefinition_traced {text : String} (trailing : TrailingPolicy) {cursor : Cursor}
    (behind : Cursor.ofText text ≤ cursor) : (injectedDefinition trailing cursor).Traced text := by
  unfold injectedDefinition
  split
  · next found read =>
    have named := behind.trans (keyword?_sound (by decide) read).lawful.le
    have onward := named.trans (requiredPath_sound _).lawful.le
    have parts := ((keyword?_traced "struct" (by decide) behind read).andThen (requiredPath_traced named)).andThen
      (structBody_traced trailing onward)
    exact Fragment.traced_ofParsed (parts.finish rfl _) (Node.plays_other _ (by decide) (by decide))
  · split
    · next found read =>
      have opened := behind.trans (keyword?_sound (by decide) read).lawful.le
      have named := opened.trans (enumKindClause_lawful _).le
      have onward := named.trans (requiredPath_sound _).lawful.le
      have parts := (((keyword?_traced "enum" (by decide) behind read).andThen (enumKindClause_traced opened)).andThen
        (requiredPath_traced named)).andThen (enumBody_traced trailing onward)
      exact Fragment.traced_ofParsed (parts.finish rfl _) (Node.plays_other _ (by decide) (by decide))
    · exact Fragment.traced_missing text _ _ cursor

theorem describedObjects_traced {text : String} {cursor : Cursor} (behind : Cursor.ofText text ≤ cursor) :
    (describedObjects cursor).Traced text := by
  unfold describedObjects
  split
  · exact Fragment.traced_ofParsed (list_traced resourceLocation_lawful (resourceLocation_traced text) behind)
      (Node.plays_other _ (by decide) (by decide))
  · exact Fragment.traced_empty text cursor

theorem useClause_traced {text : String} {cursor : Cursor} (behind : Cursor.ofText text ≤ cursor) :
    (useClause cursor).parts.Traced text ∧ (useClause cursor).kind.source? = none := by
  unfold useClause
  split
  · next exported read =>
    have onward := (behind.trans (keyword?_sound (by decide) read).lawful.le).trans (Cursor.le_skipTrivia _)
    have named := onward.trans (requiredKeyword_sound "use" _ (by decide)).lawful.le
    refine ⟨?_, rfl⟩
    exact (((keyword?_traced "export" (by decide) behind read).skipTrivia.andThen
      (requiredKeyword_traced "use" (by decide) onward)).andThen (requiredPath_traced named)).andThen
      (terminator_traced (named.trans (requiredPath_sound _).lawful.le))
  · have named := behind.trans (requiredKeyword_sound "use" cursor (by decide)).lawful.le
    refine ⟨?_, rfl⟩
    exact ((requiredKeyword_traced "use" (by decide) behind).andThen (requiredPath_traced named)).andThen
      (terminator_traced (named.trans (requiredPath_sound _).lawful.le))

theorem describesClause_traced {text : String} {cursor : Cursor} (behind : Cursor.ofText text ≤ cursor) :
    (describesClause cursor).parts.Traced text := by
  have first := (behind.trans (requiredPath_sound cursor).lawful.le).trans (Cursor.le_skipTrivia _)
  have second := (first.trans (requiredKeyword_sound "describes" _ (by decide)).lawful.le).trans (Cursor.le_skipTrivia _)
  have third := (second.trans (Fragment.lawful_required resourceLocation_lawful .registry .expectedResourceLocation _
    (by decide)).le).trans (Cursor.le_skipTrivia _)
  have last := third.trans (describedObjects_sound _).lawful.le
  unfold describesClause
  refine Fragment.Traced.andThen (Fragment.Traced.andThen (Fragment.Traced.skipTrivia (Fragment.Traced.andThen
    (Fragment.Traced.skipTrivia (Fragment.Traced.andThen ?_ ?_)) ?_)) ?_) ?_
  · exact (requiredPath_traced behind).skipTrivia
  · exact requiredKeyword_traced "describes" (by decide) first
  · exact Fragment.traced_required_other (resourceLocation_traced text) second (by decide) (by decide)
  · simp only [Fragment.next_andThen, Fragment.next_skipTrivia]
    exact describedObjects_traced third
  · simp only [Fragment.next_andThen, Fragment.next_skipTrivia]
    exact terminator_traced last

theorem draft_traced {text : String} {trailing : TrailingPolicy} {cursor : Cursor} {found : Draft}
    (behind : Cursor.ofText text ≤ cursor) (read : draft trailing cursor = some found) :
    found.parts.Traced text ∧ found.kind.source? = none := by
  have word : ∀ word, word.toList ≠ [] → Cursor.ofText text ≤ (optionalKeyword word cursor).next :=
    fun word some => behind.trans (optionalKeyword_sound word cursor some).lawful.le
  have named : ∀ {cursor}, Cursor.ofText text ≤ cursor → Cursor.ofText text ≤ (requiredIdentifier cursor).next :=
    fun onward => onward.trans (requiredIdentifier_sound _).lawful.le
  unfold draft at read
  split at read
  · cases read
    have onward := word "struct" (by decide)
    refine ⟨?_, rfl⟩
    exact ((optionalKeyword_traced "struct" (by decide) behind).andThen (requiredIdentifier_traced onward)).andThen
      (structBody_traced trailing (named onward))
  · cases read
    have start := word "enum" (by decide)
    have onward := start.trans (enumKindClause_lawful _).le
    refine ⟨?_, rfl⟩
    exact (((optionalKeyword_traced "enum" (by decide) behind).andThen (enumKindClause_traced start)).andThen
      (requiredIdentifier_traced onward)).andThen (enumBody_traced trailing (named onward))
  · cases read
    have onward := word "mod" (by decide)
    refine ⟨?_, rfl⟩
    exact ((optionalKeyword_traced "mod" (by decide) behind).andThen (requiredIdentifier_traced onward)).andThen
      (terminator_traced (named onward))
  · cases read
    exact useClause_traced behind
  · cases read
    exact useClause_traced behind
  · cases read
    refine ⟨?_, rfl⟩
    exact (optionalKeyword_traced "inject" (by decide) behind).skipTrivia.andThen
      (injectedDefinition_traced trailing ((word "inject" (by decide)).trans (Cursor.le_skipTrivia _)))
  · split at read
    · cases read
      exact ⟨describesClause_traced behind, rfl⟩
    · cases read
  · cases read
    exact ⟨describesClause_traced behind, rfl⟩

theorem declaration_traced {text : String} {trailing : TrailingPolicy} {doc : Option Node} {cursor : Cursor}
    {parsed : Parsed} (behind : Cursor.ofText text ≤ cursor)
    (docs : ∀ node ∈ doc, ∀ errors, (node.tagged .doc).AllTraced text errors)
    (read : declaration trailing doc cursor = some parsed) : parsed.Traced text := by
  obtain ⟨found, drafted, rfl⟩ := Option.map_eq_some_iff.mp read
  obtain ⟨parts, plain⟩ := draft_traced behind drafted
  refine Node.allTraced_of_children plain ?_
  intro child member
  rcases List.mem_append.mp member with member | member
  · obtain ⟨node, among, rfl⟩ := List.mem_map.mp member
    exact docs node (Option.mem_toList.mp among) _
  · exact parts child member

theorem topLevel_traced {text : String} (trailing : TrailingPolicy) {cursor : Cursor}
    (behind : Cursor.ofText text ≤ cursor) : (topLevel trailing cursor).Traced text := by
  have stray : ∀ cursor, (strayLine cursor).Traced text := by
    intro cursor
    unfold strayLine
    split
    · exact Fragment.traced_empty text cursor
    · simp [Fragment.Traced]
  have single : ∀ {parsed : Parsed}, parsed.Traced text →
      Fragment.Traced text ⟨[parsed.node], parsed.errors, parsed.next⟩ := by
    intro parsed traced node member
    cases List.mem_singleton.mp member
    exact traced
  unfold topLevel
  cases found : cursor.readDocComments? with
  | none =>
    dsimp only
    split
    · next parsed read => exact single (declaration_traced behind (by simp) read)
    · exact (Fragment.traced_empty text cursor).andThen (stray _)
  | some docs =>
    obtain ⟨doc, onward⟩ := docs
    have traced : ∀ errors, (doc.tagged .doc).AllTraced text errors := fun errors => docComments_traced found
    dsimp only
    split
    · next parsed read =>
      obtain ⟨content, last, _, reads, _, skips⟩ := Cursor.readDocComments?_reads found
      exact single (declaration_traced (behind.trans (reads.trans skips.le)) (by simpa using traced) read)
    · refine Fragment.Traced.andThen ?_ (stray _)
      intro node member
      cases List.mem_singleton.mp member
      exact traced _

theorem declarations_traced {text : String} (trailing : TrailingPolicy) (fuel : Nat) {cursor : Cursor}
    (behind : Cursor.ofText text ≤ cursor) : (declarations trailing fuel cursor).Traced text := by
  induction fuel generalizing cursor with
  | zero => exact Fragment.traced_empty text cursor
  | succ fuel ih =>
    unfold declarations
    dsimp only
    split
    · exact Fragment.traced_empty text _
    · next more =>
      have start := behind.trans cursor.le_skipTrivia
      obtain ⟨outline, _⟩ := topLevel_outline trailing (rfl : cursor.skipTrivia = _)
        (by simpa [Cursor.atEnd] using more)
      exact (topLevel_traced trailing start).andThen (ih (start.trans outline.laid.le))

end Parser

/-- Every token and path in the tree of a text is what its production found in the text. -/
theorem parse_traced (text : String) (trailing : TrailingPolicy) :
    (parse text trailing).node.AllTraced text (parse text trailing).errors :=
  Node.allTraced_of_children rfl (Parser.declarations_traced trailing _ (le_refl _))

theorem parseTable_traced (text : String) (trailing : TrailingPolicy) :
    (parseTable text trailing).node.AllTraced text (parseTable text trailing).errors :=
  Parser.table_traced Parser.string_lawful Parser.string_lawful (Parser.string_traced text) (Parser.string_traced text)
    (Cursor.le_skipTrivia _)

end SchemaDoc
