import SchemaDoc.Proofs.LiteralLaws
import SchemaDoc.Proofs.SequenceLaws

/-! What a node owes to its kind. A part that is missing leaves no trace in the tree, so the grammar
has to report it: whatever a production returns without a problem is complete, down to its leaves. -/

namespace SchemaDoc

namespace Span

private theorem dropBytes_append (before rest : List Char) :
    dropBytes (byteLength before) (before ++ rest) = some rest := by
  induction before with
  | nil => simp [dropBytes]
  | cons char before ih =>
    have positive := char.utf8Size_pos
    obtain ⟨count, enough⟩ : ∃ count, byteLength (char :: before) = count + 1 :=
      ⟨byteLength (char :: before) - 1, by rw [byteLength_cons]; omega⟩
    have fits : char.utf8Size ≤ count + 1 ∧ count + 1 - char.utf8Size = byteLength before := by
      rw [byteLength_cons] at enough
      omega
    rw [enough, List.cons_append, dropBytes, if_pos fits.1, fits.2, ih]

private theorem takeBytes_append (taken inside rest : List Char) :
    takeBytes taken (byteLength inside) (inside ++ rest) = some (inside.reverse ++ taken) := by
  induction inside generalizing taken with
  | nil => simp [takeBytes]
  | cons char inside ih =>
    have positive := char.utf8Size_pos
    obtain ⟨count, enough⟩ : ∃ count, byteLength (char :: inside) = count + 1 :=
      ⟨byteLength (char :: inside) - 1, by rw [byteLength_cons]; omega⟩
    have fits : char.utf8Size ≤ count + 1 ∧ count + 1 - char.utf8Size = byteLength inside := by
      rw [byteLength_cons] at enough
      omega
    rw [enough, List.cons_append, takeBytes, if_pos fits.1, fits.2, ih]
    simp

theorem slice_spanTo {text : String} {first last : Cursor} {taken : List Char} (behind : Cursor.ofText text ≤ first)
    (reads : first.Reads taken last) : (first.spanTo last).slice text = String.ofList taken := by
  obtain ⟨before, lead⟩ := behind
  have start : first.offset = byteLength before := by
    rw [lead.offset]
    exact Nat.zero_add _
  have stop : last.offset = byteLength before + byteLength taken := by rw [reads.offset, start]
  have whole : text.toList = before ++ (taken ++ last.rest) := by
    rw [← reads.rest]
    exact lead.rest
  have bounded : last.offset ≤ text.utf8ByteSize := by
    rw [← byteLength_toList, whole, byteLength_append, byteLength_append, stop]
    omega
  have ordered : first.offset ≤ last.offset := by omega
  have size : last.offset - first.offset = byteLength taken := by omega
  simp only [slice, Cursor.spanTo, Nat.min_eq_left bounded, Nat.min_eq_left ordered, size]
  rw [whole, start, dropBytes_append]
  simp only [takeBytes_append, List.append_nil, List.reverse_reverse]

end Span

namespace Node

/-- A node has a part when some child plays it, and then the first one counts. -/
def Has (node : Node) (role : Role) (kind : String) : Prop :=
  ∃ child, node.child? role = some child ∧ child.kind.name = kind

def IsEnded (entry : Node) : Prop :=
  match entry.kind with
  | .pair _ stop | .item stop => stop.isSome = true
  | _ => False

def IsEntry (node : Node) : Prop :=
  match node.kind with
  | .pair _ _ | .item _ => True
  | _ => False

/-- The node has all parts that its kind asks for. -/
def Complete (text : String) (node : Node) : Prop :=
  match node.kind with
  | .struct => node.Has .identifier "identifier" ∧ node.Has .body "table"
  | .enum kind => kind.isSome = true ∧ node.Has .identifier "identifier" ∧ node.Has .body "table"
  | .moduleDeclaration => node.Has .identifier "identifier"
  | .useClause _ => node.Has .path "ident_path"
  | .injectClause => node.Has .definition "inject_struct" ∨ node.Has .definition "inject_enum"
  | .injectStruct => node.Has .path "ident_path" ∧ node.Has .body "table"
  | .injectEnum kind => kind.isSome = true ∧ node.Has .path "ident_path" ∧ node.Has .body "table"
  | .describesClause => node.Has .path "ident_path" ∧ node.Has .registry "resource_location"
  | .identPath _ =>
    (∃ segment ∈ node.children, segment.kind.name = "identifier") ∧
      ¬ Parser.pathSeparator.toList <:+ (node.span.slice text).toList
  | .pair separator _ =>
    (node.child? .key).isSome = true ∧ separator.isSome = true ∧ (node.child? .value).isSome = true
  | .item _ => (node.child? .value).isSome = true
  | .table | .list => ∀ entry ∈ node.children.dropLast, entry.IsEnded
  | .listType | .optionalType => (node.child? .type).isSome = true
  | .string value =>
    ∃ written, Parser.Escaped written value.toList ∧
      (node.span.slice text).toList = '"' :: (written ++ ['"'])
  | _ => True

def AllComplete (text : String) (node : Node) : Prop := ∀ inner ∈ node.preorder, inner.Complete text

theorem allComplete_iff {text : String} {node : Node} :
    node.AllComplete text ↔ node.Complete text ∧ ∀ child ∈ node.children, child.AllComplete text := forall_mem_preorder

theorem AllComplete.tagged {text : String} {node : Node} (all : node.AllComplete text) (role : Role) :
    (node.tagged role).AllComplete text := by
  obtain ⟨own, children⟩ := allComplete_iff.mp all
  exact allComplete_iff.mpr ⟨own, children⟩

theorem AllComplete.endedBy {text : String} {entry : Node} (all : entry.AllComplete text) (isEntry : entry.IsEntry)
    (separator : Span) : (entry.endedBy separator).AllComplete text ∧ (entry.endedBy separator).IsEnded := by
  obtain ⟨own, children⟩ := allComplete_iff.mp all
  obtain ⟨kind, span, role, nodes⟩ := entry
  cases kind with
  | pair | item => exact ⟨allComplete_iff.mpr ⟨own, children⟩, rfl⟩
  | _ => exact isEntry.elim

theorem child?_behind {kind : Kind} {span : Span} {own : Option Role} {front nodes : List Node} {role : Role}
    (others : ∀ node ∈ front, node.role ≠ some role) :
    child? ⟨kind, span, own, front ++ nodes⟩ role = nodes.find? fun node => node.role == some role := by
  simp only [child?]
  rw [List.find?_append, List.find?_eq_none.mpr, Option.none_or]
  intro node member
  simpa using others node member

end Node

def Production.Completes (text : String) (production : Production) : Prop :=
  ∀ ⦃cursor parsed⦄, Cursor.ofText text ≤ cursor → production cursor = some parsed → parsed.errors = [] →
    parsed.node.AllComplete text

theorem Production.Completes.orElse {text : String} {first second : Production} (completes : first.Completes text)
    (also : second.Completes text) : (Production.orElse first second).Completes text := by
  intro cursor parsed behind found clean
  simp only [Production.orElse, Option.orElse_eq_orElse, Option.orElse_eq_or, Option.or_eq_some_iff] at found
  rcases found with found | ⟨_, found⟩
  · exact completes behind found clean
  · exact also behind found clean

theorem Fragment.required_of_clean {production : Production} {role : Node.Role} {message : Message} {cursor : Cursor}
    (clean : (required production role message cursor).errors = []) :
    ∃ parsed, production cursor = some parsed ∧ parsed.errors = [] ∧
      required production role message cursor = ofParsed parsed role := by
  unfold required at clean ⊢
  cases found : production cursor with
  | none => simp [found, missing] at clean
  | some parsed =>
    rw [found] at clean
    exact ⟨parsed, rfl, clean, rfl⟩

namespace Parser

theorem allComplete_leaf {text : String} {kind : Node.Kind} {cursor next : Cursor}
    (own : (leaf kind cursor next).node.Complete text) : (leaf kind cursor next).node.AllComplete text :=
  Node.allComplete_iff.mpr ⟨own, by simp [leaf]⟩

theorem identifier_completes (text : String) : identifier.Completes text := by
  intro cursor parsed _ found _
  obtain ⟨⟨value, next⟩, _, rfl⟩ := Option.map_eq_some_iff.mp found
  exact allComplete_leaf trivial

theorem string_completes (text : String) : string.Completes text := by
  intro cursor parsed behind found clean
  obtain ⟨opened, read, rfl⟩ := Option.map_eq_some_iff.mp found
  have quote := Cursor.read?_reads read
  obtain ⟨written, inside, ending, escaped, value, split, moved, closed⟩ := stringBody_spec [] opened.offset opened.rest
  dsimp only at clean ⊢
  generalize stringBody [] opened.offset opened.rest = body at value split moved closed clean
  cases terminated : body.isTerminated with
  | false => simp [terminated] at clean
  | true =>
    rw [terminated] at closed
    obtain rfl : ending = ['"'] := closed
    let next : Cursor := { cursor with offset := body.offset, rest := body.rest }
    have scanned : opened.Reads (written ++ ['"']) next := ⟨split, moved, quote.size.symm⟩
    apply allComplete_leaf
    refine ⟨written, ?_, ?_⟩
    · simpa [value] using escaped
    · have covered := Span.slice_spanTo behind (quote.trans scanned)
      exact (congrArg String.toList covered).trans String.toList_ofList

theorem number_completes (text : String) : number.Completes text := by
  intro cursor parsed _ found _
  unfold number at found
  dsimp only at found
  split at found
  next => cases found
  next =>
    cases found
    exact allComplete_leaf trivial

theorem boolean_completes (text : String) : boolean.Completes text := by
  intro cursor parsed _ found _
  unfold boolean at found
  split at found
  next =>
    cases found
    exact allComplete_leaf trivial
  next =>
    obtain ⟨next, _, rfl⟩ := Option.map_eq_some_iff.mp found
    exact allComplete_leaf trivial

theorem literal_completes (text : String) : literal.Completes text :=
  (string_completes text).orElse ((number_completes text).orElse (boolean_completes text))

theorem fieldKey_completes (text : String) : fieldKey.Completes text :=
  (identifier_completes text).orElse (string_completes text)

theorem resourceLocation_completes (text : String) : resourceLocation.Completes text := by
  intro cursor parsed _ found _
  unfold resourceLocation at found
  dsimp only at found
  split at found
  next => cases found
  next =>
    cases found
    exact allComplete_leaf trivial

def EndsInWord (taken : List Char) : Prop := ∃ chars char, taken = chars ++ [char] ∧ isIdentifierPart char = true

theorem EndsInWord.prepend {taken : List Char} (ends : EndsInWord taken) (before : List Char) :
    EndsInWord (before ++ taken) := by
  obtain ⟨chars, char, rfl, part⟩ := ends
  exact ⟨before ++ chars, char, by simp, part⟩

theorem EndsInWord.no_separator {taken : List Char} (ends : EndsInWord taken) :
    ¬ pathSeparator.toList <:+ taken := by
  obtain ⟨chars, char, rfl, part⟩ := ends
  rintro ⟨before, same⟩
  have split : (before ++ [':']) ++ [':'] = chars ++ [char] := by simpa [pathSeparator] using same
  obtain rfl := List.singleton_inj.mp (List.append_inj_right' split rfl)
  revert part
  decide

theorem identifier_reads {cursor : Cursor} {parsed : Parsed} (found : identifier cursor = some parsed) :
    parsed.errors = [] ∧ parsed.node.kind.name = "identifier" ∧
      ∃ taken, cursor.Reads taken parsed.next ∧ EndsInWord taken := by
  obtain ⟨⟨value, next⟩, read, rfl⟩ := Option.map_eq_some_iff.mp found
  obtain ⟨some, rfl, rfl⟩ := Cursor.readIdentifier?_eq_some read
  refine ⟨rfl, rfl, cursor.word, cursor.reads_afterWord, _, _, (List.dropLast_append_getLast some).symm, ?_⟩
  exact Cursor.mem_word (List.getLast_mem some)

private theorem moreSegments_completes (text : String) (fuel : Nat) {cursor : Cursor}
    (behind : Cursor.ofText text ≤ cursor) (clean : (moreSegments fuel cursor).errors = []) :
    (∀ node ∈ (moreSegments fuel cursor).nodes, node.AllComplete text) ∧
      ∃ taken, cursor.Reads taken (moreSegments fuel cursor).next ∧ (taken = [] ∨ EndsInWord taken) := by
  induction fuel generalizing cursor with
  | zero => exact ⟨by simp [moreSegments, Fragment.empty], [], .refl cursor, .inl rfl⟩
  | succ fuel ih =>
    unfold moreSegments at clean ⊢
    split at clean
    next =>
      exact ⟨by simp [Fragment.empty], [], .refl cursor, .inl rfl⟩
    next next read =>
      have separator := Cursor.read?_reads read
      split at clean
      next => simp [Fragment.missing] at clean
      next segment found =>
        obtain ⟨_, _, word, reads, ends⟩ := identifier_reads found
        have onward := behind.trans (separator.le.trans reads.le)
        obtain ⟨own, rest⟩ := List.append_eq_nil_iff.mp clean
        obtain ⟨complete, more, readsMore, endsMore⟩ := ih onward rest
        refine ⟨?_, _, separator.trans (reads.trans readsMore), ?_⟩
        · intro node member
          rcases List.mem_cons.mp member with rfl | member
          · exact identifier_completes text (behind.trans separator.le) found own
          · exact complete node member
        · right
          rcases endsMore with rfl | endsMore
          · simpa using ends.prepend pathSeparator.toList
          · exact (endsMore.prepend word).prepend pathSeparator.toList

theorem segments_completes {text : String} {cursor : Cursor} {fragment : Fragment}
    (behind : Cursor.ofText text ≤ cursor) (found : segments cursor = some fragment) (clean : fragment.errors = []) :
    (∀ node ∈ fragment.nodes, node.AllComplete text) ∧
      (∃ segment ∈ fragment.nodes, segment.kind.name = "identifier") ∧
      ∃ taken, cursor.Reads taken fragment.next ∧ EndsInWord taken := by
  obtain ⟨segment, read, rfl⟩ := Option.map_eq_some_iff.mp found
  obtain ⟨_, named, word, reads, ends⟩ := identifier_reads read
  obtain ⟨own, rest⟩ := List.append_eq_nil_iff.mp clean
  obtain ⟨complete, more, readsMore, endsMore⟩ := moreSegments_completes text _ (behind.trans reads.le) rest
  refine ⟨?_, ⟨segment.node, by simp [Fragment.andThen], named⟩, _, reads.trans readsMore, ?_⟩
  · intro node member
    rcases List.mem_cons.mp member with rfl | member
    · exact identifier_completes text behind read own
    · exact complete node member
  · rcases endsMore with rfl | endsMore
    · simpa using ends
    · exact endsMore.prepend word

theorem identPath_completes (text : String) : identPath.Completes text := by
  intro cursor parsed behind found clean
  unfold identPath at found
  dsimp only at found
  split at found
  next next read =>
    have separator := Cursor.read?_reads read
    cases found
    cases inner : segments next with
    | none => simp [inner, Fragment.missing] at clean
    | some fragment =>
      simp only [inner, Option.getD_some] at clean ⊢
      obtain ⟨complete, segment, taken, reads, ends⟩ :=
        segments_completes (behind.trans separator.le) inner clean
      have covered := Span.slice_spanTo behind (separator.trans reads)
      refine Node.allComplete_iff.mpr ⟨⟨segment, ?_⟩, complete⟩
      rw [covered, String.toList_ofList]
      exact (ends.prepend _).no_separator
  next =>
    obtain ⟨fragment, inner, rfl⟩ := Option.map_eq_some_iff.mp found
    obtain ⟨complete, segment, taken, reads, ends⟩ := segments_completes behind inner clean
    have covered := Span.slice_spanTo behind reads
    refine Node.allComplete_iff.mpr ⟨⟨segment, ?_⟩, complete⟩
    rw [covered, String.toList_ofList]
    exact ends.no_separator

theorem primitiveType_completes (text : String) : primitiveType.Completes text := by
  intro cursor parsed _ found _
  obtain ⟨primitive, _, rfl⟩ := Option.map_eq_some_iff.mp found
  exact allComplete_leaf trivial

theorem listType_completes {text : String} {item : Production} {cursor opened : Cursor}
    (completes : item.Completes text) (behind : Cursor.ofText text ≤ opened)
    (clean : (listType item cursor opened).errors = []) : (listType item cursor opened).node.AllComplete text := by
  have parts : (Fragment.required item .type .expectedType opened.skipTrivia).errors = [] := by
    unfold listType at clean
    dsimp only [Fragment.skipTrivia] at clean
    split at clean
    · exact clean
    · exact (List.append_eq_nil_iff.mp clean).1
  obtain ⟨parsed, found, fine, same⟩ := Fragment.required_of_clean parts
  have complete := completes (behind.trans opened.le_skipTrivia) found fine
  have shape : (listType item cursor opened).node.kind = .listType ∧
      (listType item cursor opened).node.children = [parsed.node.tagged .type] := by
    unfold listType
    dsimp only [Fragment.skipTrivia]
    rw [same]
    split <;> exact ⟨rfl, rfl⟩
  refine Node.allComplete_iff.mpr ⟨?_, ?_⟩
  · simp [Node.Complete, shape, Node.child?, Node.tagged]
  · simpa [shape] using complete.tagged .type

theorem primaryType_completes {text : String} {item : Production} (completes : item.Completes text) :
    (primaryType item).Completes text := by
  intro cursor parsed behind found clean
  unfold primaryType at found
  split at found
  next opened read =>
    cases found
    exact listType_completes completes (behind.trans (Cursor.read?_le read)) clean
  next =>
    simp only [Option.orElse_eq_orElse, Option.orElse_eq_or, Option.or_eq_some_iff] at found
    rcases found with found | ⟨_, found | ⟨_, found⟩⟩
    · obtain ⟨inner, read, rfl⟩ := Option.map_eq_some_iff.mp found
      have complete := (literal_completes text behind read clean).tagged .value
      exact Node.allComplete_iff.mpr ⟨trivial, by simpa [wrap] using complete⟩
    · exact primitiveType_completes text behind found clean
    · obtain ⟨inner, read, rfl⟩ := Option.map_eq_some_iff.mp found
      have complete := (identPath_completes text behind read clean).tagged .path
      exact Node.allComplete_iff.mpr ⟨trivial, by simpa [wrap] using complete⟩

theorem optionalTypes_completes {text : String} {node : Node} (complete : node.AllComplete text) (offset : Nat)
    (marks : List Char) : (optionalTypes node offset marks).AllComplete text := by
  induction marks generalizing node offset with
  | nil => exact complete
  | cons mark marks ih =>
    apply ih
    refine Node.allComplete_iff.mpr ⟨?_, by simpa using complete.tagged .type⟩
    simp [Node.Complete, Node.child?, Node.tagged]

theorem typeExpr_completes (text : String) : typeExpr.Completes text := by
  have within : ∀ depth, (typeWithin depth).Completes text := by
    intro depth
    induction depth with
    | zero =>
      intro cursor parsed _ found _
      cases found
    | succ depth ih =>
      intro cursor parsed behind found clean
      obtain ⟨primary, read, rfl⟩ := Option.map_eq_some_iff.mp found
      exact optionalTypes_completes (primaryType_completes ih behind read clean) _ _
  intro cursor parsed behind found clean
  exact within cursor.remaining behind found clean

/-- Doc comments never are a problem and have no parts. -/
theorem docComments_completes {text : String} {cursor next : Cursor} {doc : Node}
    (found : cursor.readDocComments? = some (doc, next)) : (doc.tagged .doc).AllComplete text := by
  obtain ⟨content, last, rfl, _⟩ := Cursor.readDocComments?_reads found
  exact Node.allComplete_iff.mpr ⟨trivial, by simp [Node.tagged]⟩

namespace PairGrammar

theorem doc_completes (text : String) (grammar : PairGrammar) (cursor : Cursor) :
    ∀ node ∈ (grammar.doc cursor).nodes, node.role = some .doc ∧ node.AllComplete text := by
  unfold doc
  intro node member
  split at member
  · split at member
    next doc next found =>
      obtain rfl := List.mem_singleton.mp member
      exact ⟨rfl, docComments_completes found⟩
    next => cases member
  · cases member

theorem pair_completes {text : String} {grammar : PairGrammar} (keys : grammar.key.Lawful)
    (completeKeys : grammar.key.Completes text) (completeValues : grammar.value.Completes text) {cursor : Cursor}
    (behind : Cursor.ofText text ≤ cursor) (clean : (grammar.pair cursor).errors = []) :
    (grammar.pair cursor).node.AllComplete text := by
  have docs := grammar.doc_completes text cursor
  have start := behind.trans (grammar.doc_sound cursor).lawful.le
  unfold pair at clean ⊢
  dsimp only [Fragment.andThen, Fragment.skipTrivia] at clean ⊢
  generalize grammar.doc cursor = doc at docs start clean
  simp only [List.append_eq_nil_iff] at clean
  obtain ⟨⟨⟨_, keyClean⟩, separatorClean⟩, valueClean⟩ := clean
  obtain ⟨key, keyFound, keyFine, keySame⟩ := Fragment.required_of_clean keyClean
  have onward := start.trans (keys keyFound).node.le
  rw [keySame] at separatorClean valueClean ⊢
  dsimp only [Fragment.ofParsed] at separatorClean valueClean ⊢
  cases separated : key.next.skipTrivia.read? grammar.separator with
  | none => simp [separated] at separatorClean
  | some middle =>
    simp only [separated, Option.getD_some] at valueClean ⊢
    obtain ⟨value, valueFound, valueFine, valueSame⟩ := Fragment.required_of_clean valueClean
    have toValue := (key.next.le_skipTrivia.trans (Cursor.read?_le separated)).trans middle.le_skipTrivia
    rw [valueSame]
    have others : ∀ role, role ≠ .doc → ∀ node ∈ doc.nodes, node.role ≠ some role := by
      intro role other node member
      rw [(docs node member).1]
      simpa using other.symm
    simp only [Fragment.ofParsed, List.append_assoc, List.singleton_append]
    refine Node.allComplete_iff.mpr ⟨⟨?_, rfl, ?_⟩, ?_⟩
    · rw [Node.child?_behind (others .key (by decide))]
      simp [Node.tagged]
    · rw [Node.child?_behind (others .value (by decide))]
      simp [Node.tagged]
    · intro child member
      simp only [List.mem_append, List.mem_cons, List.not_mem_nil, or_false] at member
      rcases member with member | rfl | rfl
      · exact (docs child member).2
      · exact (completeKeys start keyFound keyFine).tagged .key
      · exact (completeValues (onward.trans toValue) valueFound valueFine).tagged .value

end PairGrammar

theorem item_completes {text : String} {value : Production} (completes : value.Completes text) {cursor : Cursor}
    (behind : Cursor.ofText text ≤ cursor) (clean : (item value cursor).errors = []) :
    (item value cursor).node.AllComplete text := by
  unfold item at clean ⊢
  split at clean
  next parsed found =>
    have complete := (completes behind found clean).tagged .value
    refine Node.allComplete_iff.mpr ⟨?_, by simpa using complete⟩
    simp [Node.Complete, Node.child?, Node.tagged]
  next => simp at clean

/-- Every entry is complete, and all but the last record the separator behind them. -/
structure Entries.Complete (text : String) (entries : Entries) : Prop where
  nodes : ∀ node ∈ entries.nodes, node.AllComplete text
  ended : ∀ entry ∈ entries.nodes.dropLast, entry.IsEnded

theorem Entries.Complete.cons {text : String} {entries : Entries} {entry : Node} {errors : List Diagnostic}
    (rest : entries.Complete text) (complete : entry.AllComplete text) (ended : entry.IsEnded) :
    (entries.cons entry errors).Complete text where
  nodes := by
    intro node member
    rcases List.mem_cons.mp member with rfl | member
    · exact complete
    · exact rest.nodes node member
  ended := by
    intro node member
    simp only [Entries.cons] at member
    cases more : entries.nodes with
    | nil => simp [more] at member
    | cons next nodes =>
      rw [more, List.dropLast_cons_cons] at member
      rcases List.mem_cons.mp member with rfl | member
      · exact ended
      · exact rest.ended node (more ▸ member)

theorem entries_completes {text : String} {delimiters : Delimiters} {grammar : EntryGrammar}
    (lawful : ∀ cursor, (grammar.entry cursor).Lawful cursor)
    (isEntry : ∀ cursor, (grammar.entry cursor).node.IsEntry)
    (completes : ∀ cursor, Cursor.ofText text ≤ cursor → (grammar.entry cursor).errors = [] →
      (grammar.entry cursor).node.AllComplete text)
    (fuel : Nat) {cursor : Cursor} {stop : Nat} (behind : Cursor.ofText text ≤ cursor) :
    (entries delimiters grammar fuel stop cursor).errors = [] →
      (entries delimiters grammar fuel stop cursor).Complete text := by
  induction fuel generalizing stop cursor with
  | zero =>
    intro _
    exact ⟨by simp [entries], by simp [entries]⟩
  | succ fuel ih =>
    unfold entries
    dsimp only
    split
    next =>
      intro _
      exact ⟨by simp, by simp⟩
    next =>
      have start := behind.trans cursor.le_skipTrivia
      have placed := lawful cursor.skipTrivia
      have entry := isEntry cursor.skipTrivia
      have complete := completes cursor.skipTrivia start
      generalize grammar.entry cursor.skipTrivia = parsed at placed entry complete
      have onward := start.trans (placed.node.le.trans parsed.next.le_skipTrivia)
      split
      next separated read =>
        have next := onward.trans ((Cursor.read?_le read).trans separated.le_skipTrivia)
        split
        next =>
          intro clean
          obtain ⟨fine, _⟩ := List.append_eq_nil_iff.mp clean
          obtain ⟨whole, _⟩ := (complete fine).endedBy entry (parsed.next.skipTrivia.spanTo separated)
          exact ⟨by simpa using whole, by simp⟩
        next =>
          intro clean
          obtain ⟨fine, rest⟩ := List.append_eq_nil_iff.mp clean
          obtain ⟨whole, ended⟩ := (complete fine).endedBy entry (parsed.next.skipTrivia.spanTo separated)
          exact (ih next rest).cons whole ended
      next =>
        split
        next =>
          intro _
          exact ⟨by simp, by simp⟩
        next =>
          split
          next =>
            intro clean
            simp [Entries.cons] at clean
          next =>
            intro clean
            exact ⟨by simpa using complete clean, by simp⟩

/-- A sequence without a problem is complete when its entries are. -/
theorem sequence_completes {text : String} {kind : Node.Kind} {delimiters : Delimiters} {grammar : EntryGrammar}
    (isSequence : kind = .table ∨ kind = .list) (lawful : ∀ cursor, (grammar.entry cursor).Lawful cursor)
    (isEntry : ∀ cursor, (grammar.entry cursor).node.IsEntry)
    (completes : ∀ cursor, Cursor.ofText text ≤ cursor → (grammar.entry cursor).errors = [] →
      (grammar.entry cursor).node.AllComplete text)
    {cursor : Cursor} (behind : Cursor.ofText text ≤ cursor) :
    (sequence kind delimiters grammar cursor).errors = [] →
      (sequence kind delimiters grammar cursor).node.AllComplete text := by
  have made : ∀ span, ∀ inner : Entries, inner.Complete text →
      Node.AllComplete text { kind, span, children := inner.nodes } := by
    intro span inner complete
    refine Node.allComplete_iff.mpr ⟨?_, complete.nodes⟩
    rcases isSequence with rfl | rfl
    · exact complete.ended
    · exact complete.ended
  unfold sequence
  split
  next =>
    intro clean
    simp at clean
  next opened read =>
    have inner : (entries delimiters grammar opened.remaining opened.offset opened).errors = [] → _ :=
      entries_completes lawful isEntry completes opened.remaining (behind.trans (Cursor.read?_le read))
    dsimp only
    split
    next =>
      intro clean
      exact made _ _ (inner clean)
    next =>
      intro clean
      exact made _ _ (inner (List.append_eq_nil_iff.mp clean).1)

theorem table_completes {text : String} {delimiters : Delimiters} {grammar : PairGrammar} (keys : grammar.key.Lawful)
    (values : grammar.value.Lawful) (completeKeys : grammar.key.Completes text)
    (completeValues : grammar.value.Completes text) {cursor : Cursor} (behind : Cursor.ofText text ≤ cursor) :
    (table delimiters grammar cursor).errors = [] → (table delimiters grammar cursor).node.AllComplete text := by
  refine sequence_completes (.inl rfl) (PairGrammar.pair_lawful keys values) ?_ ?_ behind
  · intro _
    exact trivial
  · intro _ onward
    exact PairGrammar.pair_completes keys completeKeys completeValues onward

theorem list_completes {text : String} {delimiters : Delimiters} {value : Production} (lawful : value.Lawful)
    (completes : value.Completes text) {cursor : Cursor} (behind : Cursor.ofText text ≤ cursor) :
    (list delimiters value cursor).errors = [] → (list delimiters value cursor).node.AllComplete text := by
  refine sequence_completes (.inr rfl) (item_lawful lawful) ?_ ?_ behind
  · intro other
    dsimp only [item]
    split <;> exact trivial
  · intro _ onward
    exact item_completes completes onward

end Parser

end SchemaDoc
