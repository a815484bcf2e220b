import SchemaDoc.Proofs.FormReading

/-! Every text that writes declarations is read back as these declarations, and every list of
declarations has such a text. -/

namespace SchemaDoc

namespace Parser

open Grammar

theorem opens_form (form : Form) : ∃ first more, form.tokens = first :: more ∧ Opens first.text := by
  cases form with
  | struct name fields => exact ⟨_, _, rfl, 's', _, rfl, by decide, by decide⟩
  | enum kind name members => exact ⟨_, _, rfl, 'e', _, rfl, by decide, by decide⟩
  | module name => exact ⟨_, _, rfl, 'm', _, rfl, by decide, by decide⟩
  | use isExport path =>
    cases isExport with
    | true => exact ⟨_, _, rfl, 'e', _, rfl, by decide, by decide⟩
    | false => exact ⟨_, _, rfl, 'u', _, rfl, by decide, by decide⟩
  | injectStruct path fields => exact ⟨_, _, rfl, 'i', _, rfl, by decide, by decide⟩
  | injectEnum kind path members => exact ⟨_, _, rfl, 'i', _, rfl, by decide, by decide⟩
  | describes path registry objects => exact ⟨_, _, rfl, opens_path path⟩

/-- A declaration is read from the tokens of its form, with the doc comments that were read before. -/
theorem declaration_reads {declaration : Declaration} (readable : declaration.Readable) {doc : Option Node}
    (docs : (doc.toList.map fun node => node.tagged .doc).map Node.bare = docTree declaration.docs) {tokens : List Token}
    {cursor : Cursor} (ahead : Ahead (declaration.form.tokens ++ tokens) cursor) :
    ∃ parsed, Parser.declaration .allowed doc cursor = some parsed ∧ Yields tokens declaration.tree parsed := by
  obtain ⟨found, drafted, drafts⟩ := draft_reads readable ahead
  let parts : Fragment := { found.parts with nodes := (doc.toList.map fun node => node.tagged .doc) ++ found.parts.nodes }
  have whole : Delivers tokens (docTree declaration.docs ++ declaration.form.parts) parts := by
    refine ⟨?_, drafts.parts.clean, drafts.parts.behind⟩
    rw [List.map_append, docs, drafts.parts.bare]
  have plain : declaration.form.kind.bare = declaration.form.kind := by
    cases declaration.form <;> rfl
  refine ⟨parts.finish found.kind cursor.offset, by rw [Parser.declaration, drafted, Option.map_some], ?_⟩
  rw [drafts.kind]
  exact whole.finish plain cursor.offset

theorem topLevel_delivers {declaration : Declaration} (readable : declaration.Readable) {tokens : List Token}
    {cursor : Cursor} (ahead : Ahead (declaration.tokens ++ tokens) cursor) :
    Delivers tokens [declaration.tree] (topLevel .allowed cursor) := by
  obtain ⟨first, more, tokensForm, opens⟩ := opens_form declaration.form
  have delivers : ∀ {doc : Option Node} {behind : Cursor},
      (doc.toList.map fun node => node.tagged .doc).map Node.bare = docTree declaration.docs →
      Ahead (first :: (more ++ tokens)) behind → ∃ parsed, Parser.declaration .allowed doc behind = some parsed ∧
        Delivers tokens [declaration.tree] ⟨[parsed.node], parsed.errors, parsed.next⟩ := by
    intro doc behind docs atForm
    rw [← List.cons_append, ← tokensForm] at atForm
    obtain ⟨parsed, found, yields⟩ := declaration_reads readable docs atForm
    exact ⟨parsed, found, by rw [List.map_singleton, yields.bare], yields.clean, yields.behind⟩
  rw [Declaration.tokens, tokensForm, List.append_assoc, List.cons_append] at ahead
  rcases docs_read declaration.docs opens ahead with ⟨bareForm, unread, here⟩ | ⟨doc, next, read, tree, behind⟩
  · have docs : ((none : Option Node).toList.map fun node => node.tagged .doc).map Node.bare = docTree declaration.docs := by
      rw [bareForm]
      rfl
    obtain ⟨parsed, found, all⟩ := delivers docs here
    simp only [topLevel, unread, found]
    exact all
  · have docs : ((some doc).toList.map fun node => node.tagged .doc).map Node.bare = docTree declaration.docs := tree.symm
    obtain ⟨parsed, found, all⟩ := delivers docs behind
    simp only [topLevel, read, found]
    exact all

theorem declaration_starts (declaration : Declaration) :
    ∃ first more, declaration.tokens = first :: more ∧ first.text ≠ [] ∧ ∀ tokens, Settles first tokens := by
  obtain ⟨first, more, tokensForm, opens⟩ := opens_form declaration.form
  rw [Declaration.tokens, tokensForm]
  cases declaration.docs with
  | nil =>
    refine ⟨first, more, rfl, ?_, opens.settles⟩
    obtain ⟨char, text, spelled, _⟩ := opens
    simp [spelled]
  | cons doc docs => exact ⟨_, _, rfl, by simp, settles_doc doc⟩

/-- Wherever declarations are written behind trivia, the cursor finds the first of them. -/
theorem ahead_of_written {list : List Declaration} {cursor : Cursor} {gap chars : List Char} (whole : cursor.Whole)
    (split : cursor.rest = gap ++ chars) (trivia : Trivia chars gap)
    (spread : Spread (list.flatMap Declaration.tokens) chars) :
    Ahead (list.flatMap Declaration.tokens) cursor.skipTrivia := by
  cases list with
  | nil =>
    cases spread
    rw [Cursor.skipTrivia_of_trivia split trivia ⟨by simp, by simp [OpensComment]⟩]
    exact ⟨whole.moveTo split, .nil⟩
  | cons declaration list =>
    obtain ⟨first, more, tokens, _, settles⟩ := declaration_starts declaration
    rw [List.flatMap_cons, tokens] at spread ⊢
    exact ahead_skipTrivia whole split trivia spread (settles _)

theorem length_le_tokens (list : List Declaration) : list.length ≤ (list.flatMap Declaration.tokens).length := by
  induction list with
  | nil => exact Nat.zero_le _
  | cons declaration list ih =>
    obtain ⟨first, more, tokens, _⟩ := declaration_starts declaration
    simp only [List.flatMap_cons, tokens, List.length_cons, List.length_append]
    omega

theorem Ahead.rest_nil {cursor : Cursor} (ahead : Ahead [] cursor) : cursor.rest = [] := by
  obtain ⟨_, spread⟩ := ahead
  generalize cursor.rest = chars at spread
  cases spread
  rfl

/-- The loop reads one declaration after the other and stops behind the last one. -/
theorem declarations_reads (list : List Declaration) (readable : ∀ declaration ∈ list, declaration.Readable) {fuel : Nat}
    {cursor : Cursor} (enough : list.length ≤ fuel) (ahead : Ahead (list.flatMap Declaration.tokens) cursor.skipTrivia) :
    (declarations .allowed fuel cursor).nodes.map Node.bare = list.map Declaration.tree ∧
      (declarations .allowed fuel cursor).errors = [] := by
  induction list generalizing fuel cursor with
  | nil =>
    cases fuel with
    | zero => exact ⟨rfl, rfl⟩
    | succ fuel =>
      have ended : cursor.skipTrivia.atEnd = true := by
        rw [Cursor.atEnd, ahead.rest_nil, List.isEmpty_nil]
      simp only [declarations, ended, if_true]
      exact ⟨rfl, rfl⟩
  | cons declaration list ih =>
    rw [List.length_cons] at enough
    obtain ⟨fuel, rfl⟩ : ∃ less, fuel = less + 1 := ⟨fuel - 1, by omega⟩
    rw [List.flatMap_cons] at ahead
    have delivers := topLevel_delivers (readable declaration (List.mem_cons_self ..)) ahead
    obtain ⟨whole, gap, chars, split, trivia, spread⟩ := delivers.behind
    have onward := ahead_of_written whole split trivia spread
    have enoughMore : list.length ≤ fuel := by omega
    obtain ⟨bare, clean⟩ := ih (fun other member => readable other (List.mem_cons_of_mem _ member)) enoughMore onward
    have more : cursor.skipTrivia.atEnd = false := by
      obtain ⟨first, others, tokens, some, _⟩ := declaration_starts declaration
      rw [tokens] at ahead
      obtain ⟨rest, here, _⟩ := ahead.take
      simp [Cursor.atEnd, here, some]
    simp only [declarations, more, Bool.false_eq_true, if_false, Fragment.andThen]
    refine ⟨?_, ?_⟩
    · rw [List.map_append, delivers.bare, bare]
      rfl
    · rw [delivers.clean, clean]
      rfl

end Parser

namespace Grammar

def join : List Token → List Char
  | [] => []
  | [token] => token.text
  | token :: next :: tokens => token.text ++ ((if token.isDoc then ['\n'] else [' ']) ++ join (next :: tokens))

theorem spread_join (tokens : List Token) : Spread tokens (join tokens) := by
  fun_induction join tokens with
  | case1 => exact .nil
  | case2 token =>
    have last : Spread [token] (token.text ++ []) := .last .nil
    rwa [List.append_nil] at last
  | case3 token next tokens ih =>
    refine .cons ?_ ih
    cases isDoc : token.isDoc with
    | true => exact ⟨'\n', [], rfl, fun _ => .nil, by simp [isDoc]⟩
    | false => exact ⟨' ', [], rfl, fun _ => .nil, by simp [isDoc]; decide⟩

theorem written_join (list : List Declaration) : Written list (join (list.flatMap Declaration.tokens)) :=
  ⟨[], _, rfl, .nil, spread_join _⟩

end Grammar

open Grammar

/-- A text that writes declarations is read without a problem, and its tree is the document of these
declarations. -/
theorem parse_written {list : List Declaration} {text : String} (readable : ∀ declaration ∈ list, declaration.Readable)
    (written : Written list text.toList) :
    (parse text .allowed).errors = [] ∧
      (parse text .allowed).node.bare = made .document (list.map Declaration.tree) := by
  obtain ⟨filler, chars, split, trivia, spread⟩ := written
  have whole : (Cursor.ofText text).Whole := by
    simp only [Cursor.Whole, Cursor.ofText, byteLength_toList, Nat.zero_add]
  have ahead := Parser.ahead_of_written whole split trivia spread
  have enough : list.length ≤ (Cursor.ofText text).remaining := by
    have room := whole.length_lt
    have bound := Parser.length_le_of_spread spread
    have each := Parser.length_le_tokens list
    have shorter : chars.length ≤ (Cursor.ofText text).rest.length := by
      rw [Cursor.ofText, split, List.length_append]
      exact Nat.le_add_left _ _
    omega
  obtain ⟨bare, clean⟩ := Parser.declarations_reads list readable enough ahead
  refine ⟨clean, ?_⟩
  rw [Node.bare_eq]
  simp only [parse, Node.Kind.bare, bare, made]

private def letter : Identifier := ⟨'a', [], by decide, by simp⟩

private def item : Resource := ⟨none, "item".toList, by simp, List.all_eq_true.mp (by decide), by decide⟩

private def describedStruct : List Declaration :=
  [⟨[⟨"note".toList, by decide, by decide⟩], .struct letter
      ⟨[⟨[], .identifier letter, .list (.reference ⟨true, letter, [letter]⟩ 1) 0⟩], true⟩⟩,
    ⟨[], .describes ⟨false, letter, []⟩ item (some ⟨[item], false⟩)⟩]

theorem parse_written_describedStruct :
    let text := "// c\n/// note\nstruct a \x7b a : [ ::a::a? ] , \x7d a describes item [ item ] ;"
    (∀ declaration ∈ describedStruct, declaration.Readable) ∧ Written describedStruct text.toList ∧
      (parse text .allowed).errors = [] ∧
      (parse text .allowed).node.bare = made .document (describedStruct.map Declaration.tree) := by
  intro text
  have readable : ∀ declaration ∈ describedStruct, declaration.Readable := by
    have plain : ¬ OpensComment item.text := by
      rintro ⟨line, same, _⟩
      cases same
    have other : String.ofList letter.text ∉ declarationWords := by decide
    simp [describedStruct, Declaration.Readable, Fields.Readable, TypeExpr.Readable, Path.Avoids, plain, other]
  have written : Written describedStruct text.toList := by
    have oneLine : '\n' ∉ " c".toList := by decide
    have noDoc : " c".toList.head? ≠ some '/' := by decide
    refine ⟨"// c\n".toList, _, ?_, .comment oneLine noDoc .nil, spread_join _⟩
    decide +kernel
  exact ⟨readable, written, parse_written readable written⟩

private def clause (path : Path) (registry : Resource) : List Declaration := [⟨[], .describes path registry none⟩]

/-- Three texts that are written as the grammar says and are not read: a clause about a path that
begins with a keyword, a reference that begins with the name of a primitive type, and a resource
location that begins like a line comment. -/
theorem written_not_read :
    (∃ list, Written list "mod describes item ;".toList ∧ (parse "mod describes item ;" .allowed).errors ≠ []) ∧
    (∃ list, Written list "struct a \x7b a : int::a \x7d".toList ∧
      (parse "struct a \x7b a : int::a \x7d" .allowed).errors ≠ []) ∧
    ∃ list, Written list "a describes //a ;".toList ∧ (parse "a describes //a ;" .allowed).errors ≠ [] := by
  have reported : ∀ {text : String}, (parse text .allowed).errors.isEmpty = false → (parse text .allowed).errors ≠ [] := by
    intro text some none
    simp [none] at some
  refine ⟨⟨_, written_join (clause ⟨false, ⟨'m', "od".toList, by decide, List.all_eq_true.mp (by decide)⟩, []⟩ item), ?_⟩,
    ⟨_, written_join [⟨[], .struct letter ⟨[⟨[], .identifier letter,
      .reference ⟨false, ⟨'i', "nt".toList, by decide, List.all_eq_true.mp (by decide)⟩, [letter]⟩ 0⟩], false⟩⟩], ?_⟩,
    ⟨_, written_join (clause ⟨false, letter, []⟩ ⟨none, "//a".toList, by simp, List.all_eq_true.mp (by decide), by decide⟩), ?_⟩⟩
  · exact reported (by decide +kernel)
  · exact reported (by decide +kernel)
  · exact reported (by decide +kernel)

end SchemaDoc
