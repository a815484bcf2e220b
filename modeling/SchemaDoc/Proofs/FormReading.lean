import SchemaDoc.Proofs.EntryReading

/-! The forms of a declaration are read back from their tokens, part by part: a part takes its
tokens and leaves the cursor in front of the next one. -/

namespace SchemaDoc

theorem Fragment.andThen_assoc (first : Fragment) (second third : Cursor → Fragment) :
    (first.andThen second).andThen third = first.andThen fun cursor => (second cursor).andThen third := by
  simp only [Fragment.andThen, List.append_assoc]

namespace Parser

open Grammar

/-- The fragment is the trees, without a problem, and the tokens come next. -/
structure Delivers (tokens : List Token) (trees : List Node) (fragment : Fragment) : Prop where
  bare : fragment.nodes.map Node.bare = trees
  clean : fragment.errors = []
  behind : Behind tokens fragment.next

theorem Delivers.andThen {middle tokens : List Token} {trees others : List Node} {first : Fragment}
    {step : Cursor → Fragment} (delivers : Delivers middle trees first)
    (next : ∀ cursor, Behind middle cursor → Delivers tokens others (step cursor)) :
    Delivers tokens (trees ++ others) (first.andThen step) := by
  have more := next first.next delivers.behind
  refine ⟨?_, ?_, more.behind⟩
  · simp only [Fragment.andThen, List.map_append, delivers.bare, more.bare]
  · simp only [Fragment.andThen, delivers.clean, more.clean, List.append_nil]

theorem delivers_ofParsed {tokens : List Token} {tree : Node} {parsed : Parsed} (yields : Yields tokens tree parsed)
    (role : Node.Role) : Delivers tokens [tree.tagged role] (.ofParsed parsed role) := by
  refine ⟨?_, yields.clean, yields.behind⟩
  simp only [Fragment.ofParsed, List.map_cons, List.map_nil, Node.bare_tagged, yields.bare]

theorem opens_word {word : String} (isWord : IsWord word) : Opens (token word).text := by
  obtain ⟨name, spelled⟩ := isWord.spelled
  rw [token, spelled]
  exact opens_identifier name

theorem isWord_declarationWord {word : String} (member : word ∈ declarationWords) : IsWord word := by
  simp only [declarationWords, List.mem_cons, List.not_mem_nil, or_false] at member
  rcases member with rfl | rfl | rfl | rfl | rfl | rfl <;> exact isWord_of_chars rfl (by decide) (by decide)

theorem keyword?_delivers {word : String} (isWord : IsWord word) {tokens : List Token} {cursor : Cursor}
    (followed : tokens ≠ []) (ahead : Ahead (token word :: tokens) cursor) :
    ∃ fragment, keyword? word cursor = some fragment ∧ Delivers tokens [keywordTree word] fragment := by
  obtain ⟨rest, split, gapped, behind⟩ := ahead.take
  have read := isWord.readKeyword? split (gapped followed).closes
  have spells := spells_leaf (.keyword word) cursor word.toList rest rfl
  refine ⟨_, by rw [keyword?, read, Option.map_some], delivers_ofParsed ⟨spells.bare, spells.clean, ?_⟩ .keyword⟩
  exact spells.next ▸ behind

theorem requiredKeyword_delivers {word : String} (isWord : IsWord word) {tokens : List Token} {cursor : Cursor}
    (followed : tokens ≠ []) (ahead : Ahead (token word :: tokens) cursor) :
    Delivers tokens [keywordTree word] (requiredKeyword word cursor) := by
  obtain ⟨fragment, found, delivers⟩ := keyword?_delivers isWord followed ahead
  rw [requiredKeyword, found]
  exact delivers

theorem optionalKeyword_delivers {word : String} (isWord : IsWord word) {tokens : List Token} {cursor : Cursor}
    (followed : tokens ≠ []) (ahead : Ahead (token word :: tokens) cursor) :
    Delivers tokens [keywordTree word] (optionalKeyword word cursor) := by
  obtain ⟨fragment, found, delivers⟩ := keyword?_delivers isWord followed ahead
  rw [optionalKeyword, found]
  exact delivers

theorem required_delivers {production : Production} {text : List Char} {tree : Node}
    (takes : production.Takes text tree) (role : Node.Role) (message : Message) {tokens : List Token} {cursor : Cursor}
    (followed : tokens ≠ []) (ahead : Ahead ({ text } :: tokens) cursor) :
    Delivers tokens [tree.tagged role] (Fragment.required production role message cursor) := by
  obtain ⟨parsed, found, yields⟩ := yields_of_takes takes followed ahead
  rw [required_of_found found]
  exact delivers_ofParsed yields role

theorem requiredIdentifier_delivers (name : Identifier) {tokens : List Token} {cursor : Cursor}
    (followed : tokens ≠ []) (behind : Behind ({ text := name.text } :: tokens) cursor) :
    Delivers tokens [name.tree.tagged .identifier] (requiredIdentifier cursor) :=
  required_delivers (identifier_takes name) _ _ followed (behind.skipTrivia ((opens_identifier name).settles _))

theorem requiredPath_delivers (path : Path) {tokens : List Token} {cursor : Cursor} (followed : tokens ≠ [])
    (behind : Behind ({ text := path.text } :: tokens) cursor) :
    Delivers tokens [path.tree.tagged .path] (requiredPath cursor) :=
  required_delivers (identPath_takes path) _ _ followed (behind.skipTrivia ((opens_path path).settles _))

theorem opens_semicolon : Opens (token ";").text := ⟨';', [], rfl, by decide, by decide⟩

theorem terminator_delivers {tokens : List Token} {cursor : Cursor} (behind : Behind (token ";" :: tokens) cursor) :
    Delivers tokens [semicolonTree] (terminator cursor) := by
  obtain ⟨next, read, _, after⟩ := (behind.skipTrivia (opens_semicolon.settles _)).read?
  simp only [terminator, read]
  refine ⟨?_, rfl, after⟩
  simp [leaf, Node.bare_eq, Node.Kind.bare, semicolonTree, made]

theorem fieldsBody_delivers {fields : Fields} (readable : fields.Readable) {tokens : List Token} {cursor : Cursor}
    (behind : Behind (fields.tokens ++ tokens) cursor) :
    Delivers tokens [fields.tree] (body .allowed structField cursor) := by
  have opens : Opens (token "\x7b").text := ⟨'\x7b', [], rfl, by decide, by decide⟩
  exact delivers_ofParsed (fields_read readable (behind.skipTrivia (opens.settles _))) .body

theorem membersBody_delivers (members : Members) {tokens : List Token} {cursor : Cursor}
    (behind : Behind (members.tokens ++ tokens) cursor) :
    Delivers tokens [members.tree] (body .allowed enumField cursor) := by
  have opens : Opens (token "\x7b").text := ⟨'\x7b', [], rfl, by decide, by decide⟩
  exact delivers_ofParsed (members_read members (behind.skipTrivia (opens.settles _))) .body

theorem isWord_enumKind (kind : EnumKind) : IsWord kind.name := by
  cases kind <;> exact isWord_of_chars rfl (by decide) (by decide)

theorem ofName?_enumKind (kind : EnumKind) : EnumKind.ofName? kind.name = some kind := by
  cases kind <;> decide

theorem enumKindWord_delivers (kind : EnumKind) {tokens : List Token} {cursor : Cursor} (followed : tokens ≠ [])
    (behind : Behind (token kind.name :: tokens) cursor) : Delivers tokens [kindTree kind] (enumKindWord cursor) := by
  have isWord := isWord_enumKind kind
  obtain ⟨rest, split, gapped, after⟩ := (behind.skipTrivia ((opens_word isWord).settles _)).take
  have word := isWord.word split (gapped followed).closes
  have some : kind.name.toList ≠ [] := by cases kind <;> decide
  have read : cursor.skipTrivia.readIdentifier? =
      Option.some (kind.name, cursor.skipTrivia.moveTo kind.name.toList rest) := by
    have spelled : cursor.skipTrivia.rest = kind.name.toList ++ rest := split
    simp [Cursor.readIdentifier?, Cursor.afterWord, word, some, spelled]
  have known : (EnumKind.ofName? kind.name).isSome = true := by rw [ofName?_enumKind, Option.isSome_some]
  have spells := spells_leaf (.keyword kind.name) cursor.skipTrivia kind.name.toList rest rfl
  simp only [enumKindWord, read, known, if_true]
  exact delivers_ofParsed ⟨spells.bare, spells.clean, after⟩ .kind

theorem requiredToken_delivers {text : String} (opens : Opens (token text).text) {tokens : List Token} {cursor : Cursor}
    (behind : Behind (token text :: tokens) cursor) : Delivers tokens [] (requiredToken text cursor) := by
  obtain ⟨next, read, _, after⟩ := (behind.skipTrivia (opens.settles _)).read?
  simp only [requiredToken, read]
  exact ⟨rfl, rfl, after⟩

theorem enumKindClause_delivers (kind : EnumKind) {tokens : List Token} {cursor : Cursor}
    (behind : Behind (token "(" :: token kind.name :: token ")" :: tokens) cursor) :
    Delivers tokens [kindTree kind] (enumKindClause cursor) := by
  have opensFirst : Opens (token "(").text := ⟨'(', [], rfl, by decide, by decide⟩
  have opensLast : Opens (token ")").text := ⟨')', [], rfl, by decide, by decide⟩
  obtain ⟨opened, read, _, inside⟩ := (behind.skipTrivia (opensFirst.settles _)).read?
  simp only [enumKindClause, read]
  exact (enumKindWord_delivers kind (by simp) inside).andThen fun _ => requiredToken_delivers opensLast

private theorem find_kind_bare (nodes : List Node) :
    (nodes.map Node.bare).find? (fun node => node.role == some .kind) =
      (nodes.find? fun node => node.role == some .kind).map Node.bare := by
  have kept : (fun node : Node => node.role == some .kind) ∘ Node.bare = fun node => node.role == some .kind := by
    funext node
    simp only [Function.comp_apply, Node.bare_eq]
  rw [List.find?_map, kept]

/-- The kind is looked up in the trees, so places do not matter. -/
theorem enumKind?_delivers {tokens : List Token} {trees : List Node} {fragment : Fragment} (kind : EnumKind)
    (delivers : Delivers tokens trees fragment)
    (named : trees.find? (fun node => node.role == some .kind) = some (kindTree kind)) : enumKind? fragment = some kind := by
  rw [← delivers.bare, find_kind_bare] at named
  obtain ⟨node, found, bare⟩ := Option.map_eq_some_iff.mp named
  have keyword : node.kind = .keyword kind.name := by
    rw [Node.bare_eq] at bare
    have kinds : node.kind.bare = .keyword kind.name := congrArg Node.kind bare
    cases same : node.kind with
    | keyword word => simpa [same, Node.Kind.bare] using kinds
    | _ => simp [same, Node.Kind.bare] at kinds
  simp only [enumKind?, found, Option.bind_some, keyword, ofName?_enumKind]

theorem Delivers.skipThen {next : Token} {middle tokens : List Token} {trees others : List Node} {first : Fragment}
    {step : Cursor → Fragment} (delivers : Delivers (next :: middle) trees first) (settles : Settles next middle)
    (more : ∀ cursor, Ahead (next :: middle) cursor → Delivers tokens others (step cursor)) :
    Delivers tokens (trees ++ others) (first.skipTrivia.andThen step) := by
  have rest := more first.skipTrivia.next (delivers.behind.skipTrivia settles)
  refine ⟨?_, ?_, rest.behind⟩
  · simp only [Fragment.andThen, Fragment.skipTrivia, List.map_append, delivers.bare]
    rw [← rest.bare]
    rfl
  · simp only [Fragment.andThen]
    rw [rest.clean, List.append_nil]
    exact delivers.clean

structure Drafts (tokens : List Token) (form : Form) (found : Draft) : Prop where
  kind : found.kind = form.kind
  parts : Delivers tokens form.parts found.parts

theorem fields_ne_nil (fields : Fields) (tokens : List Token) : fields.tokens ++ tokens ≠ [] := by
  simp [Fields.tokens, Body.tokens]

theorem members_ne_nil (members : Members) (tokens : List Token) : members.tokens ++ tokens ≠ [] := by
  simp [Members.tokens, Body.tokens]

theorem structDeclaration_drafts (name : Identifier) {fields : Fields} (readable : fields.Readable) {tokens : List Token}
    {cursor : Cursor} (ahead : Ahead ((Form.struct name fields).tokens ++ tokens) cursor) :
    Drafts tokens (.struct name fields) (structDeclaration .allowed cursor) := by
  have isWord : IsWord "struct" := isWord_declarationWord (by decide)
  refine ⟨rfl, ?_⟩
  exact ((optionalKeyword_delivers isWord (by simp) ahead).andThen
    fun _ => requiredIdentifier_delivers name (fields_ne_nil fields tokens)).andThen
    fun _ => fieldsBody_delivers readable

theorem enumDeclaration_drafts (kind : EnumKind) (name : Identifier) (members : Members) {tokens : List Token}
    {cursor : Cursor} (ahead : Ahead ((Form.enum kind name members).tokens ++ tokens) cursor) :
    Drafts tokens (.enum kind name members) (enumDeclaration .allowed cursor) := by
  have isWord : IsWord "enum" := isWord_declarationWord (by decide)
  have parts : Delivers tokens (Form.enum kind name members).parts (enumDeclaration .allowed cursor).parts :=
    (((optionalKeyword_delivers isWord (by simp) ahead).andThen
      fun _ => enumKindClause_delivers kind).andThen
      fun _ => requiredIdentifier_delivers name (members_ne_nil members tokens)).andThen
      fun _ => membersBody_delivers members
  have named : enumKind? (enumDeclaration .allowed cursor).parts = some kind := enumKind?_delivers kind parts rfl
  exact ⟨congrArg Node.Kind.enum named, parts⟩

theorem moduleDeclaration_drafts (name : Identifier) {tokens : List Token} {cursor : Cursor}
    (ahead : Ahead ((Form.module name).tokens ++ tokens) cursor) :
    Drafts tokens (.module name) (moduleDeclaration cursor) := by
  have isWord : IsWord "mod" := isWord_declarationWord (by decide)
  refine ⟨rfl, ?_⟩
  exact ((optionalKeyword_delivers isWord (by simp) ahead).andThen
    fun _ => requiredIdentifier_delivers name (by simp)).andThen
    fun _ => terminator_delivers

theorem keyword?_eq_none {word other : String} (isWord : IsWord word) {tokens : List Token} {cursor : Cursor}
    (followed : tokens ≠ []) (ahead : Ahead (token word :: tokens) cursor) (different : word.toList ≠ other.toList) :
    keyword? other cursor = none := by
  obtain ⟨rest, split, gapped, _⟩ := ahead.take
  have here := isWord.word split (gapped followed).closes
  rw [keyword?, Cursor.readKeyword?, here, if_neg different, Option.map_none]

theorem useClause_drafts (isExport : Bool) (path : Path) {tokens : List Token} {cursor : Cursor}
    (ahead : Ahead ((Form.use isExport path).tokens ++ tokens) cursor) :
    Drafts tokens (.use isExport path) (useClause cursor) := by
  have isUse : IsWord "use" := isWord_declarationWord (by decide)
  have isExported : IsWord "export" := isWord_declarationWord (by decide)
  cases isExport with
  | true =>
    obtain ⟨exported, found, delivers⟩ := keyword?_delivers isExported (by simp) ahead
    simp only [useClause, found]
    refine ⟨rfl, ?_⟩
    exact ((delivers.skipThen ((opens_word isUse).settles _)
      fun _ => requiredKeyword_delivers isUse (by simp)).andThen
      fun _ => requiredPath_delivers path (by simp)).andThen
      fun _ => terminator_delivers
  | false =>
    have absent : keyword? "export" cursor = none := keyword?_eq_none isUse (by simp) ahead (by decide)
    simp only [useClause, absent]
    refine ⟨rfl, ?_⟩
    exact ((requiredKeyword_delivers isUse (by simp) ahead).andThen
      fun _ => requiredPath_delivers path (by simp)).andThen
      fun _ => terminator_delivers

theorem Delivers.finish {tokens : List Token} {trees : List Node} {fragment : Fragment}
    (delivers : Delivers tokens trees fragment) {kind : Node.Kind} (plain : kind.bare = kind) (start : Nat) :
    Yields tokens (made kind trees) (fragment.finish kind start) := by
  refine ⟨?_, delivers.clean, delivers.behind⟩
  rw [Node.bare_eq]
  simp only [Fragment.finish, plain, delivers.bare, made]

theorem injectStruct_drafts (path : Path) {fields : Fields} (readable : fields.Readable) {tokens : List Token}
    {cursor : Cursor} (ahead : Ahead ((Form.injectStruct path fields).tokens ++ tokens) cursor) :
    Drafts tokens (.injectStruct path fields) (injectClause .allowed cursor) := by
  have isInject : IsWord "inject" := isWord_declarationWord (by decide)
  have isStruct : IsWord "struct" := isWord_declarationWord (by decide)
  refine ⟨rfl, (optionalKeyword_delivers isInject (by simp) ahead).skipThen ((opens_word isStruct).settles _) ?_⟩
  intro start atStruct
  obtain ⟨fragment, found, delivers⟩ := keyword?_delivers isStruct (by simp) atStruct
  simp only [injectedDefinition, found]
  have parts := (delivers.andThen fun _ => requiredPath_delivers path (fields_ne_nil fields tokens)).andThen
    fun _ => fieldsBody_delivers readable
  exact delivers_ofParsed (parts.finish rfl start.offset) .definition

theorem injectEnum_drafts (kind : EnumKind) (path : Path) (members : Members) {tokens : List Token} {cursor : Cursor}
    (ahead : Ahead ((Form.injectEnum kind path members).tokens ++ tokens) cursor) :
    Drafts tokens (.injectEnum kind path members) (injectClause .allowed cursor) := by
  have isInject : IsWord "inject" := isWord_declarationWord (by decide)
  have isEnum : IsWord "enum" := isWord_declarationWord (by decide)
  refine ⟨rfl, (optionalKeyword_delivers isInject (by simp [enumTokens]) ahead).skipThen ((opens_word isEnum).settles _) ?_⟩
  intro start atEnum
  have absent : keyword? "struct" start = none := keyword?_eq_none isEnum (by simp) atEnum (by decide)
  obtain ⟨fragment, found, delivers⟩ := keyword?_delivers isEnum (by simp) atEnum
  simp only [injectedDefinition, absent, found]
  have parts := ((delivers.andThen fun _ => enumKindClause_delivers kind).andThen
    fun _ => requiredPath_delivers path (members_ne_nil members tokens)).andThen
    fun _ => membersBody_delivers members
  rw [enumKind?_delivers kind parts rfl]
  exact delivers_ofParsed (parts.finish rfl start.offset) .definition

/-- The objects, if there are any, and the semicolon. Without objects nothing is read before it. -/
theorem describedObjects_delivers {objects : Option (Body Resource)}
    (plain : ∀ body ∈ objects, ∀ object ∈ body.entries, ¬ OpensComment object.text) {tokens : List Token} {cursor : Cursor}
    (ahead : Ahead ((objects.map objectsTokens).getD [] ++ token ";" :: tokens) cursor) :
    Delivers tokens ((objects.map objectsTree).toList ++ [semicolonTree]) ((describedObjects cursor).andThen terminator) := by
  cases objects with
  | none =>
    have spelled : (token ";").text = ';' :: [] := rfl
    have absent : cursor.startsWith "[" = false :=
      Cursor.startsWith_eq_false rfl (ahead.head_ne spelled (by decide))
    simp only [describedObjects, absent, Bool.false_eq_true, if_false]
    have nothing : Delivers (token ";" :: tokens) [] (.empty cursor) := ⟨rfl, rfl, ahead.behind⟩
    exact nothing.andThen fun _ => terminator_delivers
  | some body =>
    obtain ⟨_, _, present, _⟩ := ahead.read?
    simp only [describedObjects, present, if_true]
    exact (delivers_ofParsed (objects_read (plain body rfl) ahead) .objects).andThen fun _ => terminator_delivers

private theorem opens_objects (objects : Option (Body Resource)) (tokens : List Token) :
    ∃ first more, (objects.map objectsTokens).getD [] ++ token ";" :: tokens = first :: more ∧ Opens first.text := by
  cases objects with
  | none => exact ⟨_, _, rfl, opens_semicolon⟩
  | some body => exact ⟨_, _, rfl, '[', [], rfl, by decide, by decide⟩

theorem describesClause_drafts (path : Path) {registry : Resource} (plain : ¬ OpensComment registry.text)
    {objects : Option (Body Resource)} (plainObjects : ∀ body ∈ objects, ∀ object ∈ body.entries, ¬ OpensComment object.text)
    {tokens : List Token} {cursor : Cursor} (ahead : Ahead ((Form.describes path registry objects).tokens ++ tokens) cursor) :
    Drafts tokens (.describes path registry objects) (describesClause cursor) := by
  have isDescribes : IsWord "describes" := isWord_of_chars rfl (by decide) (by decide)
  refine ⟨rfl, ?_⟩
  simp only [Form.tokens, List.cons_append, List.append_assoc, List.nil_append] at ahead
  have still : cursor.skipTrivia = cursor := ahead.skipTrivia ((opens_path path).settles _)
  have first := required_delivers (identPath_takes path) .path .expectedIdentifier (by simp) ahead
  nth_rewrite 1 [← still] at first
  have registered := (first.skipThen ((opens_word isDescribes).settles _)
    fun _ => requiredKeyword_delivers isDescribes (by simp)).skipThen (settles_resource plain (by simp))
    fun _ => required_delivers (resourceLocation_takes registry) .registry .expectedResourceLocation (by simp)
  obtain ⟨next, middle, tokensNext, opens⟩ := opens_objects objects tokens
  rw [tokensNext] at registered
  have all := registered.skipThen (opens.settles middle) fun _ atObjects =>
    describedObjects_delivers plainObjects (tokensNext.symm ▸ atObjects)
  rw [← Fragment.andThen_assoc] at all
  exact all

theorem Ahead.word {word : String} (isWord : IsWord word) {tokens : List Token} {cursor : Cursor} (followed : tokens ≠ [])
    (ahead : Ahead (token word :: tokens) cursor) : String.ofList cursor.word = word := by
  obtain ⟨rest, split, gapped, _⟩ := ahead.take
  rw [isWord.word split (gapped followed).closes, String.ofList_toList]

/-- A describes clause has no keyword in front, so its path must not begin with one. -/
theorem draft_of_path {path : Path} (avoids : path.Avoids declarationWords) {tokens : List Token} {cursor : Cursor}
    (followed : tokens ≠ []) (ahead : Ahead ({ text := path.text } :: tokens) cursor) :
    draft .allowed cursor = some (describesClause cursor) := by
  obtain ⟨rest, split, gapped, _⟩ := ahead.take
  have word := path_word path split (gapped followed).closes
  cases root : path.fromRoot with
  | true =>
    have none : cursor.word = [] := by rw [word, root, if_pos rfl]
    have separated : cursor.rest = pathSeparator.toList ++
        (path.first.text ++ (path.more.flatMap fun segment => "::".toList ++ segment.text) ++ rest) := by
      rw [split, Path.text, root]
      simp [pathSeparator]
    have starts := Cursor.startsWith_of_rest separated
    simp [draft, none, starts]
  | false =>
    have first : String.ofList cursor.word = String.ofList path.first.text := by rw [word, root]; rfl
    have other : String.ofList path.first.text ∉ declarationWords := by
      rcases avoids with isRoot | other
      · simp [root] at isRoot
      · exact other
    rw [← first] at other
    have some : String.ofList cursor.word ≠ "" := by
      rw [first]
      simp [Identifier.text]
    unfold draft
    split
    case h_7 same => exact absurd same some
    case h_8 => rfl
    all_goals
      rename_i same
      exact absurd (by simp [same, declarationWords]) other

/-- A form is known by its first token and read from its tokens. -/
theorem draft_reads {declaration : Declaration} (readable : declaration.Readable) {tokens : List Token} {cursor : Cursor}
    (ahead : Ahead (declaration.form.tokens ++ tokens) cursor) :
    ∃ found, draft .allowed cursor = some found ∧ Drafts tokens declaration.form found := by
  obtain ⟨docs, form⟩ := declaration
  cases form with
  | struct name fields =>
    have word := Ahead.word (isWord_declarationWord (by decide)) (by simp) ahead
    exact ⟨_, by simp only [draft, word], structDeclaration_drafts name readable ahead⟩
  | enum kind name members =>
    have word := Ahead.word (isWord_declarationWord (by decide)) (by simp) ahead
    exact ⟨_, by simp only [draft, word], enumDeclaration_drafts kind name members ahead⟩
  | module name =>
    have word := Ahead.word (isWord_declarationWord (by decide)) (by simp) ahead
    exact ⟨_, by simp only [draft, word], moduleDeclaration_drafts name ahead⟩
  | use isExport path =>
    refine ⟨_, ?_, useClause_drafts isExport path ahead⟩
    cases isExport with
    | true =>
      have word := Ahead.word (isWord_declarationWord (by decide)) (by simp) ahead
      simp only [draft, word]
    | false =>
      have word := Ahead.word (isWord_declarationWord (by decide)) (by simp) ahead
      simp only [draft, word]
  | injectStruct path fields =>
    have word := Ahead.word (isWord_declarationWord (by decide)) (by simp) ahead
    exact ⟨_, by simp only [draft, word], injectStruct_drafts path readable ahead⟩
  | injectEnum kind path members =>
    have word := Ahead.word (isWord_declarationWord (by decide)) (by simp [enumTokens]) ahead
    exact ⟨_, by simp only [draft, word], injectEnum_drafts kind path members ahead⟩
  | describes path registry objects =>
    obtain ⟨avoids, plain, plainObjects⟩ := readable
    exact ⟨_, draft_of_path avoids (by simp) ahead, describesClause_drafts path plain plainObjects ahead⟩

end Parser

end SchemaDoc
