import Mathlib.Data.List.Basic
import SchemaDoc.ModulePath
import SchemaDoc.Project.Layout

/-! Keys of the table and the segments in them. The segments of modules hold no colon, so that a flat form
can be taken apart again: its last segment is the name that was joined to a module, and two names in two
modules have two keys. -/

namespace SchemaDoc

/-- A text in which no separator can begin. -/
def IsPlain (text : String) : Prop := ':' ∉ text.toList

namespace ModulePath

/-- A module whose segments hold no colon. -/
def Plain (path : ModulePath) : Prop := ∀ segment ∈ path.segments, IsPlain segment

theorem Plain.child {path : ModulePath} (plain : path.Plain) {segment : String} (also : IsPlain segment) :
    (path.child segment).Plain := by
  intro inner member
  rcases List.mem_append.mp member with member | member
  · exact plain inner member
  · cases List.mem_singleton.mp member
    exact also

theorem Plain.parent {path parent : ModulePath} (plain : path.Plain) (found : path.parent? = some parent) :
    parent.Plain := by
  rw [parent?] at found
  split at found
  · cases found
  · cases found
    exact fun segment member => plain segment (List.dropLast_subset _ member)

theorem plain_root : root.Plain := by
  intro segment member
  cases member

def Unbroken (piece : List Char) : Prop := splitSeparator piece = [piece]

/-- A piece behind which a separator is found where it begins. -/
def Breaks (piece : List Char) : Prop :=
  ∀ rest, splitSeparator (piece ++ separator.toList ++ rest) = piece :: splitSeparator rest

theorem splitSeparator_ne_nil (text : List Char) : splitSeparator text ≠ [] := by
  fun_cases splitSeparator text <;> simp

theorem splitSeparator_cons {char : Char} {rest : List Char} (single : ∀ others, char :: rest ≠ ':' :: ':' :: others) :
    ∃ piece pieces, splitSeparator rest = piece :: pieces ∧
      splitSeparator (char :: rest) = (char :: piece) :: pieces := by
  obtain ⟨piece, pieces, split⟩ := List.exists_cons_of_ne_nil (splitSeparator_ne_nil rest)
  refine ⟨piece, pieces, split, ?_⟩
  rw [splitSeparator, split]
  rintro others rfl rfl
  exact single others rfl

theorem splitSeparator_induction {motive : List Char → Prop} (nil : motive [])
    (mark : ∀ rest, motive rest → motive (':' :: ':' :: rest))
    (letter : ∀ char rest, (∀ others, char :: rest ≠ ':' :: ':' :: others) → motive rest → motive (char :: rest))
    (text : List Char) : motive text := by
  have single : ∀ {char : Char} {rest : List Char}, (∀ others, char = ':' → rest = ':' :: others → False) →
      ∀ others, char :: rest ≠ ':' :: ':' :: others :=
    fun apart others same => apart others (List.cons.inj same).1 (List.cons.inj same).2
  induction text using splitSeparator.induct with
  | case1 => exact nil
  | case2 rest ih => exact mark rest ih
  | case3 char rest apart _ ih => exact letter char rest (single apart) ih
  | case4 char rest apart _ _ _ ih => exact letter char rest (single apart) ih

theorem intercalate_splitSeparator (text : List Char) : separator.toList.intercalate (splitSeparator text) = text := by
  induction text using splitSeparator_induction with
  | nil => rfl
  | mark rest ih =>
    obtain ⟨piece, pieces, split⟩ := List.exists_cons_of_ne_nil (splitSeparator_ne_nil rest)
    rw [split] at ih
    rw [splitSeparator, split, List.intercalate_cons_cons, ih]
    rfl
  | letter char rest single ih =>
    obtain ⟨piece, pieces, split, joined⟩ := splitSeparator_cons single
    rw [split] at ih
    rw [joined, ← ih]
    cases pieces with
    | nil => rfl
    | cons next others => rw [List.intercalate_cons_cons, List.intercalate_cons_cons, List.cons_append, List.cons_append]

theorem Unbroken.cons {char : Char} {piece : List Char} (unbroken : Unbroken piece)
    (single : ∀ others, char :: piece ≠ ':' :: ':' :: others) : Unbroken (char :: piece) := by
  obtain ⟨first, others, split, joined⟩ := splitSeparator_cons single
  obtain ⟨rfl, rfl⟩ := List.cons.inj (split.symm.trans unbroken)
  exact joined

theorem Breaks.cons {char : Char} {piece tail : List Char} (breaks : Breaks piece)
    (single : ∀ others, char :: (piece ++ separator.toList ++ tail) ≠ ':' :: ':' :: others) : Breaks (char :: piece) := by
  intro rest
  have apart : ∀ others, char :: (piece ++ separator.toList ++ rest) ≠ ':' :: ':' :: others := by
    intro others same
    cases piece with
    | nil => exact single (':' :: tail) (congrArg (· :: separator.toList ++ tail) (List.cons.inj same).1)
    | cons next piece =>
      obtain ⟨rfl, further⟩ := List.cons.inj same
      cases (List.cons.inj further).1
      exact single _ rfl
  obtain ⟨first, others, split, joined⟩ := splitSeparator_cons apart
  obtain ⟨rfl, rfl⟩ := List.cons.inj (split.symm.trans (breaks rest))
  exact joined

theorem unbroken_of_split (text : List Char) : (∀ piece ∈ splitSeparator text, Unbroken piece) ∧
    ∀ piece ∈ (splitSeparator text).dropLast, Breaks piece := by
  induction text using splitSeparator_induction with
  | nil => exact ⟨fun piece member => List.mem_singleton.mp member ▸ rfl, fun _ member => absurd member List.not_mem_nil⟩
  | mark rest ih =>
    rw [splitSeparator]
    refine ⟨List.forall_mem_cons.mpr ⟨rfl, ih.1⟩, ?_⟩
    rw [List.dropLast_cons_of_ne_nil (splitSeparator_ne_nil rest)]
    exact List.forall_mem_cons.mpr ⟨fun _ => rfl, ih.2⟩
  | letter char rest single ih =>
    obtain ⟨piece, pieces, split, joined⟩ := splitSeparator_cons single
    have whole := intercalate_splitSeparator rest
    rw [split] at ih whole
    obtain ⟨unbroken, others⟩ := List.forall_mem_cons.mp ih.1
    rw [joined]
    cases pieces with
    | nil =>
      rw [List.intercalate_singleton] at whole
      exact ⟨List.forall_mem_cons.mpr ⟨unbroken.cons (whole ▸ single), others⟩, fun _ member => absurd member List.not_mem_nil⟩
    | cons next pieces =>
      rw [List.intercalate_cons_cons] at whole
      rw [List.dropLast_cons_of_ne_nil (List.cons_ne_nil _ _)] at ih ⊢
      obtain ⟨breaks, further⟩ := List.forall_mem_cons.mp ih.2
      refine ⟨List.forall_mem_cons.mpr ⟨unbroken.cons ?_, others⟩,
        List.forall_mem_cons.mpr ⟨breaks.cons (whole ▸ single), further⟩⟩
      intro tail same
      obtain ⟨rfl, rfl⟩ := List.cons.inj same
      exact single _ (congrArg _ whole.symm)

/-- Pieces that begin and end where separators stand are found again. -/
theorem splitSeparator_of_unbroken {pieces : List (List Char)} (some : pieces ≠ [])
    (unbroken : ∀ piece ∈ pieces, Unbroken piece) (breaks : ∀ piece ∈ pieces.dropLast, Breaks piece) :
    splitSeparator (separator.toList.intercalate pieces) = pieces := by
  induction pieces with
  | nil => exact absurd rfl some
  | cons piece pieces ih =>
    obtain ⟨own, others⟩ := List.forall_mem_cons.mp unbroken
    cases pieces with
    | nil =>
      rw [List.intercalate_singleton]
      exact own
    | cons next pieces =>
      rw [List.dropLast_cons_of_ne_nil (List.cons_ne_nil _ _)] at breaks
      obtain ⟨first, further⟩ := List.forall_mem_cons.mp breaks
      rw [List.intercalate_cons_cons, first, ih (List.cons_ne_nil _ _) others further]

theorem splitSeparator_alone {piece : List Char} (plain : ':' ∉ piece) : splitSeparator piece = [piece] := by
  induction piece with
  | nil => rfl
  | cons char piece ih =>
    have apart : char ≠ ':' := fun same => plain (same ▸ List.mem_cons_self)
    rw [splitSeparator, ih fun member => plain (List.mem_cons_of_mem _ member)]
    rintro rest rfl
    exact absurd rfl apart

theorem splitSeparator_append {piece : List Char} (plain : ':' ∉ piece) (rest : List Char) :
    splitSeparator (piece ++ separator.toList ++ rest) = piece :: splitSeparator rest := by
  induction piece with
  | nil => rfl
  | cons char piece ih =>
    have apart : char ≠ ':' := fun same => plain (same ▸ List.mem_cons_self)
    have further := ih fun member => plain (List.mem_cons_of_mem _ member)
    rw [List.cons_append, List.cons_append, splitSeparator, further]
    intro other same
    exact absurd same apart

/-- Pieces that are joined are found again. -/
theorem splitSeparator_intercalate {pieces : List (List Char)} (some : pieces ≠ [])
    (plain : ∀ piece ∈ pieces, ':' ∉ piece) : splitSeparator (separator.toList.intercalate pieces) = pieces :=
  splitSeparator_of_unbroken some (fun piece member => splitSeparator_alone (plain piece member))
    fun piece member => splitSeparator_append (plain piece (List.dropLast_subset _ member))

theorem stripSeparator_display (path : ModulePath) :
    stripSeparator path.display.toList = separator.toList.intercalate (path.segments.map String.toList) := by
  rw [display, String.toList_append, String.toList_intercalate]
  rfl

theorem splitSeparator_display {path : ModulePath} (plain : path.Plain) (some : path.segments ≠ []) :
    splitSeparator (stripSeparator path.display.toList) = path.segments.map String.toList := by
  rw [stripSeparator_display]
  refine splitSeparator_intercalate (by simpa using some) ?_
  intro piece member
  obtain ⟨segment, among, rfl⟩ := List.mem_map.mp member
  exact plain segment among

/-- Reading a flat form drops nothing but empty segments. -/
theorem parse_display {path : ModulePath} (plain : path.Plain) :
    parse path.display = ⟨path.segments.filter fun segment => !segment.isEmpty⟩ := by
  obtain ⟨segments⟩ := path
  cases segments with
  | nil => rfl
  | cons first rest =>
    rw [parse, splitSeparator_display plain (List.cons_ne_nil _ _), List.filter_map, List.map_map]
    congr 1
    have back : String.ofList ∘ String.toList = id := funext fun segment => String.ofList_toList
    rw [back, List.map_id]
    refine List.filter_congr fun segment _ => ?_
    rw [Function.comp_apply, Bool.eq_iff_iff]
    simp

/-- What is read from a text is read back from its flat form. -/
theorem parse_display_parse (text : String) : parse (parse text).display = parse text := by
  obtain ⟨unbroken, breaks⟩ := unbroken_of_split (stripSeparator text.toList)
  have spelled : (parse text).segments.map String.toList =
      (splitSeparator (stripSeparator text.toList)).filter fun piece => !piece.isEmpty := by
    rw [parse, List.map_map]
    have back : String.toList ∘ String.ofList = id := funext fun letters => String.toList_ofList
    rw [back, List.map_id]
  by_cases nothing : (parse text).segments = []
  · have root : parse text = ModulePath.root := congrArg ModulePath.mk nothing
    rw [root]
    rfl
  · have kept : ((parse text).segments.map String.toList).Sublist (splitSeparator (stripSeparator text.toList)) := by
      rw [spelled]
      exact List.filter_sublist
    have earlier : ((parse text).segments.map String.toList).dropLast.Sublist
        (splitSeparator (stripSeparator text.toList)).dropLast := by
      simpa only [List.tail_reverse, List.reverse_sublist] using kept.reverse.tail
    have split : splitSeparator (stripSeparator (parse text).display.toList) = (parse text).segments.map String.toList := by
      rw [stripSeparator_display]
      exact splitSeparator_of_unbroken (by simpa using nothing) (fun piece member => unbroken piece (kept.subset member))
        fun piece member => breaks piece (earlier.subset member)
    rw [parse, split, spelled, List.filter_filter]
    simp [parse]

def Solid (path : ModulePath) : Prop := ∀ segment ∈ path.segments, segment.toList ≠ []

theorem Solid.child {path : ModulePath} (solid : path.Solid) {segment : String} (also : segment.toList ≠ []) :
    (path.child segment).Solid := by
  intro inner member
  rcases List.mem_append.mp member with member | member
  · exact solid inner member
  · cases List.mem_singleton.mp member
    exact also

theorem Solid.parent {path parent : ModulePath} (solid : path.Solid) (found : path.parent? = some parent) :
    parent.Solid := by
  rw [parent?] at found
  split at found
  · cases found
  · cases found
    exact fun segment member => solid segment (List.dropLast_subset _ member)

theorem solid_parse (text : String) : (parse text).Solid := by
  intro segment member
  obtain ⟨piece, among, rfl⟩ := List.mem_map.mp member
  simpa using (List.mem_filter.mp among).2

theorem parse_display_of_solid {path : ModulePath} (plain : path.Plain) (solid : path.Solid) :
    parse path.display = path := by
  have kept : (path.segments.filter fun segment => !segment.isEmpty) = path.segments := by
    refine List.filter_eq_self.mpr fun segment member => ?_
    simpa using solid segment member
  rw [parse_display plain, kept]

theorem plain_parse_display {path : ModulePath} (plain : path.Plain) : (parse path.display).Plain := by
  rw [parse_display plain]
  exact fun segment member => plain segment (List.mem_of_mem_filter member)

def lastSegment? (key : String) : Option String := (parse key).segments.getLast?

theorem lastSegment?_join {path : ModulePath} (plain : path.Plain) {name : String} (also : IsPlain name)
    (some : name.toList ≠ []) : lastSegment? (path.join name) = Option.some name := by
  have kept : name.isEmpty = false := by simpa using some
  rw [lastSegment?, join, parse_display (plain.child also)]
  simp [child, List.filter_append, kept]

/-- A name in a module has a key of its own. -/
theorem join_injective {first second : ModulePath} (plain : first.Plain) (also : second.Plain) {name other : String}
    (named : IsPlain name) (named' : IsPlain other) (same : first.join name = second.join other) :
    first = second ∧ name = other := by
  have left := splitSeparator_display (plain.child named) (by simp [child])
  have right := splitSeparator_display (also.child named') (by simp [child])
  rw [join, join] at same
  rw [same, right] at left
  have segments : second.segments ++ [other] = first.segments ++ [name] :=
    List.map_injective_iff.mpr (fun _ _ => String.toList_inj.mp) left
  obtain ⟨modules, names⟩ := List.append_inj' segments rfl
  cases first
  cases second
  cases modules
  cases names
  exact ⟨rfl, rfl⟩

end ModulePath

theorem isPlain_of_word {text : String} (word : ∀ char ∈ text.toList, isIdentifierPart char = true) : IsPlain text := by
  intro member
  have colon := word ':' member
  revert colon
  decide

/-- A word that can be the name of a declaration. -/
def IsIdentifier (text : String) : Prop :=
  ∃ first rest, text.toList = first :: rest ∧ isIdentifierStart first = true ∧ ∀ char ∈ rest, isIdentifierPart char = true

theorem IsIdentifier.toList_ne_nil {text : String} (identifier : IsIdentifier text) : text.toList ≠ [] := by
  obtain ⟨first, rest, spelled, -, -⟩ := identifier
  rw [spelled]
  exact List.cons_ne_nil first rest

theorem IsIdentifier.isPlain {text : String} (identifier : IsIdentifier text) : IsPlain text := by
  obtain ⟨first, rest, spelled, starts, continues⟩ := identifier
  refine isPlain_of_word fun char member => ?_
  rw [spelled] at member
  rcases List.mem_cons.mp member with rfl | later
  · rw [isIdentifierPart, starts, Bool.true_or]
  · exact continues char later

/-- Flat forms are faithful. One without empty segments and colons in them is read back, as are all that consist of
identifiers, and the key of a name in a module tells both the module and the name. -/
theorem ModulePath.display_faithful :
    (∀ path : ModulePath, path.Solid → path.Plain → parse path.display = path) ∧
    (∀ path : ModulePath, (∀ segment ∈ path.segments, IsIdentifier segment) → parse path.display = path) ∧
    ∀ path other : ModulePath, path.Plain → other.Plain → ∀ name name', IsIdentifier name → IsIdentifier name' →
      (path.join name = other.join name' ↔ path = other ∧ name = name') := by
  refine ⟨fun path solid plain => parse_display_of_solid plain solid, fun path identifiers => ?_, ?_⟩
  · have plain : path.Plain := fun segment member => (identifiers segment member).isPlain
    exact parse_display_of_solid plain fun segment member => (identifiers segment member).toList_ne_nil
  · intro path other plain also name name' identifier identifier'
    constructor
    · exact join_injective plain also identifier.isPlain identifier'.isPlain
    · rintro ⟨rfl, rfl⟩
      rfl

/-- The root module, a module inside another one, and the names `c` of `::a::b` and `b` of `::a`. -/
theorem ModulePath.display_faithful_nested :
    (root.Solid ∧ root.Plain ∧ parse root.display = root) ∧
    ((∀ segment ∈ ["a", "b"], IsIdentifier segment) ∧ parse (ModulePath.mk ["a", "b"]).display = ⟨["a", "b"]⟩) ∧
    (IsIdentifier "c" ∧ IsIdentifier "b") ∧ (ModulePath.mk ["a", "b"]).join "c" ≠ (ModulePath.mk ["a"]).join "b" := by
  have letter : ∀ char, isIdentifierStart char = true → IsIdentifier (String.ofList [char]) :=
    fun char starts => ⟨char, [], String.toList_ofList, starts, fun _ member => absurd member List.not_mem_nil⟩
  have a : IsIdentifier "a" := letter 'a' (by decide)
  have b : IsIdentifier "b" := letter 'b' (by decide)
  have c : IsIdentifier "c" := letter 'c' (by decide)
  have inner : ∀ segment ∈ ["a", "b"], IsIdentifier segment := by simp [a, b]
  have plain : ∀ segments, (∀ segment ∈ segments, IsIdentifier segment) → (ModulePath.mk segments).Plain :=
    fun segments identifiers segment member => (identifiers segment member).isPlain
  have solid : root.Solid := fun segment member => absurd member List.not_mem_nil
  obtain ⟨read, readWords, keys⟩ := display_faithful
  refine ⟨⟨solid, plain_root, read root solid plain_root⟩, ⟨inner, readWords ⟨["a", "b"]⟩ inner⟩, ⟨c, b⟩, fun same => ?_⟩
  have outer : (ModulePath.mk ["a"]).Plain := plain ["a"] (by simp [a])
  have modules := ((keys ⟨["a", "b"]⟩ ⟨["a"]⟩ (plain _ inner) outer "c" "b" c b).mp same).1
  exact absurd modules (by decide)

namespace Layout

theorem isPlain_of_isSegment {name : String} (segment : isSegment name = true) : IsPlain name := by
  rw [isSegment] at segment
  split at segment
  · next nothing => simp [IsPlain, nothing]
  · next char rest spelled =>
    obtain ⟨first, others⟩ := Bool.and_eq_true_iff.mp segment
    exact IsIdentifier.isPlain ⟨char, rest, spelled, first, List.all_eq_true.mp others⟩

theorem plain_of_modulePath? {layout : Layout} {path : String} {module : ModulePath}
    (implemented : layout.modulePath? path = some module) : module.Plain := by
  rw [modulePath?] at implemented
  obtain ⟨relative, _, inner⟩ := Option.bind_eq_some_iff.mp implemented
  obtain ⟨stem, _, last⟩ := Option.bind_eq_some_iff.mp inner
  obtain ⟨all, same⟩ := Option.ite_none_right_eq_some.mp last
  cases same
  exact fun segment among => isPlain_of_isSegment (List.all_eq_true.mp all segment among)

/-- A layout registers no other modules. -/
theorem plain_of_modulesOf {layout : Layout} {paths : List String} {entry : ModulePath × String}
    (member : entry ∈ layout.modulesOf paths) : entry.1.Plain := by
  obtain ⟨path, _, found⟩ := List.mem_filterMap.mp member
  obtain ⟨module, implemented, rfl⟩ := Option.map_eq_some_iff.mp found
  exact plain_of_modulePath? implemented

end Layout

end SchemaDoc
