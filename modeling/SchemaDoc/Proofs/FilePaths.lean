import Mathlib.Data.List.DropRight
import Mathlib.Data.List.TakeDrop
import SchemaDoc.Proofs.ModuleNames

/-! Paths step by step. What is left of a path below another one has the steps that are left, so that a file is told
apart by its steps below the source root; and two files implement one module only where one stands beside the directory
of the module and the other one in it. -/

namespace SchemaDoc

namespace Path

theorem splitSlash_ne_nil (text : List Char) : splitSlash text ≠ [] := by
  cases text with
  | nil => exact List.cons_ne_nil _ _
  | cons char rest =>
    rw [splitSlash]
    split
    · exact List.cons_ne_nil _ _
    · split <;> exact List.cons_ne_nil _ _

theorem not_mem_splitSlash {text piece : List Char} (member : piece ∈ splitSlash text) : '/' ∉ piece := by
  induction text generalizing piece with
  | nil =>
    cases List.mem_singleton.mp member
    exact List.not_mem_nil
  | cons char rest ih =>
    rw [splitSlash] at member
    split at member
    · rcases List.mem_cons.mp member with rfl | later
      · exact List.not_mem_nil
      · exact ih later
    · next apart =>
      split at member
      · next none => exact absurd none (splitSlash_ne_nil rest)
      · next first others split =>
        rcases List.mem_cons.mp member with rfl | later
        · intro slash
          rcases List.mem_cons.mp slash with same | inner
          · exact apart same.symm
          · exact ih (split ▸ List.mem_cons_self) inner
        · exact ih (split ▸ List.mem_cons_of_mem _ later)

theorem splitSlash_append {piece : List Char} (plain : '/' ∉ piece) (rest : List Char) :
    splitSlash (piece ++ '/' :: rest) = piece :: splitSlash rest := by
  induction piece with
  | nil => rfl
  | cons char piece ih =>
    have apart : char ≠ '/' := fun same => plain (same ▸ List.mem_cons_self)
    rw [List.cons_append, splitSlash, if_neg apart, ih fun slash => plain (List.mem_cons_of_mem _ slash)]

theorem splitSlash_alone {piece : List Char} (plain : '/' ∉ piece) : splitSlash piece = [piece] := by
  induction piece with
  | nil => rfl
  | cons char piece ih =>
    have apart : char ≠ '/' := fun same => plain (same ▸ List.mem_cons_self)
    rw [splitSlash, if_neg apart, ih fun slash => plain (List.mem_cons_of_mem _ slash)]

theorem splitSlash_intercalate {pieces : List (List Char)} (some : pieces ≠ []) (plain : ∀ piece ∈ pieces, '/' ∉ piece) :
    splitSlash (['/'].intercalate pieces) = pieces := by
  induction pieces with
  | nil => exact absurd rfl some
  | cons piece pieces ih =>
    have own := plain piece List.mem_cons_self
    cases pieces with
    | nil => rw [List.intercalate_singleton, splitSlash_alone own]
    | cons next others =>
      rw [List.intercalate_cons_cons, List.append_assoc, List.singleton_append, splitSlash_append own,
        ih (List.cons_ne_nil _ _) fun piece member => plain piece (List.mem_cons_of_mem _ member)]

def Slashless (pieces : List String) : Prop := ∀ piece ∈ pieces, '/' ∉ piece.toList

theorem slashless_pieces (path : String) : Slashless (pieces path) := by
  intro piece member
  obtain ⟨text, among, rfl⟩ := List.mem_map.mp member
  rw [String.toList_ofList]
  exact not_mem_splitSlash among

theorem pieces_intercalate {parts : List String} (some : parts ≠ []) (slashless : Slashless parts) :
    pieces ("/".intercalate parts) = parts := by
  have back : String.ofList ∘ String.toList = id := funext fun text => String.ofList_toList
  have spelled : ("/".intercalate parts).toList = ['/'].intercalate (parts.map String.toList) := String.toList_intercalate
  rw [pieces, spelled, splitSlash_intercalate (by simpa using some), List.map_map, back, List.map_id]
  intro text member
  obtain ⟨piece, among, rfl⟩ := List.mem_map.mp member
  exact slashless piece among

theorem isAbsolute_iff (path : String) : isAbsolute path = true ↔ ∃ next others, pieces path = "" :: next :: others := by
  rw [isAbsolute, pieces, beq_iff_eq]
  cases path.toList with
  | nil => simp [splitSlash]
  | cons char rest =>
    rw [List.head?_cons, Option.some_inj, splitSlash]
    by_cases slash : char = '/'
    · obtain ⟨next, others, split⟩ := List.exists_cons_of_ne_nil (splitSlash_ne_nil rest)
      simp [slash, split]
    · rw [if_neg slash]
      obtain ⟨next, others, split⟩ := List.exists_cons_of_ne_nil (splitSlash_ne_nil rest)
      simp [slash, split]

def stepsOf (pieces : List String) : List Component := (pieces.filter fun piece => !isIdle piece).map ofPiece

theorem stepsOf_append (first second : List String) : stepsOf (first ++ second) = stepsOf first ++ stepsOf second := by
  rw [stepsOf, List.filter_append, List.map_append]
  rfl

theorem stepsOf_idle {pieces : List String} (idle : ∀ piece ∈ pieces, isIdle piece = true) : stepsOf pieces = [] := by
  rw [stepsOf, List.filter_eq_nil_iff.mpr (by simpa using idle), List.map_nil]

theorem stepsOf_dropWhile (pieces : List String) : stepsOf (pieces.dropWhile isIdle) = stepsOf pieces := by
  conv_rhs => rw [← List.takeWhile_append_dropWhile (p := isIdle) (l := pieces), stepsOf_append,
    stepsOf_idle fun piece member => List.mem_takeWhile_imp member, List.nil_append]

theorem trimIdle_append (pieces : List String) :
    trimIdle pieces ++ (pieces.reverse.takeWhile isIdle).reverse = pieces := by
  rw [trimIdle, ← List.reverse_append, List.takeWhile_append_dropWhile, List.reverse_reverse]

theorem stepsOf_trimIdle (pieces : List String) : stepsOf (trimIdle pieces) = stepsOf pieces := by
  conv_rhs => rw [← trimIdle_append pieces, stepsOf_append,
    stepsOf_idle fun piece member => List.mem_takeWhile_imp (List.mem_reverse.mp member), List.append_nil]

def lead (path : String) : List Component :=
  if isAbsolute path then [.root] else if (pieces path).head? == some "." then [.current] else []

theorem components_eq (path : String) : components path = lead path ++ stepsOf (pieces path) := by
  rw [components, lead, stepsOf]
  split
  · rfl
  split <;> rfl

theorem Slashless.subset {pieces others : List String} (slashless : Slashless pieces) (subset : others ⊆ pieces) :
    Slashless others := fun piece member => slashless piece (subset member)

theorem trimIdle_subset (pieces : List String) : trimIdle pieces ⊆ pieces := by
  conv_rhs => rw [← trimIdle_append pieces]
  exact List.subset_append_left _ _

theorem components_ofPieces {parts : List String} (slashless : Slashless parts) :
    components (ofPieces parts) = stepsOf parts := by
  have same : stepsOf (trimIdle (parts.dropWhile isIdle)) = stepsOf parts := by
    rw [stepsOf_trimIdle, stepsOf_dropWhile]
  have kept := trimIdle_append (parts.dropWhile isIdle)
  have plain := slashless.subset (List.Subset.trans (trimIdle_subset _) (List.dropWhile_subset isIdle))
  rw [ofPieces]
  cases trimmed : trimIdle (parts.dropWhile isIdle) with
  | nil =>
    rw [trimmed] at same
    rw [← same]
    rfl
  | cons first others =>
    rw [trimmed] at kept same plain
    have busy : isIdle first = false := by
      have front := List.head?_dropWhile_not isIdle parts
      rw [← kept] at front
      simpa using front
    obtain ⟨named, here⟩ : first ≠ "" ∧ first ≠ "." := by simpa [isIdle] using busy
    have spelled := pieces_intercalate (List.cons_ne_nil first others) plain
    have relative : isAbsolute ("/".intercalate (first :: others)) = false := by
      rw [← Bool.not_eq_true, isAbsolute_iff, spelled]
      rintro ⟨next, rest, same⟩
      exact named (List.cons.inj same).1
    rw [components_eq, lead, spelled, relative, ← same]
    simp [here]

theorem components_trimmed (path : String) : components (trimmed path) = components path := by
  rw [trimmed]
  cases split : pieces path with
  | nil => exact absurd split (by simpa [pieces] using splitSlash_ne_nil path.toList)
  | cons first rest =>
    have same : stepsOf (first :: trimIdle rest) = stepsOf (pieces path) := by
      rw [split, ← List.singleton_append, stepsOf_append, stepsOf_trimIdle, ← stepsOf_append, List.singleton_append]
    have plain : Slashless (first :: trimIdle rest) := by
      refine (slashless_pieces path).subset ?_
      rw [split]
      exact List.cons_subset_cons _ (trimIdle_subset rest)
    dsimp only
    split
    · next root =>
      obtain ⟨nothing, absolute⟩ := Bool.and_eq_true_iff.mp root
      obtain ⟨next, others, spelled⟩ := (isAbsolute_iff path).mp absolute
      cases (List.cons.inj (split.symm.trans spelled)).1
      rw [List.isEmpty_iff.mp nothing] at same
      rw [components_eq path, lead, if_pos absolute, ← same]
      rfl
    · next other =>
      have spelled := pieces_intercalate (List.cons_ne_nil first _) plain
      have absolute : isAbsolute ("/".intercalate (first :: trimIdle rest)) = isAbsolute path := by
        rw [Bool.eq_iff_iff, isAbsolute_iff, isAbsolute_iff, spelled, split]
        constructor
        · rintro ⟨next, others, same⟩
          obtain ⟨rfl, kept⟩ := List.cons.inj same
          obtain ⟨tail, others, spelled⟩ := List.exists_cons_of_ne_nil (l := rest) (by
            rintro rfl
            cases kept)
          exact ⟨tail, others, by rw [spelled]⟩
        · rintro ⟨next, others, same⟩
          obtain ⟨rfl, rfl⟩ := List.cons.inj same
          have root : isAbsolute path = true := (isAbsolute_iff path).mpr ⟨next, others, split⟩
          cases kept : trimIdle (next :: others) with
          | nil => simp [kept, root] at other
          | cons tail others => exact ⟨tail, others, rfl⟩
      have front : (pieces path).head? = some first := by rw [split]; rfl
      rw [components_eq, components_eq path, lead, lead, spelled, absolute, front, same]
      rfl

theorem walk_eq_some {steps : List Component} {parts rest : List String} (walked : walk steps parts = some rest) :
    stepsOf parts = steps ++ stepsOf rest ∧ rest ⊆ parts := by
  induction parts generalizing steps with
  | nil =>
    cases steps with
    | nil =>
      cases walked
      exact ⟨rfl, List.Subset.refl _⟩
    | cons => cases walked
  | cons piece parts ih =>
    cases steps with
    | nil =>
      cases walked
      exact ⟨rfl, List.Subset.refl _⟩
    | cons step steps =>
      rw [walk] at walked
      split at walked
      · next idle =>
        obtain ⟨same, within⟩ := ih walked
        refine ⟨?_, List.subset_cons_of_subset _ within⟩
        rw [← same, stepsOf, List.filter_cons_of_neg (by simpa using idle)]
        rfl
      · next busy =>
        split at walked
        · next here =>
          obtain ⟨same, within⟩ := ih walked
          refine ⟨?_, List.subset_cons_of_subset _ within⟩
          rw [stepsOf, List.filter_cons_of_pos (by simpa using busy), List.map_cons, here, List.cons_append, ← same]
          rfl
        · cases walked

/-- The rest of a path has the steps that are left. -/
theorem components_relativeTo? {path base relative : String} (rest : relativeTo? path base = some relative) :
    components path = components base ++ components relative := by
  have behind : ∀ {front steps : List Component}, lead path = front →
      (walk steps (pieces path)).map ofPieces = some relative →
      components path = front ++ steps ++ components relative := by
    rintro front steps leads walked
    obtain ⟨parts, found, rfl⟩ := Option.map_eq_some_iff.mp walked
    obtain ⟨same, within⟩ := walk_eq_some found
    rw [components_eq path, leads, same, components_ofPieces ((slashless_pieces path).subset within), List.append_assoc]
  rw [relativeTo?] at rest
  split at rest
  · next nothing =>
    cases rest
    rw [nothing, components_trimmed, List.nil_append]
  · next steps spelled absolute =>
    rw [spelled]
    exact behind (by rw [lead, if_pos absolute]) rest
  · cases rest
  · cases rest
  · next steps spelled relative =>
    split at rest
    · next dot =>
      rw [spelled]
      exact behind (by rw [lead, relative, if_neg Bool.false_ne_true, if_pos dot]) rest
    · cases rest
  · next steps relative _ _ _ =>
    split at rest
    · cases rest
    · next name =>
      have nothing : lead path = [] := by rw [lead, relative, if_neg Bool.false_ne_true, if_neg name]
      exact behind nothing rest

theorem name_ne_nil {path name : String} (member : Component.name name ∈ components path) : name.toList ≠ [] := by
  rw [components_eq, List.mem_append] at member
  rcases member with first | later
  · rw [lead] at first
    split at first
    · simp at first
    split at first <;> simp at first
  · obtain ⟨piece, among, spelled⟩ := List.mem_map.mp later
    have busy := (List.mem_filter.mp among).2
    rw [ofPiece] at spelled
    split at spelled
    · cases spelled
    · cases spelled
      intro nothing
      simp [isIdle, String.toList_eq_nil_iff.mp nothing] at busy

/-- A name is cut at its last dot, unless that is in front of it. -/
theorem splitName_cases (name : String) : splitName name = (name, none) ∨
    ∃ stem extension, stem ≠ [] ∧ splitName name = (String.ofList stem, some (String.ofList extension)) ∧
      name.toList = stem ++ '.' :: extension := by
  have whole := List.takeWhile_append_dropWhile (p := (· != '.')) (l := name.toList.reverse)
  have front := List.head?_dropWhile_not (· != '.') name.toList.reverse
  rw [splitName, List.span_eq_takeWhile_dropWhile]
  generalize name.toList.reverse.takeWhile (· != '.') = extension at whole
  cases rest : name.toList.reverse.dropWhile (· != '.') with
  | nil => exact .inl rfl
  | cons dot stem =>
    cases stem with
    | nil => exact .inl rfl
    | cons last stem =>
      rw [rest] at whole front
      obtain rfl : dot = '.' := by simpa using front
      refine .inr ⟨(last :: stem).reverse, extension.reverse, by simp, rfl, ?_⟩
      rw [← List.reverse_reverse name.toList, ← whole, List.reverse_append, List.reverse_cons, List.append_assoc]
      rfl

theorem splitName_stem_ne_nil {name : String} (some : name.toList ≠ []) : (splitName name).1.toList ≠ [] := by
  rcases splitName_cases name with same | ⟨stem, extension, nonempty, same, -⟩
  · rwa [same]
  · rwa [same, String.toList_ofList]

/-- A name is its stem and its extension with a dot between them. -/
theorem splitName_eq {name extension : String} (ends : (splitName name).2 = some extension) :
    name = (splitName name).1 ++ "." ++ extension := by
  rcases splitName_cases name with same | ⟨stem, letters, -, same, spelled⟩
  · rw [same] at ends
    cases ends
  · rw [same] at ends ⊢
    cases ends
    rw [← String.toList_inj, spelled]
    simp

theorem components_of_fileName? {path name : String} (found : fileName? path = some name) :
    components path = parents path ++ [.name name] := by
  rw [fileName?] at found
  split at found
  · next text last =>
    cases found
    exact (List.dropLast_append_getLast? _ last).symm
  · cases found

end Path

namespace Layout

open SchemaDoc.Path

/-- Only a name can be a segment. -/
theorem eq_name_of_isSegment {step : Component} (segment : isSegment step.text = true) : step = .name step.text := by
  cases step with
  | name text => rfl
  | root | current | up =>
    revert segment
    decide

def IsPlacedAt (layout : Layout) (file : String) (parents : List String) (name : String) : Prop :=
  components file = components layout.sourceRoot ++ parents.map .name ++ [.name name]

theorem placed_of_modulePath? {layout : Layout} {file : String} {module : ModulePath}
    (implemented : layout.modulePath? file = some module) : ∃ parents name, layout.IsPlacedAt file parents name ∧
      module.segments = if (splitName name).1 = directoryStem then parents else parents ++ [(splitName name).1] := by
  rw [modulePath?] at implemented
  obtain ⟨relative, below, inner⟩ := Option.bind_eq_some_iff.mp implemented
  obtain ⟨stem, stemmed, last⟩ := Option.bind_eq_some_iff.mp inner
  obtain ⟨all, same⟩ := Option.ite_none_right_eq_some.mp last
  obtain ⟨name, named, rfl⟩ := Option.map_eq_some_iff.mp stemmed
  cases same
  have parents : ∀ parent ∈ (Path.parents relative).map Component.text, isSegment parent = true := by
    intro parent member
    refine List.all_eq_true.mp all parent ?_
    split
    · exact member
    · exact List.mem_append_left _ member
  refine ⟨(Path.parents relative).map Component.text, name, ?_, rfl⟩
  have names : ((Path.parents relative).map Component.text).map Component.name = Path.parents relative := by
    rw [List.map_map]
    conv_rhs => rw [← List.map_id (Path.parents relative)]
    refine List.map_congr_left fun step member => ?_
    exact (eq_name_of_isSegment (parents step.text (List.mem_map_of_mem member))).symm
  rw [IsPlacedAt, components_relativeTo? below, components_of_fileName? named, names, List.append_assoc]

theorem solid_of_modulePath? {layout : Layout} {file : String} {module : ModulePath}
    (implemented : layout.modulePath? file = some module) : module.Solid := by
  obtain ⟨parents, name, placed, segments⟩ := placed_of_modulePath? implemented
  have named : ∀ text, Component.name text ∈ parents.map Component.name ++ [.name name] → text.toList ≠ [] := by
    intro text member
    have onWay : Component.name text ∈ components file := by
      rw [placed, List.append_assoc]
      exact List.mem_append_right _ member
    exact name_ne_nil onWay
  have outer : ∀ parent ∈ parents, parent.toList ≠ [] := fun parent member =>
    named parent (List.mem_append_left _ (List.mem_map_of_mem member))
  intro segment member
  rw [segments] at member
  split at member
  · exact outer segment member
  · rcases List.mem_append.mp member with parent | own
    · exact outer segment parent
    · cases List.mem_singleton.mp own
      exact splitName_stem_ne_nil (named name (List.mem_append_right _ (List.mem_singleton_self _)))

/-- The two places of one module: a file beside the directory of its name, and one in it. -/
def Twins (layout : Layout) (beside within : String) : Prop :=
  ∃ place name, components beside = place ++ [.name (name ++ "." ++ layout.extension)] ∧
    components within = place ++ [.name name, .name (directoryStem ++ "." ++ layout.extension)]

/-- Documents of one module are one file, or stand in its two places. -/
theorem twins_of_modulePath? {layout : Layout} {file other : String} {module : ModulePath}
    (implemented : layout.modulePath? file = some module) (implemented' : layout.modulePath? other = some module)
    (document : layout.hasExtension file = true) (document' : layout.hasExtension other = true) :
    components file = components other ∨ layout.Twins file other ∨ layout.Twins other file := by
  have named : ∀ {file parents name}, layout.IsPlacedAt file parents name → layout.hasExtension file = true →
      name = (splitName name).1 ++ "." ++ layout.extension := by
    intro file parents name placed document
    have last : fileName? file = some name := by rw [fileName?, placed, List.getLast?_concat]
    rw [hasExtension, extension?, last, Option.bind_some, beq_iff_eq] at document
    exact splitName_eq document
  obtain ⟨parents, name, placed, segments⟩ := placed_of_modulePath? implemented
  obtain ⟨parents', name', placed', segments'⟩ := placed_of_modulePath? implemented'
  have spelled := named placed document
  have spelled' := named placed' document'
  rw [segments] at segments'
  have twins : ∀ {beside within place stem name directory}, layout.IsPlacedAt beside place name →
      layout.IsPlacedAt within directory stem → stem = directoryStem ++ "." ++ layout.extension →
      directory = place ++ [(splitName name).1] → name = (splitName name).1 ++ "." ++ layout.extension →
      layout.Twins beside within := by
    intro beside within place stem name directory outer inner stemmed lies spelled
    refine ⟨components layout.sourceRoot ++ place.map .name, (splitName name).1, ?_, ?_⟩
    · rw [outer, ← spelled]
    · rw [inner, lies, stemmed]
      simp
  split at segments'
  · next stem =>
    split at segments'
    · next stem' =>
      left
      rw [placed, placed', segments', spelled, spelled', stem, stem']
    · exact .inr (.inr (twins placed' placed (stem ▸ spelled) segments' spelled'))
  · split at segments'
    · next stem' => exact .inr (.inl (twins placed placed' (stem' ▸ spelled') segments'.symm spelled))
    · obtain ⟨same, last⟩ := List.append_inj' segments' rfl
      left
      rw [placed, placed', same, spelled, spelled', (List.cons.inj last).1]

end Layout

end SchemaDoc
