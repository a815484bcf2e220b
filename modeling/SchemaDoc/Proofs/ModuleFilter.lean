import SchemaDoc.Command.Selection
import SchemaDoc.Proofs.ModuleNames

/-! The filter by module. It compares letters: the key with the flat form of the module and a separator behind
it. What it finds is that the segments of the module come first among the segments of the key, since in a flat
form of names a separator stands nowhere but between two of them. -/

namespace SchemaDoc

namespace ModulePath

theorem separator_toList : separator.toList = [':', ':'] := rfl

def Named (pieces : List (List Char)) : Prop := ∀ piece ∈ pieces, piece ≠ [] ∧ ':' ∉ piece

theorem Named.no_colon {pieces : List (List Char)} (named : Named pieces) (rest : List Char) :
    separator.toList.intercalate pieces ≠ ':' :: rest := by
  intro same
  cases pieces with
  | nil => cases same
  | cons piece pieces =>
    obtain ⟨some, plain⟩ := named piece List.mem_cons_self
    obtain ⟨char, others, rfl⟩ := List.exists_cons_of_ne_nil some
    have begins : ∃ further, separator.toList.intercalate ((char :: others) :: pieces) = char :: further := by
      cases pieces with
      | nil => exact ⟨others, List.intercalate_singleton⟩
      | cons next pieces => exact ⟨_, List.intercalate_cons_cons⟩
    obtain ⟨further, begins⟩ := begins
    obtain ⟨rfl, _⟩ := List.cons.inj (begins.symm.trans same)
    exact plain List.mem_cons_self

/-- A separator in a text that begins with a name and a separator is that one, or it stands behind it. -/
theorem separator_behind {piece rest before behind : List Char} (plain : ':' ∉ piece)
    (noColon : ∀ others, rest ≠ ':' :: others)
    (same : piece ++ separator.toList ++ rest = before ++ separator.toList ++ behind) :
    before = piece ∨
    ∃ further, before = piece ++ separator.toList ++ further ∧ rest = further ++ separator.toList ++ behind := by
  simp only [separator_toList, List.append_assoc, List.cons_append, List.nil_append] at same ⊢
  rcases List.append_eq_append_iff.mp same with ⟨more, rfl, later⟩ | ⟨more, rfl, later⟩
  · rcases more with _ | ⟨first, _ | ⟨second, further⟩⟩
    · exact .inl (List.append_nil piece)
    · simp only [List.cons_append, List.nil_append, List.cons.injEq, true_and] at later
      exact absurd later.2 (noColon behind)
    · simp only [List.cons_append, List.cons.injEq] at later
      obtain ⟨rfl, rfl, later⟩ := later
      exact .inr ⟨further, rfl, later⟩
  · rcases more with _ | ⟨first, further⟩
    · exact .inl (List.append_nil before).symm
    · obtain ⟨rfl, _⟩ := List.cons.inj later
      exact absurd (List.mem_append_right before List.mem_cons_self) plain

theorem Named.split {pieces : List (List Char)} (named : Named pieces) {before behind : List Char}
    (same : separator.toList.intercalate pieces = before ++ separator.toList ++ behind) :
    ∃ first second, first ≠ [] ∧ pieces = first ++ second ∧ before = separator.toList.intercalate first := by
  induction pieces generalizing before with
  | nil => simp [separator_toList] at same
  | cons piece pieces ih =>
    obtain ⟨⟨_, plain⟩, others⟩ := List.forall_mem_cons.mp named
    cases pieces with
    | nil =>
      rw [List.intercalate_singleton] at same
      exact absurd (by simp [same, separator_toList]) plain
    | cons next pieces =>
      rw [List.intercalate_cons_cons] at same
      rcases separator_behind plain (Named.no_colon others) same with rfl | ⟨further, rfl, inside⟩
      · exact ⟨[before], next :: pieces, List.cons_ne_nil _ _, rfl, List.intercalate_singleton.symm⟩
      · obtain ⟨first, second, some, parts, joined⟩ := ih others inside
        refine ⟨piece :: first, second, List.cons_ne_nil _ _, congrArg (piece :: ·) parts, ?_⟩
        obtain ⟨head, tail, rfl⟩ := List.exists_cons_of_ne_nil some
        rw [joined, List.intercalate_cons_cons]

theorem named_of_identifiers {path : ModulePath} (identifiers : ∀ segment ∈ path.segments, IsIdentifier segment) :
    Named (path.segments.map String.toList) := by
  intro piece member
  obtain ⟨segment, among, rfl⟩ := List.mem_map.mp member
  exact ⟨(identifiers segment among).toList_ne_nil, (identifiers segment among).isPlain⟩

theorem parse_display_of_identifiers {path : ModulePath}
    (identifiers : ∀ segment ∈ path.segments, IsIdentifier segment) : parse path.display = path :=
  parse_display_of_solid (fun segment among => (identifiers segment among).isPlain)
    fun segment among => (identifiers segment among).toList_ne_nil

theorem display_toList (path : ModulePath) :
    path.display.toList = separator.toList ++ separator.toList.intercalate (path.segments.map String.toList) := by
  rw [display, String.toList_append, String.toList_intercalate]

theorem display_append {first second : List String} (some : first ≠ []) (more : second ≠ []) :
    ((ModulePath.mk first).display ++ separator).toList <+: (ModulePath.mk (first ++ second)).display.toList := by
  obtain ⟨next, others, rfl⟩ := List.exists_cons_of_ne_nil more
  rw [String.toList_append, display_toList, display_toList, List.append_assoc]
  refine List.prefix_append_right_inj _ |>.mpr ?_
  clear more
  induction first with
  | nil => exact absurd rfl some
  | cons segment first ih =>
    cases first with
    | nil =>
      refine ⟨separator.toList.intercalate ((next :: others).map String.toList), ?_⟩
      simp [List.intercalate_cons_cons]
    | cons second first =>
      have inner := ih (List.cons_ne_nil _ _)
      simp only [List.map_cons, List.cons_append, List.intercalate_cons_cons, List.append_assoc] at inner ⊢
      exact (List.prefix_append_right_inj _).mpr ((List.prefix_append_right_inj _).mpr inner)

end ModulePath

namespace Selection
open ModulePath

theorem isInModule_iff_letters {module : ModulePath} {key : String} :
    isInModule module key = true ↔
      module.segments = [] ∨ key = module.display ∨ (module.display ++ separator).toList <+: key.toList := by
  simp only [isInModule, isRoot, Bool.or_eq_true, List.isEmpty_iff, beq_iff_eq, List.isPrefixOf_iff_prefix, or_assoc]

theorem isInModule_of_prefix {module path : ModulePath} (first : module.segments <+: path.segments) :
    isInModule module path.display = true := by
  obtain ⟨rest, parts⟩ := first
  rw [isInModule_iff_letters]
  by_cases top : module.segments = []
  · exact .inl top
  by_cases same : rest = []
  · have equal : path = module := by
      cases path
      cases module
      simpa [same] using parts.symm
    exact .inr (.inl (congrArg display equal))
  · have equal : path = ModulePath.mk (module.segments ++ rest) := by
      cases path
      simpa using parts.symm
    rw [equal]
    exact .inr (.inr (display_append top same))

/-- Conversely for a module that is told by its flat form, when the key consists of names. -/
theorem prefix_of_isInModule {module path : ModulePath} (told : ModulePath.parse module.display = module)
    (identifiers : ∀ segment ∈ path.segments, IsIdentifier segment)
    (inside : isInModule module path.display = true) : module.segments <+: path.segments := by
  rcases isInModule_iff_letters.mp inside with top | same | ⟨behind, begins⟩
  · rw [top]
    exact List.nil_prefix
  · have equal : path = module := by rw [← parse_display_of_identifiers identifiers, same, told]
    subst equal
    exact List.prefix_rfl
  · simp only [String.toList_append, display_toList, List.append_assoc] at begins
    have inner := List.append_cancel_left begins
    rw [← List.append_assoc] at inner
    obtain ⟨first, second, _, parts, joined⟩ := (named_of_identifiers identifiers).split inner.symm
    obtain ⟨front, back, segments, rfl, _⟩ := List.map_eq_append_iff.mp parts
    have same : module.display = (ModulePath.mk front).display := by
      apply String.toList_injective
      rw [display_toList, display_toList, joined]
    have inFront : ∀ segment ∈ front, IsIdentifier segment := by
      intro segment among
      refine identifiers segment ?_
      rw [segments]
      exact List.mem_append_left back among
    have equal : module = ModulePath.mk front := by
      rw [← told, same]
      exact parse_display_of_identifiers inFront
    rw [equal, segments]
    exact List.prefix_append front back

/-- The filter by module is one by segments: whatever text names the module, a key of names lies inside exactly
when the segments of the module come first among those of the key. -/
theorem isInModule_iff_prefix (path : ModulePath) (identifiers : ∀ segment ∈ path.segments, IsIdentifier segment)
    (text : String) :
    isInModule (ModulePath.parse text) path.display = true ↔
      (ModulePath.parse text).segments <+: (ModulePath.parse path.display).segments := by
  rw [parse_display_of_identifiers identifiers]
  exact ⟨prefix_of_isInModule (parse_display_parse text) identifiers, isInModule_of_prefix⟩

/-- The module `a`, spelled without its separator and with one too many, has `::a::b` inside; `::ab` is a sibling
that begins with the same letter, and the module of a third colon has neither. -/
theorem isInModule_iff_prefix_siblings :
    (∀ segment ∈ ["a", "b"], IsIdentifier segment) ∧ (∀ segment ∈ ["ab"], IsIdentifier segment) ∧
    isInModule (ModulePath.parse "a::") (ModulePath.mk ["a", "b"]).display = true ∧
    isInModule (ModulePath.parse "a") (ModulePath.mk ["ab"]).display = false ∧
    isInModule (ModulePath.parse "a:::") (ModulePath.mk ["a", "b"]).display = false := by
  have a : IsIdentifier "a" := ⟨'a', [], by decide, by decide, by simp⟩
  have b : IsIdentifier "b" := ⟨'b', [], by decide, by decide, by simp⟩
  have ab : IsIdentifier "ab" := ⟨'a', ['b'], by decide, by decide, by simp; decide⟩
  have inner : ∀ segment ∈ ["a", "b"], IsIdentifier segment := by simp [a, b]
  have sibling : ∀ segment ∈ ["ab"], IsIdentifier segment := by simp [ab]
  have nested := isInModule_iff_prefix ⟨["a", "b"]⟩ inner
  have beside := isInModule_iff_prefix ⟨["ab"]⟩ sibling
  refine ⟨inner, sibling, (nested "a::").mpr (by decide), ?_, ?_⟩
  · exact Bool.eq_false_iff.mpr fun inside => absurd ((beside "a").mp inside) (by decide)
  · exact Bool.eq_false_iff.mpr fun inside => absurd ((nested "a:::").mp inside) (by decide)

end Selection

end SchemaDoc
