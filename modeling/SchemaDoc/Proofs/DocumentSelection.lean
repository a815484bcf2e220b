import Mathlib.Data.String.Basic
import SchemaDoc.Command.Selection
import SchemaDoc.Proofs.FilePaths
import SchemaDoc.Proofs.OrderIndependence
import SchemaDoc.Proofs.UriRoundTrip

/-! Documents that arguments pick. A directory is found by its steps, so that it picks the same documents however it is
spelled. Anything else stands for the uri of its own spelling: it picks a registered document only where it is spelled
as the document was when it was registered. -/

namespace SchemaDoc

open SchemaDoc.Path

namespace Workspace

theorem sorted_insertUri {uri : String} {uris : List String} (sorted : uris.Pairwise (· < ·)) :
    (Scope.insertUri uri uris).Pairwise (· < ·) := by
  induction uris with
  | nil => simp [Scope.insertUri]
  | cons first rest ih =>
    obtain ⟨below, others⟩ := List.pairwise_cons.mp sorted
    rw [Scope.insertUri]
    split
    · next less =>
      have less := compare_lt_iff_lt.mp less
      refine List.pairwise_cons.mpr ⟨fun other member => ?_, sorted⟩
      rcases List.mem_cons.mp member with rfl | later
      · exact less
      · exact less.trans (below other later)
    · exact sorted
    · next greater =>
      refine List.pairwise_cons.mpr ⟨fun other member => ?_, ih others⟩
      rcases Scope.mem_insertUri.mp member with rfl | later
      · exact compare_gt_iff_gt.mp greater
      · exact below other later

theorem sorted_sortedUnique (uris : List String) : (sortedUnique uris).Pairwise (· < ·) := by
  rw [sortedUnique]
  induction uris using List.reverseRecOn with
  | nil => exact .nil
  | append_singleton uris uri ih =>
    rw [List.foldl_append]
    exact sorted_insertUri ih

end Workspace

namespace FileTree

variable {files : FileTree} {path other : String}

theorem isDirectory_eq : files.isDirectory path = (files.resolve? path).any files.isDirectoryAt := by
  rw [isDirectory, get?]
  cases files.resolve? path with
  | none => rfl
  | some names =>
    rw [Option.bind_some, Option.any_some, isDirectoryAt]
    cases files.find? names with
    | none => rfl
    | some entry =>
      cases entry with
      | directory => rfl
      | file content => cases namesDirectory path <;> rfl

theorem isDirectory_congr (same : components path = components other) : files.isDirectory path = files.isDirectory other := by
  rw [isDirectory_eq, isDirectory_eq, resolve?, resolve?, same]

end FileTree

namespace Selection

variable {files : FileTree} {registered : List String} {root path other : String}

theorem isBelow_iff {directory : String} : isBelow directory path = true ↔ components directory <+: components path :=
  List.isPrefixOf_iff_prefix

theorem documentsAt_of_directory (isDirectory : files.isDirectory (join root path) = true) :
    documentsAt files registered root path = registered.filter fun uri => isBelow (join root path) (Uri.toPath uri) :=
  if_pos isDirectory

theorem documentsAt_of_other (other : files.isDirectory (join root path) = false) :
    documentsAt files registered root path = [Uri.ofPath (join root path)] :=
  if_neg (other ▸ Bool.false_ne_true)

/-- A directory picks what it picks under any spelling. -/
theorem documentsAt_congr (same : components (join root path) = components (join root other))
    (isDirectory : files.isDirectory (join root path) = true) :
    documentsAt files registered root path = documentsAt files registered root other := by
  have also := (FileTree.isDirectory_congr same).symm.trans isDirectory
  rw [documentsAt_of_directory isDirectory, documentsAt_of_directory also]
  refine List.filter_congr fun uri _ => ?_
  rw [Bool.eq_iff_iff, isBelow_iff, isBelow_iff, same]

theorem documents_of_other (other : files.isDirectory (join root path) = false) :
    documents files registered root [path] = [Uri.ofPath (join root path)] := by
  rw [documents, List.flatMap_singleton, documentsAt_of_other other]
  rfl

/-- What arguments pick is in order and without repetitions. To spell an argument in another way makes no difference
exactly where it is a directory or stays the same text behind the root. A directory picks the registered documents
below it, and what is no directory picks the document of a file exactly where it is spelled as that file. -/
theorem documents_by_place (files : FileTree) (registered : List String) (root : String) :
    (∀ paths, (documents files registered root paths).Pairwise (· < ·)) ∧
    (∀ path other, components (join root path) = components (join root other) →
      ((∀ before after, documents files registered root (before ++ path :: after) =
          documents files registered root (before ++ other :: after)) ↔
        files.isDirectory (join root path) = true ∨ join root path = join root other)) ∧
    (∀ path, files.isDirectory (join root path) = true → ∀ uri, uri ∈ documents files registered root [path] ↔
      uri ∈ registered ∧ components (join root path) <+: components (Uri.toPath uri)) ∧
    ∀ path file, components (join root path) = components file → files.isDirectory file = false →
      (documents files registered root [path] = [Uri.ofPath file] ↔ join root path = file) := by
  refine ⟨fun paths => Workspace.sorted_sortedUnique _, fun path other same => ?_, fun path isDirectory uri => ?_,
    fun path file same isFile => ?_⟩
  · constructor
    · intro alike
      cases isDirectory : files.isDirectory (join root path) with
      | true => exact .inl rfl
      | false =>
        have alone := alike [] []
        rw [List.nil_append, List.nil_append, documents_of_other isDirectory,
          documents_of_other ((FileTree.isDirectory_congr same).symm.trans isDirectory)] at alone
        exact .inr (Uri.ofPath_injective (List.cons.inj alone).1)
    · intro spelled before after
      have alike : documentsAt files registered root path = documentsAt files registered root other := by
        rcases spelled with isDirectory | text
        · exact documentsAt_congr same isDirectory
        · rw [documentsAt, documentsAt, text]
      simp only [documents, List.flatMap_append, List.flatMap_cons, alike]
  · rw [documents, List.flatMap_singleton, Workspace.mem_sortedUnique, documentsAt_of_directory isDirectory,
      List.mem_filter, isBelow_iff]
  · rw [documents_of_other ((FileTree.isDirectory_congr same).trans isFile), List.cons.injEq]
    exact ⟨fun picked => Uri.ofPath_injective picked.1, fun text => ⟨congrArg Uri.ofPath text, rfl⟩⟩

/-- A project with a document beside a directory that holds another one. -/
def pairOfPlaces : FileTree :=
  ⟨[(["project"], .directory), (["project", "a.sdoc"], .file ⟨#[]⟩), (["project", "b"], .directory),
    (["project", "b", "c.sdoc"], .file ⟨#[]⟩)]⟩

/-- The directory is spelled in two ways, and the document from the root of all files. -/
theorem documents_by_place_respelled :
    let registered := ["file:///project/a.sdoc", "file:///project/b/c.sdoc"]
    (components (join "/project" "./b") = components (join "/project" "b//") ∧
      pairOfPlaces.isDirectory (join "/project" "./b") = true ∧
      components (join "/project" "/project/a.sdoc") = components "/project/a.sdoc" ∧
      pairOfPlaces.isDirectory "/project/a.sdoc" = false) ∧
    (∀ before after, documents pairOfPlaces registered "/project" (before ++ "./b" :: after) =
      documents pairOfPlaces registered "/project" (before ++ "b//" :: after)) ∧
    "file:///project/b/c.sdoc" ∈ documents pairOfPlaces registered "/project" ["./b"] ∧
    "file:///project/a.sdoc" ∉ documents pairOfPlaces registered "/project" ["./b"] ∧
    documents pairOfPlaces registered "/project" ["/project/a.sdoc"] = [Uri.ofPath "/project/a.sdoc"] := by
  intro registered
  have steps : components (join "/project" "./b") = components (join "/project" "b//") := by decide +kernel
  have isDirectory : pairOfPlaces.isDirectory (join "/project" "./b") = true := by decide +kernel
  have whole : components (join "/project" "/project/a.sdoc") = components "/project/a.sdoc" := by decide +kernel
  have isFile : pairOfPlaces.isDirectory "/project/a.sdoc" = false := by decide +kernel
  obtain ⟨-, respelled, directory, file⟩ := documents_by_place pairOfPlaces registered "/project"
  refine ⟨⟨steps, isDirectory, whole, isFile⟩, (respelled _ _ steps).mpr (.inl isDirectory),
    (directory _ isDirectory _).mpr ⟨by decide, by decide +kernel⟩, ?_, (file _ _ whole isFile).mpr rfl⟩
  intro picked
  have below : components (join "/project" "./b") <+: components (Uri.toPath "file:///project/a.sdoc") :=
    ((directory _ isDirectory _).mp picked).2
  revert below
  decide +kernel

/-- A registered document that is spelled with a step to where it stands is picked under a uri that is not registered,
and picked twice where it is also spelled as it was registered. -/
theorem respelled_document_picked_apart :
    let registered := ["file:///project/a.sdoc"]
    components (join "/project" "./a.sdoc") = components (join "/project" "a.sdoc") ∧
    documents pairOfPlaces registered "/project" ["a.sdoc"] = ["file:///project/a.sdoc"] ∧
    documents pairOfPlaces registered "/project" ["./a.sdoc"] = ["file:///project/./a.sdoc"] ∧
    documents pairOfPlaces registered "/project" ["a.sdoc", "./a.sdoc"] ≠
      documents pairOfPlaces registered "/project" ["a.sdoc", "a.sdoc"] := by
  decide +kernel

end Selection

end SchemaDoc
