import SchemaDoc.Storage.Documents

/-!
Providers: where the documents of a project come from. The one at hand has what is open first, then what
was kept, and reads files last.
-/

namespace SchemaDoc

namespace Documents

theorem find?_uri {documents : List TextDocument} {uri : String} {document : TextDocument}
    (found : find? documents uri = some document) : document.uri = uri := by
  simpa using List.find?_some found

theorem fetch_uri {files : FileTree} {limit : Nat} {uri : String} {document : TextDocument}
    (fetched : fetch files limit uri = .ok document) : document.uri = uri := by
  unfold fetch at fetched
  cases found : files.content? (Uri.toPath uri) with
  | none =>
    simp only [found] at fetched
    cases fetched
  | some content =>
    simp only [found] at fetched
    by_cases large : limit < content.size
    · simp only [large, if_true] at fetched
      cases fetched
    · simp only [large, if_false] at fetched
      cases decoded : String.fromUTF8? content with
      | none =>
        simp only [decoded] at fetched
        cases fetched
      | some text =>
        simp only [decoded] at fetched
        cases fetched
        rfl

/-- The document that is open or kept. -/
def held? (documents : Documents) (uri : String) : Option TextDocument :=
  (documents.getOpen? uri).or (find? documents.cached uri)

theorem held?_uri {documents : Documents} {uri : String} {document : TextDocument}
    (held : documents.held? uri = some document) : document.uri = uri := by
  rcases Option.or_eq_some_iff.mp held with opened | ⟨-, cached⟩
  · exact find?_uri opened
  · exact find?_uri cached

theorem read_eq (documents : Documents) (files : FileTree) (limit : Nat) (uri : String) :
    documents.read files limit uri =
      match documents.held? uri with
      | some document => .ok (document, documents)
      | none => (fetch files limit uri).map fun document =>
          (document, { documents with cached := document :: documents.cached }) := by
  rw [read, held?]
  cases documents.getOpen? uri with
  | some document => rfl
  | none => cases find? documents.cached uri <;> rfl

/-- The answer is determined by what is open and what is kept. -/
theorem read_fst (documents : Documents) (files : FileTree) (limit : Nat) (uri : String) :
    (documents.read files limit uri).map Prod.fst =
      match documents.held? uri with
      | some document => .ok document
      | none => fetch files limit uri := by
  rw [read_eq]
  cases documents.held? uri with
  | some document => rfl
  | none => cases fetch files limit uri <;> rfl

theorem held?_keep (documents : Documents) (document : TextDocument) (other : String) :
    ({ documents with cached := document :: documents.cached } : Documents).held? other =
      if document.uri = other then (documents.getOpen? other).or (some document) else documents.held? other := by
  simp only [held?, getOpen?, find?, List.find?_cons]
  by_cases same : document.uri = other
  · simp [same]
  · simp [same, beq_false_of_ne same]

theorem read_uri {documents after : Documents} {files : FileTree} {limit : Nat} {uri : String} {document : TextDocument}
    (found : documents.read files limit uri = .ok (document, after)) : document.uri = uri := by
  have answer := read_fst documents files limit uri
  rw [found] at answer
  cases held : documents.held? uri with
  | some known =>
    rw [held] at answer
    cases answer
    exact held?_uri held
  | none =>
    rw [held] at answer
    exact fetch_uri answer.symm

/-- Keeping what was read does not change any answer. -/
theorem read_after {documents after : Documents} {files : FileTree} {limit : Nat} {uri : String}
    {document : TextDocument} (found : documents.read files limit uri = .ok (document, after)) (other : String) :
    (after.read files limit other).map Prod.fst = (documents.read files limit other).map Prod.fst := by
  rw [read_eq] at found
  cases held : documents.held? uri with
  | some known =>
    rw [held] at found
    cases found
    rfl
  | none =>
    rw [held] at found
    cases fetched : fetch files limit uri with
    | error failure =>
      rw [fetched] at found
      cases found
    | ok known =>
      rw [fetched] at found
      cases found
      have named := fetch_uri fetched
      rw [read_fst, read_fst, held?_keep]
      by_cases same : uri = other
      · subst same
        have closed := (Option.or_eq_none_iff.mp held).1
        simp only [named, if_true, closed, held, fetched, Option.none_or]
      · rw [if_neg (named ▸ same)]

end Documents

/-- A way to read documents, which may keep what it reads. -/
structure Provider where
  read : Documents → FileTree → Nat → String → Except DocumentError (TextDocument × Documents)
  /-- A document is given under the uri that was asked for. -/
  read_uri : ∀ {documents after files limit uri document},
    read documents files limit uri = .ok (document, after) → document.uri = uri
  /-- What is given does not depend on what was read before. -/
  read_after : ∀ {documents after files limit uri document},
    read documents files limit uri = .ok (document, after) → ∀ other,
      (read after files limit other).map Prod.fst = (read documents files limit other).map Prod.fst

/-- What an editor has open, and files. -/
def Provider.documents : Provider where
  read := Documents.read
  read_uri := Documents.read_uri
  read_after := Documents.read_after

end SchemaDoc
