import SchemaDoc.Storage.FileTree
import SchemaDoc.Text.Uri

/-!
Documents by uri. A document that an editor has open hides the file; a file that was read is kept,
as version zero, until it is forgotten or opened.
-/

namespace SchemaDoc

structure TextDocument where
  uri : String
  version : Int
  text : String
  deriving DecidableEq, Repr, Inhabited

def TextDocument.languageId : String := "schemata"

def TextDocument.lineCount (document : TextDocument) : Nat :=
  document.text.toList.countP (· == '\n') + 1

/-- Why a document cannot be had. -/
inductive DocumentError where
  | notOpen (uri : String)
  | notFound (uri : String)
  | tooLarge (uri : String) (sizeMb limitMb : Nat)
  deriving DecidableEq, Repr

def DocumentError.message : DocumentError → String
  | notOpen uri => "There is no TextDocument corresponding to '" ++ uri ++ "'"
  | notFound uri => "URI does not exist: '" ++ uri ++ "'"
  | tooLarge uri sizeMb limitMb =>
    "File too large (" ++ toString sizeMb ++ "MB > " ++ toString limitMb ++ "MB limit): " ++ uri

def bytesPerMb : Nat := 1024 * 1024

/-- The documents that are open and those read from files, each at most once by uri. -/
structure Documents where
  opened : List TextDocument := []
  cached : List TextDocument := []
  deriving Inhabited, Repr

namespace Documents

def find? (documents : List TextDocument) (uri : String) : Option TextDocument :=
  documents.find? fun document => document.uri == uri

def without (documents : List TextDocument) (uri : String) : List TextDocument :=
  documents.filter fun document => document.uri != uri

def getOpen? (documents : Documents) (uri : String) : Option TextDocument :=
  find? documents.opened uri

def isOpen (documents : Documents) (uri : String) : Bool := (documents.getOpen? uri).isSome

/-- Open a document; a copy read from its file is dropped. -/
def openText (documents : Documents) (uri : String) (version : Int) (text : String) : Documents :=
  { opened := ⟨uri, version, text⟩ :: without documents.opened uri
    cached := without documents.cached uri }

/-- Replace the text of an open document. -/
def change (documents : Documents) (uri : String) (version : Int) (text : String) :
    Except DocumentError Documents :=
  if documents.isOpen uri then
    .ok { documents with opened := ⟨uri, version, text⟩ :: without documents.opened uri }
  else .error (.notOpen uri)

def close (documents : Documents) (uri : String) : Documents :=
  { documents with opened := without documents.opened uri }

/-- Drop the copy read from a file. -/
def forget (documents : Documents) (uri : String) : Documents :=
  { documents with cached := without documents.cached uri }

/-- Read a file as a document, unless it has more than `limit` bytes. -/
def fetch (files : FileTree) (limit : Nat) (uri : String) : Except DocumentError TextDocument :=
  match files.content? (Uri.toPath uri) with
  | none => .error (.notFound uri)
  | some content =>
    if limit < content.size then
      .error (.tooLarge uri (content.size / bytesPerMb) (limit / bytesPerMb))
    else
      match String.fromUTF8? content with
      | some text => .ok ⟨uri, 0, text⟩
      | none => .error (.notFound uri)

/-- The document of a uri, and the documents with what was read on the way. -/
def read (documents : Documents) (files : FileTree) (limit : Nat) (uri : String) :
    Except DocumentError (TextDocument × Documents) :=
  match documents.getOpen? uri with
  | some document => .ok (document, documents)
  | none =>
    match find? documents.cached uri with
    | some document => .ok (document, documents)
    | none =>
      (fetch files limit uri).map fun document =>
        (document, { documents with cached := document :: documents.cached })

end Documents

end SchemaDoc
