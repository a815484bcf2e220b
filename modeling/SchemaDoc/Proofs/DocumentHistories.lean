import SchemaDoc.Proofs.LoadSteps

/-! What documents answer after any history. Editors open, change and close documents, files are read and
forgotten, and the disk changes without notice. The answer for a uri is told from the history alone, by
what happened since it was opened, written or dropped the last time. -/

namespace SchemaDoc.Documents

/-- What happens to documents, and to the files around them. -/
inductive Event where
  | opens (uri : String) (version : Int) (text : String)
  | changes (uri : String) (version : Int) (text : String)
  | closes (uri : String)
  | forgets (uri : String)
  | reads (uri : String)
  | disk (files : FileTree)

structure Scene where
  documents : Documents
  files : FileTree

namespace Scene

variable (limit : Nat)

def answer (scene : Scene) (uri : String) : Except DocumentError (TextDocument × Documents) :=
  scene.documents.read scene.files limit uri

/-- One event. An operation that fails leaves the documents as they are. -/
def step (scene : Scene) : Event → Scene
  | .opens uri version text => { scene with documents := scene.documents.openText uri version text }
  | .changes uri version text =>
    { scene with documents := (scene.documents.change uri version text).toOption.getD scene.documents }
  | .closes uri => { scene with documents := scene.documents.close uri }
  | .forgets uri => { scene with documents := scene.documents.forget uri }
  | .reads uri => { scene with documents := ((scene.answer limit uri).toOption.map Prod.snd).getD scene.documents }
  | .disk files => { scene with files }

/-- The scene after a history that began without documents. -/
def after (files : FileTree) (history : List Event) : Scene := history.foldl (step limit) ⟨{}, files⟩

theorem after_snoc (files : FileTree) (history : List Event) (event : Event) :
    after limit files (history ++ [event]) = (after limit files history).step limit event := by
  simp [after]

end Scene

namespace Event

def uri? : Event → Option String
  | opens uri _ _ | changes uri _ _ | closes uri | forgets uri | reads uri => some uri
  | disk _ => none

def files? : Event → Option FileTree
  | disk files => some files
  | _ => none

/-- Whether the event may matter for a uri: an operation on it, or a change of the disk. -/
def concerns (uri : String) (event : Event) : Bool := event.uri?.all (· == uri)

def Opens (uri : String) (event : Event) : Prop := ∃ version text, event = opens uri version text

def Writes (uri : String) (version : Int) (text : String) (event : Event) : Prop :=
  event = opens uri version text ∨ event = changes uri version text

/-- What was read of the document is given up. -/
def Drops (uri : String) (event : Event) : Prop := event.Opens uri ∨ event = forgets uri

end Event

/-- Some event started it, and none ended it since then. Whether an event starts it may depend on what
happened before. -/
def Since (starts : List Event → Event → Prop) (ends : Event → Prop) (history : List Event) : Prop :=
  ∃ before event after, history = before ++ event :: after ∧ starts before event ∧ ∀ later ∈ after, ¬ends later

def diskAfter (files : FileTree) (history : List Event) : FileTree := (history.filterMap Event.files?).getLastD files

def IsOpen (uri : String) : List Event → Prop := Since (fun _ => Event.Opens uri) (· = .closes uri)

/-- The last word of an editor on the document. -/
def LastWrite (uri : String) (version : Int) (text : String) : List Event → Prop :=
  Since (fun _ => Event.Writes uri version text) fun later => ∃ version text, later.Writes uri version text

/-- What there is on the disk for a uri: a text of at most `limit` bytes, or the reason why there is none. -/
inductive OnDisk (files : FileTree) (limit : Nat) (uri : String) : Except DocumentError String → Prop where
  | text {content text} (found : files.content? (Uri.toPath uri) = some content) (small : content.size ≤ limit)
      (decoded : String.fromUTF8? content = some text) : OnDisk files limit uri (.ok text)
  | missing (absent : files.content? (Uri.toPath uri) = none) : OnDisk files limit uri (.error (.notFound uri))
  | unreadable {content} (found : files.content? (Uri.toPath uri) = some content) (small : content.size ≤ limit)
      (garbled : String.fromUTF8? content = none) : OnDisk files limit uri (.error (.notFound uri))
  | tooLarge {content} (found : files.content? (Uri.toPath uri) = some content) (large : limit < content.size) :
      OnDisk files limit uri (.error (.tooLarge uri (content.size / bytesPerMb) (limit / bytesPerMb)))

section Reading

variable (limit : Nat) (files : FileTree) (uri : String)

/-- The event reads the document, which is not open, and the disk has a text for it. -/
def FindsOnDisk (text : String) (before : List Event) (event : Event) : Prop :=
  event = .reads uri ∧ ¬IsOpen uri before ∧ OnDisk (diskAfter files before) limit uri (.ok text)

/-- The text was found on the disk since the document was opened or forgotten the last time. -/
def FoundSince (text : String) : List Event → Prop := Since (FindsOnDisk limit files uri text) (Event.Drops uri)

/-- The first text that was found on the disk since then. -/
def FirstFound (text : String) : List Event → Prop :=
  Since (fun before event => FindsOnDisk limit files uri text before event ∧
    ¬∃ other, FoundSince limit files uri other before) (Event.Drops uri)

/-- What a document is after a history. An open one is what an editor said last. Of another one the first
text that was found since it was opened or forgotten counts; without one it is what the disk has now. -/
inductive Answers (history : List Event) : Except DocumentError TextDocument → Prop where
  | written {version text} (isOpen : IsOpen uri history) (last : LastWrite uri version text history) :
      Answers history (.ok ⟨uri, version, text⟩)
  | kept {text} (closed : ¬IsOpen uri history) (first : FirstFound limit files uri text history) :
      Answers history (.ok ⟨uri, 0, text⟩)
  | stored {outcome} (closed : ¬IsOpen uri history) (unread : ¬∃ text, FoundSince limit files uri text history)
      (onDisk : OnDisk (diskAfter files history) limit uri outcome) :
      Answers history (outcome.map fun text => ⟨uri, 0, text⟩)

end Reading

section Since

variable {starts : List Event → Event → Prop} {ends : Event → Prop} {history : List Event} {event : Event}

theorem not_since_nil : ¬Since starts ends [] := by
  rintro ⟨before, event, after, split, _⟩
  cases before <;> cases split

theorem since_snoc : Since starts ends (history ++ [event]) ↔
    starts history event ∨ Since starts ends history ∧ ¬ends event := by
  constructor
  · rintro ⟨before, first, after, split, started, goesOn⟩
    rcases List.eq_nil_or_concat after with rfl | ⟨init, last, rfl⟩
    · obtain ⟨rfl, same⟩ := List.append_inj' split rfl
      cases same
      exact .inl started
    · rw [List.concat_eq_append] at split goesOn
      have parts : history ++ [event] = (before ++ first :: init) ++ [last] := by simpa using split
      obtain ⟨rfl, same⟩ := List.append_inj' parts rfl
      cases same
      exact .inr ⟨⟨before, first, init, rfl, started, fun later member => goesOn later (by simp [member])⟩,
        goesOn _ (by simp)⟩
  · rintro (started | ⟨⟨before, first, after, rfl, started, goesOn⟩, notEnded⟩)
    · exact ⟨history, event, [], rfl, started, by simp⟩
    · refine ⟨before, first, after ++ [event], by simp, started, ?_⟩
      intro later member
      rcases List.mem_append.mp member with member | member
      · exact goesOn later member
      · exact List.mem_singleton.mp member ▸ notEnded

theorem Since.mono {others : List Event → Event → Prop} (since : Since starts ends history)
    (imp : ∀ before event, starts before event → others before event) : Since others ends history := by
  obtain ⟨before, event, after, split, started, goesOn⟩ := since
  exact ⟨before, event, after, split, imp before event started, goesOn⟩

end Since

theorem diskAfter_snoc (files : FileTree) (history : List Event) (event : Event) :
    diskAfter files (history ++ [event]) = event.files?.getD (diskAfter files history) := by
  rw [diskAfter, List.filterMap_append]
  cases found : event.files? with
  | none => simp [found, diskAfter]
  | some disk => simp [found]

theorem firstFound_of_found {limit : Nat} {files : FileTree} {uri : String} {history : List Event}
    (found : ∃ text, FoundSince limit files uri text history) : ∃ text, FirstFound limit files uri text history := by
  induction history using List.reverseRecOn with
  | nil =>
    obtain ⟨text, since⟩ := found
    exact absurd since not_since_nil
  | append_singleton history event ih =>
    obtain ⟨text, since⟩ := found
    rcases since_snoc.mp since with now | ⟨earlier, notDropped⟩
    · by_cases before : ∃ other, FoundSince limit files uri other history
      · obtain ⟨first, firstSince⟩ := ih before
        refine ⟨first, since_snoc.mpr (.inr ⟨firstSince, ?_⟩)⟩
        rw [now.1]
        rintro (⟨_, _, absurd⟩ | absurd) <;> cases absurd
      · exact ⟨text, since_snoc.mpr (.inl ⟨now, before⟩)⟩
    · obtain ⟨first, firstSince⟩ := ih ⟨text, earlier⟩
      exact ⟨first, since_snoc.mpr (.inr ⟨firstSince, notDropped⟩)⟩

theorem fetch_of_onDisk {files : FileTree} {limit : Nat} {uri : String} {outcome : Except DocumentError String}
    (onDisk : OnDisk files limit uri outcome) :
    fetch files limit uri = outcome.map fun text => ⟨uri, 0, text⟩ := by
  unfold fetch
  cases onDisk with
  | text found small decoded => simp only [found, if_neg (Nat.not_lt.mpr small), decoded, Except.map]
  | missing absent => simp only [absent, Except.map]
  | unreadable found small garbled => simp only [found, if_neg (Nat.not_lt.mpr small), garbled, Except.map]
  | tooLarge found large => simp only [found, if_pos large, Except.map]

theorem onDisk_total (files : FileTree) (limit : Nat) (uri : String) : ∃ outcome, OnDisk files limit uri outcome := by
  cases found : files.content? (Uri.toPath uri) with
  | none => exact ⟨_, .missing found⟩
  | some content =>
    rcases Nat.lt_or_ge limit content.size with large | small
    · exact ⟨_, .tooLarge found large⟩
    · cases decoded : String.fromUTF8? content with
      | none => exact ⟨_, .unreadable found small decoded⟩
      | some text => exact ⟨_, .text found small decoded⟩

theorem onDisk_text_iff {files : FileTree} {limit : Nat} {uri text : String} :
    OnDisk files limit uri (.ok text) ↔ fetch files limit uri = .ok ⟨uri, 0, text⟩ := by
  refine ⟨fetch_of_onDisk, fun fetched => ?_⟩
  obtain ⟨outcome, onDisk⟩ := onDisk_total files limit uri
  have same := (fetch_of_onDisk onDisk).symm.trans fetched
  cases outcome with
  | error failure => cases same
  | ok other =>
    cases same
    exact onDisk

@[simp] theorem find?_without (documents : List TextDocument) (uri other : String) :
    find? (without documents other) uri = if other = uri then none else find? documents uri := by
  split
  next same =>
    subst same
    exact List.find?_eq_none.mpr fun document member => by simpa [without] using (List.mem_filter.mp member).2
  next apart =>
    rw [find?, without, List.find?_filter]
    congr 1
    funext document
    by_cases named : document.uri = uri
    · simp [named, Ne.symm apart]
    · simp [named]

@[simp] theorem find?_cons (document : TextDocument) (documents : List TextDocument) (uri : String) :
    find? (document :: documents) uri = if document.uri = uri then some document else find? documents uri := by
  rw [find?, List.find?_cons]
  split <;> simp_all [find?]

theorem change_eq (documents : Documents) (uri : String) (version : Int) (text : String) :
    (documents.change uri version text).toOption.getD documents =
      match documents.getOpen? uri with
      | some _ => { documents with opened := ⟨uri, version, text⟩ :: without documents.opened uri }
      | none => documents := by
  rw [change]
  split
  next isOpen =>
    obtain ⟨document, found⟩ := Option.isSome_iff_exists.mp isOpen
    rw [found]
    rfl
  next closed =>
    rw [Option.not_isSome_iff_eq_none.mp closed]
    rfl

namespace Scene

variable {limit : Nat} {scene : Scene} {uri : String}

/-- What an operation does to the open document of a uri. -/
theorem getOpen?_step (event : Event) : (scene.step limit event).documents.getOpen? uri =
    match event with
    | .opens other version text => if other = uri then some ⟨uri, version, text⟩ else scene.documents.getOpen? uri
    | .changes other version text =>
      if other = uri then (scene.documents.getOpen? uri).map fun _ => ⟨uri, version, text⟩
      else scene.documents.getOpen? uri
    | .closes other => if other = uri then none else scene.documents.getOpen? uri
    | _ => scene.documents.getOpen? uri := by
  cases event with
  | opens other version text =>
    simp only [step, openText, getOpen?, find?_cons, find?_without]
    split <;> simp_all
  | changes other version text =>
    simp only [step, change_eq]
    cases found : scene.documents.getOpen? other with
    | none =>
      by_cases same : other = uri
      · subst same
        simp [found]
      · simp [same]
    | some document =>
      by_cases same : other = uri
      · subst same
        rw [if_pos rfl, found]
        simp [getOpen?]
      · simp [getOpen?, same]
  | closes other => simp [step, close, getOpen?]
  | forgets other => rfl
  | reads other =>
    simp only [step, answer, read_eq]
    cases scene.documents.held? other with
    | some document => rfl
    | none => cases fetch scene.files limit other <;> rfl
  | disk files => rfl

/-- What an operation does to the text that was read of a document. -/
theorem cached_step (event : Event) : find? (scene.step limit event).documents.cached uri =
    match event with
    | .opens other _ _ | .forgets other => if other = uri then none else find? scene.documents.cached uri
    | .reads other =>
      if other = uri ∧ scene.documents.held? uri = none then (fetch scene.files limit uri).toOption
      else find? scene.documents.cached uri
    | _ => find? scene.documents.cached uri := by
  cases event with
  | opens other version text => simp [step, openText]
  | changes other version text =>
    simp only [step, change_eq]
    split <;> rfl
  | closes other => rfl
  | forgets other => simp [step, forget]
  | reads other =>
    simp only [step, answer, read_eq]
    cases held : scene.documents.held? other with
    | some document =>
      have kept : ¬(other = uri ∧ scene.documents.held? uri = none) := by
        rintro ⟨rfl, none⟩
        rw [held] at none
        cases none
      rw [if_neg kept]
      rfl
    | none =>
      by_cases same : other = uri
      · subst same
        cases fetched : fetch scene.files limit other with
        | error failure =>
          have uncached := (Option.or_eq_none_iff.mp held).2
          simpa [Except.map, Except.toOption, held] using uncached
        | ok document => simp [Except.map, Except.toOption, held, fetch_uri fetched]
      · cases fetched : fetch scene.files limit other with
        | error failure => simp [Except.map, Except.toOption, same]
        | ok document => simp [Except.map, Except.toOption, same, fetch_uri fetched]
  | disk files => rfl

theorem step_other {event : Event} (other : event.uri? ≠ some uri) :
    (scene.step limit event).documents.getOpen? uri = scene.documents.getOpen? uri ∧
      find? (scene.step limit event).documents.cached uri = find? scene.documents.cached uri := by
  rw [getOpen?_step, cached_step]
  cases event <;> simp_all [Event.uri?]

end Scene

section Account

variable {limit : Nat} {files : FileTree} {uri : String} {history : List Event} {scene : Scene} {event : Event}

/-- What is held for a uri, told from the history. What is open is not kept as read. -/
structure Account (limit : Nat) (files : FileTree) (uri : String) (history : List Event) (scene : Scene) : Prop where
  disk : scene.files = diskAfter files history
  closed : scene.documents.getOpen? uri = none ↔ ¬IsOpen uri history
  written : ∀ version text, scene.documents.getOpen? uri = some ⟨uri, version, text⟩ ↔
    IsOpen uri history ∧ LastWrite uri version text history
  kept : ∀ version text, find? scene.documents.cached uri = some ⟨uri, version, text⟩ ↔
    version = 0 ∧ FirstFound limit files uri text history
  apart : IsOpen uri history → find? scene.documents.cached uri = none

theorem account_start : Account limit files uri [] ⟨{}, files⟩ where
  disk := rfl
  closed := by simp [getOpen?, find?, IsOpen, not_since_nil]
  written := by simp [getOpen?, find?, IsOpen, not_since_nil]
  kept := by simp [find?, FirstFound, not_since_nil]
  apart := fun _ => rfl

theorem isOpen_snoc : IsOpen uri (history ++ [event]) ↔
    event.Opens uri ∨ IsOpen uri history ∧ event ≠ .closes uri := since_snoc

theorem lastWrite_snoc {version : Int} {text : String} : LastWrite uri version text (history ++ [event]) ↔
    event.Writes uri version text ∨
      LastWrite uri version text history ∧ ¬∃ version text, event.Writes uri version text := since_snoc

theorem firstFound_snoc {text : String} : FirstFound limit files uri text (history ++ [event]) ↔
    (FindsOnDisk limit files uri text history event ∧ ¬∃ other, FoundSince limit files uri other history) ∨
      FirstFound limit files uri text history ∧ ¬event.Drops uri := since_snoc

theorem Account.step_disk (account : Account limit files uri history scene) (event : Event) :
    (scene.step limit event).files = diskAfter files (history ++ [event]) := by
  rw [diskAfter_snoc, ← account.disk]
  cases event <;> rfl

theorem Account.unread (account : Account limit files uri history scene)
    (uncached : find? scene.documents.cached uri = none) : ¬∃ text, FoundSince limit files uri text history := by
  intro found
  obtain ⟨text, first⟩ := firstFound_of_found found
  have copy := (account.kept 0 text).mpr ⟨rfl, first⟩
  rw [uncached] at copy
  cases copy

/-- A read keeps what the disk has if the document is neither open nor kept already. -/
theorem Account.read (account : Account limit files uri history scene) :
    Account limit files uri (history ++ [.reads uri]) (scene.step limit (.reads uri)) := by
  have isOpen : IsOpen uri (history ++ [.reads uri]) ↔ IsOpen uri history := by simp [isOpen_snoc, Event.Opens]
  have last : ∀ version text, LastWrite uri version text (history ++ [.reads uri]) ↔ LastWrite uri version text history := by
    simp [lastWrite_snoc, Event.Writes]
  have first : ∀ text, FirstFound limit files uri text (history ++ [.reads uri]) ↔
      (¬IsOpen uri history ∧ fetch scene.files limit uri = .ok ⟨uri, 0, text⟩) ∧
          (¬∃ other, FoundSince limit files uri other history) ∨ FirstFound limit files uri text history := by
    simp [firstFound_snoc, FindsOnDisk, Event.Drops, Event.Opens, onDisk_text_iff, account.disk]
  have opened : (scene.step limit (.reads uri)).documents.getOpen? uri = scene.documents.getOpen? uri :=
    Scene.getOpen?_step _
  have copied : find? (scene.step limit (.reads uri)).documents.cached uri = _ := Scene.cached_step (.reads uri)
  simp only [true_and] at copied
  refine ⟨account.step_disk _, by rw [opened, isOpen, account.closed], by simp [opened, isOpen, last, account.written], ?_, ?_⟩
  · intro version text
    rw [copied, first]
    split
    next unheld =>
      obtain ⟨closed, uncached⟩ := Option.or_eq_none_iff.mp unheld
      have unread := account.unread uncached
      have notFirst : ¬FirstFound limit files uri text history := fun first => unread ⟨text, first.mono fun _ _ => And.left⟩
      obtain ⟨outcome, onDisk⟩ := onDisk_total scene.files limit uri
      rw [fetch_of_onDisk onDisk]
      cases outcome with
      | error failure => simp [Except.map, Except.toOption, notFirst]
      | ok found => simp [Except.map, Except.toOption, notFirst, account.closed.mp closed, unread, eq_comm]
    next held =>
      have notNew : ¬((¬IsOpen uri history ∧ fetch scene.files limit uri = .ok ⟨uri, 0, text⟩) ∧
          ¬∃ other, FoundSince limit files uri other history) := by
        rintro ⟨⟨closed, _⟩, unread⟩
        have uncached : find? scene.documents.cached uri = none := by
          apply Option.eq_none_iff_forall_not_mem.mpr
          rintro ⟨other, version, text⟩ copy
          obtain rfl := find?_uri copy
          obtain ⟨_, first⟩ := (account.kept version text).mp copy
          exact unread ⟨text, first.mono fun _ _ => And.left⟩
        exact held (Option.or_eq_none_iff.mpr ⟨account.closed.mpr closed, uncached⟩)
      rw [account.kept, or_iff_right notNew]
  · intro stillOpen
    have isOpen := isOpen.mp stillOpen
    rw [copied, if_neg, account.apart isOpen]
    intro unheld
    exact account.closed.mp (Option.or_eq_none_iff.mp unheld).1 isOpen

/-- One event keeps the account. What a read adds is shown above; all else follows from what each event does. -/
theorem Account.step (account : Account limit files uri history scene) (event : Event) :
    Account limit files uri (history ++ [event]) (scene.step limit event) := by
  by_cases isRead : event = .reads uri
  · exact isRead ▸ account.read
  have disk := account.step_disk event
  obtain ⟨_, closed, written, kept, apart⟩ := account
  have opened : (∃ document, scene.documents.getOpen? uri = some document) ↔ IsOpen uri history := by
    rw [← Option.ne_none_iff_exists', Ne, closed, not_not]
  refine ⟨disk, ?_, ?_, ?_, ?_⟩
  all_goals
    simp only [Scene.getOpen?_step, Scene.cached_step, isOpen_snoc, lastWrite_snoc, firstFound_snoc, FindsOnDisk,
      Event.Opens, Event.Writes, Event.Drops]
    cases event with
    | opens other _ _ | changes other _ _ | closes other | forgets other | reads other =>
      by_cases same : other = uri <;> simp_all
    | disk _ => simp_all

theorem account_after (limit : Nat) (files : FileTree) (uri : String) (history : List Event) :
    Account limit files uri history (.after limit files history) := by
  induction history using List.reverseRecOn with
  | nil => exact account_start
  | append_singleton history event ih =>
    rw [Scene.after_snoc]
    exact ih.step event

theorem Scene.answer_eq (limit : Nat) (scene : Scene) (uri : String) : (scene.answer limit uri).map Prod.fst =
    match scene.documents.held? uri with
    | some document => .ok document
    | none => fetch scene.files limit uri := read_fst ..

theorem Account.answers_iff (account : Account limit files uri history scene)
    (outcome : Except DocumentError TextDocument) :
    Answers limit files uri history outcome ↔ (scene.answer limit uri).map Prod.fst = outcome := by
  have sound : ∀ outcome, Answers limit files uri history outcome → (scene.answer limit uri).map Prod.fst = outcome := by
    intro outcome answers
    rw [Scene.answer_eq, held?]
    cases answers with
    | written isOpen last => rw [(account.written _ _).mpr ⟨isOpen, last⟩, Option.some_or]
    | kept closed first => rw [account.closed.mpr closed, (account.kept _ _).mpr ⟨rfl, first⟩, Option.none_or]
    | stored closed unread onDisk =>
      have uncached : find? scene.documents.cached uri = none := by
        apply Option.eq_none_iff_forall_not_mem.mpr
        rintro ⟨other, version, text⟩ copy
        obtain rfl := find?_uri copy
        exact unread ⟨text, ((account.kept version text).mp copy).2.mono fun _ _ => And.left⟩
      rw [account.closed.mpr closed, uncached, account.disk, fetch_of_onDisk onDisk]
      rfl
  refine ⟨sound outcome, ?_⟩
  rintro rfl
  have total : ∃ outcome, Answers limit files uri history outcome := by
    cases opened : scene.documents.getOpen? uri with
    | some document =>
      obtain ⟨named, version, text⟩ := document
      obtain rfl : named = uri := find?_uri opened
      obtain ⟨isOpen, last⟩ := (account.written version text).mp opened
      exact ⟨_, .written isOpen last⟩
    | none =>
      have closed := account.closed.mp opened
      by_cases found : ∃ text, FoundSince limit files uri text history
      · obtain ⟨text, first⟩ := firstFound_of_found found
        exact ⟨_, .kept closed first⟩
      · obtain ⟨outcome, onDisk⟩ := onDisk_total (diskAfter files history) limit uri
        exact ⟨_, .stored closed found onDisk⟩
  obtain ⟨outcome, answers⟩ := total
  exact sound outcome answers ▸ answers

end Account

structure Alike (uri : String) (scene other : Scene) : Prop where
  files : scene.files = other.files
  opened : scene.documents.getOpen? uri = other.documents.getOpen? uri
  cached : find? scene.documents.cached uri = find? other.documents.cached uri

theorem Alike.held? {uri : String} {scene other : Scene} (alike : Alike uri scene other) :
    scene.documents.held? uri = other.documents.held? uri := by
  rw [Documents.held?, alike.opened, alike.cached, Documents.held?]

theorem Alike.step {limit : Nat} {uri : String} {scene other : Scene} (alike : Alike uri scene other) (event : Event) :
    Alike uri (scene.step limit event) (other.step limit event) where
  files := by
    have same := alike.files
    cases event <;> simp_all [Scene.step]
  opened := by rw [Scene.getOpen?_step, Scene.getOpen?_step, alike.opened]
  cached := by rw [Scene.cached_step, Scene.cached_step, alike.cached, alike.files, alike.held?]

/-- What does not concern the uri can be left out of a history. -/
theorem alike_filter (limit : Nat) (files : FileTree) (uri : String) (history : List Event) :
    Alike uri (.after limit files (history.filter (Event.concerns uri))) (.after limit files history) := by
  induction history using List.reverseRecOn with
  | nil => exact ⟨rfl, rfl, rfl⟩
  | append_singleton history event ih =>
    rw [Scene.after_snoc, List.filter_append]
    cases concerns : event.concerns uri with
    | true =>
      rw [List.filter_cons_of_pos concerns, List.filter_nil, Scene.after_snoc]
      exact ih.step event
    | false =>
      rw [List.filter_cons_of_neg (by simp [concerns]), List.filter_nil, List.append_nil]
      have other : event.uri? ≠ some uri := by
        intro same
        simp [Event.concerns, same] at concerns
      obtain ⟨opened, cached⟩ :
          ((Scene.after limit files history).step limit event).documents.getOpen? uri = _ ∧ _ := Scene.step_other other
      refine ⟨?_, ih.opened.trans opened.symm, ih.cached.trans cached.symm⟩
      rw [ih.files]
      cases event <;> first | rfl | simp [Event.concerns, Event.uri?] at concerns

/-- After every history of operations on documents, during which the disk changed at any time: a read answers
what the history says, and an answer that is an error leaves all as it was. A document that is not open cannot
be changed, which changes nothing. Operations on other uris can be left out of the history. -/
theorem answers_by_history (limit : Nat) (files : FileTree) (history : List Event) (uri : String) :
    let scene := Scene.after limit files history
    (∀ outcome, Answers limit files uri history outcome ↔ (scene.answer limit uri).map Prod.fst = outcome) ∧
    (∀ failure, scene.answer limit uri = .error failure → Scene.after limit files (history ++ [.reads uri]) = scene) ∧
    (∀ version text, ¬IsOpen uri history →
      scene.documents.change uri version text = .error (.notOpen uri) ∧
        Scene.after limit files (history ++ [.changes uri version text]) = scene) ∧
    ((Scene.after limit files (history.filter (Event.concerns uri))).answer limit uri).map Prod.fst =
      (scene.answer limit uri).map Prod.fst := by
  intro scene
  have account := account_after limit files uri history
  refine ⟨account.answers_iff, ?_, ?_, ?_⟩
  · intro failure failed
    rw [Scene.after_snoc, Scene.step, failed]
    rfl
  · intro version text closed
    have unopened := account.closed.mpr closed
    have refused : scene.documents.change uri version text = .error (.notOpen uri) := by
      rw [change, isOpen, unopened]
      rfl
    refine ⟨refused, ?_⟩
    rw [Scene.after_snoc, Scene.step, refused]
    rfl
  · have alike := alike_filter limit files uri history
    rw [Scene.answer_eq, Scene.answer_eq, alike.held?, alike.files]

end SchemaDoc.Documents
