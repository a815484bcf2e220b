import SchemaDoc.Proofs.LoadProgress

/-! What a workspace can have gone through: layouts are registered, documents change, checks run and are
invalidated, in any order. Between these operations no check is going on. -/

namespace SchemaDoc

/-- The same setup over other files. -/
def Setup.over (setup : Setup) (files : FileTree) : Setup := { setup with files }

namespace Workspace

/-- The workspaces that operations lead to. Every operation may find other files: they change without
the workspace being told. -/
inductive Reachable (setup : Setup) : Workspace → Prop where
  | new : Reachable setup {}
  | layout {workspace} (earlier : Reachable setup workspace) (layout : Layout) (files : FileTree) :
      Reachable setup (workspace.registerLayout layout files).2
  | edit {workspace} (earlier : Reachable setup workspace) (documents : Documents) :
      Reachable setup { workspace with documents }
  | preload {workspace} (earlier : Reachable setup workspace) (files : FileTree) :
      Reachable setup (workspace.preload (setup.over files)).2
  | check {workspace} (earlier : Reachable setup workspace) (files : FileTree) (uri : String) :
      Reachable setup (ensureChecked (setup.over files) workspace uri).2
  | checkAll {workspace} (earlier : Reachable setup workspace) (files : FileTree) :
      Reachable setup (workspace.checkAll (setup.over files)).2
  | invalidate {workspace} (earlier : Reachable setup workspace) (uri : String) :
      Reachable setup (workspace.invalidate uri).2

section Invariants

variable {setup : Setup} {Good : Workspace → Prop}

theorem preload_keeps (edit : ∀ workspace documents, Good workspace → Good { workspace with documents })
    {workspace : Workspace} (good : Good workspace) : Good (workspace.preload setup).2 := by
  refine List.foldlRecOn (motive := fun state : Nat × Workspace => Good state.2) _ _ good ?_
  intro state good uri _
  obtain ⟨documents, fetched⟩ := fetch_snd setup state.2 uri
  have kept := edit state.2 documents good
  rw [← fetched] at kept
  dsimp only
  split <;> simpa only [*] using kept

theorem checkUris_keeps (load : ∀ workspace uri, Good workspace → Good (ensureChecked setup workspace uri).2)
    (uris : List String) {workspace : Workspace} (good : Good workspace) : Good (workspace.checkUris setup uris).2 := by
  refine List.foldlRecOn (motive := fun state : List (String × Option LoadError) × Workspace => Good state.2) _ _ good ?_
  exact fun state good uri _ => load state.2 uri good

/-- What the table and the records guarantee is kept by loads if every single change of them keeps it. -/
theorem loadWithin_keeps
    (same : ∀ before after : Workspace, after.table = before.table → after.records = before.records →
      Good before → Good after)
    (takeUp : ∀ workspace document errors, Good workspace → Good (workspace.takeUp document errors))
    (modify : ∀ workspace uri change, Good workspace → Good (workspace.modifyRecord uri change))
    (write : ∀ (scope : Scope) creates address record, Good scope.workspace →
      Good (scope.write creates address record).workspace)
    (budget : Nat) (workspace : Workspace) (uri : String) :
    Good workspace → Good (loadWithin setup budget workspace uri).2 := by
  apply loadWithin_induction fun before after => Good before → Good after
  · intro workspace uri good
    obtain ⟨documents, fetched⟩ := fetch_snd setup workspace uri
    exact same workspace _ (by rw [fetched]) (by rw [fetched]) good
  · intro load before uri document nested _ good
    obtain ⟨documents, fetched⟩ := fetch_snd setup before uri
    have entered : Good (fetch setup before uri).2.enter := same before _ (by rw [fetched]; rfl) (by rw [fetched]; rfl) good
    have taken := takeUp _ document (parse document.text setup.trailing).errors entered
    have concluded : ∀ (workspace : Workspace) node errors dependencies, Good workspace →
        Good (workspace.conclude document.uri node errors dependencies).leave := fun workspace node errors dependencies good =>
      same (workspace.conclude document.uri node errors dependencies) _ rfl rfl (modify workspace document.uri _ good)
    refine checkDocument_ends (fun after => Good after.leave)
      (fun module scope => (scope.uri = document.uri ∧ scope.module = module) ∧ Good scope.workspace)
      (fun _ => concluded _ _ _ _ taken) (fun _ _ _ => ⟨⟨rfl, rfl⟩, taken⟩)
      (?_ : ∀ module, Pass.Invariant _ load (fun _ _ _ => True) (fun _ _ => True) _)
      (fun _ _ holds => concluded _ _ _ _ holds.2)
    intro module
    constructor
    case place => exact fun holds => holds.1
    case arrives | learn | retain | steady => exact fun _ _ _ => trivial
    case load => exact fun holds _ _ _ => ⟨holds.1, nested _ _ holds.2⟩
    case add => exact fun holds _ => holds
    case write => exact fun holds _ => ⟨holds.1, write _ _ _ _ holds.2⟩
    case checking =>
      exact fun {scope} holds => ⟨holds.1, modify scope.workspace scope.uri ({ · with state := .checking }) holds.2⟩

/-- What holds of a new workspace and survives every operation holds of every reachable one. -/
theorem Reachable.invariant (Good : Workspace → Prop) (new : Good {})
    (layout : ∀ workspace layout files, Good workspace → Good (workspace.registerLayout layout files).2)
    (edit : ∀ workspace documents, Good workspace → Good { workspace with documents })
    (load : ∀ workspace files uri, Good workspace → Good (ensureChecked (setup.over files) workspace uri).2)
    (invalidate : ∀ workspace uri, Good workspace → Good (workspace.invalidate uri).2)
    {workspace : Workspace} (reachable : Reachable setup workspace) : Good workspace := by
  induction reachable with
  | new => exact new
  | layout _ layouts files ih => exact layout _ layouts files ih
  | edit _ documents ih => exact edit _ documents ih
  | preload _ files ih => exact preload_keeps edit ih
  | check _ files uri ih => exact load _ files uri ih
  | checkAll _ files ih => exact checkUris_keeps (fun workspace => load workspace files) _ ih
  | invalidate _ uri ih => exact invalidate _ uri ih

end Invariants

/-- No check is going on, and the records are faithful. -/
structure Idle (trailing : TrailingPolicy) (workspace : Workspace) : Prop where
  depth : workspace.loadDepth = 0
  progress : ∀ uri, ¬workspace.InProgress uri
  faithful : workspace.Faithful trailing

theorem Idle.loads {setup : Setup} {before after : Workspace} (idle : before.Idle setup.trailing)
    (loads : Loads setup before after) : after.Idle setup.trailing :=
  ⟨loads.depth.trans idle.depth, fun uri progress => idle.progress uri ((loads.progress uri).mp progress),
    loads.faithful idle.faithful⟩

theorem Idle.invalidate {trailing : TrailingPolicy} {workspace : Workspace} (idle : workspace.Idle trailing)
    (uri : String) : (workspace.invalidate uri).2.Idle trailing := by
  have record := workspace.record?_invalidate uri
  constructor
  case depth => exact idle.depth
  case progress =>
    intro other progress
    obtain ⟨known, found, state⟩ := inProgress_iff.mp progress
    rw [record] at found
    split at found
    · obtain ⟨earlier, -, rfl⟩ := Option.map_eq_some_iff.mp found
      cases state
    · exact idle.progress other (inProgress_iff.mpr ⟨known, found, state⟩)
  case faithful =>
    intro other known found
    rw [record] at found
    split at found
    · obtain ⟨earlier, here, rfl⟩ := Option.map_eq_some_iff.mp found
      exact ⟨(idle.faithful other earlier here).1, by simp⟩
    · exact idle.faithful other known found

/-- Between operations no check is going on. -/
theorem Reachable.idle {setup : Setup} {workspace : Workspace} (reachable : Reachable setup workspace) :
    workspace.Idle setup.trailing := by
  refine reachable.invariant (Idle setup.trailing) ?_ ?_ ?_ ?_ ?_
  · exact ⟨rfl, fun uri => by simp [inProgress_iff, record?], fun uri record known => by simp [record?] at known⟩
  · exact fun workspace layout files idle => ⟨idle.depth, idle.progress, idle.faithful⟩
  · exact fun workspace documents idle => ⟨idle.depth, idle.progress, idle.faithful⟩
  · intro workspace files uri idle
    have idle : workspace.Idle (setup.over files).trailing := idle
    exact idle.loads (loadWithin_loads (setup.over files) _ workspace uri)
  · exact fun workspace uri idle => idle.invalidate uri

def pairFiles : FileTree := ⟨[(["a.sdoc"], .file .empty), (["b.sdoc"], .file .empty)]⟩

def pairLayout : Layout := { projectRoot := "/", sourceRoot := "/", extension := "sdoc", ignoredPaths := [] }

/-- The modules `::a` and `::b` are registered and their documents open, with these texts. -/
def pairWorkspace (left right : String) : Workspace :=
  { table := Layout.register {} [(⟨["a"]⟩, "file:///a.sdoc"), (⟨["b"]⟩, "file:///b.sdoc")]
    documents := { opened := [⟨"file:///a.sdoc", 1, left⟩, ⟨"file:///b.sdoc", 1, right⟩] } }

theorem pairLayout_discover : pairLayout.discover pairFiles = ["/a.sdoc", "/b.sdoc"] := by
  have below : pairFiles.below [] = pairFiles.entries := List.mergeSort_of_pairwise (by decide +kernel)
  have root : pairFiles.resolve? pairLayout.sourceRoot = some [] := by decide +kernel
  have entry : pairFiles.get? pairLayout.sourceRoot = some .directory := by rw [FileTree.get?, root]; rfl
  rw [Layout.discover, root]
  simp only [entry, below]
  decide +kernel

theorem registerLayout_pair : (registerLayout {} pairLayout pairFiles).2 =
    { table := Layout.register {} [(⟨["a"]⟩, "file:///a.sdoc"), (⟨["b"]⟩, "file:///b.sdoc")] } := by
  have modules : pairLayout.modulesOf ["/a.sdoc", "/b.sdoc"] =
      [(⟨["a"]⟩, "file:///a.sdoc"), (⟨["b"]⟩, "file:///b.sdoc")] := by decide +kernel
  rw [registerLayout, Layout.scan, pairLayout_discover, modules]

theorem pairWorkspace_reachable (setup : Setup) (left right : String) : Reachable setup (pairWorkspace left right) := by
  have registered := (Reachable.new : Reachable setup {}).layout pairLayout pairFiles
  rw [registerLayout_pair] at registered
  exact registered.edit { opened := [⟨"file:///a.sdoc", 1, left⟩, ⟨"file:///b.sdoc", 1, right⟩] }

end Workspace

end SchemaDoc
