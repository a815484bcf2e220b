import SchemaDoc.Proofs.LoadSteps

/-! Invariants of the passes, put together. Two of them hold side by side; and what a path is resolved to
may be known in more detail than an invariant alone can tell, since a path arrives only at the module at
hand or behind a load that went well. -/

namespace SchemaDoc.Pass

variable {pass : Pass} {load : Loader} {scope after : Scope} {creates : Bool} {address : SymbolPath}
  {record : SymbolRecord} {Resolved Resolved' : Scope → Node → SymbolPath → Prop}
  {Known Known' : Scope → SymbolPath → Prop} {Holds Holds' : Scope → Prop}

theorem Container.mono {Resolved Resolved' : Node → SymbolPath → Prop}
    (implies : ∀ {path target}, Resolved path target → Resolved' path target)
    (inside : pass.Container Resolved address) : pass.Container Resolved' address := by
  cases inside with
  | own names => exact .own names
  | injected member kind resolved => exact .injected member kind (implies resolved)

theorem Writes.mono (resolves : ∀ {scope path target}, Resolved scope path target → Resolved' scope path target)
    (knows : ∀ {target}, Known scope target → Known' scope target)
    (writes : pass.Writes Resolved Known scope creates address record) :
    pass.Writes Resolved' Known' scope creates address record := by
  cases writes with
  | type member found text free sort => exact .type member found text free sort
  | module member found text known => exact .module member found text known
  | use member found last text free resolved visibility known =>
    exact .use member found last text free (resolves resolved) visibility (knows known)
  | mention leads member => exact .mention leads member
  | reference leads resolved => exact .reference leads (resolves resolved)
  | field inside member found text free subcategory data known =>
    refine .field (inside.mono ?_) member found text free subcategory data fun type given target among =>
      knows (known type given target among)
    rintro path target ⟨scope, resolved⟩
    exact ⟨scope, resolves resolved⟩
  | data names type known => exact .data names type fun target among => knows (known target among)
  | object registry name span target known => exact .object registry name span target fun found given => knows (known found given)

theorem Step.mono (resolves : ∀ {scope path target}, Resolved scope path target → Resolved' scope path target)
    (knows : ∀ {target}, Known scope target → Known' scope target) (step : pass.Step load Resolved Known scope after) :
    pass.Step load Resolved' Known' scope after := by
  cases step with
  | add reports => exact .add reports
  | load leads implemented apart => exact .load leads implemented apart
  | write writes => exact .write (writes.mono resolves knows)
  | checking => exact .checking

theorem Invariant.both (first : pass.Invariant load Resolved Known Holds) (second : pass.Invariant load Resolved' Known' Holds') :
    pass.Invariant load (fun scope path target => Resolved scope path target ∧ Resolved' scope path target)
      (fun scope target => Known scope target ∧ Known' scope target) fun scope => Holds scope ∧ Holds' scope where
  place holds := first.place holds.1
  arrives holds leads declared := ⟨first.arrives holds.1 leads declared, second.arrives holds.2 leads declared⟩
  learn holds leads resolved := ⟨first.learn holds.1 leads resolved.1, second.learn holds.2 leads resolved.2⟩
  retain holds step known := ⟨first.retain holds.1 (step.mono And.left And.left) known.1,
    second.retain holds.2 (step.mono And.right And.right) known.2⟩
  load holds leads implemented apart :=
    ⟨first.load holds.1 leads implemented apart, second.load holds.2 leads implemented apart⟩
  add holds reports := ⟨first.add holds.1 reports, second.add holds.2 reports⟩
  write holds writes := ⟨first.write holds.1 (writes.mono And.left And.left), second.write holds.2 (writes.mono And.right And.right)⟩
  steady holds resolved kind := ⟨first.steady holds.1 resolved.1 kind, second.steady holds.2 resolved.2 kind⟩
  checking holds := ⟨first.checking holds.1, second.checking holds.2⟩

/-- What is known besides of the symbols that paths are resolved to. A path arrives in its own document, or
behind a load without an error. -/
structure Guides (pass : Pass) (load : Loader) (Resolved : Scope → Node → SymbolPath → Prop)
    (Known : Scope → SymbolPath → Prop) (Holds Also : Scope → Prop) (Backed : Scope → SymbolPath → Prop) : Prop where
  step : ∀ {scope after}, Holds scope → Also scope →
    pass.Step load (fun scope path target => Resolved scope path target ∧ Backed scope target)
      (fun scope target => Known scope target ∧ Backed scope target) scope after →
    Also after ∧ ∀ target, Backed scope target → Backed after target
  quiet : ∀ {scope target creates address usage}, Holds scope → Backed scope target → usage.kind = .reference →
    Backed (scope.write creates address { usage := some usage }) target
  home : ∀ {scope path goal}, Holds scope → Also scope → pass.Leads path goal →
    (goal.module = pass.module ∨ scope.workspace.table.uriOfModule? goal.module = some pass.uri) →
    (scope.arrival goal).1 = true → Backed scope (scope.arrival goal).2.1
  away : ∀ {scope path goal uri}, Holds scope → Also scope → pass.Leads path goal →
    scope.workspace.table.uriOfModule? goal.module = some uri → uri ≠ pass.uri → (load scope.workspace uri).1 = none →
    ((scope.loaded load uri).arrival goal).1 = true →
    Backed (scope.loaded load uri) ((scope.loaded load uri).arrival goal).2.1

/-- An invariant and what is known besides hold throughout the passes. -/
theorem Guides.process {Also : Scope → Prop} {Backed : Scope → SymbolPath → Prop}
    (guides : pass.Guides load Resolved Known Holds Also Backed) (invariant : pass.Invariant load Resolved Known Holds)
    {setup : Setup} (limits : setup.limits = pass.limits) (workspace : Workspace) (errors : List Diagnostic)
    (start : Holds { workspace, uri := pass.uri, module := pass.module, errors })
    (also : Also { workspace, uri := pass.uri, module := pass.module, errors }) :
    Holds (Workspace.process load setup workspace pass.uri pass.module errors pass.root) ∧
      Also (Workspace.process load setup workspace pass.uri pass.module errors pass.root) := by
  have coupling : Coupling pass load load (fun scope path target => Resolved scope path target ∧ Backed scope target)
      (fun scope target => Known scope target ∧ Backed scope target) (fun _ => True)
      fun left right => left = right ∧ Holds left ∧ Also left := by
    constructor
    case left => exact fun related => invariant.place related.2.1
    case right => exact fun related => invariant.place (related.1 ▸ related.2.1)
    case implementer | sight | kind => simp +contextual
    case home =>
      rintro left _ path goal ⟨rfl, holds, also⟩ leads own
      exact ⟨rfl, fun declared => ⟨invariant.arrives holds leads declared, guides.home holds also leads own declared⟩⟩
    case learn =>
      rintro left right path goal target ⟨-, holds, also⟩ leads resolved
      exact ⟨invariant.learn holds leads resolved.1, guides.quiet holds resolved.2 rfl⟩
    case retain =>
      rintro left right after target ⟨-, holds, also⟩ step known
      exact ⟨invariant.retain holds (step.mono And.left And.left) known.1, (guides.step holds also step).2 target known.2⟩
    case load =>
      rintro left _ path goal uri ⟨rfl, holds, also⟩ leads implemented apart -
      have onward := invariant.load holds leads implemented apart
      have further := (guides.step holds also (.load leads implemented apart)).1
      exact ⟨rfl, ⟨rfl, onward, further⟩, fun success => ⟨rfl, fun declared => ⟨invariant.arrives onward leads declared,
        guides.away holds also leads implemented apart success declared⟩⟩⟩
    case add =>
      rintro left _ diagnostic ⟨rfl, holds, also⟩ reports
      exact ⟨rfl, invariant.add holds reports, (guides.step holds also (.add reports)).1⟩
    case write =>
      rintro left _ creates address record ⟨rfl, holds, also⟩ writes
      exact ⟨rfl, invariant.write holds (writes.mono And.left And.left), (guides.step holds also (.write writes)).1⟩
    case steady =>
      rintro left right path target creates address usage ⟨-, holds, -⟩ resolved kind
      exact ⟨invariant.steady holds resolved.1 kind, guides.quiet holds resolved.2 kind⟩
    case checking =>
      rintro left _ ⟨rfl, holds, also⟩
      exact ⟨rfl, invariant.checking holds, (guides.step holds also .checking).1⟩
  exact (coupling.process limits ⟨rfl, start, also⟩ fun _ _ => trivial).2

end SchemaDoc.Pass

namespace SchemaDoc.Workspace

/-- What an invariant and what is known besides say about a check. -/
theorem checkDocument_guided {load : Loader} {setup : Setup} {workspace : Workspace} {document : TextDocument}
    {Resolved : Scope → Node → SymbolPath → Prop} {Known : Scope → SymbolPath → Prop}
    {Backed : ModulePath → Scope → SymbolPath → Prop} (Ends : Workspace → Prop) (Holds Also : ModulePath → Scope → Prop)
    (alone : ∀ errors, Ends ((workspace.takeUp document (parse document.text setup.trailing).errors).conclude
      document.uri (parse document.text setup.trailing).node errors []))
    (start : ∀ module errors, (workspace.table.clearUri document.uri).moduleOfUri? document.uri = some module →
      let scope : Scope := { workspace := workspace.takeUp document (parse document.text setup.trailing).errors,
                             uri := document.uri, module, errors }
      Holds module scope ∧ Also module scope)
    (invariant : ∀ module, (passOf setup document module).Invariant load Resolved Known (Holds module))
    (guides : ∀ module, (passOf setup document module).Guides load Resolved Known (Holds module) (Also module) (Backed module))
    (finish : ∀ module scope, Holds module scope → Also module scope → Ends (scope.workspace.conclude document.uri
      (parse document.text setup.trailing).node scope.errors scope.dependencies)) :
    Ends (checkDocument load setup workspace document) := by
  rw [checkDocument]
  dsimp only
  split
  · exact alone _
  · next module errors found =>
    obtain ⟨holds, also⟩ := start module errors (moduleOf_eq_some found)
    obtain ⟨held, held'⟩ := (guides module).process (invariant module) rfl _ errors holds also
    exact finish module _ held held'

end SchemaDoc.Workspace
