import Mathlib.Data.List.Basic
import SchemaDoc.Project.Layering

/-! Settings and the layers that say something about them: the global file, the file of the project and a variable of
the environment, in front of the built-in values. A variable wins over the file of the project, and that file over the
built-in value. Of the global file only the name of the project and its known registries come through. -/

namespace SchemaDoc

namespace Toml

/-- What a section says under a key: a table by the key, an array by the position that the key stands for. -/
def Value.item? (key : String) (position : Nat) : Value → Option Value
  | .table _ entries => entries.lookup key
  | .array items => items[position]?
  | .tables items => items[position]?.map (.table .header)
  | _ => none

theorem getElem?_padded {α : Type} (items : List α) (item : α → Value) (count position : Nat) :
    ((items.take count).map (fun entry => some (item entry)) ++ List.replicate (count - items.length) none)[position]? =
      if position < count then some (items[position]?.map item) else none := by
  rw [List.getElem?_append, List.length_map, List.length_take, List.getElem?_map, List.getElem?_take,
    List.getElem?_replicate]
  grind

theorem fields?_eq {names : List String} {part : Value} {fields : List (Option Value)}
    (found : part.fields? names = some fields) : fields = names.mapIdx fun position key => part.item? key position := by
  have padded : ∀ position (said : Option Value), (if position < names.length then some said else none) =
      names[position]?.map fun _ => said := by
    intro position said
    split
    · next inside => rw [List.getElem?_eq_getElem inside, Option.map_some]
    · next outside => rw [List.getElem?_eq_none (Nat.le_of_not_lt outside), Option.map_none]
  refine List.ext_getElem? fun position => ?_
  rw [List.getElem?_mapIdx]
  cases part with
  | table origin entries | date digits =>
    cases found
    rw [List.getElem?_map]
    rfl
  | array items =>
    cases found
    exact (getElem?_padded items id _ position).trans (by rw [padded, Option.map_id]; rfl)
  | tables items =>
    cases found
    rw [getElem?_padded items (.table .header), padded]
    rfl
  | _ => cases found

/-- What is absent or accepted says something, in place of the default. -/
theorem exists_of_orDefault {α : Type} {decode : Value → Option α} {fallback value : α} {item : Option Value}
    (read : orDefault fallback decode item = some value) :
    ∃ said, item.mapM decode = some said ∧ said.getD fallback = value := by
  cases item with
  | none =>
    cases read
    exact ⟨none, rfl, rfl⟩
  | some item => exact ⟨some value, by simpa [orDefault] using read, rfl⟩

end Toml

/-- The settings that layers replace. The known registries are not among them: those of both files count. -/
inductive Setting where
  | name
  | extension
  | sourceRoot
  | ignoredPaths
  | maxPathDepth
  | maxLoadDepth
  | maxFileSizeMb
  | defaultNamespace
  | pretty
  deriving DecidableEq, Repr

namespace Setting

abbrev Value : Setting → Type
  | name | sourceRoot => Option String
  | extension | defaultNamespace => String
  | ignoredPaths => List String
  | maxPathDepth | maxLoadDepth | maxFileSizeMb => Nat
  | pretty => Bool

def of : (setting : Setting) → Settings → setting.Value
  | name, settings => settings.project.name
  | extension, settings => settings.project.extension
  | sourceRoot, settings => settings.project.sourceRoot
  | ignoredPaths, settings => settings.project.ignoredPaths
  | maxPathDepth, settings => settings.checker.maxPathDepth
  | maxLoadDepth, settings => settings.checker.maxLoadDepth
  | maxFileSizeMb, settings => settings.checker.maxFileSizeMb
  | defaultNamespace, settings => settings.registries.defaultNamespace
  | pretty, settings => settings.output.pretty

/-- Where a file says something about a setting: in a section, under a key, which stands for a position where the
section is an array. -/
structure Place where
  part : String
  key : String
  position : Nat

def place : Setting → Place
  | name => ⟨"project", "name", 0⟩
  | extension => ⟨"project", "extension", 1⟩
  | sourceRoot => ⟨"project", "source_root", 2⟩
  | ignoredPaths => ⟨"project", "ignored_paths", 3⟩
  | maxPathDepth => ⟨"checker", "max_path_depth", 0⟩
  | maxLoadDepth => ⟨"checker", "max_load_depth", 1⟩
  | maxFileSizeMb => ⟨"checker", "max_file_size_mb", 2⟩
  | defaultNamespace => ⟨"registries", "default_namespace", 0⟩
  | pretty => ⟨"output", "pretty", 0⟩

def written? (setting : Setting) (entries : Toml.Entries) : Option Toml.Value :=
  (entries.lookup setting.place.part).bind (·.item? setting.place.key setting.place.position)

def decode? : (setting : Setting) → Toml.Value → Option setting.Value
  | name, value | sourceRoot, value => value.text?.map some
  | extension, value | defaultNamespace, value => value.text?
  | ignoredPaths, value => value.texts?
  | maxPathDepth, value | maxLoadDepth, value => value.below? (wordBound 64)
  | maxFileSizeMb, value => value.below? (wordBound 32)
  | pretty, value => value.bool?

/-- What a file says about a setting, which may be nothing; none when the value that it writes is refused. -/
def fromFile? (setting : Setting) (entries : Toml.Entries) : Option (Option setting.Value) :=
  (setting.written? entries).mapM setting.decode?

/-- What the text of a file says about a setting. -/
def inText? (setting : Setting) (text : String) : Option (Option setting.Value) :=
  (Toml.parse? text).bind setting.fromFile?

/-- A name that is said is a name. -/
def IsValue : (setting : Setting) → Option setting.Value → Prop
  | name, said => ∀ value, said = some value → value.isSome
  | _, _ => True

theorem isValue_none (setting : Setting) : setting.IsValue none := by
  cases setting with
  | name => exact fun _ none => nomatch none
  | _ => trivial

/-- The variable that stands for a setting. -/
def variableName? : Setting → Option String
  | maxPathDepth => some "SCHEMATA_MAX_PATH_DEPTH"
  | maxLoadDepth => some "SCHEMATA_MAX_LOAD_DEPTH"
  | defaultNamespace => some "SCHEMATA_DEFAULT_NAMESPACE"
  | pretty => some "SCHEMATA_OUTPUT_PRETTY"
  | _ => none

def ofText? : (setting : Setting) → String → Option setting.Value
  | maxPathDepth, text | maxLoadDepth, text => Settings.count? text
  | defaultNamespace, text => some text
  | pretty, text => if text = "true" then some true else if text = "false" then some false else none
  | _, _ => none

/-- What the environment says about a setting; none when the text of the variable is refused. -/
def fromEnvironment? (setting : Setting) (environment : Environment) : Option (Option setting.Value) :=
  (setting.variableName?.bind environment).mapM setting.ofText?

end Setting

theorem ProjectSettings.written {found : Option Toml.Value} {project : ProjectSettings}
    (read : Toml.orDefault {} ofToml? found = some project) :
    Toml.orDefault none (fun value => value.text?.map some) (found.bind (·.item? "name" 0)) = some project.name ∧
    Toml.orDefault ({} : ProjectSettings).extension Toml.Value.text? (found.bind (·.item? "extension" 1)) =
      some project.extension ∧
    Toml.orDefault none (fun value => value.text?.map some) (found.bind (·.item? "source_root" 2)) =
      some project.sourceRoot ∧
    Toml.orDefault ({} : ProjectSettings).ignoredPaths Toml.Value.texts? (found.bind (·.item? "ignored_paths" 3)) =
      some project.ignoredPaths := by
  cases found with
  | none =>
    cases read
    exact ⟨rfl, rfl, rfl, rfl⟩
  | some part =>
    rw [Toml.orDefault, ofToml?] at read
    split at read
    · next name extension sourceRoot ignoredPaths found =>
      have fields := Toml.fields?_eq found
      simp only [List.mapIdx_cons, List.mapIdx_nil, List.cons.injEq, and_true] at fields
      obtain ⟨rfl, rfl, rfl, rfl⟩ := fields
      split at read
      · cases read
      · obtain ⟨_, name, read⟩ := Option.bind_eq_some_iff.mp read
        obtain ⟨_, extension, read⟩ := Option.bind_eq_some_iff.mp read
        obtain ⟨_, sourceRoot, read⟩ := Option.bind_eq_some_iff.mp read
        obtain ⟨_, ignoredPaths, read⟩ := Option.bind_eq_some_iff.mp read
        cases read
        exact ⟨name, extension, sourceRoot, ignoredPaths⟩
    · cases read

theorem CheckerSettings.written {found : Option Toml.Value} {checker : CheckerSettings}
    (read : Toml.orDefault {} ofToml? found = some checker) :
    Toml.orDefault ({} : CheckerSettings).maxPathDepth (Toml.Value.below? (wordBound 64))
      (found.bind (·.item? "max_path_depth" 0)) = some checker.maxPathDepth ∧
    Toml.orDefault ({} : CheckerSettings).maxLoadDepth (Toml.Value.below? (wordBound 64))
      (found.bind (·.item? "max_load_depth" 1)) = some checker.maxLoadDepth ∧
    Toml.orDefault ({} : CheckerSettings).maxFileSizeMb (Toml.Value.below? (wordBound 32))
      (found.bind (·.item? "max_file_size_mb" 2)) = some checker.maxFileSizeMb := by
  cases found with
  | none =>
    cases read
    exact ⟨rfl, rfl, rfl⟩
  | some part =>
    rw [Toml.orDefault, ofToml?] at read
    split at read
    · next pathDepth loadDepth fileSize found =>
      have fields := Toml.fields?_eq found
      simp only [List.mapIdx_cons, List.mapIdx_nil, List.cons.injEq, and_true] at fields
      obtain ⟨rfl, rfl, rfl⟩ := fields
      obtain ⟨_, pathDepth, read⟩ := Option.bind_eq_some_iff.mp read
      obtain ⟨_, loadDepth, read⟩ := Option.bind_eq_some_iff.mp read
      obtain ⟨_, fileSize, read⟩ := Option.bind_eq_some_iff.mp read
      cases read
      exact ⟨pathDepth, loadDepth, fileSize⟩
    · cases read

theorem RegistrySettings.written {found : Option Toml.Value} {registries : RegistrySettings}
    (read : Toml.orDefault {} ofToml? found = some registries) :
    Toml.orDefault ({} : RegistrySettings).defaultNamespace Toml.Value.text? (found.bind (·.item? "default_namespace" 0)) =
      some registries.defaultNamespace := by
  cases found with
  | none =>
    cases read
    rfl
  | some part =>
    rw [Toml.orDefault, ofToml?] at read
    split at read
    · next space known found =>
      have fields := Toml.fields?_eq found
      simp only [List.mapIdx_cons, List.mapIdx_nil, List.cons.injEq, and_true] at fields
      obtain ⟨rfl, rfl⟩ := fields
      obtain ⟨_, space, read⟩ := Option.bind_eq_some_iff.mp read
      obtain ⟨_, _, read⟩ := Option.bind_eq_some_iff.mp read
      cases read
      exact space
    · cases read

theorem OutputSettings.written {found : Option Toml.Value} {output : OutputSettings}
    (read : Toml.orDefault {} ofToml? found = some output) :
    Toml.orDefault ({} : OutputSettings).pretty Toml.Value.bool? (found.bind (·.item? "pretty" 0)) = some output.pretty := by
  cases found with
  | none =>
    cases read
    rfl
  | some part =>
    rw [Toml.orDefault, ofToml?] at read
    split at read
    · next pretty found =>
      have fields := Toml.fields?_eq found
      simp only [List.mapIdx_cons, List.mapIdx_nil, List.cons.injEq, and_true] at fields
      subst fields
      obtain ⟨_, pretty, read⟩ := Option.bind_eq_some_iff.mp read
      cases read
      exact pretty
    · cases read

namespace Settings

/-- Settings that are read from entries have the values that the entries write, and the built-in ones elsewhere. -/
theorem orDefault_written {entries : Toml.Entries} {settings : Settings} (read : ofToml? entries = some settings)
    (setting : Setting) :
    Toml.orDefault (setting.of {}) setting.decode? (setting.written? entries) = some (setting.of settings) := by
  obtain ⟨project, projectRead, read⟩ := Option.bind_eq_some_iff.mp read
  obtain ⟨checker, checkerRead, read⟩ := Option.bind_eq_some_iff.mp read
  obtain ⟨registries, registriesRead, read⟩ := Option.bind_eq_some_iff.mp read
  obtain ⟨output, outputRead, read⟩ := Option.bind_eq_some_iff.mp read
  cases read
  cases setting with
  | name => exact (ProjectSettings.written projectRead).1
  | extension => exact (ProjectSettings.written projectRead).2.1
  | sourceRoot => exact (ProjectSettings.written projectRead).2.2.1
  | ignoredPaths => exact (ProjectSettings.written projectRead).2.2.2
  | maxPathDepth => exact (CheckerSettings.written checkerRead).1
  | maxLoadDepth => exact (CheckerSettings.written checkerRead).2.1
  | maxFileSizeMb => exact (CheckerSettings.written checkerRead).2.2
  | defaultNamespace => exact RegistrySettings.written registriesRead
  | pretty => exact OutputSettings.written outputRead

theorem isValue_of_fromFile? {setting : Setting} {entries : Toml.Entries} {said : Option setting.Value}
    (found : setting.fromFile? entries = some said) : setting.IsValue said := by
  cases setting with
  | name =>
    rintro value rfl
    rw [Setting.fromFile?] at found
    cases written : Setting.name.written? entries with
    | none =>
      rw [written] at found
      cases found
    | some raw =>
      have decoded : Setting.name.decode? raw = some value := by simpa [written] using found
      obtain ⟨text, -, rfl⟩ := Option.map_eq_some_iff.mp decoded
      rfl
  | _ => trivial

/-- What is relied on in a reader of files: a setting has the value that the text is found to set, or the built-in one
where it sets none. -/
def Reads (reader : String → Option Settings) (tells : (setting : Setting) → String → Option (Option setting.Value)) : Prop :=
  ∀ text settings, reader text = some settings → ∀ setting : Setting,
    ∃ said, tells setting text = some said ∧ setting.IsValue said ∧ said.getD (setting.of {}) = setting.of settings

theorem reads_ofText? : Reads ofText? Setting.inText? := by
  intro text settings read setting
  obtain ⟨entries, parsed, read⟩ := Option.bind_eq_some_iff.mp read
  obtain ⟨said, found, value⟩ := Toml.exists_of_orDefault (orDefault_written read setting)
  refine ⟨said, ?_, isValue_of_fromFile? found, value⟩
  rw [Setting.inText?, parsed]
  exact found

/-- What one of the files says about a setting; a file that does not exist says nothing. -/
def saidIn? (tells : (setting : Setting) → String → Option (Option setting.Value)) (files : FileTree) (places : SettingsPlaces)
    (isGlobal : Bool) (setting : Setting) : Option (Option setting.Value) :=
  if places.isPresent files isGlobal then (files.text? (places.locate isGlobal)).bind (tells setting) else some none

theorem Reads.saidIn {reader : String → Option Settings}
    {tells : (setting : Setting) → String → Option (Option setting.Value)} (reads : Reads reader tells) {files : FileTree}
    {places : SettingsPlaces} {isGlobal : Bool} {settings : Settings}
    (loaded : readWith reader files places isGlobal = .ok settings) (setting : Setting) :
    ∃ said, saidIn? tells files places isGlobal setting = some said ∧ setting.IsValue said ∧
      said.getD (setting.of {}) = setting.of settings := by
  rw [saidIn?]
  simp only [readWith] at loaded
  split at loaded
  · next present =>
    rw [if_pos present]
    split at loaded
    · cases loaded
    · next text found =>
      split at loaded
      · cases loaded
      · next parsed =>
        cases loaded
        rw [found]
        exact reads text _ parsed setting
  · next absent =>
    cases loaded
    rw [if_neg absent]
    exact ⟨none, rfl, setting.isValue_none, rfl⟩

/-- Of two files the upper one replaces all that the lower one says, but for the name of the project. -/
theorem of_merge {setting : Setting} {base overlay : Settings} {lower upper : Option setting.Value}
    (isValue : setting.IsValue upper) (below : lower.getD (setting.of {}) = setting.of base)
    (above : upper.getD (setting.of {}) = setting.of overlay) :
    setting.of (merge base overlay) = (upper.or (if setting = .name then lower else none)).getD (setting.of {}) := by
  cases setting with
  | name =>
    have merged : Setting.name.of (merge base overlay) = (Setting.name.of overlay <|> Setting.name.of base) := rfl
    rw [merged, ← above, ← below]
    cases upper with
    | none => rfl
    | some value =>
      obtain ⟨text, rfl⟩ := Option.isSome_iff_exists.mp (isValue value rfl)
      rfl
  | _ => exact above.symm.trans (by simp)

theorem exists_of_bind_ok {α β : Type} {first : Except SettingsError α} {next : α → Except SettingsError β} {last : β}
    (done : first >>= next = .ok last) : ∃ value, first = .ok value ∧ next value = .ok last := by
  cases first with
  | error => cases done
  | ok value => exact ⟨value, rfl, done⟩

theorem overridden_said {α : Type} {environment : Environment} {key : String}
    {decode : String → String → Except SettingsError α} {accept : String → Option α} {current value : α}
    (accepts : ∀ text value, decode key text = .ok value → accept text = some value)
    (done : overridden environment key decode current = .ok value) :
    ∃ said, (environment key).mapM accept = some said ∧ said.getD current = value := by
  rw [overridden] at done
  split at done
  · next unset =>
    cases done
    exact ⟨none, by rw [unset]; rfl, rfl⟩
  · next text isSet => exact ⟨some value, by simp [isSet, accepts text value done], rfl⟩

theorem count?_of_countOf {key text : String} {value : Nat} (done : countOf key text = .ok value) :
    count? text = some value := by
  rw [countOf] at done
  split at done
  · next found =>
    cases done
    exact found
  · cases done

theorem ofText?_of_flagOf {key text : String} {value : Bool} (done : flagOf key text = .ok value) :
    Setting.pretty.ofText? text = some value := by
  unfold flagOf at done
  split at done
  · cases done
    rfl
  · cases done
    rfl
  · cases done

theorem of_override {settings final : Settings} {environment : Environment}
    (done : settings.override environment = .ok final) (setting : Setting) :
    ∃ said, setting.fromEnvironment? environment = some said ∧ said.getD (setting.of settings) = setting.of final := by
  obtain ⟨pretty, prettyDone, done⟩ := exists_of_bind_ok done
  obtain ⟨defaultNamespace, namespaceDone, done⟩ := exists_of_bind_ok done
  obtain ⟨maxPathDepth, pathDone, done⟩ := exists_of_bind_ok done
  obtain ⟨maxLoadDepth, loadDone, done⟩ := exists_of_bind_ok done
  cases done
  cases setting with
  | maxPathDepth => exact overridden_said (fun _ _ => count?_of_countOf) pathDone
  | maxLoadDepth => exact overridden_said (fun _ _ => count?_of_countOf) loadDone
  | defaultNamespace => exact overridden_said (fun _ _ same => congrArg some (Except.ok.inj same)) namespaceDone
  | pretty => exact overridden_said (fun _ _ => ofText?_of_flagOf) prettyDone
  | _ => exact ⟨none, rfl, rfl⟩

end Settings

namespace Setting

/-- What the layers in front of the built-in values say about a setting. -/
structure Layers (setting : Setting) where
  global : Option setting.Value
  project : Option setting.Value
  environment : Option setting.Value

namespace Layers

variable {setting : Setting}

/-- The layers are those of two files and an environment. -/
structure ReadFrom (tells : (setting : Setting) → String → Option (Option setting.Value)) (layers : setting.Layers)
    (files : FileTree) (places : SettingsPlaces) (environment : Environment) : Prop where
  global : Settings.saidIn? tells files places true setting = some layers.global
  project : Settings.saidIn? tells files places false setting = some layers.project
  environment : setting.fromEnvironment? environment = some layers.environment

/-- The value of the uppermost layer that says something. -/
def top (layers : setting.Layers) : setting.Value :=
  ((layers.environment.or layers.project).or layers.global).getD (setting.of {})

/-- Only the global file says something, and not about the name of the project. -/
structure OnlyGlobal (layers : setting.Layers) : Prop where
  other : setting ≠ .name
  environment : layers.environment = none
  project : layers.project = none
  global : layers.global.isSome

end Layers

end Setting

namespace Settings

/-- Settings that are loaded have the values of the uppermost layers that say something, but for those about which only
the global file says something: they have their built-in values, all but the name of the project. This is so with every
reader of files that can be relied on, and the one in use can. -/
theorem load_layered (files : FileTree) (places : SettingsPlaces) (environment : Environment) :
    Reads ofText? Setting.inText? ∧
      ∀ {reader : String → Option Settings} {tells : (setting : Setting) → String → Option (Option setting.Value)},
        Reads reader tells → ∀ {settings : Settings}, loadWith reader files places environment = .ok settings →
          ∀ setting : Setting, ∃ layers : setting.Layers, layers.ReadFrom tells files places environment ∧
            (¬layers.OnlyGlobal → setting.of settings = layers.top) ∧
            (layers.OnlyGlobal → setting.of settings = setting.of {}) := by
  refine ⟨reads_ofText?, ?_⟩
  intro reader tells reads settings loaded setting
  obtain ⟨base, baseRead, loaded⟩ := exists_of_bind_ok loaded
  obtain ⟨overlay, overlayRead, overridden⟩ := exists_of_bind_ok loaded
  obtain ⟨global, globalSaid, -, globalValue⟩ := reads.saidIn baseRead setting
  obtain ⟨project, projectSaid, isValue, projectValue⟩ := reads.saidIn overlayRead setting
  obtain ⟨said, environmentSaid, value⟩ := of_override overridden setting
  have merged := of_merge isValue globalValue projectValue
  refine ⟨⟨global, project, said⟩, ⟨globalSaid, projectSaid, environmentSaid⟩, fun heard => ?_, fun only => ?_⟩
  · rw [← value, merged, Setting.Layers.top]
    cases said with
    | some said => rfl
    | none =>
      cases project with
      | some project => rfl
      | none =>
        by_cases name : setting = .name
        · rw [if_pos name]
          rfl
        · have silent : global = none := by
            by_contra some
            exact heard ⟨name, rfl, rfl, Option.isSome_iff_ne_none.mpr some⟩
          rw [silent, ite_self]
          rfl
  · have unset : said = none := only.environment
    have silent : project = none := only.project
    rw [← value, merged, unset, silent, if_neg only.other]
    rfl

/-- A project beside a global file, with a file of its own or without one. -/
def layeredFiles (globalText : String) (projectText : Option String) : FileTree :=
  ⟨(["xdg", "schemata", "config.toml"], .file globalText.toUTF8) ::
    projectText.toList.map fun text => (["project", ".schemata", "config.toml"], .file text.toUTF8)⟩

def layeredPlaces : SettingsPlaces :=
  ⟨"/project", "/xdg/schemata/config.toml", "/project/.schemata/config.toml"⟩

/-- The extension is that of the project, the depth of paths that of a variable, and the name that of the global file;
the depth of loads, which only the global file sets, is the built-in one. -/
theorem load_layered_deep :
    let files := layeredFiles "[project]\nname='g'\nextension='g'\n[checker]\nmax_load_depth=7" (some "[project]\nextension='s'")
    let environment : Environment := fun key => if key = "SCHEMATA_MAX_PATH_DEPTH" then some "+4" else none
    let settings : Settings := { project := { name := some "g", extension := "s" }, checker := { maxPathDepth := 4 } }
    load files layeredPlaces environment = .ok settings ∧
    (∃ layers : Setting.extension.Layers, layers.ReadFrom Setting.inText? files layeredPlaces environment ∧
      layers.project = some "s" ∧ Setting.extension.of settings = layers.top) ∧
    ∃ layers : Setting.maxLoadDepth.Layers, layers.ReadFrom Setting.inText? files layeredPlaces environment ∧
      layers.global = some 7 ∧ layers.OnlyGlobal ∧ Setting.maxLoadDepth.of settings = 64 := by
  intro files environment settings
  have loaded : load files layeredPlaces environment = .ok settings := by decide +kernel
  obtain ⟨reads, layered⟩ := load_layered files layeredPlaces environment
  refine ⟨loaded, ?_, ?_⟩
  · obtain ⟨layers, read, heard, -⟩ := layered reads loaded .extension
    have said : layers.project = some "s" := Option.some.inj (read.project.symm.trans (by decide +kernel))
    refine ⟨layers, read, said, heard fun only => ?_⟩
    cases said.symm.trans only.project
  · obtain ⟨layers, read, -, lost⟩ := layered reads loaded .maxLoadDepth
    have said : layers.global = some 7 := Option.some.inj (read.global.symm.trans (by decide +kernel))
    have only : layers.OnlyGlobal :=
      { other := by decide
        environment := Option.some.inj (read.environment.symm.trans (by decide +kernel))
        project := Option.some.inj (read.project.symm.trans (by decide +kernel))
        global := by rw [said]; rfl }
    exact ⟨layers, read, said, only, lost only⟩

/-- Without a file of the project, answers are indented although the global file says that they are not. -/
theorem global_setting_lost :
    let files := layeredFiles "[output]\npretty = false\n" none
    let layers : Setting.pretty.Layers := { global := some false, project := none, environment := none }
    load files layeredPlaces (fun _ => none) = .ok {} ∧ layers.ReadFrom Setting.inText? files layeredPlaces (fun _ => none) ∧
      Setting.pretty.of {} ≠ layers.top := by
  intro files layers
  exact ⟨by decide +kernel, ⟨by decide +kernel, by decide +kernel, rfl⟩, by decide⟩

end Settings

end SchemaDoc
