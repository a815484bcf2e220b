import SchemaDoc.Diagnostic
import SchemaDoc.Parser.Sequence

/-!
The command line. Options may stand before, between and behind operands; `--` ends them. A long
option takes its value after `=` or as the next argument, a short one also directly behind its
letter. Arguments are taken from left to right, and the first that asks for help or for the version,
or that cannot be understood, decides.
-/

namespace SchemaDoc

/-- What the program is asked to do. -/
inductive Command where
  | init (name : Option String) (force : Bool)
  | status (detailed : Bool)
  | settingsInit (force : Bool)
  | settingsShow (isGlobal : Bool)
  | settingsPath
  | check (paths : List String) (least : Severity) (trailing : TrailingPolicy)
  | parse (paths : List String) (trailing : TrailingPolicy) (errorsOnly : Bool)
  | symbols (category module : Option String)
  | modules (unmapped : Bool)
  deriving DecidableEq, Repr

/-- Why arguments name no command to run. -/
inductive Halt where
  | help
  /-- The version of the program, under the name of the command that was asked. -/
  | version (name : String)
  | misuse
  deriving DecidableEq, Repr

namespace Arguments

/-- An option of a command. -/
structure Choice where
  long : String
  short : Option Char := none
  /-- Which values it takes; none when it takes no value. -/
  accepts : Option (String → Bool) := none

/-- The options of a command, and whether it takes operands. -/
structure Grammar where
  choices : List Choice := []
  takesOperands : Bool := false

/-- What was read: the options, each with its value, and the operands. -/
structure Reading where
  options : List (String × Option String) := []
  operands : List String := []
  deriving DecidableEq, Repr, Inhabited

def Reading.has (reading : Reading) (name : String) : Bool :=
  reading.options.any fun option => option.1 == name

def Reading.value? (reading : Reading) (name : String) : Option String :=
  (reading.options.lookup name).bind id

/-- Add an option. An option may be given once only. -/
def Reading.add (reading : Reading) (choice : Choice) (value : Option String) :
    Except Halt Reading :=
  if reading.has choice.long then .error .misuse
  else .ok { reading with options := reading.options ++ [(choice.long, value)] }

/-- Add an option with a value that it must accept. -/
def Reading.addValue (reading : Reading) (choice : Choice) (accepts : String → Bool)
    (value : String) : Except Halt Reading :=
  if accepts value then reading.add choice (some value) else .error .misuse

/-- Add an operand, where the command takes them. An operand is never empty. -/
def Reading.addOperand (reading : Reading) (grammar : Grammar) (operand : String) :
    Except Halt Reading :=
  if grammar.takesOperands && operand != "" then
    .ok { reading with operands := reading.operands ++ [operand] }
  else .error .misuse

/-- The argument that ends the options. -/
def divider : String := "--"

/-- An argument by its looks. -/
inductive Shape where
  | long (name : String) (value : Option String)
  /-- The letters behind a single dash. -/
  | short (letters : List Char)
  | plain
  deriving DecidableEq, Repr

def shapeOf (argument : String) : Shape :=
  match argument.toList with
  | '-' :: '-' :: body =>
    match body.span (· != '=') with
    | (name, []) => .long (String.ofList name) none
    | (name, _ :: value) => .long (String.ofList name) (some (String.ofList value))
  | '-' :: letter :: letters => .short (letter :: letters)
  | _ => .plain

/-- The state after an argument: an option may wait for its value. -/
structure State where
  reading : Reading := {}
  awaiting : Option (Choice × (String → Bool)) := none

/-- Take a long option. -/
def takeLong (grammar : Grammar) (program : String) (reading : Reading) (name : String)
    (value : Option String) : Except Halt State :=
  match grammar.choices.find? (fun choice => choice.long == name), value with
  | some choice, value =>
    match choice.accepts, value with
    | some accepts, some value => (reading.addValue choice accepts value).map ({ reading := · })
    | some accepts, none => .ok { reading, awaiting := some (choice, accepts) }
    | none, none => (reading.add choice none).map ({ reading := · })
    | none, some _ => .error .misuse
  | none, some _ => .error .misuse
  | none, none =>
    if name == "help" then .error .help
    else if name == "version" then .error (.version program)
    else .error .misuse

/-- Take the letters behind a dash. A letter whose option takes a value takes the rest as it. -/
def takeShort (grammar : Grammar) (program : String) : Reading → List Char → Except Halt State
  | reading, [] => .ok { reading }
  | reading, letter :: letters =>
    match grammar.choices.find? (fun choice => choice.short == some letter) with
    | some choice =>
      match choice.accepts, letters with
      | some accepts, [] => .ok { reading, awaiting := some (choice, accepts) }
      | some accepts, letters =>
        let value := if letters.head? == some '=' then letters.drop 1 else letters
        (reading.addValue choice accepts (String.ofList value)).map ({ reading := · })
      | none, letters => do
        let reading ← reading.add choice none
        takeShort grammar program reading letters
    | none =>
      if letter == 'h' then .error .help
      else if letter == 'V' then .error (.version program)
      else .error .misuse

/-- Take one argument. An option that waits for a value takes only what looks like no option. -/
def take (grammar : Grammar) (program : String) (state : State) (argument : String) :
    Except Halt State :=
  match state.awaiting, shapeOf argument with
  | some (choice, accepts), .plain =>
    (state.reading.addValue choice accepts argument).map ({ reading := · })
  | some _, _ => .error .misuse
  | none, .plain => (state.reading.addOperand grammar argument).map ({ reading := · })
  | none, .long name value => takeLong grammar program state.reading name value
  | none, .short letters => takeShort grammar program state.reading letters

/-- Take all arguments. Behind the divider each one is an operand. -/
def takeAll (grammar : Grammar) (program : String) : State → List String → Except Halt Reading
  | state, [] => if state.awaiting.isSome then .error .misuse else .ok state.reading
  | state, argument :: arguments =>
    if argument = divider then
      if state.awaiting.isSome then .error .misuse
      else arguments.foldlM (fun reading => reading.addOperand grammar) state.reading
    else do
      let state ← take grammar program state argument
      takeAll grammar program state arguments

def read (grammar : Grammar) (program : String) (arguments : List String) : Except Halt Reading :=
  takeAll grammar program {} arguments

def anyText : String → Bool := fun _ => true

def forceChoice : Choice := { long := "force", short := some 'f' }

def trailingChoice : Choice :=
  { long := "trailing", accepts := some fun word => (TrailingPolicy.ofWord? word).isSome }

def severityChoice : Choice :=
  { long := "severity", short := some 's'
    accepts := some fun word => (Severity.ofWord? word).isSome }

def Reading.trailing (reading : Reading) : TrailingPolicy :=
  ((reading.value? "trailing").bind TrailingPolicy.ofWord?).getD .allowed

def Reading.least (reading : Reading) : Severity :=
  ((reading.value? "severity").bind Severity.ofWord?).getD .hint

def programName : String := "schemata"

/-- The name of a command below another one. -/
def below (program name : String) : String := program ++ "-" ++ name

/-- A command: its name, its options, and what it means. -/
structure Entry where
  name : String
  grammar : Grammar
  build : Reading → Except Halt Command

def Entry.read (entry : Entry) (program : String) (arguments : List String) :
    Except Halt Command := do
  let reading ← Arguments.read entry.grammar (below program entry.name) arguments
  entry.build reading

/-- The commands on settings. -/
def settingsEntries : List Entry :=
  [{ name := "init"
     grammar := { choices := [forceChoice] }
     build := fun reading => .ok (.settingsInit (reading.has "force")) },
   { name := "show"
     grammar := { choices := [{ long := "global" }] }
     build := fun reading => .ok (.settingsShow (reading.has "global")) },
   { name := "path"
     grammar := {}
     build := fun _ => .ok .settingsPath }]

/-- The commands other than those on settings. Only the paths of what is parsed have to be given. -/
def mainEntries : List Entry :=
  [{ name := "init"
     grammar :=
      { choices := [{ long := "name", short := some 'n', accepts := some anyText }, forceChoice] }
     build := fun reading => .ok (.init (reading.value? "name") (reading.has "force")) },
   { name := "status"
     grammar := { choices := [{ long := "detailed" }] }
     build := fun reading => .ok (.status (reading.has "detailed")) },
   { name := "check"
     grammar := { choices := [severityChoice, trailingChoice], takesOperands := true }
     build := fun reading => .ok (.check reading.operands reading.least reading.trailing) },
   { name := "parse"
     grammar := { choices := [trailingChoice, { long := "errors-only" }], takesOperands := true }
     build := fun reading =>
      if reading.operands.isEmpty then .error .misuse
      else .ok (.parse reading.operands reading.trailing (reading.has "errors-only")) },
   { name := "symbols"
     grammar :=
      { choices := [{ long := "category", short := some 'c', accepts := some anyText },
          { long := "module", short := some 'm', accepts := some anyText }] }
     build := fun reading => .ok (.symbols (reading.value? "category") (reading.value? "module")) },
   { name := "modules"
     grammar := { choices := [{ long := "unmapped" }] }
     build := fun reading => .ok (.modules (reading.has "unmapped")) }]

/-- The name of the group of commands on settings. -/
def settingsGroup : String := "config"

/-- The command that shows help. -/
def helpName : String := "help"

def namesEntry (entries : List Entry) (name : String) : Bool :=
  name == helpName || entries.any fun entry => entry.name == name

/-- Whether words after `help` name a command. -/
def isTopic : List String → Bool
  | [] => true
  | [name] => name == settingsGroup || namesEntry mainEntries name
  | [group, name] => group == settingsGroup && namesEntry settingsEntries name
  | _ => false

/-- Whether words after `help` in the group of commands on settings name one of them. -/
def isSettingsTopic (words : List String) : Bool :=
  match words with
  | [] => true
  | [name] => namesEntry settingsEntries name
  | _ => false

def halt (isUnderstood : Bool) : Halt := if isUnderstood then .help else .misuse

/-- An argument where a command is expected and that names none: only help and the version can be
asked for. -/
def haltAt (program : String) (argument : String) : Halt :=
  match shapeOf argument with
  | .long "help" none => .help
  | .long "version" none => .version program
  | .short ('h' :: _) => .help
  | .short ('V' :: _) => .version program
  | _ => .misuse

/-- The commands on settings, from the arguments behind the name of their group. -/
def readSettings (program : String) : List String → Except Halt Command
  | [] => .error .misuse
  | name :: arguments =>
    if name = helpName then .error (halt (isSettingsTopic arguments))
    else
      match settingsEntries.find? fun entry => entry.name == name with
      | some entry => entry.read program arguments
      | none => .error (haltAt program name)

end Arguments

/-- The command that arguments name. -/
def Command.ofArguments : List String → Except Halt Command
  | [] => .error .misuse
  | name :: arguments =>
    let program := Arguments.programName
    if name = Arguments.helpName then .error (Arguments.halt (Arguments.isTopic arguments))
    else if name = Arguments.settingsGroup then
      Arguments.readSettings (Arguments.below program name) arguments
    else
      match Arguments.mainEntries.find? fun entry => entry.name == name with
      | some entry => entry.read program arguments
      | none => .error (Arguments.haltAt program name)

end SchemaDoc
