import TagLint.CommandLine.Grammar
import TagLint.Severity

/-!
# The command line of this program

The options and operands that the program takes, its subcommands, and what they mean. Lists of paths
grow with each use of their option; any other option can be given once.

* `Arguments.parse`: reads a command line.
-/

namespace TagLint.CommandLine

/-! ## Values of options -/

/-- A path, which may not be empty. -/
def pathValue? (text : String) : Option String :=
  if text.isEmpty then none else some text

/-- A truth value. -/
def boolValue? (text : String) : Option Bool :=
  if text == "true" then some true else if text == "false" then some false else none

/-- The value of an option, which has to be there. -/
def requiredValue {α : Type} (read : String → Option α) (value : Option String) :
    Except Refusal α :=
  match value.bind read with
  | some a => .ok a
  | none => .error .invalidValue

/-- The value of an option that can be given once. A missing value is told before a repetition, and a
repetition before a value that is wrong. -/
def onceValue {α : Type} (read : String → Option α) (current : Option α) (value : Option String) :
    Except Refusal (Option α) :=
  if value.isNone then .error .invalidValue
  else if current.isSome then .error .repeatedArgument
  else (requiredValue read value).map some

/-- The value of an option that means `true` without one. -/
def switchValue (current : Option Bool) (value : Option String) : Except Refusal (Option Bool) :=
  onceValue boolValue? current (value.or (some "true"))

/-! ## Completion scripts -/

/-- The shells that completion scripts exist for. -/
inductive Shell
  | bash
  | elvish
  | fish
  | powershell
  | zsh
deriving Repr, DecidableEq, Inhabited

namespace Shell

/-- All shells. -/
def all : List Shell :=
  [.bash, .elvish, .fish, .powershell, .zsh]

/-- The name of a shell. -/
def name : Shell → String
  | .bash => "bash"
  | .elvish => "elvish"
  | .fish => "fish"
  | .powershell => "powershell"
  | .zsh => "zsh"

/-- The shell with a name. -/
def ofName? (text : String) : Option Shell :=
  all.find? (·.name == text)

end Shell

/-- The options of the subcommand that writes completion scripts. -/
inductive CompletionOption
  | shell
  | out
deriving Repr, DecidableEq, Inhabited

/-- What has been read of that subcommand. -/
structure CompletionChoice where
  shell : Option Shell := none
  out : Option String := none
deriving Repr, DecidableEq, Inhabited

/-- The words of that subcommand. -/
def completionGrammar : Grammar CompletionOption CompletionChoice Empty where
  long?
    | "shell" => some (.option .shell)
    | "out" => some (.option .out)
    | "help" => some .help
    | _ => none
  short?
    | 's' => some (.option .shell)
    | 'o' => some (.option .out)
    | 'h' => some .help
    | _ => none
  assign o value choice :=
    match o with
    | .shell => do return { choice with shell := (← onceValue Shell.ofName? choice.shell value) }
    | .out => do return { choice with out := (← onceValue pathValue? choice.out value) }
  takesOperands := false
  operand _ choice := .ok choice
  subcommand? _ := none

/-! ## Subcommands -/

/-- What the program does instead of looking at files. -/
inductive Command
  /-- Writes a configuration file with the defaults. -/
  | init
  /-- Writes a completion script. -/
  | completions (shell : Shell) (out : Option String)
deriving Repr, DecidableEq, Inhabited

/-- The names of subcommands. -/
inductive CommandName
  | init
  | completions
  | help
deriving Repr, DecidableEq, Inhabited

/-- The subcommand that a word names. -/
def CommandName.ofString? : String → Option CommandName
  | "init" => some .init
  | "completions" => some .completions
  | "help" => some .help
  | _ => none

/-- The words of the subcommand that writes a configuration file: it knows nothing but help. -/
def initGrammar : Grammar Empty Unit Empty where
  long?
    | "help" => some .help
    | _ => none
  short?
    | 'h' => some .help
    | _ => none
  assign _ _ state := .ok state
  takesOperands := false
  operand _ state := .ok state
  subcommand? _ := none

/-- Help about a subcommand: its name may follow, and nothing else. -/
def helpAbout : List String → Refusal
  | [] => .helpRequested
  | [word] => if (CommandName.ofString? word).isSome then .helpRequested else .unknownCommand
  | _ => .unknownCommand

/-- Reads the words of a subcommand. -/
def Command.parse (name : CommandName) (words : List String) : Except Refusal Command :=
  match name with
  | .help => .error (helpAbout words)
  | .init => do
    initGrammar.readAll () words
    return .init
  | .completions => do
    let choice ← completionGrammar.readAll {} words
    match choice.shell with
    | some shell => return .completions shell choice.out
    | none => .error .missingArgument

/-! ## The program -/

/-- The options of the program. -/
inductive MainOption
  | exclude
  | config
  | out
  | applicability
  | minSeverity
  | json
  | compact
  | sort
  | logLevel
deriving Repr, DecidableEq, Inhabited

/-- What a command line asks for. -/
structure Arguments where
  paths : List String := []
  exclude : List String := []
  /-- The configuration file. -/
  config : Option String := none
  out : Option String := none
  applicability : Option Bool := none
  minSeverity : Option Severity := none
  json : Option Bool := none
  compact : Option Bool := none
  sort : Option Bool := none
  logLevel : Option String := none
  command : Option Command := none
deriving Repr, DecidableEq, Inhabited

namespace Arguments

/-- What an option does with its value. -/
def assign (o : MainOption) (value : Option String) (a : Arguments) : Except Refusal Arguments :=
  match o with
  | .exclude => do return { a with exclude := a.exclude ++ [← requiredValue pathValue? value] }
  | .config => do return { a with config := (← onceValue pathValue? a.config value) }
  | .out => do return { a with out := (← onceValue pathValue? a.out value) }
  | .applicability => do return { a with applicability := (← switchValue a.applicability value) }
  | .minSeverity => do
    return { a with minSeverity := (← onceValue Severity.ofExactName? a.minSeverity value) }
  | .json => do return { a with json := (← switchValue a.json value) }
  | .compact => do return { a with compact := (← switchValue a.compact value) }
  | .sort => do return { a with sort := (← switchValue a.sort value) }
  | .logLevel => do return { a with logLevel := (← onceValue some a.logLevel value) }

/-- An operand is a path. -/
def addPath (word : String) (a : Arguments) : Except Refusal Arguments := do
  return { a with paths := a.paths ++ [← requiredValue pathValue? (some word)] }

/-- The words of the program. -/
def grammar : Grammar MainOption Arguments CommandName where
  long?
    | "exclude" => some (.option .exclude)
    | "config" => some (.option .config)
    | "out" => some (.option .out)
    | "applicability" => some (.option .applicability)
    | "min-severity" => some (.option .minSeverity)
    | "json" => some (.option .json)
    | "compact" => some (.option .compact)
    | "sort" => some (.option .sort)
    | "log-level" => some (.option .logLevel)
    | "help" => some .help
    | "version" => some .version
    | _ => none
  short?
    | 'e' => some (.option .exclude)
    | 'o' => some (.option .out)
    | 'h' => some .help
    | 'V' => some .version
    | _ => none
  assign := assign
  takesOperands := true
  operand := addPath
  subcommand? := CommandName.ofString?

/-- Reads a command line. The words of a subcommand are looked at before what has been collected in
front of it takes effect. -/
def parse (words : List String) : Except Refusal Arguments := do
  let (s, call) ← grammar.scan { state := {} } words
  match call with
  | none => grammar.settle s
  | some (name, rest) =>
    let command ← Command.parse name rest
    let a ← grammar.settle s
    return { a with command := some command }

end Arguments

end TagLint.CommandLine
