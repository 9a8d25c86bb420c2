import TagLint.Text.Split

/-!
# Words of a command line

The words of a command line are flags, values of options, and operands. A `Grammar` says which flags
and operands a command knows and what they do to the state that is being built. `Grammar.scan` reads
the words from left to right.

An option that stands alone takes the next word as its value, unless that word is a flag. What has
been collected takes effect when the next flag comes, or at the end, and so do its errors; only an
unknown flag is told before them.
-/

namespace TagLint.CommandLine

/-- Why a command line is not carried out. -/
inductive Refusal
  /-- Help was asked for. -/
  | helpRequested
  /-- The version was asked for. -/
  | versionRequested
  | unknownArgument
  /-- A value is missing or is not one that the option takes. -/
  | invalidValue
  /-- An option that can be given once was given again. -/
  | repeatedArgument
  /-- A flag that takes no value was given one. -/
  | unexpectedValue
  | missingArgument
  | unknownCommand
deriving Repr, DecidableEq, Inhabited

/-- The text of a refusal. -/
def Refusal.message : Refusal → String
  | .helpRequested => "help requested"
  | .versionRequested => "version requested"
  | .unknownArgument => "unexpected argument"
  | .invalidValue => "invalid or missing value"
  | .repeatedArgument => "an argument cannot be used more than once"
  | .unexpectedValue => "unexpected value for a flag that takes none"
  | .missingArgument => "a required argument was not provided"
  | .unknownCommand => "unrecognized subcommand"

/-- What a flag does. -/
inductive Flag (ο : Type)
  | help
  | version
  /-- Gives a value to an option. -/
  | option (o : ο)
deriving Repr, DecidableEq, Inhabited

/-- What a command knows. `ο` are its options, `σ` the state that its words build, and `κ` its
subcommands. -/
structure Grammar (ο σ κ : Type) where
  long? : String → Option (Flag ο)
  short? : Char → Option (Flag ο)
  /-- What an option does with its value, or without one. -/
  assign : ο → Option String → σ → Except Refusal σ
  /-- Whether the command takes operands. -/
  takesOperands : Bool
  /-- What an operand does. -/
  operand : String → σ → Except Refusal σ
  subcommand? : String → Option κ

/-! ## Kinds of words -/

/-- What a word looks like. -/
inductive Word
  /-- Two dashes: everything after them is an operand. -/
  | divider
  /-- A long flag, and the value after its equals sign. -/
  | long (name : String) (value : Option String)
  /-- A short flag, and the text after it. -/
  | short (letter : Char) (rest : List Char)
  | plain
deriving Repr, DecidableEq, Inhabited

/-- Divides the text of a long flag at its first equals sign. -/
def splitValue (cs : List Char) : String × Option String :=
  let name := cs.takeWhile (· != '=')
  let value := match cs.drop name.length with
    | _ :: value => some (String.ofList value)
    | [] => none
  (String.ofList name, value)

/-- What a word looks like. -/
def Word.ofString (word : String) : Word :=
  match word.toList with
  | ['-', '-'] => .divider
  | '-' :: '-' :: rest => .long (splitValue rest).1 (splitValue rest).2
  | '-' :: letter :: rest => .short letter rest
  | _ => .plain

/-- The value in the text after a short flag. An equals sign before it is left out. -/
def attachedValue? : List Char → Option String
  | [] => none
  | '=' :: value => some (String.ofList value)
  | value => some (String.ofList value)

/-! ## Reading words -/

/-- What has been collected and has not taken effect yet. -/
inductive Pending (ο : Type)
  | nothing
  | option (o : ο) (value : Option String)
  /-- Operands, in order. -/
  | operands (words : List String)
deriving Repr, DecidableEq, Inhabited

/-- The state of reading. -/
structure Scan (ο σ : Type) where
  state : σ
  pending : Pending ο := .nothing

namespace Grammar

variable {ο σ κ : Type}

/-- Lets what has been collected take effect. -/
def settle (g : Grammar ο σ κ) (s : Scan ο σ) : Except Refusal σ :=
  match s.pending with
  | .nothing => .ok s.state
  | .option o value => g.assign o value s.state
  | .operands words => words.foldlM (fun state word => g.operand word state) s.state

/-- A known flag. A value that is attached takes effect at once. -/
def applyFlag (g : Grammar ο σ κ) (s : Scan ο σ) (flag : Flag ο) (value : Option String) :
    Except Refusal (Scan ο σ) := do
  let state ← g.settle s
  match flag, value with
  | .help, _ => .error .helpRequested
  | .version, _ => .error .versionRequested
  | .option o, none => return { state, pending := .option o none }
  | .option o, some value => return { state := (← g.assign o (some value) state) }

/-- A long flag. -/
def longFlag (g : Grammar ο σ κ) (s : Scan ο σ) (name : String) (value : Option String) :
    Except Refusal (Scan ο σ) :=
  match g.long? name, value with
  | none, _ => .error .unknownArgument
  | some .help, some _ => .error .unexpectedValue
  | some .version, some _ => .error .unexpectedValue
  | some flag, value => g.applyFlag s flag value

/-- A short flag. -/
def shortFlag (g : Grammar ο σ κ) (s : Scan ο σ) (letter : Char) (rest : List Char) :
    Except Refusal (Scan ο σ) :=
  match g.short? letter with
  | none => .error .unknownArgument
  | some flag => g.applyFlag s flag (attachedValue? rest)

/-- A word that is an operand. -/
def takeOperand (g : Grammar ο σ κ) (s : Scan ο σ) (word : String) : Except Refusal (Scan ο σ) :=
  if !g.takesOperands then .error .unknownArgument
  else
    match s.pending with
    | .operands words => .ok { s with pending := .operands (words ++ [word]) }
    | _ => do return { state := (← g.settle s), pending := .operands [word] }

/-- A word that is no flag: the value of the option before it, if that one waits for a value. -/
def plainWord (g : Grammar ο σ κ) (s : Scan ο σ) (word : String) : Except Refusal (Scan ο σ) :=
  match s.pending with
  | .option o none => .ok { s with pending := .option o (some word) }
  | _ => g.takeOperand s word

/-- The subcommand that a word calls. A word in the place of a value or after an operand calls
none. -/
def call? (g : Grammar ο σ κ) (s : Scan ο σ) (word : String) : Option κ :=
  match s.pending with
  | .option _ none => none
  | .operands _ => none
  | _ => g.subcommand? word

/-- Reads words up to the end or to the call of a subcommand, which the remaining words belong to. -/
def scan (g : Grammar ο σ κ) (s : Scan ο σ) :
    List String → Except Refusal (Scan ο σ × Option (κ × List String))
  | [] => .ok (s, none)
  | word :: words =>
    match g.call? s word with
    | some command => .ok (s, some (command, words))
    | none =>
      match Word.ofString word with
      | .divider => do return (← words.foldlM g.takeOperand s, none)
      | .long name value => do g.scan (← g.longFlag s name value) words
      | .short letter rest => do g.scan (← g.shortFlag s letter rest) words
      | .plain => do g.scan (← g.plainWord s word) words

/-- Reads all words of a command without subcommands. -/
def readAll (g : Grammar ο σ κ) (state : σ) (words : List String) : Except Refusal σ := do
  let (s, _) ← g.scan { state } words
  g.settle s

end Grammar

end TagLint.CommandLine
