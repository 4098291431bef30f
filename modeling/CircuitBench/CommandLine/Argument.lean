/-!
# Arguments of a command line

A command line is read from left to right. What begins with two dashes is an option by
its name, what begins with one dash is a row of options by their letters, and anything
else is a command or an operand; a single dash is an operand. The value of an option is
attached to it, with or without an equals sign behind a letter and with one behind a
name, or it is the next argument, which may then not look like an option. Behind two
dashes that stand alone there are operands only.
-/

namespace CircuitBench.CommandLine

/-- What an option does. -/
inductive Effect where
  /-- It takes a value, which has to pass a check, and is given at most once. -/
  | value (placeholder : String) (accepts : String → Bool)
  /-- It counts how often it is given. -/
  | count
  | help
  | version

/-- An option, with what help says about it. -/
structure Flag where
  name : String
  letter : Option Char
  effect : Effect
  help : String

/-- What may stand on a level of the command line. -/
structure Level where
  flags : List Flag
  operands : Nat
  commands : List String

/-- What is wrong with a command line. -/
inductive UsageError where
  | unknown (argument : String)
  | missingValue (option : String)
  | unexpectedValue (option : String)
  | invalidValue (option value : String)
  | repeated (option : String)
  | missingOperand
  | missingCommand
deriving DecidableEq, Repr

def UsageError.message : UsageError → String
  | unknown argument => "unexpected argument '" ++ argument ++ "' found"
  | missingValue option => "a value is required for '--" ++ option ++ "'"
  | unexpectedValue option => "no value is allowed for '--" ++ option ++ "'"
  | invalidValue option value => "invalid value '" ++ value ++ "' for '--" ++ option ++ "'"
  | repeated option => "the argument '--" ++ option ++ "' cannot be used multiple times"
  | missingOperand => "a required argument was not provided"
  | missingCommand => "a subcommand is required but none was provided"

/-- Why reading ends before the end of the command line. -/
inductive Stop where
  | usage (error : UsageError)
  | help
  | version

structure Arguments where
  /-- The values of options by name, newest first. -/
  values : List (String × String) := []
  /-- The operands, newest first. -/
  operands : List String := []
  /-- The command, with the arguments that are left for it. -/
  command : Option (String × List String) := none

namespace Arguments

def value? (a : Arguments) (name : String) : Option String :=
  a.values.lookup name

def give (a : Arguments) (name : String) (accepts : String → Bool) (value : String) :
    Except Stop Arguments :=
  if (a.value? name).isSome then .error (.usage (.repeated name))
  else if accepts value then .ok { a with values := (name, value) :: a.values }
  else .error (.usage (.invalidValue name value))

def operand (a : Arguments) (level : Level) (text : String) : Except Stop Arguments :=
  if a.operands.length < level.operands then .ok { a with operands := text :: a.operands }
  else .error (.usage (.unknown text))

end Arguments

/-- An option that still waits for its value. -/
abbrev Waiting := Option (String × (String → Bool))

/-- Whether an argument looks like an option. A single dash does not. -/
def isOption (argument : String) : Bool :=
  match argument.toList with
  | '-' :: _ :: _ => true
  | _ => false

/-- Reads an option by name, with the value attached to it if there is one. -/
def readName (level : Level) (a : Arguments) (name : String) (attached : Option String) :
    Except Stop (Arguments × Waiting) :=
  match level.flags.find? (·.name = name) with
  | none => .error (.usage (.unknown name))
  | some flag =>
    match flag.effect, attached with
    | .value _ accepts, some value => (a.give name accepts value).map (·, none)
    | .value _ accepts, none => .ok (a, some (name, accepts))
    | _, some _ => .error (.usage (.unexpectedValue name))
    | .count, none => .ok (a, none)
    | .help, none => .error .help
    | .version, none => .error .version

/-- Reads options by letters. What follows the letter of an option that takes a value is that
value. -/
def readLetters (level : Level) (a : Arguments) : List Char → Except Stop (Arguments × Waiting)
  | [] => .ok (a, none)
  | letter :: rest =>
    match level.flags.find? (·.letter = some letter) with
    | none => .error (.usage (.unknown (String.singleton letter)))
    | some flag =>
      match flag.effect, rest with
      | .value _ accepts, [] => .ok (a, some (flag.name, accepts))
      | .value _ accepts, '=' :: value =>
        (a.give flag.name accepts (String.ofList value)).map (·, none)
      | .value _ accepts, value => (a.give flag.name accepts (String.ofList value)).map (·, none)
      | .count, rest => readLetters level a rest
      | .help, _ => .error .help
      | .version, _ => .error .version

def readOption (level : Level) (a : Arguments) (argument : String) :
    Except Stop (Arguments × Waiting) :=
  match argument.toList with
  | '-' :: '-' :: text =>
    let name := String.ofList (text.takeWhile (· ≠ '='))
    let attached := match text.dropWhile (· ≠ '=') with
      | '=' :: value => some (String.ofList value)
      | _ => none
    readName level a name attached
  | '-' :: letters => readLetters level a letters
  | _ => .error (.usage (.unknown argument))

/-- Reads the arguments of a level; `waiting` is an option whose value comes next. -/
def read (level : Level) (a : Arguments) (waiting : Waiting) :
    List String → Except Stop Arguments
  | [] =>
    match waiting with
    | some (name, _) => .error (.usage (.missingValue name))
    | none => .ok a
  | argument :: rest =>
    match waiting with
    | some (name, accepts) =>
      if isOption argument then .error (.usage (.missingValue name))
      else
        match a.give name accepts argument with
        | .error stop => .error stop
        | .ok a => read level a none rest
    | none =>
      if argument = "--" then rest.foldlM (Arguments.operand · level ·) a
      else if isOption argument then
        match readOption level a argument with
        | .error stop => .error stop
        | .ok (a, waiting) => read level a waiting rest
      else if level.commands.contains argument then
        .ok { a with command := some (argument, rest) }
      else
        match a.operand level argument with
        | .error stop => .error stop
        | .ok a => read level a none rest

end CircuitBench.CommandLine
