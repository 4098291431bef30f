import CircuitBench.Backend.Error
import CircuitBench.CommandLine.Argument
import CircuitBench.Settings
import CircuitBench.Text.Numeral

/-!
# The commands

What the program can be told to do, and how it is told: the commands with their operands
and options. Two options are for every command and may stand in front of it, too: how
much to log, and the settings file. The file that is named last wins over the one that is
named first, and either over the one that the environment names.
-/

namespace CircuitBench.CommandLine

inductive Format where
  | json
  | table
deriving DecidableEq, Repr

def Format.ofName? : String → Option Format
  | "json" => some json
  | "table" => some table
  | _ => none

/-- Settings that are replaced for one simulation. -/
structure Overrides where
  timeoutSecs : Option UInt64 := none
  preference : Option Preference := none
  seed : Option UInt64 := none
deriving DecidableEq, Repr

def Overrides.apply (o : Overrides) (s : Settings) : Settings :=
  { s with
    execution := { s.execution with timeoutSecs := o.timeoutSecs.getD s.execution.timeoutSecs }
    backend :=
      { preference := o.preference.getD s.backend.preference
        seed := o.seed.or s.backend.seed } }

/-- What to convert a circuit to. -/
inductive Conversion where
  /-- A circuit to assembly text. -/
  | assembly
  /-- A circuit to a script. -/
  | script
  /-- An assembly text to a description. -/
  | description
deriving DecidableEq, Repr

/-- What the program is told to do. -/
inductive Command where
  | simulate (input : String) (shots : Option UInt32) (overrides : Overrides) (format : Format)
  | validate (input : String)
  | convert (conversion : Conversion) (input : String) (output : Option String)
  | backends
  | version
deriving DecidableEq, Repr

/-- A command together with the settings file to use. -/
structure Invocation where
  config : Option String
  command : Command
deriving DecidableEq, Repr

inductive CommandName where
  | simulate
  | validate
  | convert (conversion : Conversion)
  | backends
  | version
deriving DecidableEq, Repr

namespace CommandName

def all : List CommandName :=
  [simulate, validate, convert .assembly, convert .script, convert .description, backends, version]

def text : CommandName → String
  | simulate => "simulate"
  | validate => "validate"
  | convert .assembly => "export-qasm"
  | convert .script => "export-code"
  | convert .description => "import-qasm"
  | backends => "backends"
  | version => "version"

def operands : CommandName → Nat
  | simulate | validate | convert _ => 1
  | backends | version => 0

end CommandName

/-! The readings of values. -/

/-- A number of shots: a number of 32 bits that may have a sign. -/
def shots? (text : String) : Option UInt32 :=
  ((Text.readSigned? 64 text.toList).filter fun n => 0 ≤ n ∧ n < 2 ^ 32).map
    fun n => UInt32.ofNat n.toNat

def number? (text : String) : Option UInt64 :=
  (Text.readUnsigned? 64 text.toList).map UInt64.ofNat

/-! The options. -/

/-- An option whose value has to be readable. -/
def valueFlag {α : Type} (name : String) (letter : Option Char) (placeholder : String)
    (read? : String → Option α) (help : String) : Flag :=
  ⟨name, letter, .value placeholder fun text => (read? text).isSome, help⟩

def path? (text : String) : Option String :=
  if text = "" then none else some text

def shotsFlag : Flag := valueFlag "shots" 's' "SHOTS" shots? "Number of shots"

def timeoutFlag : Flag := valueFlag "timeout" 't' "TIMEOUT" number? "Deadline in seconds"

def backendFlag : Flag :=
  valueFlag "backend" 'b' "BACKEND" Preference.ofText?
    "Simulator API generation (auto, sampling, legacy)"

def seedFlag : Flag :=
  valueFlag "seed" none "SEED" number? "RNG seed for reproducible counts"

def formatFlag : Flag :=
  valueFlag "format" 'f' "FORMAT" Format.ofName?
    "Output format [default: json] [possible values: json, table]"

def outputFlag : Flag := valueFlag "output" 'o' "OUTPUT" path? "Output file"

def verboseFlag : Flag :=
  ⟨"verbose", 'v', .count, "Increase verbosity (-v, -vv, -vvv)"⟩

/-- The option for the settings file; help tells what the environment says about it. -/
def configFlag (fromEnvironment : Option String) : Flag :=
  valueFlag "config" 'c' "CONFIG" path?
    ("Configuration file (defaults to ~/.qplay/config.yaml when present) [env: QPLAY_CONFIG=" ++
      fromEnvironment.getD "" ++ "]")

def helpFlag : Flag := ⟨"help", 'h', .help, "Print help"⟩

def versionFlag : Flag := ⟨"version", 'V', .version, "Print version"⟩

def CommandName.flags (fromEnvironment : Option String) : CommandName → List Flag
  | simulate =>
    [shotsFlag, verboseFlag, configFlag fromEnvironment, timeoutFlag, backendFlag, seedFlag,
      formatFlag, helpFlag]
  | convert _ => [outputFlag, verboseFlag, configFlag fromEnvironment, helpFlag]
  | validate | backends | version => [verboseFlag, configFlag fromEnvironment, helpFlag]

def generalFlags (fromEnvironment : Option String) : List Flag :=
  [verboseFlag, configFlag fromEnvironment, helpFlag, versionFlag]

def helpCommand : String := "help"

/-- What a command line asks for. -/
inductive Request where
  | run (invocation : Invocation)
  /-- To explain the program. -/
  | programHelp
  /-- To explain a command. -/
  | commandHelp (name : CommandName)
  /-- To explain the command that explains. -/
  | helpHelp
  | programVersion
deriving DecidableEq, Repr

def Command.ofArguments (name : CommandName) (a : Arguments) : Except UsageError Command :=
  match name, a.operands with
  | .backends, _ => .ok .backends
  | .version, _ => .ok .version
  | .validate, [input] => .ok (.validate input)
  | .convert conversion, [input] => .ok (.convert conversion input (a.value? "output"))
  | .simulate, [input] =>
    .ok (.simulate input ((a.value? "shots").bind shots?)
      { timeoutSecs := (a.value? "timeout").bind number?
        preference := (a.value? "backend").bind Preference.ofText?
        seed := (a.value? "seed").bind number? }
      (((a.value? "format").bind Format.ofName?).getD .json))
  | _, _ => .error .missingOperand

def Request.ofHelp : List String → Except UsageError Request
  | [] => .ok .programHelp
  | [text] =>
    match CommandName.all.find? (·.text = text) with
    | some name => .ok (.commandHelp name)
    | none => if text = helpCommand then .ok .helpHelp else .error (.unknown text)
  | text :: _ => .error (.unknown text)

/-- The settings file to use. The environment counts on each level on which no file is named, and
what it says has to be a path if it counts. -/
def chooseConfig (outer inner fromEnvironment : Option String) :
    Except UsageError (Option String) :=
  if fromEnvironment = some "" ∧ (outer = none ∨ inner = none) then
    .error (.invalidValue "config" "")
  else .ok (inner.or (outer.or fromEnvironment))

/-- What a command line asks for; `fromEnvironment` is the settings file that the environment
names. -/
def Request.ofArguments (fromEnvironment : Option String) (arguments : List String) :
    Except UsageError Request :=
  let names := CommandName.all.map CommandName.text
  match read ⟨generalFlags fromEnvironment, 0, helpCommand :: names⟩ {} none arguments with
  | .error .help => .ok .programHelp
  | .error .version => .ok .programVersion
  | .error (.usage error) => .error error
  | .ok outer =>
    match outer.command with
    | none => .error .missingCommand
    | some (text, rest) =>
      match CommandName.all.find? (·.text = text) with
      | none => ofHelp rest
      | some name =>
        match read ⟨name.flags fromEnvironment, name.operands, []⟩ {} none rest with
        | .error .help => .ok (.commandHelp name)
        | .error .version => .ok .programVersion
        | .error (.usage error) => .error error
        | .ok inner => do
          let command ← Command.ofArguments name inner
          let config ←
            chooseConfig (outer.value? "config") (inner.value? "config") fromEnvironment
          return .run { config, command }

end CircuitBench.CommandLine
