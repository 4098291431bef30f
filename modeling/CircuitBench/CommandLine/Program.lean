import CircuitBench.CommandLine.Help
import CircuitBench.CommandLine.Host
import CircuitBench.CommandLine.Table
import CircuitBench.Json.Printer
import CircuitBench.Json.Reader
import CircuitBench.Service.Basic
import CircuitBench.Wire.Message
import CircuitBench.Yaml.Settings

/-!
# The program

The program loads its settings, serves one command on the built-in simulator, and ends
with status 0, with 1 and a message if the command fails, or with 2 if the command line
is wrong. Settings come from a file in YAML, from variables, and, for a simulation, from
options, where the later ones win; they are checked after each step.
-/

namespace CircuitBench.CommandLine

/-- Why a command fails. -/
inductive CommandError where
  | loading (error : SettingsError)
  | overriding (error : SettingsError)
  | notFound (path : String)
  | unreadable (path : String) (fault : FileFault)
  | unwritable (path : String) (fault : FileFault)
  /-- The JSON text of an input is no description. -/
  | description (input : String)
  | assembly (input : String) (error : ServiceError)
  | service (error : ServiceError)
  /-- The circuit that was to be validated is not valid. -/
  | invalid
  /-- The response to a simulation is an error with that text. -/
  | response (text : String)
deriving DecidableEq, Repr

def CommandError.message : CommandError → String
  | loading error => "Failed to load configuration: " ++ error.message
  | overriding error => error.message
  | notFound path => "File not found: " ++ path
  | unreadable path fault => "Failed to read file: " ++ path ++ ": " ++ fault.message
  | unwritable path fault => "Failed to write output file: " ++ path ++ ": " ++ fault.message
  | description input => "Invalid circuit description in " ++ input
  | assembly input error => "Failed to parse QASM from " ++ input ++ ": " ++ error.message
  | service error => error.message
  | invalid => "Circuit is not valid"
  | response text => text

/-- The part of a file name behind its last dot. A dot in front does not count. -/
def extension (path : String) : String :=
  let name := ((path.splitOn "/").getLast?.getD "").toList
  match name.drop 1 |>.reverse with
  | [] => ""
  | reversed =>
    if reversed.contains '.' then String.ofList (reversed.takeWhile (· ≠ '.')).reverse else ""

/-- Whether an input is assembly text: by its extension, or else if it does not begin like a JSON
object. -/
def isAssembly (input source : String) : Bool :=
  match (extension input).toLower with
  | "qasm" => true
  | "json" => false
  | _ => (Text.trimStart source.toList).head? ≠ some '\x7b'

def jsonText {α : Type} [Wire α] (value : α) : String :=
  Json.text .pretty (encode value) ++ "\n"

section

variable {m : Type → Type} [Monad m] [Host m]

/-- The text of the settings file with its path: of the one that is named, or of the one in the
home directory if there is one. -/
def settingsText (config : Option String) :
    ExceptT SettingsError m (Option String) := do
  match config with
  | some path =>
    match ← Host.readFile (m := m) path with
    | .ok text => return some text
    | .error fault => throw (.file path fault.message)
  | none =>
    match ← Host.home? (m := m) with
    | none => return none
    | some home =>
      let path := home ++ "/.qplay/config.yaml"
      match ← Host.readFile (m := m) path with
      | .ok text => return some text
      | .error (.other text) => throw (.file path text)
      | .error _ => return none

/-- The settings of the file, in the format that `decode` reads, and of the variables. -/
def loadSettings (decode : String → Except String Settings) (config : Option String) :
    ExceptT SettingsError m Settings := do
  let text? ← settingsText config
  let values ← Settings.variableNames.mapM fun name => do
    return (name, ← Host.lookup? (m := m) name)
  ExceptT.mk (pure (Settings.load decode (fun name => (values.lookup name).join) text?))

/-- The text of an input: of a file, or of the standard input for a dash. -/
def readSource (input : String) : ExceptT CommandError m String := do
  if input = "-" then
    return ← Host.readInput (m := m)
  else
    match ← Host.readFile (m := m) input with
    | .ok text => return text
    | .error .missing | .error .notDirectory => throw (.notFound input)
    | .error fault => throw (.unreadable input fault)

def writeResult (output : Option String) (text : String) : ExceptT CommandError m Unit := do
  match output with
  | none => Host.print (m := m) text
  | some path =>
    match ← Host.writeFile (m := m) path text with
    | .ok () => return ()
    | .error fault => throw (.unwritable path fault)

/-- A result of a service, or its error as an error of the command. -/
def served {α : Type} (result : Except ServiceError α) : ExceptT CommandError m α :=
  ExceptT.mk (pure (result.mapError .service))

/-- The description in an assembly text. -/
def imported (service : Service Float) (input source : String) :
    ExceptT CommandError m ImportResponse :=
  ExceptT.mk (pure ((service.importAssembly ⟨source⟩).mapError (.assembly input)))

def readDescription (service : Service Float) (input : String) :
    ExceptT CommandError m Description := do
  let source ← readSource input
  if isAssembly input source then
    return (← imported service input source).description
  else
    match (Json.read? source.toList).bind decode? with
    | some description => return description
    | none => throw (.description input)

/-- Runs a circuit and shows the result. -/
def simulate (service : Service Float) (input : String) (shots : Option UInt32) (format : Format) :
    ExceptT CommandError m Unit := do
  let request : SimulateRequest := { description := ← readDescription service input, shots }
  match format with
  | .json =>
    let response := service.simulate 0 request
    Host.print (m := m) (jsonText response)
    match response.success, response.error with
    | false, some text => throw (.response text)
    | _, _ => return ()
  | .table =>
    let info ← served service.info
    let shots := shots.getD service.settings.execution.defaultShots
    Host.print (m := m) (Table.announcement input info.name shots)
    let result ← served (service.run 0 request).result
    Host.print (m := m) (Table.ofResult result shots)

def backendsText (registry : Registry Float) (settings : Settings) : String :=
  let preference := settings.backend.preference.name
  let yesNo (b : Bool) := if b then "yes" else "no"
  "qplay Compiled-in backends:\n\n" ++
  String.join (registry.available.map fun (name, generation) =>
    "  ● " ++ name ++ " (" ++ generation.name ++ ")\n") ++
  "\nSelected for '" ++ preference ++ "': " ++
  match (Service.ofRegistry registry settings).info with
  | .ok info =>
    info.name ++ " (" ++ info.generation.name ++ ")\n" ++
    "    Qubits: " ++ toString info.maxQubits.toNat ++ "\n" ++
    "    Max shots: " ++ toString info.maxShots.toNat ++ "\n" ++
    "    Statevector: " ++ yesNo info.statevector ++ "\n" ++
    "    Seeded: " ++ yesNo info.seeded ++ "\n"
  | .error error => error.message ++ "\n"

/-- Serves a command under loaded settings. -/
def serve (machine : Simulator.Machine) (settings : Settings) :
    Command → ExceptT CommandError m Unit
  | .simulate input shots overrides format => do
    let settings ← ExceptT.mk (pure ((overrides.apply settings).checked.mapError .overriding))
    simulate (.builtIn Float machine settings) input shots format
  | .validate input => do
    let service := .builtIn Float machine settings
    let response := service.validate (← readDescription service input)
    Host.print (m := m) (jsonText response)
    if !response.valid then throw .invalid
  | .convert .assembly input output => do
    let service := .builtIn Float machine settings
    let response ← served (service.exportAssembly (← readDescription service input))
    writeResult output response.assembly
  | .convert .script input output => do
    let service := .builtIn Float machine settings
    let response ← served (service.exportScript (← readDescription service input))
    writeResult output response.script
  | .convert .description input output => do
    let service := .builtIn Float machine settings
    let response ← imported service input (← readSource input)
    writeResult output (jsonText response)
  | .backends => Host.print (m := m) (backendsText (Simulator.registry Float machine) settings)
  | .version => Host.print (m := m) versionText

def invoke (machine : Simulator.Machine) (invocation : Invocation) :
    ExceptT CommandError m Unit := do
  let settings ← (loadSettings Yaml.readSettings invocation.config).adapt .loading
  serve machine settings invocation.command

/-- Runs the program with its arguments. The result is the status with which it ends. -/
def run (machine : Simulator.Machine) (arguments : List String) : m UInt32 := do
  let fromEnvironment ← Host.environment? (m := m) "QPLAY_CONFIG"
  match Request.ofArguments fromEnvironment arguments with
  | .error error =>
    Host.complain (m := m)
      ("error: " ++ error.message ++ "\n\nFor more information, try '--help'.")
    return 2
  | .ok .programHelp =>
    Host.print (m := m) (programHelp fromEnvironment)
    return 0
  | .ok (.commandHelp name) =>
    Host.print (m := m) (name.help fromEnvironment)
    return 0
  | .ok .helpHelp =>
    Host.print (m := m) helpHelp
    return 0
  | .ok .programVersion =>
    Host.print (m := m) versionLine
    return 0
  | .ok (.run invocation) =>
    match ← (invoke machine invocation : ExceptT CommandError m Unit) with
    | .ok () => return 0
    | .error error =>
      Host.complain (m := m) ("Error: " ++ error.message)
      return 1

end

end CircuitBench.CommandLine
