import CircuitBench.CommandLine.Command

/-!
# Help texts

A help text says what a command is for, how it is written, and what its operands and
options are. The explanations stand in a column of their own and are broken at spaces so
that no line has more than a hundred characters.
-/

namespace CircuitBench.CommandLine

def lineWidth : Nat := 100

/-- Puts words into lines, where `line` is the line so far. -/
def fill (width : Nat) (line : String) : List String → List String
  | [] => [line]
  | word :: rest =>
    if line.length + 1 + word.length ≤ width then fill width (line ++ " " ++ word) rest
    else line :: fill width word rest

/-- A text as lines of at most that many characters, as far as its words allow. -/
def wrap (width : Nat) (text : String) : List String :=
  match text.splitOn " " with
  | [] => []
  | word :: rest => fill width word rest

def padRight (width : Nat) (text : String) : String :=
  text ++ String.ofList (List.replicate (width - text.length) ' ')

def columns (rows : List (String × String)) : String :=
  let width := (rows.map (·.1.length)).foldl max 0
  let start := width + 4
  let gap := "\n" ++ padRight start ""
  String.join <| rows.map fun (label, text) =>
    "  " ++ padRight width label ++ "  " ++
      String.intercalate gap (wrap (lineWidth - start) text) ++ "\n"

def Flag.label (flag : Flag) : String :=
  (match flag.letter with
    | some letter => "-" ++ String.singleton letter ++ ", "
    | none => "    ") ++
  "--" ++ flag.name ++
  match flag.effect with
  | .value placeholder _ => " <" ++ placeholder ++ ">"
  | .count => "..."
  | .help | .version => ""

def optionColumns (flags : List Flag) : String :=
  "\nOptions:\n" ++ columns (flags.map fun flag => (flag.label, flag.help))

namespace CommandName

def about : CommandName → String
  | simulate => "Run a circuit on the local simulator"
  | validate => "Check a circuit description without running it"
  | convert .assembly => "Convert a circuit description to OpenQASM 2.0"
  | convert .script => "Generate Qiskit-style Python source for a circuit description"
  | convert .description => "Convert OpenQASM text back into a circuit description"
  | backends => "List compiled-in simulator backends"
  | version => "Show version information"

def inputHelp : CommandName → String
  | simulate => "Input file (JSON circuit description or QASM), `-` for stdin"
  | convert .description => "Input file (QASM), `-` for stdin"
  | _ => "Input file (JSON circuit description), `-` for stdin"

def help (fromEnvironment : Option String) (name : CommandName) : String :=
  name.about ++ "\n\nUsage: qplay " ++ name.text ++ " [OPTIONS]" ++
    (if name.operands = 0 then "\n"
      else " <INPUT>\n\nArguments:\n" ++ columns [("<INPUT>", name.inputHelp)]) ++
    optionColumns (name.flags fromEnvironment)

end CommandName

def helpAbout : String := "Print this message or the help of the given subcommand(s)"

def programHelp (fromEnvironment : Option String) : String :=
  "qplay command-line interface\n\nUsage: qplay [OPTIONS] <COMMAND>\n\nCommands:\n" ++
    columns (CommandName.all.map (fun name => (name.text, name.about)) ++
      [(helpCommand, helpAbout)]) ++
    optionColumns (generalFlags fromEnvironment)

def helpHelp : String :=
  helpAbout ++ "\n\nUsage: qplay help [COMMAND]...\n\nArguments:\n" ++
    columns [("[COMMAND]...", "Print help for the subcommand(s)")]

def versionNumber : String := "0.4.2"

def versionLine : String := "qplay " ++ versionNumber ++ "\n"

def versionText : String :=
  "qplay v" ++ versionNumber ++ " - circuit interchange and bounded simulation\n\n" ++
  "Components:\n" ++
  "  qplay-ir           Closed gate-set circuit IR\n" ++
  "  qplay-qasm         OpenQASM 2.0 emitter, parser and code generator\n" ++
  "  qplay-hal          Simulation backend abstraction\n" ++
  "  qplay-adapter-sim  Local statevector simulator\n" ++
  "  qplay-engine       Request surface with per-call deadlines\n" ++
  "  qplay-cli          Command-line interface\n\n" ++
  "License:    Apache-2.0\n"

end CircuitBench.CommandLine
