import CircuitBench.CommandLine.VariableFile
import CircuitBench.FileTree

/-!
# Hosts

What the program needs of the system that it runs on: files, variables, an input and two
outputs. Besides the real system there is a host that keeps everything in memory, so that
what the program does is a function of its arguments and of the state of that host.
-/

namespace CircuitBench.CommandLine

/-- Access to the system from within `m`. -/
class Host (m : Type → Type) where
  readFile : (path : String) → m (Except FileFault String)
  writeFile : (path text : String) → m (Except FileFault Unit)
  /-- All of the standard input. -/
  readInput : m String
  environment? : (name : String) → m (Option String)
  /-- The home directory of the user. -/
  home? : m (Option String)
  /-- The value of a variable that is set in the environment or in a file of variables. -/
  lookup? : (name : String) → m (Option String)
  print : (text : String) → m Unit
  /-- Writes a line to the output for errors. -/
  complain : (line : String) → m Unit

/-- The state of a host in memory. The working directory is also the home directory. -/
structure Session where
  files : FileTree := .empty
  input : String := ""
  environment : List (String × String) := []
  output : String := ""
  /-- The lines of the output for errors, newest first. -/
  errors : List String := []
  /-- What a file of variables sets in an environment. -/
  setBy : (environment : String → Option String) → (text name : String) → Option String :=
    fun _ => VariableFile.lookup?

namespace Session

/-- The value of a variable. What is set in the environment stands, whatever the file says. -/
def lookup? (session : Session) (name : String) : Option String :=
  let environment (name : String) := session.environment.lookup name
  (environment name).or ((session.files.read ".env").toOption.bind fun text =>
    session.setBy environment text name)

instance : Host (StateM Session) where
  readFile path := return (← get).files.read path
  writeFile path text := do
    let session ← get
    match session.files.write path text with
    | .error fault => return .error fault
    | .ok files =>
      set { session with files }
      return .ok ()
  readInput := return (← get).input
  environment? name := return (← get).environment.lookup name
  home? := return some "."
  lookup? name := return (← get).lookup? name
  print text := modify fun session => { session with output := session.output ++ text }
  complain line := modify fun session => { session with errors := line :: session.errors }

end Session

end CircuitBench.CommandLine
