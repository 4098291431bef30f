import CircuitBench.CommandLine.Program

/-!
# The executable

The program on the real system. Without a seed the shots are drawn from words that a
random seed gives.
-/

namespace CircuitBench.CommandLine

/-- What an error of the system says about a file. The code of the error may come negated. -/
def faultOf (error : IO.Error) : FileFault :=
  match error with
  | .noFileOrDirectory .. => .missing
  | .inappropriateType _ code _ =>
    if code = 20 ∨ 0 - code = 20 then .notDirectory else .isDirectory
  | error => .other error.toString

def attempt {α : Type} (action : IO α) : IO (Except FileFault α) := do
  match ← action.toBaseIO with
  | .ok result => return .ok result
  | .error error => return .error (faultOf error)

def firstReadable : List String → IO (Option String)
  | [] => return none
  | path :: rest => do
    match ← attempt (IO.FS.readFile path) with
    | .ok text => return some text
    | .error _ => firstReadable rest

def variableFile? : IO (Option String) := do
  let depth := ((← IO.currentDir).toString.splitOn "/").length
  firstReadable ((List.range depth).map fun up =>
    String.join (List.replicate up "../") ++ ".env")

instance : Host IO where
  readFile path := attempt (IO.FS.readFile path)
  writeFile path text := attempt (IO.FS.writeFile path text)
  readInput := do (← IO.getStdin).readToEnd
  environment? name := IO.getEnv name
  home? := IO.getEnv "HOME"
  lookup? name := do
    match ← IO.getEnv name with
    | some value => return some value
    | none => return (← variableFile?).bind (VariableFile.lookup? · name)
  print := IO.print
  complain := IO.eprintln

end CircuitBench.CommandLine

def main (arguments : List String) : IO UInt32 := do
  let seed ← IO.rand 0 (2 ^ 64 - 1)
  CircuitBench.CommandLine.run { entropy := .ofSeed (UInt64.ofNat seed) } arguments
