import CircuitBench.Binary64.Fixed
import CircuitBench.Service.Execution

/-!
# Results as a table

The outcomes of a run, the most frequent ones first, with their share in percent and a
bar of one block for every two percent. At most sixteen outcomes are shown.
-/

namespace CircuitBench.CommandLine

def padLeft (width : Nat) (text : String) : String :=
  String.ofList (List.replicate (width - text.length) ' ') ++ text

namespace Table

def mostRows : Nat := 16

def percentage (count : UInt64) (shots : UInt32) : Float :=
  count.toFloat / shots.toFloat * 100.0

/-- The bar for a share. A half block counts as a whole one. -/
def bar (percentage : Float) : String :=
  String.ofList (List.replicate (percentage / 2.0).round.toUInt64.toNat '█')

def row (shots : UInt32) (bitstring : String) (count : UInt64) : String :=
  let share := percentage count shots
  "  " ++ bitstring ++ ": " ++ padLeft 6 (toString count.toNat) ++ " (" ++
    padLeft 5 (Binary64.fixed 2 share) ++ "%) " ++ bar share ++ "\n"

def announcement (input backend : String) (shots : UInt32) : String :=
  "→ Simulating " ++ input ++ " on " ++ backend ++ " (" ++ toString shots.toNat ++ " shots)\n"

def ofResult {R : Type} (result : RunResult R) (shots : UInt32) : String :=
  let rows := Histogram.byCount result.counts
  let recorded := Histogram.total result.counts
  "\n✓ Results (" ++ toString result.width.toNat ++ " qubits, depth " ++ toString result.depth ++
    ", " ++ toString result.gateCount ++ " gates):\n" ++
  String.join ((rows.take mostRows).map fun (bitstring, count) => row shots bitstring count) ++
  (if mostRows < rows.length then
    "  ... and " ++ toString (rows.length - mostRows) ++ " more outcomes\n" else "") ++
  (if recorded < shots.toUInt64 then
    "\n  " ++ toString (shots.toUInt64 - recorded).toNat ++ " of " ++ toString shots.toNat ++
      " shots lost to rounding\n" else "") ++
  match result.statevector with
  | some amplitudes => "\n  Statevector: " ++ toString amplitudes.size ++ " amplitudes\n"
  | none => ""

end Table

end CircuitBench.CommandLine
