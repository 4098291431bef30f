import CircuitBench.Circuit.Basic

/-!
# Instruction streams

To execute a circuit is to apply its operations and then to measure every qubit into
the classical bit of the same index.
-/

namespace CircuitBench

/-- An element of the instruction stream of a circuit. -/
inductive Instruction where
  | apply (op : Operation)
  /-- Measures a qubit into the classical bit of the same index. -/
  | measure (qubit : Nat)
deriving DecidableEq, Repr

namespace Circuit

/-- The operations of a circuit in order, then one measurement per qubit in ascending order. -/
def instructions (c : Circuit) : List Instruction :=
  c.ops.map .apply ++ (List.range c.width.toNat).map .measure

@[simp] theorem length_instructions (c : Circuit) :
    c.instructions.length = c.gateCount + c.width.toNat := by
  simp [instructions, gateCount]

end Circuit

end CircuitBench
