import CircuitBench.Circuit.Basic

/-!
# Levels and depth

Two operations depend on each other if they share a qubit, and the later one has to
wait for the earlier one. The dependency graph of a circuit does not keep all of these
pairs: an operation is joined, for each of its qubits, only to the operation that came
last on that qubit.

The level of an operation is one more than the highest level among the operations it is
joined to, so operations of the same level can run side by side. The depth of a circuit
is its highest level; final measurements do not count.
-/

namespace CircuitBench

/-- An edge that ends in some operation: the operation at `source` was the last before it
on `wire`. -/
structure Dependency where
  source : Nat
  wire : UInt32
deriving DecidableEq, Repr

/-- The edges of a circuit, grouped by the operation they end in, in the order of the
operations. -/
structure DependencyGraph where
  incoming : List (List Dependency)
deriving DecidableEq, Repr

/-- The position of the operation that came last on each wire. The newest entry of a wire is
in front and the only one that counts. -/
abbrev LastOnWire := List (UInt32 × Nat)

namespace DependencyGraph

/-- The edges into an operation on some wires, and the wires after it. The wires are taken one
after the other, and each of them belongs to the operation as soon as it is taken. -/
def connect (position : Nat) (last : LastOnWire) : List UInt32 → List Dependency × LastOnWire
  | [] => ([], last)
  | wire :: rest =>
    let (edges, after) := connect position ((wire, position) :: last) rest
    (((last.lookup wire).map (⟨·, wire⟩)).toList ++ edges, after)

/-- The edges into operations, the first of them at `position`. -/
def incomingFrom (position : Nat) (last : LastOnWire) : List Operation → List (List Dependency)
  | [] => []
  | op :: rest =>
    let (edges, after) := connect position last op.qubits
    edges :: incomingFrom (position + 1) after rest

def ofCircuit (c : Circuit) : DependencyGraph :=
  ⟨incomingFrom 0 [] c.ops⟩

/-- The level of the operation at a position, zero if none is known. -/
def known (levels : Array Nat) (position : Nat) : Nat :=
  levels.getD position 0

/-- The highest of the levels that edges come from. -/
def highest (levels : Array Nat) (edges : List Dependency) : Nat :=
  (edges.map fun edge => known levels edge.source).foldl max 0

/-- The levels of all operations, once those before the given edges are known. Edges come from
earlier operations only, so the order of the operations is a topological one. -/
def levelsFrom (levels : Array Nat) : List (List Dependency) → Array Nat
  | [] => levels
  | edges :: rest => levelsFrom (levels.push (highest levels edges + 1)) rest

/-- The level of every operation, in the order of the operations. -/
def levels (graph : DependencyGraph) : Array Nat :=
  levelsFrom #[] graph.incoming

def depth (graph : DependencyGraph) : Nat :=
  graph.levels.foldl max 0

@[simp] theorem length_incomingFrom (position : Nat) (last : LastOnWire) (ops : List Operation) :
    (incomingFrom position last ops).length = ops.length := by
  induction ops generalizing position last with
  | nil => rfl
  | cons op rest ih => simp [incomingFrom, ih]

@[simp] theorem size_levelsFrom (levels : Array Nat) (edges : List (List Dependency)) :
    (levelsFrom levels edges).size = levels.size + edges.length := by
  induction edges generalizing levels with
  | nil => rfl
  | cons into rest ih =>
    simp only [levelsFrom, ih, Array.size_push, List.length_cons]
    omega

end DependencyGraph

namespace Circuit

/-- The level of every operation, in the order of the operations. -/
def levels (c : Circuit) : List Nat :=
  (DependencyGraph.ofCircuit c).levels.toList

/-- The length of the longest chain of dependent operations. -/
def depth (c : Circuit) : Nat :=
  (DependencyGraph.ofCircuit c).depth

@[simp] theorem length_levels (c : Circuit) : c.levels.length = c.gateCount := by
  simp [levels, DependencyGraph.levels, DependencyGraph.ofCircuit, gateCount]

end Circuit

end CircuitBench
