/-!
# YAML documents

The part of YAML that settings files need: scalars with their text, sequences and
mappings. A plain scalar is kept apart from a quoted one, because only a plain scalar
can be a number or a null. What a scalar stands for is for its reader to say.
-/

namespace CircuitBench

/-- A node of a YAML document. -/
inductive Yaml where
  | scalar (plain : Bool) (text : String)
  | sequence (items : List Yaml)
  /-- The entries in their order; a key may be repeated. -/
  | mapping (entries : List (String × Yaml))
deriving Inhabited

namespace Yaml

/-- A node that is not written at all. -/
def empty : Yaml := scalar true ""

end Yaml

end CircuitBench
