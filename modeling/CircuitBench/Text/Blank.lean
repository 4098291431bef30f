/-!
# Blank characters

The characters with Unicode's `White_Space` property, and removing them from
the ends of a text. Core's `Char.isWhitespace` knows four of them only, so names
and keywords that a client pads with any other blank need this table.
-/

namespace CircuitBench.Text

/-- The closed ranges of code points with the `White_Space` property. -/
def blankRanges : List (Nat × Nat) :=
  [(0x09, 0x0D), (0x20, 0x20), (0x85, 0x85), (0xA0, 0xA0), (0x1680, 0x1680),
    (0x2000, 0x200A), (0x2028, 0x2029), (0x202F, 0x202F), (0x205F, 0x205F), (0x3000, 0x3000)]

/-- Whether a character has the `White_Space` property. -/
def isBlank (c : Char) : Bool :=
  blankRanges.any fun range => range.1 ≤ c.toNat && c.toNat ≤ range.2

def trimStart (text : List Char) : List Char :=
  text.dropWhile isBlank

def trimEnd (text : List Char) : List Char :=
  (text.reverse.dropWhile isBlank).reverse

/-- A text without the blanks at either end; blanks between other characters stay. -/
def trim (text : List Char) : List Char :=
  trimEnd (trimStart text)

/-- A name in the form in which names are compared: no blanks at the ends, and the
capital letters `A` to `Z` in lower case. Other capitals keep their case. -/
def foldName (name : String) : String :=
  String.ofList ((trim name.toList).map Char.toLower)

end CircuitBench.Text
