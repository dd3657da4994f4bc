/-!
# Structured data

What a file holds before it becomes text: texts, counts, flags, lists and records. One value can be
written in several notations.
-/

namespace DepGraph

inductive Data where
  | null
  | flag (b : Bool)
  | count (n : Nat)
  | text (s : String)
  | list (items : List Data)
  | record (fields : List (String × Data))
  deriving Repr

namespace Data

/-- The text, or null. -/
def optionalText : Option String → Data
  | some s => .text s
  | none => .null

/-- A field that is left out when there is no value. -/
def optionalField (name : String) : Option Data → List (String × Data)
  | some value => [(name, value)]
  | none => []

end Data

end DepGraph
