import Stencil.Notation.Json
import Stencil.Value

/-!
# Values from documents

The data of a document as values of templates. Arrays become lists, objects become dictionaries with
their entries in order.
-/

namespace Stencil.Value

mutual

/-- The value of a document. -/
def ofJson : Json → Value
  | .null => .none
  | .bool b => .bool b
  | .int i => .int i
  | .float x => .float x
  | .string text => .ofString text
  | .array items => .ofList (ofItems items)
  | .object entries => .ofEntries (ofNamed entries)

/-- The values of the items of an array. -/
def ofItems : List Json → List Value
  | [] => []
  | item :: rest => ofJson item :: ofItems rest

/-- The values of the entries of an object. -/
def ofNamed : List (String × Json) → List (String × Value)
  | [] => []
  | (name, item) :: rest => (name, ofJson item) :: ofNamed rest

end

end Stencil.Value
