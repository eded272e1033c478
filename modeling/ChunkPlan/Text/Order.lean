/-!
# Order of texts

Texts are sorted by code points, character by character.
-/

set_option autoImplicit false

namespace ChunkPlan.Text

/-- Whether a text comes before another one or is the same. -/
def precedes (a b : String) : Bool := decide (a ≤ b)

def sorted (texts : List String) : List String := texts.mergeSort precedes

end ChunkPlan.Text
