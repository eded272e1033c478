/-!
# Trees

Trees with any number of children, in a fixed order.
-/

set_option autoImplicit false

namespace ChunkPlan

inductive Tree (α : Type) where
  | node (value : α) (children : List (Tree α))
  deriving Repr, Inhabited

namespace Tree

variable {α β : Type}

def value : Tree α → α
  | .node value _ => value

def children : Tree α → List (Tree α)
  | .node _ children => children

mutual

/-- All values, each one before those below it. -/
def preorder : Tree α → List α
  | .node value children => value :: preorderAll children

def preorderAll : List (Tree α) → List α
  | [] => []
  | tree :: trees => preorder tree ++ preorderAll trees

end

mutual

def map (f : α → β) : Tree α → Tree β
  | .node value children => .node (f value) (mapAll f children)

def mapAll (f : α → β) : List (Tree α) → List (Tree β)
  | [] => []
  | tree :: trees => map f tree :: mapAll f trees

end

mutual

/-- Replaces every value by an action, each one before those below it. -/
def traverse {m : Type → Type} [Monad m] (f : α → m β) : Tree α → m (Tree β)
  | .node value children => do
    let value ← f value
    return .node value (← traverseAll f children)

def traverseAll {m : Type → Type} [Monad m] (f : α → m β) : List (Tree α) → m (List (Tree β))
  | [] => return []
  | tree :: trees => do
    let tree ← traverse f tree
    return tree :: (← traverseAll f trees)

end

end Tree

end ChunkPlan
