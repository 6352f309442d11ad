/-!
Syntax trees over the bytes of a source text, and their traversal in pre-order.
-/

namespace FluentBuilder.Syntax

structure Node where
  /-- What the node is. -/
  kind : String
  /-- The offset of its first byte. -/
  start : Nat
  /-- The offset behind its last byte. -/
  stop : Nat
  /-- What the node is to its parent. -/
  role : Option String := none
  /-- Whether the grammar names the node; the others are keywords and marks. -/
  isNamed : Bool := true
  /-- Whether the node is needed here but not in the text. -/
  isMissing : Bool := false
  children : List Node := []
deriving Repr, Inhabited

namespace Node

def childByRole? (node : Node) (role : String) : Option Node :=
  node.children.find? (·.role == some role)

def namedChildren (node : Node) : List Node := node.children.filter (·.isNamed)

/-- Whether the node stands for a fault of the text. -/
def isFault (node : Node) : Bool := node.kind == "ERROR" || node.isMissing

/-! ### Size -/

mutual

def size : Node → Nat
  | ⟨_, _, _, _, _, _, children⟩ => sizeOfAll children + 1

def sizeOfAll : List Node → Nat
  | [] => 0
  | node :: rest => size node + sizeOfAll rest

end

theorem size_eq (node : Node) : node.size = sizeOfAll node.children + 1 := by
  cases node
  rfl

theorem sizeOfAll_append (a b : List Node) : sizeOfAll (a ++ b) = sizeOfAll a + sizeOfAll b := by
  induction a with
  | nil => simp [sizeOfAll]
  | cons node rest ih => simp [sizeOfAll, ih, Nat.add_assoc]

/-! ### Traversal -/

/-- A node in a tree, with the nodes around it, the nearest first. -/
structure InTree where
  node : Node
  ancestors : List Node := []

def InTree.children (place : InTree) : List InTree :=
  place.node.children.map fun child => ⟨child, place.node :: place.ancestors⟩

theorem InTree.map_node_children (place : InTree) :
    place.children.map (·.node) = place.node.children := by
  simp [InTree.children, Function.comp_def]

/-- The nodes from the pending ones down. The next node is the first that is pending, and its
children come before the others. -/
def walkFrom : (pending : List InTree) → List InTree
  | [] => []
  | place :: rest => place :: walkFrom (place.children ++ rest)
termination_by pending => sizeOfAll (pending.map (·.node))
decreasing_by
  simp only [List.map_append, InTree.map_node_children, List.map_cons, sizeOfAll_append, sizeOfAll,
    size_eq place.node]
  omega

/-- All nodes of a tree, each before its children. -/
def walk (root : Node) : List InTree := walkFrom [⟨root, []⟩]

end Node

end FluentBuilder.Syntax
