import FluentBuilder.Syntax.Tree
import Mathlib.Tactic

/-!
# The traversal is in pre-order

A tree is traversed on a stack: the node on the top is met, and its children take its place there,
the first one on the top. This ends after as many rounds as the tree has nodes, and what is met is
what `walk` lists (`rounds_start`). These are the nodes in pre-order, that is, a node and then those
below it, child by child (`walk_eq_preorder`). The statement by induction is about all that is
pending: what is still to come are the pending nodes, each with the nodes below it
(`walkFrom_eq_flatMap_preorder`), and every round takes the first of these away (`ahead_round`).

Two nodes of a tree may be equal, so a node is told by its address, the children to go down to from
the root. Pre-order is the ascending order of the addresses (`pairwise_addresses`), and there is one
node for each address that leads to one (`mem_addresses_iff`, `filterMap_at?_addresses`).
-/

namespace FluentBuilder.Syntax.Node

/-! ### Pre-order -/

theorem size_le_of_mem {nodes : List Node} {node : Node} (h : node ∈ nodes) :
    node.size ≤ sizeOfAll nodes := by
  induction nodes with
  | nil => cases h
  | cons first rest ih =>
    rw [sizeOfAll]
    rcases List.mem_cons.mp h with rfl | h
    · exact Nat.le_add_right _ _
    · exact (ih h).trans (Nat.le_add_left _ _)

/-- A node and all nodes below it, in pre-order: the node, and then those of each child, from the
first child to the last. -/
def InTree.preorder (place : InTree) : List InTree :=
  place :: place.node.children.flatMap fun child =>
    preorder ⟨child, place.node :: place.ancestors⟩
termination_by place.node.size
decreasing_by
  have hle : child.size ≤ sizeOfAll place.node.children := size_le_of_mem (by assumption)
  rw [size_eq place.node]
  exact Nat.lt_succ_of_le hle

theorem InTree.preorder_eq (place : InTree) :
    place.preorder = place :: place.children.flatMap preorder := by
  rw [preorder, InTree.children, List.flatMap_map]

/-- What comes of some pending nodes: each of them, with the nodes below it. -/
theorem walkFrom_eq_flatMap_preorder (pending : List InTree) :
    walkFrom pending = pending.flatMap InTree.preorder := by
  fun_induction walkFrom pending with
  | case1 => rfl
  | case2 place rest ih =>
    rw [ih, List.flatMap_append, List.flatMap_cons, place.preorder_eq, List.cons_append]

theorem walk_eq_preorder (root : Node) : root.walk = InTree.preorder ⟨root, []⟩ := by
  rw [walk, walkFrom_eq_flatMap_preorder, List.flatMap_singleton]

theorem walkFrom_eq_nil_iff {pending : List InTree} : walkFrom pending = [] ↔ pending = [] := by
  cases pending <;> simp [walkFrom]

theorem length_walkFrom (pending : List InTree) :
    (walkFrom pending).length = sizeOfAll (pending.map (·.node)) := by
  fun_induction walkFrom pending with
  | case1 => rfl
  | case2 place rest ih =>
    rw [List.length_cons, ih, List.map_append, InTree.map_node_children, sizeOfAll_append,
      List.map_cons, sizeOfAll, size_eq place.node]
    omega

theorem length_walk (root : Node) : root.walk.length = root.size := by
  rw [walk, length_walkFrom]
  exact Nat.add_zero root.size

/-! ### The stack -/

/-- A traversal under way. -/
structure Traversal where
  /-- The pending nodes; the last one is on the top. -/
  stack : List InTree
  /-- The nodes that were met, in this order. -/
  met : List InTree := []

namespace Traversal

def start (root : Node) : Traversal := { stack := [⟨root, []⟩] }

/-- One round: the node on the top is met, and its children take its place, the last one first. With
an empty stack there is nothing left to do. -/
def round (traversal : Traversal) : Traversal :=
  match traversal.stack.getLast? with
  | none => traversal
  | some place =>
    { stack := traversal.stack.dropLast ++ place.children.reverse
      met := traversal.met ++ [place] }

/-- The nodes that are still to come. -/
def ahead (traversal : Traversal) : List InTree := walkFrom traversal.stack.reverse

theorem ahead_eq_nil_iff (traversal : Traversal) :
    traversal.ahead = [] ↔ traversal.stack = [] := by
  rw [ahead, walkFrom_eq_nil_iff, List.reverse_eq_nil_iff]

theorem ahead_round (traversal : Traversal) :
    traversal.round.met = traversal.met ++ traversal.ahead.take 1 ∧
      traversal.round.ahead = traversal.ahead.drop 1 := by
  rcases List.eq_nil_or_concat traversal.stack with hstack | ⟨below, place, hstack⟩
  · simp [round, ahead, hstack, walkFrom]
  · -- from the top down, the children stand in front of what was below the node
    have hahead : traversal.ahead = place :: walkFrom (place.children ++ below.reverse) := by
      rw [ahead, hstack, List.concat_eq_append, List.reverse_concat, walkFrom]
    have hround : traversal.round =
        ⟨below ++ place.children.reverse, traversal.met ++ [place]⟩ := by
      simp [round, hstack]
    rw [hround, hahead]
    exact ⟨rfl, by simp [ahead]⟩

/-- Some rounds meet as many of the nodes that are still to come. -/
theorem ahead_rounds (traversal : Traversal) (n : Nat) :
    (round^[n] traversal).met = traversal.met ++ traversal.ahead.take n ∧
      (round^[n] traversal).ahead = traversal.ahead.drop n := by
  induction n with
  | zero => simp
  | succ n ih =>
    obtain ⟨hmet, hahead⟩ := ih
    obtain ⟨hmetNext, haheadNext⟩ := ahead_round (round^[n] traversal)
    rw [Function.iterate_succ_apply', hmetNext, haheadNext, hmet, hahead, List.drop_drop,
      List.append_assoc, ← List.take_add]
    exact ⟨rfl, rfl⟩

end Traversal

/-- The stack is empty after as many rounds as there are nodes, and not before; then the nodes are
met in the order of the traversal. -/
theorem rounds_start (root : Node) :
    (∀ n, (Traversal.round^[n] (.start root)).stack = [] ↔ root.size ≤ n) ∧
      (Traversal.round^[root.size] (.start root)).met = root.walk := by
  have hahead : (Traversal.start root).ahead = root.walk := rfl
  constructor
  · intro n
    rw [← Traversal.ahead_eq_nil_iff, (Traversal.ahead_rounds _ n).2, hahead,
      List.drop_eq_nil_iff, length_walk]
  · rw [(Traversal.ahead_rounds _ _).1, hahead, ← length_walk, List.take_length]
    rfl

/-! ### Addresses -/

/-- The node at an address: the number of the child to go down to, step by step. -/
def InTree.at? (place : InTree) : (address : List Nat) → Option InTree
  | [] => some place
  | i :: address => place.children[i]?.bind fun child => child.at? address

theorem InTree.at?_nil (place : InTree) : place.at? [] = some place := rfl

mutual

/-- The addresses of a node and all nodes below it, in pre-order. -/
def addresses : Node → List (List Nat)
  | ⟨_, _, _, _, _, _, children⟩ => [] :: addressesFrom 0 children

/-- The addresses of some children and all nodes below them; the first child has the given
number. -/
def addressesFrom : (number : Nat) → List Node → List (List Nat)
  | _, [] => []
  | number, node :: rest => (addresses node).map (number :: ·) ++ addressesFrom (number + 1) rest

end

theorem addresses_eq (node : Node) : node.addresses = [] :: addressesFrom 0 node.children := by
  cases node
  rfl

theorem mem_addressesFrom {number : Nat} {nodes : List Node} {address : List Nat} :
    address ∈ addressesFrom number nodes ↔ ∃ i child below,
      nodes[i]? = some child ∧ below ∈ child.addresses ∧ address = (number + i) :: below := by
  induction nodes generalizing number with
  | nil => simp [addressesFrom]
  | cons node rest ih =>
    rw [addressesFrom, List.mem_append, List.mem_map, ih]
    constructor
    · rintro (⟨below, hbelow, rfl⟩ | ⟨i, child, below, hchild, hbelow, rfl⟩)
      · exact ⟨0, node, below, rfl, hbelow, rfl⟩
      · exact ⟨i + 1, child, below, hchild, hbelow, by rw [Nat.add_right_comm, Nat.add_assoc]⟩
    · rintro ⟨i, child, below, hchild, hbelow, rfl⟩
      cases i with
      | zero =>
        obtain rfl : node = child := by simpa using hchild
        exact .inl ⟨below, hbelow, rfl⟩
      | succ i =>
        exact .inr ⟨i, child, below, hchild, hbelow, by rw [Nat.add_right_comm, Nat.add_assoc]⟩

theorem cons_mem_addresses_iff {node : Node} {i : Nat} {address : List Nat} :
    i :: address ∈ node.addresses ↔
      ∃ child, node.children[i]? = some child ∧ address ∈ child.addresses := by
  rw [addresses_eq, List.mem_cons, or_iff_right (List.cons_ne_nil _ _), mem_addressesFrom]
  constructor
  · rintro ⟨_, child, _, hchild, hbelow, haddress⟩
    rw [Nat.zero_add] at haddress
    obtain ⟨rfl, rfl⟩ := List.cons.inj haddress
    exact ⟨child, hchild, hbelow⟩
  · rintro ⟨child, hchild, hbelow⟩
    exact ⟨i, child, address, hchild, hbelow, by rw [Nat.zero_add]⟩

theorem mem_addresses_iff {place : InTree} {address : List Nat} :
    address ∈ place.node.addresses ↔ (place.at? address).isSome = true := by
  induction address generalizing place with
  | nil => simp [addresses_eq, InTree.at?]
  | cons i address ih =>
    rw [cons_mem_addresses_iff, InTree.at?, InTree.children, List.getElem?_map]
    cases place.node.children[i]? with
    | none => simp
    | some child => simpa using @ih ⟨child, place.node :: place.ancestors⟩

mutual

/-- The addresses of a tree ascend: a node comes before those below it, and these come in the order
of the children. -/
theorem pairwise_addresses : ∀ node : Node, node.addresses.Pairwise (· < ·)
  | ⟨_, _, _, _, _, _, children⟩ => by
    rw [addresses_eq]
    refine List.pairwise_cons.mpr ⟨fun address haddress => ?_, pairwise_addressesFrom 0 children⟩
    obtain ⟨i, -, below, -, -, rfl⟩ := mem_addressesFrom.mp haddress
    exact List.nil_lt_cons _ below

theorem pairwise_addressesFrom : ∀ (number : Nat) (nodes : List Node),
    (addressesFrom number nodes).Pairwise (· < ·)
  | _, [] => .nil
  | number, node :: rest => by
    rw [addressesFrom]
    refine List.pairwise_append.mpr ⟨List.pairwise_map.mpr ((pairwise_addresses node).imp ?_),
      pairwise_addressesFrom (number + 1) rest, ?_⟩
    · exact fun hlt => List.cons_lt_cons_iff.mpr (.inr ⟨rfl, hlt⟩)
    · rintro _ hfirst _ hlater
      obtain ⟨below, -, rfl⟩ := List.mem_map.mp hfirst
      obtain ⟨i, -, later, -, -, rfl⟩ := mem_addressesFrom.mp hlater
      exact List.cons_lt_cons_iff.mpr (.inl (by omega))

end

mutual

/-- The nodes at the addresses of a tree are its nodes in pre-order. -/
theorem filterMap_at?_addresses : ∀ (node : Node) (ancestors : List Node),
    node.addresses.filterMap (InTree.at? ⟨node, ancestors⟩) = InTree.preorder ⟨node, ancestors⟩
  | ⟨_, _, _, _, _, _, children⟩, ancestors => by
    rw [addresses_eq, List.filterMap_cons_some (InTree.at?_nil _), InTree.preorder_eq]
    exact congrArg _ (filterMap_at?_addressesFrom 0 children _ rfl)

theorem filterMap_at?_addressesFrom : ∀ (number : Nat) (nodes : List Node) (place : InTree),
    place.node.children.drop number = nodes →
      (addressesFrom number nodes).filterMap place.at? =
        (nodes.map fun child => ⟨child, place.node :: place.ancestors⟩).flatMap InTree.preorder
  | _, [], _, _ => rfl
  | number, child :: rest, place, hdrop => by
    have hchild : place.node.children[number]? = some child := by
      rw [← List.head?_drop, hdrop, List.head?_cons]
    have hrest : place.node.children.drop (number + 1) = rest := by
      rw [← List.tail_drop, hdrop, List.tail_cons]
    have hdown : place.at? ∘ (number :: ·) =
        InTree.at? ⟨child, place.node :: place.ancestors⟩ := by
      funext address
      simp [InTree.at?, InTree.children, hchild]
    rw [addressesFrom, List.filterMap_append, List.filterMap_map, hdown,
      filterMap_at?_addresses child, filterMap_at?_addressesFrom (number + 1) rest place hrest,
      List.map_cons, List.flatMap_cons]

end

end FluentBuilder.Syntax.Node
