import FluentBuilder.Syntax.Tree
import Mathlib.Data.List.Chain
import Mathlib.Tactic

/-!
# Nested trees

In a nested tree every node lies inside its parent, and siblings stand one behind the other. Then of
any two nodes one is around the other, or ends where the other starts or in front of it
(`WellNested.pairwise_walk`).

This is shown for the pending nodes of the traversal: these stand one behind the other, and every
node that is still to come is one of them or inside of one (`exists_pending_of_mem_walkFrom`).
-/

namespace FluentBuilder.Syntax.Node

namespace InTree

/-- A node is around another: it is one of the nodes around it, in the same place. -/
def Around (outer inner : InTree) : Prop := outer.node :: outer.ancestors <:+ inner.ancestors

theorem Around.trans {a b c : InTree} (hab : a.Around b) (hbc : b.Around c) : a.Around c :=
  List.IsSuffix.trans hab ((List.suffix_cons b.node b.ancestors).trans hbc)

theorem Around.irrefl (place : InTree) : ¬place.Around place := fun h => by
  have := h.length_le
  simp at this

theorem around_of_mem_children {place child : InTree} (h : child ∈ place.children) :
    place.Around child := by
  obtain ⟨node, -, rfl⟩ := List.mem_map.mp h
  exact List.suffix_rfl

/-- One of the nodes is around the other, or they stand one behind the other, in this order. -/
def Precedes (a b : InTree) : Prop := a.Around b ∨ a.node.stop ≤ b.node.start

end InTree

open InTree

/-! ### Nodes in the traversal -/

theorem mem_walkFrom_of_mem {pending : List InTree} {place : InTree} (h : place ∈ pending) :
    place ∈ walkFrom pending := by
  fun_induction walkFrom pending with
  | case1 => cases h
  | case2 first rest ih =>
    rcases List.mem_cons.mp h with rfl | h
    · exact List.mem_cons_self
    · exact List.mem_cons_of_mem _ (ih (List.mem_append_right _ h))

theorem mem_walkFrom_child {pending : List InTree} {place child : InTree}
    (h : place ∈ walkFrom pending) (hchild : child ∈ place.children) :
    child ∈ walkFrom pending := by
  fun_induction walkFrom pending with
  | case1 => cases h
  | case2 first rest ih =>
    rcases List.mem_cons.mp h with rfl | h
    · exact List.mem_cons_of_mem _ (mem_walkFrom_of_mem (List.mem_append_left _ hchild))
    · exact List.mem_cons_of_mem _ (ih h)

/-- The nodes around a node are each a child of the next. -/
def Rooted (place : InTree) : Prop :=
  List.IsChain (fun inner outer => inner ∈ outer.children) (place.node :: place.ancestors)

theorem rooted_of_mem_walkFrom {pending : List InTree} {place : InTree}
    (hpending : ∀ other ∈ pending, Rooted other) (h : place ∈ walkFrom pending) : Rooted place := by
  fun_induction walkFrom pending with
  | case1 => cases h
  | case2 first rest ih =>
    have hfirst := hpending first List.mem_cons_self
    rcases List.mem_cons.mp h with rfl | h
    · exact hfirst
    · refine ih (fun other hother => ?_) h
      rcases List.mem_append.mp hother with hchild | hrest
      · obtain ⟨node, hnode, rfl⟩ := List.mem_map.mp hchild
        exact List.isChain_cons_cons.mpr ⟨hnode, hfirst⟩
      · exact hpending other (List.mem_cons_of_mem _ hrest)

theorem children_ne_nil_of_around {pending : List InTree} {outer inner : InTree}
    (hpending : ∀ other ∈ pending, Rooted other) (hinner : inner ∈ walkFrom pending)
    (h : outer.Around inner) : outer.node.children ≠ [] := by
  obtain ⟨between, hbetween⟩ := h
  have hchain := rooted_of_mem_walkFrom hpending hinner
  rw [Rooted, ← hbetween, ← List.cons_append] at hchain
  obtain ⟨-, -, hlink⟩ := List.isChain_append.mp hchain
  have hchild := hlink _ (List.getLast_mem_getLast? (List.cons_ne_nil _ _)) _ rfl
  exact List.ne_nil_of_mem hchild

/-! ### Nested trees -/

/-- Every node of a tree lies inside its parent, and siblings stand one behind the other. A node may
be without width. -/
@[mk_iff]
structure WellNested (root : Node) : Prop where
  le : ∀ place ∈ root.walk, place.node.start ≤ place.node.stop
  inside : ∀ place ∈ root.walk, ∀ child ∈ place.node.children,
    place.node.start ≤ child.start ∧ child.stop ≤ place.node.stop
  ordered : ∀ place ∈ root.walk, place.node.children.Pairwise fun a b => a.stop ≤ b.start

instance (root : Node) : Decidable root.WellNested :=
  decidable_of_iff _ (wellNested_iff root).symm

/-- What is asked of a node in a nested tree. -/
def Orderly (place : InTree) : Prop :=
  (∀ child ∈ place.node.children, place.node.start ≤ child.start ∧ child.stop ≤ place.node.stop) ∧
    place.node.children.Pairwise fun a b => a.stop ≤ b.start

/-- A node that is still to come is one of the pending nodes or inside of one. -/
theorem exists_pending_of_mem_walkFrom {pending : List InTree} {place : InTree}
    (horderly : ∀ other ∈ walkFrom pending, Orderly other) (h : place ∈ walkFrom pending) :
    ∃ outer ∈ pending, (outer = place ∨ outer.Around place) ∧
      outer.node.start ≤ place.node.start ∧ place.node.stop ≤ outer.node.stop := by
  fun_induction walkFrom pending with
  | case1 => cases h
  | case2 first rest ih =>
    rcases List.mem_cons.mp h with rfl | h
    · exact ⟨place, List.mem_cons_self, .inl rfl, le_rfl, le_rfl⟩
    · obtain ⟨outer, houter, haround, hstart, hstop⟩ :=
        ih (fun other hother => horderly other (List.mem_cons_of_mem _ hother)) h
      rcases List.mem_append.mp houter with hchild | hrest
      · have hfirst := around_of_mem_children hchild
        obtain ⟨node, hnode, rfl⟩ := List.mem_map.mp hchild
        have hinside := (horderly first List.mem_cons_self).1 node hnode
        refine ⟨first, List.mem_cons_self, .inr ?_, hinside.1.trans hstart,
          hstop.trans hinside.2⟩
        rcases haround with rfl | haround
        · exact hfirst
        · exact hfirst.trans haround
      · exact ⟨outer, List.mem_cons_of_mem _ hrest, haround, hstart, hstop⟩

theorem pairwise_walkFrom {pending : List InTree}
    (horderly : ∀ other ∈ walkFrom pending, Orderly other)
    (hpending : pending.Pairwise fun a b => a.node.stop ≤ b.node.start) :
    (walkFrom pending).Pairwise Precedes := by
  fun_induction walkFrom pending with
  | case1 => exact .nil
  | case2 first rest ih =>
    obtain ⟨hfirst, hrest⟩ := List.pairwise_cons.mp hpending
    obtain ⟨hinside, hsiblings⟩ := horderly first List.mem_cons_self
    have hlater : ∀ other ∈ walkFrom (first.children ++ rest), Orderly other :=
      fun other hother => horderly other (List.mem_cons_of_mem _ hother)
    refine List.pairwise_cons.mpr ⟨fun place hplace => ?_, ih hlater ?_⟩
    · obtain ⟨outer, houter, haround, hstart, -⟩ := exists_pending_of_mem_walkFrom hlater hplace
      rcases List.mem_append.mp houter with hchild | hrest
      · have hfirst := around_of_mem_children hchild
        rcases haround with rfl | haround
        · exact .inl hfirst
        · exact .inl (hfirst.trans haround)
      · exact .inr ((hfirst outer hrest).trans hstart)
    · refine List.pairwise_append.mpr ⟨?_, hrest, fun child hchild other hother => ?_⟩
      · exact List.pairwise_map.mpr hsiblings
      · obtain ⟨node, hnode, rfl⟩ := List.mem_map.mp hchild
        exact (hinside node hnode).2.trans (hfirst other hother)

/-- **In a nested tree nodes are around each other or stand one behind the other**, in the order of
the traversal. -/
theorem WellNested.pairwise_walk {root : Node} (h : root.WellNested) :
    root.walk.Pairwise Precedes :=
  pairwise_walkFrom (fun place hplace => ⟨h.inside place hplace, h.ordered place hplace⟩)
    (List.pairwise_singleton _ _)

/-- Two nodes of a nested tree are the same, or one of them precedes the other. -/
theorem WellNested.precedes_or {root : Node} (h : root.WellNested) {a b : InTree}
    (ha : a ∈ root.walk) (hb : b ∈ root.walk) : a = b ∨ a.Precedes b ∨ b.Precedes a := by
  have hforth : root.walk.Pairwise fun a b => a = b ∨ a.Precedes b ∨ b.Precedes a :=
    h.pairwise_walk.imp fun hab => .inr (.inl hab)
  have hback : root.walk.Pairwise (flip fun a b => a = b ∨ a.Precedes b ∨ b.Precedes a) :=
    h.pairwise_walk.imp fun hab => .inr (.inr hab)
  exact hforth.forall_of_forall_of_flip (fun _ _ => .inl rfl) hback ha hb

theorem mem_walk_child {root : Node} {place child : InTree} (h : place ∈ root.walk)
    (hchild : child ∈ place.children) : child ∈ root.walk :=
  mem_walkFrom_child h hchild

theorem not_around_of_leaf {root : Node} {outer inner : InTree} (hleaf : outer.node.children = [])
    (hinner : inner ∈ root.walk) : ¬outer.Around inner := fun h => by
  refine children_ne_nil_of_around (fun other hother => ?_) hinner h hleaf
  rw [List.mem_singleton.mp hother]
  exact List.isChain_singleton _

end FluentBuilder.Syntax.Node
