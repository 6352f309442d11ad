import FluentBuilder.Proofs.Source.Answers
import FluentBuilder.Proofs.Source.Ranges
import FluentBuilder.Proofs.Syntax.Nesting

/-!
# When edits collide

The answers to the requests in a nested tree make edits from two sides: the marks of the records go,
with the blanks around them, and builders come before closing braces, in the place of the blanks
there. `edits_apart` says when these edits keep apart, so that each builder comes before the brace
of its own record and stands in the new text as a whole.

That a tree is nested is not enough (`edits_collide`). A body ends in a brace if the last byte in it
is one, and in a source that is not complete this can be the brace of a record inside of it. The
mark of a record goes with all that it holds, so also with records in its argument. And the blanks
behind a mark go with it, though a builder takes the place of the blanks before a brace. A `Tidy`
tree is one without these.
-/

namespace FluentBuilder

open Syntax Text

/-! ### Parts of a declaration -/

namespace Syntax.Node.InTree

/-- A node in the body of a declaration, in its place. -/
def inBody (place : InTree) (body child : Node) : InTree :=
  ⟨child, body :: place.node :: place.ancestors⟩

def properties (place : InTree) : List InTree :=
  match place.node.body? with
  | none => []
  | some body => (propertiesOf place.node).map (place.inBody body)

/-- The closing braces that are tokens of the body of a declaration, in their places. -/
def braces (place : InTree) : List InTree :=
  match place.node.body? with
  | none => []
  | some body =>
    (body.children.filter fun child => child.kind == "\x7d" && child.children.isEmpty &&
      child.stop == child.start + 1).map (place.inBody body)

end Syntax.Node.InTree

section Parts

variable (settings : Settings) (source : SourceText) (path : Path) (root : Node)

/-- The answers to the requests in a source with the given tree that are put into it. -/
def answered : List RecordExpansion :=
  faultless (ExpandedSource.answers settings (Outline.ofTree settings source path root))

/-- A node declares a record whose request is answered without an error. -/
def Answered (place : Node.InTree) : Prop :=
  place ∈ root.walk ∧ typeNodes.contains place.node.kind = true ∧
    ∃ record ∈ answered settings source path root,
      (recordSite settings source path place).1 = .ok (some record.site)

/-- The marks of a node go: it declares such a record, or is a property in the body of one. -/
def Marked (place : Node.InTree) : Prop :=
  Answered settings source path root place ∨
    ∃ outer, Answered settings source path root outer ∧ place ∈ outer.properties

/-- A node is a brace that closes the body of such a record. -/
def Closing (place : Node.InTree) : Prop :=
  ∃ outer, Answered settings source path root outer ∧ place ∈ outer.braces

/-- What keeps the edits of a nested tree apart. -/
structure Tidy : Prop where
  /-- The brace before which a builder comes is a token of the body of its record. -/
  owned : ∀ place, Answered settings source path root place → ∀ stop,
    braceOf source place.node = some stop → ∃ brace ∈ place.braces, brace.node.start = stop
  /-- No mark of a node reaches into a node inside of it that has marks of its own or is a closing
  brace, unless both start with this mark. -/
  reach : ∀ outer inner, Marked settings source path root outer →
    Marked settings source path root inner ∨ Closing settings source path root inner →
    outer.Around inner → ∀ mark ∈ marksAt settings source outer.node,
      mark ∈ marksAt settings source inner.node ∨ mark.stop ≤ inner.node.start ∨
        inner.node.stop ≤ mark.start
  /-- Between a mark and a brace behind it that it does not touch stands something other than
  blanks. -/
  between : ∀ place owner, Answered settings source path root place →
    Marked settings source path root owner → ∀ stop, braceOf source place.node = some stop →
      ∀ mark ∈ marksAt settings source owner.node, mark.stop < stop →
        ∃ k, source.FirmAt k ∧ mark.stop ≤ k ∧ k < stop

end Parts

/-! ### Places of parts -/

section Places

variable {settings : Settings} {source : SourceText} {path : Path} {root : Node}
  {place owner brace : Node.InTree}

theorem body?_mem_children {node body : Node} (h : node.body? = some body) :
    body ∈ node.children := by
  unfold Node.body? Node.childByRole? at h
  rcases Option.or_eq_some_iff.mp h with h | ⟨-, h⟩ <;> exact List.mem_of_find?_eq_some h

theorem body_mem_walk {body : Node} (hplace : place ∈ root.walk)
    (hbody : place.node.body? = some body) :
    (⟨body, place.node :: place.ancestors⟩ : Node.InTree) ∈ root.walk :=
  Node.mem_walk_child hplace (List.mem_map_of_mem (body?_mem_children hbody))

theorem inBody_mem_walk {body child : Node} (hplace : place ∈ root.walk)
    (hbody : place.node.body? = some body) (hchild : child ∈ body.children) :
    place.inBody body child ∈ root.walk :=
  Node.mem_walk_child (body_mem_walk hplace hbody) (List.mem_map_of_mem hchild)

theorem exists_of_mem_propertiesOf {node child : Node} (h : child ∈ propertiesOf node) :
    ∃ body, node.body? = some body ∧ propertyNodes.contains child.kind = true := by
  unfold propertiesOf at h
  split at h
  · cases h
  · next body hbody => exact ⟨body, hbody, (List.mem_filter.mp h).2⟩

theorem marksAt_of_property {node : Node} (h : propertyNodes.contains node.kind = true) :
    marksAt settings source node = defaultMarksOf settings source node := by
  have hdisjoint : ∀ kind ∈ propertyNodes, typeNodes.contains kind = false := by decide
  rw [marksAt, hdisjoint _ (by simpa using h), h]
  rfl

theorem exists_of_mem_properties (h : owner ∈ place.properties) :
    ∃ body child, place.node.body? = some body ∧ child ∈ body.children ∧
      child ∈ propertiesOf place.node ∧ propertyNodes.contains child.kind = true ∧
        owner = place.inBody body child := by
  unfold Node.InTree.properties at h
  split at h
  · cases h
  · next body hbody =>
    obtain ⟨child, hchild, rfl⟩ := List.mem_map.mp h
    have hlisted := hchild
    rw [propertiesOf, hbody] at hlisted
    obtain ⟨hnamed, hkind⟩ := List.mem_filter.mp hlisted
    exact ⟨body, child, hbody, (List.mem_filter.mp hnamed).1, hchild, hkind, rfl⟩

theorem exists_of_mem_braces (h : brace ∈ place.braces) :
    ∃ body child, place.node.body? = some body ∧ child ∈ body.children ∧ child.kind = "\x7d" ∧
      child.children = [] ∧ child.stop = child.start + 1 ∧ brace = place.inBody body child := by
  unfold Node.InTree.braces at h
  split at h
  · cases h
  · next body hbody =>
    obtain ⟨child, hchild, rfl⟩ := List.mem_map.mp h
    obtain ⟨hmem, htoken⟩ := List.mem_filter.mp hchild
    simp only [Bool.and_eq_true, beq_iff_eq, List.isEmpty_iff] at htoken
    exact ⟨body, child, hbody, hmem, htoken.1.1, htoken.1.2, htoken.2, rfl⟩

theorem Marked.mem_walk (h : Marked settings source path root owner) : owner ∈ root.walk := by
  rcases h with h | ⟨outer, houter, hmem⟩
  · exact h.1
  · obtain ⟨body, child, hbody, hchild, -, -, rfl⟩ := exists_of_mem_properties hmem
    exact inBody_mem_walk houter.1 hbody hchild

theorem Closing.mem_walk (h : Closing settings source path root brace) : brace ∈ root.walk := by
  obtain ⟨outer, houter, hmem⟩ := h
  obtain ⟨body, child, hbody, hchild, -, -, -, rfl⟩ := exists_of_mem_braces hmem
  exact inBody_mem_walk houter.1 hbody hchild

theorem Marked.kind_ne (h : Marked settings source path root owner) :
    owner.node.kind ≠ "\x7d" := by
  intro heq
  rcases h with ⟨-, htype, -⟩ | ⟨outer, -, hmem⟩
  · rw [heq] at htype
    exact absurd htype (by decide)
  · obtain ⟨body, child, -, -, -, hkind, rfl⟩ := exists_of_mem_properties hmem
    rw [show child.kind = "\x7d" from heq] at hkind
    exact absurd hkind (by decide)

end Places

/-! ### Marks and braces keep apart -/

section Apart

variable {settings : Settings} {source : SourceText} {path : Path} {root : Node}
  {a b owner brace place : Node.InTree} {mark other : Span}

/-- One of two ranges ends where the other starts, or in front of it. -/
def Span.Apart (a b : Span) : Prop := a.stop ≤ b.start ∨ b.stop ≤ a.start

theorem marks_apart_of_node {node : Node} (hmark : mark ∈ marksAt settings source node)
    (hother : other ∈ marksAt settings source node) : mark = other ∨ mark.Apart other := by
  have hforth : (marksAt settings source node).Pairwise fun a b => a = b ∨ a.Apart b :=
    (marksAt_pairwise settings source node).imp fun hle => .inr (.inl hle)
  have hback : (marksAt settings source node).Pairwise (flip fun a b => a = b ∨ a.Apart b) :=
    (marksAt_pairwise settings source node).imp fun hle => .inr (.inr hle)
  exact hforth.forall_of_forall_of_flip (fun _ _ => .inl rfl) hback hmark hother

theorem marks_apart_of_precedes (htidy : Tidy settings source path root)
    (ha : Marked settings source path root a) (hb : Marked settings source path root b)
    (hab : a.Precedes b) (hmark : mark ∈ marksAt settings source a.node)
    (hother : other ∈ marksAt settings source b.node) : mark = other ∨ mark.Apart other := by
  obtain ⟨-, -, hstop⟩ := solid_of_mem_marksAt hmark
  obtain ⟨-, hstart, hstop'⟩ := solid_of_mem_marksAt hother
  rcases hab with haround | hle
  · rcases htidy.reach a b ha (.inl hb) haround mark hmark with hsame | hfront | hbehind
    · exact marks_apart_of_node hsame hother
    · exact .inr (.inl (hfront.trans hstart))
    · exact .inr (.inr (hstop'.trans hbehind))
  · exact .inr (.inl (by omega))

/-- Two marks that go are the same, or keep apart. -/
theorem marks_apart (hnested : root.WellNested) (htidy : Tidy settings source path root)
    (ha : Marked settings source path root a) (hb : Marked settings source path root b)
    (hmark : mark ∈ marksAt settings source a.node)
    (hother : other ∈ marksAt settings source b.node) : mark = other ∨ mark.Apart other := by
  rcases hnested.precedes_or ha.mem_walk hb.mem_walk with rfl | hab | hba
  · exact marks_apart_of_node hmark hother
  · exact marks_apart_of_precedes htidy ha hb hab hmark hother
  · exact (marks_apart_of_precedes htidy hb ha hba hother hmark).imp Eq.symm Or.symm

theorem Closing.leaf (h : Closing settings source path root brace) :
    brace.node.kind = "\x7d" ∧ brace.node.children = [] ∧
      brace.node.stop = brace.node.start + 1 := by
  obtain ⟨outer, -, hmem⟩ := h
  obtain ⟨body, child, -, -, hkind, hchildren, hstop, rfl⟩ := exists_of_mem_braces hmem
  exact ⟨hkind, hchildren, hstop⟩

theorem mark_apart_brace (hnested : root.WellNested) (htidy : Tidy settings source path root)
    (howner : Marked settings source path root owner)
    (hbrace : Closing settings source path root brace)
    (hmark : mark ∈ marksAt settings source owner.node) :
    mark.stop ≤ brace.node.start ∨ brace.node.start < mark.start := by
  obtain ⟨hkind, hleaf, hstop⟩ := hbrace.leaf
  obtain ⟨-, hfrom, hto⟩ := solid_of_mem_marksAt hmark
  rcases hnested.precedes_or howner.mem_walk hbrace.mem_walk with rfl | (haround | hle) |
    (haround | hle)
  · exact absurd hkind howner.kind_ne
  · have hno : marksAt settings source brace.node = [] := by
      rw [marksAt, hkind]
      rfl
    rcases htidy.reach owner brace howner (.inr hbrace) haround mark hmark with
      hsame | hfront | hbehind
    · rw [hno] at hsame
      cases hsame
    · exact .inl hfront
    · exact .inr (by omega)
  · exact .inl (by omega)
  · exact absurd haround (Node.not_around_of_leaf hleaf howner.mem_walk)
  · exact .inr (by omega)

/-- A brace has the nodes of its record around it, so it closes no other. -/
theorem eq_of_mem_braces (ha : brace ∈ a.braces) (hb : brace ∈ b.braces) : a = b := by
  obtain ⟨body, child, -, -, -, -, -, heq⟩ := exists_of_mem_braces ha
  obtain ⟨body', child', -, -, -, -, -, heq'⟩ := exists_of_mem_braces hb
  obtain ⟨-, haround⟩ := Node.InTree.mk.inj (heq.symm.trans heq')
  obtain ⟨-, hrecords⟩ := List.cons.inj haround
  obtain ⟨hnode, hancestors⟩ := List.cons.inj hrecords
  cases a
  cases b
  congr

/-- A declaration with a brace is not empty, so it does not come before itself. -/
theorem not_precedes_self (hnested : root.WellNested) (hplace : place ∈ root.walk)
    (hbrace : brace ∈ place.braces) : ¬place.Precedes place := by
  obtain ⟨body, child, hbody, hchild, -, -, hwidth, -⟩ := exists_of_mem_braces hbrace
  have hbodyInside := hnested.inside place hplace body (body?_mem_children hbody)
  have hchildInside := hnested.inside _ (body_mem_walk hplace hbody) child hchild
  rintro (haround | hle)
  · exact haround.irrefl
  · dsimp only at hchildInside
    omega

/-- Records one behind the other in the traversal have different braces. -/
theorem braces_ne (hnested : root.WellNested) (htidy : Tidy settings source path root)
    (ha : Answered settings source path root a) (hb : Answered settings source path root b)
    (hab : a.Precedes b) {stop : Nat} (hstop : braceOf source a.node = some stop) :
    braceOf source b.node ≠ some stop := by
  intro hother
  obtain ⟨brace, hbrace, hstart⟩ := htidy.owned a ha stop hstop
  obtain ⟨brace', hbrace', hstart'⟩ := htidy.owned b hb stop hother
  have hclosing : Closing settings source path root brace := ⟨a, ha, hbrace⟩
  have hclosing' : Closing settings source path root brace' := ⟨b, hb, hbrace'⟩
  obtain ⟨-, hleaf, hwidth⟩ := hclosing.leaf
  obtain ⟨-, hleaf', hwidth'⟩ := hclosing'.leaf
  rcases hnested.precedes_or hclosing.mem_walk hclosing'.mem_walk with rfl | (haround | hle) |
    (haround | hle)
  · obtain rfl := eq_of_mem_braces hbrace hbrace'
    exact not_precedes_self hnested ha.1 hbrace hab
  · exact Node.not_around_of_leaf hleaf hclosing'.mem_walk haround
  · omega
  · exact Node.not_around_of_leaf hleaf' hclosing.mem_walk haround
  · omega

theorem firmAt_of_braceOf {node : Node} {stop : Nat} (h : braceOf source node = some stop) :
    source.FirmAt stop := by
  obtain ⟨body, -, hclosing⟩ := Option.bind_eq_some_iff.mp h
  unfold closingBrace at hclosing
  dsimp only at hclosing
  split at hclosing
  · next hslice =>
    obtain rfl := Option.some.inj hclosing
    have hcut : source.slice (body.stop - 1) body.stop = [] ++ 125 :: [] := beq_iff_eq.mp hslice
    exact ⟨125, SourceText.getElem?_of_slice hcut, by decide⟩
  · cases hclosing

end Apart

/-! ### Answers and their nodes -/

section Nodes

variable {settings : Settings} {source : SourceText} {path : Path} {root : Node}
  {record : RecordExpansion}

/-- An answer that is put into the source is that of a record of the outline. -/
theorem exists_answered (h : record ∈ answered settings source path root) :
    ∃ place, Answered settings source path root place ∧
      (recordSite settings source path place).1 = .ok (some record.site) := by
  obtain ⟨hmem, -⟩ := List.mem_filter.mp h
  obtain ⟨site, hsite, hsame, -⟩ := exists_of_mem_answers hmem
  have hlisted := (List.mergeSort_perm _ _).mem_iff.mp (List.mem_filter.mp hsite).1
  obtain ⟨place, hplace, hread⟩ := mem_recordsOf_iff.mp hlisted
  obtain ⟨hwalk, htype⟩ := List.mem_filter.mp hplace
  rw [← hsame] at hread
  exact ⟨place, ⟨hwalk, htype, record, h, hread⟩, hread⟩

/-- What goes for an answer are marks, grown over blanks. -/
theorem exists_marked_of_mem_strips (h : record ∈ answered settings source path root)
    {span : Span} (hspan : span ∈ record.site.strips) :
    ∃ owner, Marked settings source path root owner ∧
      ∃ mark ∈ marksAt settings source owner.node, span = source.widen mark := by
  obtain ⟨place, hplace, hread⟩ := exists_answered h
  rw [recordSite_strips hread] at hspan
  rcases List.mem_append.mp hspan with hspan | hspan
  · obtain ⟨mark, hmark, rfl⟩ := List.mem_map.mp hspan
    refine ⟨place, .inl hplace, mark, ?_, rfl⟩
    rwa [marksAt, if_pos hplace.2.1]
  · obtain ⟨child, hchild, hspan⟩ := List.mem_flatMap.mp hspan
    obtain ⟨mark, hmark, rfl⟩ := List.mem_map.mp hspan
    obtain ⟨body, hbody, hkind⟩ := exists_of_mem_propertiesOf hchild
    refine ⟨place.inBody body child, .inr ⟨place, hplace, ?_⟩, mark, ?_, rfl⟩
    · rw [Node.InTree.properties, hbody]
      exact List.mem_map_of_mem hchild
    · rwa [Node.InTree.inBody, marksAt_of_property hkind]

/-- Two records of the outline are those of nodes one of which precedes the other. -/
def Ordered (settings : Settings) (source : SourceText) (path : Path) (root : Node)
    (a b : RecordSite) : Prop :=
  ∃ p ∈ root.walk, ∃ q ∈ root.walk, typeNodes.contains p.node.kind = true ∧
    typeNodes.contains q.node.kind = true ∧
      (recordSite settings source path p).1 = .ok (some a) ∧
      (recordSite settings source path q).1 = .ok (some b) ∧ (p.Precedes q ∨ q.Precedes p)

theorem Ordered.symm {a b : RecordSite} (h : Ordered settings source path root a b) :
    Ordered settings source path root b a := by
  obtain ⟨p, hp, q, hq, hptype, hqtype, ha, hb, hpq⟩ := h
  exact ⟨q, hq, p, hp, hqtype, hptype, hb, ha, hpq.symm⟩

theorem pairwise_recordsOf {places : List Node.InTree} (hplaces : ∀ place ∈ places,
      place ∈ root.walk ∧ typeNodes.contains place.node.kind = true)
    (hpairs : places.Pairwise Node.InTree.Precedes) :
    (Outline.recordsOf settings source path places).1.Pairwise
      (Ordered settings source path root) := by
  rw [Outline.recordsOf_eq, List.pairwise_filterMap]
  refine hpairs.imp_of_mem fun {p q} hp hq hprecedes a ha b hb => ?_
  obtain ⟨hpwalk, hptype⟩ := hplaces p hp
  obtain ⟨hqwalk, hqtype⟩ := hplaces q hq
  rw [Outline.recordAt?_eq_some_iff] at ha hb
  exact ⟨p, hpwalk, q, hqwalk, hptype, hqtype, ha, hb, .inl hprecedes⟩

theorem pairwise_answered (hnested : root.WellNested) :
    (answered settings source path root).Pairwise fun a b =>
      Ordered settings source path root a.site b.site := by
  refine List.Pairwise.filter _ ?_
  rw [← List.pairwise_map, map_site_answers]
  refine List.Pairwise.filter _ ?_
  have hpairs : (Outline.recordsOf settings source path (root.walk.filter fun place =>
      typeNodes.contains place.node.kind)).1.Pairwise (Ordered settings source path root) :=
    pairwise_recordsOf (fun place hplace => List.mem_filter.mp hplace)
      (hnested.pairwise_walk.filter _)
  exact (List.mergeSort_perm _ _).symm.pairwise hpairs fun h => h.symm

end Nodes

/-! ### Edits -/

section Edits

variable {settings : Settings} {source : SourceText} {path : Path} {root : Node}
  {record : RecordExpansion} {edit : Edit}

theorem mem_insertionsOf_iff : edit ∈ insertionsOf settings source record ↔
    ∃ stop declaration, record.site.bodyStop = some stop ∧
      declaration ∈ record.expansion.declarations ∧
        edit = insertion settings source record.site stop declaration := by
  unfold insertionsOf
  cases record.site.bodyStop with
  | none => simp
  | some stop => simp [eq_comm]

/-- An answer makes at most one insertion. -/
theorem insertionsOf_pairwise (r : Edit → Edit → Prop) (record : RecordExpansion) :
    (insertionsOf settings source record).Pairwise r := by
  unfold insertionsOf
  split
  · cases record.expansion with
    | nothing => exact .nil
    | generated => exact List.pairwise_singleton _ _
    | diagnosed => exact .nil
  · exact .nil

/-- In front of different braces builders come in ranges that keep apart, and start at different
places. -/
theorem insertions_apart {first second : Nat} (hfirst : source.FirmAt first)
    (hsecond : source.FirmAt second) (hne : first ≠ second) :
    Span.Apart ⟨first - source.blanksBefore first, first⟩
        ⟨second - source.blanksBefore second, second⟩ ∧
      first - source.blanksBefore first ≠ second - source.blanksBefore second := by
  unfold Span.Apart
  rcases Nat.lt_or_gt_of_ne hne with hlt | hlt
  · have := SourceText.lt_sub_blanksBefore hsecond.lt_size.le hfirst hlt
    dsimp only
    omega
  · have := SourceText.lt_sub_blanksBefore hfirst.lt_size.le hsecond hlt
    dsimp only
    omega

/-- The place of the brace of an answer is that of a token in the body of its record. -/
theorem exists_closing (htidy : Tidy settings source path root)
    (hrecord : record ∈ answered settings source path root) {stop : Nat}
    (hstop : record.site.bodyStop = some stop) :
    ∃ place, Answered settings source path root place ∧
      (recordSite settings source path place).1 = .ok (some record.site) ∧
        braceOf source place.node = some stop ∧
          ∃ brace ∈ place.braces, brace.node.start = stop := by
  obtain ⟨place, hplace, hread⟩ := exists_answered hrecord
  have hbrace := (recordSite_eq_ok hread).1.symm.trans hstop
  exact ⟨place, hplace, hread, hbrace, htidy.owned place hplace stop hbrace⟩

theorem bodyStops_ne (hnested : root.WellNested) (htidy : Tidy settings source path root) :
    (answered settings source path root).Pairwise fun a b => ∀ stop,
      a.site.bodyStop = some stop → b.site.bodyStop ≠ some stop := by
  refine (pairwise_answered hnested).imp_of_mem fun {a b} ha hb hordered stop hstop hother => ?_
  obtain ⟨p, hp, q, hq, hptype, hqtype, hsite, hsite', hpq⟩ := hordered
  have hpAnswered : Answered settings source path root p := ⟨hp, hptype, a, ha, hsite⟩
  have hqAnswered : Answered settings source path root q := ⟨hq, hqtype, b, hb, hsite'⟩
  have hpBrace := (recordSite_eq_ok hsite).1.symm.trans hstop
  have hqBrace := (recordSite_eq_ok hsite').1.symm.trans hother
  rcases hpq with hpq | hqp
  · exact braces_ne hnested htidy hpAnswered hqAnswered hpq hpBrace hqBrace
  · exact braces_ne hnested htidy hqAnswered hpAnswered hqp hqBrace hpBrace

theorem insertions_pairwise (hnested : root.WellNested) (htidy : Tidy settings source path root) :
    ((answered settings source path root).flatMap (insertionsOf settings source)).Pairwise
      fun a b => a.Apart b ∧ a.span.start ≠ b.span.start := by
  refine List.pairwise_flatMap.mpr ⟨fun record _ => insertionsOf_pairwise _ record, ?_⟩
  refine (bodyStops_ne hnested htidy).imp_of_mem fun {a b} ha hb hne => ?_
  intro first hfirst second hsecond
  obtain ⟨stop, declaration, hstop, -, rfl⟩ := mem_insertionsOf_iff.mp hfirst
  obtain ⟨stop', declaration', hstop', -, rfl⟩ := mem_insertionsOf_iff.mp hsecond
  obtain ⟨place, -, -, hbrace, -⟩ := exists_closing htidy ha hstop
  obtain ⟨place', -, -, hbrace', -⟩ := exists_closing htidy hb hstop'
  have hdifferent : stop ≠ stop' := by
    rintro rfl
    exact hne stop hstop hstop'
  exact insertions_apart (firmAt_of_braceOf hbrace) (firmAt_of_braceOf hbrace') hdifferent

/-- A builder comes apart from all that goes for marks. -/
theorem insertion_apart_strip (hnested : root.WellNested) (htidy : Tidy settings source path root)
    {other : RecordExpansion} (hrecord : record ∈ answered settings source path root)
    (hother : other ∈ answered settings source path root)
    (hedit : edit ∈ insertionsOf settings source record) {span : Span}
    (hspan : span ∈ other.site.strips) : edit.span.Apart span := by
  obtain ⟨stop, declaration, hstop, -, rfl⟩ := mem_insertionsOf_iff.mp hedit
  obtain ⟨place, hplace, -, hbraceOf, brace, hbrace, rfl⟩ := exists_closing htidy hrecord hstop
  obtain ⟨owner, howner, mark, hmark, rfl⟩ := exists_marked_of_mem_strips hother hspan
  have hfirm := firmAt_of_braceOf hbraceOf
  obtain ⟨hsolid, -, -⟩ := solid_of_mem_marksAt hmark
  rw [insertion_span]
  rcases mark_apart_brace hnested htidy howner ⟨place, hplace, hbrace⟩ hmark with hle | hlt
  · refine .inr (SourceText.widen_stop_le_sub_blanksBefore hsolid hfirm ?_)
    rcases hle.eq_or_lt with heq | hlt
    · exact .inl heq
    · exact .inr (htidy.between place owner hplace howner _ hbraceOf mark hmark hlt)
  · exact .inl (SourceText.lt_widen_start_of_firm hsolid hfirm hlt).le

/-- What goes for marks keeps apart. -/
theorem strips_pairwise (hnested : root.WellNested) (htidy : Tidy settings source path root) :
    ((answered settings source path root).flatMap (·.site.strips)).eraseDups.Pairwise
      Span.Apart := by
  refine (nodup_eraseDups _).pairwise_of_forall_ne fun a ha b hb hne => ?_
  obtain ⟨record, hrecord, ha⟩ := List.mem_flatMap.mp (List.mem_eraseDups.mp ha)
  obtain ⟨other, hother, hb⟩ := List.mem_flatMap.mp (List.mem_eraseDups.mp hb)
  obtain ⟨owner, howner, mark, hmark, rfl⟩ := exists_marked_of_mem_strips hrecord ha
  obtain ⟨owner', howner', mark', hmark', rfl⟩ := exists_marked_of_mem_strips hother hb
  obtain ⟨hsolid, -, -⟩ := solid_of_mem_marksAt hmark
  obtain ⟨hsolid', -, -⟩ := solid_of_mem_marksAt hmark'
  rcases marks_apart hnested htidy howner howner' hmark hmark' with rfl | hle | hle
  · exact absurd rfl hne
  · exact .inl (SourceText.widen_apart hsolid hsolid' hle)
  · exact .inr (SourceText.widen_apart hsolid' hsolid hle)

theorem span_le_of_mem_editsOf (htidy : Tidy settings source path root)
    (h : edit ∈ editsOf settings source
      (ExpandedSource.answers settings (Outline.ofTree settings source path root))) :
    edit.span.start ≤ edit.span.stop ∧ edit.span.stop ≤ source.bytes.length := by
  rcases List.mem_append.mp h with h | h
  · obtain ⟨record, hrecord, hedit⟩ := List.mem_flatMap.mp h
    obtain ⟨stop, declaration, hstop, -, rfl⟩ := mem_insertionsOf_iff.mp hedit
    obtain ⟨place, -, -, hbrace, -⟩ := exists_closing htidy hrecord hstop
    rw [insertion_span]
    exact ⟨Nat.sub_le _ _, (firmAt_of_braceOf hbrace).lt_size.le⟩
  · obtain ⟨span, hspan, rfl⟩ := List.mem_map.mp h
    obtain ⟨record, hrecord, hspan⟩ := List.mem_flatMap.mp (List.mem_eraseDups.mp hspan)
    obtain ⟨owner, howner, mark, hmark, rfl⟩ := exists_marked_of_mem_strips hrecord hspan
    obtain ⟨hsolid, -, -⟩ := solid_of_mem_marksAt hmark
    have hstart := SourceText.widen_start_le hsolid
    have hstop := SourceText.le_widen_stop hsolid
    have hlt := hsolid.lt
    exact ⟨by dsimp only; omega, SourceText.widen_stop_le_size hsolid⟩

end Edits

/-! ### Trees to check -/

section Checks

variable {settings : Settings} {source : SourceText} {path : Path} {root : Node}

instance (a b : Edit) : Decidable (Edit.Apart a b) := inferInstanceAs (Decidable (_ ∨ _))

instance (source : SourceText) : DecidablePred source.FirmAt := fun k =>
  decidable_of_iff ((source.bytes[k]?).any fun byte => !isByteBlank byte) <| by
    simp [SourceText.FirmAt, Option.any_eq_true]

/-- The nodes of a tree that can have marks. -/
def markable (root : Node) : List Node.InTree :=
  declarationsOf root ++ (declarationsOf root).flatMap (·.properties)

theorem Answered.mem_declarationsOf {place : Node.InTree}
    (h : Answered settings source path root place) : place ∈ declarationsOf root :=
  List.mem_filter.mpr ⟨h.1, h.2.1⟩

theorem Marked.mem_markable {place : Node.InTree} (h : Marked settings source path root place) :
    place ∈ markable root := by
  rcases h with h | ⟨outer, houter, hmem⟩
  · exact List.mem_append_left _ h.mem_declarationsOf
  · exact List.mem_append_right _ (List.mem_flatMap.mpr ⟨outer, houter.mem_declarationsOf, hmem⟩)

/-- A tree is tidy if all of its declarations are, answered or not. -/
theorem tidy_of_declarations
    (howned : ∀ place ∈ declarationsOf root, ∀ stop ∈ (braceOf source place.node).toList,
      ∃ brace ∈ place.braces, brace.node.start = stop)
    (hreach : ∀ outer ∈ markable root,
      ∀ inner ∈ markable root ++ (declarationsOf root).flatMap (·.braces),
        outer.ancestors.length < inner.ancestors.length →
          ∀ mark ∈ marksAt settings source outer.node,
            mark ∈ marksAt settings source inner.node ∨ mark.stop ≤ inner.node.start ∨
              inner.node.stop ≤ mark.start)
    (hbetween : ∀ place ∈ declarationsOf root, ∀ owner ∈ markable root,
      ∀ stop ∈ (braceOf source place.node).toList, ∀ mark ∈ marksAt settings source owner.node,
        mark.stop < stop → ∃ k < stop, source.FirmAt k ∧ mark.stop ≤ k) :
    Tidy settings source path root where
  owned place hplace stop hstop :=
    howned place hplace.mem_declarationsOf stop (Option.mem_toList.mpr hstop)
  reach outer inner houter hinner haround := by
    have hmem : inner ∈ markable root ++ (declarationsOf root).flatMap (·.braces) := by
      rcases hinner with hinner | ⟨place, hplace, hbrace⟩
      · exact List.mem_append_left _ hinner.mem_markable
      · exact List.mem_append_right _
          (List.mem_flatMap.mpr ⟨place, hplace.mem_declarationsOf, hbrace⟩)
    exact hreach outer houter.mem_markable inner hmem haround.length_le
  between place owner hplace howner stop hstop mark hmark hlt := by
    obtain ⟨k, hk, hfirm, hle⟩ := hbetween place hplace.mem_declarationsOf owner
      howner.mem_markable stop (Option.mem_toList.mpr hstop) mark hmark hlt
    exact ⟨k, hfirm, hle, hk⟩

theorem OnCycle.exists_delegate {expansions : List RecordExpansion} {name : String}
    (h : OnCycle expansions name) : ∃ record ∈ expansions, ∃ spec,
      record.expansion.spec? = some spec ∧ spec.delegates ≠ [] := by
  obtain ⟨next, ⟨⟨record, hrecord, spec, hspec, -, delegate, hdelegate, -⟩, -⟩, -⟩ :=
    Relation.TransGen.head'_iff.mp h
  exact ⟨record, hrecord, spec, hspec, List.ne_nil_of_mem hdelegate⟩

/-- Where records come in the order in which they start and no builder calls another, each request
gets the answer that it gets alone. -/
theorem answers_of_sorted
    (hsorted : (sitesOf settings source path root).Pairwise fun a b => a.location.le b.location)
    (halone : ∀ site ∈ sitesOf settings source path root,
      ∀ spec ∈ (site.expand settings).expansion.spec?.toList, spec.delegates = []) :
    ExpandedSource.answers settings (Outline.ofTree settings source path root) =
      ((sitesOf settings source path root).filter (·.request.isSome)).map (·.expand settings) := by
  rw [ExpandedSource.answers, requested_of_sorted hsorted]
  split
  · refine List.map_id'' (fun record => ?_) _
    rcases record.rejectIn_cases (((sitesOf settings source path root).filter
      (·.request.isSome)).map (·.expand settings)) with ⟨-, hcycle, -⟩ | ⟨-, hsame⟩
    · obtain ⟨other, hother, spec, hspec, hcalls⟩ := hcycle.exists_delegate
      obtain ⟨site, hsite, rfl⟩ := List.mem_map.mp hother
      have hnone := halone site (List.mem_filter.mp hsite).1 spec (Option.mem_toList.mpr hspec)
      exact absurd hnone hcalls
    · exact hsame
  · rfl

end Checks

/-! ### The main result -/

/-- **In a tidy tree edits do not collide.** -/
theorem edits_apart (settings : Settings) (source : SourceText) (path : Path) (root : Node)
    (hnested : root.WellNested) (htidy : Tidy settings source path root) :
    let edits := editsOf settings source
      (ExpandedSource.answers settings (Outline.ofTree settings source path root))
    edits.Pairwise Edit.Apart ∧
    (answered settings source path root).Pairwise (fun a b => ∀ stop,
      a.site.bodyStop = some stop → b.site.bodyStop ≠ some stop) ∧
    Edit.applyAll edits source.bytes = Edit.replaceAll edits source.bytes ∧
    ∀ record ∈ answered settings source path root, ∀ stop, record.site.bodyStop = some stop →
      ∃ place ∈ root.walk, (recordSite settings source path place).1 = .ok (some record.site) ∧
        (∃ brace ∈ place.braces, brace.node.start = stop) ∧
        ∀ declaration ∈ record.expansion.declarations,
          insertion settings source record.site stop declaration ∈ edits ∧
            Utf8.encode (nested settings record.site declaration).toList <:+:
              Edit.applyAll edits source.bytes := by
  intro edits
  have hinsertions := insertions_pairwise hnested htidy
  have hspans : ∀ edit ∈ edits, _ := fun edit => span_le_of_mem_editsOf htidy
  have hapart : edits.Pairwise Edit.Apart := by
    refine List.pairwise_append.mpr ⟨hinsertions.imp And.left, ?_, ?_⟩
    · exact List.pairwise_map.mpr (strips_pairwise hnested htidy)
    · intro edit hedit other hother
      obtain ⟨record, hrecord, hedit⟩ := List.mem_flatMap.mp hedit
      obtain ⟨span, hspan, rfl⟩ := List.mem_map.mp hother
      obtain ⟨other, hother, hspan⟩ := List.mem_flatMap.mp (List.mem_eraseDups.mp hspan)
      exact insertion_apart_strip hnested htidy hrecord hother hedit hspan
  have hstarts : (Edit.written edits).Pairwise fun a b => a.span.start ≠ b.span.start := by
    rw [written_editsOf]
    exact (hinsertions.imp And.right).filter _
  have hmade : Edit.applyAll edits source.bytes = Edit.replaceAll edits source.bytes :=
    Edit.applyAll_eq_replaceAll hapart hspans hstarts
  refine ⟨hapart, bodyStops_ne hnested htidy, hmade, fun record hrecord stop hstop => ?_⟩
  obtain ⟨place, hplace, hread, -, hbrace⟩ := exists_closing htidy hrecord hstop
  refine ⟨place, hplace.1, hread, hbrace, fun declaration hdeclaration => ?_⟩
  have hedit : insertion settings source record.site stop declaration ∈ edits :=
    List.mem_append_left _ (List.mem_flatMap.mpr
      ⟨record, hrecord, mem_insertionsOf_iff.mpr ⟨stop, declaration, hstop, hdeclaration, rfl⟩⟩)
  obtain ⟨hle, hsize⟩ := hspans _ hedit
  have hstands := Edit.replacement_infix_replaceAll hedit (hle.trans hsize)
  rw [insertion_replacement, ← hmade] at hstands
  exact ⟨hedit, hstands⟩

/-! ### Trees that are tidy, and trees that are not -/

/-- A struct on one line, named by one letter, with the given nodes for its marks and in its
body. -/
def structWith (marks : Node) (stop : Nat) (body : List Node) : Node where
  kind := "class_declaration"
  start := marks.start
  stop := stop
  children :=
    [marks,
      { kind := "struct", start := marks.stop + 1, stop := marks.stop + 7,
        role := some "declaration_kind", isNamed := false },
      { kind := "type_identifier", start := marks.stop + 8, stop := marks.stop + 9,
        role := some "name" },
      { kind := "class_body", start := marks.stop + 10, stop := stop, role := some "body",
        children :=
          { kind := "\x7b", start := marks.stop + 10, stop := marks.stop + 11,
            isNamed := false } :: body }]

def structAt (start stop : Nat) (body : List Node) : Node :=
  structWith { kind := "modifiers", start := start, stop := start + 11 } stop body

def propertyAt (start stop : Nat) : Node where
  kind := "property_declaration"
  start := start
  stop := stop

def braceAt (start : Nat) : Node where
  kind := "\x7d"
  start := start
  stop := start + 1
  isNamed := false

def fileOf (declaration : Node) : Node where
  kind := "source_file"
  start := declaration.start
  stop := declaration.stop
  children := [declaration]

/-- A marked struct in the body of another. -/
def nestedText : String :=
  "@AddBuilder struct A \x7b @AddBuilder struct B \x7b let y: Int \x7d let x: Int \x7d"

def nestedTree : Node :=
  fileOf (structAt 0 71
    [structAt 23 58 [propertyAt 46 56, braceAt 57], propertyAt 59 69, braceAt 70])

theorem edits_apart_nested :
    let source := SourceText.ofString nestedText
    let records := answered {} source ExpandedSource.defaultPath nestedTree
    nestedTree.WellNested ∧ Tidy {} source ExpandedSource.defaultPath nestedTree ∧
    records.map (·.site.bodyStop) = [some 70, some 57] ∧
    (editsOf {} source (ExpandedSource.answers {}
      (Outline.ofTree {} source ExpandedSource.defaultPath nestedTree))).Pairwise Edit.Apart ∧
    ∀ record ∈ records, record.expansion.declarations ≠ [] := by
  intro source records
  have hnested : nestedTree.WellNested := by decide +kernel
  have htidy : Tidy {} source ExpandedSource.defaultPath nestedTree :=
    tidy_of_declarations (by decide +kernel) (by decide +kernel) (by decide +kernel)
  have hanswers : ExpandedSource.answers {}
      (Outline.ofTree {} source ExpandedSource.defaultPath nestedTree) = _ :=
    answers_of_sorted (by decide +kernel) (by decide +kernel)
  have hrecords : records = _ := congrArg faultless hanswers
  refine ⟨hnested, htidy, ?_, (edits_apart _ _ _ _ hnested htidy).1, ?_⟩
  · rw [hrecords]
    decide +kernel
  · rw [hrecords]
    decide +kernel

/-- A body without a brace ends where the last node in it ends, here with the brace of another. -/
def sharedText : String :=
  "@AddBuilder struct A \x7b let x: Int\n\n@AddBuilder struct B \x7b let y: Int \x7d"

def sharedTree : Node :=
  fileOf (structAt 0 70 [propertyAt 23 33, structAt 35 70 [propertyAt 58 68, braceAt 69],
    { kind := "\x7d", start := 70, stop := 70, isNamed := false, isMissing := true }])

/-- A marked struct in the argument of a mark. -/
def argumentText : String :=
  "@AddBuilder(\x7b @AddBuilder struct B \x7b \x7d \x7d) struct A \x7b \x7d"

def argumentTree : Node :=
  fileOf (structWith
    { kind := "modifiers", start := 0, stop := 41, children := [structAt 14 38 [braceAt 37]] }
    54 [braceAt 53])

/-- A mark with nothing but blanks between it and a brace. -/
def blankText : String := "@AddBuilder struct A \x7b @Builder(0) \x7d"

def blankTree : Node := fileOf (structAt 0 36 [propertyAt 23 34, braceAt 35])

/-- The edits for a text with a well nested tree collide. -/
def Collide (text : String) (root : Node) : Prop :=
  root.WellNested ∧ ¬(editsOf {} (.ofString text) (ExpandedSource.answers {}
    (Outline.ofTree {} (.ofString text) ExpandedSource.defaultPath root))).Pairwise Edit.Apart

theorem collide_of_sorted {text : String} {root : Node} (hnested : root.WellNested)
    (hsorted : (sitesOf {} (.ofString text) ExpandedSource.defaultPath root).Pairwise
      fun a b => a.location.le b.location)
    (halone : ∀ site ∈ sitesOf {} (.ofString text) ExpandedSource.defaultPath root,
      ∀ spec ∈ (site.expand {}).expansion.spec?.toList, spec.delegates = [])
    (hclash : ¬(editsOf {} (.ofString text)
      (((sitesOf {} (.ofString text) ExpandedSource.defaultPath root).filter
        (·.request.isSome)).map (·.expand {}))).Pairwise Edit.Apart) :
    Collide text root := by
  rw [← answers_of_sorted hsorted halone] at hclash
  exact ⟨hnested, hclash⟩

/-- Edits collide in a body without a brace of its own, around a marked struct in the argument of a
mark, and where only blanks are between a mark and a brace. In the first of these texts two records
end with the same brace. -/
theorem edits_collide :
    Collide sharedText sharedTree ∧ Collide argumentText argumentTree ∧
    Collide blankText blankTree ∧
    (sitesOf {} (.ofString sharedText) ExpandedSource.defaultPath sharedTree).map
      (fun site => (site.declaration.name, site.bodyStop)) = [("A", some 69), ("B", some 69)] := by
  refine ⟨collide_of_sorted ?_ ?_ ?_ ?_, collide_of_sorted ?_ ?_ ?_ ?_,
    collide_of_sorted ?_ ?_ ?_ ?_, ?_⟩ <;> decide +kernel

end FluentBuilder
