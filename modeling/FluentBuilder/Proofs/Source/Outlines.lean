import FluentBuilder.Proofs.Outcomes
import FluentBuilder.Proofs.Syntax.Preorder
import FluentBuilder.Source.Outline

/-!
# Outlines in pre-order

An outline lists the faults of a source in pre-order and considers every node that declares a type
once, wherever it stands. `ofTree_preorder` says so with the addresses of these nodes: in ascending
order they are the nodes that are considered, and each gives at most one record and the warnings
about it (`recordsOf_eq`).

The record of a node is read in two parts, its head and then the members in its body
(`exists_head_of_recordSite`, `recordHead_cases`, `withMembers_cases`).
-/

namespace FluentBuilder

open Syntax

section Nodes

variable {settings : Settings} {source : SourceText} {path : Path}

/-! ### The record of a node -/

theorem forall₂_memberSites {nodes : List Node} {sites : List MemberSite} {warnings : List Warning}
    (h : memberSites settings source path nodes = (.ok sites, warnings)) :
    List.Forall₂ (fun node site =>
      ∃ warning, memberSite settings source path node = .ok (site, warning)) nodes sites := by
  induction nodes generalizing sites warnings with
  | nil =>
    obtain ⟨hsites, -⟩ := Prod.mk.inj h
    obtain rfl := Except.ok.inj hsites
    exact .nil
  | cons node rest ih =>
    rw [memberSites] at h
    split at h
    · cases h
    · next site warning hsite =>
      rcases hrest : memberSites settings source path rest with ⟨reason | others, more⟩
      · rw [hrest] at h
        cases h
      · rw [hrest] at h
        obtain ⟨hsites, -⟩ := Prod.mk.inj h
        obtain rfl := Except.ok.inj hsites
        exact .cons ⟨warning, hsite⟩ (ih hrest)

/-- A declaration is read with no members where it has no body, and else with those of the
properties in its body. -/
theorem withMembers_cases {node : Node} {head site : RecordSite} {warnings : List Warning}
    (h : withMembers settings source path node head = (.ok site, warnings)) :
    node.body? = none ∧ site = head ∨
      ∃ body members, node.body? = some body ∧
        memberSites settings source path (body.namedChildren.filter fun child =>
          propertyNodes.contains child.kind) = (.ok members, warnings) ∧
        site = { head with
          declaration := { head.declaration with members := members.map (·.member) }
          strips := head.strips ++ members.flatMap (·.strips)
          bodyStop := closingBrace source body } := by
  unfold withMembers at h
  split at h
  · next hbody =>
    obtain ⟨hsite, -⟩ := Prod.mk.inj h
    exact .inl ⟨hbody, (Except.ok.inj hsite).symm⟩
  · next body hbody =>
    dsimp only at h
    rcases hmembers : memberSites settings source path
        (body.namedChildren.filter fun child => propertyNodes.contains child.kind) with
      ⟨reason | members, more⟩
    · rw [hmembers] at h
      cases h
    · rw [hmembers] at h
      obtain ⟨hsite, rfl⟩ := Prod.mk.inj h
      exact .inr ⟨body, members, hbody, hmembers, (Except.ok.inj hsite).symm⟩

/-- The record of a node has no members and no end of a body before its body is read, and the
indentation of its line. It asks for something only if an attribute of its head asks for a builder,
and these attributes go. -/
theorem recordHead_cases {place : Node.InTree} {site : RecordSite}
    (h : recordHead settings source path place = .ok (some site)) :
    ∃ text head marks, source.textOf place.node = .ok text ∧
      Syntax.head declarationKeywords text = .ok head ∧
      marks = head.attributes.filter (fun mark =>
        settings.builderAttributes.contains mark.name) ∧
      site.bodyStop = none ∧ site.declaration.members = [] ∧
      source.indentBefore place.node.start = .ok site.indent ∧
      (site.request.isSome = true → marks ≠ []) ∧
      site.strips = marks.map fun mark =>
        source.spanIn place.node.start text mark.start mark.stop := by
  simp only [recordHead, bind, Except.bind, pure, Except.pure] at h
  split at h
  · cases h
  rename_i text htext
  split at h
  · cases h
  rename_i head hhead
  have hread := mapError_eq_ok.mp hhead
  -- however the name and the keyword are found, the marks are those of the head
  repeat' split at h
  all_goals first
    | cases h; done
    | obtain rfl := Option.some.inj (Except.ok.inj h)
      have hindent := mapError_eq_ok.mp ‹(source.indentBefore _).mapError _ = .ok _›
      exact ⟨text, head, _, htext, hread, rfl, rfl, rfl, hindent, fun hsome => by simpa using hsome,
        rfl⟩

theorem exists_head_of_recordSite {place : Node.InTree} {site : RecordSite}
    (h : (recordSite settings source path place).1 = .ok (some site)) :
    ∃ head warnings, recordHead settings source path place = .ok (some head) ∧
      withMembers settings source path place.node head = (.ok site, warnings) := by
  unfold recordSite at h
  split at h
  · cases h
  · cases h
  next head hhead =>
  obtain ⟨full, hfull, hsite⟩ := map_eq_ok.mp h
  obtain rfl := Option.some.inj hsite
  exact ⟨head, _, hhead, Prod.ext hfull rfl⟩

/-! ### What is found about nodes -/

namespace Outline

/-- The record of a node, if it can be read and has a name. -/
def recordAt? (settings : Settings) (source : SourceText) (path : Path) (place : Node.InTree) :
    Option RecordSite :=
  match (recordSite settings source path place).1 with
  | .ok site => site
  | .error _ => none

/-- The warnings about a node: those about its members, and one if it cannot be read. -/
def warningsAt (settings : Settings) (source : SourceText) (path : Path) (place : Node.InTree) :
    List Warning :=
  match recordSite settings source path place with
  | (.ok _, warnings) => warnings
  | (.error reason, warnings) =>
    warnings ++ [.skipped path (source.row place.node.start + 1) reason]

theorem recordAt?_eq_some_iff {place : Node.InTree} {site : RecordSite} :
    recordAt? settings source path place = some site ↔
      (recordSite settings source path place).1 = .ok (some site) := by
  rw [recordAt?]
  cases (recordSite settings source path place).1 <;> simp

/-- What is found about some nodes is what is found about each, in their order. -/
theorem recordsOf_eq (settings : Settings) (source : SourceText) (path : Path)
    (places : List Node.InTree) :
    recordsOf settings source path places =
      (places.filterMap (recordAt? settings source path),
        places.flatMap (warningsAt settings source path)) := by
  induction places with
  | nil => rfl
  | cons place rest ih =>
    rw [recordsOf, ih, List.filterMap_cons, List.flatMap_cons]
    rcases hread : recordSite settings source path place with ⟨reason | _ | site, warnings⟩
    · simp [recordAt?, warningsAt, hread]
    · simp [recordAt?, warningsAt, hread]
    · simp [recordAt?, warningsAt, hread]

end Outline

end Nodes

/-! ### Declarations -/

namespace Outline

def declarations (root : Node) : List (List Nat) :=
  root.addresses.filter fun address =>
    (Node.InTree.at? ⟨root, []⟩ address).any fun place => typeNodes.contains place.node.kind

theorem mem_declarations_iff {root : Node} {address : List Nat} :
    address ∈ declarations root ↔ ∃ place, Node.InTree.at? ⟨root, []⟩ address = some place ∧
      typeNodes.contains place.node.kind = true := by
  have hroot := @Node.mem_addresses_iff ⟨root, []⟩ address
  rw [declarations, List.mem_filter, hroot, and_iff_right_of_imp Option.isSome_of_any,
    Option.any_eq_true]

theorem filterMap_at?_declarations (root : Node) :
    (declarations root).filterMap (Node.InTree.at? ⟨root, []⟩) =
      (Node.InTree.preorder ⟨root, []⟩).filter fun place =>
        typeNodes.contains place.node.kind := by
  rw [← Node.filterMap_at?_addresses, List.filter_filterMap, declarations, List.filterMap_filter]
  refine List.filterMap_congr fun address _ => ?_
  cases Node.InTree.at? ⟨root, []⟩ address <;> simp [Option.filter]

/-- **Outlines are in pre-order.** The traversal of a tree on a stack ends after as many rounds as
there are nodes, and gives the nodes in pre-order. The faults of a source are listed in this order.
Every node that declares a type is considered once, however deep it stands: those at ascending
addresses, one for each address of such a node, give the records and the warnings. -/
theorem ofTree_preorder (settings : Settings) (source : SourceText) (path : Path) (root : Node) :
    let top : Node.InTree := ⟨root, []⟩
    let outline := ofTree settings source path root
    (∀ n, (Node.Traversal.round^[n] (.start root)).stack = [] ↔ root.size ≤ n) ∧
    (Node.Traversal.round^[root.size] (.start root)).met = top.preorder ∧
    root.walk = top.preorder ∧
    outline.syntaxErrors = (top.preorder.filter (·.node.isFault)).map (fun place =>
      nodeLocation source path place.node) ∧
    ∃ addresses : List (List Nat), addresses.Pairwise (· < ·) ∧
      (∀ address, address ∈ addresses ↔ ∃ place, top.at? address = some place ∧
        typeNodes.contains place.node.kind = true) ∧
      let considered := addresses.filterMap top.at?
      considered = top.preorder.filter (fun place => typeNodes.contains place.node.kind) ∧
      outline.records.Perm (considered.filterMap (recordAt? settings source path)) ∧
      outline.warnings = faultWarning path outline.syntaxErrors ++
        considered.flatMap (warningsAt settings source path) := by
  intro top outline
  obtain ⟨hstack, hmet⟩ := Node.rounds_start root
  have hwalk : root.walk = top.preorder := Node.walk_eq_preorder root
  have hconsidered := filterMap_at?_declarations root
  refine ⟨hstack, hmet.trans hwalk, hwalk, ?_, declarations root,
    (Node.pairwise_addresses root).filter _, fun address => mem_declarations_iff, hconsidered, ?_⟩
  · rw [← hwalk]
    rfl
  · have hread := recordsOf_eq settings source path
      (root.walk.filter fun place => typeNodes.contains place.node.kind)
    rw [hconsidered, ← hwalk]
    constructor
    · have hrecords := List.Perm.of_eq (congrArg Prod.fst hread)
      exact (List.mergeSort_perm _ _).trans hrecords
    · have hwarnings := congrArg Prod.snd hread
      exact congrArg (faultWarning path outline.syntaxErrors ++ ·) hwarnings

end Outline

end FluentBuilder
