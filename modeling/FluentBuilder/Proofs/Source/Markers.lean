import FluentBuilder.Proofs.Builder.Fields
import FluentBuilder.Proofs.Delegation.Rejection
import FluentBuilder.Proofs.Source.Outlines
import FluentBuilder.Proofs.Source.Splicing

/-!
# Marks go, builders come only before a brace

A record that asks for a builder is marked, and once its request is answered without an error two
things are due: the marks go, and the builder comes. `answers_placed` says when they happen. The
marks always go, since their spans are found with the head of the declaration (`recordHead_eq_ok`)
and taken away for every answer without an error. The builder needs a place, and this is found
with the body (`withMembers_eq_ok`): it comes exactly if the last byte of the body is a brace.

So the two do not go together. Where the body ends in another way, as it does in a text that ends
too early, the marks are lost and no builder comes; what is left is a warning, and no error is
reported (`ofSource_unclosed`).

The statement is about the edits. Where these keep apart, it says what the new text shows: nothing
of a byte that an edit covers stays (`Edit.pieceAt_of_covers`), and what an edit writes stands in
the text (`Edit.replacement_infix_replaceAll`).
-/

namespace FluentBuilder

open Syntax Text

/-! ### Marks and braces of a declaration -/

/-- The attributes of a head that ask for a builder. -/
def marksIn (settings : Settings) (head : Head) : List Attribute :=
  head.attributes.filter fun mark => settings.builderAttributes.contains mark.name

/-- The byte ranges of the attributes of a node that ask for a builder. -/
def marksOf (settings : Settings) (source : SourceText) (node : Node) : List Span :=
  match source.textOf node with
  | .error _ => []
  | .ok text =>
    match head declarationKeywords text with
    | .error _ => []
    | .ok head =>
      (marksIn settings head).map fun mark =>
        ⟨node.start + SourceText.byteCount (text.take mark.start),
          node.start + SourceText.byteCount (text.take mark.stop)⟩

/-- Where the body of a node is closed by a brace. -/
def braceOf (source : SourceText) (node : Node) : Option Nat :=
  node.body?.bind (closingBrace source)

/-- Edits that write nothing take away every byte of the marks of a node. -/
def MarksGo (settings : Settings) (source : SourceText) (edits : List Edit) (node : Node) : Prop :=
  ∀ mark ∈ marksOf settings source node, ∀ offset < source.size, mark.covers offset = true →
    ∃ edit ∈ edits, edit.replacement = [] ∧ edit.span.covers offset = true

/-- The edits put a declaration of the answer before the brace that closes the record. -/
def BuilderComes (settings : Settings) (source : SourceText) (edits : List Edit)
    (record : RecordExpansion) : Prop :=
  ∃ stop declaration, record.site.bodyStop = some stop ∧
    declaration ∈ record.expansion.declarations ∧
      insertion settings source record.site stop declaration ∈ edits

/-! ### From a node to its record -/

section Outline

variable {settings : Settings} {source : SourceText} {path : Path} {place : Node.InTree}
  {site : RecordSite}

theorem spanIn_covers {nodeStart start stop offset : Nat} {text : List Char}
    (h : Span.covers ⟨nodeStart + SourceText.byteCount (text.take start),
      nodeStart + SourceText.byteCount (text.take stop)⟩ offset = true)
    (hsize : offset < source.size) :
    (source.spanIn nodeStart text start stop).covers offset = true := by
  simp only [Span.covers, Bool.and_eq_true, decide_eq_true_eq] at h ⊢
  obtain ⟨hfirst, hlast⟩ := h
  unfold SourceText.spanIn
  dsimp only
  split
  · simp only [SourceText.lineStart, SourceText.lineStop]
    omega
  · dsimp only
    omega

/-- The record of a node has a span to go for each of its marks, and asks for something only if
there is one. -/
theorem recordHead_eq_ok (h : recordHead settings source path place = .ok (some site)) :
    site.bodyStop = none ∧
      (site.request.isSome = true → marksOf settings source place.node ≠ []) ∧
      ∀ mark ∈ marksOf settings source place.node, ∀ offset < source.size,
        mark.covers offset = true → ∃ span ∈ site.strips, span.covers offset = true := by
  obtain ⟨text, head, _, htext, hhead, rfl, hstop, -, -, hrequest, hstrips⟩ := recordHead_cases h
  have hmarks : marksOf settings source place.node = (marksIn settings head).map fun mark =>
      ⟨place.node.start + SourceText.byteCount (text.take mark.start),
        place.node.start + SourceText.byteCount (text.take mark.stop)⟩ := by
    simp only [marksOf, htext, hhead]
  refine ⟨hstop, fun hsome => ?_, fun mark hmark offset hsize hcovers => ?_⟩
  · rw [hmarks]
    simpa [marksIn] using hrequest hsome
  · rw [hmarks] at hmark
    obtain ⟨found, hfound, rfl⟩ := List.mem_map.mp hmark
    rw [hstrips]
    exact ⟨_, List.mem_map.mpr ⟨found, hfound, rfl⟩, spanIn_covers hcovers hsize⟩

theorem withMembers_eq_ok {warnings : List Warning} {node : Node} {head : RecordSite}
    (h : withMembers settings source path node head = (.ok site, warnings)) :
    site.request = head.request ∧ (∀ span ∈ head.strips, span ∈ site.strips) ∧
      (head.bodyStop = none → site.bodyStop = braceOf source node) := by
  obtain ⟨hbody, rfl⟩ | ⟨body, members, hbody, -, rfl⟩ := withMembers_cases h
  · exact ⟨rfl, fun _ hspan => hspan, fun hnone => by rw [hnone, braceOf, hbody]; rfl⟩
  · refine ⟨rfl, fun _ hspan => List.mem_append_left _ hspan, fun _ => ?_⟩
    rw [braceOf, hbody]
    rfl

/-- The record of a node has a span to go for each of its marks, asks for something only if there
is one, and has the place of the brace that closes the body. -/
theorem recordSite_eq_ok (h : (recordSite settings source path place).1 = .ok (some site)) :
    site.bodyStop = braceOf source place.node ∧
      (site.request.isSome = true → marksOf settings source place.node ≠ []) ∧
      ∀ mark ∈ marksOf settings source place.node, ∀ offset < source.size,
        mark.covers offset = true → ∃ span ∈ site.strips, span.covers offset = true := by
  obtain ⟨head, warnings, hhead, hbody⟩ := exists_head_of_recordSite h
  obtain ⟨hstop, hrequest, hmarks⟩ := recordHead_eq_ok hhead
  obtain ⟨hsame, hstrips, hbrace⟩ := withMembers_eq_ok hbody
  refine ⟨hbrace hstop, hsame ▸ hrequest, fun mark hmark offset hsize hcovers => ?_⟩
  obtain ⟨span, hspan, hspanCovers⟩ := hmarks mark hmark offset hsize hcovers
  exact ⟨span, hstrips span hspan, hspanCovers⟩

/-- The records of some nodes are those of the single nodes. -/
theorem mem_recordsOf_iff {places : List Node.InTree} :
    site ∈ (Outline.recordsOf settings source path places).1 ↔
      ∃ place ∈ places, (recordSite settings source path place).1 = .ok (some site) := by
  rw [Outline.recordsOf_eq, List.mem_filterMap]
  simp only [Outline.recordAt?_eq_some_iff]

end Outline

/-! ### From a record to its answer -/

section Answers

variable {settings : Settings} {source : SourceText} {record : RecordExpansion}

/-- An answer without an error is not one to a cycle: it is that to the request alone. -/
theorem eq_expand_of_mem_answers {outline : Outline}
    (hrecord : record ∈ ExpandedSource.answers settings outline)
    (hclean : record.expansion.hasErrors = false) :
    ∃ site ∈ outline.requested, record = site.expand settings := by
  unfold ExpandedSource.answers at hrecord
  dsimp only at hrecord
  split at hrecord
  · obtain ⟨before, hbefore, hrejected⟩ := List.mem_map.mp hrecord
    obtain ⟨site, hsite, rfl⟩ := List.mem_map.mp hbefore
    rcases (site.expand settings).rejectIn_cases (outline.requested.map (·.expand settings)) with
      ⟨-, -, hcyclic⟩ | ⟨-, hsame⟩
    · obtain ⟨-, -, report, hreport, -, hsevere⟩ := hrejected ▸ hcyclic
      simp [Expansion.hasErrors, hreport, hsevere] at hclean
    · exact ⟨site, hsite, hrejected.symm.trans hsame⟩
  · obtain ⟨site, hsite, rfl⟩ := List.mem_map.mp hrecord
    exact ⟨site, hsite, rfl⟩

theorem site_expand (site : RecordSite) : (site.expand settings).site = site := by
  unfold RecordSite.expand
  split <;> rfl

/-- A request for a builder that is answered without an error gets its builder. -/
theorem expand_eq_generated {site : RecordSite} (hkind : site.toRequest.kind = .addBuilder)
    (hclean : (site.expand settings).expansion.hasErrors = false) :
    ∃ declaration spec, (site.expand settings).expansion = .generated declaration spec := by
  unfold RecordSite.expand at hclean ⊢
  cases hanswer : site.toRequest.expand settings with
  | error error => simp [hanswer, Expansion.hasErrors, Expansion.diagnostics,
      Diagnostic.unsupportedType] at hclean
  | ok expansion =>
    rw [hanswer] at hclean
    dsimp only at hclean ⊢
    obtain ⟨hother, -⟩ | ⟨-, -, rfl⟩ | ⟨-, -, spec, -, rfl⟩ := Request.expand_eq_ok hanswer
    · cases hkind.symm.trans hother
    · simp [Expansion.hasErrors, Expansion.diagnostics, Diagnostic.requiresStruct] at hclean
    · exact ⟨_, spec, rfl⟩

end Answers

/-! ### From an answer to the text -/

namespace Edit

variable {edits : List Edit} {edit : Edit} {bytes : List UInt8}

/-- Of a byte that an edit covers nothing stays. -/
theorem pieceAt_of_covers {offset : Nat} (h : edit ∈ edits)
    (hcovers : edit.span.covers offset = true) :
    pieceAt edits bytes offset = textsAt edits offset := by
  have hany : edits.any (·.span.covers offset) = true := List.any_eq_true.mpr ⟨edit, h, hcovers⟩
  rw [pieceAt, hany, if_pos rfl, List.append_nil, textsAt]

/-- The replacement of an edit that starts in the text stands in what edits at once give. -/
theorem replacement_infix_replaceAll (h : edit ∈ edits) (hstart : edit.span.start ≤ bytes.length) :
    edit.replacement <:+: replaceAll edits bytes := by
  have hfilter : edit ∈ edits.filter (·.span.start == edit.span.start) := by simpa using h
  have hpiece : edit.replacement <:+: pieceAt edits bytes edit.span.start :=
    (List.infix_of_mem_flatten (List.mem_map_of_mem hfilter)).trans (List.infix_append' [] _ _)
  have hoffset : edit.span.start ∈ List.range' 0 (bytes.length + 1 - 0) := by
    rw [List.mem_range'_1]
    omega
  exact hpiece.trans (List.infix_of_mem_flatten (List.mem_map_of_mem hoffset))

end Edit

section Placed

variable {settings : Settings} {source : SourceText} {expansions : List RecordExpansion}
  {record : RecordExpansion}

theorem mem_faultless (hrecord : record ∈ expansions)
    (hclean : record.expansion.hasErrors = false) : record ∈ faultless expansions := by
  simp [faultless, hrecord, hclean]

theorem mem_editsOf_of_mem_strips {span : Span} (hrecord : record ∈ expansions)
    (hclean : record.expansion.hasErrors = false) (hspan : span ∈ record.site.strips) :
    { span := span } ∈ editsOf settings source expansions := by
  rw [mem_editsOf_iff]
  refine List.mem_flatMap.mpr ⟨record, mem_faultless hrecord hclean, ?_⟩
  exact List.mem_append_right _ (List.mem_map_of_mem hspan)

/-- The builder of an answer comes exactly if the body of its record is closed by a brace. -/
theorem builderComes_iff {declaration : String} {spec : BuilderSpec}
    (hrecord : record ∈ expansions) (hclean : record.expansion.hasErrors = false)
    (hexpansion : record.expansion = .generated declaration spec) :
    BuilderComes settings source (editsOf settings source expansions) record ↔
      record.site.bodyStop.isSome = true := by
  constructor
  · rintro ⟨stop, _, hstop, -⟩
    rw [hstop]
    rfl
  · intro hsome
    obtain ⟨stop, hstop⟩ := Option.isSome_iff_exists.mp hsome
    have hdeclared : declaration ∈ record.expansion.declarations := by
      rw [hexpansion]
      exact List.mem_singleton_self _
    refine ⟨stop, declaration, hstop, hdeclared, ?_⟩
    rw [mem_editsOf_iff]
    refine List.mem_flatMap.mpr
      ⟨record, mem_faultless hrecord hclean, List.mem_append_left _ ?_⟩
    rw [insertionsOf, hstop]
    exact List.mem_map_of_mem hdeclared

theorem noBody_mem_missingBodies {declaration : String} {spec : BuilderSpec}
    (hrecord : record ∈ expansions) (hclean : record.expansion.hasErrors = false)
    (hexpansion : record.expansion = .generated declaration spec)
    (hstop : record.site.bodyStop = none) :
    .noBody record.site.declaration.name ∈ missingBodies expansions := by
  refine List.mem_flatMap.mpr ⟨record, mem_faultless hrecord hclean, ?_⟩
  rw [hstop, hexpansion]
  exact List.mem_singleton_self _

theorem spliced_eq_replaceAll_editsOf {text : String} (h : Separate settings text expansions) :
    ∃ result, spliced settings (.ofString text) expansions = .ok result ∧
      Utf8.encode result.toList = Edit.replaceAll (editsOf settings (.ofString text) expansions)
        (SourceText.ofString text).bytes := by
  obtain ⟨result, hresult, hbytes⟩ := spliced_of_separate h
  refine ⟨result, hresult, hbytes.trans (Edit.replaceAll_congr
    (mem_editsOf_iff expansions) ?_ ?_).symm⟩
  · rw [written_editsOf, written_edits]
  · rw [written_editsOf]
    exact h.starts.filter _

end Placed

/-- **Marks go in any case, builders come only before a brace.** A request for a builder that is
answered without an error is one of a node with marks. All of them are taken away, but the builder
is put in exactly if the body of the node is closed by a brace; if not, all that is left of the
request is a warning. Where the edits keep apart, this is what the text shows. -/
theorem answers_placed (settings : Settings) (path : Path) (text : String) (root : Node)
    (record : RecordExpansion)
    (hrecord : record ∈
      ExpandedSource.answers settings (Outline.ofTree settings (.ofString text) path root))
    (hkind : record.site.toRequest.kind = .addBuilder)
    (hclean : record.expansion.hasErrors = false) :
    let source := SourceText.ofString text
    let expansions := ExpandedSource.answers settings (Outline.ofTree settings source path root)
    let edits := editsOf settings source expansions
    ∃ place ∈ root.walk, typeNodes.contains place.node.kind = true ∧
      (recordSite settings source path place).1 = .ok (some record.site) ∧
      marksOf settings source place.node ≠ [] ∧
      MarksGo settings source edits place.node ∧
      (BuilderComes settings source edits record ↔ (braceOf source place.node).isSome = true) ∧
      (¬BuilderComes settings source edits record →
        .noBody record.site.declaration.name ∈ missingBodies expansions) ∧
      (Separate settings text expansions →
        ∃ result, spliced settings source expansions = .ok result ∧
          Utf8.encode result.toList = Edit.replaceAll edits source.bytes ∧
          (∀ mark ∈ marksOf settings source place.node, ∀ offset < source.size,
            mark.covers offset = true →
              Edit.pieceAt edits source.bytes offset = Edit.textsAt edits offset) ∧
          ∀ declaration ∈ record.expansion.declarations,
            (braceOf source place.node).isSome = true →
              Utf8.encode (nested settings record.site declaration).toList <:+:
                Utf8.encode result.toList) := by
  intro source expansions edits
  -- the record is that of a node, and its answer that to its own request
  obtain ⟨site, hsite, rfl⟩ := eq_expand_of_mem_answers hrecord hclean
  rw [site_expand] at hkind ⊢
  obtain ⟨hlisted, hasks⟩ := List.mem_filter.mp hsite
  obtain ⟨place, hplace, hread⟩ :=
    mem_recordsOf_iff.mp ((List.mergeSort_perm _ _).mem_iff.mp hlisted)
  obtain ⟨hwalk, htype⟩ := List.mem_filter.mp hplace
  obtain ⟨hbrace, hmarks, hspans⟩ := recordSite_eq_ok hread
  obtain ⟨declaration, spec, hexpansion⟩ := expand_eq_generated hkind hclean
  have hcomes : BuilderComes settings source edits (site.expand settings) ↔
      (braceOf source place.node).isSome = true := by
    rw [← hbrace, builderComes_iff hrecord hclean hexpansion, site_expand]
  have hgo : MarksGo settings source edits place.node := by
    intro mark hmark offset hsize hcovers
    obtain ⟨span, hspan, hspanCovers⟩ := hspans mark hmark offset hsize hcovers
    refine ⟨{ span := span }, mem_editsOf_of_mem_strips hrecord hclean ?_, rfl, hspanCovers⟩
    rw [site_expand]
    exact hspan
  refine ⟨place, hwalk, htype, hread, hmarks hasks, hgo, hcomes, ?_, ?_⟩
  · intro hnot
    rw [hcomes, ← hbrace, Bool.not_eq_true, Option.isSome_eq_false_iff, Option.isNone_iff_eq_none]
      at hnot
    have hwarned := noBody_mem_missingBodies hrecord hclean hexpansion (by rw [site_expand, hnot])
    rwa [site_expand] at hwarned
  · intro hseparate
    obtain ⟨result, hresult, hbytes⟩ := spliced_eq_replaceAll_editsOf hseparate
    refine ⟨result, hresult, hbytes, ?_, ?_⟩
    · intro mark hmark offset hsize hcovers
      obtain ⟨edit, hedit, -, heditCovers⟩ := hgo mark hmark offset hsize hcovers
      exact Edit.pieceAt_of_covers hedit heditCovers
    · intro other hother hsome
      obtain ⟨stop, found, hstop, hfound, hedit⟩ := hcomes.mpr hsome
      rw [hexpansion] at hother hfound
      obtain rfl : other = declaration := List.mem_singleton.mp hother
      obtain rfl : found = other := List.mem_singleton.mp hfound
      have hstands := Edit.replacement_infix_replaceAll hedit
        (hseparate.inside _ hedit).2.1.le_length
      rw [insertion_replacement, site_expand] at hstands
      rw [hbytes]
      exact hstands

/-! ### Sources in which records come in order -/

def declarationsOf (root : Node) : List Node.InTree :=
  root.walk.filter fun place => typeNodes.contains place.node.kind

/-- The records that a tree declares, in the order of the traversal. -/
def sitesOf (settings : Settings) (source : SourceText) (path : Path) (root : Node) :
    List RecordSite :=
  (Outline.recordsOf settings source path (declarationsOf root)).1

/-- Records that come in the order in which they start are not moved. -/
theorem requested_of_sorted {settings : Settings} {source : SourceText} {path : Path} {root : Node}
    (h : (sitesOf settings source path root).Pairwise fun a b => a.location.le b.location) :
    (Outline.ofTree settings source path root).requested =
      (sitesOf settings source path root).filter (·.request.isSome) :=
  congrArg _ (List.mergeSort_of_pairwise h)

/-- The node of a marked declaration on one line, with a name of one letter. The given nodes stand in
its body, which ends with it. -/
def markedNode (mark keyword : String) (start stop : Nat) (body : List Node) : Node :=
  let head := start + mark.length + 1
  let name := head + keyword.length + 1
  { kind := "class_declaration", start, stop
    children :=
      [{ kind := "modifiers", start, stop := start + mark.length },
        { kind := keyword, start := head, stop := head + keyword.length,
          role := some "declaration_kind", isNamed := false },
        { kind := "type_identifier", start := name, stop := name + 1, role := some "name" },
        { kind := "class_body", start := name + 2, stop, role := some "body",
          children := { kind := "\x7b", start := name + 2, stop := name + 3, isNamed := false } ::
            body }] }

/-- The nodes of the properties in a body, and of its closing brace. -/
def closedBody (properties : List (Nat × Nat)) (stop : Nat) : List Node :=
  properties.map (fun (start, stop) => { kind := "property_declaration", start, stop }) ++
    [{ kind := "\x7d", start := stop - 1, stop, isNamed := false }]

/-- The tree of a marked struct `A`, with the given nodes in its body. -/
def structTree (stop : Nat) (body : List Node) : Node where
  kind := "source_file"
  start := 0
  stop := stop
  children := [markedNode "@AddBuilder" "struct" 0 stop body]

def closedText : String := "@AddBuilder struct A \x7b\x7d"

def closedTree : Node := structTree 23 (closedBody [] 23)

/-- Marked declarations that are answered in different ways, the last without a closing brace. -/
def mixedText : String :=
  "@AddBuilder struct A \x7b let x: Int \x7d @AddBuilder class B \x7b\x7d " ++
  "@AddBuilder(default: 0) struct C \x7b\x7d @AddBuilder struct D \x7b let x: Any \x7d " ++
  "@AddBuilder struct E \x7b let f: F \x7d @AddBuilder struct F \x7b let e: E \x7d " ++
  "@AddBuilder struct G \x7b let x: Int"

def mixedTree : Node where
  kind := "source_file"
  start := 0
  stop := 232
  children :=
    [markedNode "@AddBuilder" "struct" 0 35 (closedBody [(23, 33)] 35),
      markedNode "@AddBuilder" "class" 36 58 (closedBody [] 58),
      markedNode "@AddBuilder(default: 0)" "struct" 59 94 (closedBody [] 94),
      markedNode "@AddBuilder" "struct" 95 130 (closedBody [(118, 128)] 130),
      markedNode "@AddBuilder" "struct" 131 164 (closedBody [(154, 162)] 164),
      markedNode "@AddBuilder" "struct" 165 198 (closedBody [(188, 196)] 198),
      markedNode "@AddBuilder" "struct" 199 232
        [{ kind := "property_declaration", start := 222, stop := 232 }]]

def mixedAnswers : List RecordExpansion :=
  ExpandedSource.answers {}
    (Outline.ofTree {} (.ofString mixedText) ExpandedSource.defaultPath mixedTree)

def mixedSites : List RecordSite :=
  (sitesOf {} (.ofString mixedText) ExpandedSource.defaultPath mixedTree).filter (·.request.isSome)

/-- Two of the builders that are made call each other. -/
theorem mixedAnswers_eq : mixedAnswers = mixedSites.map fun site =>
    (site.expand {}).rejectIn [("E", ["E", "F"]), ("F", ["E", "F"])] := by
  obtain ⟨hsorted, hedges⟩ :
      (sitesOf {} (.ofString mixedText) ExpandedSource.defaultPath mixedTree).Pairwise
        (fun a b => a.location.le b.location) ∧
      (delegationGraph (mixedSites.map (·.expand {}))).edges =
        [("A", []), ("E", ["F"]), ("F", ["E"]), ("G", [])] := by
    decide +kernel
  have hcycles : (delegationGraph (mixedSites.map (·.expand {}))).recordsInCycles =
      [("E", ["E", "F"]), ("F", ["E", "F"])] := by
    generalize delegationGraph (mixedSites.map (·.expand {})) = graph at hedges
    obtain ⟨edges⟩ := graph
    subst hedges
    have hrecords : ["A", "E", "F", "G"].Pairwise (· < ·) := by decide
    rw [DelegationGraph.recordsInCycles, DelegationGraph.cycles]
    simp only [DelegationGraph.records, List.map_cons, List.map_nil,
      Text.sortedSet_eq_self hrecords]
    decide +kernel
  rw [mixedAnswers, ExpandedSource.answers, requested_of_sorted hsorted, if_pos rfl]
  change rejectCycles (mixedSites.map (·.expand {})) = _
  rw [rejectCycles, hcycles, List.map_map]
  rfl

theorem separate_mixedAnswers : Separate {} mixedText mixedAnswers := by
  obtain ⟨hspans, hinserted⟩ :
      (editsOf {} (.ofString mixedText) mixedAnswers).map (·.span) =
        [⟨33, 34⟩, ⟨0, 12⟩, ⟨59, 83⟩, ⟨199, 211⟩] ∧
      (insertions {} (.ofString mixedText) mixedAnswers).map (·.span) = [⟨33, 34⟩] := by
    rw [mixedAnswers_eq]
    decide +kernel
  have hlengths : ∀ n ∈ [33, 34, 0, 12, 59, 83, 199, 211],
      (Utf8.encode (mixedText.toList.take n)).length = n := by
    decide +kernel
  have hboundary : ∀ n ∈ [33, 34, 0, 12, 59, 83, 199, 211],
      Utf8.IsBoundary mixedText.toList n := fun n hn =>
    ⟨_, _, (List.take_append_drop n _).symm, hlengths n hn⟩
  refine ⟨fun edit hedit => ?_, ?_, ?_⟩
  · have hspan := List.mem_map_of_mem (f := Edit.span) hedit
    rw [hspans] at hspan
    simp only [List.mem_cons, List.not_mem_nil, or_false] at hspan
    rcases hspan with h | h | h | h <;> rw [Edit.OnBoundaries, h] <;>
      exact ⟨by decide, hboundary _ (by decide), hboundary _ (by decide)⟩
  · have hapart : ((editsOf {} (.ofString mixedText) mixedAnswers).map (·.span)).Pairwise
        fun a b => a.stop ≤ b.start ∨ b.stop ≤ a.start := by
      rw [hspans]
      simp
    rw [List.pairwise_map] at hapart
    exact hapart
  · have hstarts : ((insertions {} (.ofString mixedText) mixedAnswers).map (·.span)).Pairwise
        fun a b => a.start ≠ b.start := by
      rw [hinserted]
      exact List.pairwise_singleton _ _
    rw [List.pairwise_map] at hstarts
    exact hstarts

/-- Of the two builders that are made, the first comes before its brace. The other has none to come
before: its mark goes, and a warning is left. -/
theorem answers_placed_mixed :
    let source := SourceText.ofString mixedText
    let edits := editsOf {} source mixedAnswers
    Separate {} mixedText mixedAnswers ∧
    (∃ record ∈ mixedAnswers, record.site.declaration.name = "A" ∧
      BuilderComes {} source edits record ∧
      ∃ result, spliced {} source mixedAnswers = .ok result ∧
        ∃ declaration ∈ record.expansion.declarations,
          Utf8.encode (nested {} record.site declaration).toList <:+:
            Utf8.encode result.toList) ∧
    ∃ record ∈ mixedAnswers, record.site.declaration.name = "G" ∧
      record.expansion.declarations ≠ [] ∧ ¬BuilderComes {} source edits record ∧
      (∃ place ∈ mixedTree.walk, marksOf {} source place.node ≠ [] ∧
        MarksGo {} source edits place.node) ∧
      .noBody "G" ∈ missingBodies mixedAnswers := by
  intro source edits
  obtain ⟨⟨record, hrecord, hanswer⟩, ⟨other, hother, hotherAnswer⟩⟩ :
      (∃ record ∈ mixedAnswers, (record.site.declaration.name = "A" ∧
        record.site.toRequest.kind = .addBuilder ∧ record.expansion.hasErrors = false) ∧
          record.site.bodyStop.isSome = true) ∧
      ∃ record ∈ mixedAnswers, (record.site.declaration.name = "G" ∧
        record.site.toRequest.kind = .addBuilder ∧ record.expansion.hasErrors = false) ∧
          record.site.bodyStop.isSome = false ∧ record.expansion.declarations ≠ [] := by
    rw [mixedAnswers_eq]
    decide +kernel
  refine ⟨separate_mixedAnswers, ?_, ?_⟩
  · obtain ⟨⟨hname, hkind, hclean⟩, hstop⟩ := hanswer
    obtain ⟨place, -, -, hread, -, -, hcomes, -, htext⟩ :=
      answers_placed {} ExpandedSource.defaultPath mixedText mixedTree record hrecord hkind hclean
    rw [(recordSite_eq_ok hread).1] at hstop
    obtain ⟨result, hresult, -, -, hstands⟩ := htext separate_mixedAnswers
    obtain ⟨_, declaration, -, hdeclared, -⟩ := hcomes.mpr hstop
    exact ⟨record, hrecord, hname, hcomes.mpr hstop, result, hresult, declaration, hdeclared,
      hstands declaration hdeclared hstop⟩
  · obtain ⟨⟨hname, hkind, hclean⟩, hstop, hdeclared⟩ := hotherAnswer
    obtain ⟨place, hplace, -, hread, hmarks, hgo, hcomes, hwarned, -⟩ :=
      answers_placed {} ExpandedSource.defaultPath mixedText mixedTree other hother hkind hclean
    rw [(recordSite_eq_ok hread).1] at hstop
    have hnot : ¬BuilderComes {} source edits other := fun hcome => by
      simp [hcomes.mp hcome] at hstop
    exact ⟨other, hother, hname, hdeclared, hnot, ⟨place, hplace, hmarks, hgo⟩, hname ▸ hwarned hnot⟩

/-- A marked struct whose body ends with the text, without a brace. -/
def unclosedText : String := "@AddBuilder struct A \x7b let x: Int"

/-- The tree of that text: the brace is missing. -/
def unclosedTree : Node :=
  structTree 33
    [{ kind := "property_declaration", start := 23, stop := 33 },
      { kind := "\x7d", start := 33, stop := 33, isNamed := false, isMissing := true }]

/-- Without a closing brace the mark goes and no builder comes, although one is made and no error
is reported. -/
theorem ofSource_unclosed :
    (ExpandedSource.ofSource {} ExpandedSource.defaultPath unclosedText unclosedTree).toOption.map
      (fun expanded => (expanded.source, expanded.hasErrors, expanded.expansions.map fun record =>
        (record.site.toRequest.kind, record.expansion.declarations.length))) =
    some ("struct A \x7b let x: Int", false, [(.addBuilder, 1)]) := by
  decide +kernel

end FluentBuilder
