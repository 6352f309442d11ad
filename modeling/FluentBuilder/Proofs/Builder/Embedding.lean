import FluentBuilder.Proofs.Builder.Reading
import FluentBuilder.Proofs.Source.Locations
import FluentBuilder.Proofs.Text.Indenting
import Mathlib.Data.List.TakeWhile

/-!
# A builder in its place

A builder is put into a source, or into an extension, line by line, moved to the right. What it is
made of comes from the source: defaults above all, which are taken as they are written, with
strings in them. The lines of a builder are told by all line ends that there are, but only line
feeds are put between them again. So a builder stands in its place as it was rendered, up to its
indentation, exactly if no text that it is made of holds another line end
(`render_embedded_exact`). A line separator in a string is a place where the string is torn.

Two things are needed for this: what a builder is rendered as holds no line ends but line feeds and
those of its texts (`lineFeedsOnly_render`), and the pad that it gets in a source is part of one
row, since it comes from the front of the line of its record (`lineFeed_notMem_indent`).
-/

namespace FluentBuilder

open Text

namespace BuilderSpec

/-- The texts that a builder of a name is made of. -/
def texts (spec : BuilderSpec) (name : String) : List String :=
  name :: spec.recordName ::
    spec.slots.flatMap fun slot => [slot.name, slot.type.render, slot.default]

/-! ### Line ends in the lines of a builder -/

section

variable {layout : Layout} {slot : Slot} {slots : List Slot}

theorem Layout.IsPlain.lineFeedsOnly_pad (h : layout.IsPlain) :
    LineFeedsOnly layout.pad.toList := by
  obtain ⟨n, hpad⟩ := h.pad
  intro c hc hend
  rw [hpad, String.toList_ofList] at hc
  rw [List.eq_of_mem_replicate hc] at hend
  exact absurd hend (by decide)

theorem Layout.IsPlain.lineFeedsOnly_access (h : layout.IsPlain) :
    LineFeedsOnly layout.access.toList := by
  rcases h.access with haccess | haccess <;> rw [haccess] <;> decide

theorem lineFeedsOnly_slotLine (h : layout.IsPlain) :
    LineFeedsOnly (slotLine layout slot).toList ↔
      LineFeedsOnly slot.name.toList ∧ LineFeedsOnly slot.type.render.toList ∧
        LineFeedsOnly slot.default.toList := by
  have hvar : LineFeedsOnly "var ".toList := by decide
  have hcolon : LineFeedsOnly ": ".toList := by decide
  have hequals : LineFeedsOnly " = ".toList := by decide
  simp only [slotLine, String.toList_append, lineFeedsOnly_append, h.lineFeedsOnly_pad,
    h.lineFeedsOnly_access, hvar, hcolon, hequals, true_and, and_true, and_assoc]

theorem lineFeedsOnly_setterLines (h : layout.IsPlain) :
    (∀ line ∈ setterLines layout slot, LineFeedsOnly line.toList) ↔
      LineFeedsOnly slot.name.toList ∧ LineFeedsOnly slot.type.render.toList := by
  have hfunc : LineFeedsOnly "func ".toList := by decide
  have hparameter : LineFeedsOnly "(_ ".toList := by decide
  have hcolon : LineFeedsOnly ": ".toList := by decide
  have hself : LineFeedsOnly ") -> Self \x7b".toList := by decide
  have hcopy : LineFeedsOnly "var copy = self".toList := by decide
  have hdot : LineFeedsOnly "copy.".toList := by decide
  have hequals : LineFeedsOnly " = ".toList := by decide
  have hreturn : LineFeedsOnly "return copy".toList := by decide
  have hclose : LineFeedsOnly "\x7d".toList := by decide
  have hempty : LineFeedsOnly "".toList := by decide
  simp only [setterLines, List.forall_mem_cons, String.toList_append,
    lineFeedsOnly_append, h.lineFeedsOnly_pad, h.lineFeedsOnly_access, hfunc, hparameter, hcolon,
    hself, hcopy, hdot, hequals, hreturn, hclose, hempty, true_and, and_true, and_assoc]
  tauto

theorem lineFeedsOnly_argumentLines (h : layout.IsPlain)
    (hslots : ∀ slot ∈ slots, LineFeedsOnly slot.name.toList) :
    ∀ line ∈ argumentLines layout slots, LineFeedsOnly line.toList := by
  have hcolon : LineFeedsOnly ": ".toList := by decide
  have hcomma : LineFeedsOnly ",".toList := by decide
  induction slots with
  | nil => simp [argumentLines]
  | cons slot rest ih =>
    obtain ⟨hslot, hrest⟩ := List.forall_mem_cons.mp hslots
    cases rest with
    | nil =>
      simp only [argumentLines, List.forall_mem_singleton, String.toList_append,
        lineFeedsOnly_append, h.lineFeedsOnly_pad, hslot, hcolon, and_self]
    | cons next rest =>
      rw [argumentLines, List.forall_mem_cons]
      · refine ⟨?_, ih hrest⟩
        simp only [String.toList_append, lineFeedsOnly_append, h.lineFeedsOnly_pad, hslot, hcolon,
          hcomma, and_self]
      · exact List.cons_ne_nil next rest

theorem lineFeedsOnly_buildLines (h : layout.IsPlain) {recordName : String}
    (hrecord : LineFeedsOnly recordName.toList)
    (hslots : ∀ slot ∈ slots, LineFeedsOnly slot.name.toList) :
    ∀ line ∈ buildLines layout recordName slots, LineFeedsOnly line.toList := by
  have hcall : LineFeedsOnly "()".toList := by decide
  have hopen : LineFeedsOnly "(".toList := by decide
  have hclose : LineFeedsOnly ")".toList := by decide
  unfold buildLines
  split
  · simp only [List.forall_mem_singleton, String.toList_append, lineFeedsOnly_append,
      h.lineFeedsOnly_pad, hrecord, hcall, and_self]
  · simp only [List.cons_append, List.forall_mem_cons, List.forall_mem_append, List.not_mem_nil,
      false_implies, implies_true, String.toList_append, lineFeedsOnly_append, h.lineFeedsOnly_pad,
      hrecord, hopen, hclose, and_self, and_true, true_and]
    exact lineFeedsOnly_argumentLines h hslots

end

/-! ### Line ends in a builder -/

variable (spec : BuilderSpec) (width : Nat) (name : String)

theorem lineFeedsOnly_texts :
    (∀ text ∈ spec.texts name, LineFeedsOnly text.toList) ↔
      LineFeedsOnly name.toList ∧ LineFeedsOnly spec.recordName.toList ∧
        ∀ slot ∈ spec.slots, LineFeedsOnly slot.name.toList ∧
          LineFeedsOnly slot.type.render.toList ∧ LineFeedsOnly slot.default.toList := by
  simp only [texts, List.forall_mem_cons, List.forall_mem_flatMap, List.not_mem_nil, false_implies,
    implies_true, and_true]

/-- What ends a line in a builder comes from its texts. -/
theorem lineFeedsOnly_lines :
    (∀ line ∈ spec.lines width name, LineFeedsOnly line.toList) ↔
      ∀ text ∈ spec.texts name, LineFeedsOnly text.toList := by
  have hplain := isPlain_layout spec width name
  rw [lineFeedsOnly_texts]
  constructor
  · intro hlines
    have hhead := hlines ((spec.layout width name).access ++ "struct " ++ name ++ " \x7b")
      (by simp [lines])
    have hbuild := hlines ((spec.layout width name).pad ++ (spec.layout width name).access ++
      "func build() -> " ++ spec.recordName ++ " \x7b") (by simp [lines])
    simp only [String.toList_append, lineFeedsOnly_append] at hhead hbuild
    refine ⟨hhead.1.2, hbuild.1.2, fun slot hslot => ?_⟩
    refine (lineFeedsOnly_slotLine hplain).mp (hlines _ ?_)
    have hmem := List.mem_map_of_mem (f := slotLine (spec.layout width name)) hslot
    simp [lines, hmem]
  · rintro ⟨hname, hrecord, hslots⟩
    have hstruct : LineFeedsOnly "struct ".toList := by decide
    have hopen : LineFeedsOnly " \x7b".toList := by decide
    have hempty : LineFeedsOnly "".toList := by decide
    have hinit : LineFeedsOnly "init() \x7b\x7d".toList := by decide
    have hbuild : LineFeedsOnly "func build() -> ".toList := by decide
    have hclose : LineFeedsOnly "\x7d".toList := by decide
    simp only [lines, List.forall_mem_append, List.forall_mem_cons, List.forall_mem_map,
      List.forall_mem_flatMap, List.not_mem_nil, false_implies, implies_true, String.toList_append,
      lineFeedsOnly_append, hplain.lineFeedsOnly_pad, hplain.lineFeedsOnly_access, hname, hrecord,
      hstruct, hopen, hempty, hinit, hbuild, hclose, and_self, and_true, true_and]
    refine ⟨⟨⟨fun slot hslot => (lineFeedsOnly_slotLine hplain).mpr (hslots slot hslot), ?_⟩,
      fun slot hslot => ?_⟩, ?_⟩
    · split <;> simp [LineFeedsOnly]
    · exact (lineFeedsOnly_setterLines hplain).mpr ⟨(hslots slot hslot).1, (hslots slot hslot).2.1⟩
    · exact lineFeedsOnly_buildLines hplain hrecord fun slot hslot => (hslots slot hslot).1

theorem lineFeedsOnly_render :
    LineFeedsOnly (spec.render width name).toList ↔
      ∀ text ∈ spec.texts name, LineFeedsOnly text.toList := by
  rw [toList_render_lines, lineFeedsOnly_intercalate, List.forall_mem_map, lineFeedsOnly_lines]

theorem getLast?_render : (spec.render width name).toList.getLast? = some '\x7d' := by
  have hlines (rows : List String) (brace : String) :
      (rows ++ [brace, "\x7d"]).map String.toList =
        (rows ++ [brace]).map String.toList ++ ["\x7d".toList] := by simp
  rw [toList_render_lines, lines, hlines]
  exact getLast?_intercalate (List.cons_ne_nil '\x7d' [])

/-- A builder that was moved to the right comes back as it was rendered exactly if no other line
ends than line feeds are in its texts. -/
theorem unindent?_render {pad : String} (hpad : '\n' ∉ pad.toList) :
    unindent? pad (indent pad (spec.render width name)) =
        some (rows (spec.render width name).toList) ↔
      ∀ text ∈ spec.texts name, LineFeedsOnly text.toList := by
  have hlast : ∃ last ∈ (spec.render width name).toList.getLast?, isLineEnd last = false :=
    ⟨'\x7d', getLast?_render spec width name, by decide⟩
  rw [unindent?_indent_iff hpad hlast, lineFeedsOnly_render]

end BuilderSpec

/-! ### Places of builders -/

section

variable {settings : Settings} {source : SourceText} {path : Path} {declaration : String}

theorem lineFeed_notMem_indentBefore {offset : Nat} {indent : String}
    (h : source.indentBefore offset = .ok indent) : '\n' ∉ indent.toList := by
  obtain ⟨line, hline, rfl⟩ := map_eq_ok.mp h
  intro hmem
  rw [String.toList_ofList] at hmem
  have hbyte := lineFeed_mem_encode.mpr ((List.takeWhile_prefix _).subset hmem)
  rw [Utf8.encode_of_decode hline, SourceText.lineBefore, List.mem_reverse] at hbyte
  simpa using List.mem_takeWhile_imp hbyte

theorem indent_of_withMembers {node : Syntax.Node} {head site : RecordSite}
    {warnings : List Warning}
    (h : withMembers settings source path node head = (.ok site, warnings)) :
    site.indent = head.indent := by
  obtain ⟨-, rfl⟩ | ⟨body, members, -, -, rfl⟩ := withMembers_cases h <;> rfl

/-- The indentation of a record in an outline stands in one row. -/
theorem lineFeed_notMem_indent {root : Syntax.Node} {site : RecordSite}
    (h : site ∈ (Outline.ofTree settings source path root).records) :
    '\n' ∉ site.indent.toList := by
  obtain ⟨place, -, hread⟩ := mem_recordsOf_iff.mp ((List.mergeSort_perm _ _).mem_iff.mp h)
  obtain ⟨head, warnings, hhead, hbody⟩ := exists_head_of_recordSite hread
  obtain ⟨_, _, _, -, -, -, -, -, hindent, -⟩ := recordHead_cases hhead
  rw [indent_of_withMembers hbody]
  exact lineFeed_notMem_indentBefore hindent

theorem standsIn_nested {site : RecordSite}
    (h : unindent? (site.indent ++ settings.pad)
      (indent (site.indent ++ settings.pad) declaration) = some (rows declaration.toList)) :
    StandsIn (site.indent ++ settings.pad).toList declaration.toList
      (nested settings site declaration).toList := by
  have hnested : (nested settings site declaration).toList =
      [] ++ '\n' :: ((indent (site.indent ++ settings.pad) declaration).toList ++
        '\n' :: site.indent.toList) := by
    simp [nested]
  rw [hnested]
  exact standsIn_of_unindent? h [] site.indent.toList

theorem standsIn_extensions {expanded : ExpandedSource}
    (h : unindent? settings.pad (indent settings.pad declaration) = some (rows declaration.toList))
    (hmem : declaration ∈ expanded.declarations) :
    StandsIn settings.pad.toList declaration.toList (expanded.extensions settings).toList := by
  obtain ⟨record, hrecord, hdeclaration⟩ := List.mem_flatMap.mp hmem
  unfold ExpandedSource.extensions
  generalize hblocks : (expanded.expansions.flatMap fun record =>
    record.expansion.declarations.map fun declaration =>
      "extension " ++ record.name ++ " \x7b\n" ++ indent settings.pad declaration ++ "\n\x7d") =
    blocks
  have hblock : ("extension " ++ record.name ++ " \x7b\n" ++ indent settings.pad declaration ++
      "\n\x7d") ∈ blocks := by
    rw [← hblocks]
    exact List.mem_flatMap.mpr ⟨record, hrecord, List.mem_map_of_mem hdeclaration⟩
  obtain ⟨before, after, hjoined⟩ := infix_intercalate "\n\n".toList
    (List.mem_map_of_mem (f := String.toList) hblock)
  have htext (ending : String) : ("\n\n".intercalate blocks ++ ending).toList =
      (before ++ ("extension " ++ record.name ++ " \x7b").toList) ++ '\n' ::
        ((indent settings.pad declaration).toList ++ '\n' ::
          ('\x7d' :: (after ++ ending.toList))) := by
    rw [String.toList_append, String.toList_intercalate, ← hjoined]
    simp
  rw [htext]
  exact standsIn_of_unindent? h _ _

end

namespace BuilderSpec

/-- **A builder stands in its place as it was rendered, exactly if its texts hold no other line ends
than line feeds.** Moved to the right and back, its lines by all line ends always come back, and
these are the rows that it was rendered as if and only if the name of the builder, that of the
record, and the names, types and defaults of all slots hold no other line end. Then its rows stand
behind their pad where it is put before the closing brace of any record of any source, and in the
extension that is made of it. -/
theorem render_embedded_exact (spec : BuilderSpec) (width : Nat) (name : String) :
    (∀ pad : String, '\n' ∉ pad.toList →
      unindent? pad (indent pad (spec.render width name)) =
          some (Text.lines (spec.render width name).toList) ∧
        (unindent? pad (indent pad (spec.render width name)) =
            some (rows (spec.render width name).toList) ↔
          ∀ text ∈ spec.texts name, LineFeedsOnly text.toList)) ∧
    ((∀ text ∈ spec.texts name, LineFeedsOnly text.toList) →
      (∀ (settings : Settings) (source : SourceText) (path : Path) (root : Syntax.Node),
        ∀ site ∈ (Outline.ofTree settings source path root).records,
          StandsIn (site.indent ++ settings.pad).toList (spec.render width name).toList
            (nested settings site (spec.render width name)).toList) ∧
      ∀ (settings : Settings) (expanded : ExpandedSource),
        spec.render width name ∈ expanded.declarations →
          StandsIn settings.pad.toList (spec.render width name).toList
            (expanded.extensions settings).toList) := by
  have hpads (settings : Settings) : '\n' ∉ settings.pad.toList := by simp [Settings.pad]
  refine ⟨fun pad hpad => ⟨unindent?_indent hpad ?_, unindent?_render spec width name hpad⟩,
    fun htexts => ⟨fun settings source path root site hsite => ?_,
      fun settings expanded hmem => ?_⟩⟩
  · intro hempty
    simpa [hempty] using getLast?_render spec width name
  · refine standsIn_nested ((unindent?_render spec width name ?_).mpr htexts)
    rw [String.toList_append]
    exact List.not_mem_append (lineFeed_notMem_indent hsite) (hpads settings)
  · exact standsIn_extensions ((unindent?_render spec width name (hpads settings)).mpr htexts) hmem

theorem render_embedded_exact_rows :
    let spec : BuilderSpec := {
      recordName := "Note"
      slots := [⟨"text", .nominal "String" [], "\"\"\"\n\n  a\tb\n\"\"\""⟩] }
    let declaration := spec.render 4 "Builder"
    let records := (Outline.ofTree {} (.ofString closedText) ExpandedSource.defaultPath
      closedTree).records
    '\n' ∉ "\t".toList ∧ (∀ text ∈ spec.texts "Builder", LineFeedsOnly text.toList) ∧
      unindent? "\t" (indent "\t" declaration) = some (rows declaration.toList) ∧
      records.length = 1 ∧ ∀ site ∈ records,
        let expanded : ExpandedSource := {
          path := ExpandedSource.defaultPath
          source := closedText
          expansions := [⟨site, .generated declaration spec⟩]
          syntaxErrors := []
          warnings := [] }
        declaration ∈ expanded.declarations ∧
          StandsIn (site.indent ++ Settings.pad {}).toList declaration.toList
            (nested {} site declaration).toList ∧
          StandsIn (Settings.pad {}).toList declaration.toList (expanded.extensions {}).toList := by
  intro spec declaration records
  have hpad : '\n' ∉ "\t".toList := by decide
  have htexts : ∀ text ∈ spec.texts "Builder", LineFeedsOnly text.toList := by decide +kernel
  obtain ⟨hpads, hplaces⟩ := render_embedded_exact spec 4 "Builder"
  obtain ⟨hnested, hextension⟩ := hplaces htexts
  refine ⟨hpad, htexts, (hpads "\t" hpad).2.mpr htexts, by decide +kernel, fun site hsite => ?_⟩
  intro expanded
  have hmem : declaration ∈ expanded.declarations := List.mem_singleton.mpr rfl
  exact ⟨hmem, hnested {} _ _ _ site hsite, hextension {} expanded hmem⟩

/-- A builder with a line separator in a string. -/
def separated : BuilderSpec where
  recordName := "Note"
  slots := [⟨"text", .nominal "String" [], "\"a\u2028b\""⟩]

/-- The separator is rendered, and lost wherever the builder is moved to. -/
theorem separator_lost :
    (¬∀ (spec : BuilderSpec) (width : Nat) (name pad : String), 1 ≤ width →
      (∀ c ∈ pad.toList, c = ' ') → unindent? pad (indent pad (spec.render width name)) =
        some (rows (spec.render width name).toList)) ∧
    '\u2028' ∈ (separated.render 4 "Builder").toList ∧
      '\u2028' ∉ (indent "    " (separated.render 4 "Builder")).toList := by
  have hslot : slotLine (separated.layout 4 "Builder") separated.slots[0] ∈
      separated.lines 4 "Builder" := by
    simp [lines, separated]
  have htext : separated.slots[0].default ∈ separated.texts "Builder" := by
    simp [texts, separated]
  have hfound : '\u2028' ∈ separated.slots[0].default.toList := by decide
  refine ⟨fun hclaim => ?_, ?_, fun hkept => ?_⟩
  · have hback := hclaim separated 4 "Builder" "    " (by decide) (by simp)
    rw [unindent?_render separated 4 "Builder" (by decide)] at hback
    exact absurd (hback _ htext _ hfound (by decide)) (by decide)
  · rw [toList_render_lines]
    refine (infix_intercalate ['\n'] (List.mem_map_of_mem hslot)).subset ?_
    rw [slotLine, String.toList_append]
    exact List.mem_append_right _ hfound
  · have hspaces : LineFeedsOnly "    ".toList := by decide
    exact absurd (lineFeedsOnly_indent hspaces _ _ hkept (by decide)) (by decide)

end BuilderSpec

end FluentBuilder
