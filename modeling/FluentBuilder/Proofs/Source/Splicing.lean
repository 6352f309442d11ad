import FluentBuilder.Proofs.Text.Encoding
import FluentBuilder.Proofs.Text.Sorted
import FluentBuilder.Source.Expanded
import Mathlib.Data.List.Sort

/-!
# Edits made one by one are edits made at once

`Edit.replaceAll` makes all edits at once, offset by offset and without an order among them: at
every offset stand the replacements of the edits that start there, and then the byte, unless an
edit covers it. `spliced_simultaneous`: putting the answers into a source does the same, as long
as the edits keep apart.

Edits are made one after the other on a text that changes under them, with offsets of the text as
it was. This is right because of their order. Of two edits that keep apart the one made first
ends no earlier and starts no earlier, so it starts where the other ends or behind it
(`Edit.stop_le_of_goesFirst`): what stands up to there is still the text as it was
(`Edit.foldr_apply`). An insertion without width at the end of a mark that goes, or in front of
it, is no exception.
-/

namespace FluentBuilder

open Text

/-! ### Edits made at once -/

def Span.covers (span : Span) (offset : Nat) : Bool :=
  decide (span.start ≤ offset) && decide (offset < span.stop)

namespace Edit

/-- What stands in the place of an offset. -/
def pieceAt (edits : List Edit) (bytes : List UInt8) (offset : Nat) : List UInt8 :=
  (edits.filter (·.span.start == offset)).flatMap (·.replacement) ++
    if edits.any (·.span.covers offset) then [] else bytes[offset]?.toList

/-- What stands in the place of the offsets from `start` on. -/
def piecesFrom (edits : List Edit) (bytes : List UInt8) (start : Nat) : List UInt8 :=
  (List.range' start (bytes.length + 1 - start)).flatMap (pieceAt edits bytes)

/-- The text with all edits made at once. -/
def replaceAll (edits : List Edit) (bytes : List UInt8) : List UInt8 := piecesFrom edits bytes 0

/-- One of the edits ends where the other starts, or in front of it. -/
def Apart (a b : Edit) : Prop := a.span.stop ≤ b.span.start ∨ b.span.stop ≤ a.span.start

theorem Apart.symm {a b : Edit} (h : Apart a b) : Apart b a := Or.symm h

/-- Both ends of the range of an edit stand between characters. -/
def OnBoundaries (text : List Char) (edit : Edit) : Prop :=
  edit.span.start ≤ edit.span.stop ∧ Utf8.IsBoundary text edit.span.start ∧
    Utf8.IsBoundary text edit.span.stop

/-! ### The order of edits -/

theorem goesFirst_iff (a b : Edit) :
    goesFirst a b = true ↔ b.span.start < a.span.start ∨
      a.span.start = b.span.start ∧ b.span.stop ≤ a.span.stop := by
  simp [goesFirst]

theorem goesFirst_trans (a b c : Edit) (hab : goesFirst a b = true) (hbc : goesFirst b c = true) :
    goesFirst a c = true := by
  rw [goesFirst_iff] at *
  omega

theorem goesFirst_total (a b : Edit) : (goesFirst a b || goesFirst b a) = true := by
  rw [Bool.or_eq_true, goesFirst_iff, goesFirst_iff]
  omega

/-- Of two edits that keep apart the one that is made first lies behind the other. -/
theorem stop_le_of_goesFirst {a b : Edit} (h : goesFirst a b = true) (hapart : Apart a b)
    (ha : a.span.start ≤ a.span.stop) : b.span.stop ≤ a.span.start := by
  rw [goesFirst_iff] at h
  rcases hapart with hapart | hapart <;> omega

/-- The edits from the first range to the last. -/
def ascending (edits : List Edit) : List Edit := (edits.mergeSort goesFirst).reverse

theorem applyAll_eq_foldr (edits : List Edit) (bytes : List UInt8) :
    applyAll edits bytes = (ascending edits).foldr (fun edit bytes => apply bytes edit) bytes := by
  rw [applyAll, ascending, List.foldr_reverse]

theorem ascending_perm (edits : List Edit) : (ascending edits).Perm edits :=
  (List.reverse_perm _).trans (List.mergeSort_perm _ _)

theorem ascending_pairwise {edits : List Edit} (hapart : edits.Pairwise Apart)
    (hspan : ∀ edit ∈ edits, edit.span.start ≤ edit.span.stop) :
    (ascending edits).Pairwise fun a b => a.span.stop ≤ b.span.start := by
  have hsorted := List.pairwise_mergeSort goesFirst_trans goesFirst_total edits
  have hperm := List.mergeSort_perm edits goesFirst
  rw [ascending, List.pairwise_reverse]
  refine (hsorted.and (hperm.symm.pairwise hapart fun h => h.symm)).imp_of_mem ?_
  rintro a b ha - ⟨hfirst, hab⟩
  exact stop_le_of_goesFirst hfirst hab (hspan a (hperm.subset ha))

/-! ### Pieces -/

variable {edits : List Edit} {bytes : List UInt8}

theorem piecesFrom_of_le {start : Nat} (h : start ≤ bytes.length) :
    piecesFrom edits bytes start =
      pieceAt edits bytes start ++ piecesFrom edits bytes (start + 1) := by
  unfold piecesFrom
  rw [show bytes.length + 1 - start = bytes.length + 1 - (start + 1) + 1 by omega, List.range'_succ,
    List.flatMap_cons]

/-- Up to where the first edit starts, the bytes stay. -/
theorem piecesFrom_of_before {start stop : Nat} (hle : start ≤ stop) (hstop : stop ≤ bytes.length)
    (hbehind : ∀ edit ∈ edits, stop ≤ edit.span.start) :
    bytes.take start ++ piecesFrom edits bytes start =
      bytes.take stop ++ piecesFrom edits bytes stop := by
  induction hle with
  | refl => rfl
  | @step m hle ih =>
    have hpiece : pieceAt edits bytes m = [bytes[m]] := by
      have hstart : edits.filter (·.span.start == m) = [] := by
        refine List.filter_eq_nil_iff.mpr fun edit hedit => ?_
        have := hbehind edit hedit
        simp only [beq_iff_eq]
        omega
      have hcover : edits.any (·.span.covers m) = false := by
        refine List.any_eq_false.mpr fun edit hedit => ?_
        have := hbehind edit hedit
        simp only [Span.covers, Bool.and_eq_true, decide_eq_true_eq]
        omega
      rw [pieceAt, hstart, hcover]
      simp [List.getElem?_eq_getElem (show m < bytes.length by omega)]
    rw [ih (by omega) fun edit hedit => (Nat.le_succ m).trans (hbehind edit hedit),
      piecesFrom_of_le (by omega), hpiece, ← List.append_assoc,
      List.take_append_getElem (show m < bytes.length by omega)]

/-- An edit leaves the pieces behind it to the others. -/
theorem piecesFrom_cons_of_behind {edit : Edit} {start : Nat} (hstart : edit.span.start < start)
    (hstop : edit.span.stop ≤ start) :
    piecesFrom (edit :: edits) bytes start = piecesFrom edits bytes start := by
  refine List.flatMap_congr fun offset hoffset => ?_
  have hoffset : start ≤ offset := (List.mem_range'_1.mp hoffset).1
  have hfilter : (edit.span.start == offset) = false := by
    simp only [beq_eq_false_iff_ne]
    omega
  have hcover : edit.span.covers offset = false := by
    simp only [Span.covers, Bool.and_eq_false_iff, decide_eq_false_iff_not]
    omega
  simp [pieceAt, hfilter, hcover]

/-- Inside of an edit that has started nothing stands. -/
theorem piecesFrom_cons_of_inside {edit : Edit} {start : Nat} (hstart : edit.span.start < start)
    (hle : start ≤ edit.span.stop) (hstop : edit.span.stop ≤ bytes.length)
    (hbehind : ∀ other ∈ edits, edit.span.stop ≤ other.span.start) :
    piecesFrom (edit :: edits) bytes start = piecesFrom edits bytes edit.span.stop := by
  obtain ⟨rest, hrest⟩ := Nat.exists_eq_add_of_le hle
  induction rest generalizing start with
  | zero =>
    rw [show edit.span.stop = start by omega]
    exact piecesFrom_cons_of_behind hstart (by omega)
  | succ rest ih =>
    have hpiece : pieceAt (edit :: edits) bytes start = [] := by
      have hfilter : (edit :: edits).filter (·.span.start == start) = [] := by
        refine List.filter_eq_nil_iff.mpr fun other hother => ?_
        rcases List.mem_cons.mp hother with rfl | hother
        · simp only [beq_iff_eq]
          omega
        · have := hbehind other hother
          simp only [beq_iff_eq]
          omega
      have hcover : edit.span.covers start = true := by
        simp only [Span.covers, Bool.and_eq_true, decide_eq_true_eq]
        omega
      simp [pieceAt, hfilter, hcover]
    rw [piecesFrom_of_le (by omega), hpiece, List.nil_append,
      ih (by omega) (by omega) (by omega)]

/-- Where an edit starts, its replacement stands in the place of its range. -/
theorem piecesFrom_cons {edit : Edit} (hspan : edit.span.start ≤ edit.span.stop)
    (hstop : edit.span.stop ≤ bytes.length)
    (hbehind : ∀ other ∈ edits, edit.span.stop ≤ other.span.start) :
    piecesFrom (edit :: edits) bytes edit.span.start =
      edit.replacement ++ piecesFrom edits bytes edit.span.stop := by
  rcases hspan.eq_or_lt with heq | hlt
  · -- without width: the bytes stay, and other edits may start at the same place
    have hcover : edit.span.covers edit.span.start = false := by
      simp only [Span.covers, Bool.and_eq_false_iff, decide_eq_false_iff_not]
      omega
    have hpiece : pieceAt (edit :: edits) bytes edit.span.start =
        edit.replacement ++ pieceAt edits bytes edit.span.start := by
      simp [pieceAt, hcover]
    have hnext : piecesFrom edits bytes edit.span.start =
        pieceAt edits bytes edit.span.start ++ piecesFrom edits bytes (edit.span.start + 1) :=
      piecesFrom_of_le (by omega)
    rw [piecesFrom_of_le (by omega), hpiece, piecesFrom_cons_of_behind (by omega) (by omega), ← heq,
      hnext, List.append_assoc]
  · have hfilter : edits.filter (·.span.start == edit.span.start) = [] := by
      refine List.filter_eq_nil_iff.mpr fun other hother => ?_
      have := hbehind other hother
      simp only [beq_iff_eq]
      omega
    have hcover : edit.span.covers edit.span.start = true := by
      simp only [Span.covers, Bool.and_eq_true, decide_eq_true_eq]
      omega
    have hpiece : pieceAt (edit :: edits) bytes edit.span.start = edit.replacement := by
      simp [pieceAt, hfilter, hcover]
    rw [piecesFrom_of_le (by omega), hpiece,
      piecesFrom_cons_of_inside (by omega) (by omega) hstop hbehind]

theorem piecesFrom_nil (start : Nat) (hstart : start ≤ bytes.length) :
    bytes.take start ++ piecesFrom [] bytes start = bytes := by
  rw [piecesFrom_of_before hstart le_rfl (by simp), List.take_length]
  simp [piecesFrom, pieceAt]

/-! ### Edits one after the other -/

/-- **The invariant of the edits.** With the edits from `start` on made, the text up to there is as
it was, and behind it stands what edits at once put there. -/
theorem foldr_apply {start : Nat} (hstart : start ≤ bytes.length)
    (hchain : edits.Pairwise fun a b => a.span.stop ≤ b.span.start)
    (hspan : ∀ edit ∈ edits, start ≤ edit.span.start ∧ edit.span.start ≤ edit.span.stop ∧
      edit.span.stop ≤ bytes.length) :
    edits.foldr (fun edit bytes => apply bytes edit) bytes =
      bytes.take start ++ piecesFrom edits bytes start := by
  induction edits generalizing start with
  | nil => rw [List.foldr_nil, piecesFrom_nil start hstart]
  | cons edit rest ih =>
    obtain ⟨hbehind, hrest⟩ := List.pairwise_cons.mp hchain
    obtain ⟨hle, hwidth, hstop⟩ := hspan edit (List.mem_cons_self ..)
    have hfirst : ∀ other ∈ edit :: rest, edit.span.start ≤ other.span.start := by
      intro other hother
      rcases List.mem_cons.mp hother with rfl | hother
      · exact le_rfl
      · exact hwidth.trans (hbehind other hother)
    have hmade := ih hstop hrest fun other hother =>
      ⟨hbehind other hother, (hspan other (List.mem_cons_of_mem _ hother)).2⟩
    rw [List.foldr_cons, hmade, piecesFrom_of_before hle (hwidth.trans hstop) hfirst,
      piecesFrom_cons hwidth hstop hbehind, apply]
    have hlength : (bytes.take edit.span.stop).length = edit.span.stop :=
      List.length_take_of_le hstop
    rw [List.take_append_of_le_length (by omega), List.take_take, min_eq_left hwidth,
      List.drop_left' hlength, List.append_assoc]

/-- Edits of a text between its characters by texts give the bytes of a text. -/
theorem exists_foldr_apply_eq_encode {text : List Char} {start : Nat}
    (hstart : Utf8.IsBoundary text start)
    (hchain : edits.Pairwise fun a b => a.span.stop ≤ b.span.start)
    (hspan : ∀ edit ∈ edits, start ≤ edit.span.start ∧ edit.OnBoundaries text)
    (htext : ∀ edit ∈ edits, ∃ chars, edit.replacement = Utf8.encode chars) :
    ∃ tail, edits.foldr (fun edit bytes => apply bytes edit) (Utf8.encode text) =
      (Utf8.encode text).take start ++ Utf8.encode tail := by
  induction edits generalizing start with
  | nil =>
    obtain ⟨after, hafter⟩ := hstart.exists_drop
    exact ⟨after, by rw [List.foldr_nil, ← hafter, List.take_append_drop]⟩
  | cons edit rest ih =>
    obtain ⟨hbehind, hrest⟩ := List.pairwise_cons.mp hchain
    obtain ⟨hle, hwidth, hfrom, hto⟩ := hspan edit (List.mem_cons_self ..)
    obtain ⟨chars, hchars⟩ := htext edit (List.mem_cons_self ..)
    obtain ⟨tail, htail⟩ := ih hto hrest
      (fun other hother => ⟨hbehind other hother, (hspan other (List.mem_cons_of_mem _ hother)).2⟩)
      fun other hother => htext other (List.mem_cons_of_mem _ hother)
    obtain ⟨mid, hmid⟩ := hstart.exists_slice hfrom hle
    refine ⟨mid ++ chars ++ tail, ?_⟩
    have hlength : ((Utf8.encode text).take edit.span.stop).length = edit.span.stop :=
      List.length_take_of_le hto.le_length
    rw [List.foldr_cons, htail, apply, List.take_append_of_le_length (by omega), List.take_take,
      min_eq_left hwidth, List.drop_left' hlength, hmid, hchars]
    simp only [Utf8.encode_append, List.append_assoc]

/-! ### Edits at once have no order -/

/-- The replacements of the edits that start at an offset, in their order. -/
def textsAt (edits : List Edit) (offset : Nat) : List UInt8 :=
  (edits.filter (·.span.start == offset)).flatMap (·.replacement)

/-- The edits that do more than to take away. -/
def written (edits : List Edit) : List Edit := edits.filter (!·.replacement.isEmpty)

theorem written_append (a b : List Edit) : written (a ++ b) = written a ++ written b :=
  List.filter_append ..

theorem written_strips (spans : List Span) :
    written (spans.map fun span => { span := span }) = [] := by
  simp [written]

theorem textsAt_written (edits : List Edit) (offset : Nat) :
    textsAt (written edits) offset = textsAt edits offset := by
  induction edits with
  | nil => rfl
  | cons edit rest ih =>
    simp only [textsAt, written, List.filter_filter] at ih ⊢
    rcases hempty : edit.replacement with - | ⟨byte, more⟩ <;>
      by_cases hstart : edit.span.start = offset <;> simp [hempty, hstart, ih]

/-- Where no two edits that write start at the same place, their order says nothing. -/
theorem textsAt_eq_of_perm {others : List Edit} (hperm : (written edits).Perm (written others))
    (hstarts : (written edits).Pairwise fun a b => a.span.start ≠ b.span.start) (offset : Nat) :
    textsAt edits offset = textsAt others offset := by
  rw [← textsAt_written edits, ← textsAt_written others, textsAt, textsAt]
  have hfilter := hperm.filter (·.span.start == offset)
  have hpair := hstarts.filter (·.span.start == offset)
  have hat : ∀ edit ∈ (written edits).filter (·.span.start == offset), edit.span.start = offset :=
    fun edit hedit => by simpa using (List.mem_filter.mp hedit).2
  rcases hfound : (written edits).filter (·.span.start == offset) with - | ⟨a, - | ⟨b, rest⟩⟩
  · rw [hfound] at hfilter
    rw [hfound, hfilter.symm.eq_nil]
  · rw [hfound] at hfilter
    rw [hfound, List.perm_singleton.mp hfilter.symm]
  · rw [hfound] at hpair hat
    have hne := (List.pairwise_cons.mp hpair).1 b (List.mem_cons_self ..)
    rw [hat a (List.mem_cons_self ..), hat b (by simp)] at hne
    exact absurd rfl hne

/-- Edits at once give the same for the same edits in any order. -/
theorem replaceAll_congr {others : List Edit} (hmem : ∀ edit, edit ∈ edits ↔ edit ∈ others)
    (hperm : (written edits).Perm (written others))
    (hstarts : (written edits).Pairwise fun a b => a.span.start ≠ b.span.start) :
    replaceAll edits bytes = replaceAll others bytes := by
  refine List.flatMap_congr fun offset _ => ?_
  have hcover : edits.any (·.span.covers offset) = others.any (·.span.covers offset) := by
    rw [Bool.eq_iff_iff, List.any_eq_true, List.any_eq_true]
    simp only [hmem]
  have htexts := textsAt_eq_of_perm hperm hstarts offset
  unfold textsAt at htexts
  rw [pieceAt, pieceAt, htexts, hcover]

/-- **Edits one after the other are edits at once.** -/
theorem applyAll_eq_replaceAll (hapart : edits.Pairwise Apart)
    (hspan : ∀ edit ∈ edits, edit.span.start ≤ edit.span.stop ∧ edit.span.stop ≤ bytes.length)
    (hstarts : (written edits).Pairwise fun a b => a.span.start ≠ b.span.start) :
    applyAll edits bytes = replaceAll edits bytes := by
  have hperm := ascending_perm edits
  have hchain := ascending_pairwise hapart fun edit hedit => (hspan edit hedit).1
  have hmade := foldr_apply (Nat.zero_le bytes.length) hchain fun edit hedit =>
    ⟨Nat.zero_le _, hspan edit (hperm.subset hedit)⟩
  rw [applyAll_eq_foldr, hmade, List.take_zero, List.nil_append]
  exact (replaceAll_congr (fun edit => hperm.mem_iff.symm) (hperm.symm.filter _) hstarts).symm

/-- Edits of a text between its characters by texts give the bytes of a text. -/
theorem exists_applyAll_eq_encode {text : List Char} (hapart : edits.Pairwise Apart)
    (hspan : ∀ edit ∈ edits, edit.OnBoundaries text)
    (htext : ∀ edit ∈ edits, ∃ chars, edit.replacement = Utf8.encode chars) :
    ∃ chars, applyAll edits (Utf8.encode text) = Utf8.encode chars := by
  have hperm := ascending_perm edits
  have hchain := ascending_pairwise hapart fun edit hedit => (hspan edit hedit).1
  obtain ⟨chars, hchars⟩ := exists_foldr_apply_eq_encode (Utf8.isBoundary_zero text) hchain
    (fun edit hedit => ⟨Nat.zero_le _, hspan edit (hperm.subset hedit)⟩)
    fun edit hedit => htext edit (hperm.subset hedit)
  exact ⟨chars, by rw [applyAll_eq_foldr, hchars, List.take_zero, List.nil_append]⟩

end Edit

/-! ### Answers put into a source -/

section Answers

variable {settings : Settings} {source : SourceText}

/-- What an answer asks for in a source: its builder in the place of the blanks in front of the
closing brace, and nothing in the place of its marks. -/
def RecordExpansion.edits (settings : Settings) (source : SourceText) (record : RecordExpansion) :
    List Edit :=
  insertionsOf settings source record ++ record.site.strips.map fun span => { span := span }

def insertions (settings : Settings) (source : SourceText) (expansions : List RecordExpansion) :
    List Edit :=
  (faultless expansions).flatMap (insertionsOf settings source)

theorem insertion_replacement (site : RecordSite) (stop : Nat) (declaration : String) :
    (insertion settings source site stop declaration).replacement =
      Utf8.encode (nested settings site declaration).toList := by
  unfold insertion
  dsimp only

theorem exists_encode_of_mem_editsOf {expansions : List RecordExpansion} {edit : Edit}
    (h : edit ∈ editsOf settings source expansions) :
    ∃ chars, edit.replacement = Utf8.encode chars := by
  rw [editsOf, List.mem_append, List.mem_flatMap, List.mem_map] at h
  rcases h with ⟨record, -, hedit⟩ | ⟨span, -, rfl⟩
  · unfold insertionsOf at hedit
    split at hedit
    · obtain ⟨declaration, -, rfl⟩ := List.mem_map.mp hedit
      exact ⟨_, insertion_replacement ..⟩
    · simp at hedit
  · exact ⟨[], rfl⟩

theorem written_editsOf (expansions : List RecordExpansion) :
    Edit.written (editsOf settings source expansions) =
      Edit.written (insertions settings source expansions) := by
  rw [editsOf, Edit.written_append, Edit.written_strips, List.append_nil, insertions]

theorem written_edits (expansions : List RecordExpansion) :
    Edit.written ((faultless expansions).flatMap (·.edits settings source)) =
      Edit.written (insertions settings source expansions) := by
  rw [insertions]
  induction faultless expansions with
  | nil => rfl
  | cons record rest ih =>
    rw [List.flatMap_cons, List.flatMap_cons, Edit.written_append, Edit.written_append, ih,
      RecordExpansion.edits, Edit.written_append, Edit.written_strips, List.append_nil]

theorem mem_editsOf_iff (expansions : List RecordExpansion) (edit : Edit) :
    edit ∈ editsOf settings source expansions ↔
      edit ∈ (faultless expansions).flatMap (·.edits settings source) := by
  simp only [editsOf, RecordExpansion.edits, List.mem_append, List.mem_flatMap, List.mem_map,
    List.mem_eraseDups]
  constructor
  · rintro (⟨record, hrecord, hedit⟩ | ⟨span, ⟨record, hrecord, hspan⟩, rfl⟩)
    · exact ⟨record, hrecord, Or.inl hedit⟩
    · refine ⟨record, hrecord, Or.inr ⟨span, hspan, ?_⟩⟩
      rfl
  · rintro ⟨record, hrecord, hedit | ⟨span, hspan, rfl⟩⟩
    · exact Or.inl ⟨record, hrecord, hedit⟩
    · refine Or.inr ⟨span, ⟨record, hrecord, hspan⟩, ?_⟩
      rfl

/-- The edits of some answers keep apart, lie between the characters of a text, and no two builders
go to the same place. -/
structure Separate (settings : Settings) (text : String) (expansions : List RecordExpansion) :
    Prop where
  inside : ∀ edit ∈ editsOf settings (.ofString text) expansions, edit.OnBoundaries text.toList
  apart : (editsOf settings (.ofString text) expansions).Pairwise Edit.Apart
  starts : (insertions settings (.ofString text) expansions).Pairwise fun a b =>
    a.span.start ≠ b.span.start

/-- The answer with its marks in another order. -/
def RecordExpansion.withStrips (record : RecordExpansion) (strips : List Span) : RecordExpansion :=
  { record with site := { record.site with strips := strips } }

/-- Two answers are the same but for the order of their marks. -/
def SameButStrips (record other : RecordExpansion) : Prop :=
  ∃ strips, strips.Perm record.site.strips ∧ other = record.withStrips strips

/-- The same answers in another order, with the marks of each in another order. -/
def Reordered (expansions others : List RecordExpansion) : Prop :=
  ∃ between, expansions.Perm between ∧ List.Forall₂ SameButStrips between others

/-- Splicing separate edits gives a text, and its bytes are those of all edits made at once. -/
theorem spliced_of_separate {text : String} {expansions : List RecordExpansion}
    (h : Separate settings text expansions) :
    ∃ result, spliced settings (.ofString text) expansions = .ok result ∧
      Utf8.encode result.toList = Edit.replaceAll
        ((faultless expansions).flatMap (·.edits settings (.ofString text)))
        (SourceText.ofString text).bytes := by
  have hwritten : (Edit.written (editsOf settings (.ofString text) expansions)).Pairwise
      fun a b => a.span.start ≠ b.span.start := by
    rw [written_editsOf]
    exact h.starts.filter _
  obtain ⟨chars, hchars⟩ := Edit.exists_applyAll_eq_encode h.apart h.inside
    fun edit hedit => exists_encode_of_mem_editsOf hedit
  have hbytes : Edit.applyAll (editsOf settings (.ofString text) expansions)
      (SourceText.ofString text).bytes = Utf8.encode chars := hchars
  refine ⟨String.ofList chars, ?_, ?_⟩
  · rw [spliced, hbytes, Utf8.decode_encode]
    rfl
  · have hspan : ∀ edit ∈ editsOf settings (.ofString text) expansions,
        edit.span.start ≤ edit.span.stop ∧
          edit.span.stop ≤ (SourceText.ofString text).bytes.length := fun edit hedit =>
      ⟨(h.inside edit hedit).1, (h.inside edit hedit).2.2.le_length⟩
    rw [String.toList_ofList, ← hbytes, Edit.applyAll_eq_replaceAll h.apart hspan hwritten]
    refine Edit.replaceAll_congr (mem_editsOf_iff expansions) ?_ hwritten
    rw [written_editsOf, written_edits]

/-! ### Other orders -/

theorem faultless_cons (record : RecordExpansion) (rest : List RecordExpansion) :
    faultless (record :: rest) =
      if record.expansion.hasErrors then faultless rest else record :: faultless rest := by
  rw [faultless, List.filter_cons]
  cases record.expansion.hasErrors <;> rfl

theorem insertions_of_sameButStrips {expansions others : List RecordExpansion}
    (h : List.Forall₂ SameButStrips expansions others) :
    insertions settings source others = insertions settings source expansions := by
  induction h with
  | nil => rfl
  | @cons record other rest more hsame _ ih =>
    obtain ⟨strips, -, rfl⟩ := hsame
    unfold insertions at ih ⊢
    rw [faultless_cons, faultless_cons, RecordExpansion.withStrips]
    cases record.expansion.hasErrors with
    | true => exact ih
    | false =>
      rw [if_neg Bool.false_ne_true, if_neg Bool.false_ne_true, List.flatMap_cons,
        List.flatMap_cons, ih]
      rfl

theorem mem_strips_of_sameButStrips {expansions others : List RecordExpansion}
    (h : List.Forall₂ SameButStrips expansions others) (span : Span) :
    span ∈ (faultless others).flatMap (·.site.strips) ↔
      span ∈ (faultless expansions).flatMap (·.site.strips) := by
  induction h with
  | nil => rfl
  | @cons record other rest more hsame _ ih =>
    obtain ⟨strips, hperm, rfl⟩ := hsame
    rw [faultless_cons, faultless_cons, RecordExpansion.withStrips]
    cases record.expansion.hasErrors with
    | true => exact ih
    | false =>
      rw [if_neg Bool.false_ne_true, if_neg Bool.false_ne_true, List.flatMap_cons,
        List.flatMap_cons, List.mem_append, List.mem_append, ih, hperm.mem_iff]

theorem Reordered.insertions_perm {expansions others : List RecordExpansion}
    (h : Reordered expansions others) :
    (insertions settings source expansions).Perm (insertions settings source others) := by
  obtain ⟨between, hperm, hsame⟩ := h
  rw [insertions_of_sameButStrips hsame]
  exact (hperm.filter _).flatMap_right _

theorem Reordered.editsOf_perm {expansions others : List RecordExpansion}
    (h : Reordered expansions others) :
    (editsOf settings source expansions).Perm (editsOf settings source others) := by
  refine List.Perm.append h.insertions_perm ((eraseDups_perm fun span => ?_).map _)
  obtain ⟨between, hperm, hsame⟩ := h
  rw [mem_strips_of_sameButStrips hsame]
  exact ((hperm.filter _).flatMap_right _).mem_iff

theorem Separate.reordered {text : String} {expansions others : List RecordExpansion}
    (h : Separate settings text expansions) (hothers : Reordered expansions others) :
    Separate settings text others := by
  exact {
    inside := fun edit hedit => h.inside edit (hothers.editsOf_perm.symm.subset hedit)
    apart := hothers.editsOf_perm.pairwise h.apart fun hab => hab.symm
    starts := hothers.insertions_perm.pairwise h.starts fun hab => hab.symm }

/-- Separate edits give the same text in every order. -/
theorem Reordered.spliced_eq {text : String} {expansions others : List RecordExpansion}
    (hothers : Reordered expansions others) (h : Separate settings text expansions) :
    spliced settings (.ofString text) others = spliced settings (.ofString text) expansions := by
  obtain ⟨result, hresult, hbytes⟩ := spliced_of_separate h
  obtain ⟨other, hother, hothertext⟩ := spliced_of_separate (h.reordered hothers)
  have hwritten : (Edit.written ((faultless expansions).flatMap
      (·.edits settings (.ofString text)))).Pairwise fun a b => a.span.start ≠ b.span.start := by
    rw [written_edits]
    exact h.starts.filter _
  have hreplace : Utf8.encode result.toList = Utf8.encode other.toList := by
    rw [hbytes, hothertext]
    refine Edit.replaceAll_congr (fun edit => ?_) ?_ hwritten
    · rw [← mem_editsOf_iff, ← mem_editsOf_iff, hothers.editsOf_perm.mem_iff]
    · rw [written_edits, written_edits]
      exact hothers.insertions_perm.filter _
  have hchars : result.toList = other.toList := by
    have hdecode := congrArg Utf8.decode hreplace
    rw [Utf8.decode_encode, Utf8.decode_encode] at hdecode
    exact Except.ok.inj hdecode
  rw [hresult, hother, String.toList_inj.mp hchars]

theorem faultless_faultless (expansions : List RecordExpansion) :
    faultless (faultless expansions) = faultless expansions := by
  rw [faultless, faultless, List.filter_filter]
  simp

/-- **Splicing is simultaneous replacement.** Where the edits of the answers lie between the
characters of the text and keep apart, putting them in gives a text. Its bytes are those of the
source with all builders put in and all marks taken out at once. It does not depend on the order of
the answers or of the marks of one, and answers with errors add nothing to it. -/
theorem spliced_simultaneous (settings : Settings) (text : String)
    (expansions : List RecordExpansion) (h : Separate settings text expansions) :
    ∃ result, spliced settings (.ofString text) expansions = .ok result ∧
      Utf8.encode result.toList = Edit.replaceAll
        ((faultless expansions).flatMap (·.edits settings (.ofString text)))
        (Utf8.encode text.toList) ∧
      (∀ others, Reordered expansions others →
        spliced settings (.ofString text) others = .ok result) ∧
      spliced settings (.ofString text) (faultless expansions) = .ok result := by
  obtain ⟨result, hresult, hbytes⟩ := spliced_of_separate h
  refine ⟨result, hresult, hbytes, fun others hothers => ?_, ?_⟩
  · rw [hothers.spliced_eq h, hresult]
  · rw [← hresult, spliced, editsOf, faultless_faultless]
    rfl

end Answers

/-- Two answers: a builder that goes in without width where one mark is behind it and another in
front, and a report whose mark stays. -/
def touchingAnswers : List RecordExpansion :=
  [{ site := {
       declaration := { name := "E" }, location := {}, strips := [⟨4, 5⟩, ⟨3, 4⟩, ⟨0, 3⟩, ⟨4, 5⟩],
       bodyStop := some 4 }
     expansion := .generated "B" { recordName := "E" } },
   { site := { declaration := { name := "F" }, location := {}, strips := [⟨1, 6⟩] }
     expansion := .diagnosed (.requiresStruct none) }]

theorem spliced_touchingAnswers :
    Separate {} "@é\x7b\x7d€" touchingAnswers ∧
      spliced {} (.ofString "@é\x7b\x7d€") touchingAnswers = .ok "\n    B\n€" := by
  have hedits : editsOf {} (.ofString "@é\x7b\x7d€") touchingAnswers =
      [⟨⟨4, 4⟩, [10, 32, 32, 32, 32, 66, 10]⟩, ⟨⟨4, 5⟩, []⟩, ⟨⟨3, 4⟩, []⟩, ⟨⟨0, 3⟩, []⟩] := by
    decide +kernel
  have hboundary : ∀ n, Utf8.IsBoundary "@é\x7b\x7d€".toList
      (Utf8.encode ("@é\x7b\x7d€".toList.take n)).length := fun n =>
    ⟨_, _, (List.take_append_drop n _).symm, rfl⟩
  have hseparate : Separate {} "@é\x7b\x7d€" touchingAnswers := by
    refine ⟨?_, ?_, ?_⟩
    · rw [hedits]
      intro edit hedit
      simp only [List.mem_cons, List.not_mem_nil, or_false] at hedit
      rcases hedit with rfl | rfl | rfl | rfl
      · exact ⟨by decide, hboundary 3, hboundary 3⟩
      · exact ⟨by decide, hboundary 3, hboundary 4⟩
      · exact ⟨by decide, hboundary 2, hboundary 3⟩
      · exact ⟨by decide, hboundary 0, hboundary 2⟩
    · rw [hedits]
      simp [Edit.Apart]
    · have hinsertions : insertions {} (.ofString "@é\x7b\x7d€") touchingAnswers =
          [⟨⟨4, 4⟩, [10, 32, 32, 32, 32, 66, 10]⟩] := by
        decide +kernel
      rw [hinsertions]
      exact List.pairwise_singleton _ _
  obtain ⟨result, hresult, hbytes, -, -⟩ := spliced_simultaneous {} _ _ hseparate
  have htext : Edit.replaceAll
      ((faultless touchingAnswers).flatMap (·.edits {} (.ofString "@é\x7b\x7d€")))
      (Utf8.encode "@é\x7b\x7d€".toList) = Utf8.encode "\n    B\n€".toList := by
    decide +kernel
  have hdecode := congrArg Utf8.decode (hbytes.trans htext)
  rw [Utf8.decode_encode, Utf8.decode_encode] at hdecode
  exact ⟨hseparate, by rw [hresult, String.toList_inj.mp (Except.ok.inj hdecode)]⟩

end FluentBuilder
