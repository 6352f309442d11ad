import FluentBuilder.Proofs.Source.Ranges

/-!
# What goes with an attribute

When the attributes of a declaration are cut out, each goes with some of what stands around it.

* `spans_grow_over_blanks`: this is blanks only, no attribute takes what goes with another, and a
  line feed goes with an attribute only if nothing else stands on its lines. All of it is known of
  the widening of any mark (`growsOverBlanks_widen`); a head has to give only that its attributes
  are marks one behind the other.
* `glued_spanIn`: blanks are taken even if nothing else keeps apart what stands on either side of
  the attribute, so a word directly in front of it runs together with a word behind the blanks. A
  line that goes as a whole leaves no word in front of it (`exists_before_lineStart`).

The second is about characters where the widening is about bytes. Where the source is cut, a byte of
ASCII stands on one side, so it is cut between characters (`isBoundary_of_ascii`); only the end of
an attribute is found by reading the attribute from its start (`exists_split_of_standsIn`).
-/

namespace FluentBuilder

open Syntax Text

namespace SourceText

variable {source : SourceText} {mark : Span} {k : Nat} {byte : UInt8}

/-! ### Slices -/

theorem mem_slice_iff {start stop : Nat} :
    byte ∈ source.slice start stop ↔ ∃ k, start ≤ k ∧ k < stop ∧ source.bytes[k]? = some byte := by
  simp only [slice, List.mem_iff_getElem?, List.getElem?_drop, List.getElem?_take]
  constructor
  · rintro ⟨i, hi⟩
    split at hi
    · next hlt => exact ⟨start + i, Nat.le_add_right _ _, hlt, hi⟩
    · cases hi
  · rintro ⟨k, hle, hlt, hk⟩
    refine ⟨k - start, ?_⟩
    rw [Nat.add_sub_cancel' hle, if_pos hlt, hk]

theorem slice_slice {start stop i j : Nat} (h : start + j ≤ stop) :
    ((source.slice start stop).take j).drop i = source.slice (start + i) (start + j) := by
  simp only [slice, List.drop_take, List.take_take, List.drop_drop]
  congr 1
  omega

/-! ### Blanks around a mark -/

/-- The bytes that a range holds on either side of a mark. -/
def around (source : SourceText) (mark grown : Span) : List UInt8 :=
  source.slice grown.start mark.start ++ source.slice mark.stop grown.stop

/-- The lines of a mark hold nothing but blanks beside it. -/
def AloneOnLines (source : SourceText) (mark : Span) : Prop :=
  (source.lineBefore mark.start).all isByteBlank = true ∧
    (source.lineAfter mark.stop).all isByteBlank = true

/-- A range holds a mark and some blanks around it, and the end of a line only if the lines of the
mark go as a whole. -/
structure GrowsOverBlanks (source : SourceText) (mark grown : Span) : Prop where
  start_le : grown.start ≤ mark.start
  le_stop : mark.stop ≤ grown.stop
  stop_le : grown.stop ≤ source.size
  blanks : ∀ byte ∈ source.around mark grown, isByteBlank byte = true
  lineFeeds : (source.around mark grown).count lineFeed ≤ 1
  alone : lineFeed ∈ source.around mark grown → source.AloneOnLines mark

/-- On the left a mark grows over blanks that are no line feeds. -/
theorem blank_of_mem_left (h : source.Solid mark)
    (hbyte : byte ∈ source.slice (source.widen mark).start mark.start) :
    isByteBlank byte = true ∧ byte ≠ lineFeed := by
  obtain ⟨k, hle, hlt, hk⟩ := mem_slice_iff.mp hbyte
  constructor
  · by_contra hfirm
    have hleft := lt_widen_start_of_firm h ⟨byte, hk, by simpa using hfirm⟩ hlt
    omega
  · rintro rfl
    have hleft := lt_widen_start_of_lineFeed h hk hlt
    omega

theorem blank_of_mem_right (h : source.Solid mark)
    (hbyte : byte ∈ source.slice mark.stop (source.widen mark).stop) : isByteBlank byte = true := by
  obtain ⟨k, hle, hlt, hk⟩ := mem_slice_iff.mp hbyte
  by_contra hfirm
  have hright := widen_stop_le_of_firm h ⟨byte, hk, by simpa using hfirm⟩ hle
  omega

/-- A mark grows over the end of a line only if its lines go as a whole. -/
theorem aloneOnLines_of_lineFeedAt (hk : source.LineFeedAt k) (hle : mark.stop ≤ k)
    (hlt : k < (source.widen mark).stop) : source.AloneOnLines mark := by
  unfold widen at hlt
  split at hlt
  · next hblank => exact Bool.and_eq_true_iff.mp hblank
  · obtain ⟨hrun, -⟩ := run_after source (fun b => b == 32 || b == 9) mark.stop rfl
    obtain ⟨byte, -, hbyte, hgap⟩ := hrun k hle hlt
    obtain rfl : lineFeed = byte := Option.some.inj (hk.symm.trans hbyte)
    exact absurd hgap (by decide)

/-- Of a row in which a value can only stand at the end, it stands there once at most. -/
theorem count_le_one {α : Type} [BEq α] [LawfulBEq α] {row : List α} {value : α}
    (h : ∀ i, row[i]? = some value → i + 1 = row.length) : row.count value ≤ 1 := by
  rcases List.eq_nil_or_concat' row with rfl | ⟨front, last, rfl⟩
  · simp
  have hfront : value ∉ front := by
    intro hmem
    obtain ⟨i, hi⟩ := List.mem_iff_getElem?.mp hmem
    have hlt := (List.getElem?_eq_some_iff.mp hi).1
    have hlength := h i (by rw [List.getElem?_append_left hlt, hi])
    simp at hlength
    omega
  rw [List.count_append, List.count_eq_zero_of_not_mem hfront, Nat.zero_add]
  exact List.count_le_length

/-- On the right a mark grows over one line feed at most. -/
theorem count_lineFeed_right (h : source.Solid mark) :
    (source.slice mark.stop (source.widen mark).stop).count lineFeed ≤ 1 := by
  refine count_le_one fun i hi => ?_
  have hlength := slice_length source mark.stop (source.widen mark).stop
  rw [min_eq_left (widen_stop_le_size h)] at hlength
  have hlt := (List.getElem?_eq_some_iff.mp hi).1
  rw [slice, List.getElem?_drop, List.getElem?_take_of_lt (by omega)] at hi
  have hstop := widen_stop_le_of_lineFeed h hi (Nat.le_add_right _ _)
  omega

theorem growsOverBlanks_widen (h : source.Solid mark) :
    source.GrowsOverBlanks mark (source.widen mark) where
  start_le := widen_start_le h
  le_stop := le_widen_stop h
  stop_le := widen_stop_le_size h
  blanks byte hbyte := by
    rcases List.mem_append.mp hbyte with hleft | hright
    · exact (blank_of_mem_left h hleft).1
    · exact blank_of_mem_right h hright
  lineFeeds := by
    have hleft : lineFeed ∉ source.slice (source.widen mark).start mark.start :=
      fun hmem => (blank_of_mem_left h hmem).2 rfl
    rw [around, List.count_append, List.count_eq_zero_of_not_mem hleft, Nat.zero_add]
    exact count_lineFeed_right h
  alone hmem := by
    rcases List.mem_append.mp hmem with hleft | hright
    · exact absurd rfl (blank_of_mem_left h hleft).2
    · obtain ⟨k, hle, hlt, hk⟩ := mem_slice_iff.mp hright
      exact aloneOnLines_of_lineFeedAt hk hle hlt

end SourceText

/-! ### The attributes of a head -/

section Spans

open SourceText

variable {source : SourceText} {node : Node} {text : List Char} {keywords : List String}
  {found : Head}

theorem slice_rangeIn {mark : Attribute} (htext : source.textOf node = .ok text)
    (h : mark.StandsIn text) :
    source.slice (rangeIn node text mark).start (rangeIn node text mark).stop =
      Utf8.encode ((text.take mark.stop).drop mark.start) := by
  obtain ⟨-, -, hstop⟩ := solid_rangeIn htext h
  obtain ⟨before, piece, after, -, hbefore, hpiece, -⟩ := h
  have hstart : (text.take mark.stop).take mark.start = text.take mark.start := by
    rw [List.take_take, min_eq_left (by omega)]
  have hfront : (Utf8.encode text).take (byteCount (text.take mark.stop)) =
      Utf8.encode (text.take mark.stop) := by
    conv_lhs => rw [← List.take_append_drop mark.stop text, Utf8.encode_append]
    rw [List.take_append_drop, byteCount, List.take_left]
  have hback : Utf8.encode (text.take mark.stop) =
      Utf8.encode (text.take mark.start) ++
        Utf8.encode ((text.take mark.stop).drop mark.start) := by
    rw [← Utf8.encode_append, ← hstart, List.take_append_drop]
  rw [rangeIn, ← slice_slice hstop, slice_of_textOf htext, hfront, hback, byteCount, List.drop_left]

/-- **Attributes are cut out with blanks only.** What goes with one attribute of a head does not
meet what goes with another; it is the attribute with blanks around it, of which one at most is a
line feed, and none if something else stands on the lines of the attribute. -/
theorem spans_grow_over_blanks (htext : source.textOf node = .ok text)
    (hhead : head keywords text = .ok found) :
    (found.attributes.map fun mark =>
        source.spanIn node.start text mark.start mark.stop).Pairwise (·.stop ≤ ·.start) ∧
      ∀ mark ∈ found.attributes,
        source.slice (rangeIn node text mark).start (rangeIn node text mark).stop =
            Utf8.encode ((text.take mark.stop).drop mark.start) ∧
          source.GrowsOverBlanks (rangeIn node text mark)
            (source.spanIn node.start text mark.start mark.stop) := by
  obtain ⟨hstands, hsorted⟩ := head_attributes hhead
  have hsolid (mark : Attribute) (hmark : mark ∈ found.attributes) :
      source.Solid (rangeIn node text mark) := (solid_rangeIn htext (hstands mark hmark)).1
  constructor
  · rw [List.pairwise_map]
    refine hsorted.imp_of_mem fun {a b} ha hb hle => ?_
    rw [spanIn_eq_widen, spanIn_eq_widen]
    refine widen_apart (hsolid a ha) (hsolid b hb) ?_
    exact Nat.add_le_add_left (byteCount_take_mono text hle) _
  · intro mark hmark
    refine ⟨slice_rangeIn htext (hstands mark hmark), ?_⟩
    rw [spanIn_eq_widen]
    exact growsOverBlanks_widen (hsolid mark hmark)

end Spans

/-- The node of a declaration without anything in it. -/
def declarationAt (start stop : Nat) : Node where
  kind := "class_declaration"
  start := start
  stop := stop

/-- A declaration behind a comment, with an attribute on a line of its own and two on another. -/
def layoutSource : SourceText :=
  .ofString "/* é */\n  @First\n@Second(1) @Third struct A \x7b\x7d"

def layoutText : List Char := "@First\n@Second(1) @Third struct A \x7b\x7d".toList

def layoutHead : Head where
  attributes :=
    [⟨"First", none, 0, 6⟩, ⟨"Second", some ['1'], 7, 17⟩, ⟨"Third", none, 18, 24⟩]
  keyword := some "struct"
  stop := 31

/-- The first attribute goes with its line, the others go with the space behind them. -/
theorem spans_grow_over_blanks_layout :
    layoutSource.textOf (declarationAt 11 47) = .ok layoutText ∧
      head declarationKeywords layoutText = .ok layoutHead ∧
      (layoutHead.attributes.map fun mark =>
        layoutSource.spanIn 11 layoutText mark.start mark.stop) = [⟨9, 18⟩, ⟨18, 29⟩, ⟨29, 36⟩] ∧
      (layoutHead.attributes.map fun mark =>
        layoutSource.spanIn 11 layoutText mark.start mark.stop).Pairwise (·.stop ≤ ·.start) ∧
      ∀ mark ∈ layoutHead.attributes,
        let range := SourceText.rangeIn (declarationAt 11 47) layoutText mark
        layoutSource.slice range.start range.stop =
            Utf8.encode ((layoutText.take mark.stop).drop mark.start) ∧
          layoutSource.GrowsOverBlanks range
            (layoutSource.spanIn 11 layoutText mark.start mark.stop) := by
  have htext : layoutSource.textOf (declarationAt 11 47) = .ok layoutText := by decide +kernel
  have hhead : head declarationKeywords layoutText = .ok layoutHead := by decide +kernel
  obtain ⟨hsorted, hgrows⟩ := spans_grow_over_blanks htext hhead
  exact ⟨htext, hhead, by decide +kernel, hsorted, hgrows⟩

/-! ### Words that run together -/

/-- Two texts run together if a word character stands on either side of the place between them. -/
def glued (before after : List Char) : Bool :=
  before.getLast?.any isWord && after.head?.any isWord

/-- Whether a character is one of the blanks that go with an attribute that shares its line. -/
def isGap (c : Char) : Bool := c == ' ' || c == '\t'

theorem glued_eq_false {before : List Char} (h : ∀ c ∈ before.getLast?, isWord c = false)
    (after : List Char) : glued before after = false := by
  unfold glued
  cases hlast : before.getLast? with
  | none => rfl
  | some c => simp [h c hlast]

namespace SourceText

variable {source : SourceText} {mark : Span}

theorem isGap_of_byte {c : Char} {byte : UInt8} {bytes : List UInt8}
    (h : String.utf8EncodeChar c = byte :: bytes) (hbyte : (byte == 32 || byte == 9) = true) :
    isGap c = true := by
  have hblank (d : Char) (hd : Utf8.encode [d] = [byte]) : c = d := by
    have hascii : byte.toNat < 128 := by
      rcases Bool.or_eq_true_iff.mp hbyte with heq | heq <;> rw [beq_iff_eq.mp heq] <;> decide
    have hsingle := Utf8.utf8EncodeChar_of_ascii (h ▸ List.mem_cons_self) hascii
    have hsame : Utf8.encode [c] = Utf8.encode [d] ++ [] := by
      rw [List.append_nil, hd, Utf8.encode_cons, hsingle]
      rfl
    obtain ⟨back, hback, -⟩ := Utf8.exists_append_of_encode hsame
    exact (List.cons.inj hback).1
  rcases Bool.or_eq_true_iff.mp hbyte with heq | heq
  · rw [hblank ' ' (by rw [beq_iff_eq.mp heq]; rfl)]
    rfl
  · rw [hblank '\t' (by rw [beq_iff_eq.mp heq]; rfl)]
    rfl

theorem takeWhile_encode (text : List Char) :
    (Utf8.encode text).takeWhile (fun b => b == 32 || b == 9) =
      Utf8.encode (text.takeWhile isGap) := by
  induction text with
  | nil => rfl
  | cons c rest ih =>
    by_cases hgap : isGap c = true
    · rw [List.takeWhile_cons_of_pos hgap, Utf8.encode_cons, Utf8.encode_cons, ← ih]
      rcases Bool.or_eq_true_iff.mp hgap with heq | heq <;> rw [beq_iff_eq.mp heq] <;> rfl
    · rw [List.takeWhile_cons_of_neg hgap, Utf8.encode_cons]
      obtain ⟨byte, bytes, hbytes⟩ := List.exists_cons_of_ne_nil String.utf8EncodeChar_ne_nil
      have hstop : ¬(byte == 32 || byte == 9) = true :=
        fun hbyte => hgap (isGap_of_byte hbytes hbyte)
      rw [hbytes, List.cons_append, List.takeWhile_cons, if_neg hstop]
      rfl

/-- In front of a place behind a word character stands a byte that is no blank. -/
theorem firmAt_of_isWord {before after : List Char} {c : Char}
    (hbytes : source.bytes = Utf8.encode (before ++ after)) (hc : c ∈ before.getLast?)
    (hword : isWord c = true) : 0 < byteCount before ∧ source.FirmAt (byteCount before - 1) := by
  obtain ⟨front, rfl⟩ := List.getLast?_eq_some_iff.mp hc
  obtain ⟨bytes, last, hlast, hfirm⟩ := (isFirm_of_isWord hword).exists_last_byte
  have hencode : Utf8.encode (front ++ [c]) = Utf8.encode front ++ bytes ++ [last] := by
    rw [Utf8.encode_append, Utf8.encode_cons, hlast]
    simp [Utf8.encode]
  have hcount : byteCount (front ++ [c]) = (Utf8.encode front ++ bytes).length + 1 := by
    rw [byteCount, hencode, List.length_append, List.length_singleton]
  refine ⟨by omega, last, ?_, hfirm⟩
  rw [hbytes, Utf8.encode_append, hencode, hcount, Nat.add_sub_cancel, List.append_assoc,
    List.getElem?_append_right le_rfl, Nat.sub_self]
  rfl

theorem lineFeedAt_lineStop {offset : Nat} (hoffset : offset ≤ source.size)
    (h : source.lineStop offset < source.size) : source.LineFeedAt (source.lineStop offset) := by
  obtain ⟨-, hend⟩ := run_after source (· != lineFeed) offset rfl
  rw [lineStop, min_eq_left hoffset, lineAfter] at h ⊢
  obtain ⟨byte, hbyte⟩ : ∃ byte, source.bytes[offset +
      ((source.bytes.drop offset).takeWhile (· != lineFeed)).length]? = some byte :=
    ⟨_, List.getElem?_eq_getElem h⟩
  rw [LineFeedAt, hbyte, bne_eq_false_iff_eq.mp (hend byte hbyte)]

/-- What stands in front of a line ends with no word character. -/
theorem exists_before_lineStart {text : List Char} {offset : Nat}
    (hbytes : source.bytes = Utf8.encode text) (hoffset : offset ≤ source.size) :
    ∃ left, source.bytes.take (source.lineStart offset) = Utf8.encode left ∧
      ∀ c ∈ left.getLast?, isWord c = false := by
  obtain ⟨-, hfeed, -⟩ := lineStart_spec hoffset
  have hboundary : Utf8.IsBoundary text (source.lineStart offset) := by
    cases hstart : source.lineStart offset with
    | zero => exact Utf8.isBoundary_zero text
    | succ k =>
      have hk : source.LineFeedAt k := hfeed k hstart.symm
      rw [LineFeedAt, hbytes] at hk
      exact (Utf8.isBoundary_of_ascii hk (by decide)).2
  obtain ⟨left, right, rfl, hlength⟩ := hboundary
  refine ⟨left, by rw [hbytes, Utf8.encode_append, ← hlength, List.take_left], fun c hc => ?_⟩
  by_contra hword
  obtain ⟨hpositive, hfirm⟩ := firmAt_of_isWord hbytes hc (by simpa using hword)
  rw [byteCount, hlength] at hpositive hfirm
  exact hfirm.not_lineFeedAt (hfeed _ (Nat.sub_add_cancel hpositive))

/-- What stands behind a line and its line feed. -/
theorem exists_behind_lineStop {text : List Char} {offset : Nat}
    (hbytes : source.bytes = Utf8.encode text) (hoffset : offset ≤ source.size) :
    ∃ right, source.bytes.drop (min (source.lineStop offset + 1) source.size) =
      Utf8.encode right := by
  rcases lt_or_ge (source.lineStop offset) source.size with hlt | hle
  · have hfeed := lineFeedAt_lineStop hoffset hlt
    rw [LineFeedAt, hbytes] at hfeed
    obtain ⟨right, hright⟩ := (Utf8.isBoundary_of_ascii hfeed (by decide)).2.exists_drop
    exact ⟨right, by rw [min_eq_left hlt, hbytes, hright]⟩
  · refine ⟨[], ?_⟩
    rw [min_eq_right (Nat.le_succ_of_le hle), size, List.drop_length]
    rfl

/-- On a line that holds only blanks in front of a place, no word character stands there. -/
theorem isWord_eq_false_of_lineBefore {before after : List Char} {c : Char}
    (hbytes : source.bytes = Utf8.encode (before ++ after))
    (hblank : (source.lineBefore (byteCount before)).all isByteBlank = true)
    (hc : c ∈ before.getLast?) : isWord c = false := by
  have hsize : byteCount before ≤ source.size := by
    rw [size, hbytes, Utf8.encode_append, List.length_append, byteCount]
    exact Nat.le_add_right _ _
  obtain ⟨hle, hfeed, -, hfirst⟩ := lineStart_spec hsize
  by_contra hword
  obtain ⟨hpositive, hfirm⟩ := firmAt_of_isWord hbytes hc (by simpa using hword)
  have hlt := hfirst hblank _ hfirm (by omega)
  exact hfirm.not_lineFeedAt (hfeed _ (by omega))

/-- Where a mark goes, with what goes with it, two words run together if they do so without the mark
and the gap behind it. -/
theorem glued_widen {before piece after : List Char}
    (hbytes : source.bytes = Utf8.encode (before ++ piece ++ after))
    (hmark : mark = ⟨byteCount before, byteCount (before ++ piece)⟩) :
    ∃ left right, source.bytes.take (source.widen mark).start = Utf8.encode left ∧
      source.bytes.drop (source.widen mark).stop = Utf8.encode right ∧
      glued left right = glued before (after.dropWhile isGap) := by
  subst hmark
  have hsize : byteCount (before ++ piece) ≤ source.size := by
    rw [size, hbytes, Utf8.encode_append, List.length_append, byteCount]
    exact Nat.le_add_right _ _
  have hbefore : byteCount before ≤ source.size := by
    refine le_trans ?_ hsize
    rw [byteCount, byteCount, Utf8.encode_append, List.length_append]
    exact Nat.le_add_right _ _
  unfold widen
  split
  -- the lines of the mark go as a whole, and no word ends in front of them or in front of the mark
  · next hblank =>
    obtain ⟨left, hleft, hlast⟩ := exists_before_lineStart hbytes hbefore
    obtain ⟨right, hright⟩ := exists_behind_lineStop hbytes hsize
    refine ⟨left, right, hleft, hright, ?_⟩
    rw [glued_eq_false hlast, glued_eq_false fun c hc => ?_]
    rw [List.append_assoc] at hbytes
    exact isWord_eq_false_of_lineBefore hbytes (Bool.and_eq_true_iff.mp hblank).1 hc
  -- the mark goes with the gap behind it, which is the same in bytes and in characters
  · have hdrop : source.bytes.drop (byteCount (before ++ piece)) = Utf8.encode after := by
      rw [hbytes, Utf8.encode_append, byteCount, List.drop_left]
    have hgap : Utf8.encode after =
        Utf8.encode (after.takeWhile isGap) ++ Utf8.encode (after.dropWhile isGap) := by
      rw [← Utf8.encode_append, List.takeWhile_append_dropWhile]
    refine ⟨before, after.dropWhile isGap, ?_, ?_, rfl⟩
    · rw [hbytes, List.append_assoc, Utf8.encode_append, byteCount, List.take_left]
    · dsimp only
      rw [← List.drop_drop, hdrop, takeWhile_encode, hgap, List.drop_left]

/-- An attribute is a piece of the characters of the source, in front of which stand as many bytes
as in front of its range. -/
theorem exists_split_of_standsIn {characters text : List Char} {node : Node} {mark : Attribute}
    (hbytes : source.bytes = Utf8.encode characters) (htext : source.textOf node = .ok text)
    (h : mark.StandsIn text) :
    ∃ before after, characters = before ++ (text.take mark.stop).drop mark.start ++ after ∧
      rangeIn node text mark =
        ⟨byteCount before, byteCount (before ++ (text.take mark.stop).drop mark.start)⟩ := by
  obtain ⟨hsolid, -, -⟩ := solid_rangeIn htext h
  have hslice := slice_rangeIn htext h
  obtain ⟨rest, hfirst⟩ := h.isMark.exists_first_byte
  have hat : source.bytes[(rangeIn node text mark).start + [].length]? = some 64 :=
    getElem?_of_slice (hslice.trans hfirst)
  rw [List.length_nil, Nat.add_zero, hbytes] at hat
  obtain ⟨before, tail, hsplit, hlength⟩ := (Utf8.isBoundary_of_ascii hat (by decide)).1
  have htail : Utf8.encode tail = Utf8.encode ((text.take mark.stop).drop mark.start) ++
      source.bytes.drop (rangeIn node text mark).stop := by
    have hle : (rangeIn node text mark).start ≤
        (source.bytes.take (rangeIn node text mark).stop).length := by
      rw [List.length_take_of_le hsolid.le]
      exact hsolid.lt.le
    rw [← hslice, slice, ← List.drop_append_of_le_length hle, List.take_append_drop, hbytes,
      hsplit, Utf8.encode_append, List.drop_left' hlength]
  obtain ⟨after, rfl, -⟩ := Utf8.exists_append_of_encode htail
  refine ⟨before, after, by rw [hsplit, List.append_assoc], ?_⟩
  have hcount := slice_length source (rangeIn node text mark).start (rangeIn node text mark).stop
  rw [hslice, min_eq_left hsolid.le] at hcount
  have hlt := hsolid.lt
  have hstart : (rangeIn node text mark).start = byteCount before := hlength.symm
  have hstop : (rangeIn node text mark).stop =
      byteCount (before ++ (text.take mark.stop).drop mark.start) := by
    rw [byteCount, Utf8.encode_append, List.length_append, hcount, hlength]
    omega
  rw [← hstart, ← hstop]

end SourceText

/-- **When an attribute is cut out, two words run together if and only if one stands in front of
it and another behind the blanks that go with it.** -/
theorem glued_spanIn {string : String} {node : Node} {text : List Char} {keywords : List String}
    {found : Head} {mark : Attribute} (htext : (SourceText.ofString string).textOf node = .ok text)
    (hhead : head keywords text = .ok found) (hmark : mark ∈ found.attributes) :
    let source := SourceText.ofString string
    let span := source.spanIn node.start text mark.start mark.stop
    ∃ before after left right,
      string.toList = before ++ (text.take mark.stop).drop mark.start ++ after ∧
      (SourceText.rangeIn node text mark).start = SourceText.byteCount before ∧
      source.bytes.take span.start = Utf8.encode left ∧
      source.bytes.drop span.stop = Utf8.encode right ∧
      glued left right = glued before (after.dropWhile isGap) := by
  intro source span
  have hstands := (head_attributes hhead).1 mark hmark
  obtain ⟨before, after, hsplit, hrange⟩ :=
    SourceText.exists_split_of_standsIn (Eq.refl source.bytes) htext hstands
  have hbytes : source.bytes = Utf8.encode _ := congrArg Utf8.encode hsplit
  obtain ⟨left, right, hleft, hright, hglued⟩ := SourceText.glued_widen hbytes hrange
  exact ⟨before, after, left, right, hsplit, by rw [hrange], hleft, hright, hglued⟩

/-- An attribute between a modifier and the keyword, with a blank on its right only. -/
def tightText : String := "public@AddBuilder struct A \x7b\x7d"

def tightHead : Head where
  attributes := [⟨"AddBuilder", none, 6, 17⟩]
  modifiers := ["public"]
  keyword := some "struct"
  stop := 24

theorem glued_spanIn_tight :
    let source := SourceText.ofString tightText
    source.textOf (declarationAt 0 29) = .ok tightText.toList ∧
      head declarationKeywords tightText.toList = .ok tightHead ∧
      ∀ mark ∈ tightHead.attributes,
        let span := source.spanIn 0 tightText.toList mark.start mark.stop
        ∃ before after left right,
          tightText.toList =
            before ++ (tightText.toList.take mark.stop).drop mark.start ++ after ∧
          (SourceText.rangeIn (declarationAt 0 29) tightText.toList mark).start =
            SourceText.byteCount before ∧
          source.bytes.take span.start = Utf8.encode left ∧
          source.bytes.drop span.stop = Utf8.encode right ∧
          glued left right = glued before (after.dropWhile isGap) := by
  intro source
  have htext : source.textOf (declarationAt 0 29) = .ok tightText.toList := by decide +kernel
  have hhead : head declarationKeywords tightText.toList = .ok tightHead := by decide +kernel
  exact ⟨htext, hhead, fun mark hmark => glued_spanIn htext hhead hmark⟩

/-- The modifier and the keyword run together where the attribute stood. -/
theorem words_glued_tight :
    let source := SourceText.ofString tightText
    source.textOf (declarationAt 0 29) = .ok tightText.toList ∧
      head declarationKeywords tightText.toList = .ok tightHead ∧
      ∃ mark ∈ tightHead.attributes,
        let span := source.spanIn 0 tightText.toList mark.start mark.stop
        source.bytes.take span.start = Utf8.encode "public".toList ∧
          source.bytes.drop span.stop = Utf8.encode "struct A \x7b\x7d".toList ∧
          glued "public".toList "struct A \x7b\x7d".toList = true := by
  refine ⟨by decide +kernel, by decide +kernel, _, List.mem_singleton_self _, ?_⟩
  decide +kernel

end FluentBuilder
