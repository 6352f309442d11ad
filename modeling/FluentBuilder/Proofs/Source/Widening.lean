import FluentBuilder.Proofs.Source.Splicing

/-!
# Ranges that grow over blanks

Two kinds of ranges grow when a source is edited. The range of a mark grows over the blanks around
it, to whole lines or to the next thing on its line, and the range before a closing brace grows
over the blanks in front of it. Neither grows over anything else, so what keeps apart before keeps
apart afterwards, as long as no blanks lie between a mark and a brace that both could take:

* `widen_apart`: of two marks one behind the other, both ends stay in order. The blanks between
  them are shared out at the end of a line: the first takes the line feed, the second what follows.
* `widen_stop_le_sub_blanksBefore`, `lt_widen_start_of_firm`: a mark and a brace keep apart, if the
  brace is not in the mark, and something other than blanks stands between the mark and a brace
  behind it that it does not touch.
-/

namespace FluentBuilder

open Text

/-! ### Runs in a row -/

theorem takeWhile_run {α : Type} (p : α → Bool) (row : List α) :
    (∀ i < (row.takeWhile p).length, ∃ value ∈ row.takeWhile p, row[i]? = some value ∧
      p value = true) ∧
      ∀ value, row[(row.takeWhile p).length]? = some value → p value = false := by
  induction row with
  | nil => simp
  | cons first rest ih =>
    by_cases hfirst : p first = true
    · rw [List.takeWhile_cons_of_pos hfirst]
      obtain ⟨hrun, hend⟩ := ih
      refine ⟨fun i hi => ?_, by simpa using hend⟩
      cases i with
      | zero => exact ⟨first, List.mem_cons_self, rfl, hfirst⟩
      | succ i =>
        obtain ⟨value, hmem, hvalue⟩ := hrun i (by simpa using hi)
        exact ⟨value, List.mem_cons_of_mem _ hmem, hvalue⟩
    · rw [List.takeWhile_cons_of_neg hfirst]
      simpa using hfirst

namespace SourceText

variable {source : SourceText}

/-- The bytes with a property from an offset on are such bytes, and there is none behind them. -/
theorem run_after (source : SourceText) (p : UInt8 → Bool) (offset : Nat) {run : List UInt8}
    (h : run = (source.bytes.drop offset).takeWhile p) :
    (∀ k, offset ≤ k → k < offset + run.length → ∃ byte ∈ run, source.bytes[k]? = some byte ∧
      p byte = true) ∧
      ∀ byte, source.bytes[offset + run.length]? = some byte → p byte = false := by
  subst h
  obtain ⟨hrun, hend⟩ := takeWhile_run p (source.bytes.drop offset)
  refine ⟨fun k hle hlt => ?_, fun byte hbyte => hend byte (by rwa [List.getElem?_drop])⟩
  obtain ⟨byte, hmem, hbyte, hp⟩ := hrun (k - offset) (by omega)
  rw [List.getElem?_drop, Nat.add_sub_cancel' hle] at hbyte
  exact ⟨byte, hmem, hbyte, hp⟩

/-- The bytes with a property up to an offset are such bytes, and there is none in front of them. -/
theorem run_before (p : UInt8 → Bool) {offset : Nat} (hoffset : offset ≤ source.size)
    {run : List UInt8} (h : run = (source.bytes.take offset).reverse.takeWhile p) :
    run.length ≤ offset ∧
      (∀ k, offset ≤ k + run.length → k < offset → ∃ byte ∈ run, source.bytes[k]? = some byte ∧
        p byte = true) ∧
      ∀ k, k + 1 + run.length = offset → ∀ byte, source.bytes[k]? = some byte →
        p byte = false := by
  subst h
  have hlength : (source.bytes.take offset).length = offset := List.length_take_of_le hoffset
  have hat : ∀ k < offset, (source.bytes.take offset).reverse[offset - 1 - k]? =
      source.bytes[k]? := by
    intro k hk
    rw [List.getElem?_reverse (by omega), hlength, List.getElem?_take_of_lt (by omega)]
    congr 1
    omega
  have hle := (List.takeWhile_prefix p (l := (source.bytes.take offset).reverse)).length_le
  rw [List.length_reverse, hlength] at hle
  obtain ⟨hrun, hend⟩ := takeWhile_run p (source.bytes.take offset).reverse
  refine ⟨hle, fun k hk hlt => ?_, fun k hk byte hbyte => ?_⟩
  · obtain ⟨byte, hmem, hbyte, hp⟩ := hrun (offset - 1 - k) (by omega)
    rw [hat k hlt] at hbyte
    exact ⟨byte, hmem, hbyte, hp⟩
  · refine hend byte ?_
    rw [← hbyte, ← hat k (by omega)]
    congr 1
    omega

/-! ### Firm places -/

/-- At an offset stands a byte that is no blank. -/
def FirmAt (source : SourceText) (offset : Nat) : Prop :=
  ∃ byte, source.bytes[offset]? = some byte ∧ isByteBlank byte = false

def LineFeedAt (source : SourceText) (offset : Nat) : Prop := source.bytes[offset]? = some lineFeed

theorem FirmAt.lt_size {k : Nat} (h : source.FirmAt k) : k < source.size := by
  obtain ⟨byte, hbyte, -⟩ := h
  exact (List.getElem?_eq_some_iff.mp hbyte).1

theorem FirmAt.not_blank {k : Nat} (h : source.FirmAt k) {byte : UInt8}
    (hbyte : source.bytes[k]? = some byte) : isByteBlank byte ≠ true := by
  obtain ⟨found, hfound, hfirm⟩ := h
  obtain rfl : found = byte := Option.some.inj (hfound.symm.trans hbyte)
  simp [hfirm]

theorem FirmAt.not_lineFeedAt {k : Nat} (h : source.FirmAt k) : ¬source.LineFeedAt k :=
  fun hfeed => h.not_blank hfeed (by decide)

/-! ### Lines -/

/-- The line before an offset holds no line feed, and starts behind one or at the start. -/
theorem lineStart_spec {offset : Nat} (hoffset : offset ≤ source.size) :
    source.lineStart offset ≤ offset ∧
      (∀ k, k + 1 = source.lineStart offset → source.LineFeedAt k) ∧
      (∀ k, source.LineFeedAt k → k < offset → k < source.lineStart offset) ∧
      ((source.lineBefore offset).all isByteBlank = true → ∀ k, source.FirmAt k → k < offset →
        k < source.lineStart offset) := by
  have hlength : (source.lineBefore offset).length =
      ((source.bytes.take offset).reverse.takeWhile (· != lineFeed)).length := List.length_reverse
  obtain ⟨hle, hrun, hend⟩ := run_before (· != lineFeed) hoffset rfl
  unfold lineStart
  rw [min_eq_left hoffset, hlength]
  refine ⟨by omega, fun k hk => ?_, fun k hk hlt => ?_, fun hblank k hk hlt => ?_⟩
  · have hk' : k < source.bytes.length := by
      have : offset ≤ source.bytes.length := hoffset
      omega
    have hbyte := List.getElem?_eq_getElem hk'
    have hfeed := hend k (by omega) _ hbyte
    rw [bne_eq_false_iff_eq] at hfeed
    rw [LineFeedAt, hbyte, hfeed]
  · by_contra hnot
    obtain ⟨byte, -, hbyte, hne⟩ := hrun k (by omega) hlt
    obtain rfl : lineFeed = byte := Option.some.inj (hk.symm.trans hbyte)
    simp at hne
  · by_contra hnot
    obtain ⟨byte, hmem, hbyte, -⟩ := hrun k (by omega) hlt
    exact hk.not_blank hbyte (List.all_eq_true.mp hblank byte (List.mem_reverse.mpr hmem))

/-- The line behind an offset holds no line feed, and ends in front of one or at the end. -/
theorem lineStop_spec {offset : Nat} (hoffset : offset ≤ source.size) :
    offset ≤ source.lineStop offset ∧
      (∀ k, source.LineFeedAt k → offset ≤ k → source.lineStop offset ≤ k) ∧
      ((source.lineAfter offset).all isByteBlank = true → ∀ k, source.FirmAt k → offset ≤ k →
        source.lineStop offset < k) := by
  obtain ⟨hrun, hend⟩ := run_after source (· != lineFeed) offset rfl
  unfold lineStop
  rw [min_eq_left hoffset]
  refine ⟨by omega, fun k hk hle => ?_, fun hblank k hk hle => ?_⟩
  · by_contra hnot
    obtain ⟨byte, -, hbyte, hne⟩ := hrun k hle (by unfold lineAfter at hnot; omega)
    obtain rfl : lineFeed = byte := Option.some.inj (hk.symm.trans hbyte)
    simp at hne
  · by_contra hnot
    rcases (not_lt.mp hnot).lt_or_eq with hlt | rfl
    · obtain ⟨byte, hmem, hbyte, -⟩ := hrun k hle hlt
      exact hk.not_blank hbyte (List.all_eq_true.mp hblank byte hmem)
    · obtain ⟨byte, hbyte, -⟩ := id hk
      have hfeed := hend byte hbyte
      simp only [bne_eq_false_iff_eq] at hfeed
      rw [hfeed] at hbyte
      exact hk.not_lineFeedAt hbyte

/-! ### Marks -/

/-- The range that goes for a mark. -/
def widen (source : SourceText) (mark : Span) : Span :=
  if (source.lineBefore mark.start).all isByteBlank &&
      (source.lineAfter mark.stop).all isByteBlank then
    ⟨source.lineStart mark.start, min (source.lineStop mark.stop + 1) source.size⟩
  else
    ⟨mark.start,
      mark.stop + ((source.bytes.drop mark.stop).takeWhile fun b => b == 32 || b == 9).length⟩

theorem spanIn_eq_widen (nodeStart : Nat) (text : List Char) (start stop : Nat) :
    source.spanIn nodeStart text start stop = source.widen
      ⟨nodeStart + byteCount (text.take start), nodeStart + byteCount (text.take stop)⟩ :=
  rfl

/-- A mark lies in the text, and neither its first nor its last byte is a blank. -/
structure Solid (source : SourceText) (mark : Span) : Prop where
  lt : mark.start < mark.stop
  le : mark.stop ≤ source.size
  first : source.FirmAt mark.start
  last : source.FirmAt (mark.stop - 1)

variable {mark other : Span} {k : Nat}

theorem widen_stop_le_size (h : source.Solid mark) : (source.widen mark).stop ≤ source.size := by
  unfold widen
  split
  · exact min_le_right _ _
  · have := (List.takeWhile_prefix (l := source.bytes.drop mark.stop)
      fun b => b == 32 || b == 9).length_le
    rw [List.length_drop] at this
    have hle : mark.stop ≤ source.bytes.length := h.le
    simp only [size]
    omega

theorem widen_start_le (h : source.Solid mark) : (source.widen mark).start ≤ mark.start := by
  unfold widen
  split
  · exact (lineStart_spec (h.lt.le.trans h.le)).1
  · exact le_rfl

theorem le_widen_stop (h : source.Solid mark) : mark.stop ≤ (source.widen mark).stop := by
  unfold widen
  split
  · have := (lineStop_spec h.le).1
    have := h.le
    dsimp only
    omega
  · dsimp only
    omega

/-- A mark does not grow to the right over what is no blank. -/
theorem widen_stop_le_of_firm (h : source.Solid mark) (hk : source.FirmAt k)
    (hle : mark.stop ≤ k) : (source.widen mark).stop ≤ k := by
  unfold widen
  split
  · next hblank =>
    have := (lineStop_spec h.le).2.2 (Bool.and_eq_true_iff.mp hblank).2 k hk hle
    dsimp only
    omega
  · by_contra hnot
    obtain ⟨hrun, -⟩ := run_after source (fun b => b == 32 || b == 9) mark.stop rfl
    obtain ⟨byte, -, hbyte, hgap⟩ := hrun k hle (by dsimp only at hnot; omega)
    refine hk.not_blank hbyte ?_
    rcases Bool.or_eq_true_iff.mp hgap with heq | heq <;> rw [beq_iff_eq.mp heq] <;> decide

/-- A mark does not grow to the right over the end of a line. -/
theorem widen_stop_le_of_lineFeed (h : source.Solid mark) (hk : source.LineFeedAt k)
    (hle : mark.stop ≤ k) : (source.widen mark).stop ≤ k + 1 := by
  unfold widen
  split
  · have := (lineStop_spec h.le).2.1 k hk hle
    dsimp only
    omega
  · by_contra hnot
    obtain ⟨hrun, -⟩ := run_after source (fun b => b == 32 || b == 9) mark.stop rfl
    obtain ⟨byte, -, hbyte, hgap⟩ := hrun k hle (by dsimp only at hnot; omega)
    obtain rfl : lineFeed = byte := Option.some.inj (hk.symm.trans hbyte)
    exact absurd hgap (by decide)

/-- A mark does not grow to the left over what is no blank. -/
theorem lt_widen_start_of_firm (h : source.Solid mark) (hk : source.FirmAt k)
    (hlt : k < mark.start) : k < (source.widen mark).start := by
  unfold widen
  split
  · next hblank =>
    exact (lineStart_spec (h.lt.le.trans h.le)).2.2.2 (Bool.and_eq_true_iff.mp hblank).1 k hk hlt
  · exact hlt

/-- A mark does not grow to the left over the end of a line. -/
theorem lt_widen_start_of_lineFeed (h : source.Solid mark) (hk : source.LineFeedAt k)
    (hlt : k < mark.start) : k < (source.widen mark).start := by
  unfold widen
  split
  · exact (lineStart_spec (h.lt.le.trans h.le)).2.2.1 k hk hlt
  · exact hlt

/-- A mark that grows to the left grows to the start of a line. -/
theorem widen_start_cases (h : source.Solid mark) :
    (source.widen mark).start = mark.start ∨
      ∀ k, k + 1 = (source.widen mark).start → source.LineFeedAt k := by
  unfold widen
  split
  · exact .inr (lineStart_spec (h.lt.le.trans h.le)).2.1
  · exact .inl rfl

/-- Marks one behind the other grow apart: what lies between them is shared out at the end of a
line, and if it holds none, the second does not grow to the left. -/
theorem widen_apart (hmark : source.Solid mark) (hother : source.Solid other)
    (h : mark.stop ≤ other.start) : (source.widen mark).stop ≤ (source.widen other).start := by
  by_cases hfeed : ∃ k, source.LineFeedAt k ∧ mark.stop ≤ k ∧ k < other.start
  · obtain ⟨k, hk, hle, hlt⟩ := hfeed
    have hstop := widen_stop_le_of_lineFeed hmark hk hle
    have hstart := lt_widen_start_of_lineFeed hother hk hlt
    omega
  · have hstop := widen_stop_le_of_firm hmark hother.first h
    rcases widen_start_cases hother with hsame | hline
    · omega
    · have hlt := hmark.lt
      have hfirm := lt_widen_start_of_firm hother hmark.last (by omega)
      obtain ⟨k, hk⟩ := Nat.exists_eq_add_of_lt (Nat.zero_lt_of_lt hfirm)
      have hfound := hline k (by omega)
      have hne : k ≠ mark.stop - 1 := by
        rintro rfl
        exact hmark.last.not_lineFeedAt hfound
      have := widen_start_le hother
      exact absurd ⟨k, hfound, by omega, by omega⟩ hfeed

/-! ### Braces -/

def blanksBefore (source : SourceText) (offset : Nat) : Nat :=
  ((source.bytes.take offset).reverse.takeWhile isLayoutByte).length

theorem isByteBlank_of_isLayoutByte {byte : UInt8} (h : isLayoutByte byte = true) :
    isByteBlank byte = true := by
  simp only [isLayoutByte, Bool.or_eq_true, beq_iff_eq] at h
  rcases h with ((rfl | rfl) | rfl) | rfl <;> decide

/-- The range in front of a brace does not grow over what is no blank. -/
theorem lt_sub_blanksBefore {stop : Nat} (hstop : stop ≤ source.size) (hk : source.FirmAt k)
    (hlt : k < stop) : k < stop - source.blanksBefore stop := by
  obtain ⟨hle, hrun, -⟩ := run_before isLayoutByte hstop rfl
  unfold blanksBefore
  by_contra hnot
  obtain ⟨byte, -, hbyte, hlayout⟩ := hrun k (by omega) hlt
  exact hk.not_blank hbyte (isByteBlank_of_isLayoutByte hlayout)

/-- A mark grows apart from the range in front of a brace behind it, if the brace touches the mark
or something other than blanks stands between them. -/
theorem widen_stop_le_sub_blanksBefore {stop : Nat} (h : source.Solid mark)
    (hstop : source.FirmAt stop)
    (hbetween : mark.stop = stop ∨ ∃ k, source.FirmAt k ∧ mark.stop ≤ k ∧ k < stop) :
    (source.widen mark).stop ≤ stop - source.blanksBefore stop := by
  have hsize := hstop.lt_size.le
  rcases hbetween with rfl | ⟨k, hk, hle, hlt⟩
  · have hwide := widen_stop_le_of_firm h hstop le_rfl
    have hblanks := lt_sub_blanksBefore hsize h.last (by have := h.lt; omega)
    omega
  · have hwide := widen_stop_le_of_firm h hk hle
    have hblanks := lt_sub_blanksBefore hsize hk hlt
    omega

end SourceText

theorem insertion_span (settings : Settings) (source : SourceText) (site : RecordSite) (stop : Nat)
    (declaration : String) : (insertion settings source site stop declaration).span =
      ⟨stop - source.blanksBefore stop, stop⟩ :=
  rfl

end FluentBuilder
