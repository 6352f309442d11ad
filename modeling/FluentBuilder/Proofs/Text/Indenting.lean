import FluentBuilder.Text.Lines
import Mathlib.Data.List.Basic

/-!
# Lines moved to the right and back

`Text.indent` moves the lines of a text to the right and joins them by line feeds. To move them back
is to cut the result at its line feeds and to take the pad off every row that is not empty
(`unindent?`). What comes back are the lines of the text (`unindent?_indent`), not its rows between
line feeds: every other line end in it has become a line feed or is lost. So a text comes back as
it was exactly if its only line ends are line feeds (`unindent?_indent_iff`), wherever the others
stand, and be it in a string that the text quotes.
-/

namespace FluentBuilder.Text

/-- The rows of a text between its line feeds. -/
def rows (text : List Char) : List (List Char) := text.splitOn '\n'

/-- A row without the pad in front of it. An empty row has none. -/
def unpadded? (pad row : List Char) : Option (List Char) :=
  if row.isEmpty then some row else row.dropPrefix? pad

/-- The rows of a text without the pad in front of them, if it is there. -/
def unindent? (pad text : String) : Option (List (List Char)) :=
  (rows text.toList).mapM (unpadded? pad.toList)

/-- The rows of one text stand in another one below each other, each behind the pad or empty. -/
def StandsIn (pad inner text : List Char) : Prop :=
  ∃ before padded after, rows text = before ++ padded ++ after ∧
    padded.mapM (unpadded? pad) = some (rows inner)

def LineFeedsOnly (text : List Char) : Prop := ∀ c ∈ text, isLineEnd c = true → c = '\n'

instance : DecidablePred LineFeedsOnly := fun text =>
  List.decidableBAll (fun c => isLineEnd c = true → c = '\n') text

@[simp] theorem lineFeedsOnly_append {text rest : List Char} :
    LineFeedsOnly (text ++ rest) ↔ LineFeedsOnly text ∧ LineFeedsOnly rest :=
  List.forall_mem_append

theorem lineFeedsOnly_intercalate {rows : List (List Char)} :
    LineFeedsOnly (['\n'].intercalate rows) ↔ ∀ row ∈ rows, LineFeedsOnly row := by
  have hseparator : LineFeedsOnly ['\n'] := by decide
  induction rows with
  | nil => simp [LineFeedsOnly]
  | cons row rows ih =>
    cases rows with
    | nil => simp
    | cons next rows =>
      simp only [List.intercalate_cons_cons, lineFeedsOnly_append, hseparator, and_true, ih,
        List.forall_mem_cons]

/-! ### Rows -/

theorem rows_append_cons (text rest : List Char) :
    rows (text ++ '\n' :: rest) = rows text ++ rows rest :=
  List.splitOn_append_cons_self ..

theorem getLast?_intercalate {rows : List (List Char)} {last : List Char} (hlast : last ≠ []) :
    (['\n'].intercalate (rows ++ [last])).getLast? = last.getLast? := by
  induction rows with
  | nil => simp
  | cons row rows ih =>
    have hrest : rows ++ [last] ≠ [] := List.append_ne_nil_of_right_ne_nil rows (by simp)
    have hend := List.getLast?_eq_some_getLast hlast
    rw [List.cons_append, List.intercalate_cons_of_ne_nil hrest, List.getLast?_append, ih, hend,
      Option.some_or]

theorem infix_intercalate (separator : List Char) {row : List Char} {rows : List (List Char)}
    (h : row ∈ rows) : row <:+: separator.intercalate rows := by
  induction rows with
  | nil => simp at h
  | cons first rest ih =>
    rcases List.mem_cons.mp h with rfl | h
    · cases rest with
      | nil => simp
      | cons next rest =>
        rw [List.intercalate_cons_cons, List.append_assoc]
        exact (List.prefix_append row _).isInfix
    · rw [List.intercalate_cons_of_ne_nil (List.ne_nil_of_mem h)]
      exact (ih h).trans (List.suffix_append _ _).isInfix

/-- What can be moved back stands in every text that has it between two line feeds. -/
theorem standsIn_of_unindent? {pad inner padded : String}
    (h : unindent? pad padded = some (rows inner.toList)) (before after : List Char) :
    StandsIn pad.toList inner.toList (before ++ '\n' :: (padded.toList ++ '\n' :: after)) := by
  refine ⟨rows before, rows padded.toList, rows after, ?_, h⟩
  rw [rows_append_cons, rows_append_cons, List.append_assoc]

/-! ### Lines -/

theorem isLineEnd_of_mem_linesFrom {line text found : List Char}
    (hline : ∀ c ∈ line, isLineEnd c = false) (h : found ∈ linesFrom line text) :
    ∀ c ∈ found, isLineEnd c = false := by
  fun_induction linesFrom line text with
  | case1 line hempty => simp at h
  | case2 line hempty =>
    obtain rfl := List.mem_singleton.mp h
    simpa using hline
  | case3 line rest ih =>
    rcases List.mem_cons.mp h with rfl | h
    · simpa using hline
    · exact ih (List.forall_mem_nil _) h
  | case4 line c rest hpair hend ih =>
    rcases List.mem_cons.mp h with rfl | h
    · simpa using hline
    · exact ih (List.forall_mem_nil _) h
  | case5 line c rest hpair hinner ih =>
    exact ih (List.forall_mem_cons.mpr ⟨by simpa using hinner, hline⟩) h

theorem lineFeedsOnly_of_mem_lines {line text : List Char} (h : line ∈ lines text) :
    LineFeedsOnly line := by
  intro c hc hend
  rw [isLineEnd_of_mem_linesFrom (List.forall_mem_nil _) h c hc] at hend
  cases hend

/-- Where line feeds are the only line ends, the lines of a text are its rows, unless a line feed
stands at its end. -/
theorem linesFrom_eq_rows {line text : List Char} (hline : ∀ c ∈ line, isLineEnd c = false)
    (htext : LineFeedsOnly text)
    (hlast : ∃ last ∈ (line.reverse ++ text).getLast?, isLineEnd last = false) :
    linesFrom line text = rows (line.reverse ++ text) := by
  have hfree (line : List Char) (hline : ∀ c ∈ line, isLineEnd c = false) :
      '\n' ∉ line.reverse := by
    intro hmem
    exact absurd (hline _ (List.mem_reverse.mp hmem)) (by decide)
  fun_induction linesFrom line text with
  | case1 line hempty =>
    obtain rfl := List.isEmpty_iff.mp hempty
    simp at hlast
  | case2 line hempty => rw [rows, List.append_nil, List.splitOn_eq_singleton (hfree line hline)]
  | case3 line rest ih =>
    have hreturn := htext '\r' List.mem_cons_self (by decide)
    exact absurd hreturn (by decide)
  | case4 line c rest hpair hend ih =>
    obtain rfl := htext c List.mem_cons_self hend
    have hrest := (List.forall_mem_cons.mp htext).2
    rw [rows, List.splitOn_append_cons_self_of_not_mem (hfree line hline),
      ih (List.forall_mem_nil _) hrest, rows]
    · rfl
    · obtain ⟨last, hmem, hkept⟩ := hlast
      cases rest with
      | nil =>
        obtain rfl : '\n' = last := by simpa using hmem
        exact absurd hkept (by decide)
      | cons d rest => exact ⟨last, by simpa [List.getLast?_append] using hmem, hkept⟩
  | case5 line c rest hpair hinner ih =>
    have happend : (c :: line).reverse ++ rest = line.reverse ++ c :: rest := by simp
    rw [ih (List.forall_mem_cons.mpr ⟨by simpa using hinner, hline⟩)
      (List.forall_mem_cons.mp htext).2 (by rwa [happend]), happend]

theorem lines_ne_nil {text : List Char} (h : text ≠ []) : lines text ≠ [] := by
  have hfound (line text : List Char) (h : line ≠ [] ∨ text ≠ []) : linesFrom line text ≠ [] := by
    fun_induction linesFrom line text with
    | case1 line hempty => simp [List.isEmpty_iff.mp hempty] at h
    | case2 | case3 | case4 => exact List.cons_ne_nil _ _
    | case5 line c rest _ _ ih => exact ih (.inl (List.cons_ne_nil c line))
  exact hfound [] text (.inr h)

/-! ### There and back -/

section

variable {pad text : String}

theorem unpadded?_append (pad line : List Char) :
    unpadded? pad (if line.isEmpty then line else pad ++ line) = some line := by
  cases line with
  | nil => rfl
  | cons c line =>
    simp [unpadded?, List.dropPrefix?_append_of_beq (c :: line) (beq_self_eq_true pad)]

/-- The lines of a text that was moved to the right come back. -/
theorem unindent?_indent (hpad : '\n' ∉ pad.toList) (htext : text.toList ≠ []) :
    unindent? pad (indent pad text) = some (lines text.toList) := by
  have hrows : rows (indent pad text).toList =
      (lines text.toList).map fun line => if line.isEmpty then line else pad.toList ++ line := by
    rw [rows, indent, String.toList_ofList]
    refine List.splitOn_intercalate '\n' ?_ (by simpa using lines_ne_nil htext)
    intro row hrow
    obtain ⟨line, hline, rfl⟩ := List.mem_map.mp hrow
    have hfree : '\n' ∉ line := fun hmem =>
      absurd (isLineEnd_of_mem_linesFrom (List.forall_mem_nil _) hline _ hmem) (by decide)
    split
    · exact hfree
    · exact List.not_mem_append hpad hfree
  have hback (lines : List (List Char)) :
      (lines.mapM fun line => unpadded? pad.toList
        (if line.isEmpty then line else pad.toList ++ line)) = some lines := by
    simp only [unpadded?_append]
    exact (List.mapM_pure (f := id)).trans (congrArg some (List.map_id lines))
  rw [unindent?, hrows, List.mapM_map]
  exact hback (lines text.toList)

/-- Of all line ends in a text that is moved to the right, only line feeds are left. -/
theorem lineFeedsOnly_indent (hpad : LineFeedsOnly pad.toList) (text : String) :
    LineFeedsOnly (indent pad text).toList := by
  rw [indent, String.toList_ofList, lineFeedsOnly_intercalate, List.forall_mem_map]
  intro line hline
  have hfree := lineFeedsOnly_of_mem_lines hline
  split
  · exact hfree
  · exact lineFeedsOnly_append.mpr ⟨hpad, hfree⟩

/-- A text that ends with no line end comes back as it was exactly if its only line ends are line
feeds. -/
theorem unindent?_indent_iff (hpad : '\n' ∉ pad.toList)
    (hlast : ∃ last ∈ text.toList.getLast?, isLineEnd last = false) :
    unindent? pad (indent pad text) = some (rows text.toList) ↔ LineFeedsOnly text.toList := by
  have htext : text.toList ≠ [] := by
    rintro hempty
    simp [hempty] at hlast
  rw [unindent?_indent hpad htext, Option.some.injEq]
  constructor
  · intro hsame
    have hjoin : ['\n'].intercalate (rows text.toList) = text.toList :=
      List.intercalate_splitOn '\n'
    rw [← hjoin, ← hsame, lineFeedsOnly_intercalate]
    exact fun line hline => lineFeedsOnly_of_mem_lines hline
  · exact fun honly => linesFrom_eq_rows (List.forall_mem_nil _) honly hlast

end

end FluentBuilder.Text
