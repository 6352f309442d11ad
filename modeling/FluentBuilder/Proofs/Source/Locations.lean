import FluentBuilder.Proofs.Source.Ranges

/-!
# Places in a node are places in the source

`locate_textOf`: the place of a character is found from the start of its node and from the text of
the node alone, and it is the place of its byte in the whole source. The lines are those of the
node and those passed in its text (`count_lineFeed_encode`). The line that the byte stands on either
starts in the text of the node, or it starts in front of the node and goes on in it; so the text is
cut at its last line feed, if it has one, and the bytes are cut there too.
-/

namespace FluentBuilder

open Syntax Text

/-! ### Line feeds -/

theorem count_lineFeed_utf8EncodeChar (c : Char) :
    (String.utf8EncodeChar c).count SourceText.lineFeed = if c = '\n' then 1 else 0 := by
  split
  · next h =>
    subst h
    rfl
  · next h =>
    rw [List.count_eq_zero]
    intro hmem
    have hsingle := Utf8.utf8EncodeChar_of_ascii hmem (by decide)
    have hsame : Utf8.encode [c] = Utf8.encode ['\n'] ++ [] := by
      rw [Utf8.encode_cons, hsingle]
      rfl
    obtain ⟨back, hback, -⟩ := Utf8.exists_append_of_encode hsame
    exact h (List.cons.inj hback).1

theorem count_lineFeed_encode (text : List Char) :
    (Utf8.encode text).count SourceText.lineFeed = text.count '\n' := by
  induction text with
  | nil => rfl
  | cons c rest ih =>
    rw [Utf8.encode_cons, List.count_append, count_lineFeed_utf8EncodeChar, ih, List.count_cons,
      Nat.add_comm]
    simp only [beq_iff_eq]

theorem lineFeed_mem_encode {text : List Char} :
    SourceText.lineFeed ∈ Utf8.encode text ↔ '\n' ∈ text := by
  rw [← List.count_pos_iff, count_lineFeed_encode, List.count_pos_iff]

/-! ### The last line -/

/-- The line that a row ends with stands behind an end of a line, or is the whole row. -/
structure LastLine {α : Type} (separator : α) (row front line : List α) : Prop where
  split : row = front ++ line
  front_cases : front = [] ∨ front.getLast? = some separator
  not_mem : separator ∉ line

variable {α : Type} {separator : α} {row front line : List α}

/-- What is found from the end of a row up to a separator is its last line. -/
theorem exists_lastLine [DecidableEq α] (separator : α) (row : List α) :
    ∃ front, LastLine separator row front (row.reverse.takeWhile (· != separator)).reverse := by
  refine ⟨(row.reverse.dropWhile (· != separator)).reverse, ?_, ?_, ?_⟩
  · rw [← List.reverse_append, List.takeWhile_append_dropWhile, List.reverse_reverse]
  · cases hrest : row.reverse.dropWhile (· != separator) with
    | nil => exact .inl rfl
    | cons first rest =>
      have hfirst := List.head?_dropWhile_not (· != separator) row.reverse
      rw [hrest] at hfirst
      right
      simpa using hfirst
  · intro hmem
    have hne := List.mem_takeWhile_imp (List.mem_reverse.mp hmem)
    exact absurd rfl (bne_iff_ne.mp hne)

theorem LastLine.append (h : LastLine separator row front line) {more : List α}
    (hmore : separator ∉ more) : LastLine separator (row ++ more) front (line ++ more) where
  split := by rw [h.split, List.append_assoc]
  front_cases := h.front_cases
  not_mem hmem := (List.mem_append.mp hmem).elim h.not_mem hmore

/-! ### Places -/

namespace SourceText

variable {source : SourceText} {node : Node} {text : List Char}

theorem exists_drop_of_textOf (htext : source.textOf node = .ok text) :
    ∃ rest, source.bytes.drop node.start = Utf8.encode text ++ rest := by
  refine ⟨(source.bytes.drop node.start).drop (node.stop - node.start), ?_⟩
  rw [← slice_of_textOf htext, slice, List.drop_take, List.take_append_drop]

/-- In front of a character of a node stand the bytes in front of the node and those of the
characters in front of it. -/
theorem take_of_textOf (htext : source.textOf node = .ok text) (before : Nat) :
    source.bytes.take (node.start + byteCount (text.take before)) =
      source.bytes.take node.start ++ Utf8.encode (text.take before) := by
  obtain ⟨rest, hrest⟩ := exists_drop_of_textOf htext
  have hsplit : Utf8.encode text =
      Utf8.encode (text.take before) ++ Utf8.encode (text.drop before) := by
    rw [← Utf8.encode_append, List.take_append_drop]
  rw [List.take_add, hrest, hsplit, List.append_assoc, byteCount, List.take_left]

/-- From a character of a node up to the end of the node stand the bytes of the characters from
there on. -/
theorem slice_of_place (htext : source.textOf node = .ok text) (before : Nat) :
    source.slice (node.start + byteCount (text.take before)) node.stop =
      Utf8.encode (text.drop before) := by
  have hsplit : Utf8.encode text =
      Utf8.encode (text.take before) ++ Utf8.encode (text.drop before) := by
    rw [← Utf8.encode_append, List.take_append_drop]
  have hslice := slice_of_textOf htext
  rw [slice] at hslice
  rw [slice, ← List.drop_drop, hslice, hsplit, byteCount, List.drop_left]

/-- The column of a character of a node counts the bytes of its line in the source. -/
theorem exists_lastLine_locate (path : Path) (htext : source.textOf node = .ok text)
    (before : Nat) :
    ∃ front line, LastLine lineFeed
        (source.bytes.take (node.start + byteCount (text.take before))) front line ∧
      (source.locate path node.start text before).column = 1 + line.length := by
  have hbytes := take_of_textOf htext before
  obtain ⟨front, hfront⟩ := exists_lastLine '\n' (text.take before)
  set line := ((text.take before).reverse.takeWhile (· != '\n')).reverse with hline
  have hfeed : lineFeed ∉ Utf8.encode line := fun h => hfront.not_mem (lineFeed_mem_encode.mp h)
  have hcolumn : (source.locate path node.start text before).column =
      byteCount line + (if (text.take before).count '\n' == 0 then
        (source.lineBefore node.start).length else 0 : Nat) + 1 := by
    simp only [locate, ← hline]
    push_cast
    rfl
  rw [hcolumn]
  rcases hfront.front_cases with rfl | hlast
  · -- no line ends in the text passed: the line of the character starts in front of the node
    have hall : text.take before = line := hfront.split
    have hnone : (text.take before).count '\n' = 0 := by
      rw [hall]
      exact List.count_eq_zero_of_not_mem hfront.not_mem
    obtain ⟨outer, houter⟩ := exists_lastLine lineFeed (source.bytes.take node.start)
    refine ⟨outer, source.lineBefore node.start ++ Utf8.encode line, ?_, ?_⟩
    · rw [hbytes, hall]
      exact houter.append hfeed
    · rw [hnone, List.length_append, byteCount]
      push_cast
      simp only [if_true]
      omega
  · -- the line of the character starts behind the last line feed of the text passed
    obtain ⟨init, rfl⟩ := List.getLast?_eq_some_iff.mp hlast
    have hsome : (text.take before).count '\n' ≠ 0 := by
      rw [Nat.ne_zero_iff_zero_lt, List.count_pos_iff, hfront.split]
      simp
    refine ⟨source.bytes.take node.start ++ Utf8.encode (init ++ ['\n']), Utf8.encode line, ?_, ?_⟩
    · refine ⟨?_, .inr ?_, hfeed⟩
      · rw [hbytes, hfront.split, Utf8.encode_append, List.append_assoc]
      · rw [Utf8.encode_append, List.getLast?_append, List.getLast?_append]
        rfl
    · rw [if_neg (by simpa using hsome), byteCount]
      push_cast
      omega

/-- **Places in a node are places in the source.** A character of a node stands behind the bytes of
the node that belong to the characters in front of it. Its line counts the line feeds in the source
up to there, its column the bytes behind the last of them. -/
theorem locate_textOf (path : Path) (htext : source.textOf node = .ok text) (before : Nat) :
    let place := node.start + byteCount (text.take before)
    source.slice place node.stop = Utf8.encode (text.drop before) ∧
      ∃ front line, LastLine lineFeed (source.bytes.take place) front line ∧
        source.locate path node.start text before =
          { path := some path
            line := 1 + (source.bytes.take place).count lineFeed
            column := 1 + line.length } := by
  intro place
  have hrow : (source.locate path node.start text before).line =
      1 + (source.bytes.take place).count lineFeed := by
    have hcount : (source.bytes.take place).count lineFeed =
        source.row node.start + (text.take before).count '\n' := by
      rw [take_of_textOf htext before, List.count_append, count_lineFeed_encode, row]
    rw [hcount]
    simp only [locate]
    push_cast
    omega
  obtain ⟨front, line, hlast, hcolumn⟩ := exists_lastLine_locate path htext before
  refine ⟨slice_of_place htext before, front, line, hlast, ?_⟩
  rw [← hrow, ← hcolumn]
  rfl

/-- A source with letters of two bytes in front of a declaration and on both of its lines. -/
def accentedSource : SourceText := .ofString "let é = 1; struct É\n\x7b var ü: T \x7d"

def accentedNode : Node where
  kind := "class_declaration"
  start := 12
  stop := 35

def accentedText : List Char := "struct É\n\x7b var ü: T \x7d".toList

theorem locate_textOf_accented :
    accentedSource.textOf accentedNode = .ok accentedText ∧ ∀ path before,
      let place := accentedNode.start + byteCount (accentedText.take before)
      accentedSource.slice place accentedNode.stop = Utf8.encode (accentedText.drop before) ∧
        ∃ front line, LastLine lineFeed (accentedSource.bytes.take place) front line ∧
          accentedSource.locate path accentedNode.start accentedText before =
            { path := some path
              line := 1 + (accentedSource.bytes.take place).count lineFeed
              column := 1 + line.length } := by
  have htext : accentedSource.textOf accentedNode = .ok accentedText := by decide +kernel
  exact ⟨htext, fun path before => locate_textOf path htext before⟩

/-- The name of the declaration stands on the first line, the type of its member on the second. -/
example :
    accentedSource.locate default 12 accentedText 7 =
        { path := some default, line := 1, column := 20 } ∧
      accentedSource.locate default 12 accentedText 18 =
        { path := some default, line := 2, column := 11 } := by
  decide +kernel

end SourceText

end FluentBuilder
