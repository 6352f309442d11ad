import FluentBuilder.Text.Class
import Mathlib.Data.List.DropRight

/-!
# Blanks

Blanks are no word characters, and trimming takes them from both ends of a text and nothing else.
-/

namespace FluentBuilder.Text

variable {text blanks : List Char}

def blankNumbers : List Nat :=
  [9, 10, 11, 12, 13, 28, 29, 30, 31, 32, 0x85, 0xA0, 0x1680, 0x2000, 0x2001, 0x2002, 0x2003,
    0x2004, 0x2005, 0x2006, 0x2007, 0x2008, 0x2009, 0x200A, 0x2028, 0x2029, 0x202F, 0x205F, 0x3000]

theorem toNat_mem_blankNumbers {c : Char} (h : isBlank c = true) : c.toNat ∈ blankNumbers := by
  simp only [isBlank, Bool.or_eq_true, Bool.and_eq_true, decide_eq_true_eq, beq_iff_eq] at h
  simp only [blankNumbers, List.mem_cons, List.not_mem_nil, or_false]
  omega

theorem isWord_of_isBlank {c : Char} (h : isBlank c = true) : isWord c = false := by
  have hnone : blankNumbers.all (fun n => !isWord (Char.ofNat n)) = true := by decide +kernel
  have hc := List.all_eq_true.mp hnone _ (toNat_mem_blankNumbers h)
  simpa [Char.ofNat_toNat] using hc

theorem isBlank_of_isWord {c : Char} (h : isWord c = true) : isBlank c = false := by
  cases hblank : isBlank c with
  | false => rfl
  | true => simp [isWord_of_isBlank hblank] at h

theorem isBlank_of_mem_space : ∀ c ∈ [' '], isBlank c = true :=
  List.forall_mem_singleton.mpr (by decide)

theorem trimEnd_eq_rdropWhile (text : List Char) : trimEnd text = text.rdropWhile isBlank := by
  induction text with
  | nil => rfl
  | cons c rest ih =>
    have hcons : (c :: rest).rdropWhile isBlank =
        if rest.rdropWhile isBlank = [] then [c].rdropWhile isBlank
        else c :: rest.rdropWhile isBlank := by
      simp only [List.rdropWhile, List.reverse_cons, List.dropWhile_append, List.isEmpty_iff,
        List.reverse_eq_nil_iff, List.reverse_nil, List.nil_append]
      split <;> simp
    have hlast : [c].rdropWhile isBlank = if isBlank c then [] else [c] := by
      by_cases hc : isBlank c = true <;> simp [List.rdropWhile, hc]
    rw [hcons, hlast, trimEnd, ih]
    cases rest.rdropWhile isBlank with
    | nil => rfl
    | cons d kept => rw [if_neg (List.cons_ne_nil d kept)]

/-- A run of characters of one class ends where a character of another stands. -/
theorem span_append {p : Char → Bool} {run rest : List Char} (hrun : ∀ c ∈ run, p c = true)
    (hrest : ∀ c ∈ rest.head?, p c = false) :
    (run ++ rest).takeWhile p = run ∧ (run ++ rest).dropWhile p = rest := by
  rw [List.takeWhile_append_of_pos hrun, List.dropWhile_append_of_pos hrun]
  cases rest with
  | nil => simp
  | cons c rest => simp [hrest c rfl]

theorem exists_append_trimStart (text : List Char) :
    ∃ blanks, text = blanks ++ trimStart text ∧ ∀ c ∈ blanks, isBlank c = true :=
  ⟨text.takeWhile isBlank, List.takeWhile_append_dropWhile.symm,
    fun _ hc => List.mem_takeWhile_imp hc⟩

theorem trimStart_append (h : ∀ c ∈ blanks, isBlank c = true) (text : List Char) :
    trimStart (blanks ++ text) = trimStart text :=
  List.dropWhile_append_of_pos h

theorem trim_append_left (h : ∀ c ∈ blanks, isBlank c = true) (text : List Char) :
    trim (blanks ++ text) = trim text := by
  rw [trim, trimStart_append h, trim]

theorem trim_eq_nil_iff : trim text = [] ↔ ∀ c ∈ text, isBlank c = true := by
  rw [trim, trimEnd_eq_rdropWhile, List.rdropWhile_eq_nil_iff, trimStart]
  constructor
  · intro hrest c hc
    rw [← List.takeWhile_append_dropWhile (p := isBlank) (l := text)] at hc
    rcases List.mem_append.mp hc with hc | hc
    · exact List.mem_takeWhile_imp hc
    · exact hrest c hc
  · exact fun h c hc => h c ((List.dropWhile_sublist _).subset hc)

theorem isBlank_head_trimStart {c : Char} (h : (trimStart text).head? = some c) :
    isBlank c = false := by
  have hnot := List.head?_dropWhile_not isBlank text
  rw [show text.dropWhile isBlank = trimStart text from rfl, h] at hnot
  simpa using hnot

/-- A trimmed text starts with the first character that is no blank. -/
theorem head?_trim (text : List Char) : (trim text).head? = (trimStart text).head? := by
  rw [trim]
  cases hrest : trimStart text with
  | nil => rfl
  | cons c rest =>
    have hhead : (trimStart text).head? = some c := by rw [hrest, List.head?_cons]
    have hc : isBlank c = false := isBlank_head_trimStart hhead
    rw [trimEnd]
    cases trimEnd rest with
    | nil => simp [hc]
    | cons d kept => rfl

theorem trim_trim (text : List Char) : trim (trim text) = trim text := by
  have hstart : trimStart (trim text) = trim text := by
    cases htrim : trim text with
    | nil => rfl
    | cons c kept =>
      have hhead : (trimStart text).head? = some c := by
        rw [← head?_trim, htrim, List.head?_cons]
      have hc : isBlank c = false := isBlank_head_trimStart hhead
      simp [trimStart, hc]
  rw [trim, hstart]
  conv_rhs => rw [trim]
  rw [trim, trimEnd_eq_rdropWhile, trimEnd_eq_rdropWhile, List.rdropWhile_idempotent]

theorem trim_append_right (hfirst : ∀ c ∈ text.head?, isBlank c = false)
    (hlast : ∀ c ∈ text.getLast?, isBlank c = false) (h : ∀ c ∈ blanks, isBlank c = true) :
    trim (text ++ blanks) = text := by
  cases text with
  | nil => simpa [trim_eq_nil_iff] using h
  | cons c rest =>
    have hstart : trimStart (c :: rest ++ blanks) = c :: rest ++ blanks := by
      simp [trimStart, hfirst c rfl]
    rw [trim, hstart, trimEnd_eq_rdropWhile, List.rdropWhile, List.reverse_append,
      List.dropWhile_append_of_pos (by simpa using h)]
    obtain ⟨front, last, hsplit⟩ := List.eq_nil_or_concat' (c :: rest) |>.resolve_left (by simp)
    have hnot : isBlank last = false := hlast last (by rw [hsplit]; simp)
    rw [hsplit]
    simp [hnot]

end FluentBuilder.Text
