import FluentBuilder.Text.Class

/-!
Words: a letter or underscore of ASCII followed by word characters, with an optional backtick on
either side.
-/

namespace FluentBuilder.Text

/-- The backtick, which may stand around a word. -/
def tick : Char := '\x60'

/-- The text without its first character, if that is a backtick. -/
def dropTick : List Char → List Char
  | [] => []
  | c :: rest => if c == tick then rest else c :: rest

/-- The longest word at the start of the text, with its backticks, and what follows it. -/
def word? (text : List Char) : Option (List Char × List Char) :=
  match dropTick text with
  | [] => none
  | c :: rest =>
    if isWordStart c then
      let after := dropTick (rest.dropWhile isWord)
      some (text.take (text.length - after.length), after)
    else none

def unticked (word : List Char) : List Char := stripBoth tick word

theorem dropTick_length_le (text : List Char) : (dropTick text).length ≤ text.length := by
  cases text with
  | nil => simp [dropTick]
  | cons c rest => simp only [dropTick]; split <;> simp

theorem suffix_of_dropTick (text : List Char) : dropTick text <:+ text := by
  cases text with
  | nil => simp [dropTick]
  | cons c rest =>
    simp only [dropTick]
    split
    · exact List.suffix_cons c rest
    · exact List.suffix_rfl

theorem append_of_word? {text word rest : List Char} (h : word? text = some (word, rest)) :
    word ++ rest = text := by
  unfold word? at h
  split at h
  · simp at h
  · next c tail heq =>
    split at h
    · simp only [Option.some.injEq, Prod.mk.injEq] at h
      have hsuffix : dropTick (tail.dropWhile isWord) <:+ text :=
        (suffix_of_dropTick _).trans <| (List.dropWhile_suffix isWord).trans <|
          (heq ▸ List.suffix_cons c tail : tail <:+ dropTick text).trans (suffix_of_dropTick text)
      rw [← h.1, ← h.2]
      exact List.suffix_iff_eq_append.1 hsuffix
    · simp at h

theorem word?_length_lt {text word rest : List Char} (h : word? text = some (word, rest)) :
    rest.length < text.length := by
  unfold word? at h
  split at h
  · simp at h
  · next c tail heq =>
    split at h
    · simp only [Option.some.injEq, Prod.mk.injEq] at h
      have h1 := dropTick_length_le text
      have h2 := dropTick_length_le (tail.dropWhile isWord)
      have h3 := (List.dropWhile_suffix (l := tail) isWord).length_le
      rw [heq] at h1
      simp only [List.length_cons] at h1
      rw [← h.2]
      omega
    · simp at h

end FluentBuilder.Text
