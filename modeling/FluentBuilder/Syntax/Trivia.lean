import FluentBuilder.Text.Class

/-!
Trivia: blanks, line comments, which end behind their line feed, and block comments, which end at
the first closing mark. A comment that is not closed runs to the end of the text.
-/

namespace FluentBuilder.Syntax

open Text

/-- What a place in a text lies in. -/
inductive Within where
  | code
  | lineComment
  | blockComment
  /-- A mark of two characters, between the first and the second. -/
  | mark (behind : Within)
deriving Repr, DecidableEq

/-- The text from its first character that is no trivia. -/
def skipFrom : Within → List Char → List Char
  | _, [] => []
  | .mark behind, _ :: rest => skipFrom behind rest
  | .lineComment, c :: rest => skipFrom (if c == '\n' then .code else .lineComment) rest
  | .blockComment, c :: rest =>
    skipFrom (if c == '*' && rest.head? == some '/' then .mark .code else .blockComment) rest
  | .code, c :: rest =>
    if c == '/' && rest.head? == some '/' then skipFrom (.mark .lineComment) rest
    else if c == '/' && rest.head? == some '*' then skipFrom (.mark .blockComment) rest
    else if isBlank c then skipFrom .code rest
    else c :: rest

/-- The text without the trivia it starts with. -/
def skipTrivia (text : List Char) : List Char := skipFrom .code text

theorem skipFrom_length_le (within : Within) (text : List Char) :
    (skipFrom within text).length ≤ text.length := by
  fun_induction skipFrom within text <;> simp only [List.length_cons, List.length_nil] at * <;>
    omega

theorem skipTrivia_length_le (text : List Char) : (skipTrivia text).length ≤ text.length :=
  skipFrom_length_le .code text

/-- What skipping leaves starts with no trivia. -/
theorem skipTrivia_skipFrom (within : Within) (text : List Char) :
    skipTrivia (skipFrom within text) = skipFrom within text := by
  unfold skipTrivia
  fun_induction skipFrom within text with
  | case1 => rfl
  | case8 c rest hline hblock hblank => simp [skipFrom, hline, hblock, hblank]
  | case2 | case3 | case4 | case5 | case6 | case7 => assumption

theorem skipTrivia_skipTrivia (text : List Char) : skipTrivia (skipTrivia text) = skipTrivia text :=
  skipTrivia_skipFrom .code text

end FluentBuilder.Syntax
