import FluentBuilder.Text.Word

/-!
Tokens of a type annotation. A lexeme is a token with the blanks in front of it, so that the
lexemes of a text hold all of it but the blanks at its end.
-/

namespace FluentBuilder.TypeExpr

open Text

/-- A punctuation mark of one character. -/
inductive Mark where
  | less
  | greater
  | openBracket
  | closeBracket
  | openParen
  | closeParen
  | comma
  | colon
  | question
  | exclamation
  | dot
  | ampersand
deriving Repr, DecidableEq, Inhabited

namespace Mark

def char : Mark → Char
  | .less => '<'
  | .greater => '>'
  | .openBracket => '['
  | .closeBracket => ']'
  | .openParen => '('
  | .closeParen => ')'
  | .comma => ','
  | .colon => ':'
  | .question => '?'
  | .exclamation => '!'
  | .dot => '.'
  | .ampersand => '&'

def all : List Mark :=
  [.less, .greater, .openBracket, .closeBracket, .openParen, .closeParen, .comma, .colon,
    .question, .exclamation, .dot, .ampersand]

def ofChar? (c : Char) : Option Mark := all.find? fun m => m.char == c

theorem ofChar?_char (m : Mark) : ofChar? m.char = some m := by cases m <;> rfl

end Mark

/-- A token: an arrow, three dots, an attribute with its `@`, a word with its backticks, or a
mark. -/
inductive Token where
  | arrow
  | ellipsis
  | attribute (text : List Char)
  | word (text : List Char)
  | mark (mark : Mark)
deriving Repr, DecidableEq, Inhabited

namespace Token

def chars : Token → List Char
  | .arrow => ['-', '>']
  | .ellipsis => ['.', '.', '.']
  | .attribute text => text
  | .word text => text
  | .mark m => [m.char]

/-- The token at the start of a text, and what follows it. -/
def first? : List Char → Option (Token × List Char)
  | '-' :: '>' :: rest => some (.arrow, rest)
  | '.' :: '.' :: '.' :: rest => some (.ellipsis, rest)
  | '@' :: c :: rest =>
    if isWordStart c then
      some (.attribute ('@' :: c :: rest.takeWhile isWord), rest.dropWhile isWord)
    else none
  | text =>
    match word? text with
    | some (found, rest) => some (.word found, rest)
    | none =>
      match text with
      | [] => none
      | c :: rest => (Mark.ofChar? c).map fun m => (.mark m, rest)

theorem append_of_first? {text rest : List Char} {token : Token}
    (h : first? text = some (token, rest)) : token.chars ++ rest = text := by
  unfold first? at h
  split at h
  · simp only [Option.some.injEq, Prod.mk.injEq] at h
    simp [← h.1, ← h.2, chars]
  · simp only [Option.some.injEq, Prod.mk.injEq] at h
    simp [← h.1, ← h.2, chars]
  · split at h
    · simp only [Option.some.injEq, Prod.mk.injEq] at h
      simp [← h.1, ← h.2, chars, List.takeWhile_append_dropWhile]
    · simp at h
  · split at h
    · next hword =>
      simp only [Option.some.injEq, Prod.mk.injEq] at h
      simpa [← h.1, ← h.2, chars] using append_of_word? hword
    · split at h
      · simp at h
      · next c tail =>
        simp only [Option.map_eq_some_iff, Prod.mk.injEq] at h
        obtain ⟨m, hm, rfl, rfl⟩ := h
        have := List.find?_some hm
        simp only [beq_iff_eq] at this
        simp [chars, this]

theorem first?_length_lt {text rest : List Char} {token : Token}
    (h : first? text = some (token, rest)) : rest.length < text.length := by
  unfold first? at h
  split at h
  · simp only [Option.some.injEq, Prod.mk.injEq] at h
    simp only [← h.2, List.length_cons]
    omega
  · simp only [Option.some.injEq, Prod.mk.injEq] at h
    simp only [← h.2, List.length_cons]
    omega
  · next c tail =>
    have hle := (List.dropWhile_suffix (l := tail) isWord).length_le
    split at h
    · simp only [Option.some.injEq, Prod.mk.injEq] at h
      rw [← h.2]
      simp only [List.length_cons]
      omega
    · simp at h
  · split at h
    · next hword =>
      simp only [Option.some.injEq, Prod.mk.injEq] at h
      exact h.2 ▸ word?_length_lt hword
    · split at h
      · simp at h
      · simp only [Option.map_eq_some_iff, Prod.mk.injEq] at h
        obtain ⟨_, _, _, rfl⟩ := h
        simp

end Token

/-! ### Lexemes -/

/-- A token with the blanks in front of it. -/
structure Lexeme where
  gap : List Char
  token : Token
deriving Repr, DecidableEq, Inhabited

namespace Lexeme

/-- The characters of a lexeme: its gap and its token. -/
def chars (lexeme : Lexeme) : List Char := lexeme.gap ++ lexeme.token.chars

/-- The text of some lexemes in a row, without the gap in front of the first. -/
def textOf : List Lexeme → List Char
  | [] => []
  | first :: rest => first.token.chars ++ rest.flatMap chars

/-- The spans of the tokens of lexemes in a row that starts at the given offset. -/
def spansFrom (offset : Nat) : List Lexeme → List (Nat × Nat)
  | [] => []
  | lexeme :: rest =>
    let start := offset + lexeme.gap.length
    let stop := start + lexeme.token.chars.length
    (start, stop) :: spansFrom stop rest

/-- The lexemes of a text, or the character at which none starts. The blanks in front count for
the lexeme, so it is the first of them that is reported. -/
def ofChars (text : List Char) : Except Char (List Lexeme) :=
  match _hblank : text.dropWhile isBlank with
  | [] => .ok []
  | c :: tail =>
    match _hfirst : Token.first? (c :: tail) with
    | none => .error (text.headD c)
    | some (token, rest) =>
      match ofChars rest with
      | .error bad => .error bad
      | .ok more => .ok (⟨text.takeWhile isBlank, token⟩ :: more)
termination_by text.length
decreasing_by
  have hlt := Token.first?_length_lt _hfirst
  have hle := (List.dropWhile_suffix (l := text) isBlank).length_le
  rw [_hblank] at hle
  omega

end Lexeme

end FluentBuilder.TypeExpr
