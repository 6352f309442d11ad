/-!
The pieces of a text between the commas that stand in no brackets and in no string. All four
kinds of brackets count alike, and the arrow `->` is no closing bracket.
-/

namespace FluentBuilder.Syntax

def isOpening (c : Char) : Bool := c == '(' || c == '[' || c == '\x7b' || c == '<'

def isClosing (c : Char) : Bool := c == ')' || c == ']' || c == '\x7d' || c == '>'

/-- The pieces with some characters put in front of the first. -/
def prepend (chars : List Char) : List (List Char) → List (List Char)
  | [] => [chars]
  | piece :: others => (chars ++ piece) :: others

/-- The pieces of a text with `depth` brackets open in front of it. -/
def piecesFrom : (depth : Int) → (inString : Bool) → List Char → List (List Char)
  | _, _, [] => [[]]
  | depth, true, '\\' :: c :: rest => prepend ['\\', c] (piecesFrom depth true rest)
  | depth, true, c :: rest => prepend [c] (piecesFrom depth (c != '"') rest)
  | depth, false, '-' :: '>' :: rest => prepend ['-', '>'] (piecesFrom depth false rest)
  | depth, false, c :: rest =>
    if c == '"' then prepend [c] (piecesFrom depth true rest)
    else if isOpening c then prepend [c] (piecesFrom (depth + 1) false rest)
    else if isClosing c then prepend [c] (piecesFrom (depth - 1) false rest)
    else if c == ',' && depth == 0 then [] :: piecesFrom depth false rest
    else prepend [c] (piecesFrom depth false rest)

/-- The pieces of a text; there is always at least one. -/
def pieces (text : List Char) : List (List Char) := piecesFrom 0 false text

theorem intercalate_prepend (chars : List Char) {pieces : List (List Char)} (h : pieces ≠ []) :
    List.intercalate [','] (prepend chars pieces) = chars ++ List.intercalate [','] pieces := by
  match pieces with
  | [piece] => simp [prepend, List.intercalate]
  | piece :: second :: others => simp [prepend, List.intercalate]

theorem intercalate_nil_cons {pieces : List (List Char)} (h : pieces ≠ []) :
    List.intercalate [','] ([] :: pieces) = ',' :: List.intercalate [','] pieces := by
  match pieces with
  | piece :: others => simp [List.intercalate]

theorem piecesFrom_ne_nil (depth : Int) (inString : Bool) (text : List Char) :
    piecesFrom depth inString text ≠ [] := by
  have hprepend (chars : List Char) (pieces : List (List Char)) : prepend chars pieces ≠ [] := by
    cases pieces <;> simp [prepend]
  fun_cases piecesFrom depth inString text <;> simp [hprepend]

/-- The pieces with commas between them make up the text. -/
theorem intercalate_piecesFrom (depth : Int) (inString : Bool) (text : List Char) :
    List.intercalate [','] (piecesFrom depth inString text) = text := by
  fun_induction piecesFrom depth inString text <;>
    simp_all [intercalate_prepend, intercalate_nil_cons, piecesFrom_ne_nil]

end FluentBuilder.Syntax
