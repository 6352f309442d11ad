/-!
Lines of a text. A line ends at a line feed, a carriage return, both in this order, or at one of
the other line boundaries; the last line needs none.
-/

namespace FluentBuilder.Text

/-- The characters that end a line: line feed, vertical tab, form feed, carriage return, the
three ASCII separators of file, group and record, next line, and the two separators of lines and
paragraphs. -/
def isLineEnd (c : Char) : Bool :=
  let n := c.toNat
  (10 ≤ n && n ≤ 13) || (28 ≤ n && n ≤ 30) || n == 0x85 || n == 0x2028 || n == 0x2029

/-- The lines after the part `line`, given in reverse, of the current one. -/
def linesFrom (line : List Char) : List Char → List (List Char)
  | [] => if line.isEmpty then [] else [line.reverse]
  | '\r' :: '\n' :: rest => line.reverse :: linesFrom [] rest
  | c :: rest =>
    if isLineEnd c then line.reverse :: linesFrom [] rest else linesFrom (c :: line) rest

/-- The lines of a text, without their ends. -/
def lines (text : List Char) : List (List Char) := linesFrom [] text

/-- Every line of the text that is not empty moved to the right by `pad`, and all lines joined
by line feeds. -/
def indent (pad text : String) : String :=
  String.ofList <| List.intercalate ['\n'] <|
    (lines text.toList).map fun line => if line.isEmpty then line else pad.toList ++ line

end FluentBuilder.Text
