import FluentBuilder.TypeExpr.Basic

/-!
The text of a type, in one canonical layout: one space after a comma and a colon, none elsewhere
but around an arrow and before the effects of a function.
-/

namespace FluentBuilder.TypeExpr

/-- Whether an optional mark after the type would be read as part of it. -/
def needsParentheses : TypeExpr → Bool
  | .function .. => true
  | .verbatim text => text.toList.contains ' ' || text.toList.contains '&'
  | _ => false

/-- The text of an optional: its mark stands after the wrapped type. -/
def markText (wrapped : TypeExpr) (text : String) (mark : String) : String :=
  (if wrapped.needsParentheses then "(" ++ text ++ ")" else text) ++ mark

/-- The label of a tuple element, if it has one that is not empty. -/
def labelText : Option String → String
  | none => ""
  | some label => if label == "" then "" else label ++ ": "

mutual

def render : TypeExpr → String
  | .nominal name arguments =>
    if arguments.isEmpty then name else name ++ "<" ++ ", ".intercalate (renderAll arguments) ++ ">"
  | .optional wrapped => markText wrapped (render wrapped) "?"
  | .unwrapped wrapped => markText wrapped (render wrapped) "!"
  | .array element => "[" ++ render element ++ "]"
  | .dictionary key value => "[" ++ render key ++ ": " ++ render value ++ "]"
  | .tuple elements => "(" ++ ", ".intercalate (renderElements elements) ++ ")"
  | .function parameters result isAsync throws thrown =>
    "(" ++ ", ".intercalate (renderAll parameters) ++ ")" ++ (if isAsync then " async" else "") ++
      (if throws then " throws" ++ renderThrown thrown else "") ++ " -> " ++ render result
  | .verbatim text => text

def renderAll : List TypeExpr → List String
  | [] => []
  | type :: rest => render type :: renderAll rest

def renderElements : List (Option String × TypeExpr) → List String
  | [] => []
  | (label, type) :: rest => (labelText label ++ render type) :: renderElements rest

/-- The thrown type of a function, in parentheses. -/
def renderThrown : Option TypeExpr → String
  | none => ""
  | some type => "(" ++ render type ++ ")"

end

@[simp]
theorem render_name (name : String) : render (.nominal name []) = name := by simp [render]

theorem renderAll_eq_map (types : List TypeExpr) : renderAll types = types.map render := by
  induction types with
  | nil => rfl
  | cons type rest ih => simp [renderAll, ih]

theorem renderElements_eq_map (elements : List (Option String × TypeExpr)) :
    renderElements elements = elements.map fun e => labelText e.1 ++ render e.2 := by
  induction elements with
  | nil => rfl
  | cons e rest ih => simp [renderElements, ih]

end FluentBuilder.TypeExpr
