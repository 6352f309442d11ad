import FluentBuilder.TypeExpr.Printer
import FluentBuilder.TypeExpr.SyntaxError

/-!
Reading a type from its text. The grammar, with the attributes and `inout` in front of a tuple
element skipped:

* a type is one or more suffixed types joined by `&`, or such a row after `any` or `some`; the
  row and the constrained forms have no structure and keep their text;
* a suffixed type is a primary one followed by `?`, `!` and the metatype suffixes `.Type` and
  `.Protocol`, which again give a verbatim type;
* a primary type is a name, an array or dictionary in brackets, or a list in parentheses: one
  unlabelled element is that element, a list before an arrow gives the parameters of a function,
  any other list is a tuple.

Every function takes a bound on its depth first. Between two steps down that leave the input as
it is there is always one that takes a token, so a bound of a few times the number of tokens, as
`ofString` gives it, is never used up.
-/

namespace FluentBuilder.TypeExpr

open Text

/-! ### Single tokens -/

/-- The words that make a metatype of the type before them. -/
def isMetatypeSuffix (word : List Char) : Bool :=
  word == ['T', 'y', 'p', 'e'] || word == ['P', 'r', 'o', 't', 'o', 'c', 'o', 'l']

/-- The words in front of a constraint. -/
def isConstraintWord (word : List Char) : Bool :=
  word == ['a', 'n', 'y'] || word == ['s', 'o', 'm', 'e']

/-- The text of the lexemes that a reader took away from the input. -/
def textBetween (input rest : List Lexeme) : String :=
  String.ofList (Lexeme.textOf (input.take (input.length - rest.length)))

/-- The rest after a mark that has to come next. -/
def expect (mark : Mark) : List Lexeme → Except Fault (List Lexeme)
  | [] => .error .unexpectedEnd
  | ⟨_, token⟩ :: rest =>
    if token = .mark mark then .ok rest else .error (.expected (.mark mark) token)

/-- Whether the input starts with `any` or `some` in front of a constraint, and not with a type
of that name. -/
def startsConstraint : List Lexeme → Bool
  | ⟨_, .word w⟩ :: next :: _ =>
    isConstraintWord w &&
      match next.token with
      | .mark .comma | .mark .closeParen | .mark .greater | .mark .closeBracket
      | .mark .colon => false
      | _ => true
  | _ => false

/-! ### Suffixes, attributes and labels -/

/-- The type with the suffixes that follow it. A metatype is known by its text, which starts
where `input` does. -/
def readSuffixes (input : List Lexeme) (type : TypeExpr) : List Lexeme → TypeExpr × List Lexeme
  | ⟨_, .mark .question⟩ :: rest => readSuffixes input (.optional type) rest
  | ⟨_, .mark .exclamation⟩ :: rest => readSuffixes input (.unwrapped type) rest
  | ⟨gap, .mark .dot⟩ :: ⟨wordGap, .word w⟩ :: rest =>
    if isMetatypeSuffix w then readSuffixes input (.verbatim (textBetween input rest)) rest
    else (type, ⟨gap, .mark .dot⟩ :: ⟨wordGap, .word w⟩ :: rest)
  | rest => (type, rest)

/-- The input after its attributes and `inout`s. The arguments of an attribute stand in
parentheses right behind it; `depth` counts those that are still open. -/
def skipAttributes : (depth : Nat) → List Lexeme → Except Fault (List Lexeme)
  | 0, ⟨_, .attribute _⟩ :: ⟨[], .mark .openParen⟩ :: rest => skipAttributes 1 rest
  | 0, ⟨_, .attribute _⟩ :: rest => skipAttributes 0 rest
  | 0, ⟨gap, .word w⟩ :: rest =>
    if w = ['i', 'n', 'o', 'u', 't'] then skipAttributes 0 rest else .ok (⟨gap, .word w⟩ :: rest)
  | 0, rest => .ok rest
  | _ + 1, [] => .error .unexpectedEnd
  | depth + 1, ⟨_, .mark .openParen⟩ :: rest => skipAttributes (depth + 2) rest
  | depth + 1, ⟨_, .mark .closeParen⟩ :: rest => skipAttributes depth rest
  | depth + 1, _ :: rest => skipAttributes (depth + 1) rest

/-- The label of a tuple element, the second of two names if there are two, and what follows its
colon. -/
def readLabel : List Lexeme → Option String × List Lexeme
  | ⟨_, .word w⟩ :: ⟨_, .mark .colon⟩ :: rest => (some (String.ofList (unticked w)), rest)
  | ⟨_, .word _⟩ :: ⟨_, .word w⟩ :: ⟨_, .mark .colon⟩ :: rest =>
    (some (String.ofList (unticked w)), rest)
  | rest => (none, rest)

def ofElements : List (Option String × TypeExpr) → TypeExpr
  | [(none, type)] => type
  | elements => .tuple elements

/-- The effects of a function: whether it is asynchronous, whether it throws, and what. -/
structure Effects where
  isAsync : Bool := false
  throws : Bool := false
  thrown : Option TypeExpr := none

/-! ### The grammar -/

mutual

def readType : Nat → List Lexeme → Except Fault (TypeExpr × List Lexeme)
  | 0, _ => .error .unexpectedEnd
  | depth + 1, input =>
    if startsConstraint input then do
      let (_, rest) ← readSuffixed depth input.tail
      let rest ← readJoined depth rest
      return (.verbatim (textBetween input rest), rest)
    else do
      let (type, rest) ← readSuffixed depth input
      match rest with
      | ⟨_, .mark .ampersand⟩ :: _ => do
        let rest ← readJoined depth rest
        return (.verbatim (textBetween input rest), rest)
      | _ => return (type, rest)

/-- The suffixed types that are joined to the one before by `&`; only their end counts. -/
def readJoined : Nat → List Lexeme → Except Fault (List Lexeme)
  | 0, _ => .error .unexpectedEnd
  | depth + 1, ⟨_, .mark .ampersand⟩ :: rest => do
    let (_, rest) ← readSuffixed depth rest
    readJoined depth rest
  | _ + 1, rest => .ok rest

/-- A primary type with its suffixes. -/
def readSuffixed : Nat → List Lexeme → Except Fault (TypeExpr × List Lexeme)
  | 0, _ => .error .unexpectedEnd
  | depth + 1, input => do
    let (type, rest) ← readPrimary depth input
    return readSuffixes input type rest

/-- A name, a collection in brackets, or a list in parentheses. -/
def readPrimary : Nat → List Lexeme → Except Fault (TypeExpr × List Lexeme)
  | 0, _ => .error .unexpectedEnd
  | _ + 1, [] => .error (.unexpected none)
  | depth + 1, ⟨_, token⟩ :: rest =>
    match token with
    | .mark .openParen => readParenthesized depth rest
    | .mark .openBracket => readBracketed depth rest
    | .word w => readNominal depth (String.ofList (unticked w)) rest
    | other => .error (.unexpected (some other))

def readBracketed : Nat → List Lexeme → Except Fault (TypeExpr × List Lexeme)
  | 0, _ => .error .unexpectedEnd
  | depth + 1, input => do
    let (key, rest) ← readType depth input
    match rest with
    | ⟨_, .mark .colon⟩ :: rest => do
      let (value, rest) ← readType depth rest
      let rest ← expect .closeBracket rest
      return (.dictionary key value, rest)
    | rest => do
      let rest ← expect .closeBracket rest
      return (.array key, rest)

/-- A name whose segments so far are `name`: its generic arguments and further segments. The
arguments of an inner segment stay in the name, as text. -/
def readNominal : Nat → String → List Lexeme → Except Fault (TypeExpr × List Lexeme)
  | 0, _, _ => .error .unexpectedEnd
  | depth + 1, name, input => do
    let (arguments, rest) ← readArguments depth input
    match rest with
    | ⟨gap, .mark .dot⟩ :: ⟨wordGap, .word w⟩ :: rest =>
      if isMetatypeSuffix w then
        return (.nominal name arguments, ⟨gap, .mark .dot⟩ :: ⟨wordGap, .word w⟩ :: rest)
      else
        readNominal depth
          (render (.nominal name arguments) ++ "." ++ String.ofList (unticked w)) rest
    | rest => return (.nominal name arguments, rest)

/-- Generic arguments between angle brackets, or none. -/
def readArguments : Nat → List Lexeme → Except Fault (List TypeExpr × List Lexeme)
  | 0, _ => .error .unexpectedEnd
  | depth + 1, ⟨_, .mark .less⟩ :: rest => do
    let (arguments, rest) ← readTypes depth rest
    let rest ← expect .greater rest
    return (arguments, rest)
  | _ + 1, rest => .ok ([], rest)

def readTypes : Nat → List Lexeme → Except Fault (List TypeExpr × List Lexeme)
  | 0, _ => .error .unexpectedEnd
  | depth + 1, input => do
    let (type, rest) ← readType depth input
    match rest with
    | ⟨_, .mark .comma⟩ :: rest => do
      let (types, rest) ← readTypes depth rest
      return (type :: types, rest)
    | rest => return ([type], rest)

def readParenthesized : Nat → List Lexeme → Except Fault (TypeExpr × List Lexeme)
  | 0, _ => .error .unexpectedEnd
  | depth + 1, input => do
    let (elements, rest) ←
      match input with
      | ⟨_, .mark .closeParen⟩ :: _ => .ok ([], input)
      | _ => readElements depth input
    let rest ← expect .closeParen rest
    let (effects, rest) ← readEffects depth {} rest
    match rest with
    | ⟨_, .arrow⟩ :: rest => do
      let (result, rest) ← readType depth rest
      return (.function (elements.map (·.2)) result effects.isAsync effects.throws effects.thrown,
        rest)
    | rest =>
      if effects.isAsync || effects.throws then .error .effectsWithoutResult
      else return (ofElements elements, rest)

/-- The effects of a function, after those in `effects`. -/
def readEffects : Nat → Effects → List Lexeme → Except Fault (Effects × List Lexeme)
  | 0, _, _ => .error .unexpectedEnd
  | depth + 1, effects, ⟨gap, .word w⟩ :: rest =>
    if w == ['a', 's', 'y', 'n', 'c'] then readEffects depth { effects with isAsync := true } rest
    else if w == ['r', 'e', 't', 'h', 'r', 'o', 'w', 's'] then
      readEffects depth { effects with throws := true } rest
    else if w == ['t', 'h', 'r', 'o', 'w', 's'] then
      match rest with
      | ⟨_, .mark .openParen⟩ :: rest => do
        let (thrown, rest) ← readType depth rest
        let rest ← expect .closeParen rest
        readEffects depth { effects with throws := true, thrown := some thrown } rest
      | rest => readEffects depth { effects with throws := true } rest
    else .ok (effects, ⟨gap, .word w⟩ :: rest)
  | _ + 1, effects, rest => .ok (effects, rest)

def readElements :
    Nat → List Lexeme → Except Fault (List (Option String × TypeExpr) × List Lexeme)
  | 0, _ => .error .unexpectedEnd
  | depth + 1, input => do
    let (element, rest) ← readElement depth input
    match rest with
    | ⟨_, .mark .comma⟩ :: rest => do
      let (elements, rest) ← readElements depth rest
      return (element :: elements, rest)
    | rest => return ([element], rest)

/-- A tuple element: attributes, a label, attributes again, and a type, which three dots make an
array. -/
def readElement : Nat → List Lexeme → Except Fault ((Option String × TypeExpr) × List Lexeme)
  | 0, _ => .error .unexpectedEnd
  | depth + 1, input => do
    let rest ← skipAttributes 0 input
    let (label, rest) := readLabel rest
    let rest ← skipAttributes 0 rest
    let (type, rest) ← readType depth rest
    match rest with
    | ⟨_, .ellipsis⟩ :: rest => return ((label, .array type), rest)
    | rest => return ((label, type), rest)

end

/-! ### Whole texts -/

/-- The type that the lexemes of a whole text form. -/
def ofLexemes (input : List Lexeme) : Except Fault TypeExpr :=
  match input with
  | [] => .error .blank
  | _ :: _ => do
    let (type, rest) ← readType (8 * input.length + 8) input
    match rest with
    | [] => return type
    | next :: _ => .error (.unexpected (some next.token))

/-- The type that a text is the annotation of. -/
def ofString (text : String) : Except SyntaxError TypeExpr :=
  match Lexeme.ofChars text.toList with
  | .error bad => .error ⟨text, .unexpectedCharacter bad⟩
  | .ok input => (ofLexemes input).mapError fun fault => ⟨text, fault⟩

end FluentBuilder.TypeExpr
