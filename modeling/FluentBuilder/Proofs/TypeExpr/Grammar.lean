import FluentBuilder.Proofs.TypeExpr.Lexing
import FluentBuilder.TypeExpr.Reader

/-!
# What the type reader reads

`Reads p input rest`: the phrase `p` is what the reader makes of the start of `input`, and `rest`
is what it leaves. The rules are those of the grammar, with the tests that end a repetition where
they stand in the reader; there is no bound on the depth in them.

Every phrase leaves an end of its input (`Reads.suffix`), and those that have a token of their own
leave a shorter one (`Reads.length_le`).
-/

namespace FluentBuilder.TypeExpr

open Text Lexeme

/-! ### Phrases -/

/-- What the reader looks at behind a phrase: the next token, and behind a dot the one after it. -/
def lookahead : List Lexeme → List Token
  | [] => []
  | [x] => [x.token]
  | x :: y :: _ => if x.token = .mark .dot then [x.token, y.token] else [x.token]

def isSuffix : List Token → Bool
  | [.mark .question] | [.mark .exclamation] => true
  | [.mark .dot, .word w] => isMetatypeSuffix w
  | _ => false

def isMember : List Token → Bool
  | [.mark .dot, .word w] => !isMetatypeSuffix w
  | _ => false

def effectWords : List (List Char) :=
  [['a', 's', 'y', 'n', 'c'], ['r', 'e', 't', 'h', 'r', 'o', 'w', 's'],
    ['t', 'h', 'r', 'o', 'w', 's']]

def isEffect : List Token → Bool
  | [.word w] => effectWords.contains w
  | _ => false

/-- The suffixes of the type `bare`, whose text is given, make it the type `t`. -/
inductive Suffixes :
    (text : List Char) → (bare t : TypeExpr) → (input rest : List Lexeme) → Prop where
  | question {text bare t g input rest} :
    Suffixes (text ++ chars ⟨g, .mark .question⟩) (.optional bare) t input rest →
    Suffixes text bare t (⟨g, .mark .question⟩ :: input) rest
  | exclamation {text bare t g input rest} :
    Suffixes (text ++ chars ⟨g, .mark .exclamation⟩) (.unwrapped bare) t input rest →
    Suffixes text bare t (⟨g, .mark .exclamation⟩ :: input) rest
  | metatype {text text' bare t g g' w input rest} :
    isMetatypeSuffix w = true → text' = text ++ chars ⟨g, .mark .dot⟩ ++ chars ⟨g', .word w⟩ →
    Suffixes text' (.verbatim (String.ofList text')) t input rest →
    Suffixes text bare t (⟨g, .mark .dot⟩ :: ⟨g', .word w⟩ :: input) rest
  | done {text bare rest} :
    isSuffix (lookahead rest) = false → Suffixes text bare bare rest rest

/-- What a part of the reader gives for the lexemes that it takes. -/
inductive Phrase where
  | type (t : TypeExpr)
  | joined
  | suffixed (t : TypeExpr)
  | primary (t : TypeExpr)
  /-- The part after an opening bracket, up to and with the closing one. -/
  | bracketed (t : TypeExpr)
  /-- The part after the segments `name`. -/
  | nominal (name : String) (t : TypeExpr)
  | arguments (ts : List TypeExpr)
  /-- The part after an opening angle bracket, up to and with the closing one. -/
  | types (ts : List TypeExpr)
  /-- The part after an opening parenthesis. -/
  | parenthesized (t : TypeExpr)
  /-- The part after an opening parenthesis, up to and with the closing one. -/
  | list (es : List (Option String × TypeExpr))
  /-- The same, when there is at least one element. -/
  | elements (es : List (Option String × TypeExpr))
  | element (e : Option String × TypeExpr)
  | effects (before after : Effects)

/-- The phrase is read from the start of the input, and the rest is left. -/
inductive Reads : Phrase → List Lexeme → List Lexeme → Prop where
  | constraint {t front x input mid rest} :
    startsConstraint (x :: input) = true → Reads (.suffixed t) input mid →
    Reads .joined mid rest → x :: input = front ++ rest →
    Reads (.type (.verbatim (String.ofList (textOf front)))) (x :: input) rest
  | join {t front g input mid rest} :
    startsConstraint input = false → Reads (.suffixed t) input (⟨g, .mark .ampersand⟩ :: mid) →
    Reads .joined (⟨g, .mark .ampersand⟩ :: mid) rest → input = front ++ rest →
    Reads (.type (.verbatim (String.ofList (textOf front)))) input rest
  | single {t input rest} :
    startsConstraint input = false → Reads (.suffixed t) input rest →
    lookahead rest ≠ [.mark .ampersand] → Reads (.type t) input rest
  | joinedMore {t g input mid rest} :
    Reads (.suffixed t) input mid → Reads .joined mid rest →
    Reads .joined (⟨g, .mark .ampersand⟩ :: input) rest
  | joinedDone {rest} :
    lookahead rest ≠ [.mark .ampersand] → Reads .joined rest rest
  | suffixed {bare t front input mid rest} :
    Reads (.primary bare) input mid → input = front ++ mid →
    Suffixes (textOf front) bare t mid rest → Reads (.suffixed t) input rest
  | parenthesized {t g input rest} :
    Reads (.parenthesized t) input rest → Reads (.primary t) (⟨g, .mark .openParen⟩ :: input) rest
  | bracketed {t g input rest} :
    Reads (.bracketed t) input rest → Reads (.primary t) (⟨g, .mark .openBracket⟩ :: input) rest
  | nominal {t g w input rest} :
    Reads (.nominal (String.ofList (unticked w)) t) input rest →
    Reads (.primary t) (⟨g, .word w⟩ :: input) rest
  | dictionary {key value g g' input mid rest} :
    Reads (.type key) input (⟨g, .mark .colon⟩ :: mid) →
    Reads (.type value) mid (⟨g', .mark .closeBracket⟩ :: rest) →
    Reads (.bracketed (.dictionary key value)) input rest
  | array {t g input rest} :
    Reads (.type t) input (⟨g, .mark .closeBracket⟩ :: rest) →
    Reads (.bracketed (.array t)) input rest
  | member {name ts t g g' w input mid rest} :
    Reads (.arguments ts) input (⟨g, .mark .dot⟩ :: ⟨g', .word w⟩ :: mid) →
    isMetatypeSuffix w = false →
    Reads (.nominal (render (.nominal name ts) ++ "." ++ String.ofList (unticked w)) t) mid rest →
    Reads (.nominal name t) input rest
  | nominalDone {name ts input rest} :
    Reads (.arguments ts) input rest → isMember (lookahead rest) = false →
    Reads (.nominal name (.nominal name ts)) input rest
  | arguments {ts g input rest} :
    Reads (.types ts) input rest → Reads (.arguments ts) (⟨g, .mark .less⟩ :: input) rest
  | argumentsNone {rest} :
    lookahead rest ≠ [.mark .less] → Reads (.arguments []) rest rest
  | typesMore {t ts g input mid rest} :
    Reads (.type t) input (⟨g, .mark .comma⟩ :: mid) → Reads (.types ts) mid rest →
    Reads (.types (t :: ts)) input rest
  | typesLast {t g input rest} :
    Reads (.type t) input (⟨g, .mark .greater⟩ :: rest) → Reads (.types [t]) input rest
  | function {es effects t g input mid mid' rest} :
    Reads (.list es) input mid → Reads (.effects {} effects) mid (⟨g, .arrow⟩ :: mid') →
    Reads (.type t) mid' rest →
    Reads (.parenthesized (.function (es.map (·.2)) t effects.isAsync effects.throws
      effects.thrown)) input rest
  | tuple {es input rest} :
    Reads (.list es) input rest → isEffect (lookahead rest) = false →
    lookahead rest ≠ [.arrow] → Reads (.parenthesized (ofElements es)) input rest
  | listNil {g rest} : Reads (.list []) (⟨g, .mark .closeParen⟩ :: rest) rest
  | list {es input rest} :
    lookahead input ≠ [.mark .closeParen] → Reads (.elements es) input rest →
    Reads (.list es) input rest
  | elementsMore {e es g input mid rest} :
    Reads (.element e) input (⟨g, .mark .comma⟩ :: mid) → Reads (.elements es) mid rest →
    Reads (.elements (e :: es)) input rest
  | elementsLast {e g input rest} :
    Reads (.element e) input (⟨g, .mark .closeParen⟩ :: rest) → Reads (.elements [e]) input rest
  | variadic {label t g input a b c rest} :
    skipAttributes 0 input = .ok a → readLabel a = (label, b) → skipAttributes 0 b = .ok c →
    Reads (.type t) c (⟨g, .ellipsis⟩ :: rest) → Reads (.element (label, .array t)) input rest
  | element {label t input a b c rest} :
    skipAttributes 0 input = .ok a → readLabel a = (label, b) → skipAttributes 0 b = .ok c →
    Reads (.type t) c rest → lookahead rest ≠ [.ellipsis] → Reads (.element (label, t)) input rest
  | async {before after g input rest} :
    Reads (.effects { before with isAsync := true } after) input rest →
    Reads (.effects before after) (⟨g, .word ['a', 's', 'y', 'n', 'c']⟩ :: input) rest
  | rethrows {before after g input rest} :
    Reads (.effects { before with throws := true } after) input rest →
    Reads (.effects before after) (⟨g, .word ['r', 'e', 't', 'h', 'r', 'o', 'w', 's']⟩ :: input)
      rest
  | throws {before after g input rest} :
    lookahead input ≠ [.mark .openParen] →
    Reads (.effects { before with throws := true } after) input rest →
    Reads (.effects before after) (⟨g, .word ['t', 'h', 'r', 'o', 'w', 's']⟩ :: input) rest
  | throwsType {before after t g g' g'' input mid rest} :
    Reads (.type t) input (⟨g'', .mark .closeParen⟩ :: mid) →
    Reads (.effects { before with throws := true, thrown := some t } after) mid rest →
    Reads (.effects before after)
      (⟨g, .word ['t', 'h', 'r', 'o', 'w', 's']⟩ :: ⟨g', .mark .openParen⟩ :: input) rest
  | effectsDone {effects rest} :
    isEffect (lookahead rest) = false → Reads (.effects effects effects) rest rest

/-! ### Single tokens -/

@[simp]
theorem lookahead_nil : lookahead [] = [] := rfl

theorem lookahead_cons {g : List Char} {token : Token} {rest : List Lexeme}
    (h : token ≠ .mark .dot) : lookahead (⟨g, token⟩ :: rest) = [token] := by
  rcases rest with _ | ⟨y, rest⟩
  · rfl
  · simp [lookahead, h]

theorem lookahead_dot {g : List Char} {y : Lexeme} {rest : List Lexeme} :
    lookahead (⟨g, .mark .dot⟩ :: y :: rest) = [.mark .dot, y.token] := by
  simp [lookahead]

theorem lookahead_eq_singleton {token : Token} {rest : List Lexeme} (h : token ≠ .mark .dot) :
    lookahead rest = [token] ↔ ∃ g rest', rest = ⟨g, token⟩ :: rest' := by
  constructor
  · intro hrest
    rcases rest with _ | ⟨⟨g, t⟩, rest⟩
    · simp at hrest
    · refine ⟨g, rest, ?_⟩
      by_cases ht : t = .mark .dot
      · subst ht
        rcases rest with _ | ⟨y, rest⟩
        · simp [lookahead, Ne.symm h] at hrest
        · simp [lookahead_dot] at hrest
      · rw [lookahead_cons ht] at hrest
        rw [List.singleton_inj.1 hrest]
  · rintro ⟨g, rest, rfl⟩
    exact lookahead_cons h

theorem lookahead_eq_pair {token : Token} {rest : List Lexeme} :
    lookahead rest = [.mark .dot, token] ↔
      ∃ g g' rest', rest = ⟨g, .mark .dot⟩ :: ⟨g', token⟩ :: rest' := by
  constructor
  · intro hrest
    rcases rest with _ | ⟨⟨g, t⟩, _ | ⟨⟨g', t'⟩, rest⟩⟩
    · simp at hrest
    · simp [lookahead] at hrest
    · by_cases ht : t = .mark .dot
      · subst ht
        refine ⟨g, g', rest, ?_⟩
        rw [lookahead_dot] at hrest
        simp only [List.cons.injEq, and_true, true_and] at hrest
        rw [hrest]
      · simp [lookahead_cons ht] at hrest
  · rintro ⟨g, g', rest, rfl⟩
    exact lookahead_dot

theorem isSuffix_eq_true {rest : List Lexeme} :
    isSuffix (lookahead rest) = true ↔
      (∃ g rest', rest = ⟨g, .mark .question⟩ :: rest') ∨
      (∃ g rest', rest = ⟨g, .mark .exclamation⟩ :: rest') ∨
      ∃ g g' w rest', rest = ⟨g, .mark .dot⟩ :: ⟨g', .word w⟩ :: rest' ∧
        isMetatypeSuffix w = true := by
  constructor
  · intro h
    unfold isSuffix at h
    split at h
    · next hrest => exact .inl ((lookahead_eq_singleton (by simp)).1 hrest)
    · next hrest => exact .inr (.inl ((lookahead_eq_singleton (by simp)).1 hrest))
    · next w hrest =>
      obtain ⟨g, g', rest', rfl⟩ := lookahead_eq_pair.1 hrest
      exact .inr (.inr ⟨g, g', w, rest', rfl, h⟩)
    · simp at h
  · rintro (⟨g, rest, rfl⟩ | ⟨g, rest, rfl⟩ | ⟨g, g', w, rest, rfl, hw⟩)
    · simp [lookahead_cons, isSuffix]
    · simp [lookahead_cons, isSuffix]
    · simpa [lookahead_dot, isSuffix] using hw

theorem isMember_eq_true {rest : List Lexeme} :
    isMember (lookahead rest) = true ↔
      ∃ g g' w rest', rest = ⟨g, .mark .dot⟩ :: ⟨g', .word w⟩ :: rest' ∧
        isMetatypeSuffix w = false := by
  constructor
  · intro h
    unfold isMember at h
    split at h
    · next w hrest =>
      obtain ⟨g, g', rest', rfl⟩ := lookahead_eq_pair.1 hrest
      exact ⟨g, g', w, rest', rfl, by simpa using h⟩
    · simp at h
  · rintro ⟨g, g', w, rest, rfl, hw⟩
    simpa [lookahead_dot, isMember] using hw

theorem isEffect_eq_true {rest : List Lexeme} :
    isEffect (lookahead rest) = true ↔
      ∃ g w rest', rest = ⟨g, .word w⟩ :: rest' ∧ w ∈ effectWords := by
  constructor
  · intro h
    unfold isEffect at h
    split at h
    · next w hrest =>
      obtain ⟨g, rest', rfl⟩ := (lookahead_eq_singleton (by simp)).1 hrest
      exact ⟨g, w, rest', rfl, by simpa using h⟩
    · simp at h
  · rintro ⟨g, w, rest, rfl, hw⟩
    rw [lookahead_cons (by simp)]
    simpa [isEffect] using hw

/-! ### What is left is shorter -/

theorem skipAttributes_suffix {depth : Nat} {input rest : List Lexeme}
    (h : skipAttributes depth input = .ok rest) : rest <:+ input := by
  fun_induction skipAttributes depth input with
  | case1 _ _ _ ih => exact (ih h).trans ((List.suffix_cons _ _).trans (List.suffix_cons _ _))
  | case2 _ _ _ _ ih => exact (ih h).trans (List.suffix_cons _ _)
  | case3 _ _ ih => exact (ih h).trans (List.suffix_cons _ _)
  | case4 => exact Except.ok.inj h ▸ List.suffix_rfl
  | case5 => exact Except.ok.inj h ▸ List.suffix_rfl
  | case6 => simp at h
  | case7 _ _ _ ih => exact (ih h).trans (List.suffix_cons _ _)
  | case8 _ _ _ ih => exact (ih h).trans (List.suffix_cons _ _)
  | case9 _ _ _ _ _ ih => exact (ih h).trans (List.suffix_cons _ _)

theorem readLabel_suffix (input : List Lexeme) : (readLabel input).2 <:+ input := by
  fun_cases readLabel input with
  | case1 => exact (List.suffix_cons _ _).trans (List.suffix_cons _ _)
  | case2 =>
    exact (List.suffix_cons _ _).trans ((List.suffix_cons _ _).trans (List.suffix_cons _ _))
  | case3 => exact List.suffix_rfl

/-- The type of an element stands at the end of the input, and so does what is behind its label. -/
theorem element_suffix {label : Option String} {input a b c : List Lexeme}
    (ha : skipAttributes 0 input = .ok a) (hl : readLabel a = (label, b))
    (hc : skipAttributes 0 b = .ok c) : b <:+ input ∧ c <:+ input := by
  have hlabel := readLabel_suffix a
  rw [hl] at hlabel
  have hb := hlabel.trans (skipAttributes_suffix ha)
  exact ⟨hb, (skipAttributes_suffix hc).trans hb⟩

theorem Suffixes.suffix {text : List Char} {bare t : TypeExpr} {input rest : List Lexeme}
    (h : Suffixes text bare t input rest) : rest <:+ input := by
  induction h with
  | question _ ih | exclamation _ ih => exact ih.trans (List.suffix_cons _ _)
  | metatype _ _ _ ih => exact ih.trans ((List.suffix_cons _ _).trans (List.suffix_cons _ _))
  | done => exact List.suffix_rfl

/-- How many lexemes a phrase takes at least. -/
def Phrase.least : Phrase → Nat
  | .joined | .nominal .. | .arguments _ | .effects .. => 0
  | _ => 1

theorem Reads.suffix {p : Phrase} {input rest : List Lexeme} (h : Reads p input rest) :
    rest <:+ input := by
  have hcons {x : Lexeme} {a b : List Lexeme} (h : x :: a <:+ b) : a <:+ b :=
    (List.suffix_cons x a).trans h
  have hcons' {x : Lexeme} {a b : List Lexeme} (h : a <:+ b) : a <:+ x :: b :=
    h.trans (List.suffix_cons x b)
  induction h with
  | constraint _ _ _ _ ih ihj => exact hcons' (ihj.trans ih)
  | join _ _ _ _ ih ihj => exact ihj.trans ih
  | single _ _ _ ih => exact ih
  | joinedMore _ _ ih ihj => exact hcons' (ihj.trans ih)
  | joinedDone | argumentsNone | effectsDone => exact List.suffix_rfl
  | suffixed _ _ hs ih => exact hs.suffix.trans ih
  | parenthesized _ ih | bracketed _ ih | nominal _ ih | arguments _ ih => exact hcons' ih
  | dictionary _ _ ihk ihv => exact (hcons ihv).trans (hcons ihk)
  | array _ ih => exact hcons ih
  | member _ _ _ iha ihn => exact ihn.trans (hcons (hcons iha))
  | nominalDone _ _ ih => exact ih
  | typesMore _ _ ih ihs => exact ihs.trans (hcons ih)
  | typesLast _ ih => exact hcons ih
  | function _ _ _ ihl ihe iht => exact iht.trans ((hcons ihe).trans ihl)
  | tuple _ _ _ ih => exact ih
  | listNil => exact List.suffix_cons _ _
  | list _ _ ih => exact ih
  | elementsMore _ _ ih ihs => exact ihs.trans (hcons ih)
  | elementsLast _ ih => exact hcons ih
  | variadic ha hl hc _ ih => exact (hcons ih).trans (element_suffix ha hl hc).2
  | element ha hl hc _ _ ih => exact ih.trans (element_suffix ha hl hc).2
  | async _ ih | rethrows _ ih | throws _ _ ih => exact hcons' ih
  | throwsType _ _ ih ihe => exact hcons' (hcons' (ihe.trans (hcons ih)))

theorem Reads.length_le {p : Phrase} {input rest : List Lexeme} (h : Reads p input rest) :
    rest.length + p.least ≤ input.length := by
  induction h with
  | suffixed _ _ hs ih =>
    have := hs.suffix.length_le
    simp only [Phrase.least] at ih ⊢
    omega
  | variadic ha hl hc _ ih | element ha hl hc _ _ ih =>
    have := (element_suffix ha hl hc).2.length_le
    simp only [Phrase.least, List.length_cons] at ih ⊢
    omega
  | _ => simp only [Phrase.least, List.length_cons] at *; omega

theorem Reads.exists_front {p : Phrase} {input rest : List Lexeme} (h : Reads p input rest) :
    ∃ front, input = front ++ rest ∧ p.least ≤ front.length := by
  obtain ⟨front, rfl⟩ := h.suffix
  refine ⟨front, rfl, ?_⟩
  have := h.length_le
  rw [List.length_append] at this
  omega

end FluentBuilder.TypeExpr
