import FluentBuilder.Proofs.TypeExpr.Locality

/-!
# The context-free grammar of types

`Derives` is the grammar of types over tokens, with no word on how it is parsed:

* type: one or more suffixed types with `&` between them;
* suffixed type: a primary type and any number of `?`, `!`, `.Type` and `.Protocol`;
* primary type: a name, `[` type `]`, `[` type `:` type `]`, `(` elements `)`, or
  `(` elements `)` effects `->` type, where there may be no elements and no effects;
* name: a word, and any number of further words behind dots that are neither `Type` nor
  `Protocol`; behind each word there may be `<`, types with commas between them, and `>`;
* element: a type, in front of which there may be one or two words and a colon, and behind which
  there may be three dots;
* effect: `async`, `rethrows`, `throws`, or `throws` `(` type `)`.

Nothing in it stands for attributes, `inout`, `any` and `some`. On tokens that are none of these
(`Unreserved`) what the reader takes for a phrase is derived as one: `Reads.derived`, with one case
for each rule by which it reads.
-/

namespace FluentBuilder.TypeExpr

open Text Lexeme

/-! ### The grammar -/

/-- What the grammar has rules for. -/
inductive Nonterminal where
  | type
  /-- The suffixed types behind the first of a type, each with an `&` in front. -/
  | joined
  | suffixed
  | suffixes
  | primary
  /-- The words behind the first of a name, each with a dot in front and its arguments behind. -/
  | members
  /-- Types between angle brackets, or nothing. -/
  | arguments
  /-- One or more types. -/
  | types
  /-- One or more elements, or nothing. -/
  | list
  /-- One or more elements. -/
  | elements
  | element
  /-- One or two words with a colon behind them, or nothing. -/
  | label
  | effects
deriving DecidableEq

/-- The tokens are derived from the nonterminal. -/
inductive Derives : Nonterminal → List Token → Prop where
  | type {u v} : Derives .suffixed u → Derives .joined v → Derives .type (u ++ v)
  | joinedNone : Derives .joined []
  | joined {u v} : Derives .suffixed u → Derives .joined v →
    Derives .joined (.mark .ampersand :: (u ++ v))
  | suffixed {u v} : Derives .primary u → Derives .suffixes v → Derives .suffixed (u ++ v)
  | suffixesNone : Derives .suffixes []
  | question {v} : Derives .suffixes v → Derives .suffixes (.mark .question :: v)
  | exclamation {v} : Derives .suffixes v → Derives .suffixes (.mark .exclamation :: v)
  | metatype {w v} : isMetatypeSuffix w = true → Derives .suffixes v →
    Derives .suffixes (.mark .dot :: .word w :: v)
  | nominal {w u v} : Derives .arguments u → Derives .members v →
    Derives .primary (.word w :: (u ++ v))
  | array {u} : Derives .type u →
    Derives .primary (.mark .openBracket :: (u ++ [.mark .closeBracket]))
  | dictionary {u v} : Derives .type u → Derives .type v →
    Derives .primary (.mark .openBracket :: (u ++ .mark .colon :: (v ++ [.mark .closeBracket])))
  | tuple {u} : Derives .list u →
    Derives .primary (.mark .openParen :: (u ++ [.mark .closeParen]))
  | function {u v x} : Derives .list u → Derives .effects v → Derives .type x →
    Derives .primary (.mark .openParen :: (u ++ .mark .closeParen :: (v ++ .arrow :: x)))
  | membersNone : Derives .members []
  | member {w u v} : isMetatypeSuffix w = false → Derives .arguments u → Derives .members v →
    Derives .members (.mark .dot :: .word w :: (u ++ v))
  | argumentsNone : Derives .arguments []
  | arguments {u} : Derives .types u →
    Derives .arguments (.mark .less :: (u ++ [.mark .greater]))
  | typesLast {u} : Derives .type u → Derives .types u
  | typesMore {u v} : Derives .type u → Derives .types v →
    Derives .types (u ++ .mark .comma :: v)
  | listNone : Derives .list []
  | list {u} : Derives .elements u → Derives .list u
  | elementsLast {u} : Derives .element u → Derives .elements u
  | elementsMore {u v} : Derives .element u → Derives .elements v →
    Derives .elements (u ++ .mark .comma :: v)
  | element {u v} : Derives .label u → Derives .type v → Derives .element (u ++ v)
  | variadic {u v} : Derives .label u → Derives .type v → Derives .element (u ++ (v ++ [.ellipsis]))
  | labelNone : Derives .label []
  | labelOne {w} : Derives .label [.word w, .mark .colon]
  | labelTwo {w w'} : Derives .label [.word w, .word w', .mark .colon]
  | effectsNone : Derives .effects []
  | async {v} : Derives .effects v → Derives .effects (.word ['a', 's', 'y', 'n', 'c'] :: v)
  | rethrows {v} : Derives .effects v →
    Derives .effects (.word ['r', 'e', 't', 'h', 'r', 'o', 'w', 's'] :: v)
  | throws {v} : Derives .effects v →
    Derives .effects (.word ['t', 'h', 'r', 'o', 'w', 's'] :: v)
  | throwsType {u v} : Derives .type u → Derives .effects v →
    Derives .effects (.word ['t', 'h', 'r', 'o', 'w', 's'] :: .mark .openParen ::
      (u ++ .mark .closeParen :: v))

/-! ### Reserved tokens -/

/-- Whether a token is neither an attribute nor one of the words with a meaning of their own in
front of a type. -/
def Token.isUnreserved : Token → Bool
  | .attribute _ => false
  | .word w => !isConstraintWord w && w != ['i', 'n', 'o', 'u', 't']
  | _ => true

def Unreserved (l : List Lexeme) : Prop := ∀ x ∈ l, x.token.isUnreserved = true

theorem unreserved_cons {x : Lexeme} {l : List Lexeme} :
    Unreserved (x :: l) ↔ x.token.isUnreserved = true ∧ Unreserved l :=
  List.forall_mem_cons

theorem unreserved_append {a b : List Lexeme} :
    Unreserved (a ++ b) ↔ Unreserved a ∧ Unreserved b :=
  List.forall_mem_append

theorem startsConstraint_of_unreserved {x : Lexeme} {l : List Lexeme}
    (h : x.token.isUnreserved = true) : startsConstraint (x :: l) = false := by
  by_contra hstart
  obtain ⟨w, hx, hw, -⟩ := startsConstraint_cons.1 (Bool.eq_true_of_not_eq_false hstart)
  rw [hx, Token.isUnreserved, hw] at h
  simp at h

theorem skipAttributes_of_unreserved {x : Lexeme} {l : List Lexeme}
    (h : x.token.isUnreserved = true) : skipAttributes 0 (x :: l) = .ok (x :: l) := by
  obtain ⟨g, token⟩ := x
  rcases token with _ | _ | w | w | m
  · rfl
  · rfl
  · simp [Token.isUnreserved] at h
  · simp only [Token.isUnreserved, Bool.and_eq_true, bne_iff_ne] at h
    simp [skipAttributes, h.2]
  · rfl

/-! ### What is read is derived -/

theorem Suffixes.derived {text : List Char} {bare t : TypeExpr} {input rest : List Lexeme}
    (h : Suffixes text bare t input rest) :
    ∃ front, input = front ++ rest ∧ Derives .suffixes (front.map (·.token)) := by
  induction h with
  | @question _ _ _ g _ _ _ ih =>
    obtain ⟨front, rfl, h⟩ := ih
    exact ⟨⟨g, .mark .question⟩ :: front, rfl, .question h⟩
  | @exclamation _ _ _ g _ _ _ ih =>
    obtain ⟨front, rfl, h⟩ := ih
    exact ⟨⟨g, .mark .exclamation⟩ :: front, rfl, .exclamation h⟩
  | @metatype _ _ _ _ g g' w _ _ hw _ _ ih =>
    obtain ⟨front, rfl, h⟩ := ih
    exact ⟨⟨g, .mark .dot⟩ :: ⟨g', .word w⟩ :: front, rfl, .metatype hw h⟩
  | done => exact ⟨[], rfl, .suffixesNone⟩

/-- The tokens are those of a phrase of the grammar, or of the part of one that the reader takes in
one go. -/
def Phrase.Derived : Phrase → List Token → Prop
  | .type _, w => Derives .type w
  | .joined, w => Derives .joined w
  | .suffixed _, w => Derives .suffixed w
  | .primary _, w => Derives .primary w
  | .bracketed _, w => Derives .primary (.mark .openBracket :: w)
  | .nominal .., w => ∃ u v, w = u ++ v ∧ Derives .arguments u ∧ Derives .members v
  | .arguments _, w => Derives .arguments w
  | .types _, w => ∃ u, w = u ++ [.mark .greater] ∧ Derives .types u
  | .parenthesized _, w => Derives .primary (.mark .openParen :: w)
  | .list _, w => ∃ u, w = u ++ [.mark .closeParen] ∧ Derives .list u
  | .elements _, w => ∃ u, w = u ++ [.mark .closeParen] ∧ Derives .elements u
  | .element _, w => Derives .element w
  | .effects .., w => Derives .effects w

/-- What is read as a label is one of the grammar. -/
theorem readLabel_derived (input : List Lexeme) :
    ∃ front, input = front ++ (readLabel input).2 ∧ Derives .label (front.map (·.token)) := by
  fun_cases readLabel input with
  | case1 g w g' => exact ⟨[⟨g, .word w⟩, ⟨g', .mark .colon⟩], rfl, .labelOne⟩
  | case2 g w g' w' g'' =>
    exact ⟨[⟨g, .word w⟩, ⟨g', .word w'⟩, ⟨g'', .mark .colon⟩], rfl, .labelTwo⟩
  | case3 => exact ⟨[], rfl, .labelNone⟩

/-- Without attributes and `inout` all that stands in front of the type of an element is its
label. -/
theorem element_derived {input a b c : List Lexeme} {label : Option String}
    (ha : skipAttributes 0 input = .ok a) (hl : readLabel a = (label, b))
    (hc : skipAttributes 0 b = .ok c) (hplain : Unreserved input) :
    ∃ front, input = front ++ c ∧ Derives .label (front.map (·.token)) := by
  have hskip {l l' : List Lexeme} (hl : Unreserved l) (h : skipAttributes 0 l = .ok l') :
      l' = l := by
    rcases l with _ | ⟨x, l⟩
    · simpa [skipAttributes, eq_comm] using h
    · rw [skipAttributes_of_unreserved (unreserved_cons.1 hl).1] at h
      exact (Except.ok.inj h).symm
  obtain rfl := hskip hplain ha
  obtain ⟨front, hfront, hlabel⟩ := readLabel_derived a
  rw [hl] at hfront
  dsimp only at hfront
  subst hfront
  obtain rfl := hskip (unreserved_append.1 hplain).2 hc
  exact ⟨front, rfl, hlabel⟩

/-- **What is read is derived.** On tokens that are not reserved, what a phrase takes from the input
is derived from the nonterminal of the phrase. -/
theorem Reads.derived {p : Phrase} {input rest : List Lexeme} (h : Reads p input rest)
    (hplain : Unreserved input) :
    ∃ front, input = front ++ rest ∧ p.Derived (front.map (·.token)) := by
  induction h with
  | constraint hstart =>
    rw [startsConstraint_of_unreserved (unreserved_cons.1 hplain).1] at hstart
    simp at hstart
  | @join t front g input mid rest _ _ _ _ ihs ihj =>
    obtain ⟨u, rfl, hu⟩ := ihs hplain
    obtain ⟨v, hv, hjoined⟩ := ihj (unreserved_append.1 hplain).2
    refine ⟨u ++ v, by rw [hv, List.append_assoc], ?_⟩
    rw [List.map_append]
    exact .type hu hjoined
  | single _ _ _ ih =>
    obtain ⟨u, rfl, hu⟩ := ih hplain
    refine ⟨u, rfl, ?_⟩
    have htype := Derives.type hu .joinedNone
    rwa [List.append_nil] at htype
  | @joinedMore t g input mid rest _ _ ihs ihj =>
    obtain ⟨-, hinput⟩ := unreserved_cons.1 hplain
    obtain ⟨u, rfl, hu⟩ := ihs hinput
    obtain ⟨v, rfl, hv⟩ := ihj (unreserved_append.1 hinput).2
    refine ⟨⟨g, .mark .ampersand⟩ :: (u ++ v), by simp, ?_⟩
    rw [List.map_cons, List.map_append]
    exact .joined hu hv
  | joinedDone => exact ⟨[], rfl, .joinedNone⟩
  | suffixed _ _ hs ih =>
    obtain ⟨u, rfl, hu⟩ := ih hplain
    obtain ⟨v, rfl, hv⟩ := hs.derived
    refine ⟨u ++ v, (List.append_assoc ..).symm, ?_⟩
    rw [List.map_append]
    exact .suffixed hu hv
  | @parenthesized t g input rest _ ih =>
    obtain ⟨u, rfl, hu⟩ := ih (unreserved_cons.1 hplain).2
    exact ⟨⟨g, .mark .openParen⟩ :: u, rfl, hu⟩
  | @bracketed t g input rest _ ih =>
    obtain ⟨u, rfl, hu⟩ := ih (unreserved_cons.1 hplain).2
    exact ⟨⟨g, .mark .openBracket⟩ :: u, rfl, hu⟩
  | @nominal t g w input rest _ ih =>
    obtain ⟨front, rfl, u, v, hfront, hu, hv⟩ := ih (unreserved_cons.1 hplain).2
    refine ⟨⟨g, .word w⟩ :: front, rfl, ?_⟩
    rw [List.map_cons, hfront]
    exact .nominal hu hv
  | @dictionary key value g g' input mid rest _ _ ihk ihv =>
    obtain ⟨u, rfl, hu⟩ := ihk hplain
    obtain ⟨v, rfl, hv⟩ := ihv (unreserved_cons.1 (unreserved_append.1 hplain).2).2
    refine ⟨u ++ ⟨g, .mark .colon⟩ :: (v ++ [⟨g', .mark .closeBracket⟩]), by simp, ?_⟩
    simp only [List.map_append, List.map_cons, List.map_nil]
    exact .dictionary hu hv
  | @array t g input rest _ ih =>
    obtain ⟨u, rfl, hu⟩ := ih hplain
    refine ⟨u ++ [⟨g, .mark .closeBracket⟩], by simp, ?_⟩
    simp only [List.map_append, List.map_cons, List.map_nil]
    exact .array hu
  | @member name ts t g g' w input mid rest _ hw _ iha ihn =>
    obtain ⟨a, rfl, ha⟩ := iha hplain
    obtain ⟨-, htail⟩ := unreserved_append.1 hplain
    obtain ⟨front, rfl, u, v, hfront, hu, hv⟩ :=
      ihn (unreserved_cons.1 (unreserved_cons.1 htail).2).2
    refine ⟨a ++ ⟨g, .mark .dot⟩ :: ⟨g', .word w⟩ :: front, by simp, _, _, ?_, ha,
      .member hw hu hv⟩
    simp [hfront]
  | nominalDone _ _ ih =>
    obtain ⟨a, rfl, ha⟩ := ih hplain
    exact ⟨a, rfl, _, [], (List.append_nil _).symm, ha, .membersNone⟩
  | @arguments ts g input rest _ ih =>
    obtain ⟨front, rfl, u, hfront, hu⟩ := ih (unreserved_cons.1 hplain).2
    refine ⟨⟨g, .mark .less⟩ :: front, rfl, ?_⟩
    rw [List.map_cons, hfront]
    exact .arguments hu
  | argumentsNone => exact ⟨[], rfl, .argumentsNone⟩
  | @typesMore t ts g input mid rest _ _ ih ihs =>
    obtain ⟨u, rfl, hu⟩ := ih hplain
    obtain ⟨front, rfl, v, hfront, hv⟩ :=
      ihs (unreserved_cons.1 (unreserved_append.1 hplain).2).2
    refine ⟨u ++ ⟨g, .mark .comma⟩ :: front, by simp, _, ?_, .typesMore hu hv⟩
    simp [hfront]
  | @typesLast t g input rest _ ih =>
    obtain ⟨u, rfl, hu⟩ := ih hplain
    exact ⟨u ++ [⟨g, .mark .greater⟩], by simp, _, by simp, .typesLast hu⟩
  | @function es effects t g input mid mid' rest _ _ _ ihl ihe iht =>
    obtain ⟨front, rfl, u, hfront, hu⟩ := ihl hplain
    obtain ⟨-, hmid⟩ := unreserved_append.1 hplain
    obtain ⟨v, rfl, hv⟩ := ihe hmid
    obtain ⟨x, rfl, hx⟩ := iht (unreserved_cons.1 (unreserved_append.1 hmid).2).2
    refine ⟨front ++ (v ++ ⟨g, .arrow⟩ :: x), by simp, ?_⟩
    have hfunction := Derives.function hu hv hx
    simpa [Phrase.Derived, hfront] using hfunction
  | tuple _ _ _ ih =>
    obtain ⟨front, rfl, u, hfront, hu⟩ := ih hplain
    refine ⟨front, rfl, ?_⟩
    rw [hfront]
    exact .tuple hu
  | @listNil g rest => exact ⟨[⟨g, .mark .closeParen⟩], rfl, [], rfl, .listNone⟩
  | list _ _ ih =>
    obtain ⟨front, rfl, u, hfront, hu⟩ := ih hplain
    exact ⟨front, rfl, u, hfront, .list hu⟩
  | @elementsMore e es g input mid rest _ _ ih ihs =>
    obtain ⟨u, rfl, hu⟩ := ih hplain
    obtain ⟨front, rfl, v, hfront, hv⟩ :=
      ihs (unreserved_cons.1 (unreserved_append.1 hplain).2).2
    refine ⟨u ++ ⟨g, .mark .comma⟩ :: front, by simp, _, ?_, .elementsMore hu hv⟩
    simp [hfront]
  | @elementsLast e g input rest _ ih =>
    obtain ⟨u, rfl, hu⟩ := ih hplain
    exact ⟨u ++ [⟨g, .mark .closeParen⟩], by simp, _, by simp, .elementsLast hu⟩
  | @variadic label t g input a b c rest ha hl hc _ ih =>
    obtain ⟨u, rfl, hu⟩ := element_derived ha hl hc hplain
    obtain ⟨v, rfl, hv⟩ := ih (unreserved_append.1 hplain).2
    refine ⟨u ++ (v ++ [⟨g, .ellipsis⟩]), by simp, ?_⟩
    simp only [List.map_append, List.map_cons, List.map_nil]
    exact .variadic hu hv
  | element ha hl hc _ _ ih =>
    obtain ⟨u, rfl, hu⟩ := element_derived ha hl hc hplain
    obtain ⟨v, rfl, hv⟩ := ih (unreserved_append.1 hplain).2
    refine ⟨u ++ v, (List.append_assoc ..).symm, ?_⟩
    rw [List.map_append]
    exact .element hu hv
  | async _ ih =>
    obtain ⟨v, rfl, hv⟩ := ih (unreserved_cons.1 hplain).2
    exact ⟨_ :: v, rfl, .async hv⟩
  | rethrows _ ih =>
    obtain ⟨v, rfl, hv⟩ := ih (unreserved_cons.1 hplain).2
    exact ⟨_ :: v, rfl, .rethrows hv⟩
  | throws _ _ ih =>
    obtain ⟨v, rfl, hv⟩ := ih (unreserved_cons.1 hplain).2
    exact ⟨_ :: v, rfl, .throws hv⟩
  | @throwsType before after t g g' g'' input mid rest _ _ iht ihe =>
    obtain ⟨-, htail⟩ := unreserved_cons.1 hplain
    obtain ⟨-, hinput⟩ := unreserved_cons.1 htail
    obtain ⟨u, rfl, hu⟩ := iht hinput
    obtain ⟨v, rfl, hv⟩ := ihe (unreserved_cons.1 (unreserved_append.1 hinput).2).2
    refine ⟨⟨g, .word ['t', 'h', 'r', 'o', 'w', 's']⟩ :: ⟨g', .mark .openParen⟩ ::
      (u ++ ⟨g'', .mark .closeParen⟩ :: v), by simp, ?_⟩
    simp only [List.map_append, List.map_cons]
    exact .throwsType hu hv
  | effectsDone => exact ⟨[], rfl, .effectsNone⟩

end FluentBuilder.TypeExpr
