import FluentBuilder.Proofs.TypeExpr.Balance

/-!
# The parts of a type that is read again

If the text of a type is read as some type of the same shape, the texts of its parts are read as the
parts of this one (`ReadAs`). Where a part ends is settled by the brackets; what is left to show is
that nothing is taken for something else on the way: an `inout` in front of an element is skipped, so
its text does not start with one, and `any` or `some` in front of a mark starts a constraint, so
neither does a type with a mark behind it.
-/

namespace FluentBuilder.TypeExpr

open Text Lexeme

/-! ### Reading the text of a type -/

/-- The text of the first type is read as the second one. -/
def ReadAs (t t₀ : TypeExpr) : Prop := Reads (.type t₀) t.lexemes []

theorem Legible.readAs_iff {t t₀ : TypeExpr} (h : t.Legible) :
    ReadAs t t₀ ↔ ofString (render t) = .ok t₀ := by
  rw [ofString_eq_ok_iff]
  constructor
  · exact fun hread => ⟨t.lexemes, h.ofChars_eq, hread⟩
  · rintro ⟨l, hl, hread⟩
    obtain rfl := Except.ok.inj (h.ofChars_eq.symm.trans hl)
    exact hread

theorem Legible.regap_self {t : TypeExpr} (h : t.Legible) : regap [] t.lexemes = t.lexemes := by
  obtain ⟨token, tail, htail⟩ := h.head
  rw [htail, regap_cons]

/-- What is read as far as the text of a type goes is what this is read as. -/
theorem Reads.readAs {t t₀ : TypeExpr} {gap : List Char} {rest : List Lexeme}
    (h : Reads (.type t₀) (regap gap t.lexemes ++ rest) rest) (ht : t.Legible) : ReadAs t t₀ := by
  have hread : Reads (.type t₀) (regap gap t.lexemes ++ []) [] := h.local rfl (.inl rfl)
  obtain ⟨token, tail, htail⟩ := ht.head
  rw [List.append_nil, htail] at hread
  rw [ReadAs, htail]
  exact hread.type_regap []

/-! ### First tokens -/

theorem Readable.exists_word {t : TypeExpr} (h : Readable t) {name : String} {ts : List TypeExpr}
    (ht : t = .nominal name ts) : ∃ w tail, t.lexemes = ⟨[], .word w⟩ :: tail := by
  induction h generalizing name ts with
  | @word w hw => exact ⟨w, [], lexemes_word hw⟩
  | arguments hname hne hts ihname _ =>
    obtain ⟨w, tail, htail⟩ := ihname rfl
    rw [lexemes_arguments hname hne hts, htail]
    exact ⟨w, _, rfl⟩
  | member hname hw ih =>
    obtain ⟨w, tail, htail⟩ := ih rfl
    rw [lexemes_member hname hw, htail]
    exact ⟨w, _, rfl⟩
  | _ => cases ht

/-- A type starts with a word or an opening bracket. -/
theorem Readable.first {t : TypeExpr} (h : Readable t) :
    ∃ token tail, t.lexemes = ⟨[], token⟩ :: tail ∧
      (token = .mark .openParen ∨ token = .mark .openBracket ∨ ∃ w, token = .word w) := by
  have hmarked {t : TypeExpr} {mark : Mark} (h : ∃ token tail, t.lexemes = ⟨[], token⟩ :: tail ∧
      (token = .mark .openParen ∨ token = .mark .openBracket ∨ ∃ w, token = .word w)) :
      ∃ token tail, markedLexemes t mark = ⟨[], token⟩ :: tail ∧
        (token = .mark .openParen ∨ token = .mark .openBracket ∨ ∃ w, token = .word w) := by
    unfold markedLexemes
    split
    · exact ⟨_, _, rfl, .inl rfl⟩
    · obtain ⟨token, tail, htail, htoken⟩ := h
      exact ⟨token, _, by rw [htail, List.cons_append], htoken⟩
  induction h with
  | word hw =>
    obtain ⟨w, tail, htail⟩ := (Readable.word hw).exists_word rfl
    exact ⟨_, tail, htail, .inr (.inr ⟨w, rfl⟩)⟩
  | arguments hname hne hts =>
    obtain ⟨w, tail, htail⟩ := (hname.arguments hne hts).exists_word rfl
    exact ⟨_, tail, htail, .inr (.inr ⟨w, rfl⟩)⟩
  | member hname hw =>
    obtain ⟨w, tail, htail⟩ := (hname.member hw).exists_word rfl
    exact ⟨_, tail, htail, .inr (.inr ⟨w, rfl⟩)⟩
  | optional h ih =>
    rw [lexemes_optional h]
    exact hmarked ih
  | unwrapped h ih =>
    rw [lexemes_unwrapped h]
    exact hmarked ih
  | array h => exact ⟨_, _, lexemes_array h, .inr (.inl rfl)⟩
  | dictionary hkey hvalue => exact ⟨_, _, lexemes_dictionary hkey hvalue, .inr (.inl rfl)⟩
  | tuple h hlabel => exact ⟨_, _, lexemes_tuple h hlabel, .inl rfl⟩
  | function hps hresult hthrown =>
    exact ⟨_, _, lexemes_function _ _ hps hresult hthrown, .inl rfl⟩
  | verbatim h =>
    obtain ⟨token, tail, htail⟩ := h.legible.head
    have hread := h.reads [] rfl
    rw [htail] at hread
    exact ⟨token, tail, htail, hread.type_first⟩

/-- No type, attribute or label starts with what comes next. -/
def Stuck (input : List Lexeme) : Prop :=
  ∃ g m rest, input = ⟨g, .mark m⟩ :: rest ∧ m ≠ .openParen ∧ m ≠ .openBracket

theorem Stuck.append {input : List Lexeme} (h : Stuck input) (rest : List Lexeme) :
    Stuck (input ++ rest) := by
  obtain ⟨g, m, tail, rfl, hm⟩ := h
  exact ⟨g, m, tail ++ rest, rfl, hm⟩

theorem Stuck.skipAttributes_eq {input : List Lexeme} (h : Stuck input) :
    skipAttributes 0 input = .ok input := by
  obtain ⟨g, m, rest, rfl, -⟩ := h
  rfl

theorem Stuck.readLabel_eq {input : List Lexeme} (h : Stuck input) :
    readLabel input = (none, input) := by
  obtain ⟨g, m, rest, rfl, -⟩ := h
  rfl

theorem Stuck.not_reads {input rest : List Lexeme} (h : Stuck input) {t : TypeExpr} :
    ¬ Reads (.type t) input rest := by
  obtain ⟨g, m, tail, rfl, hopen, hbracket⟩ := h
  intro hread
  rcases hread.type_first with hx | hx | ⟨w, hx⟩
  · exact hopen (Token.mark.inj hx)
  · exact hbracket (Token.mark.inj hx)
  · simp at hx

/-- Behind a word that starts no constraint a name goes on with a mark. -/
theorem Reads.suffixed_second {t : TypeExpr} {g w : List Char} {input rest : List Lexeme}
    (h : Reads (.suffixed t) (⟨g, .word w⟩ :: input) rest) : input = rest ∨ Stuck input := by
  cases h with
  | @suffixed bare _ front _ mid _ hp hfront hs =>
    have hmid : input = mid ∨ Stuck input := by
      cases hp with
      | nominal hn =>
        cases hn with
        | member ha =>
          cases ha with
          | arguments => exact .inr ⟨_, _, _, rfl, by simp, by simp⟩
          | argumentsNone => exact .inr ⟨_, _, _, rfl, by simp, by simp⟩
        | nominalDone ha =>
          cases ha with
          | arguments => exact .inr ⟨_, _, _, rfl, by simp, by simp⟩
          | argumentsNone => exact .inl rfl
    rcases hmid with rfl | hstuck
    · cases hs with
      | question | exclamation | metatype => exact .inr ⟨_, _, _, rfl, by simp, by simp⟩
      | done => exact .inl rfl
    · exact .inr hstuck

theorem Reads.type_second {t : TypeExpr} {g w : List Char} {input rest : List Lexeme}
    (h : Reads (.type t) (⟨g, .word w⟩ :: input) rest) (hw : isConstraintWord w = false) :
    input = rest ∨ Stuck input := by
  cases h with
  | constraint hstart =>
    obtain ⟨w', hw', hconstraint, -⟩ := startsConstraint_cons.1 hstart
    obtain rfl := Token.word.inj hw'
    exact absurd (hconstraint.symm.trans hw) (by simp)
  | join _ hs _ _ =>
    rcases hs.suffixed_second with rfl | hstuck
    · exact .inr ⟨_, _, _, rfl, by simp, by simp⟩
    · exact .inr hstuck
  | single _ hs _ => exact hs.suffixed_second

/-- Behind an `inout` at its start a type goes on with a mark, if it does. -/
theorem Readable.second {t : TypeExpr} (h : Readable t) {g : List Char} {l : List Lexeme}
    (hl : t.lexemes = ⟨g, .word inoutWord⟩ :: l) : l = [] ∨ Stuck l := by
  have happend {a b : List Lexeme} (ha : a = [] ∨ Stuck a) (hb : Stuck b) :
      a ++ b = [] ∨ Stuck (a ++ b) := by
    rcases ha with rfl | ha
    · exact .inr hb
    · exact .inr (ha.append b)
  have hmark {m : Mark} {rest : List Lexeme} (hopen : m ≠ .openParen) (hbracket : m ≠ .openBracket) :
      Stuck (⟨[], .mark m⟩ :: rest) := ⟨_, _, _, rfl, hopen, hbracket⟩
  have hmarked {t : TypeExpr} {m : Mark} (h : Readable t)
      (ih : ∀ {l}, t.lexemes = ⟨g, .word inoutWord⟩ :: l → l = [] ∨ Stuck l) {l : List Lexeme}
      (hl : markedLexemes t m = ⟨g, .word inoutWord⟩ :: l) (hopen : m ≠ .openParen)
      (hbracket : m ≠ .openBracket) : l = [] ∨ Stuck l := by
    unfold markedLexemes at hl
    split at hl
    · simp at hl
    · obtain ⟨token, tail, htail, -⟩ := h.first
      rw [htail, List.cons_append] at hl
      obtain ⟨hx, rfl⟩ := List.cons.inj hl
      exact happend (ih (hx ▸ htail)) (hmark hopen hbracket)
  induction h generalizing l with
  | word hw =>
    rw [lexemes_word hw] at hl
    exact .inl (List.cons.inj hl).2.symm
  | arguments hname hne hts ihname _ =>
    rw [lexemes_arguments hname hne hts] at hl
    obtain ⟨w, tail, htail⟩ := hname.exists_word rfl
    rw [htail, List.cons_append] at hl
    obtain ⟨hx, rfl⟩ := List.cons.inj hl
    exact happend (ihname (hx ▸ htail)) (hmark (by simp) (by simp))
  | member hname hw ih =>
    rw [lexemes_member hname hw] at hl
    obtain ⟨w, tail, htail⟩ := hname.exists_word rfl
    rw [htail, List.cons_append] at hl
    obtain ⟨hx, rfl⟩ := List.cons.inj hl
    exact happend (ih (hx ▸ htail)) (hmark (by simp) (by simp))
  | optional h ih => exact hmarked h ih (lexemes_optional h ▸ hl) (by simp) (by simp)
  | unwrapped h ih => exact hmarked h ih (lexemes_unwrapped h ▸ hl) (by simp) (by simp)
  | array h =>
    rw [lexemes_array h] at hl
    simp at hl
  | dictionary hkey hvalue =>
    rw [lexemes_dictionary hkey hvalue] at hl
    simp at hl
  | tuple h hlabel =>
    rw [lexemes_tuple h hlabel] at hl
    simp at hl
  | function hps hresult hthrown =>
    rw [lexemes_function _ _ hps hresult hthrown] at hl
    simp at hl
  | verbatim h =>
    have hread := h.reads [] rfl
    rw [List.append_nil, hl] at hread
    exact hread.type_second (by decide)

/-! ### Lists -/

theorem Closed.not_stop {x : Lexeme} {l : List Lexeme} (h : Closed false (x :: l)) :
    ¬ IsStop x.token := by
  intro hx
  have hx' : (⟨0, 0⟩ : Nesting).next false x.token.turn = none := hx
  rw [Closed, walk, hx'] at h
  simp at h

theorem Closed.of_word {g w : List Char} {l : List Lexeme}
    (h : Closed false (⟨g, .word w⟩ :: l)) : Closed false l := h

/-- A closed row is not taken for a label. -/
theorem Closed.readLabel_eq {l tail : List Lexeme} {z : Lexeme} (h : Closed false l)
    (hword : ∀ w, z.token ≠ .word w) (hcolon : z.token ≠ .mark .colon) :
    readLabel (l ++ z :: tail) = (none, l ++ z :: tail) := by
  refine readLabel_append hword hcolon ?_ ?_ tail
  · rintro g g' w l rfl
    exact h.of_word.not_stop rfl
  · rintro g g' g'' w w' l rfl
    exact h.of_word.of_word.not_stop rfl

/-- The tokens behind an element. -/
def EndsElement (token : Token) : Prop := token = .mark .comma ∨ token = .mark .closeParen

theorem EndsElement.isStop {token : Token} (h : EndsElement token) : IsStop token := by
  rcases h with rfl | rfl <;> rfl

theorem EndsElement.ne_word {token : Token} (h : EndsElement token) (w : List Char) :
    token ≠ .word w := by
  rcases h with rfl | rfl <;> simp

theorem EndsElement.ne_colon {token : Token} (h : EndsElement token) : token ≠ .mark .colon := by
  rcases h with rfl | rfl <;> simp

theorem EndsElement.stuck {x : Lexeme} (h : EndsElement x.token) (rest : List Lexeme) :
    Stuck (x :: rest) := by
  obtain ⟨g, token⟩ := x
  rcases h with h | h
  · exact ⟨g, .comma, rest, by rw [← h], by simp, by simp⟩
  · exact ⟨g, .closeParen, rest, by rw [← h], by simp, by simp⟩

section

variable {t : TypeExpr} {gap : List Char} {x : Lexeme} {tail c : List Lexeme}

/-- In front of a type nothing is skipped but an `inout` it starts with, and then no type follows. -/
theorem Readable.skipAttributes_eq (h : Readable t) (hx : EndsElement x.token)
    (hc : skipAttributes 0 (regap gap t.lexemes ++ x :: tail) = .ok c) :
    (c = regap gap t.lexemes ++ x :: tail ∧ startsWithInout t = false) ∨ Stuck c := by
  obtain ⟨token, l, hl, htoken⟩ := h.first
  have hinout : startsWithInout t = (some token == some (.word inoutWord)) := by
    rw [startsWithInout, h.legible.firstToken_eq hl]
  rw [hl, regap_cons, List.cons_append] at hc ⊢
  rcases htoken with rfl | rfl | ⟨w, rfl⟩
  · exact .inl ⟨(Except.ok.inj hc).symm, hinout⟩
  · exact .inl ⟨(Except.ok.inj hc).symm, hinout⟩
  · by_cases hw : w = inoutWord
    · subst hw
      have hstuck : Stuck (l ++ x :: tail) := by
        rcases h.second hl with rfl | hstuck
        · exact hx.stuck tail
        · exact hstuck.append _
      have hskip : skipAttributes 0 (⟨gap, .word inoutWord⟩ :: (l ++ x :: tail)) =
          skipAttributes 0 (l ++ x :: tail) := by simp [skipAttributes, inoutWord]
      rw [hskip, hstuck.skipAttributes_eq] at hc
      exact .inr (Except.ok.inj hc ▸ hstuck)
    · have hskip : skipAttributes 0 (⟨gap, .word w⟩ :: (l ++ x :: tail)) =
          .ok (⟨gap, .word w⟩ :: (l ++ x :: tail)) := by
        have : ¬ w = ['i', 'n', 'o', 'u', 't'] := hw
        simp [skipAttributes, this]
      exact .inl ⟨(Except.ok.inj (hskip.symm.trans hc)).symm, by simpa [hinout] using hw⟩

end

/-- The element is read again as the element `e₀`, and no part of it is skipped. -/
structure ElementReadAs (e e₀ : Option String × TypeExpr) : Prop where
  label : e₀.1 = e.1
  ne_inout : e.1 ≠ some "inout"
  inout : startsWithInout e.2 = false
  reads : ReadAs e.2 e₀.2

/-- What comes in front of the type of an element, and what the type is read in front of. -/
theorem Reads.element_cases {e₀ : Option String × TypeExpr} {input rest : List Lexeme}
    (h : Reads (.element e₀) input rest) :
    ∃ a b c t₀ rest', skipAttributes 0 input = .ok a ∧ readLabel a = (e₀.1, b) ∧
      skipAttributes 0 b = .ok c ∧ Reads (.type t₀) c rest' ∧
      ((∃ g, rest' = ⟨g, .ellipsis⟩ :: rest) ∨ (t₀ = e₀.2 ∧ rest' = rest)) := by
  cases h with
  | variadic ha hl hc ht => exact ⟨_, _, _, _, _, ha, hl, hc, ht, .inl ⟨_, rfl⟩⟩
  | element ha hl hc ht => exact ⟨_, _, _, _, _, ha, hl, hc, ht, .inr ⟨rfl, rfl⟩⟩

/-- The type of an element is read as far as its text goes. -/
theorem Readable.reads_element {t t₀ t₁ : TypeExpr} {gap : List Char} {x x' : Lexeme}
    {tail tail' rest' : List Lexeme} (ht : Readable t)
    (h : Reads (.type t₀) (regap gap t.lexemes ++ x :: tail) rest') (hx : EndsElement x.token)
    (hx' : EndsElement x'.token)
    (hrest : (∃ g, rest' = ⟨g, .ellipsis⟩ :: x' :: tail') ∨ (t₀ = t₁ ∧ rest' = x' :: tail')) :
    ReadAs t t₁ ∧ x' :: tail' = x :: tail := by
  have hclosed := ht.closed.regap gap
  rcases hrest with ⟨g, rfl⟩ | ⟨rfl, rfl⟩
  · obtain ⟨rfl, -⟩ := List.cons.inj (h.stops hclosed hx.isStop rfl)
    rcases hx with hx | hx <;> simp at hx
  · have hrest := h.stops hclosed hx.isStop hx'.isStop
    rw [hrest] at h
    exact ⟨h.readAs ht.legible, hrest⟩

theorem Reads.element_of_lexemes {e e₀ : Option String × TypeExpr} {gap : List Char}
    {x x' : Lexeme} {tail tail' : List Lexeme}
    (h : Reads (.element e₀) (regap gap (elementLexemes e) ++ x :: tail) (x' :: tail'))
    (he : ReadableElement e) (hx : EndsElement x.token) (hx' : EndsElement x'.token) :
    ElementReadAs e e₀ ∧ x' :: tail' = x :: tail := by
  obtain ⟨a, b, c, t₀, rest', ha, hl, hc, ht, hrest⟩ := h.element_cases
  obtain ⟨_ | label, t⟩ := e
  · rcases he.readable.skipAttributes_eq hx ha with ⟨rfl, hinout⟩ | hstuck
    · have hlabel : readLabel (regap gap t.lexemes ++ x :: tail) =
          (none, regap gap t.lexemes ++ x :: tail) :=
        (he.readable.closed.regap gap).readLabel_eq hx.ne_word hx.ne_colon
      obtain ⟨hnone, rfl⟩ := Prod.mk.inj (hlabel.symm.trans hl)
      obtain rfl := Except.ok.inj (ha.symm.trans hc)
      obtain ⟨hread, heq⟩ := he.readable.reads_element ht hx hx' hrest
      exact ⟨⟨hnone.symm, by simp, hinout, hread⟩, heq⟩
    · obtain ⟨-, rfl⟩ := Prod.mk.inj (hstuck.readLabel_eq.symm.trans hl)
      obtain rfl := Except.ok.inj (hstuck.skipAttributes_eq.symm.trans hc)
      exact absurd ht hstuck.not_reads
  · have hplain : IsPlain label.toList := he.label label rfl
    have hne : label ≠ "" := by
      rintro rfl
      exact hplain.ne_nil rfl
    simp only [elementLexemes, hne, if_false, regap_cons, List.cons_append] at ha
    by_cases hinout : label.toList = inoutWord
    · have hskip : skipAttributes 0 (⟨gap, .word label.toList⟩ :: ⟨[], .mark .colon⟩ ::
          (regap [' '] t.lexemes ++ x :: tail)) =
          .ok (⟨[], .mark .colon⟩ :: (regap [' '] t.lexemes ++ x :: tail)) := by
        simp [skipAttributes, hinout, inoutWord]
      have hstuck : Stuck a := by
        obtain rfl := Except.ok.inj (hskip.symm.trans ha)
        exact ⟨_, _, _, rfl, by simp, by simp⟩
      obtain ⟨-, rfl⟩ := Prod.mk.inj (hstuck.readLabel_eq.symm.trans hl)
      obtain rfl := Except.ok.inj (hstuck.skipAttributes_eq.symm.trans hc)
      exact absurd ht hstuck.not_reads
    · have hskip : skipAttributes 0 (⟨gap, .word label.toList⟩ :: ⟨[], .mark .colon⟩ ::
          (regap [' '] t.lexemes ++ x :: tail)) = .ok (⟨gap, .word label.toList⟩ ::
            ⟨[], .mark .colon⟩ :: (regap [' '] t.lexemes ++ x :: tail)) := by
        have : ¬ label.toList = ['i', 'n', 'o', 'u', 't'] := hinout
        simp [skipAttributes, this]
      obtain rfl := Except.ok.inj (hskip.symm.trans ha)
      obtain ⟨hlabel, rfl⟩ := Prod.mk.inj hl
      rw [unticked_of_plain hplain, String.ofList_toList] at hlabel
      rcases he.readable.skipAttributes_eq hx hc with ⟨rfl, hinout'⟩ | hstuck
      · obtain ⟨hread, heq⟩ := he.readable.reads_element ht hx hx' hrest
        refine ⟨⟨hlabel.symm, ?_, hinout', hread⟩, heq⟩
        rintro ⟨rfl⟩
        exact hinout rfl
      · exact absurd ht hstuck.not_reads

theorem Reads.elements_of_lexemes {es es₀ : List (Option String × TypeExpr)} {gap : List Char}
    {rest rest' : List Lexeme} (hne : es ≠ []) (hes : ∀ e ∈ es, ReadableElement e)
    (h : Reads (.elements es₀)
      (regap gap (commas (es.map elementLexemes)) ++ ⟨[], .mark .closeParen⟩ :: rest) rest') :
    List.Forall₂ ElementReadAs es es₀ ∧ rest' = rest := by
  induction es generalizing es₀ gap with
  | nil => exact absurd rfl hne
  | cons e es ih =>
    have he := hes e (by simp)
    have hspelled := spelled_element he.readable.legible he.label
    rcases es with _ | ⟨e', es⟩
    · cases h with
      | elementsMore he' hes' =>
        obtain ⟨-, heq⟩ := he'.element_of_lexemes he (.inr rfl) (.inl rfl)
        simp at heq
      | elementsLast he' =>
        obtain ⟨hread, heq⟩ := he'.element_of_lexemes he (.inr rfl) (.inr rfl)
        exact ⟨.cons hread .nil, (List.cons.inj heq).2⟩
    · rw [List.map_cons, regap_commas_cons hspelled.ne_nil (by simp), List.append_assoc,
        List.cons_append] at h
      cases h with
      | elementsMore he' hes' =>
        obtain ⟨hread, heq⟩ := he'.element_of_lexemes he (.inl rfl) (.inl rfl)
        obtain ⟨-, rfl⟩ := List.cons.inj heq
        obtain ⟨hreads, hrest⟩ := ih (by simp) (fun e he => hes e (List.mem_cons_of_mem _ he)) hes'
        exact ⟨.cons hread hreads, hrest⟩
      | elementsLast he' =>
        obtain ⟨-, heq⟩ := he'.element_of_lexemes he (.inl rfl) (.inr rfl)
        simp at heq

theorem Reads.list_of_lexemes {es es₀ : List (Option String × TypeExpr)}
    {rest rest' : List Lexeme} (hes : ∀ e ∈ es, ReadableElement e)
    (h : Reads (.list es₀)
      (commas (es.map elementLexemes) ++ ⟨[], .mark .closeParen⟩ :: rest) rest') :
    List.Forall₂ ElementReadAs es es₀ ∧ rest' = rest := by
  rcases es with _ | ⟨e, es⟩
  · cases h with
    | listNil => exact ⟨.nil, rfl⟩
    | list hne => exact absurd (lookahead_cons (by simp)) hne
  · have hspelled : Spelled _ (commas ((e :: es).map elementLexemes)) :=
      spelled_commas (by simp) fun e he => spelled_element (hes e he).readable.legible (hes e he).label
    obtain ⟨token, tail, htail⟩ := hspelled.head
    have hself : regap [] (commas ((e :: es).map elementLexemes)) =
        commas ((e :: es).map elementLexemes) := by rw [htail, regap_cons]
    rw [← hself] at h
    generalize hinput : regap [] (commas ((e :: es).map elementLexemes)) ++ _ = input at h
    cases h with
    | listNil =>
      have hclosed : Closed true (commas ((e :: es).map elementLexemes)) :=
        closed_commas (List.forall_mem_map.2 fun e he =>
          closed_elementLexemes (hes e he).readable.closed)
      rw [hself, htail, List.cons_append] at hinput
      rw [htail, (List.cons.inj hinput).1] at hclosed
      exact absurd hclosed (by simp [Closed, walk, Token.turn, Nesting.next])
    | list _ helements => exact (hinput ▸ helements).elements_of_lexemes (by simp) hes

theorem Reads.types_of_lexemes {ts ts₀ : List TypeExpr} {gap : List Char} {g : List Char}
    {rest rest' : List Lexeme} (hne : ts ≠ []) (hts : ∀ t ∈ ts, Readable t)
    (h : Reads (.types ts₀)
      (regap gap (commas (ts.map lexemes)) ++ ⟨g, .mark .greater⟩ :: rest) rest') :
    List.Forall₂ ReadAs ts ts₀ ∧ rest' = rest := by
  induction ts generalizing ts₀ gap with
  | nil => exact absurd rfl hne
  | cons t ts ih =>
    have ht := hts t (by simp)
    have hclosed := ht.closed.regap gap
    rcases ts with _ | ⟨t', ts⟩
    · cases h with
      | typesMore ht' hts' => exact absurd (ht'.stops hclosed rfl rfl) (by simp)
      | typesLast ht' =>
        have heq := ht'.stops hclosed rfl rfl
        rw [heq] at ht'
        exact ⟨.cons (ht'.readAs ht.legible) .nil, (List.cons.inj heq).2⟩
    · rw [List.map_cons, regap_commas_cons ht.legible.ne_nil (by simp), List.append_assoc,
        List.cons_append] at h
      cases h with
      | typesMore ht' hts' =>
        have heq := ht'.stops hclosed rfl rfl
        rw [heq] at ht'
        obtain ⟨-, rfl⟩ := List.cons.inj heq
        obtain ⟨hreads, hrest⟩ := ih (by simp) (fun t ht => hts t (List.mem_cons_of_mem _ ht)) hts'
        exact ⟨.cons (ht'.readAs ht.legible) hreads, hrest⟩
      | typesLast ht' => exact absurd (ht'.stops hclosed rfl rfl) (by simp)

/-! ### Collections -/

/-- Whether a type is one that suffixes make. -/
def isSuffixed : TypeExpr → Bool
  | .optional _ | .unwrapped _ | .verbatim _ => true
  | _ => false

theorem Suffixes.eq_of_not_suffixed {text : List Char} {bare t : TypeExpr}
    {input rest : List Lexeme} (h : Suffixes text bare t input rest) (ht : isSuffixed t = false) :
    bare = t ∧ input = rest := by
  induction h with
  | question _ ih | exclamation _ ih | metatype _ _ _ ih =>
    have := (ih ht).1
    rw [← this] at ht
    simp [isSuffixed] at ht
  | done => exact ⟨rfl, rfl⟩

/-- A type that no suffixes make is read as a primary type. -/
theorem Reads.primary_of_type {t : TypeExpr} {input rest : List Lexeme}
    (h : Reads (.type t) input rest) (ht : isSuffixed t = false) :
    Reads (.primary t) input rest ∧ startsConstraint input = false := by
  cases h with
  | constraint | join => simp [isSuffixed] at ht
  | single hstart hs =>
    cases hs with
    | suffixed hp _ hs =>
      obtain ⟨rfl, rfl⟩ := hs.eq_of_not_suffixed ht
      exact ⟨hp, hstart⟩

theorem ReadAs.array {t t₀ : TypeExpr} (ht : Readable t) (h : ReadAs (.array t) (.array t₀)) :
    ReadAs t t₀ := by
  rw [ReadAs, lexemes_array ht] at h
  cases (h.primary_of_type rfl).1 with
  | bracketed hb =>
    cases hb with
    | array hread =>
      have heq := hread.stops ht.closed rfl rfl
      rw [heq] at hread
      rw [← ht.legible.regap_self] at hread
      exact hread.readAs ht.legible

theorem ReadAs.dictionary {key value key₀ value₀ : TypeExpr} (hkey : Readable key)
    (hvalue : Readable value) (h : ReadAs (.dictionary key value) (.dictionary key₀ value₀)) :
    ReadAs key key₀ ∧ ReadAs value value₀ := by
  rw [ReadAs, lexemes_dictionary hkey hvalue] at h
  cases (h.primary_of_type rfl).1 with
  | bracketed hb =>
    cases hb with
    | dictionary hk hv =>
      have heq := hk.stops hkey.closed rfl rfl
      rw [heq, ← hkey.legible.regap_self] at hk
      obtain ⟨-, rfl⟩ := List.cons.inj heq
      have heq := hv.stops (hvalue.closed.regap [' ']) rfl rfl
      rw [heq] at hv
      exact ⟨hk.readAs hkey.legible, hv.readAs hvalue.legible⟩

/-! ### Tuples and functions -/

theorem ReadAs.tuple {es es₀ : List (Option String × TypeExpr)}
    (hes : ∀ e ∈ es, ReadableElement e) (hsingle : ∀ t, es ≠ [(none, t)])
    (h : ReadAs (.tuple es) (.tuple es₀)) : List.Forall₂ ElementReadAs es es₀ := by
  rw [ReadAs, lexemes_tuple (fun e he => (hes e he).readable) fun e he => (hes e he).label] at h
  generalize ht : TypeExpr.tuple es₀ = t at h
  cases (h.primary_of_type (by rw [← ht]; rfl)).1 with
  | parenthesized hp =>
    cases hp with
    | function => simp at ht
    | @tuple es₁ _ _ hlist _ _ =>
      obtain ⟨hread, -⟩ := hlist.list_of_lexemes hes
      unfold ofElements at ht
      split at ht
      · next t =>
        cases hread with
        | @cons e _ _ _ he hnil =>
          cases hnil
          have hnone : e = (none, e.2) := Prod.ext he.label.symm rfl
          exact absurd (congrArg (fun e => [e]) hnone) (hsingle e.2)
      · obtain rfl := TypeExpr.tuple.inj ht
        exact hread

theorem Reads.effects_arrow {before after : Effects} {g : List Char} {input rest : List Lexeme}
    (h : Reads (.effects before after) (⟨g, .arrow⟩ :: input) rest) :
    rest = ⟨g, .arrow⟩ :: input ∧ after = before := by
  cases h with
  | effectsDone => exact ⟨rfl, rfl⟩

theorem Reads.throws_of_lexemes {throws : Bool} {thrown : Option TypeExpr} {before after : Effects}
    {g g' : List Char} {rest rest' : List Lexeme} (hthrown : ∀ t ∈ thrown, Readable t)
    (hthrows : thrown ≠ none → throws = true)
    (h : Reads (.effects before after)
      ((if throws then ⟨[' '], .word ['t', 'h', 'r', 'o', 'w', 's']⟩ :: thrownLexemes thrown
        else []) ++ ⟨g, .arrow⟩ :: rest) (⟨g', .arrow⟩ :: rest')) :
    rest' = rest ∧ ∀ t ∈ thrown, ∃ t₀ ∈ after.thrown, ReadAs t t₀ := by
  rcases throws with _ | _
  · obtain rfl : thrown = none := by simpa using hthrows
    exact ⟨(List.cons.inj h.effects_arrow.1).2, by simp⟩
  · simp only [if_true, List.cons_append] at h
    generalize hinput : (⟨[' '], .word ['t', 'h', 'r', 'o', 'w', 's']⟩ :: (thrownLexemes thrown ++
      ⟨g, .arrow⟩ :: rest) : List Lexeme) = input at h
    rcases thrown with _ | t
    · cases h with
      | throws _ h =>
        obtain ⟨-, rfl⟩ := List.cons.inj hinput
        exact ⟨(List.cons.inj h.effects_arrow.1).2, by simp⟩
      | effectsDone heffect => simp at hinput
      | _ => simp [thrownLexemes] at hinput
    · have ht : Readable t := hthrown t rfl
      simp only [thrownLexemes, List.cons_append, List.append_assoc, List.nil_append] at hinput
      cases h with
      | throws hparen h =>
        obtain ⟨-, rfl⟩ := List.cons.inj hinput
        exact absurd (lookahead_cons (by simp)) hparen
      | throwsType hread h =>
        simp only [List.cons.injEq] at hinput
        obtain ⟨-, -, rfl⟩ := hinput
        have heq := hread.stops ht.closed rfl rfl
        rw [heq, ← ht.legible.regap_self] at hread
        obtain ⟨-, rfl⟩ := List.cons.inj heq
        obtain ⟨hrest, rfl⟩ := h.effects_arrow
        exact ⟨(List.cons.inj hrest).2, by simpa using hread.readAs ht.legible⟩
      | effectsDone heffect => simp at hinput
      | _ => simp at hinput

theorem Reads.effects_of_lexemes {isAsync throws : Bool} {thrown : Option TypeExpr}
    {before after : Effects} {g g' : List Char} {rest rest' : List Lexeme}
    (hthrown : ∀ t ∈ thrown, Readable t) (hthrows : thrown ≠ none → throws = true)
    (h : Reads (.effects before after)
      (effectLexemes isAsync throws thrown ++ ⟨g, .arrow⟩ :: rest) (⟨g', .arrow⟩ :: rest')) :
    rest' = rest ∧ ∀ t ∈ thrown, ∃ t₀ ∈ after.thrown, ReadAs t t₀ := by
  rcases isAsync with _ | _
  · exact Reads.throws_of_lexemes hthrown hthrows h
  · generalize hinput : effectLexemes true throws thrown ++ ⟨g, .arrow⟩ :: rest = input at h
    simp only [effectLexemes, if_true, List.cons_append] at hinput
    cases h with
    | async h =>
      obtain ⟨-, rfl⟩ := List.cons.inj hinput
      exact Reads.throws_of_lexemes hthrown hthrows h
    | _ => simp at hinput

theorem ReadAs.function {ps ps₀ : List TypeExpr} {result result₀ : TypeExpr}
    {isAsync throws isAsync₀ throws₀ : Bool} {thrown thrown₀ : Option TypeExpr}
    (hps : ∀ t ∈ ps, Readable t) (hresult : Readable result) (hthrown : ∀ t ∈ thrown, Readable t)
    (hthrows : thrown ≠ none → throws = true)
    (h : ReadAs (.function ps result isAsync throws thrown)
      (.function ps₀ result₀ isAsync₀ throws₀ thrown₀)) :
    List.Forall₂ (fun t t₀ => startsWithInout t = false ∧ ReadAs t t₀) ps ps₀ ∧
      ReadAs result result₀ ∧ ∀ t ∈ thrown, ∃ t₀ ∈ thrown₀, ReadAs t t₀ := by
  have hes : ∀ e ∈ ps.map fun t => ((none : Option String), t), ReadableElement e :=
    List.forall_mem_map.2 fun t ht => ⟨hps t ht, by simp⟩
  have hlexemes : ps.map lexemes = (ps.map fun t => ((none : Option String), t)).map
      elementLexemes := by simp [elementLexemes]
  rw [ReadAs, lexemes_function _ _ hps hresult hthrown, hlexemes] at h
  generalize ht : TypeExpr.function ps₀ result₀ isAsync₀ throws₀ thrown₀ = t at h
  cases (h.primary_of_type (by rw [← ht]; rfl)).1 with
  | parenthesized hp =>
    cases hp with
    | function hlist heffects hread =>
      obtain ⟨hreads, rfl⟩ := hlist.list_of_lexemes hes
      obtain ⟨rfl, hthrown'⟩ := heffects.effects_of_lexemes hthrown hthrows
      obtain ⟨rfl, rfl, -, -, rfl⟩ := TypeExpr.function.inj ht
      rw [← List.append_nil (regap _ _)] at hread
      refine ⟨?_, hread.readAs hresult.legible, hthrown'⟩
      rw [List.forall₂_map_left_iff] at hreads
      rw [List.forall₂_map_right_iff]
      exact hreads.imp fun _ _ he => ⟨he.inout, he.reads⟩
    | tuple hlist =>
      obtain ⟨-, hrest⟩ := hlist.list_of_lexemes hes
      simp at hrest

/-! ### Optionals -/

/-- The marks that can stand behind a type, and what they make of it. -/
inductive Marks : Mark → (TypeExpr → TypeExpr) → Prop where
  | question : Marks .question .optional
  | exclamation : Marks .exclamation .unwrapped

/-- The last suffix of a type with a mark is the mark, unless there are none. -/
theorem Suffixes.of_marked {mark : Mark} {marked : TypeExpr → TypeExpr} (hmark : Marks mark marked)
    {text : List Char} {bare t u : TypeExpr} {input rest : List Lexeme}
    (h : Suffixes text bare u input rest) (hu : marked t = u) (hrest : rest = []) :
    (bare = marked t ∧ input = []) ∨
      ∃ front g, input = front ++ [⟨g, .mark mark⟩] ∧ Suffixes text bare t front [] := by
  induction h with
  | @question text bare _ g input rest hs ih =>
    rcases ih hu hrest with ⟨hbare, rfl⟩ | ⟨front, g', rfl, hs'⟩
    · cases hmark with
      | question =>
        obtain rfl := TypeExpr.optional.inj hbare
        exact .inr ⟨[], g, rfl, .done rfl⟩
      | exclamation => simp at hbare
    · exact .inr ⟨_ :: front, g', rfl, .question hs'⟩
  | @exclamation text bare _ g input rest hs ih =>
    rcases ih hu hrest with ⟨hbare, rfl⟩ | ⟨front, g', rfl, hs'⟩
    · cases hmark with
      | question => simp at hbare
      | exclamation =>
        obtain rfl := TypeExpr.unwrapped.inj hbare
        exact .inr ⟨[], g, rfl, .done rfl⟩
    · exact .inr ⟨_ :: front, g', rfl, .exclamation hs'⟩
  | metatype hw htext hs ih =>
    rcases ih hu hrest with ⟨hbare, rfl⟩ | ⟨front, g', rfl, hs'⟩
    · cases hmark <;> simp at hbare
    · exact .inr ⟨_ :: _ :: front, g', rfl, .metatype hw htext hs'⟩
  | done => exact .inl ⟨hu.symm, hrest⟩

theorem Reads.list_last {es : List (Option String × TypeExpr)} {p : Phrase}
    {input rest : List Lexeme} (h : Reads p input rest) (hp : p = .list es ∨ p = .elements es) :
    ∃ front g, input = front ++ ⟨g, .mark .closeParen⟩ :: rest := by
  induction h generalizing es with
  | listNil => exact ⟨[], _, rfl⟩
  | list _ _ ih => exact ih (.inr rfl)
  | @elementsMore _ _ g _ _ _ he _ _ ih =>
    obtain ⟨front, g', rfl⟩ := ih (.inr rfl)
    obtain ⟨a, rfl, -⟩ := he.exists_front
    exact ⟨a ++ ⟨g, .mark .comma⟩ :: front, g', by simp⟩
  | elementsLast he =>
    obtain ⟨a, rfl, -⟩ := he.exists_front
    exact ⟨a, _, rfl⟩
  | _ => simp at hp

theorem Reads.nominal_shape {p : Phrase} {input rest : List Lexeme} (h : Reads p input rest)
    {s : String} {t : TypeExpr} (hp : p = .nominal s t) : ∃ name ts, t = .nominal name ts := by
  induction h generalizing s with
  | member _ _ _ _ ih =>
    obtain ⟨rfl, rfl⟩ := Phrase.nominal.inj hp
    exact ih rfl
  | nominalDone =>
    obtain ⟨rfl, rfl⟩ := Phrase.nominal.inj hp
    exact ⟨_, _, rfl⟩
  | _ => cases hp

/-- A type with a mark is no primary type, unless it stands in parentheses. -/
theorem Reads.primary_marked {mark : Mark} {marked : TypeExpr → TypeExpr} (hmark : Marks mark marked)
    {t : TypeExpr} {input : List Lexeme} (h : Reads (.primary (marked t)) input []) :
    ∃ front g, input = front ++ [⟨g, .mark .closeParen⟩] := by
  generalize hu : marked t = u at h
  cases h with
  | parenthesized h =>
    cases h with
    | function => cases hmark <;> simp at hu
    | tuple hlist =>
      obtain ⟨front, g, rfl⟩ := hlist.list_last (.inl rfl)
      exact ⟨_ :: front, g, rfl⟩
  | bracketed h =>
    cases h with
    | dictionary | array => cases hmark <;> simp at hu
  | nominal h =>
    obtain ⟨name, ts, rfl⟩ := h.nominal_shape rfl
    cases hmark <;> simp at hu

theorem Marks.ne {mark : Mark} {marked : TypeExpr → TypeExpr} (h : Marks mark marked) :
    mark ≠ .closeParen ∧ mark ≠ .dot := by
  cases h <;> simp

theorem Marks.not_closing {mark : Mark} {marked : TypeExpr → TypeExpr} (h : Marks mark marked)
    {g : List Char} {rest : List Lexeme} :
    isClosing (lookahead (⟨g, .mark mark⟩ :: rest)) = false := by
  cases h <;> rw [lookahead_cons (by simp)] <;> rfl

theorem isStop_of_isClosing {token : Token} (h : isClosing [token] = true) : IsStop token := by
  rcases token with _ | _ | w | w | m
  · simp [isClosing] at h
  · simp [isClosing] at h
  · simp [isClosing] at h
  · simp [isClosing] at h
  · cases m <;> first | rfl | simp [isClosing] at h

/-- A row that starts with `any` or `some` starts a constraint in front of what does not end a
type. -/
theorem Closed.startsConstraint_eq {g w : List Char} {l rest : List Lexeme}
    (h : Closed false (⟨g, .word w⟩ :: l)) (hw : isConstraintWord w = true)
    (hrest : isClosing (lookahead rest) = false) :
    startsConstraint (⟨g, .word w⟩ :: (l ++ rest)) = true := by
  refine startsConstraint_cons.2 ⟨w, rfl, hw, ?_⟩
  rcases l with _ | ⟨⟨g', token⟩, l⟩
  · exact hrest
  · have hstop := h.of_word.not_stop
    rw [List.cons_append]
    by_cases hdot : token = .mark .dot
    · subst hdot
      rcases l ++ rest with _ | ⟨y, tail⟩
      · rfl
      · rw [lookahead_dot]
        rfl
    · rw [lookahead_cons hdot]
      by_contra hclosing
      exact hstop (isStop_of_isClosing (by simpa using hclosing))

section

variable {mark : Mark} {marked : TypeExpr → TypeExpr} {t t₀ : TypeExpr}

theorem Reads.suffixed_parentheses (hmark : Marks mark marked) (ht : Readable t)
    (h : Reads (.suffixed (marked t₀)) (⟨[], .mark .openParen⟩ ::
      (t.lexemes ++ ⟨[], .mark .closeParen⟩ :: [⟨[], .mark mark⟩])) []) :
    ReadAs t t₀ ∧ startsWithInout t = false := by
  have hes : ∀ e ∈ [((none : Option String), t)], ReadableElement e :=
    List.forall_mem_singleton.2 ⟨ht, by simp⟩
  generalize hu : marked t₀ = u at h
  cases h with
  | suffixed hp _ hs =>
    cases hp with
    | parenthesized hp =>
      cases hp with
      | function hlist heffects =>
        obtain ⟨-, rfl⟩ := Reads.list_of_lexemes hes hlist
        cases heffects
      | tuple hlist =>
        obtain ⟨hread, rfl⟩ := Reads.list_of_lexemes hes hlist
        cases hread with
        | @cons _ e _ _ he hnil =>
          cases hnil
          have hlabel : e = (none, e.2) := Prod.ext he.label rfl
          rw [hlabel] at hs
          refine ⟨?_, he.inout⟩
          rcases hs.of_marked hmark hu rfl with ⟨-, hnil⟩ | ⟨front, g, hfront, hs'⟩
          · simp at hnil
          · obtain rfl : front = [] := by
              rcases front with _ | ⟨y, front⟩
              · rfl
              · simp at hfront
            cases hs' with
            | done => exact he.reads

theorem Reads.suffixed_of_marked (hmark : Marks mark marked) {l : List Lexeme}
    (h : Reads (.suffixed (marked t₀)) (l ++ [⟨[], .mark mark⟩]) []) :
    Reads (.suffixed t₀) l [] := by
  generalize hu : marked t₀ = u at h
  generalize hinput : l ++ [⟨[], .mark mark⟩] = input at h
  cases h with
  | @suffixed bare _ front _ mid _ hp hfront hs =>
    rcases hs.of_marked hmark hu rfl with ⟨rfl, rfl⟩ | ⟨m, g, rfl, hs'⟩
    · obtain ⟨f, g, hf⟩ := hp.primary_marked hmark
      have hlast := (List.append_inj' (hinput.trans hf) rfl).2
      simp [hmark.ne.1] at hlast
    · rw [hfront, ← List.append_assoc] at hinput
      obtain rfl := (List.append_inj' hinput rfl).1
      have hdot : ∀ g, m ≠ [⟨g, .mark .dot⟩] := by
        rintro g rfl
        cases hs'
      have hnext : Alike isClosing (m ++ [⟨g, .mark mark⟩]) (m ++ []) :=
        Alike.append (.inl rfl) hdot
      rw [List.append_nil] at hnext
      exact .suffixed (hp.local hfront hnext) rfl hs'

/-- What a type has in front of a mark is read as the type, and the first word of it is not taken
for something else. -/
theorem ReadAs.of_marked (hmark : Marks mark marked) (ht : Readable t)
    (hlexemes : (marked t).lexemes = markedLexemes t mark) (h : ReadAs (marked t) (marked t₀)) :
    ReadAs t t₀ ∧ if t.needsParentheses then startsWithInout t = false
      else startsWithConstraint t = false := by
  rw [ReadAs, hlexemes] at h
  unfold markedLexemes at h
  have hverbatim : ∀ text, marked t₀ ≠ .verbatim text := by
    cases hmark <;> simp
  generalize hu : marked t₀ = u at h hverbatim
  split
  · next hparen =>
    rw [if_pos hparen] at h
    cases h with
    | constraint | join => exact absurd rfl (hverbatim _)
    | single _ hs =>
      subst hu
      exact hs.suffixed_parentheses hmark ht
  · next hparen =>
    rw [if_neg hparen] at h
    generalize hinput : t.lexemes ++ [⟨[], .mark mark⟩] = input at h
    cases h with
    | constraint | join => exact absurd rfl (hverbatim _)
    | single hstart hs =>
      subst hu hinput
      have hfirst : startsWithConstraint t = false := by
        obtain ⟨token, tail, htail, -⟩ := ht.first
        have hclosed := ht.closed
        rw [startsWithConstraint, ht.legible.firstToken_eq htail]
        rw [htail] at hclosed hstart
        split
        · next w heq =>
          obtain rfl := Option.some.inj heq
          by_contra hw
          have hnext : isClosing (lookahead [⟨[], .mark mark⟩]) = false := hmark.not_closing
          have := hclosed.startsConstraint_eq (by simpa using hw) hnext
          exact absurd (this.symm.trans hstart) (by simp)
        · rfl
      have hstart' := ht.legible.startsConstraint_eq hfirst []
      rw [List.append_nil] at hstart'
      exact ⟨.single hstart' (hs.suffixed_of_marked hmark) (by simp), hfirst⟩

end

/-! ### Names -/

/-- The arguments at the end of a name are read behind a name without them. -/
theorem Reads.nominal_split {p : Phrase} {input rest : List Lexeme} (h : Reads p input rest)
    {s name : String} {ts : List TypeExpr} (hp : p = .nominal s (.nominal name ts)) (hne : ts ≠ []) :
    ∃ path g args, input = path ++ ⟨g, .mark .less⟩ :: args ∧ Reads (.types ts) args rest ∧
      Reads (.nominal s (.nominal name [])) path [] := by
  induction h generalizing s with
  | @member _ _ _ g g' w _ _ _ ha hw _ _ ih =>
    obtain ⟨rfl, rfl⟩ := Phrase.nominal.inj hp
    obtain ⟨path, g'', args, rfl, hts, hpath⟩ := ih rfl
    obtain ⟨a, rfl, -⟩ := ha.exists_front
    refine ⟨a ++ ⟨g, .mark .dot⟩ :: ⟨g', .word w⟩ :: path, g'', args, by simp, hts, ?_⟩
    exact .member (ha.local rfl alike_cons_cons) hw hpath
  | nominalDone ha =>
    obtain ⟨rfl, hnominal⟩ := Phrase.nominal.inj hp
    obtain ⟨rfl, rfl⟩ := TypeExpr.nominal.inj hnominal
    cases ha with
    | arguments hts => exact ⟨[], _, _, rfl, hts, .nominalDone (.argumentsNone (by simp)) rfl⟩
    | argumentsNone => exact absurd rfl hne
  | _ => cases hp

/-- A name with arguments is read as a name with arguments only if its parts are. -/
theorem ReadAs.nominal {name name₀ : String} {ts ts₀ : List TypeExpr}
    (hname : Readable (.nominal name [])) (hts : ∀ t ∈ ts, Readable t) (hne : ts ≠ [])
    (hne₀ : ts₀ ≠ []) (h : ReadAs (.nominal name ts) (.nominal name₀ ts₀)) :
    ReadAs (.nominal name []) (.nominal name₀ []) ∧
      startsWithConstraint (.nominal name []) = false ∧ List.Forall₂ ReadAs ts ts₀ := by
  obtain ⟨w, tail, htail⟩ := hname.exists_word rfl
  have hclosed := hname.closed
  rw [htail] at hclosed
  rw [ReadAs, lexemes_arguments hname hne hts, htail] at h
  obtain ⟨hprimary, hstart⟩ := h.primary_of_type rfl
  have hfirst : startsWithConstraint (.nominal name []) = false := by
    rw [startsWithConstraint, hname.legible.firstToken_eq htail]
    by_contra hw
    have hnext : isClosing (lookahead (⟨[], .mark .less⟩ ::
        (commas (ts.map lexemes) ++ [⟨[], .mark .greater⟩]))) = false := by
      rw [lookahead_cons (by simp)]
      rfl
    have := hclosed.startsConstraint_eq (by simpa using hw) hnext
    exact absurd (this.symm.trans hstart) (by simp)
  have hlist : Closed true (commas (ts.map lexemes)) :=
    closed_commas (List.forall_mem_map.2 fun t ht => (hts t ht).closed.separators)
  rw [List.cons_append] at hprimary
  generalize hinput : tail ++ ⟨[], .mark .less⟩ ::
    (commas (ts.map lexemes) ++ [⟨[], .mark .greater⟩]) = input at hprimary
  cases hprimary with
  | nominal hn =>
    obtain ⟨path, g, args, rfl, hread, hpath⟩ := hn.nominal_split rfl hne₀
    obtain ⟨g', m, rfl, hm⟩ := hread.passes
    have hends : (tail ++ ⟨[], .mark .less⟩ :: commas (ts.map lexemes)) ++ [⟨[], .mark .greater⟩] =
        (path ++ ⟨g, .mark .less⟩ :: m) ++ [⟨g', .mark .greater⟩] := by simpa using hinput
    obtain ⟨rfl, rfl⟩ := Closed.unique_last hlist hm (List.append_inj' hends rfl).1
    refine ⟨?_, hfirst, ?_⟩
    · have hstart' := hname.legible.startsConstraint_eq hfirst []
      rw [List.append_nil] at hstart'
      rw [ReadAs]
      rw [htail] at hstart' ⊢
      exact .single hstart' (.suffixed (.nominal hpath) (List.append_nil _).symm (.done rfl))
        (by simp)
    · have hspelled : Spelled _ (commas (ts.map lexemes)) :=
        spelled_commas hne fun t ht => (hts t ht).legible
      obtain ⟨token, l, hl⟩ := hspelled.head
      have hself : regap [] (commas (ts.map lexemes)) = commas (ts.map lexemes) := by
        rw [hl, regap_cons]
      rw [← hself] at hread
      exact (hread.types_of_lexemes hne hts).1

/-- A name without arguments is read with a further segment behind what can have arguments. -/
theorem Reads.nominal_member {p : Phrase} {input rest : List Lexeme} (h : Reads p input rest)
    {s name : String} {ts : List TypeExpr} (hp : p = .nominal s (.nominal name ts))
    (hrest : rest = []) (g g' : List Char) {w : List Char} (hw : isMetatypeSuffix w = false) :
    Reads (.nominal s
        (.nominal (render (.nominal name ts) ++ "." ++ String.ofList (unticked w)) []))
      (input ++ [⟨g, .mark .dot⟩, ⟨g', .word w⟩]) [] := by
  induction h generalizing s with
  | member ha hw' _ _ ih =>
    obtain ⟨rfl, rfl⟩ := Phrase.nominal.inj hp
    obtain ⟨a, rfl, -⟩ := ha.exists_front
    rw [List.append_assoc, List.cons_append, List.cons_append]
    exact .member (ha.local rfl alike_cons_cons) hw' (ih rfl hrest)
  | @nominalDone name ts input rest ha =>
    subst hrest
    obtain ⟨rfl, hnominal⟩ := Phrase.nominal.inj hp
    obtain ⟨rfl, rfl⟩ := TypeExpr.nominal.inj hnominal
    have hread : Reads (.arguments ts) (input ++ [⟨g, .mark .dot⟩, ⟨g', .word w⟩])
        [⟨g, .mark .dot⟩, ⟨g', .word w⟩] := by
      cases ha with
      | arguments hts =>
        obtain ⟨a, rfl, -⟩ := hts.exists_front
        rw [List.append_nil, List.cons_append]
        exact .arguments (hts.local rfl trivial)
      | argumentsNone => exact .argumentsNone (by simp [lookahead_dot])
    exact .member hread hw (.nominalDone (.argumentsNone (by simp)) rfl)
  | _ => cases hp

/-- The last segment of a name without arguments stands behind a name that is read. -/
theorem Reads.nominal_last {p : Phrase} {input rest : List Lexeme} (h : Reads p input rest)
    {s name : String} (hp : p = .nominal s (.nominal name [])) (hrest : rest = [])
    {l : List Lexeme} {g g' w : List Char}
    (hinput : input = l ++ [⟨g, .mark .dot⟩, ⟨g', .word w⟩]) :
    ∃ first ts, Reads (.nominal s (.nominal first ts)) l [] ∧ isMetatypeSuffix w = false ∧
      name = render (.nominal first ts) ++ "." ++ String.ofList (unticked w) := by
  induction h generalizing s l with
  | @member s' ts t g₁ g₂ w₁ input mid rest ha hw hn iha ihn =>
    obtain ⟨rfl, rfl⟩ := Phrase.nominal.inj hp
    obtain ⟨a, rfl, -⟩ := ha.exists_front
    have hsplit : (a ++ [⟨g₁, .mark .dot⟩, ⟨g₂, .word w₁⟩]) ++ mid =
        l ++ [⟨g, .mark .dot⟩, ⟨g', .word w⟩] := by simpa using hinput
    have hmore {c : List Lexeme} (hl : l = (a ++ [⟨g₁, .mark .dot⟩, ⟨g₂, .word w₁⟩]) ++ c)
        (hmid : mid = c ++ [⟨g, .mark .dot⟩, ⟨g', .word w⟩]) :
        ∃ first ts, Reads (.nominal s' (.nominal first ts)) l [] ∧ isMetatypeSuffix w = false ∧
          name = render (.nominal first ts) ++ "." ++ String.ofList (unticked w) := by
      obtain ⟨first, ts', hread, hw', hname⟩ := ihn rfl hrest hmid
      refine ⟨first, ts', ?_, hw', hname⟩
      rw [hl, List.append_assoc]
      exact .member (ha.local rfl alike_cons_cons) hw hread
    rcases List.append_eq_append_iff.1 hsplit with ⟨c, hl, hmid⟩ | ⟨c, hl, hmid⟩
    · exact hmore hl hmid
    · rcases c with _ | ⟨x, _ | ⟨y, c⟩⟩
      · exact hmore (by simpa using hl.symm) (by simpa using hmid.symm)
      · -- The word in front of `mid` would be the last dot.
        obtain ⟨rfl, -⟩ := List.cons.inj hmid
        have : (a ++ [⟨g₁, .mark .dot⟩]) ++ [⟨g₂, .word w₁⟩] = l ++ [⟨g, .mark .dot⟩] := by
          simpa using hl
        have := (List.append_inj' this rfl).2
        simp at this
      · simp only [List.cons_append, List.cons.injEq, List.nil_eq_append_iff] at hmid
        obtain ⟨rfl, rfl, rfl, rfl⟩ := hmid
        obtain ⟨rfl, hwords⟩ := List.append_inj' hl rfl
        simp only [List.cons.injEq, Lexeme.mk.injEq, Token.word.injEq, and_true] at hwords
        obtain ⟨rfl, rfl, rfl⟩ := hwords
        have hread : Reads (.arguments ts) (a ++ []) [] := ha.local rfl (.inl rfl)
        rw [List.append_nil] at hread
        refine ⟨s', ts, .nominalDone hread rfl, hw, ?_⟩
        cases hn with
        | member ha' =>
          have := ha'.length_le
          simp at this
        | nominalDone => rfl
  | nominalDone ha =>
    obtain ⟨rfl, hnominal⟩ := Phrase.nominal.inj hp
    obtain ⟨rfl, rfl⟩ := TypeExpr.nominal.inj hnominal
    cases ha with
    | arguments hts => exact absurd rfl hts.types_ne_nil
    | argumentsNone => simp [hrest] at hinput
  | _ => cases hp

end FluentBuilder.TypeExpr
