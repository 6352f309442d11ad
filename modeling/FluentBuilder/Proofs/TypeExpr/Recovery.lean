import FluentBuilder.Proofs.TypeExpr.Adequacy
import FluentBuilder.Proofs.TypeExpr.Locality
import FluentBuilder.Proofs.TypeExpr.Rendering

/-!
# Reading a rendered type

`Faithful t`: the lexemes of the rendered type `t` are read as `t`, in front of everything that can
stand behind a type, and also with a suffix behind them where the text of `t` takes one as it is.
Each constructor keeps this property under the condition that the reader does not take the first
word of a part for something else: `inout` in front of an element is skipped, and `any` or `some` in
front of a mark starts a constraint.
-/

namespace FluentBuilder.TypeExpr

open Text Lexeme

def firstToken? (t : TypeExpr) : Option Token := (Token.first? (render t).toList).map (·.1)

/-- Whether the text of the type starts with `any` or `some`. -/
def startsWithConstraint (t : TypeExpr) : Bool :=
  match firstToken? t with
  | some (.word w) => isConstraintWord w
  | _ => false

/-- The word that is skipped in front of an element. -/
def inoutWord : List Char := ['i', 'n', 'o', 'u', 't']

def startsWithInout (t : TypeExpr) : Bool := firstToken? t == some (.word inoutWord)

theorem Legible.firstToken_eq {t : TypeExpr} (h : t.Legible) {x : Lexeme} {l : List Lexeme}
    (hl : t.lexemes = x :: l) : firstToken? t = some x.token := by
  have hspelled : Spelled (render t).toList (x :: l) := hl ▸ h
  obtain ⟨-, hvalid, hends, -⟩ := hspelled.stands
  obtain ⟨token, tail, htail⟩ := hspelled.head
  obtain ⟨rfl, rfl⟩ := List.cons.inj htail
  rw [List.append_nil] at hends
  have : Token.first? (render t).toList = some (token, l.flatMap chars) := by
    rw [Token.first?_eq_some_iff]
    refine ⟨?_, hvalid, hends⟩
    rw [← hspelled.chars_eq]
    simp [chars]
  simp [firstToken?, this]

/-! ### What a type starts with -/

theorem Reads.primary_first {t : TypeExpr} {x : Lexeme} {input rest : List Lexeme}
    (h : Reads (.primary t) (x :: input) rest) :
    x.token = .mark .openParen ∨ x.token = .mark .openBracket ∨ ∃ w, x.token = .word w := by
  cases h with
  | parenthesized => exact .inl rfl
  | bracketed => exact .inr (.inl rfl)
  | nominal => exact .inr (.inr ⟨_, rfl⟩)

theorem Reads.suffixed_first {t : TypeExpr} {x : Lexeme} {input rest : List Lexeme}
    (h : Reads (.suffixed t) (x :: input) rest) :
    x.token = .mark .openParen ∨ x.token = .mark .openBracket ∨ ∃ w, x.token = .word w := by
  cases h with
  | suffixed hp => exact hp.primary_first

theorem Reads.type_first {t : TypeExpr} {x : Lexeme} {input rest : List Lexeme}
    (h : Reads (.type t) (x :: input) rest) :
    x.token = .mark .openParen ∨ x.token = .mark .openBracket ∨ ∃ w, x.token = .word w := by
  cases h with
  | constraint hstart =>
    obtain ⟨w, hw, -⟩ := startsConstraint_cons.1 hstart
    exact .inr (.inr ⟨w, hw⟩)
  | join _ hs => exact hs.suffixed_first
  | single _ hs => exact hs.suffixed_first

theorem Reads.element_first {e : Option String × TypeExpr} {x : Lexeme} {input rest : List Lexeme}
    (h : Reads (.element e) (x :: input) rest) : x.token ≠ .mark .closeParen := by
  obtain ⟨g, token⟩ := x
  rintro ⟨⟩
  have hskip : skipAttributes 0 (⟨g, .mark .closeParen⟩ :: input) =
      .ok (⟨g, .mark .closeParen⟩ :: input) := rfl
  have hlabel : readLabel (⟨g, .mark .closeParen⟩ :: input) =
      (none, ⟨g, .mark .closeParen⟩ :: input) := rfl
  cases h with
  | variadic ha hl hc ht | element ha hl hc ht =>
    obtain rfl := Except.ok.inj (hskip.symm.trans ha)
    obtain ⟨rfl, rfl⟩ := Prod.mk.inj (hlabel.symm.trans hl)
    obtain rfl := Except.ok.inj (hskip.symm.trans hc)
    rcases ht.type_first with hx | hx | ⟨w, hx⟩ <;> simp at hx

theorem Reads.elements_first {es : List (Option String × TypeExpr)} {input rest : List Lexeme}
    (h : Reads (.elements es) input rest) : lookahead input ≠ [.mark .closeParen] := by
  intro hlook
  obtain ⟨g, tail, rfl⟩ := (lookahead_eq_singleton (by simp)).1 hlook
  cases h with
  | elementsMore he => exact he.element_first rfl
  | elementsLast he => exact he.element_first rfl

/-- A word in front of what no name goes on with is a name. -/
theorem Reads.suffixed_word {t : TypeExpr} {g w : List Char} {input rest : List Lexeme}
    (h : Reads (.suffixed t) (⟨g, .word w⟩ :: input) rest)
    (hname : endsName (lookahead input) = true) (hsuffix : isSuffix (lookahead input) = false) :
    rest = input := by
  simp only [endsName, bne_iff_ne, ne_eq, Bool.and_eq_true, Bool.not_eq_true'] at hname
  cases h with
  | @suffixed bare _ front _ mid _ hp hfront hs =>
    have hmid : mid = input := by
      cases hp with
      | nominal hn =>
        cases hn with
        | member ha =>
          cases ha with
          | arguments => simp [lookahead_cons] at hname
          | argumentsNone => simp_all [lookahead_dot, isMember]
        | nominalDone ha =>
          cases ha with
          | arguments => simp [lookahead_cons] at hname
          | argumentsNone => rfl
    subst hmid
    cases hs with
    | question => simp [lookahead_cons, isSuffix] at hsuffix
    | exclamation => simp [lookahead_cons, isSuffix] at hsuffix
    | metatype hw => simp [lookahead_dot, isSuffix, hw] at hsuffix
    | done => rfl

theorem Reads.not_word_colon {t : TypeExpr} {g g' w : List Char} {input rest : List Lexeme}
    (h : Reads (.type t) (⟨g, .word w⟩ :: ⟨g', .mark .colon⟩ :: input) rest) :
    rest = ⟨g', .mark .colon⟩ :: input := by
  have hnext : lookahead (⟨g', .mark .colon⟩ :: input) = [.mark .colon] := lookahead_cons (by simp)
  cases h with
  | constraint hstart =>
    obtain ⟨-, -, -, hclosing⟩ := startsConstraint_cons.1 hstart
    simp [hnext, isClosing] at hclosing
  | join _ hs =>
    have := hs.suffixed_word (by simp [hnext, endsName, isMember]) (by simp [hnext, isSuffix])
    simp at this
  | single _ hs =>
    exact hs.suffixed_word (by simp [hnext, endsName, isMember]) (by simp [hnext, isSuffix])

theorem Reads.not_word_word_colon {t : TypeExpr} {g g' g'' w w' : List Char}
    {input rest : List Lexeme}
    (h : Reads (.type t) (⟨g, .word w⟩ :: ⟨g', .word w'⟩ :: ⟨g'', .mark .colon⟩ :: input) rest) :
    rest = ⟨g'', .mark .colon⟩ :: input ∨
      rest = ⟨g', .word w'⟩ :: ⟨g'', .mark .colon⟩ :: input := by
  have hnext : lookahead (⟨g'', .mark .colon⟩ :: input) = [.mark .colon] := lookahead_cons (by simp)
  have hnext' : lookahead (⟨g', .word w'⟩ :: ⟨g'', .mark .colon⟩ :: input) = [.word w'] :=
    lookahead_cons (by simp)
  cases h with
  | constraint _ hs hj =>
    have := hs.suffixed_word (by simp [hnext, endsName, isMember]) (by simp [hnext, isSuffix])
    subst this
    cases hj with
    | joinedDone => exact .inl rfl
  | join _ hs =>
    have := hs.suffixed_word (by simp [hnext', endsName, isMember]) (by simp [hnext', isSuffix])
    simp at this
  | single _ hs =>
    exact .inr (hs.suffixed_word (by simp [hnext', endsName, isMember])
      (by simp [hnext', isSuffix]))

theorem Reads.readLabel_eq {t : TypeExpr} {front tail : List Lexeme} {z : Lexeme}
    (h : Reads (.type t) (front ++ z :: tail) (z :: tail)) (hword : ∀ w, z.token ≠ .word w)
    (hcolon : z.token ≠ .mark .colon) :
    readLabel (front ++ z :: tail) = (none, front ++ z :: tail) := by
  refine readLabel_eq_none (fun g g' w r heq => ?_) (fun g g' g'' w w' r heq => ?_)
  · rw [heq] at h
    obtain ⟨rfl, -⟩ := List.cons.inj h.not_word_colon
    exact hcolon rfl
  · rw [heq] at h
    rcases h.not_word_word_colon with hrest | hrest
    · obtain ⟨rfl, -⟩ := List.cons.inj hrest
      exact hcolon rfl
    · obtain ⟨rfl, -⟩ := List.cons.inj hrest
      exact hword _ rfl

/-! ### Faithful types -/

/-- Whether nothing goes on with the next tokens behind a primary type. -/
def endsPrimary (tokens : List Token) : Bool :=
  endsName tokens && !isEffect tokens && tokens != [.arrow]

/-- The lexemes of the rendered type are read as the type, and with the suffixes behind them as the
type that these make of it, unless it needs parentheses or its first word another token. -/
structure Faithful (t : TypeExpr) : Prop where
  legible : t.Legible
  reads : ∀ rest, isClosing (lookahead rest) = true → Reads (.type t) (t.lexemes ++ rest) rest
  takes : t.needsParentheses = false → startsWithConstraint t = false → ∀ u mid rest,
    endsPrimary (lookahead mid) = true → Suffixes (textOf t.lexemes) t u mid rest →
    Reads (.suffixed u) (t.lexemes ++ mid) rest

theorem endsPrimary_of_isClosing {tokens : List Token} (h : isClosing tokens = true) :
    endsPrimary tokens = true := by
  unfold isClosing at h
  split at h <;> first | rfl | simp at h

theorem isSuffix_of_isClosing {tokens : List Token} (h : isClosing tokens = true) :
    isSuffix tokens = false := by
  unfold isClosing at h
  split at h <;> first | rfl | simp at h

theorem ne_of_isClosing {tokens : List Token} (h : isClosing tokens = true) {token : Token}
    (htoken : isClosing [token] = false) : tokens ≠ [token] := by
  rintro rfl
  rw [htoken] at h
  simp at h

theorem Legible.startsConstraint_eq {t : TypeExpr} (h : t.Legible)
    (hstart : startsWithConstraint t = false) (rest : List Lexeme) :
    startsConstraint (t.lexemes ++ rest) = false := by
  obtain ⟨token, tail, htail⟩ := h.head
  rw [startsWithConstraint, h.firstToken_eq htail] at hstart
  rw [htail, List.cons_append]
  by_contra hnot
  obtain ⟨w, rfl, hw, -⟩ := startsConstraint_cons.1 (Bool.eq_true_of_not_eq_false hnot)
  exact absurd (hw.symm.trans hstart) (by simp)

/-- A type that takes suffixes is faithful if it does not start with a constraint. -/
theorem faithful_of_takes {t : TypeExpr} (h : t.Legible) (hstart : startsWithConstraint t = false)
    (htakes : ∀ u mid rest, endsPrimary (lookahead mid) = true →
      Suffixes (textOf t.lexemes) t u mid rest → Reads (.suffixed u) (t.lexemes ++ mid) rest) :
    Faithful t := by
  refine ⟨h, fun rest hrest => ?_, fun _ _ => htakes⟩
  have hs := htakes t rest rest (endsPrimary_of_isClosing hrest) (.done (isSuffix_of_isClosing hrest))
  exact .single (h.startsConstraint_eq hstart rest) hs (ne_of_isClosing hrest rfl)

theorem faithful_of_primary {t : TypeExpr} (h : t.Legible) (hstart : startsWithConstraint t = false)
    (hread : ∀ mid, endsPrimary (lookahead mid) = true →
      Reads (.primary t) (t.lexemes ++ mid) mid) : Faithful t :=
  faithful_of_takes h hstart fun _ mid _ hmid hs => .suffixed (hread mid hmid) rfl hs

theorem Faithful.reads_regap {t : TypeExpr} (h : Faithful t) (gap : List Char) {rest : List Lexeme}
    (hrest : isClosing (lookahead rest) = true) :
    Reads (.type t) (regap gap t.lexemes ++ rest) rest := by
  have := h.reads rest hrest
  obtain ⟨token, tail, htail⟩ := h.legible.head
  rw [htail] at this ⊢
  exact this.type_regap gap

theorem isClosing_mark {m : Mark} {gap : List Char} {rest : List Lexeme}
    (h : isClosing [.mark m] = true) : isClosing (lookahead (⟨gap, .mark m⟩ :: rest)) = true := by
  rwa [lookahead_cons (by rintro ⟨⟩; simp [isClosing] at h)]

/-! ### Collections -/

theorem startsWithConstraint_mark {t : TypeExpr} (h : t.Legible) {m : Mark} {l : List Lexeme}
    (hl : t.lexemes = ⟨[], .mark m⟩ :: l) : startsWithConstraint t = false := by
  simp [startsWithConstraint, h.firstToken_eq hl]

theorem faithful_array {t : TypeExpr} (h : Faithful t) : Faithful (.array t) := by
  have hspelled := spelled_array h.legible
  refine faithful_of_primary hspelled.legible
    (startsWithConstraint_mark hspelled.legible hspelled.lexemes_eq) fun mid _ => ?_
  rw [hspelled.lexemes_eq]
  have := h.reads (⟨[], .mark .closeBracket⟩ :: mid) (isClosing_mark rfl)
  simpa using Reads.bracketed (.array this)

theorem faithful_dictionary {key value : TypeExpr} (hkey : Faithful key) (hvalue : Faithful value) :
    Faithful (.dictionary key value) := by
  have hspelled := spelled_dictionary hkey.legible hvalue.legible
  refine faithful_of_primary hspelled.legible
    (startsWithConstraint_mark hspelled.legible hspelled.lexemes_eq) fun mid _ => ?_
  rw [hspelled.lexemes_eq]
  have hclose : isClosing (lookahead (⟨[], .mark .closeBracket⟩ :: mid)) = true :=
    isClosing_mark rfl
  have hv := hvalue.reads_regap [' '] hclose
  have hk := hkey.reads (⟨[], .mark .colon⟩ :: (regap [' '] value.lexemes ++
    ⟨[], .mark .closeBracket⟩ :: mid)) (isClosing_mark rfl)
  simpa using Reads.bracketed (.dictionary hk hv)

/-! ### Lists in parentheses -/

theorem Faithful.skipAttributes_eq {t : TypeExpr} (h : Faithful t)
    (hinout : startsWithInout t = false) (gap : List Char) (rest : List Lexeme) :
    skipAttributes 0 (regap gap t.lexemes ++ rest) = .ok (regap gap t.lexemes ++ rest) := by
  obtain ⟨token, tail, htail⟩ := h.legible.head
  have hread := h.reads [] rfl
  rw [startsWithInout, h.legible.firstToken_eq htail] at hinout
  rw [htail] at hread ⊢
  rcases hread.type_first with hx | hx | ⟨w, hx⟩
  · simp only at hx
    simp [hx, skipAttributes]
  · simp only at hx
    simp [hx, skipAttributes]
  · simp only at hx
    subst hx
    have hw : w ≠ ['i', 'n', 'o', 'u', 't'] := by simpa [inoutWord] using hinout
    simp [skipAttributes, hw]

theorem Faithful.reads_element {label : Option String} {t : TypeExpr} (h : Faithful t)
    (hinout : startsWithInout t = false)
    (hlabel : ∀ text ∈ label, IsPlain text.toList ∧ text.toList ≠ inoutWord) (gap : List Char)
    {x : Lexeme} {tail : List Lexeme} (hx : x.token = .mark .comma ∨ x.token = .mark .closeParen) :
    Reads (.element (label, t)) (regap gap (elementLexemes (label, t)) ++ x :: tail) (x :: tail) := by
  have hclosing : isClosing (lookahead (x :: tail)) = true := by
    obtain ⟨g, token⟩ := x
    rcases hx with hx | hx
    · simp only at hx
      rw [hx]
      exact isClosing_mark rfl
    · simp only at hx
      rw [hx]
      exact isClosing_mark rfl
  have hdots : lookahead (x :: tail) ≠ [.ellipsis] := ne_of_isClosing hclosing rfl
  rcases label with _ | text
  · have hread := h.reads_regap gap hclosing
    have hskip := h.skipAttributes_eq hinout gap (x :: tail)
    have hnone := hread.readLabel_eq (by rcases hx with hx | hx <;> simp [hx])
      (by rcases hx with hx | hx <;> simp [hx])
    exact .element hskip hnone hskip hread hdots
  · obtain ⟨hplain, hne⟩ := hlabel text rfl
    have hempty : text ≠ "" := by
      rintro rfl
      exact hplain.ne_nil rfl
    have hread := h.reads_regap [' '] hclosing
    have hskip := h.skipAttributes_eq hinout [' '] (x :: tail)
    simp only [elementLexemes, hempty, if_false, regap_cons, List.cons_append]
    have hword : skipAttributes 0 (⟨gap, .word text.toList⟩ :: ⟨[], .mark .colon⟩ ::
        (regap [' '] t.lexemes ++ x :: tail)) = .ok (⟨gap, .word text.toList⟩ ::
          ⟨[], .mark .colon⟩ :: (regap [' '] t.lexemes ++ x :: tail)) := by
      simp only [inoutWord] at hne
      simp only [skipAttributes, hne, if_false]
    refine .element hword ?_ hskip hread hdots
    simp only [readLabel, unticked_of_plain hplain, String.ofList_toList]

theorem commas_cons_cons {l l' : List Lexeme} {ls : List (List Lexeme)} :
    commas (l :: l' :: ls) = l ++ ⟨[], .mark .comma⟩ :: regap [' '] (commas (l' :: ls)) := rfl

theorem regap_commas_cons {l : List Lexeme} {ls : List (List Lexeme)} {gap : List Char}
    (hl : l ≠ []) (hls : ls ≠ []) :
    regap gap (commas (l :: ls)) =
      regap gap l ++ ⟨[], .mark .comma⟩ :: regap [' '] (commas ls) := by
  rcases ls with _ | ⟨l', ls⟩
  · exact absurd rfl hls
  · rw [commas_cons_cons, regap_append hl]

/-- The conditions under which an element is read as it is written. -/
structure FaithfulElement (e : Option String × TypeExpr) : Prop where
  faithful : Faithful e.2
  inout : startsWithInout e.2 = false
  label : ∀ text ∈ e.1, IsPlain text.toList ∧ text.toList ≠ inoutWord

theorem FaithfulElement.spelled {e : Option String × TypeExpr} (h : FaithfulElement e) :
    Spelled (labelText e.1 ++ render e.2).toList (elementLexemes e) :=
  spelled_element h.faithful.legible fun text htext => (h.label text htext).1

theorem reads_elements {es : List (Option String × TypeExpr)} (hne : es ≠ [])
    (h : ∀ e ∈ es, FaithfulElement e) (gap : List Char) (rest : List Lexeme) :
    Reads (.elements es)
      (regap gap (commas (es.map elementLexemes)) ++ ⟨[], .mark .closeParen⟩ :: rest) rest := by
  induction es generalizing gap with
  | nil => exact absurd rfl hne
  | cons e es ih =>
    have he := h e (by simp)
    have hel {x : Lexeme} (tail : List Lexeme)
        (hx : x.token = .mark .comma ∨ x.token = .mark .closeParen) :
        Reads (.element e) (regap gap (elementLexemes e) ++ x :: tail) (x :: tail) :=
      he.faithful.reads_element he.inout he.label gap hx
    rcases es with _ | ⟨e', es⟩
    · exact .elementsLast (hel _ (.inr rfl))
    · have hes := ih (by simp) (fun e' he' => h e' (List.mem_cons_of_mem _ he')) [' ']
      rw [List.map_cons, regap_commas_cons he.spelled.ne_nil (by simp), List.append_assoc,
        List.cons_append]
      exact .elementsMore (hel _ (.inl rfl)) hes

theorem reads_list {es : List (Option String × TypeExpr)} (h : ∀ e ∈ es, FaithfulElement e)
    (rest : List Lexeme) :
    Reads (.list es) (commas (es.map elementLexemes) ++ ⟨[], .mark .closeParen⟩ :: rest) rest := by
  rcases es with _ | ⟨e, es⟩
  · exact .listNil
  · have hspelled : Spelled _ (commas ((e :: es).map elementLexemes)) :=
      spelled_commas (by simp) fun e he => (h e he).spelled
    obtain ⟨token, tail, htail⟩ := hspelled.head
    have hes := reads_elements (by simp) h [] rest
    rw [htail, regap_cons, ← htail] at hes
    exact .list hes.elements_first hes

theorem faithful_tuple {es : List (Option String × TypeExpr)} (h : ∀ e ∈ es, FaithfulElement e)
    (hsingle : ∀ t, es ≠ [(none, t)]) : Faithful (.tuple es) := by
  have hspelled := spelled_tuple (fun e he => (h e he).faithful.legible)
    fun e he text htext => ((h e he).label text htext).1
  refine faithful_of_primary hspelled.legible
    (startsWithConstraint_mark hspelled.legible hspelled.lexemes_eq) fun mid hmid => ?_
  simp only [endsPrimary, Bool.and_eq_true, Bool.not_eq_true', bne_iff_ne] at hmid
  have htuple : ofElements es = .tuple es := by
    rcases es with _ | ⟨⟨_ | label, t⟩, _ | ⟨e, es⟩⟩
    · rfl
    · exact absurd rfl (hsingle t)
    all_goals rfl
  rw [hspelled.lexemes_eq, ← htuple]
  simpa using Reads.parenthesized (.tuple (reads_list h mid) hmid.1.2 hmid.2)

theorem Faithful.reads_parentheses {t : TypeExpr} (h : Faithful t)
    (hinout : startsWithInout t = false) {mid : List Lexeme}
    (hmid : endsPrimary (lookahead mid) = true) :
    Reads (.primary t) (⟨[], .mark .openParen⟩ :: (t.lexemes ++ ⟨[], .mark .closeParen⟩ :: mid))
      mid := by
  have helement : ∀ e ∈ [((none : Option String), t)], FaithfulElement e := by
    intro e he
    obtain rfl := List.mem_singleton.1 he
    exact ⟨h, hinout, by simp⟩
  have hlist : Reads (.list [(none, t)]) (t.lexemes ++ ⟨[], .mark .closeParen⟩ :: mid) mid :=
    reads_list helement mid
  simp only [endsPrimary, Bool.and_eq_true, Bool.not_eq_true', bne_iff_ne] at hmid
  exact .parenthesized (.tuple hlist hmid.1.2 hmid.2)

/-! ### Optionals -/

/-- A type with a mark behind it is faithful if the wrapped type is read as far as the mark. -/
theorem faithful_marked {t marked : TypeExpr} {mark : Mark} (h : Faithful t)
    (hmark : endsPrimary [.mark mark] = true) (hdot : mark ≠ .dot)
    (hstep : ∀ text u input rest, Suffixes (text ++ chars ⟨[], .mark mark⟩) marked u input rest →
      Suffixes text t u (⟨[], .mark mark⟩ :: input) rest)
    (hspelled : Spelled (render marked).toList (markedLexemes t mark))
    (hstart : if t.needsParentheses then startsWithInout t = false
      else startsWithConstraint t = false) : Faithful marked := by
  have hnext (mid : List Lexeme) : endsPrimary (lookahead (⟨[], .mark mark⟩ :: mid)) = true := by
    rwa [lookahead_cons (by simpa using hdot)]
  have hlexemes := hspelled.lexemes_eq
  unfold markedLexemes at hlexemes
  split at hstart
  · next hparen =>
    rw [if_pos hparen] at hlexemes
    refine faithful_of_takes hspelled.legible (startsWithConstraint_mark hspelled.legible hlexemes)
      fun u mid rest hmid hs => ?_
    have hprimary := h.reads_parentheses hstart (hnext mid)
    have hfront : t.lexemes ++ [⟨[], .mark .closeParen⟩, ⟨[], .mark mark⟩] =
        (t.lexemes ++ [⟨[], .mark .closeParen⟩]) ++ [⟨[], .mark mark⟩] := by simp
    rw [hlexemes, hfront, ← List.cons_append, textOf_append (by simp)] at hs
    have hs' := hstep _ _ _ _ (by simpa using hs)
    rw [hlexemes]
    exact .suffixed (by simpa using hprimary) (by simp) hs'
  · next hparen =>
    rw [if_neg hparen] at hlexemes
    rw [Bool.not_eq_true] at hparen
    have hfirst : startsWithConstraint marked = false := by
      obtain ⟨token, tail, htail⟩ := h.legible.head
      have hmarked : marked.lexemes = ⟨[], token⟩ :: (tail ++ [⟨[], .mark mark⟩]) := by
        rw [hlexemes, htail, List.cons_append]
      rw [startsWithConstraint, hspelled.legible.firstToken_eq hmarked]
      rwa [startsWithConstraint, h.legible.firstToken_eq htail] at hstart
    refine faithful_of_takes hspelled.legible hfirst fun u mid rest hmid hs => ?_
    rw [hlexemes, textOf_append h.legible.ne_nil] at hs
    have hs' := hstep _ _ _ _ (by simpa using hs)
    rw [hlexemes, List.append_assoc]
    exact h.takes hparen hstart u _ rest (hnext mid) hs'

theorem faithful_optional {t : TypeExpr} (h : Faithful t)
    (hstart : if t.needsParentheses then startsWithInout t = false
      else startsWithConstraint t = false) : Faithful (.optional t) :=
  faithful_marked h rfl (by simp) (fun _ _ _ _ hs => .question hs) (spelled_optional h.legible) hstart

theorem faithful_unwrapped {t : TypeExpr} (h : Faithful t)
    (hstart : if t.needsParentheses then startsWithInout t = false
      else startsWithConstraint t = false) : Faithful (.unwrapped t) :=
  faithful_marked h rfl (by simp) (fun _ _ _ _ hs => .exclamation hs) (spelled_unwrapped h.legible)
    hstart

/-! ### Functions -/

theorem reads_throws {before : Effects} {throws : Bool} {thrown : Option TypeExpr}
    (h : ∀ t ∈ thrown, Faithful t) (hbefore : before.throws = false ∧ before.thrown = none)
    (hthrown : thrown ≠ none → throws = true) (rest : List Lexeme) :
    Reads (.effects before { before with throws := throws, thrown := thrown })
      ((if throws then ⟨[' '], .word ['t', 'h', 'r', 'o', 'w', 's']⟩ :: thrownLexemes thrown
        else []) ++ ⟨[' '], .arrow⟩ :: rest) (⟨[' '], .arrow⟩ :: rest) := by
  obtain ⟨isAsync, before_throws, before_thrown⟩ := before
  obtain ⟨rfl, rfl⟩ := hbefore
  have hdone (effects : Effects) : Reads (.effects effects effects) (⟨[' '], .arrow⟩ :: rest)
      (⟨[' '], .arrow⟩ :: rest) := .effectsDone (by rw [lookahead_cons (by simp)]; rfl)
  rcases throws with _ | _
  · obtain rfl : thrown = none := by simpa using hthrown
    exact hdone _
  · rcases thrown with _ | t
    · refine .throws ?_ (hdone _)
      simp [thrownLexemes, lookahead_cons]
    · have ht := (h t rfl).reads (⟨[], .mark .closeParen⟩ :: ⟨[' '], .arrow⟩ :: rest)
        (isClosing_mark rfl)
      simpa [thrownLexemes] using Reads.throwsType ht (hdone _)

theorem reads_effects (isAsync : Bool) {throws : Bool} {thrown : Option TypeExpr}
    (h : ∀ t ∈ thrown, Faithful t) (hthrown : thrown ≠ none → throws = true) (rest : List Lexeme) :
    Reads (.effects {} ⟨isAsync, throws, thrown⟩)
      (effectLexemes isAsync throws thrown ++ ⟨[' '], .arrow⟩ :: rest)
      (⟨[' '], .arrow⟩ :: rest) := by
  unfold effectLexemes
  rw [List.append_assoc]
  rcases isAsync with _ | _
  · exact reads_throws h ⟨rfl, rfl⟩ hthrown rest
  · exact .async (reads_throws h ⟨rfl, rfl⟩ hthrown rest)

/-- A function is read as far as its result, which goes on as long as it can. -/
theorem faithful_function {ps : List TypeExpr} {result : TypeExpr} {isAsync throws : Bool}
    {thrown : Option TypeExpr} (hps : ∀ t ∈ ps, Faithful t ∧ startsWithInout t = false)
    (hresult : Faithful result) (h : ∀ t ∈ thrown, Faithful t)
    (hthrown : thrown ≠ none → throws = true) :
    Faithful (.function ps result isAsync throws thrown) := by
  have hspelled : Spelled (render (.function ps result isAsync throws thrown)).toList _ :=
    spelled_function (fun t ht => (hps t ht).1.legible) hresult.legible fun t ht => (h t ht).legible
  refine ⟨hspelled.legible, fun rest hrest => ?_, by simp [needsParentheses]⟩
  have helements : ∀ e ∈ ps.map fun t => ((none : Option String), t), FaithfulElement e := by
    intro e he
    obtain ⟨t, ht, rfl⟩ := List.mem_map.1 he
    exact ⟨(hps t ht).1, (hps t ht).2, by simp⟩
  have hreads := hresult.reads_regap [' '] hrest
  have heffects := reads_effects isAsync h hthrown (regap [' '] result.lexemes ++ rest)
  have hlist := reads_list helements (effectLexemes isAsync throws thrown ++ ⟨[' '], .arrow⟩ ::
    (regap [' '] result.lexemes ++ rest))
  have hprimary : Reads (.primary (.function ps result isAsync throws thrown))
      ((function ps result isAsync throws thrown).lexemes ++ rest) rest := by
    have := Reads.parenthesized (g := []) (.function hlist heffects hreads)
    rw [hspelled.lexemes_eq]
    simpa [Function.comp_def, elementLexemes] using this
  refine .single ?_ (.suffixed hprimary rfl (.done (isSuffix_of_isClosing hrest)))
    (ne_of_isClosing hrest rfl)
  exact hspelled.legible.startsConstraint_eq
    (startsWithConstraint_mark hspelled.legible hspelled.lexemes_eq) rest

/-! ### Names -/

theorem reads_types {ts : List TypeExpr} (hne : ts ≠ []) (h : ∀ t ∈ ts, Faithful t)
    (gap : List Char) (rest : List Lexeme) :
    Reads (.types ts) (regap gap (commas (ts.map lexemes)) ++ ⟨[], .mark .greater⟩ :: rest)
      rest := by
  induction ts generalizing gap with
  | nil => exact absurd rfl hne
  | cons t ts ih =>
    have ht := h t (by simp)
    rcases ts with _ | ⟨t', ts⟩
    · exact .typesLast (ht.reads_regap gap (isClosing_mark rfl))
    · have hts := ih (by simp) (fun t' ht' => h t' (List.mem_cons_of_mem _ ht')) [' ']
      rw [List.map_cons, regap_commas_cons ht.legible.ne_nil (by simp), List.append_assoc,
        List.cons_append]
      exact .typesMore (ht.reads_regap gap (isClosing_mark rfl)) hts

theorem reads_arguments {ts : List TypeExpr} (hne : ts ≠ []) (h : ∀ t ∈ ts, Faithful t)
    (rest : List Lexeme) :
    Reads (.arguments ts)
      (⟨[], .mark .less⟩ :: (commas (ts.map lexemes) ++ ⟨[], .mark .greater⟩ :: rest)) rest := by
  have hspelled : Spelled _ (commas (ts.map lexemes)) :=
    spelled_commas hne fun t ht => (h t ht).legible
  obtain ⟨token, tail, htail⟩ := hspelled.head
  have hts := reads_types hne h [] rest
  rw [htail, regap_cons, ← htail] at hts
  exact .arguments hts

theorem Suffixes.eq_of_nominal {text : List Char} {bare t : TypeExpr} {input rest : List Lexeme}
    (h : Suffixes text bare t input rest) {name : String} {ts : List TypeExpr}
    (ht : t = .nominal name ts) : bare = t ∧ input = rest := by
  induction h with
  | question _ ih | exclamation _ ih | metatype _ _ _ ih =>
    have := (ih ht).1
    rw [ht] at this
    simp at this
  | done => exact ⟨rfl, rfl⟩

theorem Reads.types_ne_nil {ts : List TypeExpr} {input rest : List Lexeme}
    (h : Reads (.types ts) input rest) : ts ≠ [] := by
  cases h <;> simp

/-- A name that is read without arguments is read with arguments behind it. -/
theorem Reads.nominal_arguments {p : Phrase} {front input rest : List Lexeme}
    (h : Reads p input rest) {s name : String} (hp : p = .nominal s (.nominal name []))
    (hinput : input = front ++ rest) {ts : List TypeExpr} {g : List Char} {input' mid : List Lexeme}
    (hts : Reads (.arguments ts) (⟨g, .mark .less⟩ :: input') mid)
    (hmid : isMember (lookahead mid) = false) :
    Reads (.nominal s (.nominal name ts)) (front ++ ⟨g, .mark .less⟩ :: input') mid := by
  induction h generalizing s front with
  | @member name' ts' t g' g'' w input mid' rest ha hw hn iha ihn =>
    cases hp
    obtain ⟨n, rfl, -⟩ := hn.exists_front
    obtain ⟨a, rfl, -⟩ := ha.exists_front
    obtain rfl : front = a ++ ⟨g', .mark .dot⟩ :: ⟨g'', .word w⟩ :: n :=
      List.append_cancel_right (hinput.symm.trans (by simp))
    have ha' : Reads (.arguments ts')
        (a ++ ⟨g', .mark .dot⟩ :: ⟨g'', .word w⟩ :: (n ++ ⟨g, .mark .less⟩ :: input'))
        (⟨g', .mark .dot⟩ :: ⟨g'', .word w⟩ :: (n ++ ⟨g, .mark .less⟩ :: input')) :=
      ha.local rfl alike_cons_cons
    simpa using Reads.member ha' hw (ihn rfl rfl)
  | nominalDone ha _ _ =>
    cases hp
    cases ha with
    | arguments h => exact absurd rfl h.types_ne_nil
    | argumentsNone =>
      obtain rfl : front = [] := by simpa using hinput
      exact .nominalDone hts hmid
  | _ => cases hp

/-- The text of a name is read as the name, and starts with a word. -/
structure FaithfulName (name : String) (l : List Lexeme) : Prop extends Spelled name.toList l where
  reads : Reads (.type (.nominal name [])) l []
  word : ∃ w tail, l = ⟨[], .word w⟩ :: tail

theorem FaithfulName.exists_nominal {name : String} {l : List Lexeme} (h : FaithfulName name l) :
    ∃ w tail, l = ⟨[], .word w⟩ :: tail ∧
      Reads (.nominal (String.ofList (unticked w)) (.nominal name [])) tail [] := by
  obtain ⟨w, tail, rfl⟩ := h.word
  refine ⟨w, tail, rfl, ?_⟩
  generalize ht : TypeExpr.nominal name [] = t
  have hread := h.reads
  rw [ht] at hread
  cases hread with
  | constraint | join => simp at ht
  | single _ hs =>
    cases hs with
    | suffixed hp _ hs =>
      obtain ⟨rfl, rfl⟩ := hs.eq_of_nominal ht.symm
      cases hp with
      | nominal hn => exact hn

/-- A name with arguments is faithful if its text is read as it and the arguments are faithful. -/
theorem faithful_nominal {name : String} {l : List Lexeme} {ts : List TypeExpr}
    (hname : FaithfulName name l) (h : ∀ t ∈ ts, Faithful t)
    (hstart : ts ≠ [] → startsWithConstraint (.nominal name []) = false) :
    Faithful (.nominal name ts) := by
  obtain ⟨w, tail, hl, hn⟩ := hname.exists_nominal
  have hbare : Spelled (render (.nominal name [])).toList l := hname.toSpelled
  by_cases hts : ts = []
  · subst hts
    by_cases hconstraint : startsWithConstraint (.nominal name []) = false
    · refine faithful_of_primary hbare.legible hconstraint fun mid hmid => ?_
      rw [hbare.lexemes_eq, hl]
      simp only [endsPrimary, Bool.and_eq_true] at hmid
      exact .nominal (hn.local (List.append_nil tail).symm (.inl hmid.1.1))
    · refine ⟨hbare.legible, fun rest hrest => ?_, fun _ hnot => absurd hnot hconstraint⟩
      rw [hbare.lexemes_eq]
      exact hname.reads.local (List.append_nil l).symm (.inl hrest)
  · have hspelled := spelled_nominal hname.toSpelled (fun t ht => (h t ht).legible) hts
    have hconstraint : startsWithConstraint (.nominal name ts) = false := by
      have hlexemes := hspelled.lexemes_eq
      rw [hl, List.cons_append] at hlexemes
      have := hstart hts
      rw [startsWithConstraint, hbare.legible.firstToken_eq (hbare.lexemes_eq.trans hl)] at this
      rwa [startsWithConstraint, hspelled.legible.firstToken_eq hlexemes]
    refine faithful_of_primary hspelled.legible hconstraint fun mid hmid => ?_
    simp only [endsPrimary, endsName, Bool.and_eq_true, Bool.not_eq_true'] at hmid
    have hread := hn.nominal_arguments rfl (List.append_nil tail).symm (reads_arguments hts h mid)
      hmid.1.1.2
    rw [hspelled.lexemes_eq, hl]
    simpa using Reads.nominal (g := []) hread

theorem Faithful.ofString_render {t : TypeExpr} (h : Faithful t) :
    ofString (render t) = .ok t := by
  refine ofString_eq_ok_iff.2 ⟨t.lexemes, h.legible.ofChars_eq, ?_⟩
  have := h.reads [] rfl
  rwa [List.append_nil] at this

end FluentBuilder.TypeExpr
