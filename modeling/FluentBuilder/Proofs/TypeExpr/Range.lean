import FluentBuilder.Proofs.TypeExpr.Recovery

/-!
# What the type reader gives

`Readable`: the types that are read from some text. Their names are plain words with arguments and
dots between them, their labels are plain words, no tuple has a single element without a label, and
what is kept by its text is faithful. `readable_of_ofString` says that the reader gives no others.

That a type which is kept by its text is faithful is the locality of the reader: its lexemes are
read again in front of any other rest, and they are those of its text. It is in general not a part
of the type that is rendered, so it has to be carried through the reading of the suffixes
(`Takes`).
-/

namespace FluentBuilder.TypeExpr

open Text Lexeme

/-! ### The last lexeme of a type -/

/-- The rest is an end of the input, and the lexeme in front of it is no dot. -/
def EndsFirm (input rest : List Lexeme) : Prop :=
  rest <:+ input ∧ ∀ front x, input = front ++ x :: rest → x.token ≠ .mark .dot

/-- In front of a rest stands one lexeme only. -/
theorem eq_of_concat_append_eq {l front rest : List Lexeme} {x y : Lexeme}
    (h : (l ++ [y]) ++ rest = front ++ x :: rest) : y = x := by
  have happend : (l ++ [y]) ++ rest = (front ++ [x]) ++ rest := by simpa using h
  simpa using (List.append_inj' (List.append_cancel_right happend) rfl).2

theorem EndsFirm.refl (rest : List Lexeme) : EndsFirm rest rest := by
  refine ⟨List.suffix_rfl, fun front x h => ?_⟩
  have := congrArg List.length h
  simp at this
  omega

theorem EndsFirm.trans {input mid rest : List Lexeme} (h : EndsFirm input mid)
    (h' : EndsFirm mid rest) : EndsFirm input rest := by
  obtain ⟨⟨a, rfl⟩, ha⟩ := h
  obtain ⟨⟨b, rfl⟩, hb⟩ := h'
  refine ⟨⟨a ++ b, by simp⟩, fun front x heq => ?_⟩
  rcases List.eq_nil_or_concat' b with rfl | ⟨b, y, rfl⟩
  · exact ha front x heq
  · obtain rfl : y = x := eq_of_concat_append_eq (l := a ++ b) (by simpa using heq)
    exact hb b y (by simp)

theorem endsFirm_cons {x : Lexeme} {rest : List Lexeme} (hx : x.token ≠ .mark .dot) :
    EndsFirm (x :: rest) rest := by
  refine ⟨List.suffix_cons x rest, fun front y h => ?_⟩
  obtain rfl : x = y := eq_of_concat_append_eq (l := []) h
  exact hx

theorem endsFirm_dot_word {g g' w : List Char} {rest : List Lexeme} :
    EndsFirm (⟨g, .mark .dot⟩ :: ⟨g', .word w⟩ :: rest) rest := by
  refine ⟨(List.suffix_cons _ _).trans (List.suffix_cons _ _), fun front x h => ?_⟩
  obtain rfl : ⟨g', .word w⟩ = x := eq_of_concat_append_eq (l := [⟨g, .mark .dot⟩]) h
  simp

theorem Suffixes.endsFirm {text : List Char} {bare t : TypeExpr} {input rest : List Lexeme}
    (h : Suffixes text bare t input rest) : EndsFirm input rest := by
  induction h with
  | question _ ih | exclamation _ ih => exact (endsFirm_cons (by simp)).trans ih
  | metatype _ _ _ ih => exact endsFirm_dot_word.trans ih
  | done => exact .refl _

/-- What comes before the last part of an input may end as it likes. -/
theorem EndsFirm.of_suffix {input mid rest : List Lexeme} (h : EndsFirm mid rest)
    (hmid : mid <:+ input) (hne : rest.length < mid.length) : EndsFirm input rest := by
  obtain ⟨⟨b, rfl⟩, hb⟩ := h
  obtain ⟨a, rfl⟩ := hmid
  refine ⟨⟨a ++ b, by simp⟩, fun front x heq => ?_⟩
  rcases List.eq_nil_or_concat' b with rfl | ⟨b, y, rfl⟩
  · simp at hne
  · obtain rfl : y = x := eq_of_concat_append_eq (l := a ++ b) (by simpa using heq)
    exact hb b y (by simp)

/-- No phrase ends with a dot. -/
theorem Reads.endsFirm {p : Phrase} {input rest : List Lexeme} (h : Reads p input rest) :
    EndsFirm input rest := by
  have hcons {x : Lexeme} {a b : List Lexeme} (h : EndsFirm a b) (hx : x.token ≠ .mark .dot) :
      EndsFirm (x :: a) b := (endsFirm_cons hx).trans h
  have hstep {x : Lexeme} {a b : List Lexeme} (h : EndsFirm a (x :: b)) (hx : x.token ≠ .mark .dot) :
      EndsFirm a b := h.trans (endsFirm_cons hx)
  induction h with
  | constraint hstart _ _ _ ih ihj =>
    obtain ⟨w, hw, -⟩ := startsConstraint_cons.1 hstart
    exact hcons (ih.trans ihj) (by simp [hw])
  | join _ _ _ _ ih ihj => exact ih.trans ihj
  | single _ _ _ ih => exact ih
  | joinedMore _ _ ih ihj => exact hcons (ih.trans ihj) (by simp)
  | joinedDone | argumentsNone | effectsDone => exact .refl _
  | suffixed _ _ hs ih => exact ih.trans hs.endsFirm
  | parenthesized _ ih | bracketed _ ih | nominal _ ih | arguments _ ih => exact hcons ih (by simp)
  | dictionary _ _ ihk ihv => exact (hstep ihk (by simp)).trans (hstep ihv (by simp))
  | array _ ih => exact hstep ih (by simp)
  | member _ _ _ iha ihn => exact (iha.trans endsFirm_dot_word).trans ihn
  | nominalDone _ _ ih => exact ih
  | typesMore _ _ ih ihs => exact (hstep ih (by simp)).trans ihs
  | typesLast _ ih => exact hstep ih (by simp)
  | function _ _ _ ihl ihe iht => exact ihl.trans ((hstep ihe (by simp)).trans iht)
  | tuple _ _ _ ih => exact ih
  | listNil => exact endsFirm_cons (by simp)
  | list _ _ ih => exact ih
  | elementsMore _ _ ih ihs => exact (hstep ih (by simp)).trans ihs
  | elementsLast _ ih => exact hstep ih (by simp)
  | variadic ha hl hc ht ih =>
    have hlen := ht.length_le
    simp only [Phrase.least, List.length_cons] at hlen
    exact (hstep ih (by simp)).of_suffix (element_suffix ha hl hc).2 (by omega)
  | element ha hl hc ht _ ih =>
    have hlen := ht.length_le
    simp only [Phrase.least] at hlen
    exact ih.of_suffix (element_suffix ha hl hc).2 (by omega)
  | async _ ih | rethrows _ ih | throws _ _ ih => exact hcons ih (by simp)
  | throwsType _ _ ih ihe =>
    exact hcons (hcons ((hstep ih (by simp)).trans ihe) (by simp)) (by simp)

/-! ### The types that are read -/

/-- The types that are read from some text. -/
inductive Readable : TypeExpr → Prop where
  | word {w : List Char} : IsPlain w → Readable (.nominal (String.ofList w) [])
  | arguments {name : String} {ts : List TypeExpr} :
    Readable (.nominal name []) → ts ≠ [] → (∀ t ∈ ts, Readable t) → Readable (.nominal name ts)
  /-- A further segment behind a name, whose arguments become a part of the name. -/
  | member {name : String} {ts : List TypeExpr} {w : List Char} :
    Readable (.nominal name ts) → IsPlain w →
    Readable (.nominal (render (.nominal name ts) ++ "." ++ String.ofList w) [])
  | optional {t : TypeExpr} : Readable t → Readable (.optional t)
  | unwrapped {t : TypeExpr} : Readable t → Readable (.unwrapped t)
  | array {t : TypeExpr} : Readable t → Readable (.array t)
  | dictionary {key value : TypeExpr} :
    Readable key → Readable value → Readable (.dictionary key value)
  | tuple {es : List (Option String × TypeExpr)} :
    (∀ e ∈ es, Readable e.2) → (∀ e ∈ es, ∀ label ∈ e.1, IsPlain label.toList) →
    (∀ t, es ≠ [(none, t)]) → Readable (.tuple es)
  | function {ps : List TypeExpr} {result : TypeExpr} {isAsync throws : Bool}
      {thrown : Option TypeExpr} :
    (∀ t ∈ ps, Readable t) → Readable result → (∀ t ∈ thrown, Readable t) →
    (thrown ≠ none → throws = true) → Readable (.function ps result isAsync throws thrown)
  | verbatim {text : String} : Faithful (.verbatim text) → Readable (.verbatim text)

/-- Lexemes in front of a rest are those of their text, if they do not end with a dot. -/
theorem spelled_front {front rest : List Lexeme} {after : List Char}
    (h : Stands (front ++ rest) after) (hne : front ≠ []) (hends : EndsFirm (front ++ rest) rest) :
    Spelled (textOf front) (regap [] front) := by
  refine ⟨⟨?_, ?_, fun x hx => ?_⟩, ?_⟩
  · rw [flatMap_chars_regap hne, List.nil_append]
  · have hfront : Stands ([] ++ (front ++ rest)) after := h
    exact hfront.cut.regap (by simp)
  · rcases List.eq_nil_or_concat' front with rfl | ⟨f, y, rfl⟩
    · exact absurd rfl hne
    · have hy := hends.2 f y (by simp)
      rcases f with _ | ⟨z, f⟩
      · obtain rfl : (⟨[], y.token⟩ : Lexeme) = x := by simpa using hx
        exact hy
      · rw [regap_append (by simp), List.getLast?_concat] at hx
        obtain rfl := Option.some.inj hx
        exact hy
  · rcases front with _ | ⟨x, front⟩
    · exact absurd rfl hne
    · exact ⟨x.token, front, rfl⟩

section

variable {front rest : List Lexeme} {after : List Char}

theorem lexemes_verbatim (h : Stands (front ++ rest) after) (hne : front ≠ [])
    (hends : EndsFirm (front ++ rest) rest) :
    Legible (.verbatim (String.ofList (textOf front))) ∧
      (verbatim (String.ofList (textOf front))).lexemes = regap [] front := by
  have hspelled : Spelled (render (.verbatim (String.ofList (textOf front)))).toList
      (regap [] front) := by
    rw [render, String.toList_ofList]
    exact spelled_front h hne hends
  exact ⟨hspelled.legible, hspelled.lexemes_eq⟩

/-- A type that is kept by its text is faithful, if it takes no suffix as it is. -/
theorem faithful_verbatim
    (hread : Reads (.type (.verbatim (String.ofList (textOf front)))) (front ++ rest) rest)
    (h : Stands (front ++ rest) after)
    (hmark : needsParentheses (.verbatim (String.ofList (textOf front))) = true ∨
      ∃ x l w, front = x :: l ∧ x.token = .word w ∧ isConstraintWord w = true) :
    Faithful (.verbatim (String.ofList (textOf front))) := by
  have hne := hread.ne_nil rfl
  obtain ⟨hlegible, hlexemes⟩ := lexemes_verbatim h hne hread.endsFirm
  refine ⟨hlegible, fun rest' hrest => ?_, fun hparen hstart => ?_⟩
  · have := hread.local rfl (.inl hrest)
    rw [hlexemes]
    rcases front with _ | ⟨x, front⟩
    · exact absurd rfl hne
    · exact this.type_regap []
  · rcases hmark with hmark | ⟨x, l, w, rfl, hx, hw⟩
    · exact absurd (hmark.symm.trans hparen) (by simp)
    · rw [startsWithConstraint, hlegible.firstToken_eq hlexemes] at hstart
      simp only [hx] at hstart
      exact absurd (hw.symm.trans hstart) (by simp)

theorem needsParentheses_of_ampersand {a b : List Lexeme} {g : List Char} (ha : a ≠ []) :
    needsParentheses (.verbatim (String.ofList
      (textOf (a ++ ⟨g, .mark .ampersand⟩ :: b)))) = true := by
  rw [textOf_append ha]
  simp [needsParentheses, chars, Token.chars, Mark.char]

end

/-! ### Suffixes -/

theorem Suffixes.isSuffix_rest {text : List Char} {bare t : TypeExpr} {input rest : List Lexeme}
    (h : Suffixes text bare t input rest) : isSuffix (lookahead rest) = false := by
  induction h with
  | question _ ih | exclamation _ ih | metatype _ _ _ ih => exact ih
  | done h => exact h

theorem Reads.suffixed_isSuffix {t : TypeExpr} {input rest : List Lexeme}
    (h : Reads (.suffixed t) input rest) : isSuffix (lookahead rest) = false := by
  cases h with
  | suffixed _ _ hs => exact hs.isSuffix_rest

theorem Reads.joined_isSuffix {p : Phrase} {input rest : List Lexeme} (h : Reads p input rest)
    (hp : p = .joined) (hinput : isSuffix (lookahead input) = false) :
    isSuffix (lookahead rest) = false := by
  induction h with
  | joinedMore hs _ _ ih => exact ih rfl hs.suffixed_isSuffix
  | joinedDone => exact hinput
  | _ => cases hp

theorem Reads.type_isSuffix {t : TypeExpr} {input rest : List Lexeme}
    (h : Reads (.type t) input rest) : isSuffix (lookahead rest) = false := by
  cases h with
  | constraint _ hs hj _ => exact hj.joined_isSuffix rfl hs.suffixed_isSuffix
  | join _ _ hj _ => exact hj.joined_isSuffix rfl (by rw [lookahead_cons (by simp)]; rfl)
  | single _ hs _ => exact hs.suffixed_isSuffix

/-- A primary type that is followed by a suffix is no function, so it is read in front of whatever
does not make it longer. -/
theorem Reads.primary_followed {t : TypeExpr} {front rest : List Lexeme}
    (h : Reads (.primary t) (front ++ rest) rest) (hsuffix : isSuffix (lookahead rest) = true)
    {mid : List Lexeme} (hmid : endsPrimary (lookahead mid) = true) :
    Reads (.primary t) (front ++ mid) mid := by
  simp only [endsPrimary, Bool.and_eq_true, Bool.not_eq_true', bne_iff_ne] at hmid
  generalize hinput : front ++ rest = input at h
  cases h with
  | @parenthesized _ g input _ h =>
    obtain ⟨f, rfl, rfl⟩ := exists_of_append_eq_cons hinput h.suffix
    refine .parenthesized (?_ : Reads _ (f ++ mid) mid)
    generalize hinput : f ++ rest = input at h
    cases h with
    | function _ _ ht => exact absurd (hsuffix.symm.trans ht.type_isSuffix) (by simp)
    | tuple hl _ _ => exact .tuple (hl.local hinput.symm trivial) hmid.1.2 hmid.2
  | @bracketed _ g input _ h =>
    obtain ⟨f, rfl, rfl⟩ := exists_of_append_eq_cons hinput h.suffix
    exact .bracketed (h.local rfl trivial)
  | @nominal _ g w input _ h =>
    obtain ⟨f, rfl, rfl⟩ := exists_of_append_eq_cons hinput h.suffix
    exact .nominal (h.local rfl (.inl hmid.1.1))

/-- The type `bare` is read from the lexemes with the suffixes that follow them. -/
def Takes (front : List Lexeme) (bare : TypeExpr) : Prop :=
  ∀ u mid rest, endsPrimary (lookahead mid) = true → Suffixes (textOf front) bare u mid rest →
    Reads (.suffixed u) (front ++ mid) rest

/-- A constraint is not told from a name by what follows its first word alone. -/
theorem Takes.head_ne {front input rest : List Lexeme} {bare t : TypeExpr} (h : Takes front bare)
    (hs : Suffixes (textOf front) bare t input rest) (hlen : rest.length + 2 ≤ input.length)
    (hinput : endsPrimary (lookahead input) = true)
    (hstart : startsConstraint (front ++ input) = false) {x : Lexeme} {l : List Lexeme}
    (hfront : front = x :: l) {w : List Char} (hx : x.token = .word w) :
    isConstraintWord w = false := by
  subst hfront
  obtain ⟨g, token⟩ := x
  obtain rfl : token = .word w := hx
  have hread : Reads (.suffixed t) (⟨g, .word w⟩ :: (l ++ input)) rest := h t input rest hinput hs
  by_contra hw
  have hnext : isClosing (lookahead (l ++ input)) = true := by
    by_contra hnot
    have : startsConstraint (⟨g, .word w⟩ :: (l ++ input)) = true :=
      startsConstraint_cons.2 ⟨w, rfl, Bool.eq_true_of_not_eq_false hw, by simpa using hnot⟩
    exact absurd (this.symm.trans hstart) (by simp)
  have hrest := hread.suffixed_word (endsName_of_isClosing hnext) (isSuffix_of_isClosing hnext)
  have := congrArg List.length hrest
  rw [List.length_append] at this
  omega

/-- The suffixes of a type that can be read make a type that can be read. -/
theorem Suffixes.readable {text : List Char} {bare t : TypeExpr} {input rest : List Lexeme}
    (h : Suffixes text bare t input rest) {front : List Lexeme} {after : List Char}
    (htext : text = textOf front) (hne : front ≠ []) (htakes : Takes front bare)
    (hbare : Readable bare) (hstands : Stands (front ++ input) after)
    (hstart : startsConstraint (front ++ input) = false) : Readable t := by
  induction h generalizing front with
  | @question text bare t g input rest hs ih =>
    subst htext
    have hnext : textOf (front ++ [⟨g, .mark .question⟩]) =
        textOf front ++ chars ⟨g, .mark .question⟩ := by simp [textOf_append hne]
    refine ih hnext.symm (by simp) (fun u mid rest hmid hs => ?_) hbare.optional
      (by simpa using hstands)
      (by simpa using hstart)
    rw [hnext] at hs
    rw [List.append_assoc]
    exact htakes u _ rest (by rw [List.singleton_append, lookahead_cons (by simp)]; rfl)
      (.question hs)
  | @exclamation text bare t g input rest hs ih =>
    subst htext
    have hnext : textOf (front ++ [⟨g, .mark .exclamation⟩]) =
        textOf front ++ chars ⟨g, .mark .exclamation⟩ := by simp [textOf_append hne]
    refine ih hnext.symm (by simp) (fun u mid rest hmid hs => ?_) hbare.unwrapped
      (by simpa using hstands) (by simpa using hstart)
    rw [hnext] at hs
    rw [List.append_assoc]
    exact htakes u _ rest (by rw [List.singleton_append, lookahead_cons (by simp)]; rfl)
      (.exclamation hs)
  | @metatype text text' bare t g g' w input rest hw htext' hs ih =>
    subst htext
    have hnext : text' = textOf (front ++ [⟨g, .mark .dot⟩, ⟨g', .word w⟩]) := by
      simp [htext', textOf_append hne]
    have htakes' : Takes (front ++ [⟨g, .mark .dot⟩, ⟨g', .word w⟩])
        (.verbatim (String.ofList text')) := by
      intro u mid rest hmid hs
      rw [List.append_assoc]
      refine htakes u _ rest ?_ (.metatype hw htext' (hnext ▸ hs))
      simp [lookahead_dot, endsPrimary, endsName, isMember, isEffect, hw]
    have hstands' : Stands ((front ++ [⟨g, .mark .dot⟩, ⟨g', .word w⟩]) ++ input) after := by
      simpa using hstands
    refine ih hnext (by simp) htakes' (.verbatim ?_) hstands' (by simpa using hstart)
    have hends : EndsFirm (⟨g, .mark .dot⟩ :: ⟨g', .word w⟩ :: input) input := endsFirm_dot_word
    obtain ⟨hlegible, hlexemes⟩ := lexemes_verbatim hstands' (by simp)
      (hends.of_suffix ⟨front, by simp⟩ (by simp))
    rw [← hnext] at hlegible hlexemes
    refine faithful_of_takes hlegible ?_ fun u mid rest hmid hs => ?_
    · obtain ⟨x, l, hfront⟩ := List.exists_cons_of_ne_nil hne
      rw [startsWithConstraint, hlegible.firstToken_eq (x := ⟨[], x.token⟩)
        (l := l ++ [⟨g, .mark .dot⟩, ⟨g', .word w⟩]) (by rw [hlexemes, hfront]; rfl)]
      split
      · next v hv =>
        have hs₀ : Suffixes (textOf front) bare t (⟨g, .mark .dot⟩ :: ⟨g', .word w⟩ :: input) rest :=
          .metatype hw htext' hs
        refine htakes.head_ne hs₀ ?_ ?_ hstart hfront (by simpa using hv)
        · have := hs.suffix.length_le
          simp only [List.length_cons]
          omega
        · simp [lookahead_dot, endsPrimary, endsName, isMember, isEffect, hw]
      · rfl
    · rw [hlexemes, textOf_regap] at hs
      have := htakes' u mid rest hmid hs
      rw [hlexemes]
      obtain ⟨x, l, hfront⟩ := List.exists_cons_of_ne_nil hne
      rw [hfront] at this ⊢
      exact this.suffixed_regap []
  | done => exact hbare

/-! ### Phrases -/

structure ReadableElement (e : Option String × TypeExpr) : Prop where
  readable : Readable e.2
  label : ∀ text ∈ e.1, IsPlain text.toList

structure ReadableEffects (effects : Effects) : Prop where
  readable : ∀ t ∈ effects.thrown, Readable t
  throws : effects.thrown ≠ none → effects.throws = true

/-- What a phrase gives can be read. The suffixes of a type count only where the type is no
constraint, whose text is kept as a whole. -/
def Phrase.Sound (input : List Lexeme) : Phrase → Prop
  | .type t | .primary t | .bracketed t | .parenthesized t => Readable t
  | .joined => True
  | .suffixed t => startsConstraint input = false → Readable t
  | .nominal name t => Readable (.nominal name []) → Readable t
  | .arguments ts | .types ts => ∀ t ∈ ts, Readable t
  | .list es | .elements es => ∀ e ∈ es, ReadableElement e
  | .element e => ReadableElement e
  | .effects before after => ReadableEffects before → ReadableEffects after

theorem spelled_path {name : String} {ts : List TypeExpr} (h : (nominal name ts).Legible)
    {w : List Char} (hw : IsPlain w) :
    Spelled (render (.nominal (render (.nominal name ts) ++ "." ++ String.ofList w) [])).toList
      ((nominal name ts).lexemes ++ [⟨[], .mark .dot⟩, ⟨[], .word w⟩]) := by
  have := Spelled.member h hw.isTicked
  simpa using this

theorem Readable.legible {t : TypeExpr} (h : Readable t) : t.Legible := by
  induction h with
  | @word w hw =>
    have : Spelled (render (.nominal (String.ofList w) [])).toList [⟨[], .word w⟩] := by
      simpa using spelled_word hw.isTicked
    exact this.legible
  | @arguments name ts _ hne _ ihname ih =>
    have hname : Spelled name.toList _ := ihname
    exact (spelled_nominal hname ih hne).legible
  | member _ hw ih => exact (spelled_path ih hw).legible
  | optional _ ih => exact (spelled_optional ih).legible
  | unwrapped _ ih => exact (spelled_unwrapped ih).legible
  | array _ ih => exact (spelled_array ih).legible
  | dictionary _ _ ihk ihv => exact (spelled_dictionary ihk ihv).legible
  | tuple _ hlabel _ ih => exact (spelled_tuple ih hlabel).legible
  | function _ _ _ _ ihps ihresult iht => exact (spelled_function ihps ihresult iht).legible
  | verbatim h => exact h.legible

section

variable {name : String} {t key value : TypeExpr} {ts : List TypeExpr}

theorem lexemes_word {w : List Char} (hw : IsPlain w) :
    (nominal (String.ofList w) []).lexemes = [⟨[], .word w⟩] := by
  have : Spelled (render (.nominal (String.ofList w) [])).toList [⟨[], .word w⟩] := by
    simpa using spelled_word hw.isTicked
  exact this.lexemes_eq

theorem lexemes_arguments (hname : Readable (.nominal name [])) (hne : ts ≠ [])
    (hts : ∀ t ∈ ts, Readable t) :
    (nominal name ts).lexemes = (nominal name []).lexemes ++
      ⟨[], .mark .less⟩ :: (commas (ts.map lexemes) ++ [⟨[], .mark .greater⟩]) := by
  have hspelled : Spelled name.toList _ := hname.legible
  exact (spelled_nominal hspelled (fun t ht => (hts t ht).legible) hne).lexemes_eq

theorem lexemes_member (h : Readable (.nominal name ts)) {w : List Char} (hw : IsPlain w) :
    (nominal (render (.nominal name ts) ++ "." ++ String.ofList w) []).lexemes =
      (nominal name ts).lexemes ++ [⟨[], .mark .dot⟩, ⟨[], .word w⟩] :=
  (spelled_path h.legible hw).lexemes_eq

theorem lexemes_optional (h : Readable t) : (optional t).lexemes = markedLexemes t .question :=
  (spelled_optional h.legible).lexemes_eq

theorem lexemes_unwrapped (h : Readable t) :
    (unwrapped t).lexemes = markedLexemes t .exclamation :=
  (spelled_unwrapped h.legible).lexemes_eq

theorem lexemes_array (h : Readable t) :
    (array t).lexemes = ⟨[], .mark .openBracket⟩ :: (t.lexemes ++ [⟨[], .mark .closeBracket⟩]) :=
  (spelled_array h.legible).lexemes_eq

theorem lexemes_dictionary (hkey : Readable key) (hvalue : Readable value) :
    (dictionary key value).lexemes =
      ⟨[], .mark .openBracket⟩ :: (key.lexemes ++ ⟨[], .mark .colon⟩ ::
        (regap [' '] value.lexemes ++ [⟨[], .mark .closeBracket⟩])) :=
  (spelled_dictionary hkey.legible hvalue.legible).lexemes_eq

theorem lexemes_tuple {es : List (Option String × TypeExpr)} (h : ∀ e ∈ es, Readable e.2)
    (hlabel : ∀ e ∈ es, ∀ label ∈ e.1, IsPlain label.toList) :
    (tuple es).lexemes =
      ⟨[], .mark .openParen⟩ :: (commas (es.map elementLexemes) ++ [⟨[], .mark .closeParen⟩]) :=
  (spelled_tuple (fun e he => (h e he).legible) hlabel).lexemes_eq

theorem lexemes_function (isAsync throws : Bool) {result : TypeExpr} {thrown : Option TypeExpr}
    (hts : ∀ t ∈ ts, Readable t) (hresult : Readable result) (hthrown : ∀ t ∈ thrown, Readable t) :
    (function ts result isAsync throws thrown).lexemes =
      ⟨[], .mark .openParen⟩ :: (commas (ts.map lexemes) ++ ⟨[], .mark .closeParen⟩ ::
        (effectLexemes isAsync throws thrown ++ ⟨[' '], .arrow⟩ :: regap [' '] result.lexemes)) :=
  (spelled_function (fun t ht => (hts t ht).legible) hresult.legible
    fun t ht => (hthrown t ht).legible).lexemes_eq

end

theorem readable_nominal {name : String} {ts : List TypeExpr} (h : Readable (.nominal name []))
    (hts : ∀ t ∈ ts, Readable t) : Readable (.nominal name ts) := by
  by_cases hne : ts = []
  · exact hne ▸ h
  · exact .arguments h hne hts

theorem readable_ofElements {es : List (Option String × TypeExpr)}
    (h : ∀ e ∈ es, ReadableElement e) : Readable (ofElements es) := by
  unfold ofElements
  split
  · next t => exact (h (none, t) (by simp)).readable
  · next hsingle =>
    exact .tuple (fun e he => (h e he).readable) (fun e he => (h e he).label)
      fun t heq => hsingle t heq

theorem isPlain_of_stands {g w : List Char} {l : List Lexeme} {after : List Char}
    (h : Stands (⟨g, .word w⟩ :: l) after) : IsPlain (unticked w) :=
  IsTicked.unticked h.2.1

/-- A label of an input is a word of it. -/
theorem isPlain_of_readLabel {a b : List Lexeme} {label : Option String} {after : List Char}
    (hl : readLabel a = (label, b)) (h : Stands a after) :
    ∀ text ∈ label, IsPlain text.toList := by
  intro text htext
  fun_cases readLabel a with
  | case1 g w g' rest =>
    obtain ⟨rfl, -⟩ := Prod.mk.inj hl
    obtain rfl := Option.some.inj htext
    rw [String.toList_ofList]
    exact isPlain_of_stands h
  | case2 g w g' w' g'' rest =>
    obtain ⟨rfl, -⟩ := Prod.mk.inj hl
    obtain rfl := Option.some.inj htext
    rw [String.toList_ofList]
    exact isPlain_of_stands h.2.2.2
  | case3 _ hone htwo =>
    rw [readLabel_eq_none (fun g g' w rest => hone g w g' rest) fun g g' g'' w w' rest =>
      htwo g w g' w' g'' rest] at hl
    obtain ⟨rfl, -⟩ := Prod.mk.inj hl
    simp at htext

/-- What is read can be read. -/
theorem Reads.sound {p : Phrase} {input rest : List Lexeme} (h : Reads p input rest)
    {after : List Char} (hstands : Stands input after) : p.Sound input := by
  induction h with
  | @constraint t front x input mid rest hstart hs hj hfront ihs ihj =>
    have hread := Reads.constraint hstart hs hj hfront
    obtain ⟨w, hx, hw, -⟩ := startsConstraint_cons.1 hstart
    rw [hfront] at hread hstands
    have hne := hread.ne_nil rfl
    obtain ⟨y, l, rfl⟩ := List.exists_cons_of_ne_nil hne
    obtain ⟨rfl, -⟩ := List.cons.inj hfront
    exact .verbatim (faithful_verbatim hread hstands (.inr ⟨x, l, w, rfl, hx, hw⟩))
  | @join t front g input mid rest hstart hs hj hfront ihs ihj =>
    have hread := Reads.join hstart hs hj hfront
    obtain ⟨f, rfl, -⟩ := hs.exists_front
    obtain ⟨m, rfl⟩ := hj.joined_suffix_tail
    have hmark := needsParentheses_of_ampersand (g := g) (b := m) (hs.ne_nil rfl)
    obtain rfl : front = f ++ ⟨g, .mark .ampersand⟩ :: m :=
      List.append_cancel_right (hfront.symm.trans (by simp))
    rw [hfront] at hread hstands
    exact .verbatim (faithful_verbatim hread hstands (.inl hmark))
  | single hstart hs _ ih => exact ih hstands hstart
  | joinedMore | joinedDone => trivial
  | @suffixed bare t front input mid rest hp hfront hs ih =>
    intro hstart
    have hbare : Readable bare := ih hstands
    by_cases hsuffix : isSuffix (lookahead mid) = true
    · subst hfront
      exact hs.readable rfl (hp.ne_nil rfl)
        (fun u mid rest hmid hs => .suffixed (hp.primary_followed hsuffix hmid) rfl hs)
        hbare hstands hstart
    · cases hs with
      | question | exclamation => simp [lookahead_cons, isSuffix] at hsuffix
      | metatype hw => simp [lookahead_dot, isSuffix, hw] at hsuffix
      | done => exact hbare
  | parenthesized _ ih | bracketed _ ih => exact ih hstands.2.2.2
  | @nominal t g w input rest h ih =>
    refine ih hstands.2.2.2 (.word ?_)
    exact isPlain_of_stands hstands
  | dictionary hk _ ihk ihv =>
    refine .dictionary (ihk hstands) (ihv ?_)
    exact hstands.suffix ((List.suffix_cons _ _).trans hk.suffix)
  | array _ ih => exact .array (ih hstands)
  | @member name ts t g g' w input mid rest ha hw hn iha ihn =>
    intro hname
    have hmid := hstands.suffix ha.suffix
    refine ihn hmid.2.2.2.2.2.2 (.member (readable_nominal hname (iha hstands)) ?_)
    exact isPlain_of_stands hmid.2.2.2
  | nominalDone _ _ ih => exact fun hname => readable_nominal hname (ih hstands)
  | arguments _ ih => exact ih hstands.2.2.2
  | argumentsNone => simp [Phrase.Sound]
  | typesMore ht _ iht ihts =>
    have hmid := ihts (hstands.suffix ((List.suffix_cons _ _).trans ht.suffix))
    exact List.forall_mem_cons.2 ⟨iht hstands, hmid⟩
  | typesLast _ ih => exact List.forall_mem_singleton.2 (ih hstands)
  | function hl he ht ihl ihe iht =>
    have hlist := ihl hstands
    have heffects := ihe (hstands.suffix hl.suffix) ⟨by simp, by simp⟩
    have hresult := iht (hstands.suffix
      ((List.suffix_cons _ _).trans (he.suffix.trans hl.suffix)))
    refine .function (fun t ht => ?_) hresult heffects.readable heffects.throws
    obtain ⟨e, he, rfl⟩ := List.mem_map.1 ht
    exact (hlist e he).readable
  | tuple _ _ _ ih => exact readable_ofElements (ih hstands)
  | listNil => simp [Phrase.Sound]
  | list _ _ ih => exact ih hstands
  | elementsMore he _ ihe ihes =>
    have hmid := ihes (hstands.suffix ((List.suffix_cons _ _).trans he.suffix))
    exact List.forall_mem_cons.2 ⟨ihe hstands, hmid⟩
  | elementsLast _ ih => exact List.forall_mem_singleton.2 (ih hstands)
  | @variadic _ t _ _ _ _ _ _ ha hl hc _ ih =>
    have hread : Readable t := ih (hstands.suffix (element_suffix ha hl hc).2)
    exact ⟨hread.array, isPlain_of_readLabel hl (hstands.suffix (skipAttributes_suffix ha))⟩
  | @element _ t _ _ _ _ _ ha hl hc _ _ ih =>
    have hread : Readable t := ih (hstands.suffix (element_suffix ha hl hc).2)
    exact ⟨hread, isPlain_of_readLabel hl (hstands.suffix (skipAttributes_suffix ha))⟩
  | async _ ih => exact fun hbefore => ih hstands.2.2.2 ⟨hbefore.readable, hbefore.throws⟩
  | rethrows _ ih => exact fun hbefore => ih hstands.2.2.2 ⟨hbefore.readable, fun _ => rfl⟩
  | throws _ _ ih => exact fun hbefore => ih hstands.2.2.2 ⟨hbefore.readable, fun _ => rfl⟩
  | throwsType ht _ iht ih =>
    intro hbefore
    have hinner := hstands.2.2.2.2.2.2
    have hthrown : Readable _ := iht hinner
    refine ih (hinner.suffix ((List.suffix_cons _ _).trans ht.suffix)) ⟨?_, fun _ => rfl⟩
    simpa using hthrown
  | effectsDone => exact id

/-- Whatever a text is read as can be read. -/
theorem readable_of_ofString {text : String} {t : TypeExpr} (h : ofString text = .ok t) :
    Readable t := by
  obtain ⟨l, hl, hread⟩ := ofString_eq_ok_iff.1 h
  obtain ⟨tail, -, -, hstands⟩ := ofChars_eq_ok_iff.1 hl
  exact hread.sound hstands

end FluentBuilder.TypeExpr
