import FluentBuilder.Proofs.Outcomes
import FluentBuilder.Proofs.TypeExpr.Grammar

/-!
# The type reader follows the grammar

`reads_iff`: a phrase is read from an input iff the reader gives it at some depth. From the reader to
the grammar this is one lemma for each part of the reader, all by the same induction on the depth
(`Reads.of_computed`); back it is one equation for each rule (`Reads.computed`), and as every way
down takes a lexeme after at most four steps, a depth of eight for each lexeme is enough.

As the reader is a function, a type can be read from an input in one way only
(`Reads.type_unique`), and `ofString_eq_ok_iff` puts the grammar in place of the reader for a whole
text.
-/

namespace FluentBuilder.TypeExpr

open Text Lexeme

/-! ### Parts of the reader that take no depth -/

theorem expect_eq_ok {mark : Mark} {input rest : List Lexeme} :
    expect mark input = .ok rest ↔ ∃ g, input = ⟨g, .mark mark⟩ :: rest := by
  rcases input with _ | ⟨⟨g, token⟩, input⟩
  · simp [expect]
  · by_cases h : token = .mark mark
    · simp [expect, h]
    · simp [expect, h]

theorem textBetween_append {front rest : List Lexeme} :
    textBetween (front ++ rest) rest = String.ofList (textOf front) := by
  simp [textBetween]

theorem suffixes_iff {front : List Lexeme} {bare t : TypeExpr} {input rest : List Lexeme}
    (hfront : front ≠ []) :
    Suffixes (textOf front) bare t input rest ↔
      readSuffixes (front ++ input) bare input = (t, rest) := by
  constructor
  · intro h
    generalize htext : textOf front = text at h
    induction h generalizing front with
    | @question text bare t g input rest _ ih =>
      have hnext : textOf (front ++ [⟨g, .mark .question⟩]) = text ++ chars ⟨g, .mark .question⟩ := by
        simp [textOf_append hfront, htext]
      simpa [readSuffixes] using ih (by simp) hnext
    | @exclamation text bare t g input rest _ ih =>
      have hnext : textOf (front ++ [⟨g, .mark .exclamation⟩]) =
          text ++ chars ⟨g, .mark .exclamation⟩ := by
        simp [textOf_append hfront, htext]
      simpa [readSuffixes] using ih (by simp) hnext
    | @metatype text text' bare t g g' w input rest hw htext' _ ih =>
      have hnext : textOf (front ++ [⟨g, .mark .dot⟩, ⟨g', .word w⟩]) = text' := by
        simp [textOf_append hfront, htext, htext']
      have hbetween : textBetween (front ++ ⟨g, .mark .dot⟩ :: ⟨g', .word w⟩ :: input) input =
          String.ofList text' := by
        have := @textBetween_append (front ++ [⟨g, .mark .dot⟩, ⟨g', .word w⟩]) input
        rw [hnext] at this
        simpa using this
      simpa [readSuffixes, hw, hbetween] using ih (by simp) hnext
    | @done text bare rest hrest =>
      unfold readSuffixes
      split
      · simp [lookahead_cons, isSuffix] at hrest
      · simp [lookahead_cons, isSuffix] at hrest
      · next w _ =>
        have hw : isMetatypeSuffix w = false := by simpa [lookahead_dot, isSuffix] using hrest
        simp [hw]
      · rfl
  · intro h
    generalize hwhole : front ++ input = whole at h
    fun_induction readSuffixes whole bare input generalizing front with
    | case1 bare g input ih =>
      refine .question ?_
      have hnext : front ++ [⟨g, .mark .question⟩] ++ input = whole := by simpa using hwhole
      simpa [textOf_append hfront] using ih (by simp) hnext h
    | case2 bare g input ih =>
      refine .exclamation ?_
      have hnext : front ++ [⟨g, .mark .exclamation⟩] ++ input = whole := by simpa using hwhole
      simpa [textOf_append hfront] using ih (by simp) hnext h
    | case3 bare g g' w input hw ih =>
      have hnext : front ++ [⟨g, .mark .dot⟩, ⟨g', .word w⟩] ++ input = whole := by
        simpa using hwhole
      refine .metatype hw rfl ?_
      have := ih (by simp) hnext h
      rw [← hnext, textBetween_append] at this
      simpa [textOf_append hfront] using this
    | case4 bare g g' w input hw =>
      simp only [Prod.mk.injEq] at h
      obtain ⟨rfl, rfl⟩ := h
      exact .done (by simpa [lookahead_dot, isSuffix] using hw)
    | case5 bare input hquestion hexclamation hdot =>
      simp only [Prod.mk.injEq] at h
      obtain ⟨rfl, rfl⟩ := h
      refine .done ?_
      by_contra hsuffix
      rcases isSuffix_eq_true.1 (Bool.eq_true_of_not_eq_false hsuffix) with
        ⟨g, rest, rfl⟩ | ⟨g, rest, rfl⟩ | ⟨g, g', w, rest, rfl, -⟩
      · exact hquestion _ _ rfl
      · exact hexclamation _ _ rfl
      · exact hdot _ _ _ _ rfl

/-! ### The reader and the grammar -/

/-- The reader gives the phrase at some depth. -/
def Phrase.Computed (depth : Nat) (input rest : List Lexeme) : Phrase → Prop
  | .type t => readType depth input = .ok (t, rest)
  | .joined => readJoined depth input = .ok rest
  | .suffixed t => readSuffixed depth input = .ok (t, rest)
  | .primary t => readPrimary depth input = .ok (t, rest)
  | .bracketed t => readBracketed depth input = .ok (t, rest)
  | .nominal name t => readNominal depth name input = .ok (t, rest)
  | .arguments ts => readArguments depth input = .ok (ts, rest)
  | .types ts => ∃ mid, readTypes depth input = .ok (ts, mid) ∧ expect .greater mid = .ok rest
  | .parenthesized t => readParenthesized depth input = .ok (t, rest)
  | .list es => (es = [] ∧ ∃ g, input = ⟨g, .mark .closeParen⟩ :: rest) ∨
      (lookahead input ≠ [.mark .closeParen] ∧
        ∃ mid, readElements depth input = .ok (es, mid) ∧ expect .closeParen mid = .ok rest)
  | .elements es =>
      ∃ mid, readElements depth input = .ok (es, mid) ∧ expect .closeParen mid = .ok rest
  | .element e => readElement depth input = .ok (e, rest)
  | .effects before after => readEffects depth before input = .ok (after, rest)

theorem Reads.effects_mono {p : Phrase} {input rest : List Lexeme} (h : Reads p input rest)
    {before after : Effects} (hp : p = .effects before after) :
    (before.isAsync = true → after.isAsync = true) ∧
      (before.throws = true → after.throws = true) := by
  induction h generalizing before with
  | async _ ih | rethrows _ ih | throws _ _ ih | throwsType _ _ _ ih =>
    cases hp
    have := ih rfl
    simp_all
  | effectsDone => cases hp; exact ⟨id, id⟩
  | _ => cases hp

/-- Where no effect is found, none was looked at. -/
theorem Reads.eq_of_effects {before after : Effects} {input rest : List Lexeme}
    (h : Reads (.effects before after) input rest) (hasync : after.isAsync = false)
    (hthrows : after.throws = false) : rest = input ∧ isEffect (lookahead rest) = false := by
  cases h with
  | async h => exact absurd ((h.effects_mono rfl).1 rfl) (by simp [hasync])
  | rethrows h | throws _ h | throwsType _ h =>
    exact absurd ((h.effects_mono rfl).2 rfl) (by simp [hthrows])
  | effectsDone h => exact ⟨rfl, h⟩

/-- The part of `readParenthesized` behind the list: the effects and the result of a function, or
nothing. -/
def readBehind (depth : Nat) (es : List (Option String × TypeExpr)) (mid : List Lexeme) :
    Except Fault (TypeExpr × List Lexeme) :=
  (readEffects depth {} mid).bind fun (effects, rest) =>
    match rest with
    | ⟨_, .arrow⟩ :: rest => (readType depth rest).bind fun (result, rest) =>
      .ok (.function (es.map (·.2)) result effects.isAsync effects.throws effects.thrown, rest)
    | rest =>
      if effects.isAsync || effects.throws then .error .effectsWithoutResult
      else .ok (ofElements es, rest)

section

variable {depth : Nat}
  (ih : ∀ {p : Phrase} {input rest : List Lexeme}, p.Computed depth input rest → Reads p input rest)
include ih

theorem reads_type_of_step {t : TypeExpr} {input rest : List Lexeme}
    (h : readType (depth + 1) input = .ok (t, rest)) : Reads (.type t) input rest := by
  simp only [readType, bind, pure, Except.pure] at h
  split at h
  · next hstart =>
    obtain ⟨⟨t', mid⟩, hs, h⟩ := bind_eq_ok.1 h
    obtain ⟨rest', hj, h⟩ := bind_eq_ok.1 h
    simp only [Except.ok.injEq, Prod.mk.injEq] at h
    obtain ⟨rfl, rfl⟩ := h
    rcases input with _ | ⟨x, input⟩
    · simp [startsConstraint] at hstart
    · have hs : Reads (.suffixed t') input mid := ih hs
      have hj : Reads .joined mid rest' := ih hj
      obtain ⟨front, hfront⟩ := (hj.suffix.trans hs.suffix).trans (List.suffix_cons x input)
      rw [← hfront, textBetween_append, hfront]
      exact .constraint hstart hs hj hfront.symm
  · next hstart =>
    rw [Bool.not_eq_true] at hstart
    obtain ⟨⟨t', mid⟩, hs, h⟩ := bind_eq_ok.1 h
    have hs : Reads (.suffixed t') input mid := ih hs
    dsimp only at h
    split at h
    · next g mid' _ =>
      obtain ⟨rest', hj, h⟩ := bind_eq_ok.1 h
      simp only [Except.ok.injEq, Prod.mk.injEq] at h
      obtain ⟨rfl, rfl⟩ := h
      have hj : Reads .joined (⟨g, .mark .ampersand⟩ :: mid') rest' := ih hj
      obtain ⟨front, hfront⟩ := hj.suffix.trans hs.suffix
      rw [← hfront, textBetween_append, hfront]
      exact .join hstart hs hj hfront.symm
    · next hrest =>
      simp only [Except.ok.injEq, Prod.mk.injEq] at h
      obtain ⟨rfl, rfl⟩ := h
      refine .single hstart hs fun hamp => ?_
      obtain ⟨g, mid', rfl⟩ := (lookahead_eq_singleton (by simp)).1 hamp
      exact hrest _ _ rfl

theorem reads_joined_of_step {input rest : List Lexeme}
    (h : readJoined (depth + 1) input = .ok rest) : Reads .joined input rest := by
  unfold readJoined at h
  split at h
  · simp at h
  · next hdepth =>
    obtain rfl : depth = _ := by simpa using hdepth
    obtain ⟨⟨t, mid⟩, hs, hj⟩ := bind_eq_ok.1 h
    exact .joinedMore (ih hs) (ih hj)
  · next hrest =>
    obtain rfl := Except.ok.inj h
    refine .joinedDone fun hamp => ?_
    obtain ⟨g, mid', rfl⟩ := (lookahead_eq_singleton (by simp)).1 hamp
    exact hrest _ _ rfl

theorem reads_suffixed_of_step {t : TypeExpr} {input rest : List Lexeme}
    (h : readSuffixed (depth + 1) input = .ok (t, rest)) : Reads (.suffixed t) input rest := by
  simp only [readSuffixed, bind, pure, Except.pure, bind_eq_ok] at h
  obtain ⟨⟨bare, mid⟩, hp, h⟩ := h
  have hp : Reads (.primary bare) input mid := ih hp
  obtain ⟨front, rfl, hfront⟩ := hp.exists_front
  refine .suffixed hp rfl ((suffixes_iff ?_).2 (Except.ok.inj h))
  rintro rfl
  simp [Phrase.least] at hfront

theorem reads_primary_of_step {t : TypeExpr} {input rest : List Lexeme}
    (h : readPrimary (depth + 1) input = .ok (t, rest)) : Reads (.primary t) input rest := by
  rcases input with _ | ⟨⟨g, token⟩, input⟩
  · simp [readPrimary] at h
  · simp only [readPrimary] at h
    split at h
    · exact .parenthesized (ih h)
    · exact .bracketed (ih h)
    · exact .nominal (ih h)
    · simp at h

theorem reads_bracketed_of_step {t : TypeExpr} {input rest : List Lexeme}
    (h : readBracketed (depth + 1) input = .ok (t, rest)) : Reads (.bracketed t) input rest := by
  simp only [readBracketed, bind, pure, Except.pure, bind_eq_ok] at h
  obtain ⟨⟨key, mid⟩, hk, h⟩ := h
  dsimp only at h
  split at h
  · obtain ⟨⟨value, mid'⟩, hv, h⟩ := bind_eq_ok.1 h
    obtain ⟨rest', he, h⟩ := bind_eq_ok.1 h
    simp only [Except.ok.injEq, Prod.mk.injEq] at h
    obtain ⟨rfl, rfl⟩ := h
    obtain ⟨g', rfl⟩ := expect_eq_ok.1 he
    exact .dictionary (ih hk) (ih hv)
  · obtain ⟨rest', he, h⟩ := bind_eq_ok.1 h
    simp only [Except.ok.injEq, Prod.mk.injEq] at h
    obtain ⟨rfl, rfl⟩ := h
    obtain ⟨g', rfl⟩ := expect_eq_ok.1 he
    exact .array (ih hk)

theorem reads_nominal_of_step {name : String} {t : TypeExpr} {input rest : List Lexeme}
    (h : readNominal (depth + 1) name input = .ok (t, rest)) :
    Reads (.nominal name t) input rest := by
  simp only [readNominal, bind, pure, Except.pure, bind_eq_ok] at h
  obtain ⟨⟨ts, mid⟩, ha, h⟩ := h
  have ha : Reads (.arguments ts) input mid := ih ha
  dsimp only at h
  split at h
  · next g g' w mid =>
    split at h
    · next hw =>
      simp only [Except.ok.injEq, Prod.mk.injEq] at h
      obtain ⟨rfl, rfl⟩ := h
      exact .nominalDone ha (by simpa [lookahead_dot, isMember] using hw)
    · next hw => exact .member ha (by simpa using hw) (ih h)
  · next hrest =>
    simp only [Except.ok.injEq, Prod.mk.injEq] at h
    obtain ⟨rfl, rfl⟩ := h
    refine .nominalDone ha ?_
    by_contra hmember
    obtain ⟨g, g', w, mid, rfl, -⟩ := isMember_eq_true.1 (Bool.eq_true_of_not_eq_false hmember)
    exact hrest _ _ _ _ rfl

theorem reads_arguments_of_step {ts : List TypeExpr} {input rest : List Lexeme}
    (h : readArguments (depth + 1) input = .ok (ts, rest)) : Reads (.arguments ts) input rest := by
  unfold readArguments at h
  split at h
  · simp at h
  · next hdepth =>
    obtain rfl : depth = _ := by simpa using hdepth
    obtain ⟨⟨ts', mid⟩, ht, h⟩ := bind_eq_ok.1 h
    obtain ⟨rest', he, h⟩ := bind_eq_ok.1 h
    simp only [pure, Except.pure, Except.ok.injEq, Prod.mk.injEq] at h
    obtain ⟨rfl, rfl⟩ := h
    exact .arguments (ih ⟨mid, ht, he⟩)
  · next hrest =>
    simp only [Except.ok.injEq, Prod.mk.injEq] at h
    obtain ⟨rfl, rfl⟩ := h
    refine .argumentsNone fun hless => ?_
    obtain ⟨g, mid', rfl⟩ := (lookahead_eq_singleton (by simp)).1 hless
    exact hrest _ _ rfl

theorem reads_types_of_step {ts : List TypeExpr} {input mid rest : List Lexeme}
    (h : readTypes (depth + 1) input = .ok (ts, mid)) (he : expect .greater mid = .ok rest) :
    Reads (.types ts) input rest := by
  simp only [readTypes, bind, pure, Except.pure, bind_eq_ok] at h
  obtain ⟨⟨t, mid'⟩, ht, h⟩ := h
  obtain ⟨g, rfl⟩ := expect_eq_ok.1 he
  dsimp only at h
  split at h
  · obtain ⟨⟨ts', mid''⟩, hts, h⟩ := bind_eq_ok.1 h
    simp only [Except.ok.injEq, Prod.mk.injEq] at h
    obtain ⟨rfl, rfl⟩ := h
    exact .typesMore (ih ht) (ih ⟨_, hts, he⟩)
  · simp only [Except.ok.injEq, Prod.mk.injEq] at h
    obtain ⟨rfl, rfl⟩ := h
    exact .typesLast (ih ht)

theorem reads_parenthesized_of_step {t : TypeExpr} {input rest : List Lexeme}
    (h : readParenthesized (depth + 1) input = .ok (t, rest)) :
    Reads (.parenthesized t) input rest := by
  obtain ⟨es, mid, hlist, h⟩ : ∃ es mid, Reads (.list es) input mid ∧
      readBehind depth es mid = .ok (t, rest) := by
    simp only [readParenthesized] at h
    split at h
    · next g tail =>
      obtain ⟨⟨es, mid⟩, hes, h⟩ := bind_eq_ok.1 h
      obtain ⟨mid', he, h⟩ := bind_eq_ok.1 h
      simp only [Except.ok.injEq, Prod.mk.injEq] at hes
      obtain ⟨rfl, rfl⟩ := hes
      obtain ⟨g', hg⟩ := expect_eq_ok.1 he
      obtain rfl := (List.cons.inj hg).2
      exact ⟨[], _, .listNil, h⟩
    · next hclose =>
      obtain ⟨⟨es, mid⟩, hes, h⟩ := bind_eq_ok.1 h
      obtain ⟨mid', he, h⟩ := bind_eq_ok.1 h
      refine ⟨es, mid', ih (.inr ⟨fun hlook => ?_, mid, hes, he⟩), h⟩
      obtain ⟨g, tail, rfl⟩ := (lookahead_eq_singleton (by simp)).1 hlook
      exact hclose _ _ rfl
  obtain ⟨⟨effects, mid'⟩, heff, h⟩ := bind_eq_ok.1 h
  have heff : Reads (.effects {} effects) mid mid' := ih heff
  dsimp only at h
  split at h
  · obtain ⟨⟨t', rest'⟩, ht, h⟩ := bind_eq_ok.1 h
    simp only [Except.ok.injEq, Prod.mk.injEq] at h
    obtain ⟨rfl, rfl⟩ := h
    exact .function hlist heff (ih ht)
  · next harrow =>
    split at h
    · simp at h
    · next hflags =>
      simp only [Bool.or_eq_true, not_or, Bool.not_eq_true] at hflags
      simp only [Except.ok.injEq, Prod.mk.injEq] at h
      obtain ⟨rfl, rfl⟩ := h
      obtain ⟨rfl, heffect⟩ := heff.eq_of_effects hflags.1 hflags.2
      refine .tuple hlist heffect fun hlook => ?_
      obtain ⟨g, tail, rfl⟩ := (lookahead_eq_singleton (by simp)).1 hlook
      exact harrow _ _ rfl

theorem reads_elements_of_step {es : List (Option String × TypeExpr)} {input mid rest : List Lexeme}
    (h : readElements (depth + 1) input = .ok (es, mid)) (he : expect .closeParen mid = .ok rest) :
    Reads (.elements es) input rest := by
  simp only [readElements, bind, pure, Except.pure, bind_eq_ok] at h
  obtain ⟨⟨e, mid'⟩, ht, h⟩ := h
  obtain ⟨g, rfl⟩ := expect_eq_ok.1 he
  dsimp only at h
  split at h
  · obtain ⟨⟨es', mid''⟩, hes, h⟩ := bind_eq_ok.1 h
    simp only [Except.ok.injEq, Prod.mk.injEq] at h
    obtain ⟨rfl, rfl⟩ := h
    exact .elementsMore (ih ht) (ih ⟨_, hes, he⟩)
  · simp only [Except.ok.injEq, Prod.mk.injEq] at h
    obtain ⟨rfl, rfl⟩ := h
    exact .elementsLast (ih ht)

theorem reads_element_of_step {e : Option String × TypeExpr} {input rest : List Lexeme}
    (h : readElement (depth + 1) input = .ok (e, rest)) : Reads (.element e) input rest := by
  simp only [readElement, bind, pure, Except.pure, bind_eq_ok] at h
  obtain ⟨a, ha, c, hc, ⟨t, mid⟩, ht, h⟩ := h
  dsimp only at h
  split at h
  · simp only [Except.ok.injEq, Prod.mk.injEq] at h
    obtain ⟨rfl, rfl⟩ := h
    exact .variadic ha rfl hc (ih ht)
  · next hrest =>
    simp only [Except.ok.injEq, Prod.mk.injEq] at h
    obtain ⟨rfl, rfl⟩ := h
    refine .element ha rfl hc (ih ht) fun hdots => ?_
    obtain ⟨g, mid', rfl⟩ := (lookahead_eq_singleton (by simp)).1 hdots
    exact hrest _ _ rfl

theorem reads_effects_of_step {before after : Effects} {input rest : List Lexeme}
    (h : readEffects (depth + 1) before input = .ok (after, rest)) :
    Reads (.effects before after) input rest := by
  unfold readEffects at h
  split at h
  · simp at h
  · next g w input hdepth =>
    obtain rfl : depth = _ := by simpa using hdepth
    simp only [beq_iff_eq] at h
    split at h
    · next hw =>
      subst hw
      exact .async (ih h)
    · next hasync =>
      split at h
      · next hw =>
        subst hw
        exact .rethrows (ih h)
      · next hrethrows =>
        split at h
        · next hw =>
          subst hw
          split at h
          · obtain ⟨⟨t, mid⟩, ht, h⟩ := bind_eq_ok.1 h
            obtain ⟨mid', he, h⟩ := bind_eq_ok.1 h
            obtain ⟨g', rfl⟩ := expect_eq_ok.1 he
            exact .throwsType (ih ht) (ih h)
          · next hparen =>
            refine .throws (fun hlook => ?_) (ih h)
            obtain ⟨g, tail, rfl⟩ := (lookahead_eq_singleton (by simp)).1 hlook
            exact hparen _ _ rfl
        · next hthrows =>
          simp only [Except.ok.injEq, Prod.mk.injEq] at h
          obtain ⟨rfl, rfl⟩ := h
          refine .effectsDone ?_
          simp [lookahead_cons, isEffect, effectWords, hasync, hrethrows, hthrows]
  · next hword =>
    simp only [Except.ok.injEq, Prod.mk.injEq] at h
    obtain ⟨rfl, rfl⟩ := h
    refine .effectsDone ?_
    by_contra heffect
    obtain ⟨g, w, mid, rfl, -⟩ := isEffect_eq_true.1 (Bool.eq_true_of_not_eq_false heffect)
    exact hword _ _ _ rfl

end

/-- What the reader gives is what the grammar says. -/
theorem Reads.of_computed {depth : Nat} {p : Phrase} {input rest : List Lexeme}
    (h : p.Computed depth input rest) : Reads p input rest := by
  induction depth generalizing p input rest with
  | zero =>
    cases p with
    | list es =>
      rcases h with ⟨rfl, g, rfl⟩ | ⟨-, mid, h, -⟩
      · exact .listNil
      · simp [readElements] at h
    | _ => simp [Phrase.Computed, readType, readJoined, readSuffixed, readPrimary, readBracketed,
        readNominal, readArguments, readTypes, readParenthesized, readElements, readElement,
        readEffects] at h
  | succ depth ih =>
    cases p with
    | type t => exact reads_type_of_step ih h
    | joined => exact reads_joined_of_step ih h
    | suffixed t => exact reads_suffixed_of_step ih h
    | primary t => exact reads_primary_of_step ih h
    | bracketed t => exact reads_bracketed_of_step ih h
    | nominal name t => exact reads_nominal_of_step ih h
    | arguments ts => exact reads_arguments_of_step ih h
    | types ts =>
      obtain ⟨mid, h, he⟩ := h
      exact reads_types_of_step ih h he
    | parenthesized t => exact reads_parenthesized_of_step ih h
    | list es =>
      rcases h with ⟨rfl, g, rfl⟩ | ⟨hclose, mid, h, he⟩
      · exact .listNil
      · exact .list hclose (reads_elements_of_step ih h he)
    | elements es =>
      obtain ⟨mid, h, he⟩ := h
      exact reads_elements_of_step ih h he
    | element e => exact reads_element_of_step ih h
    | effects before after => exact reads_effects_of_step ih h

/-! ### The grammar and the reader -/

section

variable {depth : Nat} {t : TypeExpr} {input mid mid' rest : List Lexeme} {g g' w : List Char}

theorem readType_constraint {x : Lexeme} {front : List Lexeme}
    (hstart : startsConstraint (x :: input) = true) (hs : readSuffixed depth input = .ok (t, mid))
    (hj : readJoined depth mid = .ok rest) (hfront : x :: input = front ++ rest) :
    readType (depth + 1) (x :: input) =
      .ok (.verbatim (String.ofList (textOf front)), rest) := by
  simp only [readType, hstart, if_true, List.tail_cons, hs, hj, bind, Except.bind, pure, Except.pure]
  rw [hfront, textBetween_append]

theorem readType_join {front : List Lexeme} (hstart : startsConstraint input = false)
    (hs : readSuffixed depth input = .ok (t, ⟨g, .mark .ampersand⟩ :: mid))
    (hj : readJoined depth (⟨g, .mark .ampersand⟩ :: mid) = .ok rest)
    (hfront : input = front ++ rest) :
    readType (depth + 1) input = .ok (.verbatim (String.ofList (textOf front)), rest) := by
  simp only [readType, hstart, hs, hj, bind, Except.bind, pure, Except.pure, Bool.false_eq_true,
    if_false]
  rw [hfront, textBetween_append]

theorem readType_single (hstart : startsConstraint input = false)
    (hs : readSuffixed depth input = .ok (t, rest)) (hrest : lookahead rest ≠ [.mark .ampersand]) :
    readType (depth + 1) input = .ok (t, rest) := by
  simp only [readType, hstart, hs, bind, Except.bind, pure, Except.pure, Bool.false_eq_true,
    if_false]
  split
  · simp [lookahead_cons] at hrest
  · rfl

theorem readJoined_more (hs : readSuffixed depth input = .ok (t, mid))
    (hj : readJoined depth mid = .ok rest) :
    readJoined (depth + 1) (⟨g, .mark .ampersand⟩ :: input) = .ok rest := by
  simp only [readJoined, hs, hj, bind, Except.bind]

theorem readJoined_done (hrest : lookahead rest ≠ [.mark .ampersand]) :
    readJoined (depth + 1) rest = .ok rest := by
  unfold readJoined
  split
  · contradiction
  · simp [lookahead_cons] at hrest
  · rfl

theorem readSuffixed_of_suffixes {bare : TypeExpr} {front : List Lexeme} (hfront : front ≠ [])
    (hp : readPrimary depth (front ++ mid) = .ok (bare, mid))
    (hs : Suffixes (textOf front) bare t mid rest) :
    readSuffixed (depth + 1) (front ++ mid) = .ok (t, rest) := by
  simp only [readSuffixed, hp, bind, Except.bind, pure, Except.pure, (suffixes_iff hfront).1 hs]

theorem readBracketed_dictionary {value : TypeExpr}
    (hk : readType depth input = .ok (t, ⟨g, .mark .colon⟩ :: mid))
    (hv : readType depth mid = .ok (value, ⟨g', .mark .closeBracket⟩ :: rest)) :
    readBracketed (depth + 1) input = .ok (.dictionary t value, rest) := by
  simp [readBracketed, hk, hv, bind, Except.bind, pure, Except.pure, expect]

theorem readBracketed_array (he : readType depth input = .ok (t, ⟨g, .mark .closeBracket⟩ :: rest)) :
    readBracketed (depth + 1) input = .ok (.array t, rest) := by
  simp [readBracketed, he, bind, Except.bind, pure, Except.pure, expect]

theorem readNominal_member {name : String} {ts : List TypeExpr}
    (ha : readArguments depth input = .ok (ts, ⟨g, .mark .dot⟩ :: ⟨g', .word w⟩ :: mid))
    (hw : isMetatypeSuffix w = false)
    (hn : readNominal depth (render (.nominal name ts) ++ "." ++ String.ofList (unticked w)) mid =
      .ok (t, rest)) :
    readNominal (depth + 1) name input = .ok (t, rest) := by
  simp [readNominal, ha, hw, hn, bind, Except.bind]

theorem readNominal_done {name : String} {ts : List TypeExpr}
    (ha : readArguments depth input = .ok (ts, rest)) (hrest : isMember (lookahead rest) = false) :
    readNominal (depth + 1) name input = .ok (.nominal name ts, rest) := by
  simp only [readNominal, ha, bind, Except.bind, pure, Except.pure]
  split
  · simp only [lookahead_dot, isMember, Bool.not_eq_eq_eq_not, Bool.not_false] at hrest
    simp [hrest]
  · rfl

theorem readArguments_some {ts : List TypeExpr} (ht : readTypes depth input = .ok (ts, mid))
    (he : expect .greater mid = .ok rest) :
    readArguments (depth + 1) (⟨g, .mark .less⟩ :: input) = .ok (ts, rest) := by
  simp [readArguments, ht, he, bind, Except.bind, pure, Except.pure]

theorem readArguments_none (hrest : lookahead rest ≠ [.mark .less]) :
    readArguments (depth + 1) rest = .ok ([], rest) := by
  unfold readArguments
  split
  · contradiction
  · simp [lookahead_cons] at hrest
  · rfl

theorem readTypes_more {ts : List TypeExpr}
    (ht : readType depth input = .ok (t, ⟨g, .mark .comma⟩ :: mid))
    (hts : readTypes depth mid = .ok (ts, rest)) :
    readTypes (depth + 1) input = .ok (t :: ts, rest) := by
  simp [readTypes, ht, hts, bind, Except.bind, pure, Except.pure]

theorem readTypes_last (ht : readType depth input = .ok (t, ⟨g, .mark .greater⟩ :: rest)) :
    readTypes (depth + 1) input = .ok ([t], ⟨g, .mark .greater⟩ :: rest) := by
  simp [readTypes, ht, bind, Except.bind, pure, Except.pure]

theorem readParenthesized_of_list {es : List (Option String × TypeExpr)}
    (hlist : Phrase.Computed depth input mid (.list es)) :
    readParenthesized (depth + 1) input = readBehind depth es mid := by
  rcases hlist with ⟨rfl, g, rfl⟩ | ⟨hclose, mid', hes, he⟩
  · simp only [readParenthesized, expect, if_true, bind, Except.bind, pure, Except.pure]
    rfl
  · simp only [readParenthesized, bind, pure, Except.pure]
    split
    · simp [lookahead_cons] at hclose
    · simp only [hes, he, Except.bind]
      rfl

theorem readParenthesized_function {es : List (Option String × TypeExpr)} {effects : Effects}
    (hlist : Phrase.Computed depth input mid (.list es))
    (heff : readEffects depth {} mid = .ok (effects, ⟨g, .arrow⟩ :: mid'))
    (ht : readType depth mid' = .ok (t, rest)) :
    readParenthesized (depth + 1) input = .ok (.function (es.map (·.2)) t effects.isAsync
      effects.throws effects.thrown, rest) := by
  rw [readParenthesized_of_list hlist]
  simp [readBehind, heff, ht, Except.bind]

theorem readEffects_done {effects : Effects} (hrest : isEffect (lookahead rest) = false) :
    readEffects (depth + 1) effects rest = .ok (effects, rest) := by
  unfold readEffects
  split
  · contradiction
  · next g w tail _ =>
    rw [lookahead_cons (by simp)] at hrest
    simp only [isEffect, effectWords, List.contains_eq_mem, List.mem_cons, List.not_mem_nil,
      or_false, decide_eq_false_iff_not, not_or] at hrest
    simp [hrest]
  · rfl

theorem readParenthesized_tuple {es : List (Option String × TypeExpr)}
    (hlist : Phrase.Computed (depth + 1) input rest (.list es))
    (heffect : isEffect (lookahead rest) = false) (harrow : lookahead rest ≠ [.arrow]) :
    readParenthesized (depth + 2) input = .ok (ofElements es, rest) := by
  rw [readParenthesized_of_list hlist, readBehind, readEffects_done heffect]
  simp only [Except.bind]
  split
  · simp [lookahead_cons] at harrow
  · rfl

theorem readElements_more {e : Option String × TypeExpr} {es : List (Option String × TypeExpr)}
    (he : readElement depth input = .ok (e, ⟨g, .mark .comma⟩ :: mid))
    (hes : readElements depth mid = .ok (es, rest)) :
    readElements (depth + 1) input = .ok (e :: es, rest) := by
  simp [readElements, he, hes, bind, Except.bind, pure, Except.pure]

theorem readElements_last {e : Option String × TypeExpr}
    (he : readElement depth input = .ok (e, ⟨g, .mark .closeParen⟩ :: rest)) :
    readElements (depth + 1) input = .ok ([e], ⟨g, .mark .closeParen⟩ :: rest) := by
  simp [readElements, he, bind, Except.bind, pure, Except.pure]

theorem readElement_variadic {label : Option String} {a b c : List Lexeme}
    (ha : skipAttributes 0 input = .ok a) (hl : readLabel a = (label, b))
    (hc : skipAttributes 0 b = .ok c) (ht : readType depth c = .ok (t, ⟨g, .ellipsis⟩ :: rest)) :
    readElement (depth + 1) input = .ok ((label, .array t), rest) := by
  simp [readElement, ha, hl, hc, ht, bind, Except.bind, pure, Except.pure]

theorem readElement_plain {label : Option String} {a b c : List Lexeme}
    (ha : skipAttributes 0 input = .ok a) (hl : readLabel a = (label, b))
    (hc : skipAttributes 0 b = .ok c) (ht : readType depth c = .ok (t, rest))
    (hrest : lookahead rest ≠ [.ellipsis]) :
    readElement (depth + 1) input = .ok ((label, t), rest) := by
  simp only [readElement, ha, hl, hc, ht, bind, Except.bind, pure, Except.pure]
  split
  · simp [lookahead_cons] at hrest
  · rfl

theorem readEffects_throws {before : Effects} (hrest : lookahead input ≠ [.mark .openParen]) :
    readEffects (depth + 1) before (⟨g, .word ['t', 'h', 'r', 'o', 'w', 's']⟩ :: input) =
      readEffects depth { before with throws := true } input := by
  simp only [readEffects, beq_iff_eq, List.cons.injEq, Char.reduceEq, false_and, and_false, if_false,
    if_true]
  split
  · simp [lookahead_cons] at hrest
  · rfl

theorem readEffects_throwsType {before : Effects}
    (ht : readType depth input = .ok (t, ⟨g', .mark .closeParen⟩ :: mid)) :
    readEffects (depth + 1) before
        (⟨g, .word ['t', 'h', 'r', 'o', 'w', 's']⟩ :: ⟨w, .mark .openParen⟩ :: input) =
      readEffects depth { before with throws := true, thrown := some t } mid := by
  simp [readEffects, ht, bind, Except.bind, expect]

end

/-- The steps down that a phrase may need before it takes a lexeme. -/
def Phrase.rank : Phrase → Nat
  | .element _ => 4
  | .type _ => 3
  | .suffixed _ | .nominal .. | .parenthesized _ => 2
  | _ => 1

/-- A depth of eight for each lexeme is enough. -/
theorem Reads.computed {p : Phrase} {input rest : List Lexeme} (h : Reads p input rest) {depth : Nat}
    (hdepth : 8 * input.length + p.rank ≤ depth + 8 * rest.length) :
    p.Computed depth input rest := by
  have hpos {d : Nat} (h : 1 ≤ d) : ∃ d', d = d' + 1 := ⟨d - 1, by omega⟩
  have hlen {p : Phrase} {a b : List Lexeme} (h : Reads p a b) := h.length_le
  induction h generalizing depth with
  | constraint hstart hs hj hfront ihs ihj =>
    have h1 := hlen hs
    have h2 := hlen hj
    simp only [Phrase.rank, Phrase.least, List.length_cons] at *
    obtain ⟨depth, rfl⟩ := hpos (d := depth) (by omega)
    exact readType_constraint hstart (ihs (by omega)) (ihj (by omega)) hfront
  | join hstart hs hj hfront ihs ihj =>
    have h1 := hlen hs
    have h2 := hlen hj
    simp only [Phrase.rank, Phrase.least, List.length_cons] at *
    obtain ⟨depth, rfl⟩ := hpos (d := depth) (by omega)
    exact readType_join hstart (ihs (by omega)) (ihj (by omega)) hfront
  | single hstart hs hrest ihs =>
    have h1 := hlen hs
    simp only [Phrase.rank, Phrase.least] at *
    obtain ⟨depth, rfl⟩ := hpos (d := depth) (by omega)
    exact readType_single hstart (ihs (by omega)) hrest
  | joinedMore hs hj ihs ihj =>
    have h1 := hlen hs
    have h2 := hlen hj
    simp only [Phrase.rank, Phrase.least, List.length_cons] at *
    obtain ⟨depth, rfl⟩ := hpos (d := depth) (by omega)
    exact readJoined_more (ihs (by omega)) (ihj (by omega))
  | joinedDone hrest =>
    simp only [Phrase.rank] at hdepth
    obtain ⟨depth, rfl⟩ := hpos (d := depth) (by omega)
    exact readJoined_done hrest
  | suffixed hp hfront hs ihp =>
    have h1 := hlen hp
    have h2 := hs.suffix.length_le
    subst hfront
    simp only [Phrase.rank, Phrase.least, List.length_append] at *
    obtain ⟨depth, rfl⟩ := hpos (d := depth) (by omega)
    refine readSuffixed_of_suffixes ?_ (ihp (by omega)) hs
    rintro rfl
    simp at h1
  | parenthesized h ih | bracketed h ih | nominal h ih | async h ih | rethrows h ih =>
    have h1 := hlen h
    simp only [Phrase.rank, Phrase.least, List.length_cons] at *
    obtain ⟨depth, rfl⟩ := hpos (d := depth) (by omega)
    exact ih (by omega)
  | dictionary hk hv ihk ihv =>
    have h1 := hlen hk
    have h2 := hlen hv
    simp only [Phrase.rank, Phrase.least, List.length_cons] at *
    obtain ⟨depth, rfl⟩ := hpos (d := depth) (by omega)
    exact readBracketed_dictionary (ihk (by omega)) (ihv (by omega))
  | array h ih =>
    have h1 := hlen h
    simp only [Phrase.rank, Phrase.least, List.length_cons] at *
    obtain ⟨depth, rfl⟩ := hpos (d := depth) (by omega)
    exact readBracketed_array (ih (by omega))
  | member ha hw hn iha ihn =>
    have h1 := hlen ha
    have h2 := hlen hn
    simp only [Phrase.rank, Phrase.least, List.length_cons] at *
    obtain ⟨depth, rfl⟩ := hpos (d := depth) (by omega)
    exact readNominal_member (iha (by omega)) hw (ihn (by omega))
  | nominalDone ha hrest iha =>
    have h1 := hlen ha
    simp only [Phrase.rank, Phrase.least] at *
    obtain ⟨depth, rfl⟩ := hpos (d := depth) (by omega)
    exact readNominal_done (iha (by omega)) hrest
  | arguments h ih =>
    have h1 := hlen h
    simp only [Phrase.rank, Phrase.least, List.length_cons] at *
    obtain ⟨depth, rfl⟩ := hpos (d := depth) (by omega)
    obtain ⟨mid, ht, he⟩ := @ih depth (by omega)
    exact readArguments_some ht he
  | argumentsNone hrest =>
    simp only [Phrase.rank] at hdepth
    obtain ⟨depth, rfl⟩ := hpos (d := depth) (by omega)
    exact readArguments_none hrest
  | typesMore ht hts iht ihts =>
    have h1 := hlen ht
    have h2 := hlen hts
    simp only [Phrase.rank, Phrase.least, List.length_cons] at *
    obtain ⟨depth, rfl⟩ := hpos (d := depth) (by omega)
    obtain ⟨mid, hts, he⟩ := @ihts depth (by omega)
    exact ⟨mid, readTypes_more (iht (by omega)) hts, he⟩
  | typesLast ht iht =>
    have h1 := hlen ht
    simp only [Phrase.rank, Phrase.least, List.length_cons] at *
    obtain ⟨depth, rfl⟩ := hpos (d := depth) (by omega)
    exact ⟨_, readTypes_last (iht (by omega)), expect_eq_ok.2 ⟨_, rfl⟩⟩
  | function hl he ht ihl ihe iht =>
    have h1 := hlen hl
    have h2 := hlen he
    have h3 := hlen ht
    simp only [Phrase.rank, Phrase.least, List.length_cons] at *
    obtain ⟨depth, rfl⟩ := hpos (d := depth) (by omega)
    exact readParenthesized_function (ihl (by omega)) (ihe (by omega)) (iht (by omega))
  | tuple hl heffect harrow ihl =>
    have h1 := hlen hl
    simp only [Phrase.rank, Phrase.least] at *
    obtain ⟨depth, rfl⟩ : ∃ d, depth = d + 2 := ⟨depth - 2, by omega⟩
    exact readParenthesized_tuple (ihl (by omega)) heffect harrow
  | listNil => exact .inl ⟨rfl, _, rfl⟩
  | list hclose _ ih => exact .inr ⟨hclose, ih hdepth⟩
  | elementsMore he hes ihe ihes =>
    have h1 := hlen he
    have h2 := hlen hes
    simp only [Phrase.rank, Phrase.least, List.length_cons] at *
    obtain ⟨depth, rfl⟩ := hpos (d := depth) (by omega)
    obtain ⟨mid, hes, hclose⟩ := @ihes depth (by omega)
    exact ⟨mid, readElements_more (ihe (by omega)) hes, hclose⟩
  | elementsLast he ihe =>
    have h1 := hlen he
    simp only [Phrase.rank, Phrase.least, List.length_cons] at *
    obtain ⟨depth, rfl⟩ := hpos (d := depth) (by omega)
    exact ⟨_, readElements_last (ihe (by omega)), expect_eq_ok.2 ⟨_, rfl⟩⟩
  | variadic ha hl hc ht ih =>
    have h1 := hlen ht
    have h2 := (element_suffix ha hl hc).2.length_le
    simp only [Phrase.rank, Phrase.least, List.length_cons] at *
    obtain ⟨depth, rfl⟩ := hpos (d := depth) (by omega)
    exact readElement_variadic ha hl hc (ih (by omega))
  | element ha hl hc ht hrest ih =>
    have h1 := hlen ht
    have h2 := (element_suffix ha hl hc).2.length_le
    simp only [Phrase.rank, Phrase.least] at *
    obtain ⟨depth, rfl⟩ := hpos (d := depth) (by omega)
    exact readElement_plain ha hl hc (ih (by omega)) hrest
  | throws hparen h ih =>
    have h1 := hlen h
    simp only [Phrase.rank, Phrase.least, List.length_cons] at *
    obtain ⟨depth, rfl⟩ := hpos (d := depth) (by omega)
    exact (readEffects_throws hparen).trans (ih (by omega))
  | throwsType ht h iht ih =>
    have h1 := hlen ht
    have h2 := hlen h
    simp only [Phrase.rank, Phrase.least, List.length_cons] at *
    obtain ⟨depth, rfl⟩ := hpos (d := depth) (by omega)
    exact (readEffects_throwsType (iht (by omega))).trans (ih (by omega))
  | effectsDone hrest =>
    simp only [Phrase.rank] at hdepth
    obtain ⟨depth, rfl⟩ := hpos (d := depth) (by omega)
    exact readEffects_done hrest

theorem reads_iff {p : Phrase} {input rest : List Lexeme} :
    Reads p input rest ↔ ∃ depth, p.Computed depth input rest :=
  ⟨fun h => ⟨8 * input.length + p.rank, h.computed (by omega)⟩, fun ⟨_, h⟩ => .of_computed h⟩

theorem Reads.type_unique {t t' : TypeExpr} {input rest rest' : List Lexeme}
    (h : Reads (.type t) input rest) (h' : Reads (.type t') input rest') :
    t = t' ∧ rest = rest' := by
  have h1 : readType (8 * input.length + 3) input = .ok (t, rest) :=
    h.computed (by simp [Phrase.rank])
  have h2 : readType (8 * input.length + 3) input = .ok (t', rest') :=
    h'.computed (by simp [Phrase.rank])
  simpa using h1.symm.trans h2

theorem Reads.arguments_unique {ts ts' : List TypeExpr} {input rest rest' : List Lexeme}
    (h : Reads (.arguments ts) input rest) (h' : Reads (.arguments ts') input rest') :
    ts = ts' ∧ rest = rest' := by
  have h1 : readArguments (8 * input.length + 1) input = .ok (ts, rest) :=
    h.computed (by simp [Phrase.rank])
  have h2 : readArguments (8 * input.length + 1) input = .ok (ts', rest') :=
    h'.computed (by simp [Phrase.rank])
  simpa using h1.symm.trans h2

/-! ### Whole texts -/

theorem ofLexemes_eq_ok_iff {t : TypeExpr} {input : List Lexeme} :
    ofLexemes input = .ok t ↔ Reads (.type t) input [] := by
  rcases input with _ | ⟨x, input⟩
  · simp only [ofLexemes, false_iff, reduceCtorEq]
    intro h
    simpa [Phrase.least] using h.length_le
  · constructor
    · intro h
      simp only [ofLexemes] at h
      obtain ⟨⟨t', rest⟩, ht, h⟩ := bind_eq_ok.1 h
      rcases rest with _ | ⟨y, rest⟩
      · obtain rfl := Except.ok.inj h
        exact .of_computed ht
      · simp at h
    · intro h
      have ht : readType (8 * (x :: input).length + 8) (x :: input) = .ok (t, []) :=
        h.computed (by simp [Phrase.rank])
      simp only [ofLexemes, ht, bind, Except.bind, pure, Except.pure]

/-- A text is a type if its lexemes are read as one up to the end. -/
theorem ofString_eq_ok_iff {text : String} {t : TypeExpr} :
    ofString text = .ok t ↔
      ∃ input, Lexeme.ofChars text.toList = .ok input ∧ Reads (.type t) input [] := by
  unfold ofString
  rcases hlex : Lexeme.ofChars text.toList with bad | input
  · simp
  · simp only [Except.ok.injEq, exists_eq_left', ← ofLexemes_eq_ok_iff]
    cases ofLexemes input <;> simp [Except.mapError]

end FluentBuilder.TypeExpr
