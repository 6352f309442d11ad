import FluentBuilder.Proofs.TypeExpr.Grammar

/-!
# A phrase does not depend on what follows it

`Reads.local`: the lexemes that make up a phrase make it up again in front of another rest, if this
starts with the same token or with one that ends every repetition (`Alike`). The tokens of the
second kind are the comma, the colon and the closing brackets, and the end of the text counts as
one of them; `any` and `some` are names exactly in front of these.

The gap in front of a type is not part of it (`Reads.type_regap`).
-/

namespace FluentBuilder.TypeExpr

open Text Lexeme

/-! ### Rests that are alike -/

/-- Whether nothing can go on with the next token: a comma, a colon, a closing bracket or the end. -/
def isClosing : List Token → Bool
  | [] | [.mark .comma] | [.mark .colon] | [.mark .closeParen] | [.mark .closeBracket]
  | [.mark .greater] => true
  | _ => false

/-- Whether a name and its arguments do not go on with the next tokens. -/
def endsName (tokens : List Token) : Bool := tokens != [.mark .less] && !isMember tokens

theorem endsName_of_isClosing {tokens : List Token} (h : isClosing tokens = true) :
    endsName tokens = true := by
  unfold isClosing at h
  split at h <;> first | rfl | simp at h

/-- The second rest ends what goes on only where `ends` is false, if the first rest does. -/
def Alike (ends : List Token → Bool) (rest rest' : List Lexeme) : Prop :=
  ends (lookahead rest') = true ∨ lookahead rest = lookahead rest'

section

variable {ends : List Token → Bool} {rest rest' : List Lexeme}

theorem Alike.mono {ends' : List Token → Bool} (h : Alike ends rest rest')
    (hends : ∀ tokens, ends tokens = true → ends' tokens = true) : Alike ends' rest rest' :=
  h.imp_left (hends _)

/-- What holds in front of the one rest holds in front of the other, if it holds where all ends. -/
theorem Alike.keep (h : Alike ends rest rest') {P : List Token → Prop}
    (hends : ∀ tokens, ends tokens = true → P tokens) (hrest : P (lookahead rest)) :
    P (lookahead rest') := by
  rcases h with h | h
  · exact hends _ h
  · rwa [← h]

theorem Alike.isSuffix (h : Alike isClosing rest rest')
    (hrest : isSuffix (lookahead rest) = false) : isSuffix (lookahead rest') = false := by
  refine h.keep (P := fun tokens => TypeExpr.isSuffix tokens = false) (fun tokens ht => ?_) hrest
  unfold isClosing at ht
  split at ht <;> first | rfl | simp at ht

theorem Alike.isEffect (h : Alike isClosing rest rest')
    (hrest : isEffect (lookahead rest) = false) : isEffect (lookahead rest') = false := by
  refine h.keep (P := fun tokens => TypeExpr.isEffect tokens = false) (fun tokens ht => ?_) hrest
  unfold isClosing at ht
  split at ht <;> first | rfl | simp at ht

theorem Alike.isMember (h : Alike endsName rest rest')
    (hrest : isMember (lookahead rest) = false) : isMember (lookahead rest') = false := by
  refine h.keep (P := fun tokens => TypeExpr.isMember tokens = false) (fun tokens ht => ?_) hrest
  simp only [endsName, Bool.and_eq_true, Bool.not_eq_true'] at ht
  exact ht.2

theorem Alike.ne (h : Alike ends rest rest') {token : Token}
    (htoken : ends [token] = false) (hrest : lookahead rest ≠ [token]) :
    lookahead rest' ≠ [token] := by
  refine h.keep (P := fun tokens => tokens ≠ [token]) (fun tokens ht heq => ?_) hrest
  rw [heq, htoken] at ht
  simp at ht

theorem alike_cons {x : Lexeme} (h : x.token ≠ .mark .dot) :
    Alike ends (x :: rest) (x :: rest') := by
  right
  rw [lookahead_cons h, lookahead_cons h]

theorem alike_cons_cons {x y : Lexeme} : Alike ends (x :: y :: rest) (x :: y :: rest') := by
  right
  simp [lookahead]

/-- More lexemes in front change nothing, unless they are a single dot. -/
theorem Alike.append {front : List Lexeme} (h : Alike ends rest rest')
    (hfront : ∀ g, front ≠ [⟨g, .mark .dot⟩]) :
    Alike ends (front ++ rest) (front ++ rest') := by
  rcases front with _ | ⟨⟨g, token⟩, _ | ⟨y, front⟩⟩
  · exact h
  · refine alike_cons fun hdot => hfront g ?_
    rw [show token = .mark .dot from hdot]
  · exact alike_cons_cons

end

/-! ### Constraints, suffixes, attributes and labels -/

theorem startsConstraint_cons {x : Lexeme} {rest : List Lexeme} :
    startsConstraint (x :: rest) = true ↔
      ∃ w, x.token = .word w ∧ isConstraintWord w = true ∧ isClosing (lookahead rest) = false := by
  obtain ⟨g, token⟩ := x
  rcases token with _ | _ | w | w | m
  · simp [startsConstraint]
  · simp [startsConstraint]
  · simp [startsConstraint]
  · rcases rest with _ | ⟨⟨g', token'⟩, rest⟩
    · simp [startsConstraint, isClosing]
    · simp only [startsConstraint, Token.word.injEq, exists_eq_left']
      rw [Bool.and_eq_true]
      refine and_congr_right fun _ => ?_
      by_cases hdot : token' = .mark .dot
      · subst hdot
        rcases rest with _ | ⟨y, rest⟩
        · simp [lookahead, isClosing]
        · simp [lookahead_dot, isClosing]
      · rw [lookahead_cons hdot]
        rcases token' with _ | _ | w' | w' | m
        · simp [isClosing]
        · simp [isClosing]
        · simp [isClosing]
        · simp [isClosing]
        · cases m <;> simp [isClosing]
  · simp [startsConstraint]

theorem startsConstraint_cons_cons {x y : Lexeme} {rest rest' : List Lexeme} :
    startsConstraint (x :: y :: rest) = startsConstraint (x :: y :: rest') := by
  obtain ⟨g, token⟩ := x
  rcases token with _ | _ | w | w | m <;> rfl

/-- Whether a type starts with a constraint is settled by it and by what follows it. -/
theorem startsConstraint_append {front rest rest' : List Lexeme} (hfront : front ≠ [])
    (hrest : Alike isClosing rest rest') (h : startsConstraint (front ++ rest) = false) :
    startsConstraint (front ++ rest') = false := by
  rcases front with _ | ⟨x, _ | ⟨y, front⟩⟩
  · exact absurd rfl hfront
  · by_contra hstart
    obtain ⟨w, hx, hw, hnext⟩ :=
      startsConstraint_cons.1 (Bool.eq_true_of_not_eq_false hstart)
    have hnot : ¬ startsConstraint (x :: rest) = true := by simpa using h
    rw [startsConstraint_cons] at hnot
    refine hnot ⟨w, hx, hw, ?_⟩
    rcases hrest with hclosing | hsame
    · exact absurd (hclosing.symm.trans hnext) (by simp)
    · rwa [hsame]
  · rw [← h]
    exact startsConstraint_cons_cons

theorem Suffixes.exists_front {text : List Char} {bare t : TypeExpr} {input rest : List Lexeme}
    (h : Suffixes text bare t input rest) :
    ∃ front, input = front ++ rest ∧ (∀ g, front ≠ [⟨g, .mark .dot⟩]) ∧
      ∀ rest', Alike isClosing rest rest' → Suffixes text bare t (front ++ rest') rest' := by
  induction h with
  | @question text bare t g input rest _ ih =>
    obtain ⟨front, rfl, -, h⟩ := ih
    exact ⟨⟨g, .mark .question⟩ :: front, by simp, by simp,
      fun rest' hrest => .question (h rest' hrest)⟩
  | @exclamation text bare t g input rest _ ih =>
    obtain ⟨front, rfl, -, h⟩ := ih
    exact ⟨⟨g, .mark .exclamation⟩ :: front, by simp, by simp,
      fun rest' hrest => .exclamation (h rest' hrest)⟩
  | @metatype text text' bare t g g' w input rest hw htext _ ih =>
    obtain ⟨front, rfl, -, h⟩ := ih
    exact ⟨⟨g, .mark .dot⟩ :: ⟨g', .word w⟩ :: front, by simp, by simp,
      fun rest' hrest => .metatype hw htext (h rest' hrest)⟩
  | done hrest => exact ⟨[], by simp, by simp, fun rest' h => .done (h.isSuffix hrest)⟩

/-- A lexeme in front of an end of the input stands before it. -/
theorem exists_of_append_eq_cons {front input rest : List Lexeme} {y : Lexeme}
    (hinput : front ++ rest = y :: input) (hrest : rest <:+ input) :
    ∃ front', front = y :: front' ∧ input = front' ++ rest := by
  obtain ⟨front', rfl⟩ := hrest
  exact ⟨front', List.append_cancel_right (hinput.trans (List.cons_append).symm), rfl⟩

/-- Attributes end where they end, whatever stands behind the lexeme that follows them. -/
theorem skipAttributes_append {depth : Nat} {front rest rest' : List Lexeme} {x : Lexeme}
    (h : skipAttributes depth (front ++ x :: rest) = .ok (x :: rest)) :
    skipAttributes depth (front ++ x :: rest') = .ok (x :: rest') := by
  generalize hinput : front ++ x :: rest = input at h
  fun_induction skipAttributes depth input generalizing front with
  | case1 g text input ih =>
    obtain ⟨front, rfl, htail⟩ := exists_of_append_eq_cons hinput
      ((skipAttributes_suffix h).trans (List.suffix_cons _ _))
    obtain ⟨front, rfl, rfl⟩ := exists_of_append_eq_cons htail.symm (skipAttributes_suffix h)
    exact ih rfl h
  | case2 g text input hparen ih =>
    obtain ⟨front, rfl, rfl⟩ := exists_of_append_eq_cons hinput (skipAttributes_suffix h)
    rw [List.cons_append, skipAttributes, ih rfl h]
    rintro rest'' heq
    rcases front with _ | ⟨z, front⟩
    · obtain ⟨rfl, -⟩ := List.cons.inj heq
      exact hparen _ rfl
    · obtain ⟨rfl, -⟩ := List.cons.inj heq
      exact hparen _ rfl
  | case3 g input ih =>
    obtain ⟨front, rfl, rfl⟩ := exists_of_append_eq_cons hinput (skipAttributes_suffix h)
    simpa [skipAttributes] using ih rfl h
  | case4 g w input hw =>
    obtain ⟨rfl, rfl⟩ := List.cons.inj (Except.ok.inj h)
    obtain rfl : front = [] := by simpa using hinput
    simp [skipAttributes, hw]
  | case5 input hattribute hattribute' hword =>
    obtain rfl := Except.ok.inj h
    obtain rfl : front = [] := by simpa using hinput
    obtain ⟨g, token⟩ := x
    rcases token with _ | _ | w | w | m
    · rfl
    · rfl
    · exact absurd rfl (hattribute' _ _ _)
    · exact absurd rfl (hword _ _ _)
    · rfl
  | case6 => simp at h
  | case7 depth g input ih =>
    obtain ⟨front, rfl, rfl⟩ := exists_of_append_eq_cons hinput (skipAttributes_suffix h)
    exact ih rfl h
  | case8 depth g input ih =>
    obtain ⟨front, rfl, rfl⟩ := exists_of_append_eq_cons hinput (skipAttributes_suffix h)
    exact ih rfl h
  | case9 depth y input hopen hclose ih =>
    obtain ⟨front, rfl, rfl⟩ := exists_of_append_eq_cons hinput (skipAttributes_suffix h)
    rw [List.cons_append, skipAttributes, ih rfl h]
    · exact hopen
    · exact hclose

/-- A label is at the start of the input, or there is none. -/
theorem readLabel_cases (input : List Lexeme) :
    (∃ front label, (∀ rest, readLabel (front ++ rest) = (some label, rest)) ∧
      front ≠ [] ∧ input = front ++ (readLabel input).2) ∨
    (readLabel input = (none, input) ∧
      (∀ g g' w rest, input ≠ ⟨g, .word w⟩ :: ⟨g', .mark .colon⟩ :: rest) ∧
      ∀ g g' g'' w w' rest,
        input ≠ ⟨g, .word w⟩ :: ⟨g', .word w'⟩ :: ⟨g'', .mark .colon⟩ :: rest) := by
  fun_cases readLabel input with
  | case1 g w g' rest =>
    exact .inl ⟨[⟨g, .word w⟩, ⟨g', .mark .colon⟩], _, fun rest => rfl, by simp, rfl⟩
  | case2 g w g' w' g'' rest =>
    exact .inl ⟨[⟨g, .word w⟩, ⟨g', .word w'⟩, ⟨g'', .mark .colon⟩], _, fun rest => rfl, by simp, rfl⟩
  | case3 input hone htwo =>
    exact .inr ⟨rfl, fun g g' w rest => hone g w g' rest, fun g g' g'' w w' rest =>
      htwo g w g' w' g'' rest⟩

theorem readLabel_eq_none {input : List Lexeme}
    (hone : ∀ g g' w rest, input ≠ ⟨g, .word w⟩ :: ⟨g', .mark .colon⟩ :: rest)
    (htwo : ∀ g g' g'' w w' rest,
      input ≠ ⟨g, .word w⟩ :: ⟨g', .word w'⟩ :: ⟨g'', .mark .colon⟩ :: rest) :
    readLabel input = (none, input) := by
  fun_cases readLabel input with
  | case1 => exact absurd rfl (hone _ _ _ _)
  | case2 => exact absurd rfl (htwo _ _ _ _ _ _)
  | case3 => rfl

/-- A label does not reach over what is neither a word nor a colon. -/
theorem readLabel_append {front : List Lexeme} {z : Lexeme} (hword : ∀ w, z.token ≠ .word w)
    (hcolon : z.token ≠ .mark .colon)
    (hone : ∀ g g' w l, front ≠ ⟨g, .word w⟩ :: ⟨g', .mark .colon⟩ :: l)
    (htwo : ∀ g g' g'' w w' l,
      front ≠ ⟨g, .word w⟩ :: ⟨g', .word w'⟩ :: ⟨g'', .mark .colon⟩ :: l) (tail : List Lexeme) :
    readLabel (front ++ z :: tail) = (none, front ++ z :: tail) := by
  refine readLabel_eq_none (fun g g' w r heq => ?_) (fun g g' g'' w w' r heq => ?_)
  · rcases front with _ | ⟨x, _ | ⟨y, l⟩⟩
    · obtain ⟨rfl, -⟩ := List.cons.inj heq
      exact hword _ rfl
    · simp only [List.cons_append, List.nil_append, List.cons.injEq] at heq
      exact hcolon (by rw [heq.2.1])
    · simp only [List.cons_append, List.cons.injEq] at heq
      obtain ⟨rfl, rfl, -⟩ := heq
      exact hone _ _ _ _ rfl
  · rcases front with _ | ⟨x, _ | ⟨y, _ | ⟨y', l⟩⟩⟩
    · obtain ⟨rfl, -⟩ := List.cons.inj heq
      exact hword _ rfl
    · simp only [List.cons_append, List.nil_append, List.cons.injEq] at heq
      exact hword w' (by rw [heq.2.1])
    · simp only [List.cons_append, List.nil_append, List.cons.injEq] at heq
      exact hcolon (by rw [heq.2.2.1])
    · simp only [List.cons_append, List.cons.injEq] at heq
      obtain ⟨rfl, rfl, rfl, -⟩ := heq
      exact htwo _ _ _ _ _ _ rfl

/-- What makes up an element in front of its type does so in front of other lexemes behind one that
is neither a word nor a colon. -/
theorem element_append {input a b front rest : List Lexeme} {z : Lexeme} {label : Option String}
    (ha : skipAttributes 0 input = .ok a) (hl : readLabel a = (label, b))
    (hc : skipAttributes 0 b = .ok (front ++ z :: rest)) (hfront : front ≠ [])
    (hword : ∀ w, z.token ≠ .word w) (hcolon : z.token ≠ .mark .colon) :
    ∃ u, input = u ++ (front ++ z :: rest) ∧ ∀ rest', ∃ a' b',
      skipAttributes 0 (u ++ (front ++ z :: rest')) = .ok a' ∧ readLabel a' = (label, b') ∧
        skipAttributes 0 b' = .ok (front ++ z :: rest') := by
  rcases front with _ | ⟨x, front⟩
  · exact absurd rfl hfront
  obtain ⟨m, rfl⟩ := skipAttributes_suffix hc
  have hc' (rest') : skipAttributes 0 (m ++ x :: (front ++ z :: rest')) =
      .ok (x :: (front ++ z :: rest')) := skipAttributes_append hc
  obtain ⟨v, rfl⟩ := skipAttributes_suffix ha
  rcases readLabel_cases a with ⟨l, label', hlabel, hne, hl'⟩ | ⟨hnone, hone, htwo⟩
  · rw [hl] at hl'
    subst hl'
    rw [hlabel, Prod.mk.injEq] at hl
    rcases l with _ | ⟨y, l⟩
    · exact absurd rfl hne
    refine ⟨v ++ (y :: l ++ m), by simp, fun rest' => ?_⟩
    refine ⟨y :: l ++ (m ++ x :: (front ++ z :: rest')), _, ?_, (hlabel _).trans ?_, hc' rest'⟩
    · have hskip : skipAttributes 0 (v ++ y :: (l ++ (m ++ x :: (front ++ z :: rest')))) =
          .ok (y :: (l ++ (m ++ x :: (front ++ z :: rest')))) := skipAttributes_append ha
      simpa using hskip
    · rw [hl.1]
  · rw [hnone, Prod.mk.injEq] at hl
    obtain ⟨rfl, rfl⟩ := hl
    obtain ⟨y, q, hq⟩ : ∃ y q, m ++ x :: front = y :: q := by
      rcases m with _ | ⟨y, m⟩
      · exact ⟨x, front, rfl⟩
      · exact ⟨y, m ++ x :: front, rfl⟩
    have hsplit (tail) : m ++ (x :: front ++ z :: tail) = y :: (q ++ z :: tail) := by
      rw [← List.append_assoc, hq, List.cons_append]
    refine ⟨v ++ m, by simp, fun rest' => ⟨m ++ (x :: front ++ z :: rest'), _, ?_, ?_, hc' rest'⟩⟩
    · rw [hsplit] at ha
      rw [List.append_assoc, hsplit]
      exact skipAttributes_append ha
    · rw [hsplit, ← List.cons_append] at hone htwo
      have hlabel : readLabel (y :: q ++ z :: rest') = (none, y :: q ++ z :: rest') :=
        readLabel_append hword hcolon
          (fun g g' w l heq => hone g g' w (l ++ z :: rest) (by rw [heq]; rfl))
          (fun g g' g'' w w' l heq => htwo g g' g'' w w' (l ++ z :: rest) (by rw [heq]; rfl)) rest'
      rwa [List.cons_append, ← hsplit] at hlabel

/-! ### Phrases -/

/-- The second rest ends the phrase if the first does. A closing bracket of its own ends a phrase in
front of every rest, and fewer tokens go on with a name than with a type. An element is always
followed by a comma or a closing parenthesis, as a colon would make a name of its type a label. -/
def Phrase.Follows (rest rest' : List Lexeme) : Phrase → Prop
  | .element _ => ∃ x tail tail', (x.token = .mark .comma ∨ x.token = .mark .closeParen) ∧
      rest = x :: tail ∧ rest' = x :: tail'
  | .bracketed _ | .types _ | .list _ | .elements _ => True
  | .nominal .. | .arguments _ => Alike endsName rest rest'
  | _ => Alike isClosing rest rest'

theorem Reads.joined_front {front rest : List Lexeme} (h : Reads .joined (front ++ rest) rest)
    (g : List Char) : front ≠ [⟨g, .mark .dot⟩] := by
  rintro rfl
  generalize hinput : [⟨g, .mark .dot⟩] ++ rest = input at h
  cases h with
  | joinedMore => simp at hinput
  | joinedDone => simp at hinput

theorem Reads.effects_front {before after : Effects} {front rest : List Lexeme}
    (h : Reads (.effects before after) (front ++ rest) rest) (g : List Char) :
    front ≠ [⟨g, .mark .dot⟩] := by
  rintro rfl
  generalize hinput : [⟨g, .mark .dot⟩] ++ rest = input at h
  cases h <;> simp at hinput

theorem Reads.ne_nil {p : Phrase} {front rest : List Lexeme} (h : Reads p (front ++ rest) rest)
    (hp : p.least = 1) : front ≠ [] := by
  rintro rfl
  have := h.length_le
  simp [hp] at this

/-- The first lexeme is not left. -/
theorem Reads.suffix_tail {p : Phrase} {x : Lexeme} {input rest : List Lexeme}
    (h : Reads p (x :: input) rest) (hp : p.least = 1) : rest <:+ input := by
  rcases List.suffix_cons_iff.1 h.suffix with rfl | hsuffix
  · have hlength := h.length_le
    rw [hp] at hlength
    omega
  · exact hsuffix

/-- The `&` in front of a row of joined types is taken. -/
theorem Reads.joined_suffix_tail {g : List Char} {input rest : List Lexeme}
    (h : Reads .joined (⟨g, .mark .ampersand⟩ :: input) rest) : rest <:+ input := by
  cases h with
  | joinedMore hs hj => exact hj.suffix.trans hs.suffix
  | joinedDone hne => simp [lookahead_cons] at hne

/-- What a phrase takes is read in front of every rest that ends the phrase too. -/
theorem Reads.exists_local {p : Phrase} {input rest : List Lexeme} (h : Reads p input rest) :
    ∃ front, input = front ++ rest ∧
      ∀ rest', p.Follows rest rest' → Reads p (front ++ rest') rest' := by
  induction h with
  | @constraint t front x _ _ _ hstart hs hj hfront ihs ihj =>
    obtain ⟨m, rfl, hm⟩ := ihj
    obtain ⟨f, rfl, hf⟩ := ihs
    obtain ⟨y, f, rfl⟩ := List.exists_cons_of_ne_nil (hs.ne_nil rfl)
    obtain rfl : front = x :: (y :: f ++ m) :=
      List.append_cancel_right (hfront.symm.trans (by simp))
    refine ⟨x :: (y :: f ++ m), hfront, fun rest' hrest => ?_⟩
    have hinput : x :: (y :: f ++ m) ++ rest' = x :: (y :: f ++ (m ++ rest')) := by simp
    rw [hinput]
    exact .constraint (startsConstraint_cons_cons.trans hstart)
      (hf _ (hrest.append hj.joined_front)) (hm _ hrest) hinput.symm
  | @join t front g _ _ _ hstart hs hj hfront ihs ihj =>
    obtain ⟨m, hm, hjoined⟩ := ihj
    obtain ⟨m, rfl, rfl⟩ := exists_of_append_eq_cons hm.symm hj.joined_suffix_tail
    obtain ⟨f, rfl, hf⟩ := ihs
    obtain rfl : front = f ++ ⟨g, .mark .ampersand⟩ :: m :=
      List.append_cancel_right (hfront.symm.trans (by simp))
    refine ⟨f ++ ⟨g, .mark .ampersand⟩ :: m, hfront, fun rest' hrest => ?_⟩
    rw [List.append_assoc]
    refine .join ?_ (hf _ (alike_cons (by simp))) (hjoined _ hrest) (by simp)
    exact startsConstraint_append (hs.ne_nil rfl) (alike_cons (by simp)) hstart
  | single hstart hs hne ihs =>
    obtain ⟨f, rfl, hf⟩ := ihs
    refine ⟨f, rfl, fun rest' hrest => .single ?_ (hf _ hrest) (hrest.ne rfl hne)⟩
    exact startsConstraint_append (hs.ne_nil rfl) hrest hstart
  | @joinedMore _ g _ _ _ _ hj ihs ihj =>
    obtain ⟨m, rfl, hm⟩ := ihj
    obtain ⟨f, rfl, hf⟩ := ihs
    refine ⟨⟨g, .mark .ampersand⟩ :: (f ++ m), by simp, fun rest' hrest => ?_⟩
    rw [List.cons_append, List.append_assoc]
    exact .joinedMore (hf _ (hrest.append hj.joined_front)) (hm _ hrest)
  | joinedDone hne => exact ⟨[], rfl, fun rest' hrest => .joinedDone (hrest.ne rfl hne)⟩
  | suffixed _ hfront hs ihp =>
    obtain ⟨m, rfl, hdot, hm⟩ := hs.exists_front
    obtain ⟨f, rfl, hf⟩ := ihp
    obtain rfl := List.append_cancel_right hfront
    refine ⟨f ++ m, by simp, fun rest' hrest => ?_⟩
    rw [List.append_assoc]
    exact .suffixed (hf _ (hrest.append hdot)) rfl (hm _ hrest)
  | @parenthesized _ g _ _ _ ih =>
    obtain ⟨f, rfl, hf⟩ := ih
    exact ⟨⟨g, .mark .openParen⟩ :: f, rfl, fun rest' hrest => .parenthesized (hf _ hrest)⟩
  | @bracketed _ g _ _ _ ih =>
    obtain ⟨f, rfl, hf⟩ := ih
    exact ⟨⟨g, .mark .openBracket⟩ :: f, rfl, fun rest' _ => .bracketed (hf _ trivial)⟩
  | @nominal _ g w _ _ _ ih =>
    obtain ⟨f, rfl, hf⟩ := ih
    refine ⟨⟨g, .word w⟩ :: f, rfl, fun rest' hrest => .nominal (hf _ ?_)⟩
    exact hrest.mono fun _ => endsName_of_isClosing
  | @dictionary _ _ g g' _ _ _ _ _ ihk ihv =>
    obtain ⟨v, rfl, hv⟩ := ihv
    obtain ⟨k, rfl, hk⟩ := ihk
    refine ⟨k ++ ⟨g, .mark .colon⟩ :: (v ++ [⟨g', .mark .closeBracket⟩]), by simp,
      fun rest' _ => ?_⟩
    simpa using Reads.dictionary (hk _ (alike_cons (by simp)))
      (hv (⟨g', .mark .closeBracket⟩ :: rest') (alike_cons (by simp)))
  | @array _ g _ _ _ ih =>
    obtain ⟨f, rfl, hf⟩ := ih
    refine ⟨f ++ [⟨g, .mark .closeBracket⟩], by simp, fun rest' _ => ?_⟩
    simpa using Reads.array (hf (⟨g, .mark .closeBracket⟩ :: rest') (alike_cons (by simp)))
  | @member _ _ _ g g' w _ _ _ _ hw _ iha ihn =>
    obtain ⟨n, rfl, hn⟩ := ihn
    obtain ⟨a, rfl, ha⟩ := iha
    refine ⟨a ++ ⟨g, .mark .dot⟩ :: ⟨g', .word w⟩ :: n, by simp, fun rest' hrest => ?_⟩
    simpa using Reads.member (ha _ alike_cons_cons) hw (hn _ hrest)
  | nominalDone _ hmember iha =>
    obtain ⟨a, rfl, ha⟩ := iha
    exact ⟨a, rfl, fun rest' hrest => .nominalDone (ha _ hrest) (hrest.isMember hmember)⟩
  | @arguments _ g _ _ _ ih =>
    obtain ⟨f, rfl, hf⟩ := ih
    exact ⟨⟨g, .mark .less⟩ :: f, rfl, fun rest' _ => .arguments (hf _ trivial)⟩
  | argumentsNone hne => exact ⟨[], rfl, fun rest' hrest => .argumentsNone (hrest.ne rfl hne)⟩
  | @typesMore _ _ g _ _ _ _ _ iht ihts =>
    obtain ⟨m, rfl, hm⟩ := ihts
    obtain ⟨f, rfl, hf⟩ := iht
    refine ⟨f ++ ⟨g, .mark .comma⟩ :: m, by simp, fun rest' hrest => ?_⟩
    simpa using Reads.typesMore (hf _ (alike_cons (by simp))) (hm _ hrest)
  | @typesLast _ g _ _ _ ih =>
    obtain ⟨f, rfl, hf⟩ := ih
    refine ⟨f ++ [⟨g, .mark .greater⟩], by simp, fun rest' _ => ?_⟩
    simpa using Reads.typesLast (hf (⟨g, .mark .greater⟩ :: rest') (alike_cons (by simp)))
  | @function _ _ _ g _ _ _ _ _ _ _ ihl ihe iht =>
    obtain ⟨r, rfl, hr⟩ := iht
    obtain ⟨e, rfl, he⟩ := ihe
    obtain ⟨f, rfl, hf⟩ := ihl
    refine ⟨f ++ (e ++ ⟨g, .arrow⟩ :: r), by simp, fun rest' hrest => ?_⟩
    simpa using Reads.function (hf _ trivial) (he _ (alike_cons (by simp))) (hr _ hrest)
  | tuple _ heffect harrow ih =>
    obtain ⟨f, rfl, hf⟩ := ih
    exact ⟨f, rfl, fun rest' hrest =>
      .tuple (hf _ trivial) (hrest.isEffect heffect) (hrest.ne rfl harrow)⟩
  | @listNil g _ => exact ⟨[⟨g, .mark .closeParen⟩], rfl, fun rest' _ => .listNil⟩
  | list hclose hes ih =>
    obtain ⟨f, rfl, hf⟩ := ih
    obtain ⟨x, f, rfl⟩ := List.exists_cons_of_ne_nil (hes.ne_nil rfl)
    refine ⟨x :: f, rfl, fun rest' hrest => .list (fun hlook => hclose ?_) (hf _ hrest)⟩
    obtain ⟨g, tail, htail⟩ := (lookahead_eq_singleton (by simp)).1 hlook
    obtain ⟨rfl, -⟩ := List.cons.inj htail
    exact lookahead_cons (by simp)
  | @elementsMore _ _ g _ _ _ _ _ ihe ihes =>
    obtain ⟨m, rfl, hm⟩ := ihes
    obtain ⟨f, rfl, hf⟩ := ihe
    refine ⟨f ++ ⟨g, .mark .comma⟩ :: m, by simp, fun rest' hrest => ?_⟩
    simpa using Reads.elementsMore (hf _ ⟨_, _, _, .inl rfl, rfl, rfl⟩) (hm _ hrest)
  | @elementsLast _ g _ _ _ ih =>
    obtain ⟨f, rfl, hf⟩ := ih
    refine ⟨f ++ [⟨g, .mark .closeParen⟩], by simp, fun rest' _ => ?_⟩
    have he := hf (⟨g, .mark .closeParen⟩ :: rest') ⟨_, _, _, .inr rfl, rfl, rfl⟩
    simpa using Reads.elementsLast he
  | @variadic _ _ g _ _ _ _ _ ha hl hc ht ih =>
    obtain ⟨f, rfl, hf⟩ := ih
    obtain ⟨u, rfl, hu⟩ := element_append ha hl hc (ht.ne_nil rfl) (by simp) (by simp)
    refine ⟨u ++ (f ++ [⟨g, .ellipsis⟩]), by simp, fun rest' _ => ?_⟩
    obtain ⟨a', b', ha', hl', hc'⟩ := hu rest'
    simpa using Reads.variadic ha' hl' hc' (hf _ (alike_cons (by simp)))
  | element ha hl hc ht hdots ih =>
    obtain ⟨f, rfl, hf⟩ := ih
    obtain ⟨u, rfl⟩ := (element_suffix ha hl hc).2
    refine ⟨u ++ f, by simp, ?_⟩
    rintro _ ⟨x, tail, tail', hx, rfl, rfl⟩
    have hword (w : List Char) : x.token ≠ .word w := by rcases hx with hx | hx <;> simp [hx]
    have hcolon : x.token ≠ .mark .colon := by rcases hx with hx | hx <;> simp [hx]
    have hdot : x.token ≠ .mark .dot := by rcases hx with hx | hx <;> simp [hx]
    obtain ⟨u', hu', hread⟩ := element_append ha hl hc (ht.ne_nil rfl) hword hcolon
    obtain rfl := List.append_cancel_right hu'
    obtain ⟨a', b', ha', hl', hc'⟩ := hread tail'
    have hnext : Alike isClosing (x :: tail) (x :: tail') := alike_cons hdot
    rw [List.append_assoc]
    exact .element ha' hl' hc' (hf _ hnext) (hnext.ne rfl hdots)
  | @async _ _ g _ _ _ ih =>
    obtain ⟨f, rfl, hf⟩ := ih
    exact ⟨⟨g, _⟩ :: f, rfl, fun rest' hrest => .async (hf _ hrest)⟩
  | @rethrows _ _ g _ _ _ ih =>
    obtain ⟨f, rfl, hf⟩ := ih
    exact ⟨⟨g, _⟩ :: f, rfl, fun rest' hrest => .rethrows (hf _ hrest)⟩
  | @throws _ _ g _ _ hparen h ih =>
    obtain ⟨f, rfl, hf⟩ := ih
    refine ⟨⟨g, _⟩ :: f, rfl, fun rest' hrest => .throws ?_ (hf _ hrest)⟩
    exact (hrest.append h.effects_front).ne rfl hparen
  | @throwsType _ _ _ g g' g'' _ _ _ _ _ iht ih =>
    obtain ⟨m, rfl, hm⟩ := ih
    obtain ⟨f, rfl, hf⟩ := iht
    refine ⟨⟨g, .word ['t', 'h', 'r', 'o', 'w', 's']⟩ :: ⟨g', .mark .openParen⟩ ::
      (f ++ ⟨g'', .mark .closeParen⟩ :: m), by simp, fun rest' hrest => ?_⟩
    simpa using Reads.throwsType (hf _ (alike_cons (by simp))) (hm _ hrest)
  | effectsDone heffect =>
    exact ⟨[], rfl, fun rest' hrest => .effectsDone (hrest.isEffect heffect)⟩

/-- A phrase is read in front of another rest that ends it too. -/
theorem Reads.local {p : Phrase} {input rest : List Lexeme} (h : Reads p input rest)
    {front rest' : List Lexeme} (hinput : input = front ++ rest) (hrest : p.Follows rest rest') :
    Reads p (front ++ rest') rest' := by
  obtain ⟨f, hf, hread⟩ := h.exists_local
  obtain rfl := List.append_cancel_right (hinput.symm.trans hf)
  exact hread rest' hrest

/-! ### The gap in front -/

theorem Reads.primary_regap {t : TypeExpr} {x : Lexeme} {input rest : List Lexeme}
    (h : Reads (.primary t) (x :: input) rest) (gap : List Char) :
    Reads (.primary t) (⟨gap, x.token⟩ :: input) rest := by
  cases h with
  | parenthesized h => exact .parenthesized h
  | bracketed h => exact .bracketed h
  | nominal h => exact .nominal h

theorem Reads.suffixed_regap {t : TypeExpr} {x : Lexeme} {input rest : List Lexeme}
    (h : Reads (.suffixed t) (x :: input) rest) (gap : List Char) :
    Reads (.suffixed t) (⟨gap, x.token⟩ :: input) rest := by
  cases h with
  | @suffixed bare _ _ _ mid _ hp hfront hs =>
    obtain ⟨front, rfl, rfl⟩ := exists_of_append_eq_cons hfront.symm (hp.suffix_tail rfl)
    have hs' : Suffixes (textOf (⟨gap, x.token⟩ :: front)) bare t mid rest := hs
    exact .suffixed (hp.primary_regap gap) rfl hs'

theorem Reads.type_regap {t : TypeExpr} {x : Lexeme} {input rest : List Lexeme}
    (h : Reads (.type t) (x :: input) rest) (gap : List Char) :
    Reads (.type t) (⟨gap, x.token⟩ :: input) rest := by
  have hstart : startsConstraint (⟨gap, x.token⟩ :: input) = startsConstraint (x :: input) := by
    obtain ⟨g, token⟩ := x
    rcases token with _ | _ | w | w | m <;> cases input <;> rfl
  have htext (front : List Lexeme) :
      textOf (x :: front) = textOf (⟨gap, x.token⟩ :: front) := rfl
  have htail := h.suffix_tail rfl
  cases h with
  | constraint hx hs hj hfront =>
    obtain ⟨front, rfl, rfl⟩ := exists_of_append_eq_cons hfront.symm htail
    rw [htext]
    exact .constraint (hstart.trans hx) hs hj rfl
  | join hx hs hj hfront =>
    obtain ⟨front, rfl, rfl⟩ := exists_of_append_eq_cons hfront.symm htail
    rw [htext]
    exact .join (hstart.trans hx) (hs.suffixed_regap gap) hj rfl
  | single hx hs hne => exact .single (hstart.trans hx) (hs.suffixed_regap gap) hne

end FluentBuilder.TypeExpr
