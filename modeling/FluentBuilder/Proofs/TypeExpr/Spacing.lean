import FluentBuilder.Proofs.TypeExpr.Acceptance

/-!
# Blanks between tokens do not count

The reader keeps what stands between tokens only where it keeps the text of a type: behind `any` and
`some`, in a row joined by `&`, and in front of a metatype suffix. Besides, the parenthesis of the
arguments of an attribute has to follow it directly. Tokens that call for none of this (`IsShaped`)
are read as the same type whatever blanks stand between them: `ofString_respaced`.

The core of it is `Reads.respaced`. A phrase that is read from lexemes is read from others with the
same tokens, and what the one reading leaves has the same tokens as what the other leaves. Each rule
of the reader has its case; the tests that end a repetition look at tokens only (`lookahead_eq`).
-/

namespace FluentBuilder.TypeExpr

open Text Lexeme

/-! ### Tokens in other places -/

/-- The lexemes have the same tokens. -/
def Respaced (l l' : List Lexeme) : Prop := l.map (·.token) = l'.map (·.token)

/-- Nothing in the tokens makes a reader keep a text or look at a gap. -/
structure IsShaped (tokens : List Token) : Prop where
  not_constraint : ∀ w, .word w ∈ tokens → isConstraintWord w = false
  not_joined : .mark .ampersand ∉ tokens
  not_attribute : ∀ text, .attribute text ∉ tokens
  not_metatype : ∀ w, [.mark .dot, .word w] <:+: tokens → isMetatypeSuffix w = false

section

variable {g : List Char} {token : Token} {l l' input input' rest : List Lexeme}

theorem Respaced.symm (h : Respaced l l') : Respaced l' l := Eq.symm h

theorem Respaced.cons (h : Respaced (⟨g, token⟩ :: l) l') :
    ∃ g' rest', l' = ⟨g', token⟩ :: rest' ∧ Respaced l rest' := by
  obtain ⟨g', rest', rfl, hrest⟩ := exists_cons_of_map_eq h.symm
  exact ⟨g', rest', rfl, hrest.symm⟩

theorem lookahead_eq (h : Respaced l l') : lookahead l = lookahead l' := by
  rcases l with _ | ⟨⟨g, token⟩, _ | ⟨⟨h, next⟩, l⟩⟩
  · rw [List.map_eq_nil_iff.mp h.symm]
  · obtain ⟨g', rest', rfl, hrest⟩ := h.cons
    rw [List.map_eq_nil_iff.mp hrest.symm]
    rfl
  · obtain ⟨g', rest', rfl, hrest⟩ := h.cons
    obtain ⟨h', rest', rfl, -⟩ := hrest.cons
    rfl

theorem IsShaped.of_suffix (h : IsShaped (l.map (·.token))) (hsuffix : l' <:+ l) :
    IsShaped (l'.map (·.token)) where
  not_constraint w hw := h.not_constraint w ((hsuffix.map _).subset hw)
  not_joined hmem := h.not_joined ((hsuffix.map _).subset hmem)
  not_attribute text hmem := h.not_attribute text ((hsuffix.map _).subset hmem)
  not_metatype w hw := h.not_metatype w (hw.trans (hsuffix.map _).isInfix)

theorem IsShaped.tail {x : Lexeme} (h : IsShaped ((x :: l).map (·.token))) :
    IsShaped (l.map (·.token)) :=
  h.of_suffix (List.suffix_cons x l)

theorem IsShaped.startsConstraint (h : IsShaped (l.map (·.token))) :
    startsConstraint l = false := by
  rcases l with _ | ⟨x, l⟩
  · rfl
  · by_contra hstart
    obtain ⟨w, hx, hw, -⟩ := startsConstraint_cons.1 (Bool.eq_true_of_not_eq_false hstart)
    have hnot := h.not_constraint w (by rw [← hx]; exact List.mem_map_of_mem List.mem_cons_self)
    rw [hw] at hnot
    cases hnot

/-! ### Suffixes, attributes and labels -/

theorem Suffixes.respaced {text : List Char} {bare t : TypeExpr}
    (h : Suffixes text bare t input rest) (hshaped : IsShaped (input.map (·.token)))
    (hsame : Respaced input input') (text' : List Char) :
    ∃ rest', Respaced rest rest' ∧ Suffixes text' bare t input' rest' := by
  induction h generalizing input' text' with
  | question _ ih =>
    obtain ⟨g', tail', rfl, htail⟩ := hsame.cons
    obtain ⟨rest', hrest, h⟩ := ih hshaped.tail htail (text' ++ chars ⟨g', .mark .question⟩)
    exact ⟨rest', hrest, .question h⟩
  | exclamation _ ih =>
    obtain ⟨g', tail', rfl, htail⟩ := hsame.cons
    obtain ⟨rest', hrest, h⟩ := ih hshaped.tail htail (text' ++ chars ⟨g', .mark .exclamation⟩)
    exact ⟨rest', hrest, .exclamation h⟩
  | metatype hw =>
    have hnot := hshaped.not_metatype _ (List.prefix_append [_, _] _).isInfix
    rw [hw] at hnot
    cases hnot
  | done hrest => exact ⟨input', hsame, .done (by rwa [← lookahead_eq hsame])⟩

theorem skipAttributes_respaced (h : skipAttributes 0 input = .ok rest)
    (hshaped : IsShaped (input.map (·.token))) (hsame : Respaced input input') :
    ∃ rest', Respaced rest rest' ∧ skipAttributes 0 input' = .ok rest' := by
  induction input generalizing input' with
  | nil =>
    obtain rfl := Except.ok.inj h
    obtain rfl := List.map_eq_nil_iff.mp hsame.symm
    exact ⟨[], rfl, rfl⟩
  | cons x input ih =>
    obtain ⟨g, token⟩ := x
    obtain ⟨g', tail', rfl, htail⟩ := hsame.cons
    rcases token with _ | _ | text | w | m
    · obtain rfl := Except.ok.inj h
      exact ⟨_, hsame, rfl⟩
    · obtain rfl := Except.ok.inj h
      exact ⟨_, hsame, rfl⟩
    · exact absurd List.mem_cons_self (hshaped.not_attribute text)
    · by_cases hw : w = ['i', 'n', 'o', 'u', 't']
      · subst hw
        simp only [skipAttributes, if_true] at h ⊢
        exact ih h hshaped.tail htail
      · simp only [skipAttributes, hw, if_false, Except.ok.injEq] at h ⊢
        subst h
        exact ⟨_, hsame, rfl⟩
    · obtain rfl := Except.ok.inj h
      exact ⟨_, hsame, rfl⟩

theorem readLabel_respaced {label : Option String} (h : readLabel input = (label, rest))
    (hsame : Respaced input input') :
    ∃ rest', Respaced rest rest' ∧ readLabel input' = (label, rest') := by
  revert h
  fun_cases readLabel input with
  | case1 =>
    intro h
    obtain ⟨rfl, rfl⟩ := Prod.mk.inj h
    obtain ⟨g₁, tail₁, rfl, h₁⟩ := hsame.cons
    obtain ⟨g₂, tail₂, rfl, h₂⟩ := h₁.cons
    exact ⟨tail₂, h₂, rfl⟩
  | case2 =>
    intro h
    obtain ⟨rfl, rfl⟩ := Prod.mk.inj h
    obtain ⟨g₁, tail₁, rfl, h₁⟩ := hsame.cons
    obtain ⟨g₂, tail₂, rfl, h₂⟩ := h₁.cons
    obtain ⟨g₃, tail₃, rfl, h₃⟩ := h₂.cons
    exact ⟨tail₃, h₃, rfl⟩
  | case3 _ hone htwo =>
    intro h
    obtain ⟨rfl, rfl⟩ := Prod.mk.inj h
    refine ⟨input', hsame, readLabel_eq_none ?_ ?_⟩
    · rintro g g' w rest' rfl
      obtain ⟨g₁, tail₁, rfl, h₁⟩ := hsame.symm.cons
      obtain ⟨g₂, tail₂, rfl, -⟩ := h₁.cons
      exact hone _ _ _ _ rfl
    · rintro g g' g'' w w' rest' rfl
      obtain ⟨g₁, tail₁, rfl, h₁⟩ := hsame.symm.cons
      obtain ⟨g₂, tail₂, rfl, h₂⟩ := h₁.cons
      obtain ⟨g₃, tail₃, rfl, -⟩ := h₂.cons
      exact htwo _ _ _ _ _ _ rfl

theorem element_respaced {a b c : List Lexeme} {label : Option String}
    (ha : skipAttributes 0 input = .ok a) (hl : readLabel a = (label, b))
    (hc : skipAttributes 0 b = .ok c) (hshaped : IsShaped (input.map (·.token)))
    (hsame : Respaced input input') :
    ∃ a' b' c', Respaced c c' ∧ skipAttributes 0 input' = .ok a' ∧ readLabel a' = (label, b') ∧
      skipAttributes 0 b' = .ok c' := by
  obtain ⟨a', haa, ha'⟩ := skipAttributes_respaced ha hshaped hsame
  obtain ⟨b', hbb, hl'⟩ := readLabel_respaced hl haa
  have hshaped' := hshaped.of_suffix (element_suffix ha hl hc).1
  obtain ⟨c', hcc, hc'⟩ := skipAttributes_respaced hc hshaped' hbb
  exact ⟨a', b', c', hcc, ha', hl', hc'⟩

/-! ### Phrases -/

/-- **A phrase is read from the same tokens behind other blanks**, and what is left has the same
tokens too. -/
theorem Reads.respaced {p : Phrase} (h : Reads p input rest)
    (hshaped : IsShaped (input.map (·.token))) (hsame : Respaced input input') :
    ∃ rest', Respaced rest rest' ∧ Reads p input' rest' := by
  induction h generalizing input' with
  | constraint hstart =>
    rw [hshaped.startsConstraint] at hstart
    cases hstart
  | join _ hs =>
    have hmem := List.mem_map_of_mem (f := (·.token)) (hs.suffix.subset List.mem_cons_self)
    exact absurd hmem hshaped.not_joined
  | single _ _ hne ih =>
    obtain ⟨rest', hrest, hs⟩ := ih hshaped hsame
    have hstart : startsConstraint input' = false := IsShaped.startsConstraint (hsame ▸ hshaped)
    exact ⟨rest', hrest, .single hstart hs (by rwa [← lookahead_eq hrest])⟩
  | joinedMore => exact absurd List.mem_cons_self hshaped.not_joined
  | joinedDone hne => exact ⟨input', hsame, .joinedDone (by rwa [← lookahead_eq hsame])⟩
  | suffixed hp hfront hs ih =>
    obtain ⟨mid', hmid, hp'⟩ := ih hshaped hsame
    obtain ⟨front', rfl, -⟩ := hp'.exists_front
    obtain ⟨rest', hrest, hs'⟩ := hs.respaced (hshaped.of_suffix hp.suffix) hmid (textOf front')
    exact ⟨rest', hrest, .suffixed hp' rfl hs'⟩
  | parenthesized _ ih =>
    obtain ⟨g', tail', rfl, htail⟩ := hsame.cons
    obtain ⟨rest', hrest, h⟩ := ih hshaped.tail htail
    exact ⟨rest', hrest, .parenthesized h⟩
  | bracketed _ ih =>
    obtain ⟨g', tail', rfl, htail⟩ := hsame.cons
    obtain ⟨rest', hrest, h⟩ := ih hshaped.tail htail
    exact ⟨rest', hrest, .bracketed h⟩
  | nominal _ ih =>
    obtain ⟨g', tail', rfl, htail⟩ := hsame.cons
    obtain ⟨rest', hrest, h⟩ := ih hshaped.tail htail
    exact ⟨rest', hrest, .nominal h⟩
  | dictionary hk hv ihk ihv =>
    obtain ⟨mid', hmid, hk'⟩ := ihk hshaped hsame
    obtain ⟨g₁, value', rfl, hvalue⟩ := hmid.cons
    obtain ⟨mid', hmid', hv'⟩ := ihv (hshaped.of_suffix hk.suffix).tail hvalue
    obtain ⟨g₂, rest', rfl, hrest⟩ := hmid'.cons
    exact ⟨rest', hrest, .dictionary hk' hv'⟩
  | array _ ih =>
    obtain ⟨mid', hmid, h⟩ := ih hshaped hsame
    obtain ⟨g', rest', rfl, hrest⟩ := hmid.cons
    exact ⟨rest', hrest, .array h⟩
  | member ha hw _ iha ihn =>
    obtain ⟨mid', hmid, ha'⟩ := iha hshaped hsame
    obtain ⟨g₁, tail', rfl, htail⟩ := hmid.cons
    obtain ⟨g₂, name', rfl, hname⟩ := htail.cons
    obtain ⟨rest', hrest, hn'⟩ := ihn (hshaped.of_suffix ha.suffix).tail.tail hname
    exact ⟨rest', hrest, .member ha' hw hn'⟩
  | nominalDone _ hmember ih =>
    obtain ⟨rest', hrest, h⟩ := ih hshaped hsame
    exact ⟨rest', hrest, .nominalDone h (by rwa [← lookahead_eq hrest])⟩
  | arguments _ ih =>
    obtain ⟨g', tail', rfl, htail⟩ := hsame.cons
    obtain ⟨rest', hrest, h⟩ := ih hshaped.tail htail
    exact ⟨rest', hrest, .arguments h⟩
  | argumentsNone hne => exact ⟨input', hsame, .argumentsNone (by rwa [← lookahead_eq hsame])⟩
  | typesMore ht _ iht ihts =>
    obtain ⟨mid', hmid, ht'⟩ := iht hshaped hsame
    obtain ⟨g', more', rfl, hmore⟩ := hmid.cons
    obtain ⟨rest', hrest, hts'⟩ := ihts (hshaped.of_suffix ht.suffix).tail hmore
    exact ⟨rest', hrest, .typesMore ht' hts'⟩
  | typesLast _ ih =>
    obtain ⟨mid', hmid, h⟩ := ih hshaped hsame
    obtain ⟨g', rest', rfl, hrest⟩ := hmid.cons
    exact ⟨rest', hrest, .typesLast h⟩
  | function hl he _ ihl ihe iht =>
    obtain ⟨mid', hmid, hl'⟩ := ihl hshaped hsame
    obtain ⟨arrow', harrow, he'⟩ := ihe (hshaped.of_suffix hl.suffix) hmid
    obtain ⟨g', result', rfl, hresult⟩ := harrow.cons
    have hshaped' := ((hshaped.of_suffix hl.suffix).of_suffix he.suffix).tail
    obtain ⟨rest', hrest, ht'⟩ := iht hshaped' hresult
    exact ⟨rest', hrest, .function hl' he' ht'⟩
  | tuple _ heffect harrow ih =>
    obtain ⟨rest', hrest, h⟩ := ih hshaped hsame
    rw [lookahead_eq hrest] at heffect harrow
    exact ⟨rest', hrest, .tuple h heffect harrow⟩
  | listNil =>
    obtain ⟨g', tail', rfl, htail⟩ := hsame.cons
    exact ⟨tail', htail, .listNil⟩
  | list hclose _ ih =>
    obtain ⟨rest', hrest, h⟩ := ih hshaped hsame
    rw [lookahead_eq hsame] at hclose
    exact ⟨rest', hrest, .list hclose h⟩
  | elementsMore he _ ihe ihes =>
    obtain ⟨mid', hmid, he'⟩ := ihe hshaped hsame
    obtain ⟨g', more', rfl, hmore⟩ := hmid.cons
    obtain ⟨rest', hrest, hes'⟩ := ihes (hshaped.of_suffix he.suffix).tail hmore
    exact ⟨rest', hrest, .elementsMore he' hes'⟩
  | elementsLast _ ih =>
    obtain ⟨mid', hmid, h⟩ := ih hshaped hsame
    obtain ⟨g', rest', rfl, hrest⟩ := hmid.cons
    exact ⟨rest', hrest, .elementsLast h⟩
  | variadic ha hl hc _ ih =>
    obtain ⟨a', b', c', hcc, ha', hl', hc'⟩ := element_respaced ha hl hc hshaped hsame
    obtain ⟨mid', hmid, h⟩ := ih (hshaped.of_suffix (element_suffix ha hl hc).2) hcc
    obtain ⟨g', rest', rfl, hrest⟩ := hmid.cons
    exact ⟨rest', hrest, .variadic ha' hl' hc' h⟩
  | element ha hl hc _ hdots ih =>
    obtain ⟨a', b', c', hcc, ha', hl', hc'⟩ := element_respaced ha hl hc hshaped hsame
    obtain ⟨rest', hrest, h⟩ := ih (hshaped.of_suffix (element_suffix ha hl hc).2) hcc
    rw [lookahead_eq hrest] at hdots
    exact ⟨rest', hrest, .element ha' hl' hc' h hdots⟩
  | async _ ih =>
    obtain ⟨g', tail', rfl, htail⟩ := hsame.cons
    obtain ⟨rest', hrest, h⟩ := ih hshaped.tail htail
    exact ⟨rest', hrest, .async h⟩
  | rethrows _ ih =>
    obtain ⟨g', tail', rfl, htail⟩ := hsame.cons
    obtain ⟨rest', hrest, h⟩ := ih hshaped.tail htail
    exact ⟨rest', hrest, .rethrows h⟩
  | throws hparen _ ih =>
    obtain ⟨g', tail', rfl, htail⟩ := hsame.cons
    obtain ⟨rest', hrest, h⟩ := ih hshaped.tail htail
    rw [lookahead_eq htail] at hparen
    exact ⟨rest', hrest, .throws hparen h⟩
  | throwsType ht _ iht ih =>
    obtain ⟨g₁, tail', rfl, htail⟩ := hsame.cons
    obtain ⟨g₂, thrown', rfl, hthrown⟩ := htail.cons
    obtain ⟨mid', hmid, ht'⟩ := iht hshaped.tail.tail hthrown
    obtain ⟨g₃, more', rfl, hmore⟩ := hmid.cons
    obtain ⟨rest', hrest, h⟩ := ih (hshaped.tail.tail.of_suffix ht.suffix).tail hmore
    exact ⟨rest', hrest, .throwsType ht' h⟩
  | effectsDone heffect =>
    rw [lookahead_eq hsame] at heffect
    exact ⟨input', hsame, .effectsDone heffect⟩

/-- The same tokens are read as the same type, or as none. -/
theorem Reads.type_respaced {t : TypeExpr} (h : Reads (.type t) input [])
    (hshaped : IsShaped (input.map (·.token))) (hsame : Respaced input input') :
    Reads (.type t) input' [] := by
  obtain ⟨rest', hrest, h'⟩ := h.respaced hshaped hsame
  rwa [List.map_eq_nil_iff.mp hrest.symm] at h'

end

/-! ### Whole texts -/

def tokenValues (text : String) : Option (List (List Char)) :=
  (Lexeme.ofChars text.toList).toOption.map fun input => input.map (·.token.chars)

/-- The words that make a metatype of what stands in front of their dot. -/
def metatypeWords : List (List Char) :=
  [['T', 'y', 'p', 'e'], ['P', 'r', 'o', 't', 'o', 'c', 'o', 'l']]

theorem mem_metatypeWords {w : List Char} (h : isMetatypeSuffix w = true) : w ∈ metatypeWords := by
  simpa [isMetatypeSuffix, metatypeWords] using h

/-- No value calls for keeping a text: there is no `any` or `some`, no `&`, no attribute, and no
metatype suffix behind a dot. -/
structure IsPlainRow (values : List (List Char)) : Prop where
  not_constraint : ∀ value ∈ values, isConstraintWord value = false
  not_joined : ['&'] ∉ values
  not_attribute : ∀ value ∈ values, value.head? ≠ some '@'
  not_metatype : ∀ w ∈ metatypeWords, ¬[['.'], w] <:+: values

/-- A token is known by its value. -/
theorem Token.Valid.eq_of_chars {a b : Token} (ha : a.Valid) (hb : b.Valid)
    (haends : a.Ends []) (hbends : b.Ends []) (h : a.chars = b.chars) : a = b := by
  have hfirst : Token.first? a.chars = some (a, []) :=
    first?_eq_some_iff.2 ⟨(List.append_nil _).symm, ha, haends⟩
  have hsecond : Token.first? b.chars = some (b, []) :=
    first?_eq_some_iff.2 ⟨(List.append_nil _).symm, hb, hbends⟩
  rw [h, hsecond] at hfirst
  exact (Prod.mk.inj (Option.some.inj hfirst)).1.symm

/-- Lexemes that stand in texts have the same tokens if they have the same values. -/
theorem respaced_of_values {l l' : List Lexeme} {after after' : List Char} (h : Stands l after)
    (h' : Stands l' after') (hvalues : l.map (·.token.chars) = l'.map (·.token.chars)) :
    Respaced l l' := by
  induction l generalizing l' with
  | nil => rw [List.map_eq_nil_iff.mp hvalues.symm]; rfl
  | cons x l ih =>
    obtain ⟨x', rest', rfl, hx, hrest⟩ := List.map_eq_cons_iff.1 hvalues.symm
    obtain ⟨-, hvalid, hends, hl⟩ := h
    obtain ⟨-, hvalid', hends', hl'⟩ := h'
    have htoken : x.token = x'.token :=
      hvalid.eq_of_chars hvalid' (hends.truncate List.nil_prefix) (hends'.truncate List.nil_prefix)
        hx.symm
    have htail : Respaced l rest' := ih hl hl' hrest.symm
    rw [Respaced, List.map_cons, List.map_cons, htoken, htail]

theorem IsPlainRow.isShaped {l : List Lexeme} {after : List Char} (h : Stands l after)
    (hplain : IsPlainRow (l.map (·.token.chars))) : IsShaped (l.map (·.token)) where
  not_constraint w hw := by
    refine hplain.not_constraint w ?_
    obtain ⟨x, hx, hxw⟩ := List.mem_map.mp hw
    exact List.mem_map.mpr ⟨x, hx, by rw [hxw]; rfl⟩
  not_joined hmem := by
    obtain ⟨x, hx, hxm⟩ := List.mem_map.mp hmem
    exact hplain.not_joined (List.mem_map.mpr ⟨x, hx, by rw [hxm]; rfl⟩)
  not_attribute text hmem := by
    obtain ⟨x, hx, hxa⟩ := List.mem_map.mp hmem
    obtain ⟨a, b, rfl⟩ := List.append_of_mem hx
    have hvalid : x.token.Valid := (stands_append.1 h).2.2.1
    rw [hxa] at hvalid
    obtain ⟨w, rfl, -⟩ := hvalid
    exact hplain.not_attribute _ (List.mem_map_of_mem hx) (by rw [hxa]; rfl)
  not_metatype w hw := by
    by_contra hsuffix
    have hmap := hw.map Token.chars
    rw [List.map_map] at hmap
    have hword := mem_metatypeWords (Bool.eq_true_of_not_eq_false hsuffix)
    exact hplain.not_metatype w hword hmap

theorem exists_of_tokenValues {text : String} {values : List (List Char)}
    (h : tokenValues text = some values) :
    ∃ input, Lexeme.ofChars text.toList = .ok input ∧ input.map (·.token.chars) = values := by
  obtain ⟨input, hinput, hvalues⟩ := Option.map_eq_some_iff.1 h
  refine ⟨input, ?_, hvalues⟩
  cases hlex : Lexeme.ofChars text.toList with
  | error bad => simp [hlex, Except.toOption] at hinput
  | ok found => simpa [hlex, Except.toOption] using hinput

theorem exists_fault_of_error {text : String} {error : SyntaxError}
    (h : ofString text = .error error) : ∃ fault, error = ⟨text, fault⟩ := by
  obtain ⟨_, fault⟩ := error
  obtain rfl := ofString_eq_error h
  exact ⟨fault, rfl⟩

/-- **Blanks between tokens do not count.** Two texts with the same tokens, none of which calls for
keeping a text, are read as the same type, or there is an error about each of them. -/
theorem ofString_respaced {text text' : String} {values : List (List Char)}
    (h : tokenValues text = some values) (h' : tokenValues text' = some values)
    (hplain : IsPlainRow values) :
    (∃ t, ofString text = .ok t ∧ ofString text' = .ok t) ∨
      ∃ fault fault', ofString text = .error ⟨text, fault⟩ ∧
        ofString text' = .error ⟨text', fault'⟩ := by
  obtain ⟨input, hinput, rfl⟩ := exists_of_tokenValues h
  obtain ⟨input', hinput', hvalues⟩ := exists_of_tokenValues h'
  obtain ⟨tail, -, -, hstands⟩ := ofChars_eq_ok_iff.1 hinput
  obtain ⟨tail', -, -, hstands'⟩ := ofChars_eq_ok_iff.1 hinput'
  have hsame : Respaced input input' := respaced_of_values hstands hstands' hvalues.symm
  have hshaped : IsShaped (input.map (·.token)) := hplain.isShaped hstands
  have hiff (t : TypeExpr) : ofString text = .ok t ↔ ofString text' = .ok t := by
    rw [ofString_eq_ok_iff, ofString_eq_ok_iff, hinput, hinput']
    simp only [Except.ok.injEq, exists_eq_left']
    exact ⟨fun h => h.type_respaced hshaped hsame,
      fun h => h.type_respaced (hsame ▸ hshaped) hsame.symm⟩
  cases hread : ofString text with
  | ok t => exact .inl ⟨t, rfl, (hiff t).mp hread⟩
  | error error =>
    obtain ⟨fault, rfl⟩ := exists_fault_of_error hread
    cases hread' : ofString text' with
    | ok t =>
      rw [(hiff t).mpr hread'] at hread
      cases hread
    | error error' =>
      obtain ⟨fault', rfl⟩ := exists_fault_of_error hread'
      exact .inr ⟨fault, fault', rfl, rfl⟩

/-- A function whose tokens touch each other where they can. A name and a label in it are words that
would make a metatype behind a dot. -/
def tightHandler : String := "(_ Type:Int...,A.B<C?>.D)async throws(E)->[Protocol:(inout V)!]"

/-- The same tokens on two lines, with blanks between all of them. -/
def looseHandler : String :=
  " ( _ Type : Int ... , A . B < C ? > . D )\n\tasync throws ( E ) -> [ Protocol : ( inout V ) ! ] "

def handlerValues : List (List Char) :=
  ["(", "_", "Type", ":", "Int", "...", ",", "A", ".", "B", "<", "C", "?", ">", ".", "D", ")",
    "async", "throws", "(", "E", ")", "->", "[", "Protocol", ":", "(", "inout", "V", ")", "!",
    "]"].map String.toList

theorem ofString_respaced_handler :
    tokenValues tightHandler = some handlerValues ∧ tokenValues looseHandler = some handlerValues ∧
      IsPlainRow handlerValues ∧
        ∃ t, ofString tightHandler = .ok t ∧ ofString looseHandler = .ok t := by
  have htight : tokenValues tightHandler = some handlerValues := by decide +kernel
  have hloose : tokenValues looseHandler = some handlerValues := by decide +kernel
  have hplain : IsPlainRow handlerValues :=
    ⟨by decide +kernel, by decide +kernel, by decide +kernel, by decide +kernel⟩
  have hread : (ofString tightHandler).isOk = true := by decide +kernel
  refine ⟨htight, hloose, hplain, ?_⟩
  rcases ofString_respaced htight hloose hplain with hsame | ⟨fault, fault', herror, -⟩
  · exact hsame
  · simp [herror, Except.isOk, Except.toBool] at hread

end FluentBuilder.TypeExpr
