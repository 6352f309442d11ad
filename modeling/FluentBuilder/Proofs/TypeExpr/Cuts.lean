import FluentBuilder.Proofs.Text.Trimming
import FluentBuilder.Proofs.TypeExpr.Lexing

/-!
# Cuts of a text into tokens

A text has lexemes if it can be cut into tokens with blanks around them, and then the spans of its
tokens leave out nothing but blanks (`ofChars_exact`). It does not matter that the lexer takes the
longest token at every place: where a token of a cut goes on behind it, the longer one ends inside
the cut as well, and the rest can still be cut (`CutBy.exists_longest`). A word takes words with it,
up to a backtick (`CutBy.afterWord`), and a dot takes two dots.

There is one exception. The name of an attribute has no backtick at its end, so a word with one must
not be cut from such a name: in `` @ab` `` the name is `ab`, and nothing starts with the backtick
(`attribute_cut_short`).
-/

namespace FluentBuilder.TypeExpr

open Text Lexeme

/-! ### Cuts -/

/-- A text that is tokens, with blanks before, between and behind them, and each followed by a text
as it is asked for. -/
inductive CutBy (ends : Token → List Char → Prop) : List Char → Prop
  | blank {gap : List Char} : (∀ c ∈ gap, isBlank c = true) → CutBy ends gap
  | token {gap rest : List Char} {token : Token} :
    (∀ c ∈ gap, isBlank c = true) → token.Valid → ends token rest → CutBy ends rest →
    CutBy ends (gap ++ (token.chars ++ rest))

/-- A token that is the name of an attribute does not go on behind it. -/
def AttributeEnds : Token → List Char → Prop
  | .attribute _, after => ∀ c ∈ after.head?, isWord c = false
  | _, _ => True

variable {ends : Token → List Char → Prop} {text rest : List Char}

theorem CutBy.mono {ends' : Token → List Char → Prop}
    (hends : ∀ token rest, ends token rest → ends' token rest) (h : CutBy ends text) :
    CutBy ends' text := by
  induction h with
  | blank hgap => exact .blank hgap
  | token hgap hvalid hend _ ih => exact .token hgap hvalid (hends _ _ hend) ih

/-- The cuts into the tokens that the lexer finds. -/
theorem cutBy_ends_iff : CutBy Token.Ends text ↔ ∃ l, ofChars text = .ok l := by
  simp only [ofChars_eq_ok_iff]
  constructor
  · intro h
    induction h with
    | @blank gap hgap => exact ⟨[], gap, hgap, by simp, trivial⟩
    | @token gap rest token hgap hvalid hends _ ih =>
      obtain ⟨l, tail, htail, rfl, hl⟩ := ih
      refine ⟨⟨gap, token⟩ :: l, tail, htail, ?_, hgap, hvalid, hends, hl⟩
      simp [chars]
  · rintro ⟨l, tail, htail, rfl, hl⟩
    induction l with
    | nil => exact .blank (by simpa using htail)
    | cons x l ih =>
      obtain ⟨hgap, hvalid, hends, hl⟩ := hl
      have hcut := CutBy.token hgap hvalid hends (ih hl)
      simpa [chars] using hcut

theorem attributeEnds_of_ends {token : Token} (h : token.Ends rest) : AttributeEnds token rest := by
  rcases token with _ | _ | name | w | m
  · trivial
  · trivial
  · exact h
  · trivial
  · trivial

/-! ### Longest tokens -/

theorem afterWord_of_isBlank {c : Char} {rest : List Char} (hc : isBlank c = true) :
    dropTick ((c :: rest).dropWhile isWord) = c :: rest := by
  refine afterWord_of_breaks (breaks_cons.mpr ⟨isWord_of_isBlank hc, ?_⟩)
  rintro rfl
  exact absurd hc (by decide)

/-- A word without a backtick at its end goes on as far as word characters do, and takes a backtick
behind them. -/
theorem exists_word?_append {a plain : List Char} (ha : a = [] ∨ a = [tick])
    (hplain : IsPlain plain) (rest : List Char) :
    ∃ w, word? (a ++ plain ++ rest) = some (w, dropTick (rest.dropWhile isWord)) := by
  obtain ⟨c, cs, rfl, hc, hcs⟩ := hplain
  have hdrop : dropTick (a ++ c :: cs ++ rest) = c :: (cs ++ rest) := by
    rw [List.append_assoc]
    exact dropTick_append ha (by simpa using ne_tick_of_isWordStart hc)
  unfold word?
  rw [hdrop]
  simp only [hc, if_true, List.dropWhile_append_of_pos hcs]
  exact ⟨_, rfl⟩

/-- A token other than a word starts with what no word has. -/
theorem head_of_ne_word {token : Token} (hvalid : token.Valid) (hne : ∀ w, token ≠ .word w) :
    ∃ c cs, token.chars = c :: cs ∧ isWord c = false ∧ c ≠ tick := by
  rcases token with _ | _ | text | w | m
  · exact ⟨'-', ['>'], rfl, by decide, by decide⟩
  · exact ⟨'.', ['.', '.'], rfl, by decide, by decide⟩
  · obtain ⟨w, rfl, -⟩ := hvalid
    exact ⟨'@', w, rfl, by decide, by decide⟩
  · exact absurd rfl (hne w)
  · exact ⟨m.char, [], rfl, by cases m <;> decide, by cases m <;> decide⟩

/-- What follows the rest of a word, with a backtick at its end, can be cut. -/
theorem CutBy.afterWord (h : CutBy AttributeEnds text) :
    CutBy AttributeEnds (dropTick (text.dropWhile isWord)) := by
  induction h with
  | @blank gap hgap =>
    cases gap with
    | nil => exact .blank (by simp [dropTick])
    | cons c gap =>
      rw [afterWord_of_isBlank (hgap c List.mem_cons_self)]
      exact .blank hgap
  | @token gap rest token hgap hvalid hends hrest ih =>
    have hself := CutBy.token hgap hvalid hends hrest
    cases gap with
    | cons c gap =>
      rw [List.cons_append] at hself ⊢
      rwa [afterWord_of_isBlank (hgap c List.mem_cons_self)]
    | nil =>
      rw [List.nil_append] at hself ⊢
      by_cases hword : ∃ w, token = .word w
      · obtain ⟨w, rfl⟩ := hword
        obtain ⟨a, plain, b, ha, hb, hplain, rfl⟩ := hvalid
        rcases ha with rfl | rfl
        · -- the word ends with its backtick, or goes on with what can be cut behind it
          rw [Token.chars, List.nil_append, List.append_assoc,
            List.dropWhile_append_of_pos hplain.isWord]
          rcases hb with rfl | rfl
          · exact ih
          · rwa [List.singleton_append, List.dropWhile_cons_of_neg (by simp [isWord_tick]),
              dropTick, if_pos (by rfl)]
        · -- a backtick in front of a word is no end of the one before, but can be one
          have hdrop : dropTick ((Token.chars (.word ([tick] ++ plain ++ b)) ++ rest).dropWhile
              isWord) = [] ++ (Token.chars (.word (plain ++ b)) ++ rest) := by
            simp [Token.chars, isWord_tick, dropTick]
          rw [hdrop]
          exact .token (List.forall_mem_nil _) ⟨[], plain, b, .inl rfl, hb, hplain, by simp⟩
            trivial hrest
      · obtain ⟨c, cs, hchars, hc, htick⟩ :=
          head_of_ne_word hvalid fun w hw => hword ⟨w, hw⟩
        rw [hchars, List.cons_append] at hself ⊢
        rwa [afterWord_of_breaks (breaks_cons.mpr ⟨hc, htick⟩)]

/-- Dots are tokens alone or three by three, so one of them can be taken away. -/
theorem CutBy.behind_dot (h : CutBy AttributeEnds ('.' :: text)) : CutBy AttributeEnds text := by
  generalize hinput : '.' :: text = input at h
  cases h with
  | blank hgap =>
    subst hinput
    exact absurd (hgap '.' List.mem_cons_self) (by decide)
  | @token gap rest token hgap hvalid _ hrest =>
    cases gap with
    | cons c gap =>
      obtain ⟨rfl, -⟩ := List.cons.inj hinput
      exact absurd (hgap '.' List.mem_cons_self) (by decide)
    | nil =>
      rw [List.nil_append] at hinput
      rcases token with _ | _ | name | w | m
      · cases hinput
      · -- three dots are three tokens, too
        obtain rfl : text = '.' :: '.' :: rest := (List.cons.inj hinput).2
        have hvalid : (Token.mark .dot).Valid := trivial
        have hgap : ∀ c ∈ ([] : List Char), isBlank c = true := List.forall_mem_nil _
        have hdot : CutBy AttributeEnds ('.' :: rest) := .token hgap hvalid trivial hrest
        exact .token hgap hvalid trivial hdot
      · obtain ⟨w, rfl, -⟩ := hvalid
        cases hinput
      · obtain ⟨c, cs, rfl, hc⟩ := IsTicked.exists_cons hvalid
        obtain ⟨rfl, -⟩ := List.cons.inj hinput
        exact absurd hc (by decide)
      · obtain ⟨-, rfl⟩ := List.cons.inj hinput
        exact hrest

/-- **The longest token at the start of a cut leaves a text that can be cut.** -/
theorem CutBy.exists_longest {token : Token} (hvalid : token.Valid)
    (hends : AttributeEnds token rest) (hrest : CutBy AttributeEnds rest) :
    ∃ (token' : Token) (rest' : List Char), token.chars ++ rest = token'.chars ++ rest' ∧
      token'.Valid ∧ token'.Ends rest' ∧ CutBy AttributeEnds rest' := by
  rcases token with _ | _ | name | w | m
  · exact ⟨.arrow, rest, rfl, hvalid, trivial, hrest⟩
  · exact ⟨.ellipsis, rest, rfl, hvalid, trivial, hrest⟩
  · exact ⟨.attribute name, rest, rfl, hvalid, hends, hrest⟩
  · obtain ⟨a, plain, b, ha, hb, hplain, rfl⟩ := hvalid
    rcases hb with rfl | rfl
    · rw [List.append_nil]
      obtain ⟨w, hword⟩ := exists_word?_append ha hplain rest
      obtain ⟨happend, hticked, hend⟩ := word?_eq_some_iff.mp hword
      exact ⟨.word w, _, happend, hticked, hend, hrest.afterWord⟩
    · exact ⟨.word (a ++ plain ++ [tick]), rest, rfl, ⟨a, plain, _, ha, .inr rfl, hplain, rfl⟩,
        .inl (by simp), hrest⟩
  · by_cases hdots : m = .dot ∧ ['.', '.'] <+: rest
    · obtain ⟨rfl, after, rfl⟩ := hdots
      exact ⟨.ellipsis, after, rfl, trivial, trivial, hrest.behind_dot.behind_dot⟩
    · refine ⟨.mark m, rest, rfl, trivial, ?_, hrest⟩
      by_cases hm : m = .dot
      · subst hm
        exact fun hprefix => hdots ⟨rfl, hprefix⟩
      · exact Token.ends_mark hm rest

theorem CutBy.ends_of_attributeEnds (h : CutBy AttributeEnds text) : CutBy Token.Ends text := by
  induction hlength : text.length using Nat.strong_induction_on generalizing text with
  | _ size ih =>
    cases h with
    | blank hgap => exact .blank hgap
    | @token gap rest token hgap hvalid hends hrest =>
      obtain ⟨token', rest', happend, hvalid', hends', hrest'⟩ :=
        CutBy.exists_longest hvalid hends hrest
      rw [happend] at hlength ⊢
      obtain ⟨c, cs, hchars, -⟩ := hvalid'.exists_cons
      have hlt : rest'.length < size := by
        rw [← hlength, List.length_append, List.length_append, hchars, List.length_cons]
        omega
      exact .token hgap hvalid' hends' (ih _ hlt hrest' rfl)

theorem cutBy_attributeEnds_iff : CutBy AttributeEnds text ↔ ∃ l, ofChars text = .ok l := by
  rw [← cutBy_ends_iff]
  exact ⟨CutBy.ends_of_attributeEnds, CutBy.mono fun _ _ => attributeEnds_of_ends⟩

/-! ### Spans -/

/-- Spans of a text, one for each lexeme, that hold the tokens and leave out blanks only. -/
structure Covers (text : List Char) (l : List Lexeme) (spans : List (Nat × Nat)) : Prop where
  /-- The spans stand one behind the other. -/
  apart : spans.Pairwise fun a b => a.2 ≤ b.1
  /-- No span is empty, and none reaches over the end of the text. -/
  inside : ∀ span ∈ spans, span.1 < span.2 ∧ span.2 ≤ text.length
  /-- What stands in a span is its token. -/
  values : List.Forall₂ (fun span x => (text.take span.2).drop span.1 = x.token.chars) spans l
  /-- What stands in no span is a blank. -/
  blanks : ∀ i c, text[i]? = some c → (∀ span ∈ spans, i < span.1 ∨ span.2 ≤ i) →
    isBlank c = true

section Spans

variable {offset : Nat} {l : List Lexeme} {after tail : List Char}

/-- Spans stand behind the place that they are counted from, and end with their lexemes. -/
theorem spansFrom_bounds (h : Stands l after) {span : Nat × Nat} (hspan : span ∈ spansFrom offset l) :
    offset ≤ span.1 ∧ span.1 < span.2 ∧ span.2 ≤ offset + (l.flatMap chars).length := by
  induction l generalizing offset with
  | nil => cases hspan
  | cons x l ih =>
    obtain ⟨-, hvalid, -, hl⟩ := h
    obtain ⟨c, cs, hchars, -⟩ := hvalid.exists_cons
    have hpos : 0 < x.token.chars.length := by rw [hchars]; exact Nat.succ_pos _
    rw [List.flatMap_cons, List.length_append, chars, List.length_append]
    rcases List.mem_cons.mp hspan with rfl | hspan
    · dsimp only
      omega
    · obtain ⟨hstart, hlt, hstop⟩ := ih hl hspan
      omega

theorem pairwise_spansFrom (h : Stands l after) :
    (spansFrom offset l).Pairwise fun a b => a.2 ≤ b.1 := by
  induction l generalizing offset with
  | nil => exact List.Pairwise.nil
  | cons x l ih =>
    refine List.Pairwise.cons (fun span hspan => ?_) (ih h.2.2.2)
    exact (spansFrom_bounds h.2.2.2 hspan).1

theorem values_spansFrom (front tail : List Char) (l : List Lexeme) :
    List.Forall₂ (fun span x =>
      ((front ++ (l.flatMap chars ++ tail)).take span.2).drop span.1 = x.token.chars)
      (spansFrom front.length l) l := by
  induction l generalizing front with
  | nil => exact .nil
  | cons x l ih =>
    refine .cons ?_ ?_
    · rw [List.flatMap_cons, chars]
      have hsplit : front ++ (x.gap ++ x.token.chars ++ l.flatMap chars ++ tail) =
          (front ++ x.gap) ++ (x.token.chars ++ (l.flatMap chars ++ tail)) := by
        simp
      dsimp only
      rw [hsplit, ← List.length_append, ← List.length_append, ← List.append_assoc,
        List.take_left, List.drop_left]
    · have hrest := ih (front ++ x.chars)
      rw [chars, List.length_append, List.length_append, ← Nat.add_assoc] at hrest
      rw [List.flatMap_cons]
      simpa [chars] using hrest

theorem blanks_spansFrom (h : Stands l after) (htail : ∀ c ∈ tail, isBlank c = true) {i : Nat}
    {c : Char} (hc : (l.flatMap chars ++ tail)[i]? = some c)
    (hout : ∀ span ∈ spansFrom offset l, offset + i < span.1 ∨ span.2 ≤ offset + i) :
    isBlank c = true := by
  induction l generalizing offset i with
  | nil => exact htail c (List.mem_of_getElem? (by simpa using hc))
  | cons x l ih =>
    obtain ⟨hgap, -, -, hl⟩ := h
    rw [List.flatMap_cons, chars, List.append_assoc, List.append_assoc] at hc
    rcases hout _ List.mem_cons_self with hlt | hle
    · have hi : i < x.gap.length := by
        dsimp only at hlt
        omega
      rw [List.getElem?_append_left hi] at hc
      exact hgap c (List.mem_of_getElem? hc)
    · -- behind the token the rest counts from its end
      dsimp only at hle
      obtain ⟨j, rfl⟩ : ∃ j, i = x.gap.length + x.token.chars.length + j :=
        Nat.exists_eq_add_of_le (by omega)
      rw [Nat.add_assoc, List.getElem?_append_right (Nat.le_add_right _ _), Nat.add_sub_cancel_left,
        List.getElem?_append_right (Nat.le_add_right _ _), Nat.add_sub_cancel_left] at hc
      have hbehind : ∀ span ∈ spansFrom (offset + x.gap.length + x.token.chars.length) l,
          offset + x.gap.length + x.token.chars.length + j < span.1 ∨
            span.2 ≤ offset + x.gap.length + x.token.chars.length + j := by
        intro span hspan
        have hspan := hout span (List.mem_cons_of_mem _ hspan)
        omega
      exact ih hl hc hbehind

end Spans

theorem covers_of_ofChars {l : List Lexeme} (h : ofChars text = .ok l) :
    Covers text l (spansFrom 0 l) := by
  obtain ⟨tail, htail, rfl, hl⟩ := ofChars_eq_ok_iff.mp h
  refine ⟨pairwise_spansFrom hl, fun span hspan => ?_, ?_, fun i c hc hout => ?_⟩
  · obtain ⟨-, hlt, hstop⟩ := spansFrom_bounds hl hspan
    rw [List.length_append]
    omega
  · exact values_spansFrom [] tail l
  · have hnone : ∀ span ∈ spansFrom 0 l, 0 + i < span.1 ∨ span.2 ≤ 0 + i := by
      intro span hspan
      rw [Nat.zero_add]
      exact hout span hspan
    exact blanks_spansFrom hl htail hc hnone

/-- **Lexemes are found exactly in texts that can be cut**, with no name of an attribute cut in two.
Each of them has a token of its kind. Their spans stand one behind the other, what stands in a span
is its token, and what stands in none is a blank. -/
theorem ofChars_exact (text : List Char) :
    ((∃ l, ofChars text = .ok l) ↔ CutBy AttributeEnds text) ∧
      ∀ l, ofChars text = .ok l → (∀ x ∈ l, x.token.Valid) ∧ Covers text l (spansFrom 0 l) := by
  refine ⟨cutBy_attributeEnds_iff.symm, fun l h => ⟨?_, covers_of_ofChars h⟩⟩
  obtain ⟨tail, -, -, hl⟩ := ofChars_eq_ok_iff.mp h
  intro x hx
  obtain ⟨a, b, rfl⟩ := List.append_of_mem hx
  exact (stands_append.mp hl).2.2.1

/-- A text with tokens that go on where a cut could end them, and with blanks of several kinds. -/
def tangledText : List Char := "\t(@escaping`A``B`....  C)\u00a0->`D`\n".toList

def tangledLexemes : List Lexeme :=
  [⟨['\t'], .mark .openParen⟩, ⟨[], .attribute "@escaping".toList⟩, ⟨[], .word "`A`".toList⟩,
    ⟨[], .word "`B`".toList⟩, ⟨[], .ellipsis⟩, ⟨[], .mark .dot⟩, ⟨[' ', ' '], .word ['C']⟩,
    ⟨[], .mark .closeParen⟩, ⟨['\u00a0'], .arrow⟩, ⟨[], .word "`D`".toList⟩]

theorem ofChars_exact_tangled :
    ofChars tangledText = .ok tangledLexemes ∧ CutBy AttributeEnds tangledText ∧
      Covers tangledText tangledLexemes (spansFrom 0 tangledLexemes) := by
  have hread : ofChars tangledText = .ok tangledLexemes := by cbv
  obtain ⟨hcut, hcovers⟩ := ofChars_exact tangledText
  exact ⟨hread, hcut.mp ⟨_, hread⟩, (hcovers _ hread).2⟩

/-- A text in which a word with a backtick can be cut from the name of an attribute. -/
def shortAttributeText : List Char := "(@ab`) -> Void".toList

/-- A text can be cut into tokens without having lexemes. -/
theorem attribute_cut_short :
    CutBy (fun _ _ => True) shortAttributeText ∧ ¬∃ l, ofChars shortAttributeText = .ok l := by
  have hnone : ∀ c ∈ ([] : List Char), isBlank c = true := List.forall_mem_nil _
  have hspace := isBlank_of_mem_space
  have hparens : (Token.mark .openParen).Valid ∧ (Token.mark .closeParen).Valid := ⟨trivial, trivial⟩
  have harrow : Token.arrow.Valid := trivial
  have hvoid : (Token.word "Void".toList).Valid :=
    (isPlain_of_all (by decide) (by decide) : IsPlain "Void".toList).isTicked
  have hname : (Token.attribute ['@', 'a']).Valid :=
    ⟨['a'], rfl, isPlain_of_all (by decide) (by decide)⟩
  have hword : (Token.word ['b', tick]).Valid :=
    ⟨[], ['b'], [tick], .inl rfl, .inr rfl, isPlain_of_all (by decide) (by decide), rfl⟩
  constructor
  · have hresult : CutBy (fun _ _ => True) " -> Void".toList :=
      .token hspace harrow trivial (.token hspace hvoid trivial (.blank hnone))
    have hrest : CutBy (fun _ _ => True) "b`) -> Void".toList :=
      .token hnone hword trivial (.token hnone hparens.2 trivial hresult)
    exact .token hnone hparens.1 trivial (.token hnone hname trivial hrest)
  · rintro ⟨l, hl⟩
    have hfail : ofChars shortAttributeText = .error tick := by cbv
    rw [hfail] at hl
    cases hl

end FluentBuilder.TypeExpr
