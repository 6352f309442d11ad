import FluentBuilder.Proofs.TypeExpr.Range

/-!
# Brackets in the lexemes of a type

The lexemes of a type open and close their own brackets, and what separates types stands inside of
brackets only (`Closed`). So a type that is read from the lexemes of another one in front of a
separator or of a closing bracket ends where these end (`Reads.stops`), and the generic arguments
that end a text start at one place only (`Closed.unique_last`).

Inside of parentheses only parentheses are counted: the arguments of an attribute are skipped up to
the parenthesis that closes them, whatever other brackets they hold.
-/

namespace FluentBuilder.TypeExpr

open Text Lexeme

/-! ### Nesting -/

/-- What a token does to the brackets around it. The angle brackets of generic arguments count as
brackets. -/
inductive Turn where
  | openParen
  | closeParen
  | openBracket
  | closeBracket
  | separator
  | plain

def Token.turn : Token → Turn
  | .mark .openParen => .openParen
  | .mark .closeParen => .closeParen
  | .mark .openBracket | .mark .less => .openBracket
  | .mark .closeBracket | .mark .greater => .closeBracket
  | .mark .comma | .mark .colon | .ellipsis => .separator
  | _ => .plain

/-- How many brackets are open, and how many parentheses inside of them. -/
structure Nesting where
  brackets : Nat
  parens : Nat

namespace Nesting

/-- The nesting behind a token. There is none where nothing is left to close, and behind a separator
outside of all brackets only if these are allowed. -/
def next (separators : Bool) : Nesting → Turn → Option Nesting
  | ⟨b, p⟩, .openParen => some ⟨b, p + 1⟩
  | ⟨_, 0⟩, .closeParen => none
  | ⟨b, p + 1⟩, .closeParen => some ⟨b, p⟩
  | ⟨b, 0⟩, .openBracket => some ⟨b + 1, 0⟩
  | ⟨0, 0⟩, .closeBracket => none
  | ⟨b + 1, 0⟩, .closeBracket => some ⟨b, 0⟩
  | ⟨0, 0⟩, .separator => if separators then some ⟨0, 0⟩ else none
  | n, _ => some n

/-- A nesting inside of another one. -/
def around : Nesting → Nesting → Nesting
  | ⟨b, 0⟩, ⟨c, q⟩ => ⟨b + c, q⟩
  | ⟨b, p + 1⟩, ⟨_, q⟩ => ⟨b, p + 1 + q⟩

theorem around_zero (outer : Nesting) : outer.around ⟨0, 0⟩ = outer := by
  obtain ⟨b, _ | p⟩ := outer <;> rfl

/-- Inside of brackets the same happens, and separators are allowed. -/
theorem next_around {separators separators' : Bool} {outer n n' : Nesting} {turn : Turn}
    (houter : outer ≠ ⟨0, 0⟩) (h : n.next separators turn = some n') :
    (outer.around n).next separators' turn = some (outer.around n') := by
  obtain ⟨b, _ | p⟩ := outer
  · obtain ⟨b, rfl⟩ := Nat.exists_eq_succ_of_ne_zero (n := b) (by simpa using houter)
    obtain ⟨_ | c, _ | q⟩ := n
    all_goals
      cases turn
      all_goals simp [next] at h
      all_goals simp [next, around, ← h, Nat.add_right_comm, ← Nat.add_assoc]
  · obtain ⟨_ | c, _ | q⟩ := n
    all_goals
      cases turn
      all_goals simp [next] at h
      all_goals simp [next, around, ← h, ← Nat.add_assoc]

theorem next_separators {n n' : Nesting} {turn : Turn} (h : n.next false turn = some n') :
    n.next true turn = some n' := by
  obtain ⟨_ | b, _ | p⟩ := n <;> cases turn <;> first | exact h | simp [next] at h

/-- Behind an opening bracket something is open. -/
theorem next_openBracket (n : Nesting) (separators : Bool) :
    ∃ n', n.next separators .openBracket = some n' ∧ n' ≠ ⟨0, 0⟩ := by
  obtain ⟨b, _ | p⟩ := n
  · exact ⟨⟨b + 1, 0⟩, rfl, by simp⟩
  · exact ⟨⟨b, p + 1⟩, rfl, by simp⟩

end Nesting

/-- The nesting behind some lexemes. -/
def walk (separators : Bool) : Nesting → List Lexeme → Option Nesting
  | n, [] => some n
  | n, x :: l => (n.next separators x.token.turn).bind (walk separators · l)

theorem walk_append {separators : Bool} {n : Nesting} {a b : List Lexeme} :
    walk separators n (a ++ b) = (walk separators n a).bind (walk separators · b) := by
  induction a generalizing n with
  | nil => rfl
  | cons x a ih =>
    rw [List.cons_append, walk, walk, Option.bind_assoc]
    exact congrArg _ (funext fun m => ih)

theorem walk_regap {separators : Bool} {n : Nesting} {l : List Lexeme} {gap : List Char} :
    walk separators n (regap gap l) = walk separators n l := by
  cases l <;> rfl

theorem walk_around {separators separators' : Bool} {outer n n' : Nesting} {l : List Lexeme}
    (houter : outer ≠ ⟨0, 0⟩) (h : walk separators n l = some n') :
    walk separators' (outer.around n) l = some (outer.around n') := by
  induction l generalizing n with
  | nil =>
    obtain rfl := Option.some.inj h
    rfl
  | cons x l ih =>
    obtain ⟨m, hm, hl⟩ := Option.bind_eq_some_iff.1 h
    rw [walk, Nesting.next_around houter hm]
    exact ih hl

theorem walk_separators {n n' : Nesting} {l : List Lexeme} (h : walk false n l = some n') :
    walk true n l = some n' := by
  induction l generalizing n with
  | nil => exact h
  | cons x l ih =>
    obtain ⟨m, hm, hl⟩ := Option.bind_eq_some_iff.1 h
    rw [walk, Nesting.next_separators hm]
    exact ih hl

/-! ### Closed rows -/

/-- The lexemes close what they open, and nothing else. -/
def Closed (separators : Bool) (l : List Lexeme) : Prop :=
  walk separators ⟨0, 0⟩ l = some ⟨0, 0⟩

theorem closed_nil {separators : Bool} : Closed separators [] := rfl

theorem Closed.append {separators : Bool} {a b : List Lexeme} (ha : Closed separators a)
    (hb : Closed separators b) : Closed separators (a ++ b) := by
  have ha' : walk separators ⟨0, 0⟩ a = some ⟨0, 0⟩ := ha
  rw [Closed, walk_append, ha']
  exact hb

theorem Closed.cons {separators : Bool} {x : Lexeme} {l : List Lexeme} (h : Closed separators l)
    (hx : x.token.turn = .plain) : Closed separators (x :: l) := by
  rw [Closed, walk, hx]
  exact h

theorem Closed.regap {separators : Bool} {l : List Lexeme} (h : Closed separators l)
    (gap : List Char) : Closed separators (regap gap l) := by
  rw [Closed, walk_regap]
  exact h

theorem Closed.separators {l : List Lexeme} (h : Closed false l) : Closed true l :=
  walk_separators h

/-- Inside of brackets nothing is changed. -/
theorem Closed.inside {separators separators' : Bool} {l : List Lexeme} (h : Closed separators l)
    {outer : Nesting} (houter : outer ≠ ⟨0, 0⟩) : walk separators' outer l = some outer := by
  have : walk separators' (outer.around ⟨0, 0⟩) l = some (outer.around ⟨0, 0⟩) :=
    walk_around houter h
  rwa [outer.around_zero] at this

theorem Closed.comma {l l' : List Lexeme} {g : List Char} (h : Closed true l) (h' : Closed true l') :
    Closed true (l ++ ⟨g, .mark .comma⟩ :: l') := h.append h'

theorem Closed.brackets {l : List Lexeme} (h : Closed true l) {x y : Lexeme}
    (hx : x.token.turn = .openBracket) (hy : y.token.turn = .closeBracket) :
    Closed false (x :: (l ++ [y])) := by
  have hl : walk false ⟨1, 0⟩ l = some ⟨1, 0⟩ := h.inside (by simp)
  rw [Closed, walk, hx]
  show walk false ⟨1, 0⟩ (l ++ [y]) = _
  rw [walk_append, hl]
  show ((⟨1, 0⟩ : Nesting).next false y.token.turn).bind _ = _
  rw [hy]
  rfl

theorem Closed.parens {l : List Lexeme} (h : Closed true l) {g g' : List Char} :
    Closed false (⟨g, .mark .openParen⟩ :: (l ++ [⟨g', .mark .closeParen⟩])) := by
  have hl : walk false ⟨0, 1⟩ l = some ⟨0, 1⟩ := h.inside (by simp)
  show walk false ⟨0, 1⟩ (l ++ [_]) = _
  rw [walk_append, hl]
  rfl

theorem closed_commas {ls : List (List Lexeme)} (h : ∀ l ∈ ls, Closed true l) :
    Closed true (commas ls) := by
  induction ls with
  | nil => exact closed_nil
  | cons l ls ih =>
    have hl := h l (by simp)
    rcases ls with _ | ⟨l', ls⟩
    · exact hl
    · have hls := ih fun l hl => h l (List.mem_cons_of_mem _ hl)
      exact hl.comma (hls.regap [' '])

/-- Whether a type ends in front of the token, as it closes nothing and does not separate anything
inside of the type. -/
def IsStop (token : Token) : Prop := (⟨0, 0⟩ : Nesting).next false token.turn = none

/-- What comes first in front of a stop is the same, whatever it is split into. -/
theorem Closed.unique {l l' rest rest' : List Lexeme} {z z' : Lexeme} (h : Closed false l)
    (h' : Closed false l') (hz : IsStop z.token) (hz' : IsStop z'.token)
    (heq : l ++ z :: rest = l' ++ z' :: rest') : l = l' ∧ z :: rest = z' :: rest' := by
  have hstop {a b tail : List Lexeme} {y : Lexeme} (ha : Closed false a) (hy : IsStop y.token)
      (hb : Closed false b) : b ≠ a ++ y :: tail := by
    rintro rfl
    have ha' : walk false ⟨0, 0⟩ a = some ⟨0, 0⟩ := ha
    have hy' : (⟨0, 0⟩ : Nesting).next false y.token.turn = none := hy
    rw [Closed, walk_append, ha', Option.bind_some, walk, hy'] at hb
    simp at hb
  rcases List.append_eq_append_iff.1 heq with ⟨a, rfl, ha⟩ | ⟨a, rfl, ha⟩
  · rcases a with _ | ⟨y, a⟩
    · exact ⟨by simp, ha⟩
    · obtain ⟨rfl, -⟩ := List.cons.inj ha
      exact absurd rfl (hstop h hz h')
  · rcases a with _ | ⟨y, a⟩
    · exact ⟨by simp, ha.symm⟩
    · obtain ⟨rfl, -⟩ := List.cons.inj ha
      exact absurd rfl (hstop h' hz' h)

/-- Closed rows that end a text start behind the same bracket. -/
theorem Closed.unique_last {a a' m m' : List Lexeme} {g g' : List Char} (h : Closed true m)
    (h' : Closed true m')
    (heq : a ++ ⟨g, .mark .less⟩ :: m = a' ++ ⟨g', .mark .less⟩ :: m') : a = a' ∧ m = m' := by
  have hinner {b c d : List Lexeme} {y : Lexeme} (hy : y.token = .mark .less)
      (hc : Closed true c) (hd : Closed true d) : d ≠ b ++ y :: c := by
    rintro rfl
    rw [Closed, walk_append] at hd
    obtain ⟨n, -, hn⟩ := Option.bind_eq_some_iff.1 hd
    rw [walk, hy] at hn
    obtain ⟨n', hn', hne⟩ := n.next_openBracket true
    rw [show (Token.mark .less).turn = .openBracket from rfl, hn', Option.bind_some,
      hc.inside hne] at hn
    exact hne (Option.some.inj hn)
  rcases List.append_eq_append_iff.1 heq with ⟨b, rfl, hb⟩ | ⟨b, rfl, hb⟩
  · rcases b with _ | ⟨y, b⟩
    · exact ⟨by simp, (List.cons.inj hb).2⟩
    · obtain ⟨rfl, hm⟩ := List.cons.inj hb
      exact absurd hm (hinner rfl h' h)
  · rcases b with _ | ⟨y, b⟩
    · exact ⟨by simp, (List.cons.inj hb).2.symm⟩
    · obtain ⟨rfl, hm⟩ := List.cons.inj hb
      exact absurd hm (hinner rfl h h')

/-! ### Phrases -/

/-- The lexemes in front of the rest lead from one nesting to another. -/
def Passes (separators : Bool) (n : Nesting) (input : List Lexeme) (n' : Nesting)
    (rest : List Lexeme) : Prop :=
  ∃ front, input = front ++ rest ∧ walk separators n front = some n'

section

variable {separators : Bool} {n n' n'' : Nesting} {input mid rest : List Lexeme}

theorem Passes.refl : Passes separators n rest n rest := ⟨[], rfl, rfl⟩

theorem Passes.trans (h : Passes separators n input n' mid) (h' : Passes separators n' mid n'' rest) :
    Passes separators n input n'' rest := by
  obtain ⟨a, rfl, ha⟩ := h
  obtain ⟨b, rfl, hb⟩ := h'
  refine ⟨a ++ b, by simp, ?_⟩
  rw [walk_append, ha]
  exact hb

theorem passes_cons {x : Lexeme} (hx : n.next separators x.token.turn = some n') :
    Passes separators n (x :: rest) n' rest := by
  refine ⟨[x], rfl, ?_⟩
  rw [walk, hx]
  rfl

theorem Passes.inside {separators' : Bool} {outer : Nesting} (houter : outer ≠ ⟨0, 0⟩)
    (h : Passes separators ⟨0, 0⟩ input ⟨0, 0⟩ rest) : Passes separators' outer input outer rest := by
  obtain ⟨a, rfl, ha⟩ := h
  exact ⟨a, rfl, Closed.inside ha houter⟩

end

theorem Nesting.next_parens {separators : Bool} {p : Nat} {turn : Turn} (hopen : turn ≠ .openParen)
    (hclose : turn ≠ .closeParen) :
    (⟨0, p + 1⟩ : Nesting).next separators turn = some ⟨0, p + 1⟩ := by
  cases turn <;> first | rfl | contradiction

theorem passes_skipAttributes {depth : Nat} {input rest : List Lexeme}
    (h : skipAttributes depth input = .ok rest) :
    Passes false ⟨0, depth + 1⟩ input ⟨0, 1⟩ rest := by
  fun_induction skipAttributes depth input with
  | case1 _ _ _ ih => exact (passes_cons rfl).trans ((passes_cons rfl).trans (ih h))
  | case2 _ _ _ _ ih => exact (passes_cons rfl).trans (ih h)
  | case3 _ _ ih => exact (passes_cons rfl).trans (ih h)
  | case4 => exact Except.ok.inj h ▸ .refl
  | case5 => exact Except.ok.inj h ▸ .refl
  | case6 => simp at h
  | case7 _ _ _ ih => exact (passes_cons rfl).trans (ih h)
  | case8 _ _ _ ih => exact (passes_cons rfl).trans (ih h)
  | case9 depth x input hopen hclose ih =>
    refine (passes_cons (Nesting.next_parens ?_ ?_)).trans (ih h)
    · obtain ⟨g, token⟩ := x
      rcases token with _ | _ | w | w | m
      iterate 4 simp [Token.turn]
      cases m <;> first | exact absurd rfl (hopen g) | simp [Token.turn]
    · obtain ⟨g, token⟩ := x
      rcases token with _ | _ | w | w | m
      iterate 4 simp [Token.turn]
      cases m <;> first | exact absurd rfl (hclose g) | simp [Token.turn]

theorem passes_readLabel (input : List Lexeme) :
    Passes false ⟨0, 1⟩ input ⟨0, 1⟩ (readLabel input).2 := by
  fun_cases readLabel input with
  | case1 => exact (passes_cons rfl).trans (passes_cons rfl)
  | case2 => exact (passes_cons rfl).trans ((passes_cons rfl).trans (passes_cons rfl))
  | case3 => exact .refl

theorem passes_element {label : Option String} {input a b c : List Lexeme}
    (ha : skipAttributes 0 input = .ok a) (hl : readLabel a = (label, b))
    (hc : skipAttributes 0 b = .ok c) : Passes false ⟨0, 1⟩ input ⟨0, 1⟩ c := by
  have hb := passes_readLabel a
  rw [hl] at hb
  exact (passes_skipAttributes ha).trans (hb.trans (passes_skipAttributes hc))

theorem Suffixes.passes {text : List Char} {bare t : TypeExpr} {input rest : List Lexeme}
    (h : Suffixes text bare t input rest) : Passes false ⟨0, 0⟩ input ⟨0, 0⟩ rest := by
  induction h with
  | question _ ih | exclamation _ ih => exact (passes_cons rfl).trans ih
  | metatype _ _ _ ih => exact (passes_cons rfl).trans ((passes_cons rfl).trans ih)
  | done => exact .refl

/-- What a phrase does to the nesting. -/
def Phrase.Passes (input rest : List Lexeme) : Phrase → Prop
  | .bracketed _ => TypeExpr.Passes false ⟨1, 0⟩ input ⟨0, 0⟩ rest
  | .types _ => ∃ g, TypeExpr.Passes true ⟨0, 0⟩ input ⟨0, 0⟩ (⟨g, .mark .greater⟩ :: rest)
  | .parenthesized _ | .list _ | .elements _ => TypeExpr.Passes false ⟨0, 1⟩ input ⟨0, 0⟩ rest
  | .element _ => TypeExpr.Passes false ⟨0, 1⟩ input ⟨0, 1⟩ rest
  | _ => TypeExpr.Passes false ⟨0, 0⟩ input ⟨0, 0⟩ rest

/-- A phrase closes the brackets that it opens. -/
theorem Reads.passes {p : Phrase} {input rest : List Lexeme} (h : Reads p input rest) :
    p.Passes input rest := by
  have hone : (⟨1, 0⟩ : Nesting) ≠ ⟨0, 0⟩ := by simp
  have hparen : (⟨0, 1⟩ : Nesting) ≠ ⟨0, 0⟩ := by simp
  induction h with
  | constraint hstart _ _ _ ih ihj =>
    obtain ⟨w, hw, -⟩ := startsConstraint_cons.1 hstart
    exact (passes_cons (by rw [hw]; rfl)).trans (ih.trans ihj)
  | join _ _ _ _ ih ihj => exact ih.trans ihj
  | single _ _ _ ih => exact ih
  | joinedMore _ _ ih ihj => exact (passes_cons rfl).trans (ih.trans ihj)
  | joinedDone | argumentsNone | effectsDone => exact .refl
  | suffixed _ _ hs ih => exact ih.trans hs.passes
  | parenthesized _ ih | bracketed _ ih => exact (passes_cons rfl).trans ih
  | nominal _ ih => exact (passes_cons rfl).trans ih
  | dictionary _ _ ihk ihv =>
    exact (ihk.inside hone).trans ((passes_cons rfl).trans ((ihv.inside hone).trans
      (passes_cons rfl)))
  | array _ ih => exact (ih.inside hone).trans (passes_cons rfl)
  | member _ _ _ iha ihn =>
    exact iha.trans ((passes_cons rfl).trans ((passes_cons rfl).trans ihn))
  | nominalDone _ _ ih => exact ih
  | arguments _ ih =>
    obtain ⟨g, ih⟩ := ih
    exact (passes_cons rfl).trans ((ih.inside hone).trans (passes_cons rfl))
  | typesMore _ _ ih ihs =>
    obtain ⟨a, rfl, ha⟩ := ih
    obtain ⟨g, ihs⟩ := ihs
    exact ⟨g, .trans ⟨a, rfl, walk_separators ha⟩ ((passes_cons rfl).trans ihs)⟩
  | typesLast _ ih =>
    obtain ⟨a, rfl, ha⟩ := ih
    exact ⟨_, a, rfl, walk_separators ha⟩
  | function _ _ _ ihl ihe iht => exact ihl.trans (ihe.trans ((passes_cons rfl).trans iht))
  | tuple _ _ _ ih => exact ih
  | listNil => exact passes_cons rfl
  | list _ _ ih => exact ih
  | elementsMore _ _ ih ihs => exact ih.trans ((passes_cons rfl).trans ihs)
  | elementsLast _ ih => exact ih.trans (passes_cons rfl)
  | variadic ha hl hc _ ih =>
    exact (passes_element ha hl hc).trans ((ih.inside hparen).trans (passes_cons rfl))
  | element ha hl hc _ _ ih => exact (passes_element ha hl hc).trans (ih.inside hparen)
  | async _ ih | rethrows _ ih | throws _ _ ih => exact (passes_cons rfl).trans ih
  | throwsType _ _ ih ihe =>
    exact (passes_cons rfl).trans ((passes_cons rfl).trans ((ih.inside hparen).trans
      ((passes_cons rfl).trans ihe)))

/-- A type that is read in front of a stop ends where the closed row in front of the first stop
does. -/
theorem Reads.stops {t : TypeExpr} {l rest rest' : List Lexeme} {z z' : Lexeme}
    (h : Reads (.type t) (l ++ z :: rest) (z' :: rest')) (hl : Closed false l)
    (hz : IsStop z.token) (hz' : IsStop z'.token) : z' :: rest' = z :: rest := by
  obtain ⟨front, hfront, hwalk⟩ := h.passes
  exact (hl.unique hwalk hz hz' hfront).2.symm

/-! ### Rendered types -/

theorem closed_markedLexemes {t : TypeExpr} (h : Closed false t.lexemes) {mark : Mark}
    (hmark : (Token.mark mark).turn = .plain) : Closed false (markedLexemes t mark) := by
  have hlast : Closed false [⟨[], .mark mark⟩] := closed_nil.cons hmark
  unfold markedLexemes
  split
  · simpa using h.separators.parens.append hlast
  · exact h.append hlast

theorem closed_elementLexemes {e : Option String × TypeExpr} (h : Closed false e.2.lexemes) :
    Closed true (elementLexemes e) := by
  obtain ⟨_ | label, t⟩ := e
  · exact h.separators
  · rw [elementLexemes]
    split
    · exact h.separators
    · exact (h.separators.regap [' '])

theorem closed_effectLexemes (isAsync throws : Bool) {thrown : Option TypeExpr}
    (h : ∀ t ∈ thrown, Closed false t.lexemes) :
    Closed false (effectLexemes isAsync throws thrown) := by
  have hthrown : Closed false (thrownLexemes thrown) := by
    rcases thrown with _ | t
    · exact closed_nil
    · exact (h t rfl).separators.parens
  refine Closed.append ?_ ?_
  · split
    · exact closed_nil.cons rfl
    · exact closed_nil
  · split
    · exact hthrown.cons rfl
    · exact closed_nil

/-- The lexemes of what can be read are closed. -/
theorem Readable.closed {t : TypeExpr} (h : Readable t) : Closed false t.lexemes := by
  have hall {α : Type} {as : List α} {row : α → List Lexeme} (h : ∀ a ∈ as, Closed true (row a)) :
      Closed true (commas (as.map row)) :=
    closed_commas (by simpa using h)
  induction h with
  | word hw =>
    rw [lexemes_word hw]
    exact closed_nil.cons rfl
  | arguments hname hne hts ihname ih =>
    rw [lexemes_arguments hname hne hts]
    exact ihname.append ((hall fun t ht => (ih t ht).separators).brackets rfl rfl)
  | member hname hw ih =>
    rw [lexemes_member hname hw]
    exact ih.append ((closed_nil.cons rfl).cons rfl)
  | optional h ih =>
    rw [lexemes_optional h]
    exact closed_markedLexemes ih rfl
  | unwrapped h ih =>
    rw [lexemes_unwrapped h]
    exact closed_markedLexemes ih rfl
  | array h ih =>
    rw [lexemes_array h]
    exact ih.separators.brackets rfl rfl
  | @dictionary _ value hkey hvalue ihkey ihvalue =>
    rw [lexemes_dictionary hkey hvalue]
    have hcolon : Closed true (⟨[], .mark .colon⟩ :: regap [' '] value.lexemes) :=
      ihvalue.separators.regap [' ']
    have := ihkey.separators.append hcolon
    simpa using this.brackets (x := ⟨[], .mark .openBracket⟩) (y := ⟨[], .mark .closeBracket⟩) rfl rfl
  | tuple h hlabel _ ih =>
    rw [lexemes_tuple h hlabel]
    exact (hall fun e he => closed_elementLexemes (ih e he)).parens
  | @function ps result _ _ _ hps hresult hthrown _ ihps ihresult iht =>
    rw [lexemes_function _ _ hps hresult hthrown]
    have hlist : Closed false (⟨[], .mark .openParen⟩ ::
        (commas (ps.map lexemes) ++ [⟨[], .mark .closeParen⟩])) :=
      (hall fun t ht => (ihps t ht).separators).parens
    have hresult : Closed false (⟨[' '], .arrow⟩ :: regap [' '] result.lexemes) :=
      (ihresult.regap [' ']).cons rfl
    simpa using hlist.append ((closed_effectLexemes _ _ iht).append hresult)
  | verbatim h =>
    have hread := h.reads [] rfl
    rw [List.append_nil] at hread
    obtain ⟨front, hfront, hwalk⟩ := hread.passes
    rw [List.append_nil] at hfront
    exact hfront ▸ hwalk

end FluentBuilder.TypeExpr
