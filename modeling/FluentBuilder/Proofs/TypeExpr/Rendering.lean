import FluentBuilder.Proofs.TypeExpr.Lexing
import FluentBuilder.TypeExpr.Printer

/-!
# The lexemes of a rendered type

A rendered type is put together from texts whose lexemes are known. A row of lexemes (`Row`) can be
put behind another as long as its text does not go on with the last word of the other
(`Row.append`), so the lexemes of a rendered type are those of its parts with the marks between them.

`lexemes` are the lexemes of a rendered type, and `Legible` says that they are all of its text. The
type has them if its parts have them; this is one theorem for each constructor.
-/

namespace FluentBuilder.TypeExpr

open Text Lexeme

/-! ### Rows of lexemes -/

/-- The lexemes of a text, up to its last character. -/
structure Row (text : List Char) (l : List Lexeme) : Prop where
  chars_eq : l.flatMap chars = text
  stands : Stands l []
  last : ∀ x ∈ l.getLast?, x.token ≠ .mark .dot

/-- The lexemes of a text, from its first character to its last. -/
structure Spelled (text : List Char) (l : List Lexeme) : Prop extends Row text l where
  head : ∃ token tail, l = ⟨[], token⟩ :: tail

theorem breaks_mark {m : Mark} {text : List Char} : Breaks (m.char :: text) := by
  cases m <;> simp [Mark.char] <;> decide

theorem breaks_space {text : List Char} : Breaks (' ' :: text) := by
  simp
  decide

theorem ends_mark {m : Mark} (hm : m ≠ .dot) {after : List Char} : (Token.mark m).Ends after := by
  cases m <;> trivial

theorem row_nil : Row [] [] := ⟨rfl, trivial, by simp⟩

theorem Row.append {a b : List Char} {la lb : List Lexeme} (ha : Row a la) (hb : Row b lb)
    (hbreaks : Breaks b) : Row (a ++ b) (la ++ lb) := by
  refine ⟨by rw [List.flatMap_append, ha.chars_eq, hb.chars_eq], ?_, ?_⟩
  · rw [stands_append, List.append_nil, hb.chars_eq]
    exact ⟨ha.stands.followed ha.last hbreaks, hb.stands⟩
  · intro x hx
    rw [List.getLast?_append] at hx
    rcases hlb : lb.getLast? with _ | y
    · exact ha.last x (by simpa [hlb] using hx)
    · exact hb.last x (by simpa [hlb] using hx)

theorem Row.cons {text : List Char} {l : List Lexeme} {x : Lexeme} (h : Row text l)
    (hgap : ∀ c ∈ x.gap, isBlank c = true) (hvalid : x.token.Valid) (hends : x.token.Ends text)
    (hlast : l = [] → x.token ≠ .mark .dot) : Row (x.chars ++ text) (x :: l) := by
  refine ⟨by rw [List.flatMap_cons, h.chars_eq], ⟨hgap, hvalid, ?_, h.stands⟩, ?_⟩
  · rwa [List.append_nil, h.chars_eq]
  · rcases l with _ | ⟨y, l⟩
    · simpa using hlast rfl
    · simpa [List.getLast?_cons_cons] using h.last

theorem Row.mark {text : List Char} {l : List Lexeme} (h : Row text l) {m : Mark} (hm : m ≠ .dot) :
    Row (m.char :: text) (⟨[], .mark m⟩ :: l) :=
  h.cons (x := ⟨[], .mark m⟩) (by simp) trivial (ends_mark hm) (by simpa using fun _ => hm)

theorem Row.spelled_mark {text : List Char} {l : List Lexeme} (h : Row text l) {m : Mark}
    (hm : m ≠ .dot) : Spelled (m.char :: text) (⟨[], .mark m⟩ :: l) :=
  ⟨h.mark hm, _, _, rfl⟩

theorem Row.arrow {text : List Char} {l : List Lexeme} (h : Row text l) :
    Row (' ' :: '-' :: '>' :: text) (⟨[' '], .arrow⟩ :: l) :=
  h.cons (x := ⟨[' '], .arrow⟩) (by simp; decide) trivial trivial (by simp)

theorem Row.word {text : List Char} {l : List Lexeme} (h : Row text l) {w : List Char}
    (hw : IsTicked w) (hbreaks : Breaks text) : Row (w ++ text) (⟨[], .word w⟩ :: l) :=
  h.cons (x := ⟨[], .word w⟩) (by simp) hw (.inr hbreaks) (by simp)

theorem Row.spacedWord {text : List Char} {l : List Lexeme} (h : Row text l) {w : List Char}
    (hw : IsTicked w) (hbreaks : Breaks text) :
    Row (' ' :: (w ++ text)) (⟨[' '], .word w⟩ :: l) :=
  h.cons (x := ⟨[' '], .word w⟩) (by simp; decide) hw (.inr hbreaks) (by simp)

/-- A dot is not the first of three if a word follows it. -/
theorem Row.dotWord {text : List Char} {l : List Lexeme} (h : Row text l) {w : List Char}
    (hw : IsTicked w) (hbreaks : Breaks text) :
    Row ('.' :: (w ++ text)) (⟨[], .mark .dot⟩ :: ⟨[], .word w⟩ :: l) := by
  refine (h.word hw hbreaks).cons (x := ⟨[], .mark .dot⟩) (by simp) trivial ?_ (by simp)
  obtain ⟨c, cs, rfl, hc⟩ := IsTicked.exists_cons hw
  intro hdots
  have : '.' = c := (List.cons_prefix_cons.1 hdots).1
  subst this
  exact absurd hc (by decide)

theorem spelled_word {w : List Char} (hw : IsTicked w) : Spelled w [⟨[], .word w⟩] := by
  have := row_nil.word hw (by simp)
  rw [List.append_nil] at this
  exact ⟨this, _, _, rfl⟩

theorem Spelled.append {a b : List Char} {la lb : List Lexeme} (ha : Spelled a la) (hb : Row b lb)
    (hbreaks : Breaks b) : Spelled (a ++ b) (la ++ lb) := by
  obtain ⟨token, tail, rfl⟩ := ha.head
  exact ⟨ha.toRow.append hb hbreaks, token, tail ++ lb, rfl⟩

theorem Spelled.ne_nil {text : List Char} {l : List Lexeme} (h : Spelled text l) : l ≠ [] := by
  obtain ⟨token, tail, rfl⟩ := h.head
  simp

theorem Spelled.textOf_eq {text : List Char} {l : List Lexeme} (h : Spelled text l) :
    textOf l = text := by
  rw [← h.chars_eq]
  obtain ⟨token, tail, rfl⟩ := h.head
  simp [textOf, chars]

theorem Spelled.ofChars_eq {text : List Char} {l : List Lexeme} (h : Spelled text l) :
    ofChars text = .ok l := by
  rw [← h.chars_eq]
  exact ofChars_flatMap h.stands

/-- A blank in front of a text goes to the gap of its first lexeme. -/
theorem Spelled.spaced {text : List Char} {l : List Lexeme} (h : Spelled text l) :
    Row (' ' :: text) (regap [' '] l) := by
  refine ⟨?_, h.stands.regap (by simp; decide), ?_⟩
  · rw [flatMap_chars_regap h.ne_nil, h.textOf_eq]
    rfl
  · obtain ⟨token, tail, rfl⟩ := h.head
    have := h.last
    rcases tail with _ | ⟨y, tail⟩
    · simpa using this
    · simpa [List.getLast?_cons_cons] using this

/-! ### Rows with commas -/

/-- Rows of lexemes with commas between them, and a blank behind each comma. -/
def commas : List (List Lexeme) → List Lexeme
  | [] => []
  | [l] => l
  | l :: l' :: ls => l ++ ⟨[], .mark .comma⟩ :: regap [' '] (commas (l' :: ls))

theorem spelled_commas {α : Type} {text : α → String} {row : α → List Lexeme} {as : List α}
    (hne : as ≠ []) (h : ∀ a ∈ as, Spelled (text a).toList (row a)) :
    Spelled (", ".intercalate (as.map text)).toList (commas (as.map row)) := by
  induction as with
  | nil => exact absurd rfl hne
  | cons a as ih =>
    rcases as with _ | ⟨b, as⟩
    · simpa [commas] using h a (by simp)
    · have hrest := ih (by simp) fun c hc => h c (List.mem_cons_of_mem _ hc)
      have hcomma := hrest.spaced.mark (m := .comma) (by simp)
      have := (h a (by simp)).append hcomma breaks_mark
      simpa [commas, String.intercalate_cons_cons, Mark.char] using this

/-! ### Rendered types -/

def lexemesOf (text : List Char) : List Lexeme :=
  match ofChars text with
  | .ok l => l
  | .error _ => []

/-- The lexemes of a rendered type. -/
def lexemes (t : TypeExpr) : List Lexeme := lexemesOf (render t).toList

/-- The lexemes of the rendered type are all of its text. -/
def Legible (t : TypeExpr) : Prop := Spelled (render t).toList t.lexemes

theorem Spelled.lexemesOf_eq {text : List Char} {l : List Lexeme} (h : Spelled text l) :
    lexemesOf text = l := by
  simp [lexemesOf, h.ofChars_eq]

theorem Spelled.lexemes_eq {t : TypeExpr} {l : List Lexeme} (h : Spelled (render t).toList l) :
    t.lexemes = l := h.lexemesOf_eq

theorem Spelled.legible {t : TypeExpr} {l : List Lexeme} (h : Spelled (render t).toList l) :
    t.Legible := by
  rw [Legible, h.lexemes_eq]
  exact h

theorem spelled_array {t : TypeExpr} (h : t.Legible) :
    Spelled (render (.array t)).toList
      (⟨[], .mark .openBracket⟩ :: (t.lexemes ++ [⟨[], .mark .closeBracket⟩])) := by
  have hclose := row_nil.mark (m := .closeBracket) (by simp)
  have := (h.append hclose breaks_mark).toRow.spelled_mark (m := .openBracket) (by simp)
  simpa [render, Mark.char] using this

theorem spelled_dictionary {key value : TypeExpr} (hkey : key.Legible) (hvalue : value.Legible) :
    Spelled (render (.dictionary key value)).toList
      (⟨[], .mark .openBracket⟩ :: (key.lexemes ++ ⟨[], .mark .colon⟩ ::
        (regap [' '] value.lexemes ++ [⟨[], .mark .closeBracket⟩]))) := by
  have hclose := row_nil.mark (m := .closeBracket) (by simp)
  have hright := (hvalue.spaced.append hclose breaks_mark).mark (m := .colon) (by simp)
  have := (hkey.append hright breaks_mark).toRow.spelled_mark (m := .openBracket) (by simp)
  simpa [render, Mark.char] using this

/-- The lexemes of an optional, by the mark behind the wrapped type. -/
def markedLexemes (wrapped : TypeExpr) (mark : Mark) : List Lexeme :=
  if wrapped.needsParentheses then
    ⟨[], .mark .openParen⟩ :: (wrapped.lexemes ++ [⟨[], .mark .closeParen⟩, ⟨[], .mark mark⟩])
  else wrapped.lexemes ++ [⟨[], .mark mark⟩]

theorem spelled_marked {wrapped : TypeExpr} (h : wrapped.Legible) (mark : Mark) (hm : mark ≠ .dot) :
    Spelled (markText wrapped (render wrapped) (String.ofList [mark.char])).toList
      (markedLexemes wrapped mark) := by
  have hmark := row_nil.mark hm
  unfold markText markedLexemes
  split
  · have hclose := hmark.mark (m := .closeParen) (by simp)
    have := (h.append hclose breaks_mark).toRow.spelled_mark (m := .openParen) (by simp)
    simpa [Mark.char] using this
  · simpa using h.append hmark breaks_mark

theorem spelled_optional {wrapped : TypeExpr} (h : wrapped.Legible) :
    Spelled (render (.optional wrapped)).toList (markedLexemes wrapped .question) := by
  rw [render]
  exact spelled_marked h .question (by simp)

theorem spelled_unwrapped {wrapped : TypeExpr} (h : wrapped.Legible) :
    Spelled (render (.unwrapped wrapped)).toList (markedLexemes wrapped .exclamation) := by
  rw [render]
  exact spelled_marked h .exclamation (by simp)

/-- The lexemes between the brackets of a list. -/
theorem row_commas_close {α : Type} {text : α → String} {row : α → List Lexeme} {as : List α}
    (h : ∀ a ∈ as, Spelled (text a).toList (row a)) {rest : List Char} {l : List Lexeme} {m : Mark}
    (hm : m ≠ .dot) (hrest : Row rest l) :
    Row ((", ".intercalate (as.map text)).toList ++ m.char :: rest)
      (commas (as.map row) ++ ⟨[], .mark m⟩ :: l) := by
  rcases as with _ | ⟨a, as⟩
  · simpa [commas] using hrest.mark hm
  · exact ((spelled_commas (by simp) h).append (hrest.mark hm) breaks_mark).toRow

theorem spelled_nominal {name : String} {l : List Lexeme} {ts : List TypeExpr}
    (hname : Spelled name.toList l) (h : ∀ t ∈ ts, t.Legible) (hts : ts ≠ []) :
    Spelled (render (.nominal name ts)).toList
      (l ++ ⟨[], .mark .less⟩ :: (commas (ts.map lexemes) ++ [⟨[], .mark .greater⟩])) := by
  have hlist := row_commas_close (m := .greater) h (by simp) row_nil
  have := hname.append (hlist.mark (m := .less) (by simp)) breaks_mark
  simpa [render, List.isEmpty_iff, hts, renderAll_eq_map, Mark.char] using this

def elementLexemes : Option String × TypeExpr → List Lexeme
  | (none, t) => t.lexemes
  | (some label, t) =>
    if label = "" then t.lexemes
    else ⟨[], .word label.toList⟩ :: ⟨[], .mark .colon⟩ :: regap [' '] t.lexemes

theorem spelled_element {e : Option String × TypeExpr} (h : e.2.Legible)
    (hlabel : ∀ label ∈ e.1, IsPlain label.toList) :
    Spelled (labelText e.1 ++ render e.2).toList (elementLexemes e) := by
  obtain ⟨_ | label, t⟩ := e
  · rw [labelText, String.empty_append]
    exact h
  · have hplain : IsPlain label.toList := hlabel label rfl
    have hne : label ≠ "" := by
      rintro rfl
      exact hplain.ne_nil rfl
    have hcolon := h.spaced.mark (m := .colon) (by simp)
    have := hcolon.word hplain.isTicked breaks_mark
    refine ⟨?_, ?_⟩
    · simpa [labelText, elementLexemes, hne, Mark.char] using this
    · simp [elementLexemes, hne]

theorem spelled_tuple {es : List (Option String × TypeExpr)} (h : ∀ e ∈ es, e.2.Legible)
    (hlabel : ∀ e ∈ es, ∀ label ∈ e.1, IsPlain label.toList) :
    Spelled (render (.tuple es)).toList
      (⟨[], .mark .openParen⟩ :: (commas (es.map elementLexemes) ++
        [⟨[], .mark .closeParen⟩])) := by
  have hlist := row_commas_close (m := .closeParen)
    (fun e he => spelled_element (h e he) (hlabel e he)) (by simp) row_nil
  have := hlist.spelled_mark (m := .openParen) (by simp)
  simpa [render, renderElements_eq_map, Mark.char] using this

def thrownLexemes : Option TypeExpr → List Lexeme
  | none => []
  | some t => ⟨[], .mark .openParen⟩ :: (t.lexemes ++ [⟨[], .mark .closeParen⟩])

def effectLexemes (isAsync throws : Bool) (thrown : Option TypeExpr) : List Lexeme :=
  (if isAsync then [⟨[' '], .word ['a', 's', 'y', 'n', 'c']⟩] else []) ++
    if throws then ⟨[' '], .word ['t', 'h', 'r', 'o', 'w', 's']⟩ :: thrownLexemes thrown else []

section

variable {text : List Char} {l : List Lexeme} (hrest : Row (' ' :: text) l)
include hrest

theorem row_thrown {thrown : Option TypeExpr} (h : ∀ t ∈ thrown, t.Legible) :
    Row ((renderThrown thrown).toList ++ ' ' :: text) (thrownLexemes thrown ++ l) ∧
      Breaks ((renderThrown thrown).toList ++ ' ' :: text) := by
  rcases thrown with _ | t
  · exact ⟨hrest, breaks_space⟩
  · have hclose := hrest.mark (m := .closeParen) (by simp)
    have hinner := ((h t rfl).append hclose breaks_mark).toRow
    have hbreaks : Breaks ('(' :: ((render t).toList ++ ')' :: ' ' :: text)) :=
      breaks_mark (m := .openParen)
    have := hinner.mark (m := .openParen) (by simp)
    refine ⟨?_, ?_⟩
    · simpa [renderThrown, thrownLexemes, Mark.char] using this
    · simpa [renderThrown] using hbreaks

theorem row_throws (throws : Bool) {thrown : Option TypeExpr} (h : ∀ t ∈ thrown, t.Legible) :
    Row ((if throws then " throws" ++ renderThrown thrown else "").toList ++ ' ' :: text)
        ((if throws then ⟨[' '], .word ['t', 'h', 'r', 'o', 'w', 's']⟩ :: thrownLexemes thrown
          else []) ++ l) ∧
      Breaks ((if throws then " throws" ++ renderThrown thrown else "").toList ++ ' ' :: text) := by
  have hword : IsPlain ['t', 'h', 'r', 'o', 'w', 's'] := isPlain_of_all (by decide) (by decide)
  obtain ⟨hthrown, hbreaks⟩ := row_thrown hrest h
  rcases throws with _ | _
  · exact ⟨hrest, breaks_space⟩
  · refine ⟨?_, ?_⟩
    · simpa using hthrown.spacedWord hword.isTicked hbreaks
    · simp
      decide

theorem row_effects (isAsync throws : Bool) {thrown : Option TypeExpr}
    (h : ∀ t ∈ thrown, t.Legible) :
    Row ((if isAsync then " async" else "").toList ++
        ((if throws then " throws" ++ renderThrown thrown else "").toList ++ ' ' :: text))
      (effectLexemes isAsync throws thrown ++ l) := by
  have hword : IsPlain ['a', 's', 'y', 'n', 'c'] := isPlain_of_all (by decide) (by decide)
  obtain ⟨hthrows, hbreaks⟩ := row_throws hrest throws h
  rcases isAsync with _ | _
  · simpa [effectLexemes] using hthrows
  · simpa [effectLexemes] using hthrows.spacedWord hword.isTicked hbreaks

end

theorem spelled_function {ps : List TypeExpr} {result : TypeExpr} {isAsync throws : Bool}
    {thrown : Option TypeExpr} (hps : ∀ t ∈ ps, t.Legible) (hresult : result.Legible)
    (hthrown : ∀ t ∈ thrown, t.Legible) :
    Spelled (render (.function ps result isAsync throws thrown)).toList
      (⟨[], .mark .openParen⟩ :: (commas (ps.map lexemes) ++ ⟨[], .mark .closeParen⟩ ::
        (effectLexemes isAsync throws thrown ++ ⟨[' '], .arrow⟩ ::
          regap [' '] result.lexemes))) := by
  have heffects := row_effects hresult.spaced.arrow isAsync throws hthrown
  have hlist := row_commas_close (m := .closeParen) hps (by simp) heffects
  have := hlist.spelled_mark (m := .openParen) (by simp)
  simpa [render, renderAll_eq_map, Mark.char] using this

theorem Spelled.member {text : List Char} {l : List Lexeme} (h : Spelled text l) {w : List Char}
    (hw : IsTicked w) :
    Spelled (text ++ '.' :: w) (l ++ [⟨[], .mark .dot⟩, ⟨[], .word w⟩]) := by
  have := h.append (row_nil.dotWord hw (by simp)) (breaks_mark (m := .dot))
  simpa using this

end FluentBuilder.TypeExpr
