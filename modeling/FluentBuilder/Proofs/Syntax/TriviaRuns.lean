import FluentBuilder.Proofs.Syntax.GroupEnds

/-!
# How far trivia go

Trivia are skipped as far as they go. `skipTriviaAt_exact`: from every place of a text the skipping
comes to a place behind it, the last one up to which there is nothing but blanks and whole comments.
There the text ends, or something starts that is neither, so that skipping once more stays there.

A comment is whole with what closes it, or where the text ends without that. So a text starts with
code, or with trivia that end by themselves, or it is one comment that is left open
(`isCode_or_trivia`). The run of trivia is made of these steps, by induction on the length of the
text (`exists_run_skipTrivia`).
-/

namespace FluentBuilder.Syntax

open Text

/-! ### What trivia are -/

/-- A comment that nothing closes: it goes on to the end of the text. -/
inductive OpenComment : List Char → Prop where
  | line {text : List Char} : '\n' ∉ text → OpenComment ('/' :: '/' :: text)
  | block {text : List Char} : ¬['*', '/'] <:+: text → OpenComment ('/' :: '*' :: text)

/-- A text has ended, or it starts neither with a blank nor with what opens a comment. -/
def IsCode (text : List Char) : Prop :=
  text = [] ∨
    (∀ c ∈ text.head?, isBlank c = false) ∧ ¬['/', '/'] <+: text ∧ ¬['/', '*'] <+: text

/-- There are only trivia from one place of a text up to another: blanks and closed comments, and
behind them, where the text ends, perhaps a comment that is left open. -/
structure TriviaUpTo (text : List Char) (start stop : Nat) : Prop where
  le : start ≤ stop
  le_length : stop ≤ text.length
  trivia : ∃ gap comment, between text start stop = gap ++ comment ∧ Gap gap ∧
    (comment = [] ∨ OpenComment comment ∧ stop = text.length)

theorem Gap.append {a b : List Char} (ha : Gap a) (hb : Gap b) : Gap (a ++ b) := by
  induction ha with
  | nil => exact hb
  | blank hc _ ih => exact .blank hc ih
  | @lineComment text rest htext _ ih =>
    have h := Gap.lineComment htext ih
    simpa using h
  | @blockComment text rest htext _ ih =>
    have h := Gap.blockComment htext ih
    simpa using h

theorem OpenComment.skipTrivia_eq {text : List Char} (h : OpenComment text) :
    skipTrivia text = [] := by
  cases h with
  | @line text htext =>
    have hend := skipFrom_lineComment_append htext []
    rw [List.append_nil] at hend
    exact hend
  | @block text htext =>
    have hend := @skipFrom_blockComment_append text htext [] (by simp)
    rw [List.append_nil] at hend
    exact hend

/-! ### Runs of trivia -/

/-- Where a text has a piece, there is a first place of it. -/
theorem exists_first_of_infix {piece text : List Char} (hne : piece ≠ []) (h : piece <:+: text) :
    ∃ front rest, text = front ++ piece ++ rest ∧ ¬piece <:+: front := by
  induction text with
  | nil => exact absurd (List.infix_nil.mp h) hne
  | cons c text ih =>
    by_cases hstart : piece <+: c :: text
    · obtain ⟨rest, hrest⟩ := hstart
      exact ⟨[], rest, hrest.symm, fun hnil => hne (List.infix_nil.mp hnil)⟩
    · obtain ⟨front, rest, rfl, hfront⟩ := ih ((List.infix_cons_iff.mp h).resolve_left hstart)
      refine ⟨c :: front, rest, rfl, fun hinside => ?_⟩
      rcases List.infix_cons_iff.mp hinside with hfirst | hlater
      · rw [List.append_assoc] at hstart
        exact hstart (hfirst.trans (List.prefix_append (c :: front) (piece ++ rest)))
      · exact hfront hlater

/-- A text starts with code, with trivia that end by themselves, or it is a comment that is left
open. -/
theorem isCode_or_trivia (text : List Char) :
    IsCode text ∨ OpenComment text ∨ ∃ gap rest, gap ≠ [] ∧ Gap gap ∧ text = gap ++ rest := by
  by_cases hline : ['/', '/'] <+: text
  · obtain ⟨text, rfl⟩ := hline
    by_cases hfeed : '\n' ∈ text
    · obtain ⟨body, rest, rfl, hbody⟩ := List.eq_append_cons_of_mem hfeed
      exact .inr (.inr ⟨_, rest, List.cons_ne_nil _ _, .lineComment hbody .nil, by simp⟩)
    · exact .inr (.inl (.line hfeed))
  · by_cases hblock : ['/', '*'] <+: text
    · obtain ⟨text, rfl⟩ := hblock
      by_cases hclose : ['*', '/'] <:+: text
      · obtain ⟨body, rest, rfl, hbody⟩ := exists_first_of_infix (List.cons_ne_nil _ _) hclose
        exact .inr (.inr ⟨_, rest, List.cons_ne_nil _ _, .blockComment hbody .nil, by simp⟩)
      · exact .inr (.inl (.block hclose))
    · by_cases hblank : ∀ c ∈ text.head?, isBlank c = false
      · exact .inl (.inr ⟨hblank, hline, hblock⟩)
      · push Not at hblank
        obtain ⟨c, hfirst, hblank⟩ := hblank
        obtain ⟨rest, rfl⟩ := List.head?_eq_some_iff.mp hfirst
        have hc : isBlank c = true := by simpa using hblank
        exact .inr (.inr ⟨[c], rest, List.cons_ne_nil _ _, .blank hc .nil, rfl⟩)

theorem IsCode.skipTrivia_eq {text : List Char} (h : IsCode text) : skipTrivia text = text := by
  rcases h with rfl | ⟨hblank, hline, hblock⟩
  · rfl
  · cases text with
    | nil => rfl
    | cons c rest =>
      rw [← startsWithMark_eq_false_iff] at hline hblock
      simp [skipTrivia, skipFrom, hline, hblock, hblank c rfl]

theorem exists_run_skipTrivia (text : List Char) :
    IsCode (skipTrivia text) ∧ ∃ gap comment, text = gap ++ comment ++ skipTrivia text ∧ Gap gap ∧
      (comment = [] ∨ OpenComment comment ∧ skipTrivia text = []) := by
  induction hlength : text.length using Nat.strong_induction_on generalizing text with
  | _ length ih =>
    rcases isCode_or_trivia text with hcode | hopen | ⟨front, rest, hne, hfront, rfl⟩
    · rw [hcode.skipTrivia_eq]
      exact ⟨hcode, [], [], rfl, .nil, .inl rfl⟩
    · rw [hopen.skipTrivia_eq]
      exact ⟨.inl rfl, [], text, by simp, .nil, .inr ⟨hopen, rfl⟩⟩
    · -- a step of trivia takes something away, so the rest is shorter
      have hshort : rest.length < length := by
        have hpos := List.length_pos_iff.mpr hne
        rw [List.length_append] at hlength
        omega
      obtain ⟨hcode, gap, comment, hrest, hgap, hcomment⟩ := ih rest.length hshort rest rfl
      rw [hfront.skipTrivia_append]
      refine ⟨hcode, front ++ gap, comment, ?_, hfront.append hgap, hcomment⟩
      simpa using hrest

/-! ### Places in a text -/

variable {text : List Char} {place : Nat}

theorem skipTriviaAt_natCast (text : List Char) (place : Nat) :
    skipTriviaAt text place = .ok (placeAfterTrivia text place) := by
  rw [skipTriviaAt, if_pos (by omega), Int.toNat_natCast]

/-- The place behind trivia counts from the end of the text what they leave. -/
theorem placeAfterTrivia_add_length (h : place ≤ text.length) :
    placeAfterTrivia text place + (skipTrivia (text.drop place)).length = text.length := by
  have hle := skipTrivia_length_le (text.drop place)
  have hrest := List.length_drop (i := place) (l := text)
  simp only [placeAfterTrivia]
  omega

theorem drop_placeAfterTrivia (h : place ≤ text.length) :
    text.drop (placeAfterTrivia text place) = skipTrivia (text.drop place) := by
  have hsuffix := (skipFrom_suffix .code (text.drop place)).trans (List.drop_suffix place text)
  have hplace := placeAfterTrivia_add_length h
  refine ((List.suffix_iff_eq_drop.mp hsuffix).trans ?_).symm
  congr 1
  rw [skipTrivia] at hplace
  omega

/-- What stands from a place of a text up to another, with what stands behind it. -/
theorem between_append_drop {start stop : Nat} (h : start ≤ stop) (text : List Char) :
    between text start stop ++ text.drop stop = text.drop start := by
  rw [between_natCast, List.drop_take, ← Nat.add_sub_cancel' h, ← List.drop_drop]
  simp

/-- Trivia go on at least up to any place up to which there are only trivia. -/
theorem TriviaUpTo.le_placeAfterTrivia {stop : Nat} (h : TriviaUpTo text place stop) :
    stop ≤ placeAfterTrivia text place := by
  obtain ⟨gap, comment, hbetween, hgap, hcomment⟩ := h.trivia
  have hplace := placeAfterTrivia_add_length (h.le.trans h.le_length)
  rw [← between_append_drop h.le, hbetween, List.append_assoc, hgap.skipTrivia_append] at hplace
  rcases hcomment with rfl | ⟨hopen, hstop⟩
  · have hrest := skipTrivia_length_le (text.drop stop)
    have hle := h.le_length
    rw [List.length_drop] at hrest
    rw [List.nil_append] at hplace
    omega
  · rw [hstop, List.drop_length, List.append_nil, hopen.skipTrivia_eq, List.length_nil] at hplace
    omega

/-- There are only trivia up to the place that the skipping comes to. -/
theorem triviaUpTo_placeAfterTrivia (h : place ≤ text.length) :
    TriviaUpTo text place (placeAfterTrivia text place) := by
  have hlength := placeAfterTrivia_add_length h
  have hle : place ≤ placeAfterTrivia text place := Nat.le_add_right _ _
  refine ⟨hle, by omega, ?_⟩
  obtain ⟨-, gap, comment, htext, hgap, hcomment⟩ := exists_run_skipTrivia (text.drop place)
  refine ⟨gap, comment, ?_, hgap, hcomment.imp_right fun ⟨hopen, hnil⟩ => ⟨hopen, ?_⟩⟩
  · have hrun := (between_append_drop hle text).trans htext
    rw [drop_placeAfterTrivia h] at hrun
    exact List.append_cancel_right hrun
  · rw [hnil, List.length_nil] at hlength
    omega

/-- **Trivia are skipped as far as they go.** From a place of a text the skipping comes to the last
place up to which there are only blanks, closed comments and, where the text ends, perhaps a comment
that is left open. What is read behind trivia is what stands there: the text ends, or neither a blank
nor a comment starts. Skipping from there stays there. -/
theorem skipTriviaAt_exact {text : List Char} {place : Nat} (h : place ≤ text.length) :
    ∃ stop : Nat, skipTriviaAt text place = .ok stop ∧
      IsGreatest {stop | TriviaUpTo text place stop} stop ∧
      skipTrivia (text.drop place) = text.drop stop ∧ IsCode (text.drop stop) ∧
      skipTriviaAt text stop = .ok stop := by
  have hdrop := drop_placeAfterTrivia h
  refine ⟨placeAfterTrivia text place, skipTriviaAt_natCast text place,
    ⟨triviaUpTo_placeAfterTrivia h, fun stop hstop => hstop.le_placeAfterTrivia⟩, hdrop.symm, ?_, ?_⟩
  · rw [hdrop]
    exact (exists_run_skipTrivia (text.drop place)).1
  · have hagain := skipTrivia_skipTrivia (text.drop place)
    rw [← hdrop] at hagain
    rw [skipTriviaAt_natCast, placeAfterTrivia, hagain, Nat.sub_self, Nat.add_zero]

/-- Code between trivia of all kinds, the last of which is a comment that is left open. -/
def mixedTrivia : List Char := "a /* **/// b\n\tc /*/ d".toList

theorem skipTriviaAt_exact_mixed :
    (1 ≤ mixedTrivia.length ∧ skipTriviaAt mixedTrivia 1 = .ok 14 ∧
      IsGreatest {stop | TriviaUpTo mixedTrivia 1 stop} 14 ∧ IsCode (mixedTrivia.drop 14)) ∧
    15 ≤ mixedTrivia.length ∧ skipTriviaAt mixedTrivia 15 = .ok 21 ∧
      IsGreatest {stop | TriviaUpTo mixedTrivia 15 stop} 21 ∧ mixedTrivia.drop 21 = [] := by
  have hfront : 1 ≤ mixedTrivia.length := by decide
  have hback : 15 ≤ mixedTrivia.length := by decide
  have hcode : skipTriviaAt mixedTrivia 1 = .ok 14 := by decide
  have hend : skipTriviaAt mixedTrivia 15 = .ok 21 := by decide
  obtain ⟨stop, hstop, hgreatest, -, hiscode, -⟩ := skipTriviaAt_exact hfront
  obtain rfl : stop = 14 := by exact_mod_cast Except.ok.inj (hstop.symm.trans hcode)
  obtain ⟨stop, hstop, hlast, -⟩ := skipTriviaAt_exact hback
  obtain rfl : stop = 21 := by exact_mod_cast Except.ok.inj (hstop.symm.trans hend)
  exact ⟨⟨hfront, hcode, hgreatest, hiscode⟩, hback, hend, hlast, by decide⟩

end FluentBuilder.Syntax
