import FluentBuilder.Proofs.Syntax.Arguments

/-!
# Cutting at commas and joining by commas

A text is cut at the commas that stand in no brackets and in no string, so joining the pieces by
commas gives the text back. The other way round, a row of texts is read back from its join exactly
if each of them is one piece and all but the last end where they started: outside of strings, with
as many brackets closed as opened (`pieces_join_exact`). These rows are the rows of pieces.

Both directions go by the state of the scan at a comma. What is in front of a text does not matter
to the scan but for its depth, and what is behind it only if an arrow could start at its end. So
the pieces of two texts in a row are those of both, with the last piece of the first text and the
first of the second made into one (`piecesFrom_append`), and where a piece ends the scan is as it
was at its start (`exists_level_of_piecesFrom`).
-/

namespace FluentBuilder.Syntax

/-- A text ends outside of strings, with as many brackets closed as opened. -/
def EndsLevel (text : List Char) : Prop :=
  ∃ code ∈ codeFrom false text, nesting (withoutArrows code) = 0

instance : DecidablePred EndsLevel := fun text =>
  inferInstanceAs (Decidable (∃ code ∈ codeFrom false text, _))

/-! ### Pieces put together -/

/-- Two rows of pieces in one, with the last piece of the first row and the first of the second
made into one. -/
def glue : List (List Char) → List (List Char) → List (List Char)
  | [], right => right
  | [piece], right => prepend piece right
  | piece :: next :: more, right => piece :: glue (next :: more) right

theorem glue_cons {left : List (List Char)} (h : left ≠ []) (piece : List Char)
    (right : List (List Char)) : glue (piece :: left) right = piece :: glue left right := by
  obtain ⟨next, more, rfl⟩ := List.exists_cons_of_ne_nil h
  rfl

theorem glue_prepend {left : List (List Char)} (h : left ≠ []) (chars : List Char)
    (right : List (List Char)) :
    glue (prepend chars left) right = prepend chars (glue left right) := by
  match left with
  | [piece] => exact (prepend_prepend chars piece right).symm
  | piece :: next :: more => rfl

theorem glue_nil_cons {left : List (List Char)} (h : left ≠ []) (right : List (List Char)) :
    glue left ([] :: right) = left ++ right := by
  induction left with
  | nil => exact absurd rfl h
  | cons piece more ih =>
    cases more with
    | nil => simp [glue, prepend]
    | cons next more =>
      rw [glue_cons (List.cons_ne_nil next more), ih (List.cons_ne_nil next more)]
      rfl

/-! ### The scan of two texts -/

theorem pieces_ne_nil (text : List Char) : pieces text ≠ [] := piecesFrom_ne_nil 0 false text

/-- The scan goes on behind a text at the depth of its code. -/
theorem piecesFrom_append {inString : Bool} {text code rest : List Char} {depth : Int}
    (hcode : codeFrom inString text = some code) (hrest : rest.head? ≠ some '>') :
    piecesFrom depth inString (text ++ rest) = glue (piecesFrom depth inString text)
      (piecesFrom (depth + nesting (withoutArrows code)) false rest) := by
  -- the cases are the steps of the scan, of which two take two characters
  match inString, text with
  | true, [] => cases hcode
  | false, [] =>
    obtain rfl := Option.some.inj hcode
    simp [piecesFrom, glue, withoutArrows, nesting,
      prepend_nil (piecesFrom_ne_nil depth false rest)]
  | true, c :: text =>
    by_cases hescape : c = '\\'
    · subst hescape
      cases text with
      | nil => cases hcode
      | cons d text =>
        have ih : piecesFrom depth true (text ++ rest) = _ := piecesFrom_append hcode hrest
        rw [List.cons_append, List.cons_append, piecesFrom, piecesFrom, ih,
          glue_prepend (piecesFrom_ne_nil _ _ _)]
    rw [codeFrom_inString hescape] at hcode
    rw [List.cons_append, piecesFrom_inString hescape, piecesFrom_inString hescape,
      glue_prepend (piecesFrom_ne_nil _ _ _)]
    by_cases hquote : c = '"'
    · subst hquote
      obtain ⟨after, hafter, rfl⟩ := Option.map_eq_some_iff.mp hcode
      have ih : piecesFrom depth false (text ++ rest) = _ := piecesFrom_append hafter hrest
      have hlevel : nesting (withoutArrows ('"' :: after)) = nesting (withoutArrows after) := by
        rw [withoutArrows_cons (by simp), nesting_cons]
        simp [nesting, isOpening, isClosing]
      rw [bne_self_eq_false, ih, hlevel]
    · rw [if_neg (by simpa using hquote)] at hcode
      rw [bne_iff_ne.mpr hquote, piecesFrom_append hcode hrest]
  | false, c :: text =>
    obtain ⟨after, hafter, rfl⟩ := Option.map_eq_some_iff.mp hcode
    by_cases harrow : c = '-' ∧ text.head? = some '>'
    · obtain ⟨rfl, hhead⟩ := harrow
      obtain ⟨text, rfl⟩ := List.head?_eq_some_iff.mp hhead
      obtain ⟨behind, hbehind, rfl⟩ := Option.map_eq_some_iff.mp hafter
      have ih : piecesFrom depth false (text ++ rest) = _ := piecesFrom_append hbehind hrest
      rw [List.cons_append, List.cons_append, piecesFrom, piecesFrom, ih,
        glue_prepend (piecesFrom_ne_nil _ _ _), withoutArrows]
    obtain ⟨hcodeArrow, htextArrow⟩ := notArrow_append hafter harrow hrest
    rw [withoutArrows_cons hcodeArrow, nesting_cons c (withoutArrows after), ← Int.add_assoc,
      List.cons_append]
    by_cases hcomma : c = ',' ∧ depth = 0
    · obtain ⟨rfl, rfl⟩ := hcomma
      have ih : piecesFrom 0 false (text ++ rest) = _ := piecesFrom_append hafter hrest
      rw [piecesFrom_zero_comma, piecesFrom_zero_comma, glue_cons (piecesFrom_ne_nil _ _ _), ih]
      rfl
    · have hinside : c = ',' → depth ≠ 0 := fun hc hdepth => hcomma ⟨hc, hdepth⟩
      have hown : c = '-' → text.head? ≠ some '>' := fun hc hhead => harrow ⟨hc, hhead⟩
      rw [piecesFrom_cons htextArrow hinside, piecesFrom_cons hown hinside,
        piecesFrom_append hafter hrest, glue_prepend (piecesFrom_ne_nil _ _ _)]
termination_by text.length

/-! ### Where a piece ends -/

theorem exists_of_prepend_eq_cons {chars piece : List Char} {pieces more : List (List Char)}
    (hne : pieces ≠ []) (h : prepend chars pieces = piece :: more) :
    ∃ front, pieces = front :: more ∧ piece = chars ++ front := by
  obtain ⟨front, others, rfl⟩ := List.exists_cons_of_ne_nil hne
  obtain ⟨rfl, rfl⟩ := List.cons.inj h
  exact ⟨front, rfl, rfl⟩

theorem head?_of_piecesFrom {depth : Int} {inString : Bool} {text piece : List Char}
    {more : List (List Char)} {c : Char} (h : piecesFrom depth inString text = piece :: more)
    (hhead : piece.head? = some c) : text.head? = some c := by
  obtain ⟨piece, rfl⟩ := List.head?_eq_some_iff.mp hhead
  rw [← intercalate_piecesFrom depth inString text, h]
  cases more with
  | nil => simp
  | cons next more => simp

/-- Where another piece follows, a piece ends outside of strings and of all brackets. -/
theorem exists_level_of_piecesFrom {depth : Int} {inString : Bool} {text piece : List Char}
    {more : List (List Char)} (h : piecesFrom depth inString text = piece :: more)
    (hmore : more ≠ []) :
    ∃ code ∈ codeFrom inString piece, depth + nesting (withoutArrows code) = 0 := by
  match inString, text with
  | inString, [] =>
    rw [piecesFrom] at h
    exact absurd (List.cons.inj h).2.symm hmore
  | true, c :: text =>
    by_cases hescape : c = '\\'
    · subst hescape
      cases text with
      | nil => exact absurd (List.cons.inj h).2.symm hmore
      | cons d text =>
        rw [piecesFrom] at h
        obtain ⟨front, hfront, rfl⟩ := exists_of_prepend_eq_cons (piecesFrom_ne_nil _ _ _) h
        obtain ⟨code, hcode, hlevel⟩ := exists_level_of_piecesFrom hfront hmore
        exact ⟨code, hcode, hlevel⟩
    rw [piecesFrom_inString hescape] at h
    obtain ⟨front, hfront, rfl⟩ := exists_of_prepend_eq_cons (piecesFrom_ne_nil _ _ _) h
    obtain ⟨code, hcode, hlevel⟩ := exists_level_of_piecesFrom hfront hmore
    rw [List.singleton_append, codeFrom_inString hescape]
    by_cases hquote : c = '"'
    · subst hquote
      refine ⟨'"' :: code, ?_, ?_⟩
      · simpa using hcode
      · rw [withoutArrows_cons (by simp), nesting_cons]
        simpa [nesting, isOpening, isClosing] using hlevel
    · rw [bne_iff_ne.mpr hquote] at hcode
      exact ⟨code, by simpa [hquote] using hcode, hlevel⟩
  | false, c :: text =>
    by_cases harrow : c = '-' ∧ text.head? = some '>'
    · obtain ⟨rfl, hhead⟩ := harrow
      obtain ⟨text, rfl⟩ := List.head?_eq_some_iff.mp hhead
      rw [piecesFrom] at h
      obtain ⟨front, hfront, rfl⟩ := exists_of_prepend_eq_cons (piecesFrom_ne_nil _ _ _) h
      obtain ⟨code, hcode, hlevel⟩ := exists_level_of_piecesFrom hfront hmore
      exact ⟨'-' :: '>' :: code, by simpa [codeFrom] using hcode, hlevel⟩
    by_cases hcomma : c = ',' ∧ depth = 0
    · obtain ⟨rfl, rfl⟩ := hcomma
      rw [piecesFrom_zero_comma] at h
      obtain ⟨rfl, -⟩ := List.cons.inj h
      exact ⟨[], rfl, rfl⟩
    have hinside : c = ',' → depth ≠ 0 := fun hc hdepth => hcomma ⟨hc, hdepth⟩
    rw [piecesFrom_cons (fun hc hhead => harrow ⟨hc, hhead⟩) hinside] at h
    obtain ⟨front, hfront, rfl⟩ := exists_of_prepend_eq_cons (piecesFrom_ne_nil _ _ _) h
    obtain ⟨code, hcode, hlevel⟩ := exists_level_of_piecesFrom hfront hmore
    refine ⟨c :: code, by simpa [codeFrom] using hcode, ?_⟩
    -- an arrow at the start of the code would be one of the text
    have hown : c = '-' → code.head? ≠ some '>' := by
      rintro rfl hhead
      rw [codeFrom_head? hcode] at hhead
      exact harrow ⟨rfl, head?_of_piecesFrom hfront hhead⟩
    rw [withoutArrows_cons hown, nesting_cons, ← Int.add_assoc, hlevel]
termination_by text.length

/-! ### Rows of pieces -/

/-- A text is one piece, or its first piece ends at a comma where the scan is as at its start. -/
theorem pieces_cases (text : List Char) :
    pieces text = [text] ∨ ∃ piece rest, text = piece ++ ',' :: rest ∧
      pieces text = piece :: pieces rest ∧ pieces piece = [piece] ∧ EndsLevel piece := by
  have hjoin : List.intercalate [','] (pieces text) = text := intercalate_piecesFrom 0 false text
  obtain ⟨piece, more, hpieces⟩ := List.exists_cons_of_ne_nil (pieces_ne_nil text)
  cases more with
  | nil =>
    rw [hpieces, List.intercalate_singleton] at hjoin
    exact .inl (hpieces.trans (by rw [hjoin]))
  | cons next more =>
    right
    obtain ⟨code, hcode, hlevel⟩ :=
      exists_level_of_piecesFrom hpieces (List.cons_ne_nil next more)
    have htext : text = piece ++ ',' :: List.intercalate [','] (next :: more) := by
      rw [← hjoin, hpieces, List.intercalate_cons_cons, List.append_assoc, List.singleton_append]
    have hglue : pieces text = pieces piece ++ pieces (List.intercalate [','] (next :: more)) := by
      rw [htext, pieces, piecesFrom_append hcode (by simp), hlevel, piecesFrom_zero_comma,
        glue_nil_cons (piecesFrom_ne_nil _ _ _)]
      rfl
    -- the text in front of the comma is no more than one piece, or its join would be longer
    have hone : pieces piece = [piece] := by
      obtain ⟨first, others, hfirst⟩ := List.exists_cons_of_ne_nil (pieces_ne_nil piece)
      have hback : List.intercalate [','] (pieces piece) = piece :=
        intercalate_piecesFrom 0 false piece
      have hsame : first = piece := by
        have hheads := congrArg List.head? hglue
        rw [hpieces, hfirst] at hheads
        simpa using hheads.symm
      subst hsame
      cases others with
      | nil => exact hfirst
      | cons second others =>
        rw [hfirst, List.intercalate_cons_cons] at hback
        have hlength := congrArg List.length hback
        simp at hlength
    refine ⟨piece, _, htext, ?_, hone, code, hcode, by simpa using hlevel⟩
    rw [hglue, hone, List.singleton_append]

theorem pieces_append_comma {piece : List Char} (hpiece : pieces piece = [piece])
    (hlevel : EndsLevel piece) (rest : List Char) :
    pieces (piece ++ ',' :: rest) = piece :: pieces rest := by
  obtain ⟨code, hcode, hlevel⟩ := hlevel
  have hone : piecesFrom 0 false piece = [piece] := hpiece
  rw [pieces, piecesFrom_append hcode (by simp), hlevel, Int.zero_add, piecesFrom_zero_comma,
    glue_nil_cons (piecesFrom_ne_nil _ _ _), hone]
  rfl

/-- Every piece of a text is one piece, and all but the last end where they started. -/
theorem forall_pieces (text : List Char) :
    (∀ piece ∈ pieces text, pieces piece = [piece]) ∧
      ∀ piece ∈ (pieces text).dropLast, EndsLevel piece := by
  induction hlength : text.length using Nat.strong_induction_on generalizing text with
  | _ size ih =>
    rcases pieces_cases text with hone | ⟨piece, rest, htext, hpieces, hpiece, hlevel⟩
    · rw [hone]
      simpa using hone
    · have hlt : rest.length < size := by
        rw [← hlength, htext, List.length_append, List.length_cons]
        omega
      obtain ⟨hrest, hends⟩ := ih _ hlt rest rfl
      rw [hpieces, List.dropLast_cons_of_ne_nil (pieces_ne_nil rest)]
      exact ⟨List.forall_mem_cons.mpr ⟨hpiece, hrest⟩, List.forall_mem_cons.mpr ⟨hlevel, hends⟩⟩

/-- A row of texts that are one piece each is read back from its join, if all but the last end
where they started. -/
theorem pieces_intercalate {row : List (List Char)} (hne : row ≠ [])
    (hpieces : ∀ piece ∈ row, pieces piece = [piece])
    (hlevel : ∀ piece ∈ row.dropLast, EndsLevel piece) :
    pieces (List.intercalate [','] row) = row := by
  induction row with
  | nil => exact absurd rfl hne
  | cons piece row ih =>
    obtain ⟨hpiece, hrow⟩ := List.forall_mem_cons.mp hpieces
    cases row with
    | nil => simpa using hpiece
    | cons next more =>
      rw [List.dropLast_cons_of_ne_nil (List.cons_ne_nil next more), List.forall_mem_cons] at hlevel
      rw [List.intercalate_cons_cons, List.append_assoc, List.singleton_append,
        pieces_append_comma hpiece hlevel.1, ih (List.cons_ne_nil next more) hrow hlevel.2]

/-- **Cutting at commas and joining by commas are inverse.** The pieces of a text joined by commas
are the text, and each of them is one piece. The rows of texts that are read back from their joins
are those that are not empty, hold texts of one piece only, and of these all but the last end
outside of strings and of all brackets; the last one may end in a string or in brackets. -/
theorem pieces_join_exact :
    (∀ text, List.intercalate [','] (pieces text) = text ∧
      ∀ piece ∈ pieces text, pieces piece = [piece]) ∧
    ∀ row : List (List Char), pieces (List.intercalate [','] row) = row ↔
      row ≠ [] ∧ (∀ piece ∈ row, pieces piece = [piece]) ∧
        ∀ piece ∈ row.dropLast, EndsLevel piece := by
  refine ⟨fun text => ⟨intercalate_piecesFrom 0 false text, (forall_pieces text).1⟩, fun row => ?_⟩
  constructor
  · intro hrow
    obtain ⟨hpieces, hlevel⟩ := forall_pieces (List.intercalate [','] row)
    rw [hrow] at hpieces hlevel
    exact ⟨fun hnil => pieces_ne_nil _ (hrow.trans hnil), hpieces, hlevel⟩
  · rintro ⟨hne, hpieces, hlevel⟩
    exact pieces_intercalate hne hpieces hlevel

/-- Arguments with commas in brackets, in a string and behind an arrow, of which the last one breaks
off in a string. -/
def brokenArguments : List (List Char) :=
  ["default: \x7b (a, b) -> Int in a \x7d", " \"x,\\\"[\"", " f(1, [2, 3])", " \"open, ("].map
    String.toList

theorem pieces_join_exact_brokenArguments :
    (brokenArguments ≠ [] ∧ (∀ piece ∈ brokenArguments, pieces piece = [piece]) ∧
      ∀ piece ∈ brokenArguments.dropLast, EndsLevel piece) ∧
    pieces (List.intercalate [','] brokenArguments) = brokenArguments ∧
    " f(1, [2, 3])".toList ∈ pieces (List.intercalate [','] brokenArguments) ∧
    pieces " f(1, [2, 3])".toList = [" f(1, [2, 3])".toList] := by
  have hpieces : brokenArguments ≠ [] ∧ (∀ piece ∈ brokenArguments, pieces piece = [piece]) ∧
      ∀ piece ∈ brokenArguments.dropLast, EndsLevel piece := by decide +kernel
  have hrow := (pieces_join_exact.2 brokenArguments).mpr hpieces
  have hmem : " f(1, [2, 3])".toList ∈ pieces (List.intercalate [','] brokenArguments) := by
    rw [hrow]
    decide
  exact ⟨hpieces, hrow, hmem, (pieces_join_exact.1 _).2 _ hmem⟩

/-- A piece that does not end where it started takes in what follows the comma. -/
example : pieces (List.intercalate [','] ["f(1".toList, "2".toList]) = ["f(1,2".toList] := by
  decide +kernel

end FluentBuilder.Syntax
