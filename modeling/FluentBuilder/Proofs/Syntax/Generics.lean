import FluentBuilder.Proofs.Syntax.Annotations
import FluentBuilder.Proofs.Syntax.Arguments

/-!
# Which generic parameters are read

A clause of generic parameters is read by two scans that disagree about arrows. The first looks for
the angle bracket that closes the clause and takes the one in an arrow for a bracket; the second
cuts what lies before it at commas, and passes arrows. `genericParameters_clauseText` says what
comes of it, for every clause with canonical constraints and whatever follows it: the parameters are
read up to the first one with an arrow in its constraint.

A constraint is `Nested`, so its angle brackets are even but for its arrows
(`Nested.count_greater`). Without an arrow the first scan passes it as a whole
(`Nested.groupLengthFrom_append`). With one it runs out of open brackets inside of it
(`exists_groupLengthFrom`), wherever the arrow stands; and the second scan finds no comma in front
of that place, since commas stand in brackets that are still open there (`Nested.piecesFrom_front`).
-/

namespace FluentBuilder.Syntax

open Text TypeExpr

/-! ### Nested texts in front of the scans -/

theorem Nested.notMem_quote {commas : Bool} {text : List Char} (h : Nested commas text) :
    '"' ∉ text := by
  induction h with
  | nil => simp
  | char hc _ ih =>
    rintro (_ | ⟨_, hmem⟩)
    · exact hc (by decide)
    · exact ih hmem
  | comma _ ih => simpa using ih
  | arrow _ ih => simpa using ih
  | group hpair _ _ ihinner ih =>
    rcases cases_of_mem_typeBrackets hpair with ⟨rfl, rfl⟩ | ⟨rfl, rfl⟩ | ⟨rfl, rfl⟩ <;>
      simp [ihinner, ih]

/-- A dash stands in a nested text only as the first half of an arrow. -/
theorem Nested.mem_dash_iff {commas : Bool} {text : List Char} (h : Nested commas text) :
    '-' ∈ text ↔ ['-', '>'] <:+: text := by
  refine ⟨fun hmem => ?_, fun harrow => harrow.subset List.mem_cons_self⟩
  induction h with
  | nil => cases hmem
  | char hc _ ih =>
    rcases List.mem_cons.mp hmem with rfl | hmem
    · exact absurd (by decide) hc
    · exact (ih hmem).trans (List.suffix_cons _ _).isInfix
  | comma _ ih => exact (ih (by simpa using hmem)).trans (List.suffix_cons _ _).isInfix
  | @arrow _ rest => exact ⟨[], rest, rfl⟩
  | @group _ opening closing inner rest hpair _ _ ihinner ih =>
    have hne : '-' ≠ opening ∧ '-' ≠ closing := by
      rcases cases_of_mem_typeBrackets hpair with ⟨rfl, rfl⟩ | ⟨rfl, rfl⟩ | ⟨rfl, rfl⟩ <;> decide
    simp only [List.mem_cons, List.mem_append, hne, false_or] at hmem
    rcases hmem with hmem | hmem
    · exact (ihinner hmem).trans ⟨[opening], closing :: rest, by simp⟩
    · exact (ih hmem).trans ⟨opening :: (inner ++ [closing]), [], by simp⟩

/-- The angle brackets of a nested text are even but for its arrows. -/
theorem Nested.count_greater {commas : Bool} {text : List Char} (h : Nested commas text) :
    text.count '>' = text.count '<' + text.count '-' := by
  induction h with
  | nil => rfl
  | char hc _ ih =>
    simp only [scanned, List.mem_cons, List.not_mem_nil, or_false, not_or] at hc
    simp [hc, ih]
  | comma _ ih => simpa using ih
  | arrow _ ih =>
    simp only [List.count_cons, ih, beq_iff_eq, Char.reduceEq, if_true, if_false]
    omega
  | group hpair _ _ ihinner ih =>
    rcases cases_of_mem_typeBrackets hpair with ⟨rfl, rfl⟩ | ⟨rfl, rfl⟩ | ⟨rfl, rfl⟩ <;>
      simp only [List.count_cons, List.count_append, ihinner, ih, beq_iff_eq, Char.reduceEq,
        if_true, if_false] <;>
      omega

/-! ### The scan for the closing angle bracket -/

theorem groupLengthFrom_less (depth : Int) (rest : List Char) :
    groupLengthFrom '<' '>' depth false ('<' :: rest) =
      (groupLengthFrom '<' '>' (depth + 1) false rest).map (· + 1) := by
  simp [groupLengthFrom]

theorem groupLengthFrom_greater {depth : Int} (h : depth ≠ 1) (rest : List Char) :
    groupLengthFrom '<' '>' depth false ('>' :: rest) =
      (groupLengthFrom '<' '>' (depth - 1) false rest).map (· + 1) := by
  have hopen : depth - 1 ≠ 0 := by omega
  simp [groupLengthFrom, hopen]

theorem groupLengthFrom_other {depth : Int} {c : Char} (hquote : c ≠ '"') (hless : c ≠ '<')
    (hgreater : c ≠ '>') (rest : List Char) :
    groupLengthFrom '<' '>' depth false (c :: rest) =
      (groupLengthFrom '<' '>' depth false rest).map (· + 1) := by
  simp [groupLengthFrom, hquote, hless, hgreater]

/-- A nested text without arrows is passed as a whole. -/
theorem Nested.groupLengthFrom_append {commas : Bool} {text : List Char} (h : Nested commas text)
    (hdash : '-' ∉ text) {depth : Int} (hdepth : 0 < depth) (rest : List Char) :
    groupLengthFrom '<' '>' depth false (text ++ rest) =
      (groupLengthFrom '<' '>' depth false rest).map (· + text.length) := by
  induction h generalizing depth rest with
  | nil => simp
  | char hc _ ih =>
    simp only [scanned, List.mem_cons, List.not_mem_nil, or_false, not_or] at hc
    rw [List.cons_append, groupLengthFrom_other (by simp [hc]) (by simp [hc]) (by simp [hc]),
      ih (List.not_mem_of_not_mem_cons hdash) hdepth]
    simp [Function.comp_def, Nat.add_assoc]
  | comma _ ih =>
    rw [List.cons_append, groupLengthFrom_other (by decide) (by decide) (by decide),
      ih (List.not_mem_of_not_mem_cons hdash) hdepth]
    simp [Function.comp_def, Nat.add_assoc]
  | arrow => exact absurd List.mem_cons_self hdash
  | @group _ opening closing inner back hpair _ _ ihinner ih =>
    simp only [List.mem_cons, List.mem_append, not_or] at hdash
    have hback := ih hdash.2.2.2 hdepth rest
    have hinner {level : Int} (hlevel : 0 < level) (behind : List Char) :=
      ihinner hdash.2.1 hlevel behind
    rcases cases_of_mem_typeBrackets hpair with ⟨rfl, rfl⟩ | ⟨rfl, rfl⟩ | ⟨rfl, rfl⟩
    · rw [List.cons_append, groupLengthFrom_less, List.append_assoc, hinner (by omega),
        List.cons_append, groupLengthFrom_greater (by omega), Int.add_sub_cancel, hback]
      simp only [Option.map_map, Function.comp_def, List.length_cons, List.length_append]
      congr 1
      funext length
      omega
    all_goals
      rw [List.cons_append, groupLengthFrom_other (by decide) (by decide) (by decide),
        List.append_assoc, hinner hdepth, List.cons_append,
        groupLengthFrom_other (by decide) (by decide) (by decide), hback]
      simp only [Option.map_map, Function.comp_def, List.length_cons, List.length_append]
      congr 1
      funext length
      omega

/-- Where at least as many angle brackets are closed as are open, the scan stops. -/
theorem exists_groupLengthFrom {text : List Char} {depth : Int} (hquote : '"' ∉ text)
    (hdepth : 0 < depth) (hcount : depth + text.count '<' ≤ text.count '>') :
    ∃ front back, text = front ++ '>' :: back ∧ ∀ rest,
      groupLengthFrom '<' '>' depth false (text ++ rest) = some (front.length + 1) := by
  induction text generalizing depth with
  | nil =>
    simp only [List.count_nil] at hcount
    omega
  | cons c text ih =>
    rw [List.mem_cons, not_or] at hquote
    -- a bracket changes the depth and the count that is left by one, and so keeps what is assumed
    by_cases hless : c = '<'
    · rw [hless, List.count_cons_self, List.count_cons_of_ne (by decide)] at hcount
      have hopen : 0 < depth + 1 := by omega
      obtain ⟨front, back, hsplit, hgroup⟩ := ih hquote.2 hopen (by omega)
      refine ⟨c :: front, back, by rw [hsplit, List.cons_append], fun rest => ?_⟩
      rw [hless, List.cons_append, groupLengthFrom_less, hgroup]
      rfl
    by_cases hgreater : c = '>'
    · rw [hgreater, List.count_cons_self, List.count_cons_of_ne (by decide)] at hcount
      by_cases hlast : depth = 1
      · exact ⟨[], text, by rw [hgreater, List.nil_append],
          fun rest => by simp [groupLengthFrom, hgreater, hlast]⟩
      have hopen : 0 < depth - 1 := by omega
      obtain ⟨front, back, hsplit, hgroup⟩ := ih hquote.2 hopen (by omega)
      refine ⟨c :: front, back, by rw [hsplit, List.cons_append], fun rest => ?_⟩
      rw [hgreater, List.cons_append, groupLengthFrom_greater hlast, hgroup]
      rfl
    · rw [List.count_cons_of_ne hless, List.count_cons_of_ne hgreater] at hcount
      obtain ⟨front, back, hsplit, hgroup⟩ := ih hquote.2 hdepth hcount
      refine ⟨c :: front, back, by rw [hsplit, List.cons_append], fun rest => ?_⟩
      rw [List.cons_append, groupLengthFrom_other (Ne.symm hquote.1) hless hgreater, hgroup]
      rfl

/-! ### The scan for commas -/

theorem piecesFrom_char {depth : Int} {c : Char} (hc : c ∉ scanned) (rest : List Char) :
    piecesFrom depth false (c :: rest) = prepend [c] (piecesFrom depth false rest) := by
  simp only [scanned, List.mem_cons, List.not_mem_nil, or_false, not_or] at hc
  rw [piecesFrom]
  · simp [isOpening, isClosing, hc]
  · simp [hc]

theorem piecesFrom_comma {depth : Int} (hdepth : 0 < depth) (rest : List Char) :
    piecesFrom depth false (',' :: rest) = prepend [','] (piecesFrom depth false rest) := by
  simp [piecesFrom, isOpening, isClosing, hdepth.ne']

theorem piecesFrom_opening {depth : Int} {opening closing : Char}
    (hpair : (opening, closing) ∈ typeBrackets) (rest : List Char) :
    piecesFrom depth false (opening :: rest) =
      prepend [opening] (piecesFrom (depth + 1) false rest) := by
  rcases cases_of_mem_typeBrackets hpair with ⟨rfl, -⟩ | ⟨rfl, -⟩ | ⟨rfl, -⟩ <;>
    simp [piecesFrom, isOpening]

theorem piecesFrom_closing {depth : Int} {opening closing : Char}
    (hpair : (opening, closing) ∈ typeBrackets) (rest : List Char) :
    piecesFrom depth false (closing :: rest) =
      prepend [closing] (piecesFrom (depth - 1) false rest) := by
  rcases cases_of_mem_typeBrackets hpair with ⟨-, rfl⟩ | ⟨-, rfl⟩ | ⟨-, rfl⟩ <;>
    simp [piecesFrom, isOpening, isClosing]

/-- A nested text is passed by the scan for commas, and leaves the depth as it was. -/
theorem Nested.piecesFrom_append {commas : Bool} {text : List Char} (h : Nested commas text)
    {depth : Int} (hdepth : 0 ≤ depth) (hcommas : commas = true → 0 < depth) (rest : List Char) :
    piecesFrom depth false (text ++ rest) = prepend text (piecesFrom depth false rest) := by
  induction h generalizing depth rest with
  | nil => exact (prepend_nil (piecesFrom_ne_nil depth false rest)).symm
  | char hc _ ih =>
    rw [List.cons_append, piecesFrom_char hc, ih hdepth hcommas, prepend_prepend,
      List.singleton_append]
  | comma _ ih =>
    rw [List.cons_append, piecesFrom_comma (hcommas rfl), ih hdepth hcommas, prepend_prepend,
      List.singleton_append]
  | arrow _ ih =>
    rw [List.cons_append, List.cons_append, piecesFrom, ih hdepth hcommas, prepend_prepend]
    rfl
  | @group _ opening closing inner back hpair _ _ ihinner ih =>
    have hopen : 0 < depth + 1 := by omega
    rw [List.cons_append, piecesFrom_opening hpair, List.append_assoc,
      ihinner hopen.le (fun _ => hopen), List.cons_append, piecesFrom_closing hpair,
      Int.add_sub_cancel, ih hdepth hcommas]
    simp only [prepend_prepend, List.cons_append, List.nil_append]

/-- No front of a nested text is cut by the scan for commas: where one stands, some bracket is still
open. -/
theorem Nested.piecesFrom_front {commas : Bool} {text front : List Char} (h : Nested commas text)
    (hfront : front <+: text) {depth : Int} (hdepth : 0 ≤ depth)
    (hcommas : commas = true → 0 < depth) : piecesFrom depth false front = [front] := by
  induction h generalizing depth front with
  | nil =>
    obtain rfl := List.prefix_nil.mp hfront
    rfl
  | char hc _ ih =>
    rcases List.prefix_cons_iff.mp hfront with rfl | ⟨front, rfl, hrest⟩
    · rfl
    · rw [piecesFrom_char hc, ih hrest hdepth hcommas]
      rfl
  | comma _ ih =>
    rcases List.prefix_cons_iff.mp hfront with rfl | ⟨front, rfl, hrest⟩
    · rfl
    · rw [piecesFrom_comma (hcommas rfl), ih hrest hdepth hcommas]
      rfl
  | arrow _ ih =>
    rcases List.prefix_cons_iff.mp hfront with rfl | ⟨front, rfl, hrest⟩
    · rfl
    rcases List.prefix_cons_iff.mp hrest with rfl | ⟨front, rfl, hbehind⟩
    · rfl
    · rw [piecesFrom, ih hbehind hdepth hcommas]
      rfl
  | @group _ opening closing inner back hpair hinner _ ihinner ih =>
    have hopen : 0 < depth + 1 := by omega
    rcases List.prefix_cons_iff.mp hfront with rfl | ⟨front, rfl, hrest⟩
    · rfl
    rw [piecesFrom_opening hpair]
    -- the front ends in the brackets, where a comma does not cut, or it holds them as a whole
    rcases List.prefix_or_prefix_of_prefix hrest (List.prefix_append inner _) with hin | ⟨tail, rfl⟩
    · rw [ihinner hin hopen.le fun _ => hopen]
      rfl
    rw [hinner.piecesFrom_append hopen.le fun _ => hopen]
    rcases List.prefix_cons_iff.mp ((List.prefix_append_right_inj inner).mp hrest) with
      rfl | ⟨tail, rfl, hback⟩
    · simp [piecesFrom, prepend]
    · rw [piecesFrom_closing hpair, Int.add_sub_cancel, ih hback hdepth hcommas]
      rfl

/-! ### Names of parameters -/

/-- The plain word that a text starts with is read, and stays when the text is trimmed. -/
theorem word?_trim_of_isPlain {word tail : List Char} (h : IsPlain word) (htail : Breaks tail) :
    ∃ rest, word? (trim (word ++ tail)) = some (word, rest) := by
  have hstart : trimStart (word ++ tail) = word ++ tail := by
    obtain ⟨c, cs, rfl, hc, -⟩ := h
    simp [trimStart, isBlank_of_isWordStart hc]
  have hkept : word.rdropWhile isBlank = word := by
    rw [List.rdropWhile_eq_self_iff]
    intro hne
    simp [isBlank_of_isWord (h.isWord _ (List.getLast_mem hne))]
  have hend : ∃ rest, rest <+: tail ∧ (word ++ tail).rdropWhile isBlank = word ++ rest := by
    rw [List.rdropWhile, List.reverse_append, List.dropWhile_append]
    split
    · exact ⟨[], List.nil_prefix, by rw [← List.rdropWhile, hkept, List.append_nil]⟩
    · exact ⟨tail.rdropWhile isBlank, List.rdropWhile_prefix _ _, by simp [List.rdropWhile]⟩
  obtain ⟨rest, hrest, hend⟩ := hend
  refine ⟨rest, ?_⟩
  rw [trim, hstart, trimEnd_eq_rdropWhile, hend]
  exact word?_of_isPlain h (htail.truncate hrest)

theorem parameterNames_append_blanks {blanks : List Char}
    (hblanks : ∀ c ∈ blanks, isBlank c = true) (text : List Char) :
    parameterNames (blanks ++ text) = parameterNames text := by
  have hnested : Nested false blanks :=
    nested_of_forall fun c hc => notMem_scanned_of_isBlank (hblanks c hc)
  unfold parameterNames pieces
  rw [hnested.piecesFrom_append le_rfl (by simp)]
  obtain ⟨piece, others, hpieces⟩ := List.exists_cons_of_ne_nil (piecesFrom_ne_nil 0 false text)
  rw [hpieces, prepend, List.filterMap_cons, List.filterMap_cons, trim_append_left hblanks]

/-- A text that is one piece and starts with a plain word. -/
theorem parameterNames_of_isPlain {word tail : List Char} (h : IsPlain word) (htail : Breaks tail)
    (hpiece : pieces (word ++ tail) = [word ++ tail]) :
    parameterNames (word ++ tail) = [String.ofList word] := by
  obtain ⟨rest, hword⟩ := word?_trim_of_isPlain h htail
  simp [parameterNames, hpiece, hword, unticked_of_plain h]

/-- A generic parameter as it is written. -/
structure GenericParameter where
  name : String
  constraint : Option TypeExpr := none

namespace GenericParameter

/-- What stands behind the name of a parameter: a colon, a space and the constraint, if there is
one. -/
def constraintText (self : GenericParameter) : List Char :=
  match self.constraint with
  | none => []
  | some type => ':' :: ' ' :: (render type).toList

def text (self : GenericParameter) : List Char := self.name.toList ++ self.constraintText

/-- A parameter with a plain name, and with a canonical constraint if it has one. -/
structure IsWritten (parameter : GenericParameter) : Prop where
  name : IsPlain parameter.name.toList
  constraint : ∀ type ∈ parameter.constraint, Canonical type

def HasArrow (self : GenericParameter) : Prop := ['-', '>'] <:+: self.constraintText

instance : DecidablePred HasArrow := fun parameter =>
  inferInstanceAs (Decidable (_ <:+: parameter.constraintText))

variable {parameter : GenericParameter}

theorem breaks_constraintText (parameter : GenericParameter) : Breaks parameter.constraintText := by
  unfold constraintText
  split
  · exact breaks_nil
  · exact breaks_cons.mpr (by decide)

theorem IsWritten.nested_constraintText (h : parameter.IsWritten) :
    Nested false parameter.constraintText := by
  unfold constraintText
  split
  · exact .nil
  · next type hconstraint =>
    exact .char (by decide) (.char (by decide) (h.constraint type hconstraint).nested)

theorem IsWritten.nested (h : parameter.IsWritten) : Nested false parameter.text :=
  (nested_of_isPlain h.name).append h.nested_constraintText

/-- A parameter without an arrow is passed by the scan for the closing bracket. -/
theorem IsWritten.groupLengthFrom_append (h : parameter.IsWritten) (harrow : ¬parameter.HasArrow)
    (rest : List Char) :
    groupLengthFrom '<' '>' 1 false (parameter.text ++ rest) =
      (groupLengthFrom '<' '>' 1 false rest).map (· + parameter.text.length) := by
  refine h.nested.groupLengthFrom_append (fun hdash => ?_) (by decide) rest
  rcases List.mem_append.mp hdash with hname | hconstraint
  · exact notMem_scanned_of_isWord (h.name.isWord _ hname) (by decide)
  · exact harrow (h.nested_constraintText.mem_dash_iff.mp hconstraint)

/-- In a parameter with an arrow the scan for the closing bracket stops behind the name. -/
theorem IsWritten.exists_groupLengthFrom (h : parameter.IsWritten) (harrow : parameter.HasArrow) :
    ∃ front back, parameter.constraintText = front ++ '>' :: back ∧ ∀ rest,
      groupLengthFrom '<' '>' 1 false (parameter.text ++ rest) =
        some (parameter.name.toList.length + front.length + 1) := by
  have hnested := h.nested_constraintText
  have hdash : 0 < parameter.constraintText.count '-' :=
    List.count_pos_iff.mpr (hnested.mem_dash_iff.mpr harrow)
  have hcount := hnested.count_greater
  have hopen : (0 : Int) < 1 := by decide
  obtain ⟨front, back, hsplit, hgroup⟩ :=
    Syntax.exists_groupLengthFrom hnested.notMem_quote hopen (by omega)
  have hname : Nested false parameter.name.toList := nested_of_isPlain h.name
  have hplain : '-' ∉ parameter.name.toList := fun hmem =>
    notMem_scanned_of_isWord (h.name.isWord _ hmem) (by decide)
  refine ⟨front, back, hsplit, fun rest => ?_⟩
  rw [text, List.append_assoc, hname.groupLengthFrom_append hplain hopen, hgroup]
  simp only [Option.map_some, Option.some.injEq]
  omega

/-- The front of a parameter that holds its name. -/
theorem IsWritten.parameterNames_front (h : parameter.IsWritten) {front : List Char}
    (hfront : front <+: parameter.constraintText) :
    parameterNames (parameter.name.toList ++ front) = [parameter.name] := by
  have hpiece : pieces (parameter.name.toList ++ front) = [parameter.name.toList ++ front] :=
    h.nested.piecesFrom_front ((List.prefix_append_right_inj _).mpr hfront) le_rfl (by simp)
  have hbreaks := (breaks_constraintText parameter).truncate hfront
  rw [parameterNames_of_isPlain h.name hbreaks hpiece, String.ofList_toList]

theorem IsWritten.parameterNames_cons (h : parameter.IsWritten) (rest : List Char) :
    parameterNames (parameter.text ++ ',' :: ' ' :: rest) =
      parameter.name :: parameterNames rest := by
  have hcomma : piecesFrom 0 false (',' :: ' ' :: rest) = [] :: pieces (' ' :: rest) := by
    simp [piecesFrom, isOpening, isClosing, pieces]
  have hpieces : pieces (parameter.text ++ ',' :: ' ' :: rest) =
      parameter.text :: pieces (' ' :: rest) := by
    rw [pieces, h.nested.piecesFrom_append le_rfl (by simp), hcomma, prepend, List.append_nil]
  have hfirst : pieces parameter.text = [parameter.text] :=
    h.nested.piecesFrom_front List.prefix_rfl le_rfl (by simp)
  have hname := h.parameterNames_front List.prefix_rfl
  have hrest := parameterNames_append_blanks isBlank_of_mem_space rest
  rw [List.singleton_append] at hrest
  rw [← text] at hname
  rw [← hrest, ← List.singleton_append (x := parameter.name), ← hname]
  unfold parameterNames
  rw [hpieces, hfirst, ← List.singleton_append, List.filterMap_append]

end GenericParameter

open GenericParameter

/-! ### Clauses -/

/-- The text of some parameters, with a comma and a space between them. -/
def parametersText (parameters : List GenericParameter) : List Char :=
  [',', ' '].intercalate (parameters.map (·.text))

def clauseText (parameters : List GenericParameter) : List Char :=
  '<' :: (parametersText parameters ++ ['>'])

/-- The parameters up to the first one with an arrow in its constraint. -/
def upToArrow : List GenericParameter → List GenericParameter
  | [] => []
  | first :: more => first :: if first.HasArrow then [] else upToArrow more

variable {parameters : List GenericParameter}

theorem parametersText_cons_cons (first second : GenericParameter) (more : List GenericParameter) :
    parametersText (first :: second :: more) =
      first.text ++ (',' :: ' ' :: parametersText (second :: more)) := by
  simp [parametersText]

theorem isPrefix_upToArrow (parameters : List GenericParameter) :
    upToArrow parameters <+: parameters := by
  induction parameters with
  | nil => exact List.prefix_rfl
  | cons first more ih =>
    unfold upToArrow
    split
    · exact List.cons_prefix_cons.mpr ⟨rfl, List.nil_prefix⟩
    · exact List.cons_prefix_cons.mpr ⟨rfl, ih⟩

/-- An arrow in the last constraint takes nothing away. -/
theorem upToArrow_eq_self_iff :
    upToArrow parameters = parameters ↔ ∀ parameter ∈ parameters.dropLast, ¬parameter.HasArrow := by
  induction parameters with
  | nil => simp [upToArrow]
  | cons first more ih =>
    cases more with
    | nil => simp [upToArrow]
    | cons second more =>
      rw [upToArrow, List.dropLast_cons_cons, List.forall_mem_cons, ← ih]
      by_cases harrow : first.HasArrow <;> simp [harrow]

/-- The scan for the closing bracket stops at the end of the clause, or before that in the first
parameter with an arrow. What stands in front of that place gives the names up to this one. -/
theorem exists_groupLengthFrom_parametersText (hne : parameters ≠ [])
    (h : ∀ parameter ∈ parameters, parameter.IsWritten) (rest : List Char) :
    ∃ front back, parametersText parameters ++ '>' :: rest = front ++ '>' :: back ∧
      groupLengthFrom '<' '>' 1 false (parametersText parameters ++ '>' :: rest) =
        some (front.length + 1) ∧
      parameterNames front = (upToArrow parameters).map (·.name) := by
  induction parameters with
  | nil => exact absurd rfl hne
  | cons first more ih =>
    obtain ⟨hfirst, hmore⟩ := List.forall_mem_cons.mp h
    obtain ⟨behind, hbehind⟩ : ∃ behind, parametersText (first :: more) = first.text ++ behind := by
      cases more with
      | nil => exact ⟨[], by simp [parametersText]⟩
      | cons second more => exact ⟨_, parametersText_cons_cons first second more⟩
    by_cases harrow : first.HasArrow
    · obtain ⟨front, back, hsplit, hgroup⟩ := hfirst.exists_groupLengthFrom harrow
      refine ⟨first.name.toList ++ front, back ++ (behind ++ '>' :: rest), ?_, ?_, ?_⟩
      · simp [hbehind, text, hsplit]
      · rw [hbehind, List.append_assoc, hgroup, List.length_append]
      · rw [hfirst.parameterNames_front ⟨_, hsplit.symm⟩]
        simp [upToArrow, harrow]
    cases more with
    | nil =>
      have hnames := hfirst.parameterNames_front List.prefix_rfl
      have htext : parametersText [first] = first.text := by simp [parametersText]
      refine ⟨first.text, rest, by rw [htext], ?_, ?_⟩
      · rw [htext, hfirst.groupLengthFrom_append harrow]
        simp [groupLengthFrom, Nat.add_comm]
      · rw [text, hnames]
        simp [upToArrow, harrow]
    | cons second more =>
      obtain ⟨front, back, hsplit, hgroup, hnames⟩ := ih (List.cons_ne_nil _ _) hmore
      refine ⟨first.text ++ ',' :: ' ' :: front, back, ?_, ?_, ?_⟩
      · simp [parametersText_cons_cons, hsplit]
      · rw [parametersText_cons_cons, List.append_assoc, hfirst.groupLengthFrom_append harrow,
          List.cons_append, groupLengthFrom_other (by decide) (by decide) (by decide),
          List.cons_append, groupLengthFrom_other (by decide) (by decide) (by decide), hgroup]
        simp only [Option.map_some, List.length_append, List.length_cons, Option.some.injEq]
        omega
      · rw [hfirst.parameterNames_cons, hnames]
        simp [upToArrow, harrow]

/-- **The parameters of a clause are read up to the first one with an arrow in its constraint**, so
all of them are read if and only if none but the last has one. -/
theorem genericParameters_clauseText (hne : parameters ≠ [])
    (h : ∀ parameter ∈ parameters, parameter.IsWritten) (rest : List Char) :
    genericParameters (clauseText parameters ++ rest) =
        .ok ((upToArrow parameters).map (·.name)) ∧
      (genericParameters (clauseText parameters ++ rest) = .ok (parameters.map (·.name)) ↔
        ∀ parameter ∈ parameters.dropLast, ¬parameter.HasArrow) := by
  obtain ⟨front, back, hsplit, hgroup, hnames⟩ :=
    exists_groupLengthFrom_parametersText hne h rest
  have htext : clauseText parameters ++ rest =
      '<' :: (parametersText parameters ++ '>' :: rest) := by
    simp [clauseText]
  have hlength : groupLength '<' '>' (clauseText parameters ++ rest) = .ok (front.length + 2) := by
    rw [htext, groupLength, groupLengthFrom]
    simp [hgroup]
  have hinside : inside ((clauseText parameters ++ rest).take (front.length + 2)) = front := by
    have htake : (clauseText parameters ++ rest).take (front.length + 2) =
        '<' :: (front ++ ['>']) := by
      rw [htext, hsplit]
      simp [List.take_append]
    rw [htake, inside_group]
  have hread : genericParameters (clauseText parameters ++ rest) =
      .ok ((upToArrow parameters).map (·.name)) := by
    rw [← hnames, ← hinside]
    rw [htext] at hlength ⊢
    rw [genericParameters, skipTrivia_cons (by decide) (by decide)]
    simp [hlength, bind, Except.bind, pure, Except.pure]
  refine ⟨hread, ?_⟩
  rw [hread, ← upToArrow_eq_self_iff, Except.ok.injEq]
  refine ⟨fun heq => ?_, fun heq => by rw [heq]⟩
  have hsame : (upToArrow parameters).length = parameters.length := by
    simpa using congrArg List.length heq
  exact (isPrefix_upToArrow parameters).eq_of_length hsame

/-- A sequence of functions without parameters. -/
def actions : TypeExpr := .nominal "Sequence" [.function [] (.nominal "Void" []) false false none]

/-- A parameter with such a sequence as its constraint, in front of another. -/
def sequenceParameters : List GenericParameter :=
  [{ name := "T", constraint := some actions }, { name := "U" }]

theorem isWritten_sequenceParameters : ∀ parameter ∈ sequenceParameters, parameter.IsWritten := by
  have hvoid : Canonical (.nominal "Void" []) :=
    canonical_name (isPlain_of_all (by decide) (by decide)) (by decide) (by decide)
  have haction : Canonical (.function [] (.nominal "Void" []) false false none) :=
    .function (List.forall_mem_nil _) hvoid nofun nofun
  have hactions : Canonical actions :=
    canonical_word (isPlain_of_all (by decide) (by decide)) (by decide) (by decide)
      (List.forall_mem_singleton.mpr haction)
  refine List.forall_mem_cons.mpr ⟨⟨?_, ?_⟩, List.forall_mem_singleton.mpr ⟨?_, nofun⟩⟩
  · exact isPlain_of_all (by decide) (by decide)
  · rintro _ ⟨⟩
    exact hactions
  · exact isPlain_of_all (by decide) (by decide)

/-- Behind the arrow the second parameter is not read; in front of it, both are. -/
theorem genericParameters_clauseText_sequence :
    genericParameters (clauseText sequenceParameters ++ " where".toList) = .ok ["T"] ∧
      genericParameters (clauseText sequenceParameters.reverse ++ " where".toList) =
        .ok ["U", "T"] := by
  have hreverse : ∀ parameter ∈ sequenceParameters.reverse, parameter.IsWritten :=
    fun parameter hmem => isWritten_sequenceParameters parameter (List.mem_reverse.mp hmem)
  have hforth :=
    (genericParameters_clauseText (by decide) isWritten_sequenceParameters " where".toList).1
  have hback :=
    (genericParameters_clauseText (by decide) hreverse " where".toList).2.mpr (by decide)
  exact ⟨hforth.trans (by decide), hback.trans rfl⟩

/-- A clause of canonical parameters of which not all are read. -/
theorem parameter_lost_behind_arrow :
    (∀ parameter ∈ sequenceParameters, parameter.IsWritten) ∧
      clauseText sequenceParameters = "<T: Sequence<() -> Void>, U>".toList ∧
      genericParameters (clauseText sequenceParameters) = .ok ["T"] ∧
      sequenceParameters.map (·.name) = ["T", "U"] :=
  ⟨isWritten_sequenceParameters, by decide +kernel, by decide +kernel, rfl⟩

end FluentBuilder.Syntax
