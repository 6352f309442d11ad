import FluentBuilder.Proofs.Syntax.Annotations
import FluentBuilder.Proofs.Syntax.Heads

/-!
# Arguments of attributes are read back

Two scans go over the arguments of an attribute: one looks for the parenthesis that closes them and
counts parentheses only, the other cuts them at commas and counts all brackets. Both take strings
into account, and the second one arrows. `headFrom_attributeText` and `argumentList_argumentsText`
say that they agree on arguments that are `IsExpression`, whatever else these hold: the list that is
read is the list that was written, with blanks trimmed.

What a scan sees of a text is its code (`codeFrom`), the text without what its strings hold. An
expression is described by its code alone: parentheses are closed in order, and the brackets of all
kinds even out with no comma outside of them. A scan passes the text as a whole, and the depth that
it leaves is that of the code (`groupLengthFrom_code`, `piecesFrom_code`).
-/

namespace FluentBuilder.Syntax

open Text

/-! ### Code and strings -/

/-- What stands outside of the strings of a text, with the quotes around these. There is no code if
the text ends in a string. -/
def codeFrom : (inString : Bool) → List Char → Option (List Char)
  | true, [] => none
  | false, [] => some []
  | true, '\\' :: _ :: rest => codeFrom true rest
  | true, c :: rest => if c == '"' then (codeFrom false rest).map (c :: ·) else codeFrom true rest
  | false, c :: rest => (codeFrom (c == '"') rest).map (c :: ·)

def withoutArrows : List Char → List Char
  | [] => []
  | '-' :: '>' :: rest => withoutArrows rest
  | c :: rest => c :: withoutArrows rest

/-- How many more brackets are opened than closed. -/
def nesting (code : List Char) : Int := code.countP isOpening - code.countP isClosing

/-- As many parentheses are closed as opened, and nowhere more. -/
def ParensClosed (code : List Char) : Prop :=
  code.count '(' = code.count ')' ∧ ∀ front ∈ code.inits, front.count ')' ≤ front.count '('

/-- As many brackets are closed as opened, and not so in front of a comma. -/
def CommasEnclosed (code : List Char) : Prop :=
  nesting code = 0 ∧ ∀ front ∈ code.inits, front ++ [','] <+: code → nesting front ≠ 0

/-- A text that a scan passes as a whole: it ends outside of strings, and its code closes what it
opens. -/
def IsClosed (text : List Char) : Prop :=
  ∃ code ∈ codeFrom false text, ParensClosed code ∧ CommasEnclosed (withoutArrows code)

/-- An argument without a label. -/
def IsExpression (text : List Char) : Prop :=
  (∃ c ∈ text, isBlank c = false) ∧ IsClosed text

instance : DecidablePred ParensClosed := fun _ => inferInstanceAs (Decidable (_ ∧ _))

instance : DecidablePred CommasEnclosed := fun _ => inferInstanceAs (Decidable (_ ∧ _))

instance : DecidablePred IsClosed := fun text =>
  inferInstanceAs (Decidable (∃ code ∈ codeFrom false text, _))

theorem codeFrom_inString {c : Char} (h : c ≠ '\\') (text : List Char) :
    codeFrom true (c :: text) =
      if c == '"' then (codeFrom false text).map (c :: ·) else codeFrom true text := by
  rw [codeFrom]
  simp [h]

theorem codeFrom_head? {text code : List Char} (h : codeFrom false text = some code) :
    code.head? = text.head? := by
  cases text with
  | nil => rw [← Option.some.inj h]
  | cons c text =>
    obtain ⟨after, -, rfl⟩ := Option.map_eq_some_iff.mp h
    rfl

theorem withoutArrows_cons {c : Char} {code : List Char}
    (h : c = '-' → code.head? ≠ some '>') : withoutArrows (c :: code) = c :: withoutArrows code := by
  rw [withoutArrows]
  rintro rest rfl rfl
  exact h rfl rfl

theorem nesting_cons (c : Char) (code : List Char) :
    nesting (c :: code) = nesting [c] + nesting code := by
  simp only [nesting, ← List.singleton_append (x := c) (l := code), List.countP_append]
  omega

/-! ### The scan for the closing parenthesis -/

/-- One character of code, unless it closes the group. -/
theorem groupLengthFrom_cons {depth : Int} {c : Char}
    (h : ([c].count ')' : Int) < depth + [c].count '(') (rest : List Char) :
    groupLengthFrom '(' ')' depth false (c :: rest) =
      (groupLengthFrom '(' ')' (depth + [c].count '(' - [c].count ')') (c == '"') rest).map
        (· + 1) := by
  rw [groupLengthFrom]
  by_cases hquote : c = '"'
  · subst hquote
    simp
  by_cases hopening : c = '('
  · subst hopening
    simp
  by_cases hclosing : c = ')'
  · subst hclosing
    have hopen : depth - 1 ≠ 0 := by
      simp only [List.count_singleton_self, Nat.cast_one] at h
      simp at h
      omega
    simp [hopen]
  · simp [hopening, hclosing, beq_false_of_ne hquote]

/-- The scan passes a text that closes no more than is open, and leaves the depth of its code. -/
theorem groupLengthFrom_code {inString : Bool} {text code : List Char} {depth : Int}
    (hcode : codeFrom inString text = some code)
    (hdepth : ∀ front, front <+: code → (front.count ')' : Int) < depth + front.count '(')
    (rest : List Char) :
    groupLengthFrom '(' ')' depth inString (text ++ rest) =
      (groupLengthFrom '(' ')' (depth + code.count '(' - code.count ')') false rest).map
        (· + text.length) := by
  fun_induction codeFrom inString text generalizing code depth with
  | case1 => cases hcode
  | case2 =>
    obtain rfl := Option.some.inj hcode
    simp
  | case3 c text ih =>
    rw [List.cons_append, List.cons_append, groupLengthFrom, ih hcode hdepth]
    simp [Function.comp_def, Nat.add_assoc]
  | case4 c text hescape hquote ih =>
    obtain rfl := beq_iff_eq.mp hquote
    obtain ⟨after, hafter, rfl⟩ := Option.map_eq_some_iff.mp hcode
    have htail (front : List Char) (hfront : front <+: after) :
        (front.count ')' : Int) < depth + front.count '(' := by
      have hcons := hdepth ('"' :: front) (List.cons_prefix_cons.mpr ⟨rfl, hfront⟩)
      simpa using hcons
    rw [List.cons_append, groupLengthFrom, bne_self_eq_false, ih hafter htail]
    · simp [Function.comp_def, Nat.add_assoc]
    · simp
  | case5 c text hescape hquote ih =>
    -- a backslash that hides nothing would be the last character of a string that does not end
    have hne : c ≠ '\\' := by
      rintro rfl
      cases text with
      | nil => cases hcode
      | cons d text => exact hescape d text rfl rfl
    have hstay : (c != '"') = true := by simpa using hquote
    rw [List.cons_append, groupLengthFrom, hstay, ih hcode hdepth]
    · simp [Function.comp_def, Nat.add_assoc]
    · simp [hne]
  | case6 c text ih =>
    obtain ⟨after, hafter, rfl⟩ := Option.map_eq_some_iff.mp hcode
    have hfirst := hdepth [c] (List.cons_prefix_cons.mpr ⟨rfl, List.nil_prefix⟩)
    have htail (front : List Char) (hfront : front <+: after) :
        (front.count ')' : Int) < depth + [c].count '(' - [c].count ')' + front.count '(' := by
      have hcons := hdepth (c :: front) (List.cons_prefix_cons.mpr ⟨rfl, hfront⟩)
      rw [← List.singleton_append, List.count_append, List.count_append] at hcons
      omega
    have hcount (mark : Char) : (c :: after).count mark = [c].count mark + after.count mark := by
      rw [← List.singleton_append, List.count_append]
    have hdepths : depth + (c :: after).count '(' - (c :: after).count ')' =
        depth + [c].count '(' - [c].count ')' + after.count '(' - after.count ')' := by
      rw [hcount, hcount]
      omega
    rw [List.cons_append, groupLengthFrom_cons hfirst, ih hafter htail, hdepths]
    simp [Function.comp_def, Nat.add_assoc]

/-! ### The scan for commas -/

theorem prepend_prepend (a b : List Char) (pieces : List (List Char)) :
    prepend a (prepend b pieces) = prepend (a ++ b) pieces := by
  cases pieces <;> simp [prepend]

theorem prepend_nil {pieces : List (List Char)} (h : pieces ≠ []) : prepend [] pieces = pieces := by
  cases pieces with
  | nil => exact absurd rfl h
  | cons piece others => rfl

/-- One character of code that is neither an arrow nor a comma between pieces. -/
theorem piecesFrom_cons {depth : Int} {c : Char} {rest : List Char}
    (harrow : c = '-' → rest.head? ≠ some '>') (hcomma : c = ',' → depth ≠ 0) :
    piecesFrom depth false (c :: rest) =
      prepend [c] (piecesFrom (depth + nesting [c]) (c == '"') rest) := by
  rw [piecesFrom]
  · by_cases hquote : c = '"'
    · subst hquote
      simp [nesting, isOpening, isClosing]
    by_cases hopening : isOpening c = true
    · have hclosing : isClosing c = false := by
        simp only [isOpening, Bool.or_eq_true, beq_iff_eq] at hopening
        rcases hopening with ((rfl | rfl) | rfl) | rfl <;> rfl
      simp [nesting, beq_false_of_ne hquote, hopening, hclosing]
    by_cases hclosing : isClosing c = true
    · simp [nesting, beq_false_of_ne hquote, hopening, hclosing, Int.sub_eq_add_neg]
    by_cases heq : c = ','
    · simp [nesting, heq, hcomma heq, isOpening, isClosing]
    · simp [nesting, beq_false_of_ne hquote, hopening, hclosing, heq]
  · rintro after rfl rfl
    exact harrow rfl rfl

theorem piecesFrom_zero_comma (rest : List Char) :
    piecesFrom 0 false (',' :: rest) = [] :: piecesFrom 0 false rest := by
  simp [piecesFrom, isOpening, isClosing]

theorem piecesFrom_inString {depth : Int} {c : Char} (h : c ≠ '\\') (rest : List Char) :
    piecesFrom depth true (c :: rest) = prepend [c] (piecesFrom depth (c != '"') rest) := by
  rw [piecesFrom]
  simp [h]

/-- If no arrow starts with a character of a text, none does in its code or with more text behind
it. -/
theorem notArrow_append {c : Char} {text code rest : List Char}
    (hcode : codeFrom (c == '"') text = some code) (h : ¬(c = '-' ∧ text.head? = some '>'))
    (hrest : rest.head? ≠ some '>') :
    (c = '-' → code.head? ≠ some '>') ∧ (c = '-' → (text ++ rest).head? ≠ some '>') := by
  constructor
  · rintro rfl hhead
    rw [codeFrom_head? hcode] at hhead
    exact h ⟨rfl, hhead⟩
  · rintro rfl hhead
    cases text with
    | nil => exact hrest hhead
    | cons d text => exact h ⟨rfl, hhead⟩

/-- What the commas of a code say about the code behind its first character. -/
theorem commas_tail {depth : Int} {c : Char} {code : List Char}
    (harrow : c = '-' → code.head? ≠ some '>')
    (h : ∀ front, front ++ [','] <+: withoutArrows (c :: code) → depth + nesting front ≠ 0) :
    ∀ front, front ++ [','] <+: withoutArrows code → depth + nesting [c] + nesting front ≠ 0 := by
  intro front hfront
  have hcons : c :: front ++ [','] <+: withoutArrows (c :: code) := by
    rw [withoutArrows_cons harrow]
    exact List.cons_prefix_cons.mpr ⟨rfl, hfront⟩
  have hdepth := h (c :: front) hcons
  rw [nesting_cons] at hdepth
  omega

/-- The scan passes a text whose commas stand in brackets, and leaves the depth of its code. -/
theorem piecesFrom_code {inString : Bool} {text code rest : List Char} {depth : Int}
    (hcode : codeFrom inString text = some code)
    (hcommas : ∀ front, front ++ [','] <+: withoutArrows code → depth + nesting front ≠ 0)
    (hrest : rest.head? ≠ some '>') :
    piecesFrom depth inString (text ++ rest) =
      prepend text (piecesFrom (depth + nesting (withoutArrows code)) false rest) := by
  -- the cases are the steps of the scan, of which two take two characters
  match inString, text with
  | true, [] => cases hcode
  | false, [] =>
    obtain rfl := Option.some.inj hcode
    simp [withoutArrows, nesting, prepend_nil (piecesFrom_ne_nil depth false rest)]
  | true, c :: text =>
    by_cases hescape : c = '\\'
    · subst hescape
      cases text with
      | nil => cases hcode
      | cons d text =>
        have ih : piecesFrom depth true (text ++ rest) = _ := piecesFrom_code hcode hcommas hrest
        rw [List.cons_append, List.cons_append, piecesFrom, ih, prepend_prepend]
        rfl
    rw [codeFrom_inString hescape] at hcode
    rw [List.cons_append, piecesFrom_inString hescape]
    by_cases hquote : c = '"'
    · subst hquote
      obtain ⟨after, hafter, rfl⟩ := Option.map_eq_some_iff.mp hcode
      have htail := commas_tail (by simp) hcommas
      have ih := piecesFrom_code hafter htail hrest
      rw [withoutArrows_cons (by simp), nesting_cons, ← Int.add_assoc]
      simpa [prepend_prepend, nesting, isOpening, isClosing] using congrArg (prepend ['"']) ih
    · rw [if_neg (by simpa using hquote)] at hcode
      have ih := piecesFrom_code hcode hcommas hrest
      rw [bne_iff_ne.mpr hquote, ih, prepend_prepend]
      rfl
  | false, c :: text =>
    obtain ⟨after, hafter, rfl⟩ := Option.map_eq_some_iff.mp hcode
    by_cases harrow : c = '-' ∧ text.head? = some '>'
    · obtain ⟨rfl, hhead⟩ := harrow
      obtain ⟨text, rfl⟩ := List.head?_eq_some_iff.mp hhead
      obtain ⟨behind, hbehind, rfl⟩ := Option.map_eq_some_iff.mp hafter
      have ih : piecesFrom depth false (text ++ rest) = _ := piecesFrom_code hbehind hcommas hrest
      rw [List.cons_append, List.cons_append, piecesFrom, ih, prepend_prepend]
      rfl
    · obtain ⟨hcodeArrow, htextArrow⟩ := notArrow_append hafter harrow hrest
      have hcomma : c = ',' → depth ≠ 0 := by
        rintro rfl
        have hfirst := hcommas [] (by rw [withoutArrows_cons (by simp)]; simp)
        simpa [nesting] using hfirst
      have ih := piecesFrom_code hafter (commas_tail hcodeArrow hcommas) hrest
      rw [List.cons_append, piecesFrom_cons htextArrow hcomma, ih, prepend_prepend,
        withoutArrows_cons hcodeArrow, nesting_cons c (withoutArrows after), ← Int.add_assoc]
      rfl
termination_by text.length

/-! ### Closed texts -/

theorem IsClosed.groupLengthFrom_append {text : List Char} (h : IsClosed text) {depth : Int}
    (hdepth : 0 < depth) (rest : List Char) :
    groupLengthFrom '(' ')' depth false (text ++ rest) =
      (groupLengthFrom '(' ')' depth false rest).map (· + text.length) := by
  obtain ⟨code, hcode, ⟨hcount, hfronts⟩, -⟩ := h
  have hopen (front : List Char) (hfront : front <+: code) :
      (front.count ')' : Int) < depth + front.count '(' := by
    have hle := hfronts front ((List.mem_inits _ _).mpr hfront)
    omega
  have hdepths : depth + code.count '(' - code.count ')' = depth := by omega
  rw [groupLengthFrom_code hcode hopen, hdepths]

theorem IsClosed.piecesFrom_append {text rest : List Char} (h : IsClosed text)
    (hrest : rest.head? ≠ some '>') :
    piecesFrom 0 false (text ++ rest) = prepend text (piecesFrom 0 false rest) := by
  obtain ⟨code, hcode, -, hnesting, hfronts⟩ := h
  have hcommas (front : List Char) (hfront : front ++ [','] <+: withoutArrows code) :
      0 + nesting front ≠ 0 := by
    rw [Int.zero_add]
    refine hfronts front ?_ hfront
    exact (List.mem_inits _ _).mpr ((List.prefix_append front [',']).trans hfront)
  rw [piecesFrom_code hcode hcommas hrest, hnesting, Int.zero_add]

theorem IsClosed.cons {c : Char} {text : List Char} (hc : c ∉ scanned) (h : IsClosed text) :
    IsClosed (c :: text) := by
  obtain ⟨code, hcode, ⟨hcount, hfronts⟩, hnesting, hcommas⟩ := h
  simp only [scanned, List.mem_cons, List.not_mem_nil, or_false, not_or] at hc
  have hread : codeFrom false (c :: text) = some (c :: code) := by
    rw [codeFrom, beq_false_of_ne (by simp [hc]), hcode]
    rfl
  have harrows : withoutArrows (c :: code) = c :: withoutArrows code :=
    withoutArrows_cons (by simp [hc])
  have hlevel (front : List Char) : nesting (c :: front) = nesting front := by
    simp [nesting, isOpening, isClosing, hc]
  refine ⟨c :: code, hread, ⟨by simpa [hc] using hcount, ?_⟩, ?_, ?_⟩
  · rw [List.inits_cons]
    intro front hfront
    rcases List.mem_cons.mp hfront with rfl | hfront
    · simp
    obtain ⟨after, hafter, rfl⟩ := List.mem_map.mp hfront
    simpa [hc] using hfronts after hafter
  · rw [harrows, hlevel, hnesting]
  · rw [harrows, List.inits_cons]
    intro front hfront hcomma
    rcases List.mem_cons.mp hfront with rfl | hfront
    · simp [hc, eq_comm] at hcomma
    obtain ⟨after, hafter, rfl⟩ := List.mem_map.mp hfront
    rw [hlevel]
    exact hcommas after hafter (List.cons_prefix_cons.mp hcomma).2

theorem IsClosed.append_left {front text : List Char} (hfront : ∀ c ∈ front, c ∉ scanned)
    (h : IsClosed text) : IsClosed (front ++ text) := by
  induction front with
  | nil => exact h
  | cons c front ih =>
    obtain ⟨hc, hrest⟩ := List.forall_mem_cons.mp hfront
    exact (ih hrest).cons hc

/-! ### Labels -/

/-- A plain word in front of a colon, of which there is only one. -/
def StartsWithLabel (text : List Char) : Prop :=
  ∃ blanks label gap after, text = blanks ++ (label ++ (gap ++ ':' :: after)) ∧
    (∀ c ∈ blanks, isBlank c = true) ∧ IsPlain label ∧ (∀ c ∈ gap, isBlank c = true) ∧
    after.head? ≠ some ':'

theorem label?_of_isPlain {blanks label gap after : List Char}
    (hblanks : ∀ c ∈ blanks, isBlank c = true) (hlabel : IsPlain label)
    (hgap : ∀ c ∈ gap, isBlank c = true) (hafter : after.head? ≠ some ':') :
    label? (blanks ++ (label ++ (gap ++ ':' :: after))) = some (label, after) := by
  obtain ⟨c, cs, rfl, hc, hcs⟩ := hlabel
  have hstart : trimStart (blanks ++ (c :: cs ++ (gap ++ ':' :: after))) =
      c :: (cs ++ (gap ++ ':' :: after)) := by
    rw [trimStart_append hblanks]
    simp [trimStart, isBlank_of_isWordStart hc]
  have hbreak : ∀ d ∈ (gap ++ ':' :: after).head?, isWord d = false := by
    cases gap with
    | nil => simp; decide
    | cons d gap => simpa using isWord_of_isBlank (hgap d List.mem_cons_self)
  obtain ⟨htake, hdrop⟩ := span_append hcs hbreak
  have hcolon : trimStart (gap ++ ':' :: after) = ':' :: after := by
    rw [trimStart_append hgap]
    simp [trimStart]
    decide
  simp only [label?, hstart, hc, if_true, htake, hdrop, hcolon]
  cases after with
  | nil => rfl
  | cons d after =>
    have hd : d ≠ ':' := by simpa using hafter
    simp [hd]

theorem startsWithLabel_iff {text : List Char} :
    StartsWithLabel text ↔ (label? text).isSome = true := by
  constructor
  · rintro ⟨blanks, label, gap, after, rfl, hblanks, hlabel, hgap, hafter⟩
    rw [label?_of_isPlain hblanks hlabel hgap hafter]
    rfl
  intro h
  unfold label? at h
  obtain ⟨blanks, htext, hblanks⟩ := exists_append_trimStart text
  split at h
  · cases h
  · next c rest heq =>
    split at h
    · next hc =>
      obtain ⟨gap, hback, hgap⟩ := exists_append_trimStart (rest.dropWhile isWord)
      split at h
      · cases h
      · next after hne hcolon =>
        refine ⟨blanks, c :: rest.takeWhile isWord, gap, after, ?_, hblanks, ?_, hgap, ?_⟩
        · rw [htext, heq, ← hcolon, ← hback, List.cons_append, List.takeWhile_append_dropWhile]
        · exact ⟨c, _, rfl, hc, fun _ hd => List.mem_takeWhile_imp hd⟩
        · intro hhead
          obtain ⟨after, rfl⟩ := List.head?_eq_some_iff.mp hhead
          exact hne after rfl
      · cases h
    · cases h

instance : DecidablePred StartsWithLabel := fun _ => decidable_of_iff _ startsWithLabel_iff.symm

/-! ### Written arguments -/

/-- An argument as it is written. -/
structure Argument where
  label : Option String := none
  expression : String

namespace Argument

def text (self : Argument) : List Char :=
  match self.label with
  | none => self.expression.toList
  | some label => label.toList ++ ':' :: ' ' :: self.expression.toList

/-- What a reader makes of an argument: its expression loses the blanks around it. -/
def trimmed (self : Argument) : Option String × String :=
  (self.label, String.ofList (trim self.expression.toList))

/-- An argument can be told from its text. -/
structure IsWritten (argument : Argument) : Prop where
  expression : IsExpression argument.expression.toList
  label : ∀ label ∈ argument.label, IsPlain label.toList
  unlabelled : argument.label = none → ¬StartsWithLabel argument.expression.toList

theorem isWritten_labelled {label expression : String} (hlabel : IsPlain label.toList)
    (h : IsExpression expression.toList) : IsWritten { label := some label, expression } where
  expression := h
  label := by
    rintro _ ⟨⟩
    exact hlabel
  unlabelled := nofun

variable {argument : Argument}

theorem IsWritten.isClosed (h : argument.IsWritten) : IsClosed argument.text := by
  unfold text
  split
  · exact h.expression.2
  · next label hlabel =>
    have hplain : IsPlain label.toList := h.label label hlabel
    have hmarks : IsClosed (':' :: ' ' :: argument.expression.toList) :=
      (h.expression.2.cons (by decide)).cons (by decide)
    exact hmarks.append_left fun c hc => notMem_scanned_of_isWord (hplain.isWord c hc)

theorem IsWritten.exists_notBlank (h : argument.IsWritten) :
    ∃ c ∈ argument.text, isBlank c = false := by
  obtain ⟨c, hc, hblank⟩ := h.expression.1
  refine ⟨c, ?_, hblank⟩
  unfold text
  split
  · exact hc
  · simp [hc]

/-- An argument is read back, whatever blanks stand in front of it. -/
theorem IsWritten.argumentOf_append (h : argument.IsWritten) {blanks : List Char}
    (hblanks : ∀ c ∈ blanks, isBlank c = true) :
    argumentOf (blanks ++ argument.text) = argument.trimmed := by
  unfold text trimmed
  cases hlabel : argument.label with
  | none =>
    have hnone : label? (blanks ++ argument.expression.toList) = none := by
      rw [label?, trimStart_append hblanks, ← label?]
      by_contra hsome
      exact h.unlabelled hlabel (startsWithLabel_iff.mpr (Option.isSome_iff_ne_none.mpr hsome))
    simp only [argumentOf, hnone, trim_append_left hblanks]
  | some label =>
    have hplain : IsPlain label.toList := h.label label hlabel
    have hcolon : (' ' :: argument.expression.toList).head? ≠ some ':' := by simp
    have hread : label? (blanks ++ (label.toList ++ ':' :: ' ' :: argument.expression.toList)) =
        some (label.toList, ' ' :: argument.expression.toList) :=
      label?_of_isPlain hblanks hplain (List.forall_mem_nil _) hcolon
    have htrim : trim (' ' :: argument.expression.toList) = trim argument.expression.toList :=
      trim_append_left isBlank_of_mem_space _
    simp only [argumentOf, hread, htrim, String.ofList_toList]

end Argument

/-! ### Lists of arguments -/

def argumentsText (arguments : List Argument) : List Char :=
  [',', ' '].intercalate (arguments.map (·.text))

def attributeText (name : String) (arguments : List Argument) : List Char :=
  '@' :: (name.toList ++ '(' :: (argumentsText arguments ++ [')']))

variable {arguments : List Argument}

theorem argumentsText_cons_cons (first second : Argument) (more : List Argument) :
    argumentsText (first :: second :: more) =
      first.text ++ (',' :: ' ' :: argumentsText (second :: more)) := by
  simp [argumentsText]

theorem groupLengthFrom_argumentsText (h : ∀ argument ∈ arguments, argument.IsWritten)
    {depth : Int} (hdepth : 0 < depth) (rest : List Char) :
    groupLengthFrom '(' ')' depth false (argumentsText arguments ++ rest) =
      (groupLengthFrom '(' ')' depth false rest).map (· + (argumentsText arguments).length) := by
  induction arguments with
  | nil => simp [argumentsText]
  | cons first more ih =>
    obtain ⟨hfirst, hmore⟩ := List.forall_mem_cons.mp h
    cases more with
    | nil => simpa [argumentsText] using hfirst.isClosed.groupLengthFrom_append hdepth rest
    | cons second more =>
      have hseparator (text : List Char) : groupLengthFrom '(' ')' depth false (',' :: ' ' :: text) =
          (groupLengthFrom '(' ')' depth false text).map (· + 2) := by
        simp [groupLengthFrom, Function.comp_def]
      rw [argumentsText_cons_cons, List.append_assoc,
        hfirst.isClosed.groupLengthFrom_append hdepth, List.cons_append, List.cons_append,
        hseparator, ih hmore]
      simp only [Option.map_map, Function.comp_def, List.length_append, List.length_cons]
      congr 1
      funext length
      omega

/-- The pieces of arguments are their texts, all but the first with a space in front. -/
theorem pieces_argumentsText {first : Argument} {more : List Argument}
    (h : ∀ argument ∈ first :: more, argument.IsWritten) :
    pieces (argumentsText (first :: more)) = first.text :: more.map (' ' :: ·.text) := by
  unfold pieces
  induction more generalizing first with
  | nil =>
    have hpassed : piecesFrom 0 false (first.text ++ []) = _ :=
      (h first List.mem_cons_self).isClosed.piecesFrom_append (by simp)
    simpa [argumentsText, piecesFrom, prepend] using hpassed
  | cons second more ih =>
    obtain ⟨hfirst, hmore⟩ := List.forall_mem_cons.mp h
    have hspace (text : List Char) :
        piecesFrom 0 false (' ' :: text) = prepend [' '] (piecesFrom 0 false text) := by
      simp [piecesFrom, isOpening, isClosing]
    rw [argumentsText_cons_cons, hfirst.isClosed.piecesFrom_append (by simp),
      piecesFrom_zero_comma, hspace, ih hmore]
    simp [prepend]

/-- **Arguments are read back.** What is read of an attribute are its arguments, with their labels
and with blanks trimmed from their expressions. -/
theorem argumentList_argumentsText {mark : Attribute}
    (hmark : mark.arguments = some (argumentsText arguments))
    (h : ∀ argument ∈ arguments, argument.IsWritten) :
    mark.argumentList = arguments.map (·.trimmed) := by
  have hkept (argument : Argument) (hargument : argument ∈ arguments) (blanks : List Char) :
      (!(trim (blanks ++ argument.text)).isEmpty) = true := by
    obtain ⟨c, hc, hblank⟩ := (h argument hargument).exists_notBlank
    have hne : trim (blanks ++ argument.text) ≠ [] := by
      intro hempty
      have hall := trim_eq_nil_iff.mp hempty c (List.mem_append_right _ hc)
      simp [hblank] at hall
    simpa using hne
  unfold Attribute.argumentList
  rw [hmark]
  cases arguments with
  | nil => rfl
  | cons first more =>
    obtain ⟨hfirst, hmore⟩ := List.forall_mem_cons.mp h
    have hall : ∀ piece ∈ first.text :: more.map (' ' :: ·.text),
        (!(trim piece).isEmpty) = true := by
      rw [List.forall_mem_cons, List.forall_mem_map]
      exact ⟨hkept first List.mem_cons_self [],
        fun argument hmem => hkept argument (List.mem_cons_of_mem _ hmem) [' ']⟩
    have hreadFirst : argumentOf first.text = first.trimmed :=
      hfirst.argumentOf_append (List.forall_mem_nil _)
    have hreadMore : ∀ argument ∈ more, argumentOf (' ' :: argument.text) = argument.trimmed := by
      intro argument hmem
      exact (hmore argument hmem).argumentOf_append isBlank_of_mem_space
    simp only [pieces_argumentsText h, List.filter_eq_self.mpr hall, List.map_cons, List.map_map,
      hreadFirst, List.cons.injEq, true_and]
    exact List.map_congr_left hreadMore

theorem headFrom_attributeText {keywords : List String} {offset : Nat} {name : String}
    (hname : IsAttributeName name.toList) (h : ∀ argument ∈ arguments, argument.IsWritten)
    (rest : List Char) :
    headFrom keywords offset (attributeText name arguments ++ rest) =
      (headFrom keywords (offset + (attributeText name arguments).length) rest).map fun head =>
        { head with
          attributes :=
            { name, arguments := some (argumentsText arguments), start := offset,
              stop := offset + (attributeText name arguments).length } :: head.attributes } := by
  have hgroup : groupLengthFrom '(' ')' 0 false ('(' :: (argumentsText arguments ++ ')' :: rest)) =
      some ((argumentsText arguments).length + 2) := by
    rw [groupLengthFrom]
    simp only [Char.reduceBEq, Bool.false_eq_true, if_false, if_true, Int.zero_add]
    rw [groupLengthFrom_argumentsText h (by decide)]
    simp [groupLengthFrom]
    omega
  have hlength : (attributeText name arguments).length =
      name.toList.length + (argumentsText arguments).length + 3 := by
    simp only [attributeText, List.length_cons, List.length_append, List.length_nil]
    omega
  have htext : attributeText name arguments ++ rest =
      '@' :: (name.toList ++ '(' :: (argumentsText arguments ++ ')' :: rest)) := by
    simp [attributeText]
  rw [htext, headFrom_attribute hname hgroup, hlength, String.ofList_toList]

theorem head_attributeText (keywords : List String) {name : String}
    (hname : IsAttributeName name.toList) (h : ∀ argument ∈ arguments, argument.IsWritten) :
    ∃ found mark, head keywords (attributeText name arguments) = .ok found ∧
      found.attributes = [mark] ∧ mark.name = name ∧
      mark.argumentList = arguments.map (·.trimmed) := by
  have hhead : headFrom keywords 0 (attributeText name arguments ++ []) = _ :=
    headFrom_attributeText hname h []
  rw [List.append_nil, headFrom_nil] at hhead
  exact ⟨_, _, hhead, rfl, rfl, argumentList_argumentsText rfl h⟩

end FluentBuilder.Syntax
