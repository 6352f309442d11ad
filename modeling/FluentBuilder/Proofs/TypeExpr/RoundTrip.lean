import FluentBuilder.Proofs.TypeExpr.Recovery

/-!
# Canonical types are read back

`ofString_render_of_canonical`: the text of a canonical type is read as this type. Canonical are the
types without anything that the text of a type loses: names without backticks, no first word that
the reader takes for something else, lists that are lists, and of the types that are kept by their
text the constraints, compositions and metatypes of names.

The proof is by the constructors. Beside being faithful, a canonical type does not start with
`inout`, and starts with a constraint only if it needs parentheses in front of a mark
(`Canonical.settled`).
-/

namespace FluentBuilder.TypeExpr

open Text Lexeme

/-- Types whose text says all about them. -/
inductive Canonical : TypeExpr → Prop where
  /-- Plain words with dots between them, the first of which is none of `any`, `some` and `inout`
  and the others none of `Type` and `Protocol`, and canonical arguments. -/
  | nominal {first : String} {more : List String} {ts : List TypeExpr} :
    IsPlain first.toList → isConstraintWord first.toList = false → first.toList ≠ inoutWord →
    (∀ w ∈ more, IsPlain w.toList ∧ isMetatypeSuffix w.toList = false) →
    (∀ t ∈ ts, Canonical t) → Canonical (.nominal (".".intercalate (first :: more)) ts)
  /-- `any N` and `some N`. -/
  | constraint {w : String} {name : String} {ts : List TypeExpr} :
    isConstraintWord w.toList = true → Canonical (.nominal name ts) →
    Canonical (.verbatim (w ++ " " ++ render (.nominal name ts)))
  /-- `N & M`. -/
  | composition {name name' : String} {ts ts' : List TypeExpr} :
    Canonical (.nominal name ts) → Canonical (.nominal name' ts') →
    Canonical (.verbatim (render (.nominal name ts) ++ " & " ++ render (.nominal name' ts')))
  /-- `N.Type`. -/
  | metatype {name : String} {ts : List TypeExpr} :
    Canonical (.nominal name ts) → Canonical (.verbatim (render (.nominal name ts) ++ ".Type"))
  | optional {t : TypeExpr} : Canonical t → Canonical (.optional t)
  | unwrapped {t : TypeExpr} : Canonical t → Canonical (.unwrapped t)
  | array {t : TypeExpr} : Canonical t → Canonical (.array t)
  | dictionary {key value : TypeExpr} :
    Canonical key → Canonical value → Canonical (.dictionary key value)
  /-- Any number of elements but a single one without a label. -/
  | tuple {es : List (Option String × TypeExpr)} :
    (∀ e ∈ es, Canonical e.2) →
    (∀ e ∈ es, ∀ label ∈ e.1, IsPlain label.toList ∧ label.toList ≠ inoutWord) →
    (∀ t, es ≠ [(none, t)]) → Canonical (.tuple es)
  /-- Only a function that throws has a thrown type. -/
  | function {ps : List TypeExpr} {result : TypeExpr} {isAsync throws : Bool}
      {thrown : Option TypeExpr} :
    (∀ t ∈ ps, Canonical t) → Canonical result → (∀ t ∈ thrown, Canonical t) →
    (thrown ≠ none → throws = true) → Canonical (.function ps result isAsync throws thrown)

theorem canonical_word {word : String} {ts : List TypeExpr} (hplain : IsPlain word.toList)
    (hconstraint : isConstraintWord word.toList = false) (hinout : word.toList ≠ inoutWord)
    (h : ∀ t ∈ ts, Canonical t) : Canonical (.nominal word ts) := by
  have hpath : Canonical (.nominal (".".intercalate [word]) ts) :=
    .nominal hplain hconstraint hinout (List.forall_mem_nil _) h
  simpa using hpath

theorem canonical_name {word : String} (hplain : IsPlain word.toList)
    (hconstraint : isConstraintWord word.toList = false) (hinout : word.toList ≠ inoutWord) :
    Canonical (.nominal word []) :=
  canonical_word hplain hconstraint hinout (List.forall_mem_nil _)

/-! ### Names -/

/-- The lexemes of the segments of a name behind the first. -/
def memberLexemes : List String → List Lexeme
  | [] => []
  | w :: more => ⟨[], .mark .dot⟩ :: ⟨[], .word w.toList⟩ :: memberLexemes more

theorem row_members {more : List String} (h : ∀ w ∈ more, IsPlain w.toList) :
    Row (more.flatMap fun w => '.' :: w.toList) (memberLexemes more) ∧
      Breaks (more.flatMap fun w => '.' :: w.toList) := by
  induction more with
  | nil => exact ⟨row_nil, breaks_nil⟩
  | cons w more ih =>
    obtain ⟨hrow, hbreaks⟩ := ih fun w hw => h w (List.mem_cons_of_mem _ hw)
    exact ⟨hrow.dotWord (h w (by simp)).isTicked hbreaks, breaks_mark (m := .dot)⟩

theorem toList_intercalate_dot {first : String} {more : List String} :
    (".".intercalate (first :: more)).toList =
      first.toList ++ more.flatMap fun w => '.' :: w.toList := by
  induction more generalizing first with
  | nil => simp
  | cons w more ih =>
    rw [String.intercalate_cons_cons]
    simp [ih]

theorem reads_members {first : String} {more : List String}
    (h : ∀ w ∈ more, IsPlain w.toList ∧ isMetatypeSuffix w.toList = false) :
    Reads (.nominal first (.nominal (".".intercalate (first :: more)) [])) (memberLexemes more)
      [] := by
  have hnone {rest : List Lexeme} (hrest : lookahead rest ≠ [.mark .less]) :
      Reads (.arguments []) rest rest := .argumentsNone hrest
  induction more generalizing first with
  | nil => exact .nominalDone (hnone (by simp [memberLexemes])) rfl
  | cons w more ih =>
    obtain ⟨hplain, hsuffix⟩ := h w (by simp)
    have hrest : Reads (.nominal (first ++ "." ++ w)
        (.nominal (".".intercalate ((first ++ "." ++ w) :: more)) [])) (memberLexemes more) [] :=
      ih fun w hw => h w (List.mem_cons_of_mem _ hw)
    refine .member (hnone (by simp [memberLexemes, lookahead_dot])) hsuffix ?_
    rw [unticked_of_plain hplain, String.ofList_toList, String.intercalate_cons_cons,
      ← String.intercalate_cons_append]
    exact hrest

theorem faithfulName_intercalate {first : String} {more : List String}
    (hfirst : IsPlain first.toList) (hconstraint : isConstraintWord first.toList = false)
    (hmore : ∀ w ∈ more, IsPlain w.toList ∧ isMetatypeSuffix w.toList = false) :
    FaithfulName (".".intercalate (first :: more))
      (⟨[], .word first.toList⟩ :: memberLexemes more) := by
  obtain ⟨hrow, hbreaks⟩ := row_members fun w hw => (hmore w hw).1
  refine ⟨⟨?_, _, _, rfl⟩, ?_, _, _, rfl⟩
  · rw [toList_intercalate_dot]
    exact hrow.word hfirst.isTicked hbreaks
  · have hn : Reads (.nominal (String.ofList (unticked first.toList))
        (.nominal (".".intercalate (first :: more)) [])) (memberLexemes more) [] := by
      rw [unticked_of_plain hfirst, String.ofList_toList]
      exact reads_members hmore
    refine .single ?_ (.suffixed (.nominal hn) (List.append_nil _).symm (.done rfl)) (by simp)
    by_contra hstart
    obtain ⟨w, hw, hw', -⟩ := startsConstraint_cons.1 (Bool.eq_true_of_not_eq_false hstart)
    obtain rfl := Token.word.inj hw
    exact absurd (hw'.symm.trans hconstraint) (by simp)

/-! ### Types that keep their text -/

/-- What is known of a canonical type: it is faithful, does not start with `inout`, and needs
parentheses if it starts with a constraint. -/
structure Settled (t : TypeExpr) : Prop where
  faithful : Faithful t
  inout : startsWithInout t = false
  constraint : t.needsParentheses = false → startsWithConstraint t = false

theorem Settled.mark_condition {t : TypeExpr} (h : Settled t) :
    if t.needsParentheses then startsWithInout t = false else startsWithConstraint t = false := by
  split
  · exact h.inout
  · next hparen => exact h.constraint (by simpa using hparen)

/-- A type whose text starts with a mark starts with no word. -/
theorem Faithful.settled_of_mark {t : TypeExpr} (h : Faithful t) {m : Mark} {l : List Lexeme}
    (hl : t.lexemes = ⟨[], .mark m⟩ :: l) : Settled t :=
  ⟨h, by simp [startsWithInout, h.legible.firstToken_eq hl],
    fun _ => startsWithConstraint_mark h.legible hl⟩

/-- Two types start with the same words if their lexemes start alike. -/
theorem Legible.firstToken_congr {t t' : TypeExpr} (h : t.Legible) (h' : t'.Legible)
    {l : List Lexeme} (hl : t'.lexemes = t.lexemes ++ l) : firstToken? t' = firstToken? t := by
  obtain ⟨token, tail, htail⟩ := h.head
  rw [h.firstToken_eq htail, h'.firstToken_eq (x := ⟨[], token⟩) (l := tail ++ l)]
  rw [hl, htail, List.cons_append]

theorem isPlain_of_isConstraintWord {w : List Char} (h : isConstraintWord w = true) :
    IsPlain w ∧ w ≠ inoutWord := by
  simp only [isConstraintWord, Bool.or_eq_true, beq_iff_eq] at h
  rcases h with rfl | rfl
  · exact ⟨isPlain_of_all (by decide) (by decide), by decide⟩
  · exact ⟨isPlain_of_all (by decide) (by decide), by decide⟩

/-- A faithful type is read with the suffixes that follow it, behind any gap. -/
theorem Faithful.reads_suffixed {t : TypeExpr} (h : Faithful t) (hparen : t.needsParentheses = false)
    (hstart : startsWithConstraint t = false) (gap : List Char) {rest : List Lexeme}
    (hrest : endsPrimary (lookahead rest) = true) (hsuffix : isSuffix (lookahead rest) = false) :
    Reads (.suffixed t) (regap gap t.lexemes ++ rest) rest := by
  have := h.takes hparen hstart t rest rest hrest (.done hsuffix)
  obtain ⟨token, tail, htail⟩ := h.legible.head
  rw [htail] at this ⊢
  exact this.suffixed_regap gap

/-- A type does not start with what ends another. -/
theorem Faithful.isClosing_eq {t : TypeExpr} (h : Faithful t) (gap : List Char)
    (rest : List Lexeme) : isClosing (lookahead (regap gap t.lexemes ++ rest)) = false := by
  obtain ⟨token, tail, htail⟩ := h.legible.head
  have hread := h.reads [] rfl
  rw [htail] at hread ⊢
  rcases hread.type_first with hx | hx | ⟨w, hx⟩
  all_goals
    simp only at hx
    subst hx
    simp [lookahead_cons, isClosing]

theorem settled_constraint {w : String} {t : TypeExpr} (hw : isConstraintWord w.toList = true)
    (h : Faithful t) (hparen : t.needsParentheses = false)
    (hstart : startsWithConstraint t = false) :
    Settled (.verbatim (w ++ " " ++ render t)) := by
  obtain ⟨hplain, hinout⟩ := isPlain_of_isConstraintWord hw
  have hspelled : Spelled (render (.verbatim (w ++ " " ++ render t))).toList
      (⟨[], .word w.toList⟩ :: regap [' '] t.lexemes) := by
    have := h.legible.spaced.word hplain.isTicked breaks_space
    exact ⟨by simpa [render] using this, _, _, rfl⟩
  have hneeds : needsParentheses (.verbatim (w ++ " " ++ render t)) = true := by
    simp [needsParentheses]
  refine ⟨⟨hspelled.legible, fun rest hrest => ?_, by simp [hneeds]⟩, ?_, by simp [hneeds]⟩
  · have hs := h.reads_suffixed hparen hstart [' '] (endsPrimary_of_isClosing hrest)
      (isSuffix_of_isClosing hrest)
    have htext := hspelled.textOf_eq
    rw [hspelled.lexemes_eq]
    have hread : Reads (.type (.verbatim (String.ofList (textOf
        (⟨[], .word w.toList⟩ :: regap [' '] t.lexemes)))))
        (⟨[], .word w.toList⟩ :: (regap [' '] t.lexemes ++ rest)) rest :=
      .constraint (startsConstraint_cons.2 ⟨_, rfl, hw, h.isClosing_eq [' '] rest⟩) hs
        (.joinedDone (ne_of_isClosing hrest rfl)) rfl
    rw [htext, String.ofList_toList, render] at hread
    exact hread
  · rw [startsWithInout, hspelled.legible.firstToken_eq hspelled.lexemes_eq]
    simpa using hinout

theorem lookahead_ampersand {gap : List Char} {rest : List Lexeme} :
    lookahead (⟨gap, .mark .ampersand⟩ :: rest) = [.mark .ampersand] := lookahead_cons (by simp)

theorem settled_composition {t t' : TypeExpr} (h : Settled t) (hparen : t.needsParentheses = false)
    (h' : Settled t') (hparen' : t'.needsParentheses = false) :
    Settled (.verbatim (render t ++ " & " ++ render t')) := by
  have hspelled : Spelled (render (.verbatim (render t ++ " & " ++ render t'))).toList
      (t.lexemes ++ ⟨[' '], .mark .ampersand⟩ :: regap [' '] t'.lexemes) := by
    have hamp : Row (' ' :: '&' :: ' ' :: (render t').toList)
        (⟨[' '], .mark .ampersand⟩ :: regap [' '] t'.lexemes) :=
      h'.faithful.legible.spaced.cons (x := ⟨[' '], .mark .ampersand⟩) (by simp; decide) trivial
        trivial (by simp)
    have := h.faithful.legible.append hamp breaks_space
    simpa [render] using this
  have hneeds : needsParentheses (.verbatim (render t ++ " & " ++ render t')) = true := by
    simp [needsParentheses]
  refine ⟨⟨hspelled.legible, fun rest hrest => ?_, by simp [hneeds]⟩, ?_, by simp [hneeds]⟩
  · have hs := h.faithful.takes hparen (h.constraint hparen) t
      (⟨[' '], .mark .ampersand⟩ :: (regap [' '] t'.lexemes ++ rest)) _
      (by rw [lookahead_ampersand]; rfl) (.done (by rw [lookahead_ampersand]; rfl))
    have hs' := h'.faithful.reads_suffixed hparen' (h'.constraint hparen') [' ']
      (endsPrimary_of_isClosing hrest) (isSuffix_of_isClosing hrest)
    have hj : Reads .joined (⟨[' '], .mark .ampersand⟩ :: (regap [' '] t'.lexemes ++ rest)) rest :=
      .joinedMore hs' (.joinedDone (ne_of_isClosing hrest rfl))
    have htext := hspelled.textOf_eq
    rw [hspelled.lexemes_eq]
    have hread := Reads.join (h.faithful.legible.startsConstraint_eq (h.constraint hparen) _) hs hj
      (List.append_assoc t.lexemes (⟨[' '], .mark .ampersand⟩ :: regap [' '] t'.lexemes) rest).symm
    rw [htext, String.ofList_toList, render] at hread
    rw [List.append_assoc, List.cons_append]
    exact hread
  · have := h.faithful.legible.firstToken_congr hspelled.legible hspelled.lexemes_eq
    rw [startsWithInout, this]
    exact h.inout

theorem settled_metatype {t : TypeExpr} (h : Settled t) (hparen : t.needsParentheses = false) :
    Settled (.verbatim (render t ++ ".Type")) := by
  have hspelled : Spelled (render (.verbatim (render t ++ ".Type"))).toList
      (t.lexemes ++ [⟨[], .mark .dot⟩, ⟨[], .word ['T', 'y', 'p', 'e']⟩]) := by
    have htype : IsPlain ['T', 'y', 'p', 'e'] := isPlain_of_all (by decide) (by decide)
    simpa [render] using h.faithful.legible.member htype.isTicked
  have hfirst := h.faithful.legible.firstToken_congr hspelled.legible hspelled.lexemes_eq
  have hstart : startsWithConstraint (.verbatim (render t ++ ".Type")) = false := by
    rw [startsWithConstraint, hfirst]
    exact h.constraint hparen
  refine ⟨faithful_of_takes hspelled.legible hstart fun u mid rest hmid hs => ?_, ?_, fun _ => hstart⟩
  · have htext := hspelled.textOf_eq
    rw [hspelled.lexemes_eq, htext] at hs
    rw [hspelled.lexemes_eq, List.append_assoc]
    refine h.faithful.takes hparen (h.constraint hparen) u _ rest ?_ (.metatype rfl rfl ?_)
    · simp [lookahead_dot, endsPrimary, endsName, isMember, isMetatypeSuffix, isEffect]
    · rw [h.faithful.legible.textOf_eq]
      simpa [render, chars, Token.chars, Mark.char] using hs
  · rw [startsWithInout, hfirst]
    exact h.inout

/-! ### Canonical types -/

theorem settled_name {first : String} {more : List String} {ts : List TypeExpr}
    (hfirst : IsPlain first.toList) (hconstraint : isConstraintWord first.toList = false)
    (hinout : first.toList ≠ inoutWord)
    (hmore : ∀ w ∈ more, IsPlain w.toList ∧ isMetatypeSuffix w.toList = false)
    (h : ∀ t ∈ ts, Settled t) : Settled (.nominal (".".intercalate (first :: more)) ts) := by
  have hname := faithfulName_intercalate hfirst hconstraint hmore
  have hbare : Spelled (render (.nominal (".".intercalate (first :: more)) [])).toList _ :=
    hname.toSpelled
  have hstart : startsWithConstraint (.nominal (".".intercalate (first :: more)) []) = false := by
    rw [startsWithConstraint, hbare.legible.firstToken_eq hbare.lexemes_eq]
    exact hconstraint
  have hfaithful := faithful_nominal hname (fun t ht => (h t ht).faithful) fun _ => hstart
  have hfirst : firstToken? (.nominal (".".intercalate (first :: more)) ts) =
      some (.word first.toList) := by
    by_cases hts : ts = []
    · subst hts
      exact hbare.legible.firstToken_eq hbare.lexemes_eq
    · have hspelled := spelled_nominal hname.toSpelled (fun t ht => (h t ht).faithful.legible) hts
      exact hfaithful.legible.firstToken_eq hspelled.lexemes_eq
  refine ⟨hfaithful, ?_, fun _ => ?_⟩
  · simpa [startsWithInout, hfirst] using hinout
  · simpa [startsWithConstraint, hfirst] using hconstraint

theorem Settled.marked {t marked : TypeExpr} {mark : Mark} (h : Settled t)
    (hmarked : Faithful marked) (hlexemes : marked.lexemes = markedLexemes t mark) :
    Settled marked := by
  unfold markedLexemes at hlexemes
  split at hlexemes
  · exact hmarked.settled_of_mark hlexemes
  · next hparen =>
    have hfirst := h.faithful.legible.firstToken_congr hmarked.legible hlexemes
    refine ⟨hmarked, ?_, fun _ => ?_⟩
    · rw [startsWithInout, hfirst]
      exact h.inout
    · rw [startsWithConstraint, hfirst]
      exact h.constraint (by simpa using hparen)

theorem Canonical.settled {t : TypeExpr} (h : Canonical t) : Settled t := by
  induction h with
  | nominal hfirst hconstraint hinout hmore _ ih =>
    exact settled_name hfirst hconstraint hinout hmore ih
  | constraint hw _ ih => exact settled_constraint hw ih.faithful rfl (ih.constraint rfl)
  | composition _ _ ih ih' => exact settled_composition ih rfl ih' rfl
  | metatype _ ih => exact settled_metatype ih rfl
  | optional _ ih =>
    exact ih.marked (faithful_optional ih.faithful ih.mark_condition)
      (spelled_optional ih.faithful.legible).lexemes_eq
  | unwrapped _ ih =>
    exact ih.marked (faithful_unwrapped ih.faithful ih.mark_condition)
      (spelled_unwrapped ih.faithful.legible).lexemes_eq
  | array _ ih =>
    exact (faithful_array ih.faithful).settled_of_mark (spelled_array ih.faithful.legible).lexemes_eq
  | dictionary _ _ ihk ihv =>
    exact (faithful_dictionary ihk.faithful ihv.faithful).settled_of_mark
      (spelled_dictionary ihk.faithful.legible ihv.faithful.legible).lexemes_eq
  | @tuple es _ hlabel hsingle ih =>
    have helement : ∀ e ∈ es, FaithfulElement e := fun e he =>
      ⟨(ih e he).faithful, (ih e he).inout, hlabel e he⟩
    exact (faithful_tuple helement hsingle).settled_of_mark
      (spelled_tuple (fun e he => (ih e he).faithful.legible)
        fun e he label hl => (hlabel e he label hl).1).lexemes_eq
  | function _ _ _ hthrown ihps ihresult iht =>
    exact (faithful_function (fun t ht => ⟨(ihps t ht).faithful, (ihps t ht).inout⟩)
      ihresult.faithful (fun t ht => (iht t ht).faithful) hthrown).settled_of_mark
      (spelled_function (fun t ht => (ihps t ht).faithful.legible) ihresult.faithful.legible
        fun t ht => (iht t ht).faithful.legible).lexemes_eq

/-- The text of a canonical type is read as the type. -/
theorem ofString_render_of_canonical {t : TypeExpr} (h : Canonical t) :
    ofString (render t) = .ok t :=
  h.settled.faithful.ofString_render

/-- A function on an optional of `any P`, which gives a tuple with a label. -/
theorem ofString_render_callback :
    Canonical (.function [.optional (.verbatim "any P")]
      (.tuple [(some "key", .nominal "P" []), (none, .nominal "P" [])]) false true none) ∧
    ofString "((any P)?) throws -> (key: P, P)" =
      .ok (.function [.optional (.verbatim "any P")]
        (.tuple [(some "key", .nominal "P" []), (none, .nominal "P" [])]) false true none) := by
  have hp : Canonical (.nominal "P" []) := by
    have : Canonical (.nominal (".".intercalate ["P"]) []) :=
      .nominal ⟨'P', [], rfl, by decide, by simp⟩ (by decide) (by decide) (by simp) (by simp)
    simpa using this
  have hany : Canonical (.verbatim "any P") := .constraint (w := "any") (by decide) hp
  have hkey : IsPlain "key".toList := isPlain_of_all (by decide) (by decide)
  have htuple : Canonical (.tuple [(some "key", .nominal "P" []), (none, .nominal "P" [])]) := by
    refine .tuple ?_ ?_ (by simp)
    · simpa using hp
    · simpa using ⟨hkey, by decide⟩
  have h : Canonical (.function [.optional (.verbatim "any P")]
      (.tuple [(some "key", .nominal "P" []), (none, .nominal "P" [])]) false true none) :=
    .function (by simpa using hany.optional) htuple (by simp) (by simp)
  exact ⟨h, ofString_render_of_canonical h⟩

end FluentBuilder.TypeExpr
