import FluentBuilder.Proofs.Syntax.Annotations
import FluentBuilder.Proofs.TypeExpr.Parts
import FluentBuilder.Proofs.TypeExpr.Range

/-!
# Types that are kept by their text

Constraints, compositions and metatypes have no structure, only the text that they were written
with. `part_verbatim_slice` says what this text is, wherever such a type stands in what is read: it
is cut out of the text that is read, it has no blanks around it, and on its own it is read as the
type that it was cut out for.

The cut is made at lexemes (`Reads.isSlice`). Whatever holds where a name or a text that is kept is
read holds of every input around that place: this is one induction over the phrases (`Reads.finds`).
Only suffixes make a slice that reaches further to the left than what they are read from
(`Suffixes.isSlice`). That the slice is read alone as it was read in its place is the locality of
the reader, which is a part of what is known of every type that is read (`Readable`).
-/

namespace FluentBuilder.TypeExpr

open Syntax Text Lexeme

/-! ### Parts of a type -/

/-- A type that stands somewhere in a type, at any depth. -/
inductive Part : TypeExpr → TypeExpr → Prop
  | itself (t : TypeExpr) : Part t t
  | argument {name : String} {ts : List TypeExpr} {t part : TypeExpr} :
    t ∈ ts → Part t part → Part (.nominal name ts) part
  | optional {t part : TypeExpr} : Part t part → Part (.optional t) part
  | unwrapped {t part : TypeExpr} : Part t part → Part (.unwrapped t) part
  | array {t part : TypeExpr} : Part t part → Part (.array t) part
  | key {key value part : TypeExpr} : Part key part → Part (.dictionary key value) part
  | value {key value part : TypeExpr} : Part value part → Part (.dictionary key value) part
  | element {es : List (Option String × TypeExpr)} {e : Option String × TypeExpr}
      {part : TypeExpr} : e ∈ es → Part e.2 part → Part (.tuple es) part
  | parameter {ps : List TypeExpr} {result : TypeExpr} {isAsync throws : Bool}
      {thrown : Option TypeExpr} {t part : TypeExpr} :
    t ∈ ps → Part t part → Part (.function ps result isAsync throws thrown) part
  | result {ps : List TypeExpr} {result : TypeExpr} {isAsync throws : Bool}
      {thrown : Option TypeExpr} {part : TypeExpr} :
    Part result part → Part (.function ps result isAsync throws thrown) part
  | thrown {ps : List TypeExpr} {result : TypeExpr} {isAsync throws : Bool}
      {thrown : Option TypeExpr} {t part : TypeExpr} :
    t ∈ thrown → Part t part → Part (.function ps result isAsync throws thrown) part

theorem Readable.part {t part : TypeExpr} (h : Readable t) (hpart : Part t part) :
    Readable part := by
  induction hpart with
  | itself => exact h
  | argument hmem _ ih =>
    cases h with
    | word | member => cases hmem
    | arguments _ _ hts => exact ih (hts _ hmem)
  | optional _ ih =>
    cases h with
    | optional h => exact ih h
  | unwrapped _ ih =>
    cases h with
    | unwrapped h => exact ih h
  | array _ ih =>
    cases h with
    | array h => exact ih h
  | key _ ih =>
    cases h with
    | dictionary hkey _ => exact ih hkey
  | value _ ih =>
    cases h with
    | dictionary _ hvalue => exact ih hvalue
  | element hmem _ ih =>
    cases h with
    | tuple hes => exact ih (hes _ hmem)
  | parameter hmem _ ih =>
    cases h with
    | function hps => exact ih (hps _ hmem)
  | result _ ih =>
    cases h with
    | function _ hresult => exact ih hresult
  | thrown hmem _ ih =>
    cases h with
    | function _ _ hthrown => exact ih (hthrown _ hmem)

theorem part_verbatim {text text' : String} (h : Part (.verbatim text) (.verbatim text')) :
    text' = text := by
  cases h
  rfl

/-! ### Slices of an input -/

/-- The text is that of some lexemes in a row of the input, without the gap in front of them. -/
def IsSlice (input : List Lexeme) (text : String) : Prop :=
  ∃ row, row ≠ [] ∧ row <:+: input ∧ text = String.ofList (textOf row)

variable {input rest : List Lexeme} {text : String}

theorem IsSlice.of_suffix {input' : List Lexeme} (h : IsSlice input text)
    (hinput : input <:+ input') : IsSlice input' text := by
  obtain ⟨row, hne, hrow, htext⟩ := h
  exact ⟨row, hne, hrow.trans hinput.isInfix, htext⟩

theorem isSlice_front {front : List Lexeme} (hne : front ≠ []) (rest : List Lexeme) :
    IsSlice (front ++ rest) (String.ofList (textOf front)) :=
  ⟨front, hne, (List.prefix_append front rest).isInfix, rfl⟩

/-- The gap in front of lexemes is all that their text leaves out. -/
theorem textOf_suffix (row : List Lexeme) : textOf row <:+ row.flatMap chars := by
  cases row with
  | nil => exact List.suffix_rfl
  | cons first more =>
    rw [List.flatMap_cons, chars, List.append_assoc]
    exact List.suffix_append _ _

theorem IsSlice.isInfix {text : List Char} {slice : String} (h : IsSlice input slice)
    {tail : List Char} (htext : text = input.flatMap chars ++ tail) : slice.toList <:+: text := by
  obtain ⟨row, -, ⟨before, after, rfl⟩, rfl⟩ := h
  have hrow : row.flatMap chars <:+: text := by
    refine ⟨before.flatMap chars, after.flatMap chars ++ tail, ?_⟩
    simp [htext]
  rw [String.toList_ofList]
  exact (textOf_suffix row).isInfix.trans hrow

/-- What suffixes keep by its text starts where the type in front of them does. -/
theorem Suffixes.isSlice {front : List Lexeme} {chars : List Char} {bare t : TypeExpr}
    (h : Suffixes chars bare t input rest) (hchars : chars = textOf front) (hne : front ≠ [])
    (hbare : Part bare (.verbatim text) → IsSlice (front ++ input) text)
    (hpart : Part t (.verbatim text)) : IsSlice (front ++ input) text := by
  induction h generalizing front with
  | @question chars bare t g input rest _ ih =>
    subst hchars
    have hslice : IsSlice ((front ++ [⟨g, .mark .question⟩]) ++ input) text := by
      refine ih (by simp [textOf_append hne]) (by simp) (fun hwrapped => ?_) hpart
      cases hwrapped with
      | optional hwrapped => simpa using hbare hwrapped
    simpa using hslice
  | @exclamation chars bare t g input rest _ ih =>
    subst hchars
    have hslice : IsSlice ((front ++ [⟨g, .mark .exclamation⟩]) ++ input) text := by
      refine ih (by simp [textOf_append hne]) (by simp) (fun hwrapped => ?_) hpart
      cases hwrapped with
      | unwrapped hwrapped => simpa using hbare hwrapped
    simpa using hslice
  | @metatype chars chars' bare t g g' w input rest _ hchars' _ ih =>
    subst hchars
    have hfront : chars' = textOf (front ++ [⟨g, .mark .dot⟩, ⟨g', .word w⟩]) := by
      simp [hchars', textOf_append hne]
    have hslice : IsSlice ((front ++ [⟨g, .mark .dot⟩, ⟨g', .word w⟩]) ++ input) text := by
      refine ih hfront (by simp) (fun hkept => ?_) hpart
      rw [part_verbatim hkept, hfront]
      exact isSlice_front (by simp) input
    simpa using hslice
  | done => exact hbare hpart

/-! ### Where a part is read -/

/-- Whether a type is read at one place as a whole: a name, or a text that is kept. The others are
put together from what is read at several places. -/
def isUndivided : TypeExpr → Bool
  | .nominal .. | .verbatim _ => true
  | _ => false

/-- The type is a part of what the phrase gives. The part behind the first words of a name gives the
whole name, of which only the arguments are in it. Of the effects of a function only those count that
stand behind the ones before. -/
def Phrase.Holds (node : TypeExpr) : Phrase → Prop
  | .type t | .suffixed t | .primary t | .bracketed t | .parenthesized t => Part t node
  | .nominal _ t => Part t node ∧ t ≠ node
  | .joined => False
  | .arguments ts | .types ts => ∃ t ∈ ts, Part t node
  | .list es | .elements es => ∃ e ∈ es, Part e.2 node
  | .element e => Part e.2 node
  | .effects before after =>
    (∃ t ∈ after.thrown, Part t node) ∧ ∀ t ∈ before.thrown, ¬Part t node

/-- A property of inputs that holds wherever the type is read, and of all that ends so. -/
structure Finds (node : TypeExpr) (Q : List Lexeme → Prop) : Prop where
  suffix : ∀ {input input' : List Lexeme}, Q input → input <:+ input' → Q input'
  kept : ∀ {front rest : List Lexeme}, node = .verbatim (String.ofList (textOf front)) →
    Reads (.type node) (front ++ rest) rest → Q (front ++ rest)
  suffixes : ∀ {front input rest : List Lexeme} {bare t : TypeExpr},
    Reads (.primary bare) (front ++ input) input → Suffixes (textOf front) bare t input rest →
    (Part bare node → Q (front ++ input)) → Part t node → Q (front ++ input)
  named : ∀ {g w : List Char} {input rest : List Lexeme},
    Reads (.nominal (String.ofList (unticked w)) node) input rest → Q (⟨g, .word w⟩ :: input)

theorem exists_part_of_ofElements {es : List (Option String × TypeExpr)} {node : TypeExpr}
    (hnode : node.isUndivided = true) (h : Part (ofElements es) node) :
    ∃ e ∈ es, Part e.2 node := by
  unfold ofElements at h
  split at h
  · exact ⟨_, List.mem_singleton_self _, h⟩
  · cases h with
    | itself => cases hnode
    | element hmem h => exact ⟨_, hmem, h⟩

/-- **A part of what is read is found in the input.** -/
theorem Reads.finds {node : TypeExpr} (hnode : node.isUndivided = true) {Q : List Lexeme → Prop}
    (hfinds : Finds node Q) {p : Phrase} {input rest : List Lexeme} (h : Reads p input rest)
    (hholds : p.Holds node) : Q input := by
  induction h with
  | constraint hstart hs hj hfront =>
    have hread := Reads.constraint hstart hs hj hfront
    rw [hfront] at hread ⊢
    cases hholds
    exact hfinds.kept rfl hread
  | join hstart hs hj hfront =>
    have hread := Reads.join hstart hs hj hfront
    rw [hfront] at hread ⊢
    cases hholds
    exact hfinds.kept rfl hread
  | single _ _ _ ih => exact ih hholds
  | joinedMore | joinedDone => exact hholds.elim
  | suffixed hp hfront hs ih =>
    subst hfront
    exact hfinds.suffixes hp hs ih hholds
  | parenthesized _ ih | bracketed _ ih | arguments _ ih =>
    exact hfinds.suffix (ih hholds) (List.suffix_cons _ _)
  | @nominal t _ _ _ _ hn ih =>
    by_cases hself : t = node
    · subst hself
      exact hfinds.named hn
    · exact hfinds.suffix (ih ⟨hholds, hself⟩) (List.suffix_cons _ _)
  | dictionary hk _ ihk ihv =>
    cases hholds with
    | itself => cases hnode
    | key hholds => exact ihk hholds
    | value hholds => exact hfinds.suffix (ihv hholds) ((List.suffix_cons _ _).trans hk.suffix)
  | array _ ih =>
    cases hholds with
    | itself => cases hnode
    | array hholds => exact ih hholds
  | member ha _ _ _ ihn =>
    refine hfinds.suffix (ihn hholds) ?_
    exact (List.suffix_cons _ _).trans ((List.suffix_cons _ _).trans ha.suffix)
  | nominalDone _ _ ih =>
    obtain ⟨hpart, hself⟩ := hholds
    cases hpart with
    | itself => exact absurd rfl hself
    | argument hmem hpart => exact ih ⟨_, hmem, hpart⟩
  | argumentsNone | listNil =>
    obtain ⟨_, hmem, -⟩ := hholds
    cases hmem
  | typesMore ht _ iht ihts =>
    obtain ⟨t, hmem, hpart⟩ := hholds
    rcases List.mem_cons.1 hmem with rfl | hmem
    · exact iht hpart
    · exact hfinds.suffix (ihts ⟨t, hmem, hpart⟩) ((List.suffix_cons _ _).trans ht.suffix)
  | typesLast _ ih =>
    obtain ⟨t, hmem, hpart⟩ := hholds
    obtain rfl := List.mem_singleton.1 hmem
    exact ih hpart
  | function hl he _ ihl ihe iht =>
    cases hholds with
    | itself => cases hnode
    | parameter hmem hpart =>
      obtain ⟨e, he, rfl⟩ := List.mem_map.1 hmem
      exact ihl ⟨e, he, hpart⟩
    | result hpart =>
      exact hfinds.suffix (iht hpart)
        ((List.suffix_cons _ _).trans (he.suffix.trans hl.suffix))
    | thrown hmem hpart => exact hfinds.suffix (ihe ⟨⟨_, hmem, hpart⟩, by simp⟩) hl.suffix
  | tuple _ _ _ ih => exact ih (exists_part_of_ofElements hnode hholds)
  | list _ _ ih => exact ih hholds
  | elementsMore he _ ihe ihes =>
    obtain ⟨e, hmem, hpart⟩ := hholds
    rcases List.mem_cons.1 hmem with rfl | hmem
    · exact ihe hpart
    · exact hfinds.suffix (ihes ⟨e, hmem, hpart⟩) ((List.suffix_cons _ _).trans he.suffix)
  | elementsLast _ ih =>
    obtain ⟨e, hmem, hpart⟩ := hholds
    obtain rfl := List.mem_singleton.1 hmem
    exact ih hpart
  | variadic ha hl hc _ ih =>
    cases hholds with
    | itself => cases hnode
    | array hpart => exact hfinds.suffix (ih hpart) (element_suffix ha hl hc).2
  | element ha hl hc _ _ ih => exact hfinds.suffix (ih hholds) (element_suffix ha hl hc).2
  | async _ ih | rethrows _ ih | throws _ _ ih =>
    exact hfinds.suffix (ih hholds) (List.suffix_cons _ _)
  | @throwsType _ _ t _ _ _ _ _ _ ht _ iht ih =>
    -- the thrown type that is read last is the one that counts
    have hskip {l l' : List Lexeme} {x y : Lexeme} (h : l <:+ l') : l <:+ x :: y :: l' :=
      h.trans ((List.suffix_cons _ _).trans (List.suffix_cons _ _))
    by_cases hthrown : Part t node
    · exact hfinds.suffix (iht hthrown) (hskip List.suffix_rfl)
    · refine hfinds.suffix (ih ⟨hholds.1, ?_⟩) (hskip ((List.suffix_cons _ _).trans ht.suffix))
      rintro _ ⟨⟩
      exact hthrown
  | effectsDone =>
    obtain ⟨⟨t, hmem, hpart⟩, hnone⟩ := hholds
    exact absurd hpart (hnone t hmem)

/-! ### What a phrase keeps -/

/-- A type that is kept by the text is a part of what the phrase gives. Of the effects of a function
only those count that stand behind the ones before. -/
def Phrase.Keeps (text : String) : Phrase → Prop
  | .type t | .suffixed t | .primary t | .bracketed t | .nominal _ t | .parenthesized t =>
    Part t (.verbatim text)
  | .joined => False
  | .arguments ts | .types ts => ∃ t ∈ ts, Part t (.verbatim text)
  | .list es | .elements es => ∃ e ∈ es, Part e.2 (.verbatim text)
  | .element e => Part e.2 (.verbatim text)
  | .effects before after =>
    (∃ t ∈ after.thrown, Part t (.verbatim text)) ∧ ∀ t ∈ before.thrown, ¬Part t (.verbatim text)

/-- A slice stands wherever a text is kept, and around it. -/
theorem finds_isSlice (text : String) :
    Finds (.verbatim text) fun input => IsSlice input text where
  suffix hslice hinput := hslice.of_suffix hinput
  kept hfront hread := by
    rw [TypeExpr.verbatim.inj hfront]
    exact isSlice_front (hread.ne_nil rfl) _
  suffixes hp hs hbare hpart := hs.isSlice rfl (hp.ne_nil rfl) hbare hpart
  named hread := by
    obtain ⟨_, _, hname⟩ := hread.nominal_shape rfl
    cases hname

/-- **What a phrase keeps by its text is a slice of its input.** -/
theorem Reads.isSlice {p : Phrase} (h : Reads p input rest) (hkeeps : p.Keeps text) :
    IsSlice input text := by
  refine h.finds rfl (finds_isSlice text) ?_
  cases p with
  | nominal name t =>
    refine ⟨hkeeps, ?_⟩
    rintro rfl
    obtain ⟨_, _, hname⟩ := h.nominal_shape rfl
    cases hname
  | _ => exact hkeeps

/-! ### Whole texts -/

/-- **A type that is kept by its text is a slice of what is read.** Wherever it stands, its text is
a piece of the whole without blanks around it, and on its own it is read as the same type. -/
theorem part_verbatim_slice {text slice : String} {t : TypeExpr} (h : ofString text = .ok t)
    (hpart : Part t (.verbatim slice)) :
    slice.toList <:+: text.toList ∧ trim slice.toList = slice.toList ∧
      ofString slice = .ok (.verbatim slice) := by
  have hreadable := readable_of_ofString h
  obtain ⟨l, hl, hread⟩ := ofString_eq_ok_iff.1 h
  obtain ⟨tail, -, htext, -⟩ := ofChars_eq_ok_iff.1 hl
  cases hreadable.part hpart with
  | verbatim hfaithful =>
    have hspelled : Spelled slice.toList (verbatim slice).lexemes := by
      simpa [Legible, render] using hfaithful.legible
    refine ⟨(hread.isSlice hpart).isInfix htext, ?_, ?_⟩
    · simpa using hspelled.trim_append (List.forall_mem_nil _)
    · simpa [render] using hfaithful.ofString_render

/-- A text with a constraint and a composition inside, in a layout that is not the canonical one. -/
def looseText : String := "( @escaping (x :  any  P< A >) ->[ `A` &B.Type ] , Int)"

def looseType : TypeExpr :=
  .tuple [(none, .function [.verbatim "any  P< A >"] (.array (.verbatim "`A` &B.Type")) false false
    none), (none, .nominal "Int" [])]

theorem part_verbatim_slice_loose :
    ofString looseText = .ok looseType ∧ Part looseType (.verbatim "`A` &B.Type") ∧
      "`A` &B.Type".toList <:+: looseText.toList ∧
      trim "`A` &B.Type".toList = "`A` &B.Type".toList ∧
      ofString "`A` &B.Type" = .ok (.verbatim "`A` &B.Type") := by
  have hread : ofString looseText = .ok looseType := by cbv
  have hpart : Part looseType (.verbatim "`A` &B.Type") :=
    .element (List.mem_cons_self) (.result (.array (.itself _)))
  exact ⟨hread, hpart, part_verbatim_slice hread hpart⟩

end FluentBuilder.TypeExpr
