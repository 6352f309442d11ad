import FluentBuilder.Proofs.Text.Trimming
import FluentBuilder.Proofs.TypeExpr.RoundTrip
import FluentBuilder.Syntax.Annotation

/-!
# Where the annotation of a canonical type ends

An annotation is cut out of a declaration before anything is known about the type: its characters
are passed one by one, and only brackets are counted. `annotation_render` says that what is cut out
is the text of the type, for every canonical type and whatever ends an annotation behind it.

A text is `Nested` if its brackets are closed in order, one inside the other, and commas stand in
brackets only. The scan passes such a text as a whole (`Nested.annotationLength_append`), since in
brackets it stops at nothing, and outside of them there is nothing for it to stop at. The text of a
canonical type is nested by the constructors (`Canonical.nested`).
-/

namespace FluentBuilder

namespace Syntax

open Text

/-! ### Nested brackets -/

def typeBrackets : List (Char × Char) := [('<', '>'), ('(', ')'), ('[', ']')]

theorem cases_of_mem_typeBrackets {opening closing : Char}
    (h : (opening, closing) ∈ typeBrackets) :
    (opening = '<' ∧ closing = '>') ∨ (opening = '(' ∧ closing = ')') ∨
      (opening = '[' ∧ closing = ']') := by
  simpa [typeBrackets] using h

/-- The characters that a scan for brackets may stop at or turn on. -/
def scanned : List Char :=
  ['-', '/', '<', '(', '[', '\x7b', '>', ')', ']', '\x7d', '=', ',', ';', '"']

/-- Brackets are closed in order. Outside of them commas stand only if these are allowed. -/
inductive Nested : (commas : Bool) → List Char → Prop
  | nil {commas : Bool} : Nested commas []
  | char {commas : Bool} {c : Char} {rest : List Char} (hc : c ∉ scanned)
      (hrest : Nested commas rest) : Nested commas (c :: rest)
  | comma {rest : List Char} (hrest : Nested true rest) : Nested true (',' :: rest)
  | arrow {commas : Bool} {rest : List Char} (hrest : Nested commas rest) :
      Nested commas ('-' :: '>' :: rest)
  | group {commas : Bool} {opening closing : Char} {inner rest : List Char}
      (hpair : (opening, closing) ∈ typeBrackets) (hinner : Nested true inner)
      (hrest : Nested commas rest) : Nested commas (opening :: (inner ++ closing :: rest))

theorem Nested.append {commas : Bool} {a b : List Char} (ha : Nested commas a)
    (hb : Nested commas b) : Nested commas (a ++ b) := by
  induction ha with
  | nil => exact hb
  | char hc _ ih => exact .char hc (ih hb)
  | comma _ ih => exact .comma (ih hb)
  | arrow _ ih => exact .arrow (ih hb)
  | group hpair hinner _ _ ih => simpa using Nested.group hpair hinner (ih hb)

/-- Commas may be allowed where there are none. -/
theorem Nested.allow {commas : Bool} {text : List Char} (h : Nested commas text) :
    Nested true text := by
  induction h with
  | nil => exact .nil
  | char hc _ ih => exact .char hc ih
  | comma _ ih => exact .comma ih
  | arrow _ ih => exact .arrow ih
  | group hpair hinner _ _ ih => exact .group hpair hinner ih

theorem nested_of_forall {commas : Bool} {text : List Char} (h : ∀ c ∈ text, c ∉ scanned) :
    Nested commas text := by
  induction text with
  | nil => exact .nil
  | cons c rest ih =>
    obtain ⟨hc, hrest⟩ := List.forall_mem_cons.mp h
    exact .char hc (ih hrest)

theorem nested_of_all {commas : Bool} {text : List Char}
    (h : text.all (fun c => !scanned.contains c) = true) : Nested commas text :=
  nested_of_forall fun c hc => by simpa using List.all_eq_true.mp h c hc

theorem notMem_scanned_of_isWord {c : Char} (h : isWord c = true) : c ∉ scanned := by
  have hnone : scanned.all (fun d => !isWord d) = true := by decide
  intro hmem
  simpa [h] using List.all_eq_true.mp hnone c hmem

theorem notMem_scanned_of_isBlank {c : Char} (h : isBlank c = true) : c ∉ scanned := by
  have hnone : scanned.all (fun d => !isBlank d) = true := by decide
  intro hmem
  simpa [h] using List.all_eq_true.mp hnone c hmem

theorem nested_of_isPlain {commas : Bool} {w : List Char} (h : IsPlain w) : Nested commas w :=
  nested_of_forall fun c hc => notMem_scanned_of_isWord (h.isWord c hc)

theorem nested_angles {commas : Bool} {inner : List Char} (h : Nested true inner) :
    Nested commas ('<' :: (inner ++ ['>'])) :=
  .group (by decide) h .nil

theorem nested_parens {commas : Bool} {inner : List Char} (h : Nested true inner) :
    Nested commas ('(' :: (inner ++ [')'])) :=
  .group (by decide) h .nil

theorem nested_squares {commas : Bool} {inner : List Char} (h : Nested true inner) :
    Nested commas ('[' :: (inner ++ [']'])) :=
  .group (by decide) h .nil

/-! ### The scan for the end of an annotation -/

theorem annotationLength_cons {depth : Int} {c : Char} {rest : List Char} (hc : c ∉ scanned) :
    annotationLength depth (c :: rest) = annotationLength depth rest + 1 := by
  simp only [scanned, List.mem_cons, List.not_mem_nil, or_false, not_or] at hc
  rw [annotationLength]
  · simp [hc]
  all_goals simp [hc]

theorem annotationLength_opening {depth : Int} {opening closing : Char} {rest : List Char}
    (hpair : (opening, closing) ∈ typeBrackets) :
    annotationLength depth (opening :: rest) = annotationLength (depth + 1) rest + 1 := by
  rcases cases_of_mem_typeBrackets hpair with ⟨rfl, -⟩ | ⟨rfl, -⟩ | ⟨rfl, -⟩ <;>
    simp [annotationLength]

theorem annotationLength_closing {depth : Int} {opening closing : Char} {rest : List Char}
    (hpair : (opening, closing) ∈ typeBrackets) :
    annotationLength depth (closing :: rest) = annotationLength (depth - 1) rest + 1 := by
  rcases cases_of_mem_typeBrackets hpair with ⟨-, rfl⟩ | ⟨-, rfl⟩ | ⟨-, rfl⟩ <;>
    simp [annotationLength]

/-- A nested text is passed as a whole, and leaves the depth as it was. -/
theorem Nested.annotationLength_append {commas : Bool} {text : List Char}
    (h : Nested commas text) {depth : Int} (hdepth : 0 ≤ depth) (hcommas : commas = true → 0 < depth)
    (rest : List Char) :
    annotationLength depth (text ++ rest) = annotationLength depth rest + text.length := by
  induction h generalizing depth rest with
  | nil => rfl
  | char hc _ ih =>
    rw [List.cons_append, annotationLength_cons hc, ih hdepth hcommas, List.length_cons]
    omega
  | comma _ ih =>
    have hne : depth ≠ 0 := (hcommas rfl).ne'
    rw [List.cons_append, annotationLength, List.length_cons, ih hdepth hcommas]
    · simp [hne]
      omega
    all_goals simp
  | arrow _ ih =>
    rw [List.cons_append, List.cons_append, annotationLength, ih hdepth hcommas]
    simp only [List.length_cons]
    omega
  | @group commas opening closing inner back hpair _ _ ihinner ih =>
    have hinner : annotationLength (depth + 1) (inner ++ closing :: (back ++ rest)) = _ :=
      ihinner (by omega) (fun _ => by omega) _
    have hback := ih hdepth hcommas rest
    rw [annotationLength_closing hpair, Int.add_sub_cancel, hback] at hinner
    simp only [List.cons_append, List.append_assoc, annotationLength_opening hpair, hinner,
      List.length_cons, List.length_append]
    omega

/-! ### What ends an annotation -/

/-- What an initial value, a body, a further binding, a further statement and a comment start
with. -/
def annotationEnds : List (List Char) :=
  [['='], ['\x7b'], [','], [';'], ['/', '/'], ['/', '*']]

/-- What may follow an annotation: blanks, and then nothing or what ends it. -/
def EndsAnnotation (tail : List Char) : Prop :=
  ∃ blanks rest, tail = blanks ++ rest ∧ (∀ c ∈ blanks, isBlank c = true) ∧
    (rest = [] ∨ ∃ mark ∈ annotationEnds, mark <+: rest)

theorem annotationLength_of_mark {mark rest : List Char} (hmark : mark ∈ annotationEnds)
    (h : mark <+: rest) : annotationLength 0 rest = 0 := by
  obtain ⟨after, rfl⟩ := h
  simp only [annotationEnds, List.mem_cons, List.not_mem_nil, or_false] at hmark
  rcases hmark with rfl | rfl | rfl | rfl | rfl | rfl <;> simp [annotationLength]

end Syntax

/-! ### The text of a canonical type -/

namespace TypeExpr

open Syntax Text

theorem nested_intercalate {texts : List String} (h : ∀ text ∈ texts, Nested true text.toList) :
    Nested true (", ".intercalate texts).toList := by
  induction texts with
  | nil => simpa using Nested.nil
  | cons first rest ih =>
    obtain ⟨hfirst, hrest⟩ := List.forall_mem_cons.mp h
    cases rest with
    | nil => simpa using hfirst
    | cons second rest =>
      have hcomma : Nested true (", ".toList ++ (", ".intercalate (second :: rest)).toList) :=
        .comma (.char (by decide) (ih hrest))
      rw [String.intercalate_cons_cons]
      simpa using hfirst.append hcomma

theorem nested_path {first : String} {more : List String} (hfirst : IsPlain first.toList)
    (hmore : ∀ w ∈ more, IsPlain w.toList) :
    Nested false (".".intercalate (first :: more)).toList := by
  rw [toList_intercalate_dot]
  refine nested_of_forall fun c hc => ?_
  rcases List.mem_append.mp hc with hc | hc
  · exact notMem_scanned_of_isWord (hfirst.isWord c hc)
  · obtain ⟨w, hw, hc⟩ := List.mem_flatMap.mp hc
    rcases List.mem_cons.mp hc with rfl | hc
    · decide
    · exact notMem_scanned_of_isWord ((hmore w hw).isWord c hc)

theorem nested_nominal {name : String} {ts : List TypeExpr} (hname : Nested false name.toList)
    (h : ∀ t ∈ ts, Nested false (render t).toList) :
    Nested false (render (.nominal name ts)).toList := by
  rw [render]
  split
  · exact hname
  · have harguments : Nested true (", ".intercalate (renderAll ts)).toList := by
      refine nested_intercalate fun text htext => ?_
      rw [renderAll_eq_map] at htext
      obtain ⟨t, ht, rfl⟩ := List.mem_map.mp htext
      exact (h t ht).allow
    simpa using hname.append (nested_angles harguments)

theorem nested_markText {t : TypeExpr} {mark : String} (h : Nested false (render t).toList)
    (hmark : Nested false mark.toList) : Nested false (markText t (render t) mark).toList := by
  unfold markText
  split
  · simpa using (nested_parens h.allow).append hmark
  · simpa using h.append hmark

theorem nested_async (isAsync : Bool) :
    Nested false (if isAsync then " async" else "").toList := by
  cases isAsync
  · exact .nil
  · exact nested_of_all (by decide)

theorem nested_throws (throws : Bool) {thrown : Option TypeExpr}
    (h : ∀ t ∈ thrown, Nested false (render t).toList) :
    Nested false (if throws then " throws" ++ renderThrown thrown else "").toList := by
  have hword : Nested false " throws".toList := nested_of_all (by decide)
  cases throws with
  | false => exact .nil
  | true =>
    cases thrown with
    | none => simpa [renderThrown] using hword
    | some t =>
      have hthrown : Nested false ('(' :: ((render t).toList ++ [')'])) :=
        nested_parens (h t rfl).allow
      simpa [renderThrown] using hword.append hthrown

theorem Canonical.nested {t : TypeExpr} (h : Canonical t) : Nested false (render t).toList := by
  induction h with
  | nominal hfirst _ _ hmore _ ih =>
    exact nested_nominal (nested_path hfirst fun w hw => (hmore w hw).1) ih
  | constraint hw _ ih =>
    have htype : Nested false (' ' :: _) := .char (by decide) ih
    simpa [render] using (nested_of_isPlain (isPlain_of_isConstraintWord hw).1).append htype
  | composition _ _ ih ih' =>
    have hsecond : Nested false (" & ".toList ++ _) := (nested_of_all (by decide)).append ih'
    simpa [render] using ih.append hsecond
  | metatype _ ih =>
    have hsuffix : Nested false ".Type".toList := nested_of_all (by decide)
    simpa [render] using ih.append hsuffix
  | optional _ ih => exact nested_markText ih (nested_of_all (by decide))
  | unwrapped _ ih => exact nested_markText ih (nested_of_all (by decide))
  | array _ ih => simpa [render] using nested_squares ih.allow
  | dictionary _ _ ihk ihv =>
    have hvalue : Nested true (": ".toList ++ _) := (nested_of_all (by decide)).append ihv.allow
    simpa [render] using nested_squares (ihk.allow.append hvalue)
  | @tuple es _ hlabel _ ih =>
    have helements : Nested true (", ".intercalate (renderElements es)).toList := by
      refine nested_intercalate fun text htext => ?_
      rw [renderElements_eq_map] at htext
      obtain ⟨⟨label, t⟩, he, rfl⟩ := List.mem_map.mp htext
      have htype := (ih _ he).allow
      cases label with
      | none => simpa [labelText] using htype
      | some label =>
        have hcolon : Nested true (": ".toList ++ _) := (nested_of_all (by decide)).append htype
        by_cases hempty : label = ""
        · simpa [labelText, hempty] using htype
        · simpa [labelText, hempty] using (nested_of_isPlain (hlabel _ he label rfl).1).append hcolon
    simpa [render] using nested_parens helements
  | @function ps result isAsync throws thrown _ _ _ _ ihps ihresult iht =>
    have hparameters : Nested true (", ".intercalate (renderAll ps)).toList := by
      refine nested_intercalate fun text htext => ?_
      rw [renderAll_eq_map] at htext
      obtain ⟨t, ht, rfl⟩ := List.mem_map.mp htext
      exact (ihps t ht).allow
    have hresult : Nested false (" -> ".toList ++ (render result).toList) :=
      .char (by decide) (.arrow (.char (by decide) ihresult))
    have hlist : Nested false ("(" ++ ", ".intercalate (renderAll ps) ++ ")").toList := by
      simpa using nested_parens hparameters
    have heffects := (hlist.append (nested_async isAsync)).append (nested_throws throws iht)
    simpa [render] using heffects.append hresult

/-! ### The ends of a text of lexemes -/

theorem Token.Valid.exists_concat {token : Token} (h : token.Valid) :
    ∃ front c, token.chars = front ++ [c] ∧ isBlank c = false := by
  cases token with
  | arrow => exact ⟨['-'], '>', rfl, by decide⟩
  | ellipsis => exact ⟨['.', '.'], '.', rfl, by decide⟩
  | mark m => exact ⟨[], m.char, rfl, by cases m <;> decide⟩
  | word w =>
    obtain ⟨a, plain, b, -, rfl | rfl, hplain, rfl⟩ := h
    · obtain ⟨front, c, rfl⟩ := List.eq_nil_or_concat' plain |>.resolve_left hplain.ne_nil
      exact ⟨a ++ front, c, by simp [chars], isBlank_of_isWord (hplain.isWord c (by simp))⟩
    · exact ⟨a ++ plain, tick, rfl, by decide⟩
  | «attribute» text =>
    obtain ⟨w, rfl, hplain⟩ := h
    obtain ⟨front, c, rfl⟩ := List.eq_nil_or_concat' w |>.resolve_left hplain.ne_nil
    exact ⟨'@' :: front, c, rfl, isBlank_of_isWord (hplain.isWord c (by simp))⟩

/-- A text has no blank at either end if lexemes make it up. -/
theorem Spelled.trim_append {text : List Char} {l : List Lexeme} (h : Spelled text l)
    {blanks : List Char} (hblanks : ∀ c ∈ blanks, isBlank c = true) :
    trim (text ++ blanks) = text := by
  refine trim_append_right ?_ ?_ hblanks
  · obtain ⟨token, tail, rfl⟩ := h.head
    obtain ⟨-, hvalid, -⟩ := h.stands
    obtain ⟨c, cs, hchars, hc⟩ := hvalid.exists_cons
    simp [← h.chars_eq, Lexeme.chars, hchars, hc]
  · obtain ⟨front, x, rfl⟩ := List.eq_nil_or_concat' l |>.resolve_left h.ne_nil
    obtain ⟨-, -, hvalid, -⟩ := Lexeme.stands_append.mp h.stands
    obtain ⟨cs, c, hchars, hc⟩ := hvalid.exists_concat
    simp [← h.chars_eq, Lexeme.chars, hchars, ← List.append_assoc, hc]

/-- **The annotation of a canonical type is its text**, whatever ends it. -/
theorem annotation_render {t : TypeExpr} (h : Canonical t) {front blanks rest : List Char}
    (hfront : ∀ c ∈ front, isBlank c = true) (hblanks : ∀ c ∈ blanks, isBlank c = true)
    (hrest : rest = [] ∨ ∃ mark ∈ annotationEnds, mark <+: rest) :
    annotation (front ++ (render t).toList ++ blanks ++ rest) = (render t, rest) := by
  have hnested (text : List Char) (hall : ∀ c ∈ text, isBlank c = true) : Nested false text :=
    nested_of_forall fun c hc => notMem_scanned_of_isBlank (hall c hc)
  have hpassed : Nested false (front ++ (render t).toList ++ blanks) :=
    ((hnested front hfront).append h.nested).append (hnested blanks hblanks)
  have hstop : annotationLength 0 rest = 0 := by
    rcases hrest with rfl | ⟨mark, hmark, hprefix⟩
    · rfl
    · exact annotationLength_of_mark hmark hprefix
  have hlength := hpassed.annotationLength_append le_rfl (by simp) rest
  rw [hstop, Nat.zero_add] at hlength
  unfold annotation
  simp only [hlength, List.take_left, List.drop_left]
  rw [List.append_assoc, trim_append_left hfront,
    Spelled.trim_append h.settled.faithful.legible hblanks, String.ofList_toList]

end TypeExpr

end FluentBuilder
