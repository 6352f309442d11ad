import FluentBuilder.Proofs.Outcomes
import FluentBuilder.Proofs.Text.Trimming
import FluentBuilder.Proofs.TypeExpr.Lexing
import FluentBuilder.Syntax.Head
import Mathlib.Tactic

/-!
# Where the attributes of a head stand

The attributes of a head are pieces of its text, in their order and apart from each other
(`headFrom_attributes`). Such a piece starts with the sign of attributes and ends with what is no
blank: with the last character of its name, or with the parenthesis that closes its arguments.
-/

namespace FluentBuilder.Syntax

open Text

/-! ### Trivia and groups -/

theorem skipFrom_suffix (within : Within) (text : List Char) : skipFrom within text <:+ text := by
  fun_induction skipFrom within text with
  | case1 => exact List.suffix_rfl
  | case8 => exact List.suffix_rfl
  | case2 | case3 | case4 | case5 | case6 | case7 =>
    exact List.IsSuffix.trans (by assumption) (List.suffix_cons _ _)

theorem getLast?_take_cons {c last : Char} {rest : List Char} {count : Nat}
    (h : (rest.take count).getLast? = some last) :
    ((c :: rest).take (count + 1)).getLast? = some last := by
  rw [List.take_succ_cons, List.getLast?_cons, h, Option.getD_some]

theorem groupLengthFrom_getLast {opening closing : Char} {depth : Int} {inString : Bool}
    {text : List Char} {length : Nat}
    (h : groupLengthFrom opening closing depth inString text = some length) :
    (text.take length).getLast? = some closing := by
  fun_induction groupLengthFrom opening closing depth inString text generalizing length with
  | case1 => cases h
  | case2 _ _ _ ih =>
    obtain ⟨count, hcount, rfl⟩ := Option.map_eq_some_iff.mp h
    exact getLast?_take_cons (getLast?_take_cons (ih hcount))
  | case6 _ _ _ _ _ hclosing _ =>
    obtain rfl := Option.some.inj h
    rw [beq_iff_eq.mp hclosing]
    rfl
  | case3 _ _ _ _ ih | case4 _ _ _ _ ih | case5 _ _ _ _ _ ih | case7 _ _ _ _ _ _ _ ih
  | case8 _ _ _ _ _ _ ih =>
    obtain ⟨count, hcount, rfl⟩ := Option.map_eq_some_iff.mp h
    exact getLast?_take_cons (ih hcount)

/-! ### Pieces of a head -/

/-- Whether a character is none of the blanks of ASCII that separate words of bytes. -/
def IsFirm (c : Char) : Prop := ¬(9 ≤ c.toNat ∧ c.toNat ≤ 13) ∧ c.toNat ≠ 32

/-- A piece of a text is an attribute: it starts with the sign of attributes and ends with what is
no blank. -/
structure IsMark (piece : List Char) : Prop where
  first : piece.head? = some '@'
  last : ∃ last, piece.getLast? = some last ∧ IsFirm last

theorem isFirm_of_isWord {c : Char} (h : isWord c = true) : IsFirm c := by
  have hunderscore : c = '_' ↔ c.toNat = 95 := by rw [← Char.toNat_inj]; rfl
  by_cases hascii : c.toNat < 128
  · simp only [isWord, hascii, if_true, Char.isAlphanum, Char.isAlpha, Char.isUpper, Char.isLower,
      Char.isDigit, Bool.or_eq_true, Bool.and_eq_true, decide_eq_true_eq, beq_iff_eq,
      UInt32.le_iff_toNat_le, ge_iff_le, hunderscore] at h
    have hval : c.val.toNat = c.toNat := rfl
    simp only [hval, Char.reduceVal, UInt32.reduceToNat] at h
    unfold IsFirm
    omega
  · unfold IsFirm
    omega

/-- The name of an attribute, with the sign in front of it, is a piece like an attribute. -/
theorem isMark_of_attributeName? {text name rest : List Char}
    (h : attributeName? text = some (name, rest)) :
    text = '@' :: name ++ rest ∧ IsMark ('@' :: name) := by
  unfold attributeName? at h
  split at h
  · next c tail =>
    split at h
    · next hstart =>
      simp only [Option.some.injEq, Prod.mk.injEq] at h
      obtain ⟨rfl, rfl⟩ := h
      have hfirm : ∀ d ∈ c :: tail.takeWhile (fun c => isWord c || c == '.'), IsFirm d := by
        intro d hd
        rcases List.mem_cons.mp hd with rfl | hd
        · exact isFirm_of_isWord (isWord_of_isWordStart hstart)
        · have hname := List.mem_takeWhile_imp hd
          rw [Bool.or_eq_true, beq_iff_eq] at hname
          rcases hname with hword | rfl
          · exact isFirm_of_isWord hword
          · exact ⟨by decide, by decide⟩
      refine ⟨by simp, rfl, _, List.getLast?_eq_some_getLast (by simp), ?_⟩
      rw [List.getLast_cons (by simp)]
      exact hfirm _ (List.getLast_mem _)
    · cases h
  · cases h

/-- The part that a text starts with is a piece of it, and if it is an attribute, it is one like an
attribute. -/
theorem headPart_eq_some {keywords : List String} {text rest : List Char} {part : HeadPart}
    (h : headPart keywords text = .ok (some (part, rest))) :
    ∃ piece, text = piece ++ rest ∧ ∀ name arguments, part = .attribute name arguments →
      IsMark piece := by
  unfold headPart at h
  split at h
  · next name after hname =>
    obtain ⟨rfl, hmark⟩ := isMark_of_attributeName? hname
    obtain ⟨length, hlength, h⟩ := bind_eq_ok.mp h
    obtain ⟨rfl, rfl⟩ := Prod.mk.inj (Option.some.inj (Except.ok.inj h))
    refine ⟨'@' :: name ++ after.take length, by simp, fun _ _ _ => ⟨rfl, ?_⟩⟩
    unfold argumentsLength at hlength
    split at hlength
    · next tail =>
      unfold groupLength at hlength
      split at hlength
      · next found hfound =>
        obtain rfl := Except.ok.inj hlength
        refine ⟨')', ?_, by decide, by decide⟩
        rw [List.getLast?_append, groupLengthFrom_getLast hfound, Option.some_or]
      · cases hlength
    · obtain rfl := Except.ok.inj hlength
      simpa using hmark.last
  · split at h
    · cases h
    · next word after hword =>
      obtain rfl := append_of_word? hword
      split at h
      · obtain ⟨rfl, rfl⟩ := by simpa using h
        exact ⟨word, rfl, nofun⟩
      · obtain ⟨length, -, h⟩ := bind_eq_ok.mp h
        obtain ⟨rfl, rfl⟩ := Prod.mk.inj (Option.some.inj (Except.ok.inj h))
        exact ⟨word ++ after.take length, by simp, nofun⟩

/-- Behind the trivia that a text starts with stands the part, and behind it the rest. -/
theorem exists_gap_of_headPart {keywords : List String} {text rest : List Char} {part : HeadPart}
    (h : headPart keywords (skipTrivia text) = .ok (some (part, rest))) :
    ∃ gap piece, text = gap ++ piece ++ rest ∧ skipTrivia text = piece ++ rest ∧
      ∀ name arguments, part = .attribute name arguments → IsMark piece := by
  obtain ⟨piece, hpiece, hmark⟩ := headPart_eq_some h
  obtain ⟨gap, hgap⟩ := skipFrom_suffix .code text
  refine ⟨gap, piece, ?_, hpiece, hmark⟩
  rw [List.append_assoc, ← hpiece]
  exact hgap.symm

/-! ### Heads -/

/-- An attribute stands in a text: it is a piece of it like an attribute. -/
def Attribute.StandsIn (text : List Char) (mark : Attribute) : Prop :=
  ∃ before piece after, text = before ++ piece ++ after ∧ mark.start = before.length ∧
    mark.stop = before.length + piece.length ∧ IsMark piece

theorem Attribute.StandsIn.isMark {text : List Char} {mark : Attribute} (h : mark.StandsIn text) :
    IsMark ((text.take mark.stop).drop mark.start) := by
  obtain ⟨before, piece, after, rfl, hstart, hstop, hmark⟩ := h
  rw [hstop, hstart, ← List.length_append, List.take_left, List.drop_left]
  exact hmark

/-- **Attributes of a head are pieces of its text**, one behind the other. -/
theorem headFrom_attributes {keywords : List String} {offset : Nat} {front text : List Char}
    {head : Head} (hfront : front.length = offset)
    (h : headFrom keywords offset text = .ok head) :
    (∀ mark ∈ head.attributes, mark.StandsIn (front ++ text) ∧ offset ≤ mark.start) ∧
      head.attributes.Pairwise fun a b => a.stop ≤ b.start := by
  -- what is read behind a part has all that stands before it as its front
  fun_induction headFrom keywords offset text generalizing front head with
  | case1 => cases h
  | case2 | case3 =>
    obtain rfl := Except.ok.inj h
    simp
  | case4 offset text rest stop word hpart =>
    rename_i ih
    obtain ⟨gap, piece, rfl, -, -⟩ := exists_gap_of_headPart hpart
    obtain ⟨found, hrest, h⟩ := bind_eq_ok.mp h
    obtain rfl := Except.ok.inj h
    have hstop : (front ++ gap ++ piece).length = stop := by
      simp only [stop, hfront, List.length_append]
      omega
    obtain ⟨hmarks, hsorted⟩ := ih hstop hrest
    refine ⟨fun mark hmark => ?_, hsorted⟩
    obtain ⟨hstands, hle⟩ := hmarks mark hmark
    refine ⟨by simpa using hstands, ?_⟩
    simp only [List.length_append] at hstop
    omega
  | case5 offset text start rest stop name arguments hpart =>
    rename_i ih
    obtain ⟨gap, piece, rfl, hskipped, hmark⟩ := exists_gap_of_headPart hpart
    obtain ⟨found, hrest, h⟩ := bind_eq_ok.mp h
    obtain rfl := Except.ok.inj h
    have hstart : (front ++ gap).length = start := by
      simp only [start, hskipped, hfront, List.length_append]
      omega
    have hstop : (front ++ gap ++ piece).length = stop := by
      simp only [stop, hfront, List.length_append]
      omega
    obtain ⟨hmarks, hsorted⟩ := ih hstop hrest
    simp only [List.length_append] at hstart hstop
    refine ⟨fun mark hin => ?_, List.pairwise_cons.mpr ⟨fun mark hin => (hmarks mark hin).2,
      hsorted⟩⟩
    rcases List.mem_cons.mp hin with rfl | hin
    · refine ⟨⟨front ++ gap, piece, rest, by simp, ?_, ?_, hmark _ _ rfl⟩, ?_⟩ <;>
        simp only [List.length_append] <;> omega
    · obtain ⟨hstands, hle⟩ := hmarks mark hin
      exact ⟨by simpa using hstands, by omega⟩

/-- The attributes of the head of a text are pieces of it, one behind the other. -/
theorem head_attributes {keywords : List String} {text : List Char} {found : Head}
    (h : head keywords text = .ok found) :
    (∀ mark ∈ found.attributes, mark.StandsIn text) ∧
      found.attributes.Pairwise fun a b => a.stop ≤ b.start := by
  obtain ⟨hmarks, hsorted⟩ := headFrom_attributes (List.length_nil (α := Char)) h
  exact ⟨fun mark hmark => (hmarks mark hmark).1, hsorted⟩

/-! ### Reading a head -/

theorem skipFrom_append_blanks {blanks : List Char} (h : ∀ c ∈ blanks, isBlank c = true)
    (rest : List Char) : skipFrom .code (blanks ++ rest) = skipFrom .code rest := by
  induction blanks with
  | nil => rfl
  | cons c blanks ih =>
    obtain ⟨hc, hblanks⟩ := List.forall_mem_cons.mp h
    have hslash : c ≠ '/' := by
      rintro rfl
      exact absurd hc (by decide)
    rw [List.cons_append, skipFrom]
    simp [hslash, hc, ih hblanks]

theorem skipTrivia_append_blanks {blanks : List Char} (h : ∀ c ∈ blanks, isBlank c = true)
    (rest : List Char) : skipTrivia (blanks ++ rest) = skipTrivia rest :=
  skipFrom_append_blanks h rest

/-- Nothing is skipped where neither a blank nor a comment starts. -/
theorem skipTrivia_cons {c : Char} {rest : List Char} (hblank : isBlank c = false)
    (hslash : c ≠ '/') : skipTrivia (c :: rest) = c :: rest := by
  simp [skipTrivia, skipFrom, hblank, hslash]

theorem skipTrivia_of_isPlain {w : List Char} (h : IsPlain w) (rest : List Char) :
    skipTrivia (w ++ rest) = w ++ rest := by
  obtain ⟨c, cs, rfl, hc, -⟩ := h
  refine skipTrivia_cons (isBlank_of_isWordStart hc) ?_
  rintro rfl
  exact absurd hc (by decide)

theorem word?_of_isPlain {w rest : List Char} (h : IsPlain w) (hrest : Breaks rest) :
    word? (w ++ rest) = some (w, rest) :=
  word?_eq_some_iff.mpr ⟨rfl, h.isTicked, .inr hrest⟩

theorem attributeName?_cons_of_ne {c : Char} (h : c ≠ '@') (rest : List Char) :
    attributeName? (c :: rest) = none := by
  unfold attributeName?
  split
  · next heq => exact absurd (List.cons.inj heq).1 h
  · rfl

theorem attributeName?_of_isPlain {w : List Char} (h : IsPlain w) (rest : List Char) :
    attributeName? (w ++ rest) = none := by
  obtain ⟨c, cs, rfl, hc, -⟩ := h
  refine attributeName?_cons_of_ne ?_ (cs ++ rest)
  rintro rfl
  exact absurd hc (by decide)

theorem headFrom_nil (keywords : List String) (offset : Nat) :
    headFrom keywords offset [] = .ok { stop := offset } := by
  have hnone : headPart keywords (skipTrivia []) = .ok none := rfl
  rw [headFrom]
  split
  · next h => simp [hnone] at h
  · simp [skipTrivia, skipFrom]
  · next h => simp [hnone] at h

/-! ### Steps -/

/-- A head with one more part in front, where the part stands and what is read behind it. -/
def Head.addPart (part : HeadPart) (start stop : Nat) (behind : Except Unbalanced Head) :
    Except Unbalanced Head :=
  match part with
  | .keyword word => .ok { keyword := some (String.ofList word), stop }
  | .modifier word => behind.map fun head =>
    { head with modifiers := String.ofList word :: head.modifiers }
  | .attribute name arguments => behind.map fun head =>
    { head with
      attributes := { name := String.ofList name, arguments, start, stop } :: head.attributes }

/-- One step reads the part behind some trivia and goes on behind it. -/
theorem headFrom_of_part {keywords : List String} {gap piece rest : List Char} {part : HeadPart}
    (hskip : skipTrivia (gap ++ (piece ++ rest)) = piece ++ rest)
    (hpart : headPart keywords (piece ++ rest) = .ok (some (part, rest))) (offset : Nat) :
    headFrom keywords offset (gap ++ (piece ++ rest)) =
      Head.addPart part (offset + gap.length) (offset + gap.length + piece.length)
        (headFrom keywords (offset + gap.length + piece.length) rest) := by
  have hstart : (gap ++ (piece ++ rest)).length - (piece ++ rest).length = gap.length := by
    rw [List.length_append]
    omega
  have hstop : offset + ((gap ++ (piece ++ rest)).length - rest.length) =
      offset + gap.length + piece.length := by
    simp only [List.length_append]
    omega
  rw [headFrom]
  split
  · next h => simp [hskip, hpart] at h
  · next h => simp [hskip, hpart] at h
  · next found after h =>
    rw [hskip, hpart] at h
    obtain ⟨rfl, rfl⟩ := by simpa using h
    simp only [hskip, hstart, hstop]
    rcases part with ⟨name, arguments⟩ | word | word
    · cases headFrom keywords (offset + gap.length + piece.length) rest <;> rfl
    · cases headFrom keywords (offset + gap.length + piece.length) rest <;> rfl
    · rfl

/-- A word that can be read, among the keywords, is read as the keyword. -/
theorem headPart_keyword {keywords : List String} {word rest : List Char} (hword : IsTicked word)
    (hkeyword : String.ofList word ∈ keywords) (hrest : Breaks rest) :
    headPart keywords (word ++ rest) = .ok (some (.keyword word, rest)) ∧
      skipTrivia (word ++ rest) = word ++ rest := by
  have hread : word? (word ++ rest) = some (word, rest) :=
    word?_eq_some_iff.mpr ⟨rfl, hword, .inr hrest⟩
  obtain ⟨c, cs, rfl, hc⟩ := hword.exists_cons
  have hne : c ≠ '@' ∧ c ≠ '/' ∧ isBlank c = false := by
    rcases hc with rfl | hc
    · decide
    · refine ⟨?_, ?_, isBlank_of_isWordStart hc⟩ <;>
        · rintro rfl
          exact absurd hc (by decide)
  have hnone : attributeName? (c :: cs ++ rest) = none :=
    attributeName?_cons_of_ne hne.1 (cs ++ rest)
  have hcontains : keywords.contains (String.ofList (c :: cs)) = true :=
    List.contains_iff_mem.mpr hkeyword
  refine ⟨?_, skipTrivia_cons hne.2.2 hne.2.1⟩
  rw [headPart, hnone, hread]
  simp only [hcontains, if_true]

theorem headFrom_keyword {keywords : List String} {offset : Nat} {blanks word rest : List Char}
    (hblanks : ∀ c ∈ blanks, isBlank c = true) (hword : IsPlain word)
    (hkeyword : String.ofList word ∈ keywords) (hrest : Breaks rest) :
    headFrom keywords offset (blanks ++ (word ++ rest)) =
      .ok { keyword := some (String.ofList word),
            stop := offset + (blanks.length + word.length) } := by
  obtain ⟨hpart, hskip⟩ := headPart_keyword hword.isTicked hkeyword hrest
  rw [headFrom_of_part ((skipTrivia_append_blanks hblanks _).trans hskip) hpart]
  simp only [Head.addPart, Nat.add_assoc]

def IsAttributeName (name : List Char) : Prop :=
  ∃ c rest, name = c :: rest ∧ isWordStart c = true ∧ ∀ d ∈ rest, (isWord d || d == '.') = true

theorem attributeName?_of_isAttributeName {name rest : List Char} (h : IsAttributeName name)
    (hrest : ∀ c ∈ rest.head?, (isWord c || c == '.') = false) :
    attributeName? ('@' :: (name ++ rest)) = some (name, rest) := by
  obtain ⟨c, cs, rfl, hc, hcs⟩ := h
  obtain ⟨htake, hdrop⟩ := span_append hcs hrest
  simp only [List.cons_append, attributeName?, hc, if_true, htake, hdrop]

theorem inside_group (opening closing : Char) (inner : List Char) :
    inside (opening :: (inner ++ [closing])) = inner := by
  simp [inside]

def groupText : Option (List Char) → List Char
  | none => []
  | some inner => '(' :: (inner ++ [')'])

/-- The part of a head that is an attribute, with its group if it has one. -/
theorem headPart_attributeName {keywords : List String} {name rest : List Char}
    {group : Option (List Char)} (hname : IsAttributeName name)
    (hlength : argumentsLength (groupText group ++ rest) = .ok (groupText group).length)
    (hbehind : ∀ c ∈ (groupText group ++ rest).head?, (isWord c || c == '.') = false) :
    headPart keywords ('@' :: (name ++ (groupText group ++ rest))) =
      .ok (some (.attribute name group, rest)) := by
  rw [headPart, attributeName?_of_isAttributeName hname hbehind]
  simp only [hlength, bind, Except.bind, pure, Except.pure, List.take_left, List.drop_left]
  cases group with
  | none => rfl
  | some inner => simp [groupText, inside_group]

theorem headPart_attribute {keywords : List String} {name arguments rest : List Char}
    (hname : IsAttributeName name)
    (hgroup : groupLengthFrom '(' ')' 0 false ('(' :: (arguments ++ ')' :: rest)) =
      some (arguments.length + 2)) :
    headPart keywords ('@' :: (name ++ '(' :: (arguments ++ ')' :: rest))) =
      .ok (some (.attribute name (some arguments), rest)) := by
  have hsplit : '(' :: (arguments ++ ')' :: rest) = groupText (some arguments) ++ rest := by
    simp [groupText]
  have hlength : argumentsLength ('(' :: (arguments ++ ')' :: rest)) =
      .ok (groupText (some arguments)).length := by
    simp [argumentsLength, groupLength, hgroup, groupText]
  have hparen : ∀ c ∈ ('(' :: (arguments ++ ')' :: rest)).head?, (isWord c || c == '.') = false := by
    simp
    decide
  rw [hsplit] at hlength hparen ⊢
  exact headPart_attributeName hname hlength hparen

theorem headFrom_attribute {keywords : List String} {offset : Nat} {name arguments rest : List Char}
    (hname : IsAttributeName name)
    (hgroup : groupLengthFrom '(' ')' 0 false ('(' :: (arguments ++ ')' :: rest)) =
      some (arguments.length + 2)) :
    headFrom keywords offset ('@' :: (name ++ '(' :: (arguments ++ ')' :: rest))) =
      (headFrom keywords (offset + (name.length + arguments.length + 3)) rest).map fun head =>
        { head with
          attributes := { name := String.ofList name, arguments := some arguments, start := offset,
                          stop := offset + (name.length + arguments.length + 3) } ::
            head.attributes } := by
  have hsplit : '@' :: (name ++ '(' :: (arguments ++ ')' :: rest)) =
      [] ++ ('@' :: (name ++ '(' :: (arguments ++ [')'])) ++ rest) := by simp
  have hlength : 0 + ('@' :: (name ++ '(' :: (arguments ++ [')']))).length =
      name.length + arguments.length + 3 := by
    simp only [List.length_cons, List.length_append, List.length_nil]
    omega
  have hpart : headPart keywords _ = _ := headPart_attribute hname hgroup
  have hskip : skipTrivia ('@' :: (name ++ '(' :: (arguments ++ ')' :: rest))) = _ :=
    skipTrivia_cons (by decide) (by decide)
  rw [hsplit] at hpart hskip ⊢
  rw [headFrom_of_part hskip hpart, List.length_nil, Nat.add_assoc, hlength]
  rfl

end FluentBuilder.Syntax
