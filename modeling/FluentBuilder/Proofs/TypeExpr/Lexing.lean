import FluentBuilder.Proofs.Text.Trimming
import FluentBuilder.TypeExpr.Token
import Mathlib

/-!
# Texts and their lexemes

`ofChars_eq_ok_iff`: a text has the lexemes `l` iff it is their characters, up to blanks at its end,
and each of them is the one found where it stands (`Stands`). A token is found if it is well formed
and is not longer there: a word must not go on, and a dot must not be the first of three
(`Token.first?_eq_some_iff`).

So lexemes in a row can be cut out of a text (`Stands.cut`), put behind other gaps
(`Stands.regap`), and followed by another text as long as that does not make the last token longer
(`Stands.followed`).
-/

namespace FluentBuilder

open Text

namespace Text

/-! ### Words -/

/-- A word without backticks. -/
def IsPlain (w : List Char) : Prop :=
  ∃ c cs, w = c :: cs ∧ isWordStart c = true ∧ ∀ d ∈ cs, isWord d = true

/-- A word with its backticks: one may stand on either side. -/
def IsTicked (w : List Char) : Prop :=
  ∃ a plain b, (a = [] ∨ a = [tick]) ∧ (b = [] ∨ b = [tick]) ∧ IsPlain plain ∧ w = a ++ plain ++ b

/-- The text does not go on with a word or a backtick. -/
def Breaks (text : List Char) : Prop := ∀ c ∈ text.head?, isWord c = false ∧ c ≠ tick

@[simp]
theorem breaks_nil : Breaks [] := by simp [Breaks]

@[simp]
theorem breaks_cons {c : Char} {text : List Char} :
    Breaks (c :: text) ↔ isWord c = false ∧ c ≠ tick := by
  simp [Breaks]

theorem mem_head?_of_starts {a text : List Char} (ha : a <+: text) {c : Char} (hc : c ∈ a.head?) :
    c ∈ text.head? := by
  obtain ⟨t, rfl⟩ := ha
  rw [List.head?_append, Option.mem_def.1 hc]
  rfl

theorem Breaks.truncate {a text : List Char} (h : Breaks text) (ha : a <+: text) : Breaks a :=
  fun c hc => h c (mem_head?_of_starts ha hc)

theorem isWord_tick : isWord tick = false := by decide

theorem isWordStart_iff {c : Char} :
    isWordStart c = true ↔
      (65 ≤ c.toNat ∧ c.toNat ≤ 90) ∨ (97 ≤ c.toNat ∧ c.toNat ≤ 122) ∨ c.toNat = 95 := by
  have hunderscore : c = '_' ↔ c.toNat = 95 := by rw [← Char.toNat_inj]; rfl
  simp only [isWordStart, Char.isAlpha, Char.isUpper, Char.isLower, Bool.or_eq_true,
    Bool.and_eq_true, decide_eq_true_eq, beq_iff_eq, UInt32.le_iff_toNat_le, ge_iff_le, hunderscore]
  exact or_assoc

theorem isWord_of_isWordStart {c : Char} (h : isWordStart c = true) : isWord c = true := by
  have hlt : c.toNat < 128 := by
    have := isWordStart_iff.1 h
    omega
  simp only [isWordStart, Bool.or_eq_true] at h
  simp only [isWord, hlt, if_true, Char.isAlphanum, Bool.or_eq_true]
  exact h.imp .inl id

theorem isBlank_of_isWordStart {c : Char} (h : isWordStart c = true) : isBlank c = false := by
  have := isWordStart_iff.1 h
  by_contra hblank
  simp only [Bool.not_eq_false, isBlank, Bool.or_eq_true, Bool.and_eq_true, decide_eq_true_eq,
    beq_iff_eq] at hblank
  omega

theorem ne_tick_of_isWordStart {c : Char} (h : isWordStart c = true) : c ≠ tick := by
  rintro rfl
  exact absurd h (by decide)

theorem isPlain_of_all {c : Char} {cs : List Char} (hc : isWordStart c = true)
    (hcs : cs.all Text.isWord = true) : IsPlain (c :: cs) :=
  ⟨c, cs, rfl, hc, List.all_eq_true.1 hcs⟩

theorem IsPlain.ne_nil {w : List Char} (h : IsPlain w) : w ≠ [] := by
  obtain ⟨c, cs, rfl, -⟩ := h
  simp

theorem IsPlain.isWord {w : List Char} (h : IsPlain w) : ∀ c ∈ w, Text.isWord c = true := by
  obtain ⟨c, cs, rfl, hc, hcs⟩ := h
  intro d hd
  rcases List.mem_cons.1 hd with rfl | hd
  · exact isWord_of_isWordStart hc
  · exact hcs d hd

theorem IsPlain.ne_tick {w : List Char} (h : IsPlain w) : ∀ c ∈ w, c ≠ tick := by
  rintro c hc rfl
  exact absurd (h.isWord _ hc) (by decide)

theorem IsPlain.isTicked {w : List Char} (h : IsPlain w) : IsTicked w :=
  ⟨[], w, [], .inl rfl, .inl rfl, h, by simp⟩

theorem IsTicked.exists_cons {w : List Char} (h : IsTicked w) :
    ∃ c cs, w = c :: cs ∧ (c = tick ∨ isWordStart c = true) := by
  obtain ⟨a, plain, b, ha, -, ⟨c, cs, rfl, hc, -⟩, rfl⟩ := h
  rcases ha with rfl | rfl
  · exact ⟨c, cs ++ b, by simp, .inr hc⟩
  · exact ⟨tick, c :: cs ++ b, by simp, .inl rfl⟩

theorem stripBoth_of_forall_ne {mark : Char} {text : List Char} (h : ∀ c ∈ text, c ≠ mark) :
    stripBoth mark text = text := by
  have hdrop : ∀ l : List Char, (∀ c ∈ l, c ≠ mark) → l.dropWhile (· == mark) = l := by
    intro l hl
    rcases l with _ | ⟨c, l⟩
    · rfl
    · simp [hl c (by simp)]
  unfold stripBoth
  rw [hdrop text h, hdrop text.reverse (by simpa using h), List.reverse_reverse]

theorem unticked_of_plain {w : List Char} (h : IsPlain w) : unticked w = w :=
  stripBoth_of_forall_ne h.ne_tick

/-- Only backticks are taken from a word, and all of them. -/
theorem unticked_of_parts {a plain b : List Char} (ha : a = [] ∨ a = [tick])
    (hb : b = [] ∨ b = [tick]) (hplain : IsPlain plain) : unticked (a ++ plain ++ b) = plain := by
  have hstart : (a ++ plain ++ b).dropWhile (· == tick) = plain ++ b := by
    obtain ⟨c, cs, rfl, hc, -⟩ := hplain
    rcases ha with rfl | rfl <;> simp [ne_tick_of_isWordStart hc]
  have hstop : (plain ++ b).reverse.dropWhile (· == tick) = plain.reverse := by
    have hkeep : plain.reverse.dropWhile (· == tick) = plain.reverse := by
      rcases hp : plain.reverse with _ | ⟨d, ds⟩
      · rfl
      · have hne : d ≠ tick := hplain.ne_tick d (by rw [← List.mem_reverse, hp]; simp)
        simp [hne]
    rcases hb with rfl | rfl <;> simp [hkeep]
  simp only [unticked, stripBoth, hstart, hstop, List.reverse_reverse]

theorem IsTicked.unticked {w : List Char} (h : IsTicked w) : IsPlain (unticked w) := by
  obtain ⟨a, plain, b, ha, hb, hplain, rfl⟩ := h
  rwa [unticked_of_parts ha hb hplain]

theorem dropTick_append {a text : List Char} (ha : a = [] ∨ a = [tick])
    (htext : ∀ c ∈ text.head?, c ≠ tick) : dropTick (a ++ text) = text := by
  rcases ha with rfl | rfl
  · rcases text with _ | ⟨c, text⟩
    · rfl
    · simp [dropTick, htext c rfl]
  · simp [dropTick]

/-- What is dropped from the start of a text is a backtick, or there is none. -/
theorem exists_append_dropTick (text : List Char) :
    ∃ a, text = a ++ dropTick text ∧ (a = [tick] ∨ a = [] ∧ ∀ c ∈ text.head?, c ≠ tick) := by
  rcases text with _ | ⟨c, text⟩
  · exact ⟨[], rfl, .inr ⟨rfl, by simp⟩⟩
  · by_cases hc : c = tick
    · exact ⟨[tick], by simp [dropTick, hc], .inl rfl⟩
    · exact ⟨[], by simp [dropTick, hc], .inr ⟨rfl, by simpa using hc⟩⟩

/-- What is left behind a word starts behind a backtick, or where the text breaks. -/
theorem exists_append_afterWord (text : List Char) :
    ∃ b, (b = [] ∨ b = [tick]) ∧
      text = text.takeWhile isWord ++ (b ++ dropTick (text.dropWhile isWord)) ∧
      (b = [tick] ∨ Breaks (dropTick (text.dropWhile isWord))) := by
  obtain ⟨b, hb, hend⟩ := exists_append_dropTick (text.dropWhile isWord)
  have hsplit : text = text.takeWhile isWord ++ (b ++ dropTick (text.dropWhile isWord)) := by
    rw [← hb, List.takeWhile_append_dropWhile]
  rcases hend with rfl | ⟨rfl, hhead⟩
  · exact ⟨[tick], .inr rfl, hsplit, .inl rfl⟩
  · refine ⟨[], .inl rfl, hsplit, .inr ?_⟩
    rw [List.nil_append] at hb
    rw [← hb]
    refine fun c hc => ⟨?_, hhead c hc⟩
    have hnot := List.head?_dropWhile_not isWord text
    rw [Option.mem_def.1 hc] at hnot
    simpa using hnot

theorem afterWord_of_breaks {text : List Char} (h : Breaks text) :
    dropTick (text.dropWhile isWord) = text := by
  rcases text with _ | ⟨c, text⟩
  · rfl
  · obtain ⟨hword, htick⟩ := breaks_cons.1 h
    simp [hword, dropTick, htick]

theorem word?_eq_some_iff {text w rest : List Char} :
    word? text = some (w, rest) ↔
      text = w ++ rest ∧ IsTicked w ∧ (w.getLast? = some tick ∨ Breaks rest) := by
  constructor
  · intro h
    have happend := append_of_word? h
    refine ⟨happend.symm, ?_⟩
    unfold word? at h
    split at h
    · simp at h
    · next c tail heq =>
      split at h
      · next hc =>
        obtain ⟨-, rfl⟩ := Prod.mk.inj (Option.some.inj h)
        obtain ⟨a, htext, ha⟩ := exists_append_dropTick text
        obtain ⟨b, hb, htail, hend⟩ := exists_append_afterWord tail
        have hw : w = a ++ (c :: tail.takeWhile isWord) ++ b := by
          refine List.append_cancel_right (happend.trans ?_)
          calc text = a ++ c :: tail := by rw [← heq]; exact htext
            _ = a ++ c :: (tail.takeWhile isWord ++ (b ++ dropTick (tail.dropWhile isWord))) := by
              rw [← htail]
            _ = _ := by simp
        have hplain : IsPlain (c :: tail.takeWhile isWord) := isPlain_of_all hc List.all_takeWhile
        refine ⟨⟨a, _, b, ha.symm.imp_left And.left, hb, hplain, hw⟩, hend.imp_left fun hb => ?_⟩
        rw [hw, hb, List.getLast?_concat]
      · simp at h
  · rintro ⟨rfl, ⟨a, plain, b, ha, hb, hplain, rfl⟩, hend⟩
    have hticks := hplain.ne_tick
    obtain ⟨c, cs, rfl, hc, hcs⟩ := hplain
    have hdrop : dropTick (a ++ c :: cs ++ b ++ rest) = c :: (cs ++ (b ++ rest)) := by
      rw [List.append_assoc, List.append_assoc]
      exact dropTick_append ha (by simpa using ne_tick_of_isWordStart hc)
    have hafter : dropTick ((cs ++ (b ++ rest)).dropWhile isWord) = rest := by
      rw [List.dropWhile_append_of_pos hcs]
      rcases hb with rfl | rfl
      · refine afterWord_of_breaks (hend.resolve_left fun hlast => ?_)
        simp only [List.append_nil, List.getLast?_append_cons] at hlast
        exact hticks tick (List.mem_of_getLast? hlast) rfl
      · simp [isWord_tick, dropTick]
    unfold word?
    rw [hdrop]
    simp only [hc, if_true, hafter]
    congr 2
    rw [List.length_append, Nat.add_sub_cancel, List.take_left]

theorem word?_eq_none {text : List Char}
    (h : ∀ c ∈ text.head?, isWordStart c = false ∧ c ≠ tick) : word? text = none := by
  rcases text with _ | ⟨c, text⟩
  · rfl
  · obtain ⟨hc, hne⟩ := h c (by simp)
    simp [word?, dropTick, hne, hc]

end Text

namespace TypeExpr

/-! ### Tokens -/

namespace Token

/-- The token is one that a text can hold. -/
def Valid : Token → Prop
  | .word w => IsTicked w
  | .attribute text => ∃ w, text = '@' :: w ∧ IsPlain w
  | _ => True

/-- The token does not go on in the text behind it. -/
def Ends : Token → List Char → Prop
  | .word w, after => w.getLast? = some tick ∨ Breaks after
  | .attribute _, after => ∀ c ∈ after.head?, isWord c = false
  | .mark .dot, after => ¬ ['.', '.'] <+: after
  | _, _ => True

theorem ends_mark {m : Mark} (hm : m ≠ .dot) (after : List Char) : (mark m).Ends after := by
  cases m <;> trivial

theorem Ends.truncate {token : Token} {a after : List Char} (h : token.Ends after)
    (ha : a <+: after) : token.Ends a := by
  rcases token with _ | _ | text | w | m
  · trivial
  · trivial
  · exact fun c hc => h c (mem_head?_of_starts ha hc)
  · exact h.imp_right (·.truncate ha)
  · by_cases hm : m = .dot
    · subst hm
      exact fun hdots => h (hdots.trans ha)
    · exact ends_mark hm a

/-- Where a token ends, it ends for another text that starts alike or breaks it off. -/
theorem Ends.followed {token : Token} {a after : List Char} (h : token.Ends a)
    (hafter : a = [] → Breaks after) (hdot : token = .mark .dot → a ≠ [] ∧ a ≠ ['.']) :
    token.Ends (a ++ after) := by
  rcases token with _ | _ | text | w | m
  · trivial
  · trivial
  · rcases a with _ | ⟨c, a⟩
    · exact fun c hc => (hafter rfl c (by simpa using hc)).1
    · simpa [Ends] using h
  · refine h.imp_right fun hbreaks => ?_
    rcases a with _ | ⟨c, a⟩
    · simpa using hafter rfl
    · simpa using hbreaks
  · by_cases hm : m = .dot
    · subst hm
      obtain ⟨hnil, hone⟩ := hdot rfl
      rcases a with _ | ⟨c, _ | ⟨d, a⟩⟩
      · exact absurd rfl hnil
      · intro hdots
        have : '.' = c := (List.cons_prefix_cons.1 hdots).1
        exact hone (by rw [this])
      · simpa [Ends, List.cons_prefix_cons] using h
    · exact ends_mark hm _

theorem Valid.exists_cons {token : Token} (h : token.Valid) :
    ∃ c cs, token.chars = c :: cs ∧ isBlank c = false := by
  match token, h with
  | .word w, h =>
    obtain ⟨c, cs, rfl, hc⟩ := IsTicked.exists_cons h
    exact ⟨c, cs, rfl, hc.elim (fun h => h ▸ by decide) isBlank_of_isWordStart⟩
  | .attribute _, ⟨w, hw, _⟩ => exact ⟨'@', w, hw, by decide⟩
  | .arrow, _ => exact ⟨'-', ['>'], rfl, by decide⟩
  | .ellipsis, _ => exact ⟨'.', ['.', '.'], rfl, by decide⟩
  | .mark m, _ => exact ⟨m.char, [], rfl, by cases m <;> decide⟩

theorem first?_attribute {w rest : List Char} (hw : IsPlain w)
    (hrest : ∀ c ∈ rest.head?, isWord c = false) :
    first? ('@' :: w ++ rest) = some (.attribute ('@' :: w), rest) := by
  obtain ⟨c, cs, rfl, hc, hcs⟩ := hw
  obtain ⟨htake, hdrop⟩ := span_append hcs hrest
  simp [first?, hc, htake, hdrop]

theorem first?_word {w rest : List Char} (hw : IsTicked w)
    (hrest : w.getLast? = some tick ∨ Breaks rest) : first? (w ++ rest) = some (.word w, rest) := by
  have hword : word? (w ++ rest) = some (w, rest) := word?_eq_some_iff.2 ⟨rfl, hw, hrest⟩
  obtain ⟨c, cs, rfl, hc⟩ := hw.exists_cons
  have hother {d : Char} (hd : isWordStart d = false) (hne : d ≠ tick) : c ≠ d := by
    rintro rfl
    exact hc.elim hne fun hc => absurd (hc.symm.trans hd) (by decide)
  rw [List.cons_append] at hword ⊢
  unfold first?
  split
  · next heq => exact absurd (List.cons.inj heq).1 (hother (by decide) (by decide))
  · next heq => exact absurd (List.cons.inj heq).1 (hother (by decide) (by decide))
  · next heq => exact absurd (List.cons.inj heq).1 (hother (by decide) (by decide))
  · rw [hword]

theorem first?_mark {m : Mark} {rest : List Char} (hrest : (mark m).Ends rest) :
    first? (m.char :: rest) = some (.mark m, rest) := by
  have hnone : word? (m.char :: rest) = none := word?_eq_none (by simpa using by cases m <;> decide)
  unfold first?
  split
  · next heq => exact absurd (List.cons.inj heq).1 (by cases m <;> decide)
  · next tail heq =>
    obtain ⟨hchar, rfl⟩ := List.cons.inj heq
    obtain rfl : m = .dot := by revert hchar; cases m <;> decide
    exact absurd (by simp [List.cons_prefix_cons]) hrest
  · next heq => exact absurd (List.cons.inj heq).1 (by cases m <;> decide)
  · rw [hnone]
    simp [Mark.ofChar?_char]

/-- The token at the start of a text is the well-formed one that ends there. -/
theorem first?_eq_some_iff {text rest : List Char} {token : Token} :
    first? text = some (token, rest) ↔
      text = token.chars ++ rest ∧ token.Valid ∧ token.Ends rest := by
  constructor
  · intro h
    refine ⟨(append_of_first? h).symm, ?_⟩
    unfold first? at h
    split at h
    · simp only [Option.some.injEq, Prod.mk.injEq] at h
      simp [← h.1, Valid, Ends]
    · simp only [Option.some.injEq, Prod.mk.injEq] at h
      simp [← h.1, Valid, Ends]
    · split at h
      · next c tail hc =>
        obtain ⟨rfl, rfl⟩ := Prod.mk.inj (Option.some.inj h)
        refine ⟨⟨_, rfl, isPlain_of_all hc List.all_takeWhile⟩, fun d hd => ?_⟩
        have hhead := List.head?_dropWhile_not isWord tail
        rw [Option.mem_def.1 hd] at hhead
        simpa using hhead
      · simp at h
    · split at h
      · next hword =>
        obtain ⟨rfl, rfl⟩ := Prod.mk.inj (Option.some.inj h)
        exact (word?_eq_some_iff.1 hword).2
      · split at h
        · simp at h
        · next c tail _ hdots _ _ =>
          simp only [Option.map_eq_some_iff, Prod.mk.injEq] at h
          obtain ⟨m, hm, rfl, rfl⟩ := h
          have hchar : m.char = c := by simpa using List.find?_some hm
          refine ⟨trivial, ?_⟩
          by_cases hdot : m = .dot
          · subst hdot
            rintro ⟨t, rfl⟩
            exact hdots t (by simp [← hchar, Mark.char])
          · exact ends_mark hdot _
  · rintro ⟨rfl, hvalid, hends⟩
    rcases token with _ | _ | text | w | m
    · rfl
    · rfl
    · obtain ⟨w, rfl, hw⟩ := hvalid
      exact first?_attribute hw hends
    · exact first?_word hvalid hends
    · exact first?_mark hends

end Token

/-! ### Lexemes in a row -/

namespace Lexeme

/-- The lexemes are those found in front of the text `after`. -/
def Stands : List Lexeme → List Char → Prop
  | [], _ => True
  | x :: l, after =>
    (∀ c ∈ x.gap, isBlank c = true) ∧ x.token.Valid ∧ x.token.Ends (l.flatMap chars ++ after) ∧
      Stands l after

@[simp]
theorem stands_nil {after : List Char} : Stands [] after := trivial

@[simp]
theorem stands_cons {x : Lexeme} {l : List Lexeme} {after : List Char} :
    Stands (x :: l) after ↔
      (∀ c ∈ x.gap, isBlank c = true) ∧ x.token.Valid ∧ x.token.Ends (l.flatMap chars ++ after) ∧
        Stands l after := Iff.rfl

theorem stands_append {a b : List Lexeme} {after : List Char} :
    Stands (a ++ b) after ↔ Stands a (b.flatMap chars ++ after) ∧ Stands b after := by
  induction a with
  | nil => simp
  | cons x a ih => simp only [List.cons_append, stands_cons, ih, List.flatMap_append,
      List.append_assoc, and_assoc]

theorem Stands.truncate {l : List Lexeme} {a after : List Char} (h : Stands l after)
    (ha : a <+: after) : Stands l a := by
  induction l with
  | nil => trivial
  | cons x l ih =>
    obtain ⟨hgap, hvalid, hends, hl⟩ := h
    exact ⟨hgap, hvalid, hends.truncate ((List.prefix_append_right_inj _).2 ha), ih hl⟩

theorem Stands.suffix {l l' : List Lexeme} {after : List Char} (h : Stands l after)
    (hl : l' <:+ l) : Stands l' after := by
  obtain ⟨a, rfl⟩ := hl
  exact (stands_append.1 h).2

theorem Stands.cut {a l b : List Lexeme} {after : List Char} (h : Stands (a ++ (l ++ b)) after) :
    Stands l [] :=
  ((stands_append.1 (stands_append.1 h).2).1).truncate (List.nil_prefix)

theorem span_gap {x : Lexeme} (hgap : ∀ c ∈ x.gap, isBlank c = true) (hvalid : x.token.Valid)
    (after : List Char) :
    (x.chars ++ after).takeWhile isBlank = x.gap ∧
      (x.chars ++ after).dropWhile isBlank = x.token.chars ++ after := by
  obtain ⟨c, cs, hc, hcblank⟩ := hvalid.exists_cons
  simp [chars, hc, List.takeWhile_append_of_pos hgap, List.dropWhile_append_of_pos hgap, hcblank]

theorem ofChars_of_blank {tail : List Char} (h : ∀ c ∈ tail, isBlank c = true) :
    ofChars tail = .ok [] := by
  unfold ofChars
  split
  · rfl
  · next hblank => simp [List.dropWhile_eq_nil_iff.2 h] at hblank

/-- A lexeme that stands in front of a text is the first that is found. -/
theorem ofChars_cons {x : Lexeme} {l : List Lexeme} {after : List Char} (h : Stands (x :: l) after) :
    ofChars ((x :: l).flatMap chars ++ after) =
      (ofChars (l.flatMap chars ++ after)).map (x :: ·) := by
  obtain ⟨hgap, hvalid, hends, -⟩ := h
  obtain ⟨htake, hdrop⟩ := span_gap hgap hvalid (l.flatMap chars ++ after)
  have hfound := Token.first?_eq_some_iff.2 ⟨rfl, hvalid, hends⟩
  rw [List.flatMap_cons, List.append_assoc]
  conv_lhs => unfold ofChars
  split
  · next hblank =>
    obtain ⟨c, cs, hc, -⟩ := hvalid.exists_cons
    simp [hdrop, hc] at hblank
  · next hblank =>
    rw [hdrop] at hblank
    split
    · next hnone => simp [← hblank, hfound] at hnone
    · next hsome =>
      rw [← hblank, hfound] at hsome
      obtain ⟨rfl, rfl⟩ := Prod.mk.inj (Option.some.inj hsome)
      rw [htake]
      cases ofChars (l.flatMap chars ++ after) <;> rfl

/-- A text has the lexemes `l` iff they are found in it one after the other, up to blanks. -/
theorem ofChars_eq_ok_iff {text : List Char} {l : List Lexeme} :
    ofChars text = .ok l ↔
      ∃ tail, (∀ c ∈ tail, isBlank c = true) ∧ text = l.flatMap chars ++ tail ∧ Stands l tail := by
  constructor
  · fun_induction ofChars text generalizing l with
    | case1 text hblank =>
      rintro ⟨⟩
      exact ⟨text, List.dropWhile_eq_nil_iff.1 hblank, by simp, trivial⟩
    | case2 => simp
    | case3 => simp
    | case4 text c tail hblank token rest hfirst more hrest ih =>
      rintro ⟨⟩
      obtain ⟨after, hafter, rfl, hmore⟩ := ih hrest
      obtain ⟨htext, hvalid, hends⟩ := Token.first?_eq_some_iff.1 hfirst
      have hgap : ∀ c ∈ text.takeWhile isBlank, isBlank c = true :=
        List.all_eq_true.1 List.all_takeWhile
      refine ⟨after, hafter, ?_, hgap, hvalid, hends, hmore⟩
      rw [List.flatMap_cons, chars, List.append_assoc, List.append_assoc, ← htext, ← hblank,
        List.takeWhile_append_dropWhile]
  · rintro ⟨tail, htail, rfl, hl⟩
    induction l with
    | nil => exact ofChars_of_blank htail
    | cons x l ih =>
      rw [ofChars_cons hl, ih hl.2.2.2]
      rfl

theorem ofChars_flatMap {l : List Lexeme} (h : Stands l []) :
    ofChars (l.flatMap chars) = .ok l :=
  ofChars_eq_ok_iff.2 ⟨[], by simp, by simp, h⟩

/-- The only lexemes of a dot are the dot. -/
theorem Stands.eq_dot {l : List Lexeme} (h : Stands l []) (hdot : l.flatMap chars = ['.']) :
    l = [⟨[], .mark .dot⟩] := by
  have hone : Stands [⟨[], .mark .dot⟩] [] := by simp [Token.Valid, Token.Ends]
  have hl := ofChars_flatMap h
  rw [hdot] at hl
  exact Except.ok.inj (hl.symm.trans (ofChars_flatMap hone))

/-- Lexemes stand in front of a text that breaks off the last of them. -/
theorem Stands.followed {l : List Lexeme} {after : List Char} (h : Stands l [])
    (hlast : ∀ x ∈ l.getLast?, x.token ≠ .mark .dot) (hafter : Breaks after) : Stands l after := by
  induction l with
  | nil => trivial
  | cons x l ih =>
    obtain ⟨hgap, hvalid, hends, hl⟩ := h
    rw [List.append_nil] at hends
    have hlast' : ∀ y ∈ l.getLast?, y.token ≠ .mark .dot := by
      rcases l with _ | ⟨y, l⟩
      · simp
      · simpa [List.getLast?_cons_cons] using hlast
    refine ⟨hgap, hvalid, hends.followed (fun _ => hafter) fun hdot => ?_, ih hl hlast'⟩
    -- A dot in front of the last lexeme has more than a single dot behind it.
    rcases l with _ | ⟨y, l⟩
    · exact absurd hdot (hlast x (by simp))
    · obtain ⟨c, cs, hc, -⟩ := hl.2.1.exists_cons
      refine ⟨by simp [chars, hc], fun hone => ?_⟩
      rw [hl.eq_dot hone] at hlast'
      exact hlast' ⟨[], .mark .dot⟩ rfl rfl

/-! ### Other gaps -/

/-- The lexemes with another gap in front of the first. -/
def regap (gap : List Char) : List Lexeme → List Lexeme
  | [] => []
  | x :: l => ⟨gap, x.token⟩ :: l

@[simp]
theorem regap_nil {gap : List Char} : regap gap [] = [] := rfl

@[simp]
theorem regap_cons {gap : List Char} {x : Lexeme} {l : List Lexeme} :
    regap gap (x :: l) = ⟨gap, x.token⟩ :: l := rfl

theorem regap_append {gap : List Char} {a b : List Lexeme} (ha : a ≠ []) :
    regap gap (a ++ b) = regap gap a ++ b := by
  rcases a with _ | ⟨x, a⟩
  · exact absurd rfl ha
  · rfl

@[simp]
theorem regap_eq_nil {gap : List Char} {l : List Lexeme} : regap gap l = [] ↔ l = [] := by
  cases l <;> simp

@[simp]
theorem length_regap {gap : List Char} {l : List Lexeme} : (regap gap l).length = l.length := by
  cases l <;> rfl

@[simp]
theorem textOf_regap {gap : List Char} {l : List Lexeme} : textOf (regap gap l) = textOf l := by
  cases l <;> rfl

theorem flatMap_chars_regap {gap : List Char} {l : List Lexeme} (h : l ≠ []) :
    (regap gap l).flatMap chars = gap ++ textOf l := by
  rcases l with _ | ⟨x, l⟩
  · exact absurd rfl h
  · simp [textOf, chars]

theorem textOf_append {a b : List Lexeme} (ha : a ≠ []) :
    textOf (a ++ b) = textOf a ++ b.flatMap chars := by
  rcases a with _ | ⟨x, a⟩
  · exact absurd rfl ha
  · simp [textOf]

theorem Stands.regap {l : List Lexeme} {after gap : List Char} (h : Stands l after)
    (hgap : ∀ c ∈ gap, isBlank c = true) : Stands (regap gap l) after := by
  rcases l with _ | ⟨x, l⟩
  · trivial
  · exact ⟨hgap, h.2⟩

end Lexeme

end TypeExpr

end FluentBuilder
