import FluentBuilder.Proofs.Syntax.HeadItems
import FluentBuilder.Syntax.Place

/-!
# Where a group ends

The scan for the end of a group stops at the first place up to which as many brackets are closed as
opened, and it fails if there is no such place. Brackets in strings do not count: what counts is what
stands `outside` of them. `groupStop_exact` says so for any two different brackets, of which the
opening one is no quote, at any place where the opening one stands.

The scan keeps the number of open brackets and whether it is in a string. So the statement by
induction is about a text with brackets open in front of it (`groupLengthFrom_eq_some_iff`): the
group ends where the level of what is outside of strings has taken all of them back. A step over
some characters moves that place by as many (`eq_some_iff_isLeast_of_step`), if none of the places
stepped over is one.
-/

namespace FluentBuilder.Syntax

/-! ### What stands outside of strings -/

/-- The characters outside of the strings of a text, without the quotes around these. In a string a
backslash hides the character behind it. -/
def outside : (inString : Bool) → List Char → List Char
  | _, [] => []
  | true, '\\' :: _ :: rest => outside true rest
  | true, c :: rest => outside (c != '"') rest
  | false, c :: rest => if c == '"' then outside true rest else c :: outside false rest

/-- As many brackets are closed as opened outside of the strings of a text. -/
def Balances (opening closing : Char) (text : List Char) : Prop :=
  (outside false text).count opening = (outside false text).count closing

instance (opening closing : Char) : DecidablePred (Balances opening closing) := fun text =>
  inferInstanceAs (Decidable ((outside false text).count opening = _))

/-- How many more brackets are opened than closed. -/
def level (opening closing : Char) (code : List Char) : Int :=
  code.count opening - code.count closing

section Level

variable {opening closing : Char}

@[simp]
theorem level_nil : level opening closing [] = 0 := rfl

theorem level_opening (hne : opening ≠ closing) (code : List Char) :
    level opening closing (opening :: code) = level opening closing code + 1 := by
  simp only [level, List.count_cons_self, List.count_cons_of_ne hne]
  omega

theorem level_closing (hne : opening ≠ closing) (code : List Char) :
    level opening closing (closing :: code) = level opening closing code - 1 := by
  simp only [level, List.count_cons_self, List.count_cons_of_ne hne.symm]
  omega

theorem level_other {c : Char} (hopening : c ≠ opening) (hclosing : c ≠ closing)
    (code : List Char) : level opening closing (c :: code) = level opening closing code := by
  simp only [level, List.count_cons_of_ne hopening, List.count_cons_of_ne hclosing]

theorem balances_iff {text : List Char} :
    Balances opening closing text ↔ level opening closing (outside false text) = 0 := by
  simp only [Balances, level]
  omega

end Level

/-! ### The first place -/

section Search

variable {found : Option Nat} {P Q : Nat → Prop}

/-- A search that goes on behind `k` places, none of which is one that is looked for. -/
theorem eq_some_iff_isLeast_of_step {k : Nat} (hfound : ∀ n, found = some n ↔ IsLeast {n | P n} n)
    (hskip : ∀ n, Q n → k ≤ n) (hstep : ∀ n, Q (n + k) ↔ P n) (n : Nat) :
    found.map (· + k) = some n ↔ IsLeast {n | Q n} n := by
  rw [Option.map_eq_some_iff]
  constructor
  · rintro ⟨m, hm, rfl⟩
    obtain ⟨hmem, hleast⟩ := (hfound m).mp hm
    refine ⟨(hstep m).mpr hmem, fun n hn => ?_⟩
    have hle : k ≤ n := hskip n hn
    have hback : P (n - k) := by rwa [← hstep, Nat.sub_add_cancel hle]
    have hfirst : m ≤ n - k := hleast hback
    omega
  · rintro ⟨hmem, hleast⟩
    have hle : k ≤ n := hskip n hmem
    refine ⟨n - k, (hfound _).mpr ⟨?_, fun m hm => ?_⟩, Nat.sub_add_cancel hle⟩
    · show P (n - k)
      rw [← hstep, Nat.sub_add_cancel hle]
      exact hmem
    · have hfirst : n ≤ m + k := hleast ((hstep m).mpr hm)
      omega

theorem eq_none_iff_of_isLeast (hfound : ∀ n, found = some n ↔ IsLeast {n | P n} n) :
    found = none ↔ ∀ n, ¬P n := by
  classical
  constructor
  · intro hnone n hn
    have hex : ∃ n, P n := ⟨n, hn⟩
    have hleast : IsLeast {n | P n} (Nat.find hex) :=
      ⟨Nat.find_spec hex, fun m hm => Nat.find_min' hex hm⟩
    rw [← hfound, hnone] at hleast
    cases hleast
  · intro hnone
    cases hsome : found with
    | none => rfl
    | some n => exact absurd ((hfound n).mp hsome).1 (hnone n)

end Search

/-! ### The scan -/

variable {opening closing : Char}

/-- With brackets open in front of a text, the group ends where the text has closed them all. -/
theorem groupLengthFrom_eq_some_iff (hne : opening ≠ closing) {depth : Int} (hdepth : 0 < depth)
    {inString : Bool} {text : List Char} (n : Nat) :
    groupLengthFrom opening closing depth inString text = some n ↔
      IsLeast {n | depth + level opening closing (outside inString (text.take n)) = 0} n := by
  -- no brackets are taken back in front of the text, so no first character is stepped over
  have hskip {depth : Int} {inString : Bool} {text : List Char} (hdepth : 0 < depth) (n : Nat)
      (h : depth + level opening closing (outside inString (text.take n)) = 0) : 1 ≤ n := by
    rcases n with _ | n
    · simp only [List.take_zero, outside, level_nil] at h
      omega
    · omega
  fun_induction groupLengthFrom opening closing depth inString text generalizing n with
  | case1 depth inString =>
    constructor
    · intro h
      cases h
    · rintro ⟨hmem, -⟩
      have hlevel : depth + level opening closing (outside inString []) = 0 := by simpa using hmem
      simp only [outside, level_nil] at hlevel
      omega
  | case2 depth c text ih =>
    refine eq_some_iff_isLeast_of_step (ih hdepth) (fun n hn => ?_) (fun n => ?_) n
    · rcases n with _ | _ | n
      · exact absurd (hskip hdepth 0 hn) (by omega)
      · simp [outside] at hn
        omega
      · omega
    · rw [List.take_succ_cons, List.take_succ_cons, outside]
  | case3 depth c text hescape ih =>
    refine eq_some_iff_isLeast_of_step (ih hdepth) (hskip hdepth) (fun n => ?_) n
    have hstep : outside true (c :: text.take n) = outside (c != '"') (text.take n) := by
      rw [outside]
      intro d rest hc htake
      obtain ⟨more, hmore⟩ := List.take_prefix n text
      exact hescape d (rest ++ more) hc (by rw [← hmore, htake, List.cons_append])
    rw [List.take_succ_cons, hstep]
  | case4 depth c text hquote ih =>
    refine eq_some_iff_isLeast_of_step (ih hdepth) (hskip hdepth) (fun n => ?_) n
    rw [List.take_succ_cons, outside, if_pos hquote]
  | case5 depth c text hquote hopening ih =>
    have hopen : 0 < depth + 1 := by omega
    refine eq_some_iff_isLeast_of_step (ih hopen) (hskip hdepth) (fun n => ?_) n
    rw [List.take_succ_cons, outside, if_neg hquote, beq_iff_eq.mp hopening, level_opening hne]
    omega
  | case6 depth c text hquote hopening hclosing hlast =>
    have hlast : depth - 1 = 0 := by simpa using hlast
    have hfirst :
        depth + level opening closing (outside false ((c :: text).take 1)) = 0 := by
      rw [List.take_succ_cons, outside, if_neg hquote, beq_iff_eq.mp hclosing, level_closing hne,
        List.take_zero, outside, level_nil]
      omega
    have hleast :
        IsLeast {n | depth + level opening closing (outside false ((c :: text).take n)) = 0} 1 :=
      ⟨hfirst, fun m hm => hskip hdepth m hm⟩
    constructor
    · intro h
      rwa [← Option.some.inj h]
    · intro h
      rw [hleast.unique h]
  | case7 depth c text hquote hopening hclosing hmore ih =>
    have hopen : 0 < depth - 1 := by
      have hlast : depth - 1 ≠ 0 := by simpa using hmore
      omega
    refine eq_some_iff_isLeast_of_step (ih hopen) (hskip hdepth) (fun n => ?_) n
    rw [List.take_succ_cons, outside, if_neg hquote, beq_iff_eq.mp hclosing, level_closing hne]
    omega
  | case8 depth c text hquote hopening hclosing ih =>
    refine eq_some_iff_isLeast_of_step (ih hdepth) (hskip hdepth) (fun n => ?_) n
    rw [beq_iff_eq] at hopening hclosing
    rw [List.take_succ_cons, outside, if_neg hquote, level_other hopening hclosing]

/-- The group that starts with a bracket ends at the first place up to which brackets balance. -/
theorem groupLengthFrom_zero_eq_some_iff (hne : opening ≠ closing) (hquote : opening ≠ '"')
    {text : List Char} (n : Nat) :
    groupLengthFrom opening closing 0 false (opening :: text) = some n ↔
      IsLeast {n | 0 < n ∧ Balances opening closing ((opening :: text).take n)} n := by
  have hscan : groupLengthFrom opening closing 0 false (opening :: text) =
      (groupLengthFrom opening closing 1 false text).map (· + 1) := by
    simp [groupLengthFrom, hquote]
  rw [hscan]
  refine eq_some_iff_isLeast_of_step (groupLengthFrom_eq_some_iff hne Int.one_pos)
    (fun n hn => hn.1) (fun n => ?_) n
  have hlevel : level opening closing (outside false ((opening :: text).take (n + 1))) =
      1 + level opening closing (outside false (text.take n)) := by
    rw [List.take_succ_cons, outside, if_neg (by simpa using hquote), level_opening hne,
      Int.add_comm]
  rw [balances_iff, hlevel]
  exact and_iff_right (Nat.succ_pos n)

/-! ### Places in a text -/

theorem between_natCast (text : List Char) (start stop : Nat) :
    between text start stop = (text.take stop).drop start := by
  have hoffset (place : Nat) : offset text place = place := by
    rw [offset, if_neg (by omega), Int.toNat_natCast]
  rw [between, hoffset, hoffset]

theorem groupStop_natCast (text : List Char) (pos : Nat) :
    groupStop (String.singleton opening) (String.singleton closing) text pos =
      match groupLengthFrom opening closing 0 false (text.drop pos) with
      | some length => .ok ((pos : Int) + length)
      | none =>
        .error (.unbalanced ⟨String.singleton opening, between text pos ((pos : Int) + 40)⟩) := by
  have hfront : ¬(pos : Int) < 0 := by omega
  rw [groupStop, if_neg hfront, Int.toNat_natCast, String.toList_singleton,
    String.toList_singleton]
  rfl

/-- The places where the brackets at `pos` balance, counted from there. -/
theorem groupLengthFrom_drop_eq_some_iff (hne : opening ≠ closing) (hquote : opening ≠ '"')
    {text : List Char} {pos : Nat} (hpos : text[pos]? = some opening) (n : Nat) :
    groupLengthFrom opening closing 0 false (text.drop pos) = some n ↔
      IsLeast {n | 0 < n ∧ Balances opening closing (between text pos ↑(pos + n))} n := by
  obtain ⟨hlt, hget⟩ := List.getElem?_eq_some_iff.mp hpos
  have hdrop : text.drop pos = opening :: text.drop (pos + 1) := by
    rw [List.drop_eq_getElem_cons hlt, hget]
  have hslice (n : Nat) : between text pos ↑(pos + n) = (text.drop pos).take n := by
    rw [between_natCast, List.drop_take, Nat.add_sub_cancel_left]
  simp only [hslice, hdrop]
  exact groupLengthFrom_zero_eq_some_iff hne hquote n

/-- **A group ends at the first place of balance.** From a place where the opening bracket stands,
the group goes up to the least place behind it up to which as many brackets are closed as opened
outside of strings. It is unbalanced exactly if there is no such place. What follows a group does not
change where it ends. -/
theorem groupStop_exact (hne : opening ≠ closing) (hquote : opening ≠ '"') {text : List Char}
    {pos : Nat} (hpos : text[pos]? = some opening) :
    (∀ stop : Int,
      groupStop (String.singleton opening) (String.singleton closing) text pos = .ok stop ↔
        ∃ e : Nat, stop = e ∧
          IsLeast {e : Nat | pos < e ∧ Balances opening closing (between text pos e)} e) ∧
      (groupStop (String.singleton opening) (String.singleton closing) text pos =
          .error (.unbalanced ⟨String.singleton opening, between text pos ((pos : Int) + 40)⟩) ↔
        ∀ e : Nat, pos < e → ¬Balances opening closing (between text pos e)) ∧
      ∀ (stop : Int) (more : List Char),
        groupStop (String.singleton opening) (String.singleton closing) text pos = .ok stop →
          groupStop (String.singleton opening) (String.singleton closing) (text ++ more) pos =
            .ok stop := by
  have hfound := groupLengthFrom_drop_eq_some_iff hne hquote hpos
  -- the places counted from the start of the text are those counted from the bracket, moved
  have hplaces (e : Nat) :
      (groupLengthFrom opening closing 0 false (text.drop pos)).map (· + pos) = some e ↔
        IsLeast {e : Nat | pos < e ∧ Balances opening closing (between text pos e)} e := by
    refine eq_some_iff_isLeast_of_step hfound (fun e he => he.1.le) (fun n => ?_) e
    rw [Nat.add_comm n pos]
    exact and_congr_left fun _ => Nat.lt_add_right_iff_pos
  refine ⟨fun stop => ?_, ?_, fun stop more => ?_⟩
  · rw [groupStop_natCast]
    simp only [← hplaces]
    cases groupLengthFrom opening closing 0 false (text.drop pos) with
    | none => simp
    | some n =>
      simp only [Except.ok.injEq, Option.map_some, Option.some.injEq]
      constructor
      · rintro rfl
        exact ⟨n + pos, by omega, rfl⟩
      · rintro ⟨e, rfl, rfl⟩
        omega
  · have hnone := eq_none_iff_of_isLeast hplaces
    simp only [not_and] at hnone
    rw [← hnone, groupStop_natCast, Option.map_eq_none_iff]
    cases groupLengthFrom opening closing 0 false (text.drop pos) <;> simp
  · obtain ⟨hlt, -⟩ := List.getElem?_eq_some_iff.mp hpos
    rw [groupStop_natCast, groupStop_natCast, List.drop_append_of_le_length hlt.le]
    cases hlength : groupLengthFrom opening closing 0 false (text.drop pos) with
    | none =>
      intro h
      cases h
    | some n =>
      rw [groupLengthFrom_append hlength more]
      exact id

/-- A call with a string that holds brackets and a hidden quote. -/
def quotedCall : List Char := "f(a, \"\\\") ) (\", (b)) + g()".toList

theorem groupStop_exact_quotedCall :
    quotedCall[1]? = some '(' ∧
      groupStop (String.singleton '(') (String.singleton ')') quotedCall 1 = .ok 20 ∧
      ∀ e : Nat, 1 < e → Balances '(' ')' (between quotedCall 1 e) → 20 ≤ e := by
  have hpos : quotedCall[1]? = some '(' := by decide
  have hstop :
      groupStop (String.singleton '(') (String.singleton ')') quotedCall 1 = .ok 20 := by decide
  refine ⟨hpos, hstop, fun e hlt hbalances => ?_⟩
  have hne : '(' ≠ ')' := by decide
  obtain ⟨hexact, -, -⟩ := groupStop_exact hne (by decide) hpos
  obtain ⟨e', he', -, hleast⟩ := (hexact 20).mp hstop
  have hle : e' ≤ e := hleast ⟨hlt, hbalances⟩
  omega

end FluentBuilder.Syntax
