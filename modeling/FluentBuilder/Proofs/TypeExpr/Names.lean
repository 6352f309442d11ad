import FluentBuilder.Proofs.Text.Trimming
import FluentBuilder.Proofs.TypeExpr.Slices

/-!
# The last segment of a name

The name of a type is one text, with the arguments of all segments but the last written out in it;
what is looked up under it is its last segment. `lastSegment_written`: for a name that stands
anywhere in a type that is read, this is the last word that is written for it, without backticks.

The words that are written are counted along the segments (`Segments`), without a look at the text
that becomes the name. On the way through them this text always ends in the last word so far, behind
a dot or on its own (`EndsIn`): whatever the arguments of a segment are written as, a dot is put
between them and the next word (`Segments.endsIn`).
-/

namespace FluentBuilder.TypeExpr

open Text Lexeme

/-! ### Texts that end in a word -/

/-- The text ends in the word without its backticks, which is the whole text or stands behind a
dot. -/
def EndsIn (name : String) (w : List Char) : Prop :=
  ∃ front : List Char, (∀ c ∈ front.getLast?, c = '.') ∧ name.toList = front ++ unticked w

theorem endsIn_alone (w : List Char) : EndsIn (String.ofList (unticked w)) w :=
  ⟨[], by simp, by simp⟩

theorem endsIn_append (before : String) (w : List Char) :
    EndsIn (before ++ "." ++ String.ofList (unticked w)) w :=
  ⟨before.toList ++ ['.'], by simp, by simp⟩

/-- There is nothing but letters, numbers and underscores in a word. -/
theorem ne_separator_of_isPlain {w : List Char} (h : IsPlain w) {c : Char} (hc : c ∈ w) :
    c ≠ '.' ∧ c ≠ '<' ∧ c ≠ '>' ∧ isBlank c = false := by
  have hword : isWord c = true := h.isWord c hc
  refine ⟨?_, ?_, ?_, isBlank_of_isWord hword⟩
  all_goals
    rintro rfl
    exact absurd hword (by decide)

theorem EndsIn.lastSegment {name : String} {w : List Char} (h : EndsIn name w) (hw : IsTicked w) :
    lastSegment name = String.ofList (unticked w) := by
  obtain ⟨front, hfront, hname⟩ := h
  have hplain : IsPlain (unticked w) := hw.unticked
  have hdots : name.toList.reverse.takeWhile (· != '.') = (unticked w).reverse := by
    rw [hname, List.reverse_append]
    refine (span_append ?_ ?_).1
    · intro c hc
      simpa using (ne_separator_of_isPlain hplain (List.mem_reverse.1 hc)).1
    · intro c hc
      rw [List.head?_reverse] at hc
      simp [hfront c hc]
  have hangle : (unticked w).takeWhile (· != '<') = unticked w := by
    rw [List.takeWhile_eq_self_iff]
    intro c hc
    simpa using (ne_separator_of_isPlain hplain hc).2.1
  have hblank : ∀ c ∈ unticked w, isBlank c = false := by
    intro c hc
    exact (ne_separator_of_isPlain hplain hc).2.2.2
  have htrim : trim (unticked w ++ []) = unticked w := by
    apply trim_append_right
    · exact fun c hc => hblank c (List.mem_of_mem_head? hc)
    · exact fun c hc => hblank c (List.mem_of_getLast? hc)
    · exact List.forall_mem_nil _
  rw [TypeExpr.lastSegment, hdots, List.reverse_reverse, hangle, ← List.append_nil (unticked w),
    htrim, List.append_nil]

/-! ### The words of a name -/

/-- The words of the segments behind the first one, from behind the word of a segment to the end of
the name. -/
inductive Segments : (input rest : List Lexeme) → (words : List (List Char)) → Prop
  | more {ts g g' w input mid rest words} :
    Reads (.arguments ts) input (⟨g, .mark .dot⟩ :: ⟨g', .word w⟩ :: mid) →
    isMetatypeSuffix w = false → Segments mid rest words → Segments input rest (w :: words)
  | done {ts input rest} :
    Reads (.arguments ts) input rest → isMember (lookahead rest) = false → Segments input rest []

variable {input rest : List Lexeme} {words : List (List Char)}

/-- A name has segments wherever it is read. -/
theorem Reads.exists_segments {p : Phrase} (h : Reads p input rest) {s : String} {node : TypeExpr}
    (hp : p = .nominal s node) : ∃ words, Segments input rest words := by
  induction h generalizing s with
  | @member _ _ _ _ _ w _ _ _ harguments hw _ _ ih =>
    obtain ⟨rfl, rfl⟩ := Phrase.nominal.inj hp
    obtain ⟨words, hwords⟩ := ih rfl
    exact ⟨w :: words, .more harguments hw hwords⟩
  | nominalDone harguments hmember => exact ⟨[], .done harguments hmember⟩
  | _ => cases hp

/-- The words of a name are tokens of the input. -/
theorem Segments.exists_lexeme (h : Segments input rest words) {w : List Char} (hw : w ∈ words) :
    ∃ g, ⟨g, .word w⟩ ∈ input := by
  induction h with
  | @more _ _ g' _ _ _ _ _ harguments _ _ ih =>
    have hsub := harguments.suffix.subset
    rcases List.mem_cons.1 hw with rfl | hw
    · exact ⟨g', hsub (by simp)⟩
    · obtain ⟨g, hmem⟩ := ih hw
      exact ⟨g, hsub (by simp [hmem])⟩
  | done => cases hw

/-- **A name ends in the last of its words.** If what stands in front of the segments does, then the
whole name does. -/
theorem Segments.endsIn (h : Segments input rest words) {s name : String} {ts : List TypeExpr}
    (hread : Reads (.nominal s (.nominal name ts)) input rest) {w last : List Char}
    (hs : EndsIn s w) (hlast : last ∈ (w :: words).getLast?) : EndsIn name last := by
  induction h generalizing s w with
  | @more _ _ _ _ _ _ _ _ harguments hw _ ih =>
    cases hread with
    | member harguments' _ hread =>
      obtain ⟨-, hrest⟩ := harguments.arguments_unique harguments'
      simp only [List.cons.injEq, Lexeme.mk.injEq, Token.word.injEq] at hrest
      obtain ⟨-, ⟨-, rfl⟩, rfl⟩ := hrest
      exact ih hread (endsIn_append _ _) (by simpa using hlast)
    | nominalDone harguments' hmember =>
      -- a further segment comes next, so the name does not end here
      obtain ⟨-, rfl⟩ := harguments.arguments_unique harguments'
      rw [isMember_eq_true.2 ⟨_, _, _, _, rfl, hw⟩] at hmember
      cases hmember
  | done harguments hmember =>
    cases hread with
    | member harguments' hw _ =>
      obtain ⟨-, rfl⟩ := harguments.arguments_unique harguments'
      rw [isMember_eq_true.2 ⟨_, _, _, _, rfl, hw⟩] at hmember
      cases hmember
    | nominalDone =>
      obtain rfl : last = w := by simpa using hlast.symm
      exact hs

/-! ### Where a name is written -/

/-- The type is read as a name from a word of the input on, and these are the words of its
segments. -/
def Written (node : TypeExpr) (words : List (List Char)) (l : List Lexeme) : Prop :=
  ∃ g w input rest more, words = w :: more ∧ ⟨g, .word w⟩ :: input <:+ l ∧
    Reads (.nominal (String.ofList (unticked w)) node) input rest ∧ Segments input rest more

/-- A name that suffixes stand behind is the type in front of them, or a part of it. -/
theorem Suffixes.part_nominal {text : List Char} {bare t : TypeExpr} {name : String}
    {ts : List TypeExpr} (h : Suffixes text bare t input rest) (hpart : Part t (.nominal name ts)) :
    Part bare (.nominal name ts) := by
  induction h with
  | question _ ih =>
    cases ih hpart with
    | optional hpart => exact hpart
  | exclamation _ ih =>
    cases ih hpart with
    | unwrapped hpart => exact hpart
  | metatype _ _ _ ih => cases ih hpart
  | done => exact hpart

/-- A name is written wherever it is read, and around it. -/
theorem finds_written (name : String) (ts : List TypeExpr) :
    Finds (.nominal name ts) fun l => ∃ words, Written (.nominal name ts) words l where
  suffix := by
    rintro input input' ⟨words, g, w, behind, rest, more, hwords, hsuffix, hread⟩ hinput
    exact ⟨words, g, w, behind, rest, more, hwords, hsuffix.trans hinput, hread⟩
  kept hfront _ := by cases hfront
  suffixes _ hs hbare hpart := hbare (hs.part_nominal hpart)
  named hread := by
    obtain ⟨more, hmore⟩ := hread.exists_segments rfl
    exact ⟨_ :: more, _, _, _, _, more, rfl, List.suffix_rfl, hread, hmore⟩

/-- The last segment of a name is the last of the words that are written for it. -/
theorem Written.lastSegment {name : String} {ts : List TypeExpr} {l : List Lexeme}
    {after : List Char} (hl : Stands l after) (h : Written (.nominal name ts) words l) :
    ∃ last ∈ words.getLast?, IsTicked last ∧
      TypeExpr.lastSegment name = String.ofList (unticked last) := by
  obtain ⟨g, w, input, rest, more, rfl, hsuffix, hread, hmore⟩ := h
  obtain ⟨last, hlast⟩ : ∃ last, last ∈ (w :: more).getLast? :=
    ⟨_, List.getLast?_eq_some_getLast (List.cons_ne_nil w more)⟩
  have hends : EndsIn name last := hmore.endsIn hread (endsIn_alone w) hlast
  have hticked : IsTicked last := by
    obtain ⟨g', hmem⟩ : ∃ g', ⟨g', .word last⟩ ∈ l := by
      rcases List.mem_cons.1 (List.mem_of_getLast? hlast) with rfl | hmem
      · exact ⟨g, hsuffix.subset List.mem_cons_self⟩
      · obtain ⟨g', hmem⟩ := hmore.exists_lexeme hmem
        exact ⟨g', hsuffix.subset (List.mem_cons_of_mem _ hmem)⟩
    obtain ⟨before, behind, rfl⟩ := List.append_of_mem hmem
    exact (stands_append.1 hl).2.2.1
  exact ⟨last, hlast, hticked, hends.lastSegment hticked⟩

/-! ### Whole texts -/

/-- **The last segment of a name is the last word that is written for it.** A name that stands
anywhere in a type that is read is written in the text, as words with dots and arguments between
them. Wherever it is, the last one without its backticks is the last segment of the name, so there
is no dot, no angle bracket and no blank in it. -/
theorem lastSegment_written {text name : String} {t : TypeExpr} {ts : List TypeExpr}
    (h : ofString text = .ok t) (hpart : Part t (.nominal name ts)) :
    ∃ l, ofChars text.toList = .ok l ∧
      (∃ words, Written (.nominal name ts) words l) ∧
      (∀ words, Written (.nominal name ts) words l →
        ∃ last ∈ words.getLast?, lastSegment name = String.ofList (unticked last)) ∧
      ∀ c ∈ (lastSegment name).toList, c ≠ '.' ∧ c ≠ '<' ∧ c ≠ '>' ∧ isBlank c = false := by
  obtain ⟨l, hl, hread⟩ := ofString_eq_ok_iff.1 h
  obtain ⟨tail, -, -, hstands⟩ := ofChars_eq_ok_iff.1 hl
  have hwritten : ∃ words, Written (.nominal name ts) words l :=
    hread.finds rfl (finds_written name ts) hpart
  refine ⟨l, hl, hwritten, ?_, ?_⟩
  · intro words hwords
    obtain ⟨last, hlast, -, hname⟩ := hwords.lastSegment hstands
    exact ⟨last, hlast, hname⟩
  · intro c hc
    obtain ⟨words, hwords⟩ := hwritten
    obtain ⟨last, -, hticked, hname⟩ := hwords.lastSegment hstands
    rw [hname, String.toList_ofList] at hc
    exact ne_separator_of_isPlain hticked.unticked hc

/-- A name whose first segment has arguments with dots, an arrow, a constraint and a tuple in them,
in a layout that is not the canonical one. -/
def segmentedText : String := "[A <(B.C) -> any P<D.E>, (F, G.H)>.`I` . `J`<K.L>?]"

def segmentedName : String := "A<(B.C) -> any P<D.E>, (F, G.H)>.I.J"

theorem lastSegment_written_segmented :
    ofString segmentedText = .ok (.array (.optional (.nominal segmentedName [.nominal "K.L" []]))) ∧
      Part (.array (.optional (.nominal segmentedName [.nominal "K.L" []])))
        (.nominal segmentedName [.nominal "K.L" []]) ∧
      lastSegment segmentedName = "J" ∧
      ∃ l, ofChars segmentedText.toList = .ok l ∧
        (∃ words, Written (.nominal segmentedName [.nominal "K.L" []]) words l) ∧
        (∀ words, Written (.nominal segmentedName [.nominal "K.L" []]) words l →
          ∃ last ∈ words.getLast?, lastSegment segmentedName = String.ofList (unticked last)) ∧
        ∀ c ∈ (lastSegment segmentedName).toList,
          c ≠ '.' ∧ c ≠ '<' ∧ c ≠ '>' ∧ isBlank c = false := by
  have hread : ofString segmentedText =
      .ok (.array (.optional (.nominal segmentedName [.nominal "K.L" []]))) := by cbv
  have hpart : Part (.array (.optional (.nominal segmentedName [.nominal "K.L" []])))
      (.nominal segmentedName [.nominal "K.L" []]) := .array (.optional (.itself _))
  exact ⟨hread, hpart, by cbv, lastSegment_written hread hpart⟩

end FluentBuilder.TypeExpr
