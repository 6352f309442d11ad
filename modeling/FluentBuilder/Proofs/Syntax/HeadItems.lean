import FluentBuilder.Proofs.Syntax.Heads

/-!
# Heads as they are written

A head is written as a row of attributes and modifiers, each with an optional group in parentheses
and with some trivia behind it, and a keyword at the end. `head_written`: from such a text the head
is read as it was written, with every attribute at its place.

One step reads the part that stands behind some trivia and goes on behind it (`headFrom_of_part`). A
group ends where it ends on its own, whatever follows it (`groupLengthFrom_append`), and the trivia
behind a part keep it apart from the next (`Gap.separates`); so a step takes one item with its group
and leaves the trivia behind it to the next step.
-/

namespace FluentBuilder.Syntax

open Text

/-! ### Trivia that end -/

/-- Trivia that end by themselves: blanks, line comments with their line feed, and block comments
with the first mark that closes them. -/
inductive Gap : List Char → Prop where
  | nil : Gap []
  | blank {c : Char} {rest : List Char} : isBlank c = true → Gap rest → Gap (c :: rest)
  | lineComment {text rest : List Char} :
    '\n' ∉ text → Gap rest → Gap ('/' :: '/' :: (text ++ '\n' :: rest))
  | blockComment {text rest : List Char} :
    ¬['*', '/'] <:+: text → Gap rest → Gap ('/' :: '*' :: (text ++ '*' :: '/' :: rest))

theorem skipFrom_lineComment_append {text : List Char} (h : '\n' ∉ text) (rest : List Char) :
    skipFrom .lineComment (text ++ rest) = skipFrom .lineComment rest := by
  induction text with
  | nil => rfl
  | cons c text ih =>
    rw [List.mem_cons, not_or] at h
    have hc : (c == '\n') = false := by simpa using Ne.symm h.1
    simp only [List.cons_append, skipFrom, hc]
    exact ih h.2

/-- Whether a mark of two characters starts a text. -/
theorem startsWithMark_eq_false_iff {first second c : Char} {rest : List Char} :
    (c == first && rest.head? == some second) = false ↔ ¬[first, second] <+: c :: rest := by
  rw [Bool.eq_false_iff, not_iff_not, Bool.and_eq_true, beq_iff_eq, beq_iff_eq,
    List.cons_prefix_cons, eq_comm]
  cases rest <;> simp [eq_comm]

/-- A block comment goes on behind a text that does not close it, unless the mark that closes it
stands across the end of this text. -/
theorem skipFrom_blockComment_append {text : List Char} (h : ¬['*', '/'] <:+: text)
    {rest : List Char} (hrest : rest.head? ≠ some '/') :
    skipFrom .blockComment (text ++ rest) = skipFrom .blockComment rest := by
  induction text with
  | nil => rfl
  | cons c text ih =>
    have hopen : (c == '*' && (text ++ rest).head? == some '/') = false := by
      cases text with
      | nil => simp [hrest]
      | cons d text =>
        have hpair : (c == '*' && (d :: text).head? == some '/') = false :=
          startsWithMark_eq_false_iff.mpr fun hcloses => h hcloses.isInfix
        exact hpair
    simp only [List.cons_append, skipFrom, hopen]
    exact ih fun hmark => h (hmark.trans (List.suffix_cons c text).isInfix)

/-- Trivia are skipped as a whole. -/
theorem Gap.skipTrivia_append {gap : List Char} (h : Gap gap) (rest : List Char) :
    skipTrivia (gap ++ rest) = skipTrivia rest := by
  induction h with
  | nil => rfl
  | @blank c more hc _ ih =>
    rw [← ih]
    exact skipTrivia_append_blanks (List.forall_mem_singleton.mpr hc) (more ++ rest)
  | @lineComment text more htext _ ih =>
    rw [← ih, List.cons_append, List.cons_append, List.append_assoc, List.cons_append]
    exact skipFrom_lineComment_append htext ('\n' :: (more ++ rest))
  | @blockComment text more htext _ ih =>
    rw [← ih, List.cons_append, List.cons_append, List.append_assoc, List.cons_append,
      List.cons_append]
    exact skipFrom_blockComment_append htext (by simp)

/-- What cannot be the next character of an attribute or of a word, nor open a group behind it. -/
def Separates (text : List Char) : Prop :=
  ∀ c ∈ text.head?, isWord c = false ∧ c ≠ tick ∧ c ≠ '.' ∧ c ≠ '('

theorem separates_blank {c : Char} (h : isBlank c = true) (rest : List Char) :
    Separates (c :: rest) := by
  intro d hd
  obtain rfl : c = d := by simpa using hd
  refine ⟨isWord_of_isBlank h, ?_, ?_, ?_⟩ <;>
    · rintro rfl
      exact absurd h (by decide)

/-- Trivia keep apart what stands in front of them. -/
theorem Gap.separates {gap : List Char} (h : Gap gap) (hne : gap ≠ []) (rest : List Char) :
    Separates (gap ++ rest) := by
  cases h with
  | nil => exact absurd rfl hne
  | blank hc => exact separates_blank hc _
  | lineComment | blockComment =>
    intro d hd
    obtain rfl : '/' = d := by simpa using hd
    decide

/-! ### Groups -/

theorem groupLengthFrom_append {opening closing : Char} {depth : Int} {inString : Bool}
    {text : List Char} {length : Nat}
    (h : groupLengthFrom opening closing depth inString text = some length) (rest : List Char) :
    groupLengthFrom opening closing depth inString (text ++ rest) = some length := by
  fun_induction groupLengthFrom opening closing depth inString text generalizing length with
  | case1 => cases h
  | case2 depth c text ih =>
    obtain ⟨count, hcount, rfl⟩ := Option.map_eq_some_iff.mp h
    simp [groupLengthFrom, ih hcount]
  | case3 depth c text hescape ih =>
    obtain ⟨count, hcount, rfl⟩ := Option.map_eq_some_iff.mp h
    have hcode := ih hcount
    cases text with
    | nil => cases hcount
    | cons d text =>
      rw [List.cons_append, groupLengthFrom, hcode, Option.map_some]
      rintro head tail rfl -
      exact hescape d text rfl rfl
  | case4 depth c text hquote ih =>
    obtain ⟨count, hcount, rfl⟩ := Option.map_eq_some_iff.mp h
    simp [groupLengthFrom, hquote, ih hcount]
  | case5 depth c text hquote hopening ih =>
    obtain ⟨count, hcount, rfl⟩ := Option.map_eq_some_iff.mp h
    simp only [List.cons_append, groupLengthFrom, hquote, hopening, if_true, ih hcount]
    rfl
  | case6 depth c text hquote hopening hclosing hlast =>
    simpa [groupLengthFrom, hquote, hopening, hclosing, hlast] using h
  | case7 depth c text hquote hopening hclosing hmore ih =>
    obtain ⟨count, hcount, rfl⟩ := Option.map_eq_some_iff.mp h
    simp only [List.cons_append, groupLengthFrom, hquote, hopening, hclosing, hmore, if_true,
      ih hcount]
    rfl
  | case8 depth c text hquote hopening hclosing ih =>
    obtain ⟨count, hcount, rfl⟩ := Option.map_eq_some_iff.mp h
    simp only [List.cons_append, groupLengthFrom, hquote, hopening, hclosing, ih hcount]
    rfl

/-- The text between the parentheses of a group: the last character of the group closes it. -/
def IsGroupText (inner : List Char) : Prop :=
  groupLength '(' ')' ('(' :: (inner ++ [')'])) = .ok (inner.length + 2)

instance (inner : List Char) : Decidable (IsGroupText inner) := by
  unfold IsGroupText
  infer_instance

theorem argumentsLength_groupText {group : Option (List Char)} {rest : List Char}
    (hgroup : ∀ inner ∈ group, IsGroupText inner) (hrest : Separates rest) :
    argumentsLength (groupText group ++ rest) = .ok (groupText group).length := by
  cases group with
  | none =>
    have hparen : ∀ more, rest ≠ '(' :: more := by
      rintro more rfl
      exact (hrest '(' rfl).2.2.2 rfl
    unfold argumentsLength groupText
    split
    · next more heq => exact absurd heq (hparen more)
    · rfl
  | some inner =>
    have hclosed : IsGroupText inner := hgroup inner rfl
    have hlength : groupLengthFrom '(' ')' 0 false ('(' :: (inner ++ [')'])) =
        some (inner.length + 2) := by
      unfold IsGroupText groupLength at hclosed
      split at hclosed
      · next found hfound => rw [hfound, Except.ok.inj hclosed]
      · cases hclosed
    have hfollowed := groupLengthFrom_append hlength rest
    simp only [List.cons_append, List.append_assoc, List.nil_append] at hfollowed
    simp only [groupText, List.cons_append, List.append_assoc, List.nil_append, argumentsLength,
      groupLength, hfollowed]
    simp

/-! ### Items -/

/-- An attribute or a modifier, with the text in the parentheses directly behind it. -/
inductive HeadItem where
  | mark (name : List Char) (group : Option (List Char))
  | modifier (word : List Char) (group : Option (List Char))

namespace HeadItem

def text : HeadItem → List Char
  | mark name group => '@' :: (name ++ groupText group)
  | modifier word group => word ++ groupText group

/-- An item that can stand in a head that one of the keywords ends. -/
def IsWritten (keywords : List String) : HeadItem → Prop
  | mark name group => IsAttributeName name ∧ ∀ inner ∈ group, IsGroupText inner
  | modifier word group =>
    IsPlain word ∧ String.ofList word ∉ keywords ∧ ∀ inner ∈ group, IsGroupText inner

/-- The part of a head that an item is read as: a modifier without its group. -/
def part : HeadItem → HeadPart
  | mark name group => .attribute name group
  | modifier word _ => .modifier word

end HeadItem

/-- A group, or else what separates, goes on with no name and no word. -/
theorem head?_groupText_append {group : Option (List Char)} {rest : List Char}
    (hrest : Separates rest) :
    ∀ c ∈ (groupText group ++ rest).head?, isWord c = false ∧ c ≠ tick ∧ c ≠ '.' := by
  cases group with
  | none => exact fun c hc => ⟨(hrest c hc).1, (hrest c hc).2.1, (hrest c hc).2.2.1⟩
  | some inner =>
    intro c hc
    obtain rfl : '(' = c := by simpa [groupText] using hc
    decide

section

variable {keywords : List String} {item : HeadItem} {rest : List Char}

theorem headPart_mark {name : List Char} {group : Option (List Char)} (hname : IsAttributeName name)
    (hgroup : ∀ inner ∈ group, IsGroupText inner) (hrest : Separates rest) :
    headPart keywords ((HeadItem.mark name group).text ++ rest) =
      .ok (some (.attribute name group, rest)) := by
  have hbehind : ∀ c ∈ (groupText group ++ rest).head?, (isWord c || c == '.') = false := by
    intro c hc
    obtain ⟨hword, -, hdot⟩ := head?_groupText_append hrest c hc
    rw [hword, Bool.false_or]
    exact beq_false_of_ne hdot
  rw [HeadItem.text, List.cons_append, List.append_assoc]
  exact headPart_attributeName hname (argumentsLength_groupText hgroup hrest) hbehind

theorem headPart_modifier {word : List Char} {group : Option (List Char)} (hword : IsPlain word)
    (hkeyword : String.ofList word ∉ keywords) (hgroup : ∀ inner ∈ group, IsGroupText inner)
    (hrest : Separates rest) :
    headPart keywords ((HeadItem.modifier word group).text ++ rest) =
      .ok (some (.modifier word, rest)) := by
  have hbreaks : Breaks (groupText group ++ rest) := fun c hc =>
    ⟨(head?_groupText_append hrest c hc).1, (head?_groupText_append hrest c hc).2.1⟩
  have hlength := argumentsLength_groupText hgroup hrest
  rw [HeadItem.text, List.append_assoc, headPart, attributeName?_of_isPlain hword,
    word?_of_isPlain hword hbreaks]
  simp [hkeyword, hlength, bind, Except.bind, pure, Except.pure]

/-- An item is read as its part. -/
theorem HeadItem.headPart_append (h : item.IsWritten keywords) (hrest : Separates rest) :
    headPart keywords (item.text ++ rest) = .ok (some (item.part, rest)) := by
  cases item with
  | mark name group => exact headPart_mark h.1 h.2 hrest
  | modifier word group => exact headPart_modifier h.1 h.2.1 h.2.2 hrest

theorem HeadItem.skipTrivia_append (h : item.IsWritten keywords) (rest : List Char) :
    skipTrivia (item.text ++ rest) = item.text ++ rest := by
  cases item with
  | mark name group => exact skipTrivia_cons (by decide) (by decide)
  | modifier word group =>
    rw [HeadItem.text, List.append_assoc]
    exact skipTrivia_of_isPlain h.1 _

end

/-! ### Whole heads -/

structure HeadEntry where
  item : HeadItem
  gap : List Char

namespace HeadEntry

structure IsWritten (keywords : List String) (entry : HeadEntry) : Prop where
  item : entry.item.IsWritten keywords
  gap : Gap entry.gap
  gap_ne : entry.gap ≠ []

def text (entry : HeadEntry) : List Char := entry.item.text ++ entry.gap

def attributeAt? (offset : Nat) (entry : HeadEntry) : Option Attribute :=
  match entry.item with
  | .mark name group => some {
      name := String.ofList name
      arguments := group
      start := offset
      stop := offset + entry.item.text.length }
  | .modifier .. => none

def modifier? (entry : HeadEntry) : Option String :=
  match entry.item with
  | .mark .. => none
  | .modifier word _ => some (String.ofList word)

def attributeText? (entry : HeadEntry) : Option (List Char) :=
  match entry.item with
  | .mark .. => some entry.item.text
  | .modifier .. => none

end HeadEntry

def entriesText (entries : List HeadEntry) : List Char := entries.flatMap HeadEntry.text

theorem entriesText_cons (entry : HeadEntry) (entries : List HeadEntry) :
    entriesText (entry :: entries) = entry.item.text ++ (entry.gap ++ entriesText entries) := by
  simp [entriesText, HeadEntry.text]

/-- The attributes of entries that start at the offset. -/
def attributesFrom (offset : Nat) : List HeadEntry → List Attribute
  | [] => []
  | entry :: rest =>
    (entry.attributeAt? offset).toList ++ attributesFrom (offset + entry.text.length) rest

section

variable {keywords : List String} {entries : List HeadEntry} {word after : List Char}

def headOf (offset : Nat) (entries : List HeadEntry) (word : List Char) : Head where
  attributes := attributesFrom offset entries
  modifiers := entries.filterMap HeadEntry.modifier?
  keyword := some (String.ofList word)
  stop := offset + (entriesText entries).length + word.length

/-- What is read behind an item is the head without it. -/
theorem addPart_headOf (entry : HeadEntry) (offset : Nat) (entries : List HeadEntry)
    (word : List Char) :
    Head.addPart entry.item.part offset (offset + entry.item.text.length)
        (.ok (headOf (offset + entry.item.text.length + entry.gap.length) entries word)) =
      .ok (headOf offset (entry :: entries) word) := by
  have hoffset : offset + entry.text.length =
      offset + entry.item.text.length + entry.gap.length := by
    rw [HeadEntry.text, List.length_append, Nat.add_assoc]
  have hstop : offset + entry.text.length + (entriesText entries).length + word.length =
      offset + (entriesText (entry :: entries)).length + word.length := by
    simp only [entriesText_cons, HeadEntry.text, List.length_append]
    omega
  rw [← hoffset]
  cases hitem : entry.item <;>
    simp [Head.addPart, HeadItem.part, headOf, Except.map, attributesFrom,
      HeadEntry.attributeAt?, HeadEntry.modifier?, hitem, hstop]

theorem headFrom_written (hentries : ∀ entry ∈ entries, entry.IsWritten keywords)
    (hword : IsTicked word) (hkeyword : String.ofList word ∈ keywords) (hafter : Breaks after)
    {gap : List Char} (hgap : Gap gap) (offset : Nat) :
    headFrom keywords offset (gap ++ (entriesText entries ++ (word ++ after))) =
      .ok (headOf (offset + gap.length) entries word) := by
  -- the trivia behind an entry stand in front of the next
  induction entries generalizing gap offset with
  | nil =>
    obtain ⟨hpart, hskip⟩ := headPart_keyword hword hkeyword hafter
    exact headFrom_of_part ((hgap.skipTrivia_append _).trans hskip) hpart offset
  | cons entry rest ih =>
    obtain ⟨⟨hitem, hbehind, hne⟩, hrest⟩ := List.forall_mem_cons.mp hentries
    have hread := ih hrest hbehind (offset + gap.length + entry.item.text.length)
    have hpart := HeadItem.headPart_append hitem
      (hbehind.separates hne (entriesText rest ++ (word ++ after)))
    have hskip := (hgap.skipTrivia_append _).trans (HeadItem.skipTrivia_append hitem
      (entry.gap ++ (entriesText rest ++ (word ++ after))))
    rw [entriesText_cons, List.append_assoc, List.append_assoc, headFrom_of_part hskip hpart, hread,
      addPart_headOf]

theorem map_slice_attributesFrom (front rest : List Char) (entries : List HeadEntry) :
    ((attributesFrom front.length entries).map fun mark =>
        ((front ++ (entriesText entries ++ rest)).take mark.stop).drop mark.start) =
      entries.filterMap HeadEntry.attributeText? := by
  induction entries generalizing front with
  | nil => rfl
  | cons entry entries ih =>
    have hsplit : front ++ (entriesText (entry :: entries) ++ rest) =
        (front ++ entry.text) ++ (entriesText entries ++ rest) := by
      simp [entriesText, HeadEntry.text]
    have hslice : ((front ++ (entriesText (entry :: entries) ++ rest)).take
        (front.length + entry.item.text.length)).drop front.length = entry.item.text := by
      rw [entriesText_cons, List.append_assoc, ← List.append_assoc front, ← List.length_append,
        List.take_left, List.drop_left]
    have hrest := ih (front ++ entry.text)
    rw [← hsplit, List.length_append] at hrest
    rw [attributesFrom, List.map_append, hrest]
    cases hitem : entry.item <;> rw [hitem] at hslice <;>
      simp only [HeadEntry.attributeAt?, HeadEntry.attributeText?, hitem, Option.toList_some,
        Option.toList_none, List.map_cons, List.map_nil, List.filterMap_cons, List.nil_append,
        List.cons_append, hslice]

end

/-- **A head is read as it is written**: entries, each an attribute or a modifier with its group and
some trivia behind it, and behind them a keyword that can be read as a word. The head has the
attributes and the modifiers of the entries in their order and stops behind the keyword, and every
attribute stands where its own text does. -/
theorem head_written {keywords : List String} {entries : List HeadEntry} {word after : List Char}
    (hentries : ∀ entry ∈ entries, entry.IsWritten keywords) (hword : IsTicked word)
    (hkeyword : String.ofList word ∈ keywords) (hafter : Breaks after) :
    head keywords (entriesText entries ++ (word ++ after)) = .ok {
        attributes := attributesFrom 0 entries
        modifiers := entries.filterMap HeadEntry.modifier?
        keyword := some (String.ofList word)
        stop := (entriesText entries).length + word.length } ∧
      (attributesFrom 0 entries).map (fun mark =>
          ((entriesText entries ++ (word ++ after)).take mark.stop).drop mark.start) =
        entries.filterMap HeadEntry.attributeText? := by
  refine ⟨?_, map_slice_attributesFrom [] (word ++ after) entries⟩
  have hread := headFrom_written hentries hword hkeyword hafter .nil 0
  simpa [head, headOf] using hread

theorem head_written_wrapped :
    let entries : List HeadEntry := [
      ⟨.mark "objc".toList (some "a(b)".toList), " ".toList⟩,
      ⟨.mark "Wrap.Foo".toList (some "\"x)\"".toList), "/* c */ ".toList⟩,
      ⟨.modifier "private".toList (some "set".toList), " // hm\n\t".toList⟩,
      ⟨.modifier "static".toList none, "/**/".toList⟩]
    (∀ entry ∈ entries, entry.IsWritten bindingKeywords) ∧ IsTicked "let".toList ∧
      head bindingKeywords (entriesText entries ++ ("let".toList ++ " n".toList)) = .ok {
        attributes := [
          { name := "objc", arguments := some "a(b)".toList, start := 0, stop := 11 },
          { name := "Wrap.Foo", arguments := some "\"x)\"".toList, start := 12, stop := 27 }]
        modifiers := ["private", "static"]
        keyword := some "let"
        stop := 68 } := by
  intro entries
  have hspace : Gap " ".toList := .blank (by decide) .nil
  have hclosed : ¬['*', '/'] <:+: " c ".toList := by decide
  have hcomment : Gap "/* c */ ".toList := .blockComment hclosed hspace
  have hended : '\n' ∉ " hm".toList := by decide
  have hline : Gap " // hm\n\t".toList :=
    .blank (by decide) (.lineComment hended (.blank (by decide) .nil))
  have hnothing : ¬['*', '/'] <:+: ([] : List Char) := by decide
  have hempty : Gap "/**/".toList := .blockComment hnothing .nil
  have hobjc : IsAttributeName "objc".toList :=
    ⟨'o', "bjc".toList, rfl, by decide, List.all_eq_true.mp (by decide)⟩
  have hwrap : IsAttributeName "Wrap.Foo".toList :=
    ⟨'W', "rap.Foo".toList, rfl, by decide, List.all_eq_true.mp (by decide)⟩
  have hprivate : IsPlain "private".toList := isPlain_of_all (by decide) (by decide)
  have hstatic : IsPlain "static".toList := isPlain_of_all (by decide) (by decide)
  have hlet : IsTicked "let".toList := (isPlain_of_all (by decide) (by decide)).isTicked
  have hwritten : ∀ entry ∈ entries, entry.IsWritten bindingKeywords := by
    simp only [entries, List.forall_mem_cons]
    exact ⟨⟨⟨hobjc, by decide⟩, hspace, by decide⟩, ⟨⟨hwrap, by decide⟩, hcomment, by decide⟩,
      ⟨⟨hprivate, by decide, by decide⟩, hline, by decide⟩,
      ⟨⟨hstatic, by decide, by decide⟩, hempty, by decide⟩, by simp⟩
  have hbreaks : Breaks " n".toList := breaks_cons.mpr (by decide)
  have hread := (head_written hwritten hlet (by decide) hbreaks).1
  exact ⟨hwritten, hlet, hread.trans (by rfl)⟩

end FluentBuilder.Syntax
