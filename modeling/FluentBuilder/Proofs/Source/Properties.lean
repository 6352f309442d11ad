import FluentBuilder.Proofs.Syntax.Annotations
import FluentBuilder.Proofs.Syntax.Heads
import FluentBuilder.Proofs.Text.Encoding
import FluentBuilder.Source.Outline

/-!
# Properties are read back

A property is written with a keyword, a name, a colon and a type, and something may follow: an
initial value, a body, further bindings, another statement or a comment. `memberSite_property` says
that the member that is read has this name and this type, whatever follows. What follows says
whether the value is computed: it is if a body follows, and the body does not start with an observer.

Three readers work one behind the other: the head ends with the keyword (`headFrom_keyword`), the
name is the word behind it, and the annotation is cut out before it is read as a type
(`annotation_render`). `memberSite_annotated` puts them together for a head with any attributes and
modifiers.
-/

namespace FluentBuilder

open Syntax Text TypeExpr

/-! ### The text of a property -/

/-- A property with a type, and what follows it. -/
def propertyText (keyword name : String) (type : TypeExpr) (tail : List Char) : List Char :=
  (keyword ++ " " ++ name ++ ": " ++ type.render).toList ++ tail

/-- What follows the keyword in the text of a property. -/
def bindingText (name : String) (type : TypeExpr) (tail : List Char) : List Char :=
  ' ' :: (name.toList ++ ':' :: ' ' :: (type.render.toList ++ tail))

theorem propertyText_eq (keyword name : String) (type : TypeExpr) (tail : List Char) :
    propertyText keyword name type tail = keyword.toList ++ bindingText name type tail := by
  simp [propertyText, bindingText]

/-- A body follows that computes the value: behind the trivia that it starts with stands no
observer. -/
def HasGetter (tail : List Char) : Prop :=
  ∃ body, skipTrivia tail = '\x7b' :: body ∧
    ∀ word after, word? (skipTrivia body) = some (word, after) → String.ofList word ∉ observers

theorem computes_iff (tail : List Char) : computes tail = true ↔ HasGetter tail := by
  unfold computes HasGetter
  split
  · next body heq =>
    have hbody (other : List Char) : skipTrivia tail = '\x7b' :: other ↔ other = body := by
      simp [heq, eq_comm]
    simp only [hbody, exists_eq_left]
    cases hword : word? (skipTrivia body) with
    | none => simp
    | some found =>
      obtain ⟨word, after⟩ := found
      simp
  · next hnone =>
    simp only [Bool.false_eq_true, false_iff, not_exists, not_and]
    intro body heq
    exact absurd heq (hnone body)

/-! ### Reading the binding -/

theorem annotatedType_render {type : TypeExpr} (h : Canonical type) :
    annotatedType type.render = some type := by
  have hread : ofString type.render = .ok type := h.settled.faithful.ofString_render
  have hne : type.render ≠ "" := by
    intro hempty
    have hnone : (ofString "").toOption.isNone = true := by decide +kernel
    rw [hempty] at hread
    simp [hread, Except.toOption] at hnone
  simp [annotatedType, hne, hread]

theorem readBinding_bindingText (member : Member) {name : String} {type : TypeExpr}
    {tail : List Char} (hname : IsPlain name.toList) (htype : Canonical type)
    (htail : EndsAnnotation tail) :
    readBinding member (bindingText name type tail) =
      { member with name := some name, type := some type, isComputed := computes tail } := by
  obtain ⟨blanks, rest, rfl, hblanks, hrest⟩ := htail
  have hskipped : skipTrivia (bindingText name type (blanks ++ rest)) =
      name.toList ++ ':' :: ' ' :: (type.render.toList ++ (blanks ++ rest)) := by
    exact (skipTrivia_append_blanks isBlank_of_mem_space _).trans (skipTrivia_of_isPlain hname _)
  have hword : word? (name.toList ++ ':' :: ' ' :: (type.render.toList ++ (blanks ++ rest))) =
      some (name.toList, ':' :: ' ' :: (type.render.toList ++ (blanks ++ rest))) :=
    word?_of_isPlain hname (by simp; decide)
  have hcolon (after : List Char) : skipTrivia (':' :: after) = ':' :: after :=
    skipTrivia_cons (by decide) (by decide)
  have hannotation := annotation_render htype isBlank_of_mem_space hblanks hrest
  have hcomputes : computes rest = computes (blanks ++ rest) := by
    rw [computes, computes, skipTrivia_append_blanks hblanks]
  simp only [List.cons_append, List.nil_append, List.append_assoc] at hannotation
  simp only [readBinding, hskipped, hword, hcolon, hannotation, unticked_of_plain hname,
    String.ofList_toList, annotatedType_render htype, hcomputes]

/-! ### Texts of one property -/

/-- The node of a text that is one property. -/
def propertyOf (text : String) : Node where
  kind := "property_declaration"
  start := 0
  stop := (SourceText.ofString text).size

theorem textOf_propertyOf (text : String) :
    (SourceText.ofString text).textOf (propertyOf text) = .ok text.toList := by
  have hslice : (SourceText.ofString text).slice 0 (SourceText.ofString text).size =
      Utf8.encode text.toList := by
    simp [SourceText.slice, SourceText.size, SourceText.ofString]
  simp [SourceText.textOf, propertyOf, hslice, Utf8.decode_encode, Except.mapError]

/-! ### Reading the member -/

variable {settings : Settings} {source : SourceText} {path : Path} {node : Node}

/-- The member whose head ends with a keyword, in front of a name and a type. -/
theorem memberSite_annotated {text tail : List Char} {found : Head} {keyword name : String}
    {type : TypeExpr} (htext : source.textOf node = .ok text)
    (hhead : head bindingKeywords text = .ok found) (hkeyword : found.keyword = some keyword)
    (hrest : text.drop found.stop = bindingText name type tail) (hname : IsPlain name.toList)
    (htype : Canonical type) (htail : EndsAnnotation tail) :
    memberSite settings source path node = .ok
      ({ member := {
          name := some name
          type := some type
          givenDefault := (givenDefaults settings found).head?.map (·.2)
          isMutable := keyword == "var"
          isStatic := found.modifiers.any staticModifiers.contains
          isComputed := computes tail
          location := some (source.locate path node.start text 0) }
         strips := (givenDefaults settings found).map fun (mark, _) =>
          source.spanIn node.start text mark.start mark.stop }, none) := by
  simp only [memberSite, htext, hhead, hkeyword, bind, Except.bind, pure, Except.pure,
    Option.isSome_some, if_true, hrest, readBinding_bindingText _ hname htype htail]
  rfl

theorem isPlain_of_mem_bindingKeywords {keyword : String} (h : keyword ∈ bindingKeywords) :
    IsPlain keyword.toList := by
  simp only [bindingKeywords, List.mem_cons, List.not_mem_nil, or_false] at h
  rcases h with rfl | rfl <;> exact isPlain_of_all (by decide) (by decide)

theorem headFrom_property {offset : Nat} {blanks : List Char} {keyword name : String}
    {type : TypeExpr} {tail : List Char} (hblanks : ∀ c ∈ blanks, isBlank c = true)
    (h : keyword ∈ bindingKeywords) :
    headFrom bindingKeywords offset (blanks ++ propertyText keyword name type tail) =
      .ok { keyword := some keyword, stop := offset + (blanks.length + keyword.toList.length) } := by
  rw [propertyText_eq, headFrom_keyword hblanks (isPlain_of_mem_bindingKeywords h),
    String.ofList_toList]
  · rwa [String.ofList_toList]
  · exact breaks_space

theorem memberSite_propertyText {keyword name : String} {type : TypeExpr} {tail : List Char}
    (hkeyword : keyword ∈ bindingKeywords) (hname : IsPlain name.toList) (htype : Canonical type)
    (htail : EndsAnnotation tail)
    (htext : source.textOf node = .ok (propertyText keyword name type tail)) :
    memberSite settings source path node = .ok
      ({ member := {
          name := some name
          type := some type
          isMutable := keyword == "var"
          isComputed := computes tail
          location := some (source.locate path node.start (propertyText keyword name type tail) 0) }
         strips := [] }, none) := by
  have hhead : head bindingKeywords (propertyText keyword name type tail) =
      .ok { keyword := some keyword, stop := 0 + (0 + keyword.toList.length) } :=
    headFrom_property (List.forall_mem_nil _) hkeyword
  have hrest : (propertyText keyword name type tail).drop (0 + (0 + keyword.toList.length)) =
      bindingText name type tail := by
    rw [propertyText_eq]
    exact List.drop_left' (by omega)
  exact memberSite_annotated htext hhead rfl hrest hname htype htail

/-- **A property is read back.** The member has the name and the type that are written behind the
keyword, it is mutable exactly if the keyword is `var`, and computed exactly if a body follows that
does not start with an observer. -/
theorem memberSite_property {keyword name : String} {type : TypeExpr} {tail : List Char}
    (hkeyword : keyword ∈ bindingKeywords) (hname : IsPlain name.toList) (htype : Canonical type)
    (htail : EndsAnnotation tail)
    (htext : source.textOf node = .ok (propertyText keyword name type tail)) :
    ∃ site, memberSite settings source path node = .ok (site, none) ∧
      site.member.name = some name ∧ site.member.type = some type ∧
      (site.member.isMutable = true ↔ keyword = "var") ∧
      (site.member.isComputed = true ↔ HasGetter tail) := by
  refine ⟨_, memberSite_propertyText hkeyword hname htype htail htext, rfl, rfl, ?_, ?_⟩
  · exact beq_iff_eq
  · exact computes_iff tail

/-- A dictionary with an observer. -/
def observedText : String := "var table: [String: Int?] \x7b didSet \x7b print(table) \x7d \x7d"

/-- The braces behind the annotation are no part of it, and the property is stored. -/
theorem memberSite_property_observed :
    let type : TypeExpr := .dictionary (.nominal "String" []) (.optional (.nominal "Int" []))
    ∃ site, memberSite {} (.ofString observedText) (.ofString "Source.swift")
        (propertyOf observedText) = .ok (site, none) ∧
      site.member.name = some "table" ∧ site.member.type = some type ∧
      site.member.isMutable = true ∧ site.member.isComputed = false := by
  intro type
  let braces := "\x7b didSet \x7b print(table) \x7d \x7d".toList
  have htable : IsPlain "table".toList := isPlain_of_all (by decide) (by decide)
  have hstring : Canonical (.nominal "String" []) :=
    canonical_name (isPlain_of_all (by decide) (by decide)) (by decide) (by decide)
  have hint : Canonical (.nominal "Int" []) :=
    canonical_name (isPlain_of_all (by decide) (by decide)) (by decide) (by decide)
  have htail : EndsAnnotation (' ' :: braces) :=
    ⟨[' '], braces, rfl, by simp; decide, .inr ⟨['\x7b'], by decide, by decide⟩⟩
  have hsplit : observedText.toList = propertyText "var" "table" type (' ' :: braces) := by
    decide +kernel
  have htext : (SourceText.ofString observedText).textOf (propertyOf observedText) =
      .ok (propertyText "var" "table" type (' ' :: braces)) :=
    hsplit ▸ textOf_propertyOf observedText
  obtain ⟨site, hsite, hname, htype, hmutable, hcomputed⟩ :=
    memberSite_property (by decide) htable (.dictionary hstring (.optional hint)) htail htext
  refine ⟨site, hsite, hname, htype, hmutable.mpr rfl, ?_⟩
  have hstored : computes (' ' :: braces) = false := by decide +kernel
  rw [← Bool.not_eq_true, hcomputed, ← computes_iff, hstored]
  decide

end FluentBuilder
