import FluentBuilder.Proofs.Source.Answers
import FluentBuilder.Proofs.Source.Properties
import FluentBuilder.Proofs.Syntax.Arguments

/-!
# A given default reaches the builder as it is written

The expression of a default goes through three readers before it stands in a builder: the head of
the property is read up to the parenthesis that closes the arguments of its attribute, the arguments
are cut at commas, and the label is told from the expression. None of them changes the expression
(`givenDefault_verbatim`), as long as it closes what it opens: nested calls, closures, generic
arguments and strings with quotes, commas or brackets in them are all left alone.

Nothing is asked of the name and the type of the property for the default to be read. They only
matter for the slot of the builder, which a property without an identifier for a name does not have.
-/

namespace FluentBuilder

open Syntax Text TypeExpr

variable {settings : Settings} {source : SourceText} {path : Path} {node : Node}

/-- The argument of an attribute that gives a default. -/
def givenArgument (expression : String) : Argument where
  label := some "default"
  expression

/-- A constant with an attribute that gives its default. -/
def overriddenText (mark expression name : String) (type : TypeExpr) : List Char :=
  attributeText mark [givenArgument expression] ++ ' ' :: propertyText "let" name type []

def overriddenSlot (expression name : String) (type : TypeExpr) : Slot where
  name
  type
  default := String.ofList (trim expression.toList)

/-! ### The head of an overridden constant -/

variable {mark expression name : String} {type : TypeExpr}

theorem isWritten_givenArgument (h : IsExpression expression.toList) :
    (givenArgument expression).IsWritten :=
  Argument.isWritten_labelled (isPlain_of_all (by decide) (by decide)) h

def overridingMark (mark expression : String) : Attribute where
  name := mark
  arguments := some (argumentsText [givenArgument expression])
  start := 0
  stop := (attributeText mark [givenArgument expression]).length

def overriddenHead (mark expression : String) : Head where
  attributes := [overridingMark mark expression]
  keyword := some "let"
  stop := (attributeText mark [givenArgument expression]).length + 4

theorem head_overriddenText (hmark : IsAttributeName mark.toList)
    (hexpression : IsExpression expression.toList) :
    head bindingKeywords (overriddenText mark expression name type) =
      .ok (overriddenHead mark expression) := by
  have hwritten : ∀ argument ∈ [givenArgument expression], argument.IsWritten :=
    List.forall_mem_singleton.mpr (isWritten_givenArgument hexpression)
  have hproperty (offset : Nat) : headFrom bindingKeywords offset
      (' ' :: propertyText "let" name type []) = .ok { keyword := some "let", stop := offset + 4 } :=
    headFrom_property isBlank_of_mem_space (by decide)
  rw [head, overriddenText, headFrom_attributeText hmark hwritten, hproperty]
  simp [overriddenHead, overridingMark, Except.map]

theorem drop_overriddenText (mark expression name : String) (type : TypeExpr) :
    (overriddenText mark expression name type).drop (overriddenHead mark expression).stop =
      bindingText name type [] := by
  have hsplit : overriddenText mark expression name type =
      attributeText mark [givenArgument expression] ++ ' ' :: "let".toList ++
        bindingText name type [] := by
    rw [overriddenText, propertyText_eq]
    simp
  rw [hsplit]
  exact List.drop_left' (by simp [overriddenHead])

theorem defaultArgument_overridingMark (hexpression : IsExpression expression.toList) :
    (overridingMark mark expression).defaultArgument =
      some (String.ofList (trim expression.toList)) := by
  have hwritten : ∀ argument ∈ [givenArgument expression], argument.IsWritten :=
    List.forall_mem_singleton.mpr (isWritten_givenArgument hexpression)
  have hlist : (overridingMark mark expression).argumentList = [(givenArgument expression).trimmed] :=
    argumentList_argumentsText rfl hwritten
  rw [Attribute.defaultArgument, hlist]
  rfl

theorem givenDefaults_overriddenHead (hlisted : mark ∈ settings.defaultAttributes)
    (hexpression : IsExpression expression.toList) :
    givenDefaults settings (overriddenHead mark expression) =
      [(overridingMark mark expression, String.ofList (trim expression.toList))] := by
  have hcontains : settings.defaultAttributes.contains (overridingMark mark expression).name = true :=
    List.contains_iff_mem.mpr hlisted
  have hgiven : (overridingMark mark expression).defaultArgument = _ :=
    defaultArgument_overridingMark hexpression
  simp only [givenDefaults, overriddenHead, List.filterMap_cons, List.filterMap_nil, hcontains,
    if_true, hgiven, Option.map_some]

/-! ### From the head to the member -/

theorem givenDefault_readBinding (member : Member) (text : List Char) :
    (readBinding member text).givenDefault = member.givenDefault := by
  unfold readBinding
  split
  · rfl
  · dsimp only
    split <;> rfl

/-- The given default of a member is the first that an attribute of its head gives. -/
theorem memberSite_of_head (settings : Settings) (path : Path) {text : List Char} {found : Head}
    (htext : source.textOf node = .ok text) (hhead : head bindingKeywords text = .ok found) :
    ∃ site, memberSite settings source path node = .ok (site, none) ∧
      site.member.givenDefault = (givenDefaults settings found).head?.map (·.2) := by
  simp only [memberSite, htext, hhead, bind, Except.bind, pure, Except.pure]
  refine ⟨_, rfl, ?_⟩
  dsimp only
  split
  · exact givenDefault_readBinding _ _
  · rfl

theorem memberSite_overriddenText (settings : Settings) (path : Path)
    (hmark : IsAttributeName mark.toList) (hexpression : IsExpression expression.toList)
    (hname : IsPlain name.toList) (htype : Canonical type)
    (htext : source.textOf node = .ok (overriddenText mark expression name type)) :
    ∃ site, memberSite settings source path node = .ok (site, none) ∧
      site.member.name = some name ∧ site.member.type = some type ∧
      site.member.isStatic = false ∧ site.member.isComputed = false := by
  have htail : EndsAnnotation [] := ⟨[], [], rfl, List.forall_mem_nil _, .inl rfl⟩
  exact ⟨_, memberSite_annotated htext (head_overriddenText hmark hexpression) rfl
    (drop_overriddenText mark expression name type) hname htype htail, rfl, rfl, rfl, rfl⟩

/-- The slot of a member with a given default, in the builder of any declaration that has the
member and no other without a default. -/
theorem exists_slot_of_givenDefault {member : Member} {slot : Slot} {declaration : Declaration}
    (hstored : member.isStored = true) (hname : member.name = some slot.name)
    (htype : member.type = some slot.type) (hgiven : member.givenDefault = some slot.default)
    (hmember : member ∈ declaration.members)
    (hothers : ∀ other ∈ declaration.storedMembers,
      other = member ∨ other.HasDefault (declaration.rules settings)) :
    ∃ spec, declaration.builder settings = .ok spec ∧ slot ∈ spec.slots := by
  have hall : declaration.HasDefaults settings := by
    intro other hother
    rcases hothers other hother with rfl | hdefault
    · exact .inl (by rw [hgiven]; rfl)
    · exact hdefault
  obtain ⟨spec, hspec⟩ := declaration.exists_builder_iff.mpr hall
  have hmem : member ∈ declaration.storedMembers := List.mem_filter.mpr ⟨hmember, hstored⟩
  obtain ⟨found, hfound, hfills⟩ := BuilderSpec.exists_fills_of_mem
    (declaration.forall₂_fills_of_builder settings hspec) hmem
  exact ⟨spec, hspec, hfills.eq_of_given hname htype hgiven ▸ hfound⟩

/-! ### What reaches the builder -/

/-- **A given default reaches the builder as it is written.** If the attribute of a constant gives
an expression as its default, the member has the expression for its default, and so has the slot of
the constant in every builder with this member. The arguments of any attribute are read as they are
written, with their labels. Only blanks around the expressions are trimmed. -/
theorem givenDefault_verbatim (settings : Settings) :
    (∀ (source : SourceText) (path : Path) (node : Node) (mark expression name : String)
        (type : TypeExpr), mark ∈ settings.defaultAttributes → IsAttributeName mark.toList →
      IsExpression expression.toList →
      source.textOf node = .ok (overriddenText mark expression name type) →
      ∃ site, memberSite settings source path node = .ok (site, none) ∧
        site.member.givenDefault = some (String.ofList (trim expression.toList)) ∧
        (IsPlain name.toList → isIdentifier name = true → Canonical type →
          ∀ declaration : Declaration, site.member ∈ declaration.members →
            (∀ other ∈ declaration.storedMembers,
              other = site.member ∨ other.HasDefault (declaration.rules settings)) →
            ∃ spec, declaration.builder settings = .ok spec ∧
              overriddenSlot expression name type ∈ spec.slots)) ∧
    ∀ (keywords : List String) (name : String) (arguments : List Argument),
      IsAttributeName name.toList → (∀ argument ∈ arguments, argument.IsWritten) →
      ∃ found mark, head keywords (attributeText name arguments) = .ok found ∧
        found.attributes = [mark] ∧ mark.name = name ∧
        mark.argumentList = arguments.map (·.trimmed) := by
  constructor
  · intro source path node mark expression name type hlisted hmark hexpression htext
    obtain ⟨site, hsite, hgiven⟩ :=
      memberSite_of_head settings path htext (head_overriddenText hmark hexpression)
    rw [givenDefaults_overriddenHead hlisted hexpression] at hgiven
    refine ⟨site, hsite, hgiven, ?_⟩
    intro hname hidentifier htype declaration hmember hothers
    obtain ⟨same, hsame, hsiteName, hsiteType, hstatic, hcomputed⟩ :=
      memberSite_overriddenText settings path hmark hexpression hname htype htext
    obtain rfl : same = site := by simpa [hsame] using hsite
    have hstored : same.member.isStored = true := by
      simp [Member.isStored, hstatic, hcomputed, hsiteName, hsiteType, hidentifier]
    exact exists_slot_of_givenDefault hstored hsiteName hsiteType hgiven hmember hothers
  · intro keywords name arguments hname hwritten
    exact head_attributeText keywords hname hwritten

/-- A call with a closure: it has an arrow, a string with a quote, a bracket and a comma in it, and
a generic argument. -/
def callbackText : String :=
  " run([1, 2], then: \x7b (x: Int) -> String in \"\\\"),\" + x \x7d, Set<Int>()) "

def taskText : String :=
  "@Builder(default:  run([1, 2], then: \x7b (x: Int) -> String in \"\\\"),\" + x \x7d, Set<Int>()) )" ++
    " let task: Task"

/-- The call as it reaches the builder. -/
def calledText : String :=
  "run([1, 2], then: \x7b (x: Int) -> String in \"\\\"),\" + x \x7d, Set<Int>())"

theorem givenDefault_verbatim_callback :
    (∃ site spec, memberSite {} (.ofString taskText) (.ofString "Source.swift")
        (propertyOf taskText) = .ok (site, none) ∧
      site.member.givenDefault = some calledText ∧
      ({ name := "Job", members := [site.member] } : Declaration).builder {} = .ok spec ∧
      ⟨"task", .nominal "Task" [], calledText⟩ ∈ spec.slots) ∧
    ∃ found mark, head bindingKeywords
        (attributeText "Builder" [⟨none, "0"⟩, ⟨some "then", callbackText⟩]) = .ok found ∧
      found.attributes = [mark] ∧ mark.name = "Builder" ∧
      mark.argumentList = [(none, "0"), (some "then", calledText)] := by
  have hmark : IsAttributeName "Builder".toList :=
    ⟨'B', "uilder".toList, by decide, by decide, List.all_eq_true.mp (by decide)⟩
  have hexpression : IsExpression callbackText.toList :=
    ⟨⟨'r', by decide +kernel, by decide⟩, by decide +kernel⟩
  have htrim : String.ofList (trim callbackText.toList) = calledText := by decide +kernel
  obtain ⟨hmember, hscan⟩ := givenDefault_verbatim {}
  constructor
  · have hsplit : taskText.toList =
        overriddenText "Builder" callbackText "task" (.nominal "Task" []) := by
      decide +kernel
    have htask : IsPlain "task".toList := isPlain_of_all (by decide) (by decide)
    have htype : Canonical (.nominal "Task" []) :=
      canonical_name (isPlain_of_all (by decide) (by decide)) (by decide) (by decide)
    obtain ⟨site, hsite, hgiven, hslot⟩ := hmember (.ofString taskText) (.ofString "Source.swift")
      (propertyOf taskText) "Builder" callbackText "task" (.nominal "Task" []) (by decide) hmark
      hexpression (hsplit ▸ textOf_propertyOf taskText)
    obtain ⟨spec, hspec, hmem⟩ := hslot htask (by decide) htype
      { name := "Job", members := [site.member] } (List.mem_singleton_self _) fun other hother =>
        .inl (List.mem_singleton.mp (List.mem_filter.mp hother).1)
    rw [overriddenSlot, htrim] at hmem
    exact ⟨site, spec, hsite, htrim ▸ hgiven, hspec, hmem⟩
  · have hwritten : ∀ argument ∈ [⟨none, "0"⟩, ⟨some "then", callbackText⟩],
        Argument.IsWritten argument := by
      have hzero : Argument.IsWritten ⟨none, "0"⟩ :=
        ⟨⟨⟨'0', by decide, by decide⟩, by decide⟩, nofun, fun _ => by decide⟩
      have hthen : IsPlain "then".toList := isPlain_of_all (by decide) (by decide)
      exact List.forall_mem_cons.mpr ⟨hzero, List.forall_mem_singleton.mpr
        (Argument.isWritten_labelled hthen hexpression)⟩
    obtain ⟨found, mark, hhead, hfound, hname, hlist⟩ :=
      hscan bindingKeywords "Builder" _ hmark hwritten
    refine ⟨found, mark, hhead, hfound, hname, ?_⟩
    have hzero : String.ofList (trim "0".toList) = "0" := by decide
    simp only [hlist, List.map_cons, List.map_nil, Argument.trimmed, hzero, htrim]

end FluentBuilder
