import FluentBuilder.Proofs.Source.Markers
import FluentBuilder.Proofs.Source.Widening
import FluentBuilder.Proofs.Syntax.Heads
import FluentBuilder.Proofs.Text.Decoding

/-!
# The ranges of marks

What goes for the marks of a record are the ranges of the marks of its node and of the properties in
its body, grown over blanks (`recordSite_strips`). The ranges themselves lie in their nodes, one
behind the other, and start and end with what is no blank (`solid_of_mem_marksAt`,
`marksAt_pairwise`): they are the bytes of the attributes that the head of the node is read with.
-/

namespace FluentBuilder

open Syntax Text

/-! ### Bytes of a mark -/

theorem isByteBlank_ofNat {n : Nat} (h : n < 256) (hrange : ¬(9 ≤ n ∧ n ≤ 13)) (hne : n ≠ 32) :
    isByteBlank (UInt8.ofNat n) = false := by
  have hn : (UInt8.ofNat n).toNat = n := by simp [Nat.mod_eq_of_lt h]
  have hspace : UInt8.ofNat n ≠ 32 := fun heq => hne (by rw [← hn, heq]; rfl)
  simp only [isByteBlank, Bool.or_eq_false_iff, Bool.and_eq_false_iff, decide_eq_false_iff_not,
    beq_eq_false_iff_ne, UInt8.le_iff_toNat_le, hn]
  refine ⟨?_, hspace⟩
  change ¬9 ≤ n ∨ ¬n ≤ 13
  omega

theorem Syntax.IsFirm.exists_last_byte {c : Char} (h : IsFirm c) :
    ∃ bytes last, String.utf8EncodeChar c = bytes ++ [last] ∧ isByteBlank last = false := by
  have hval : c.val.toNat = c.toNat := rfl
  have hvalid : c.toNat < 0x110000 := by
    have := c.valid
    unfold UInt32.isValidChar Nat.isValidChar at this
    omega
  unfold String.utf8EncodeChar
  simp only [hval]
  split
  · exact ⟨[], _, rfl, isByteBlank_ofNat (by omega) h.1 h.2⟩
  · split
    · exact ⟨[_], _, rfl, isByteBlank_ofNat (by omega) (by omega) (by omega)⟩
    · split
      · exact ⟨[_, _], _, rfl, isByteBlank_ofNat (by omega) (by omega) (by omega)⟩
      · exact ⟨[_, _, _], _, rfl, isByteBlank_ofNat (by omega) (by omega) (by omega)⟩

theorem Syntax.IsMark.exists_first_byte {piece : List Char} (h : IsMark piece) :
    ∃ rest, Utf8.encode piece = 64 :: rest := by
  obtain ⟨tail, rfl⟩ := List.head?_eq_some_iff.mp h.first
  exact ⟨Utf8.encode tail, rfl⟩

theorem Syntax.IsMark.exists_last_byte {piece : List Char} (h : IsMark piece) :
    ∃ front last, Utf8.encode piece = front ++ [last] ∧ isByteBlank last = false := by
  obtain ⟨c, hc, hfirm⟩ := h.last
  obtain ⟨init, rfl⟩ := List.getLast?_eq_some_iff.mp hc
  obtain ⟨bytes, last, hbytes, hlast⟩ := hfirm.exists_last_byte
  refine ⟨Utf8.encode init ++ bytes, last, ?_, hlast⟩
  rw [Utf8.encode_append, List.append_assoc, ← hbytes]
  simp [Utf8.encode]

namespace SourceText

variable {source : SourceText} {node : Node} {text : List Char}

theorem getElem?_of_slice {start stop : Nat} {before after : List UInt8} {byte : UInt8}
    (h : source.slice start stop = before ++ byte :: after) :
    source.bytes[start + before.length]? = some byte := by
  have hat : (source.slice start stop)[before.length]? = some byte := by
    rw [h, List.getElem?_append_right le_rfl, Nat.sub_self, List.getElem?_cons_zero]
  rw [slice, List.getElem?_drop, List.getElem?_take] at hat
  split at hat
  · exact hat
  · cases hat

theorem slice_of_textOf (h : source.textOf node = .ok text) :
    source.slice node.start node.stop = Utf8.encode text := by
  exact (Utf8.encode_of_decode (mapError_eq_ok.mp h)).symm

theorem slice_length (source : SourceText) (start stop : Nat) :
    (source.slice start stop).length = min stop source.size - start := by
  simp [slice, size]

def rangeIn (node : Node) (text : List Char) (mark : Attribute) : Span :=
  ⟨node.start + byteCount (text.take mark.start), node.start + byteCount (text.take mark.stop)⟩

/-- A piece of the bytes of a text that neither starts nor ends with a blank is the range of a
mark. -/
theorem solid_of_slice {start stop : Nat} {before piece after front rest : List UInt8}
    {first last : UInt8} (h : source.slice start stop = before ++ piece ++ after)
    (hfirst : piece = first :: rest) (hfirm : isByteBlank first = false)
    (hlast : piece = front ++ [last]) (hfirm' : isByteBlank last = false) :
    source.Solid ⟨start + before.length, start + (before.length + piece.length)⟩ ∧
      start + (before.length + piece.length) ≤ stop := by
  have hlength := slice_length source start stop
  rw [h] at hlength
  simp only [List.length_append] at hlength
  have hpositive : 0 < piece.length := by
    rw [hfirst]
    exact Nat.succ_pos _
  have hstarts : source.slice start stop = before ++ first :: (rest ++ after) := by
    rw [h, hfirst]
    simp
  have hends : source.slice start stop = (before ++ front) ++ last :: after := by
    rw [h, hlast]
    simp
  have hcount : start + (before.length + piece.length) - 1 = start + (before ++ front).length := by
    rw [hlast]
    simp only [List.length_append, List.length_singleton]
    omega
  refine ⟨⟨by dsimp only; omega, by dsimp only; omega, ?_, ?_⟩, by omega⟩
  · exact ⟨first, getElem?_of_slice hstarts, hfirm⟩
  · refine ⟨last, ?_, hfirm'⟩
    rw [hcount]
    exact getElem?_of_slice hends

/-- The range of an attribute lies in the node, and neither its first nor its last byte is a
blank. -/
theorem solid_rangeIn {mark : Attribute} (htext : source.textOf node = .ok text)
    (h : mark.StandsIn text) : source.Solid (rangeIn node text mark) ∧
      node.start ≤ (rangeIn node text mark).start ∧ (rangeIn node text mark).stop ≤ node.stop := by
  obtain ⟨before, piece, after, rfl, hstart, hstop, hmark⟩ := h
  have hslice := slice_of_textOf htext
  rw [Utf8.encode_append, Utf8.encode_append] at hslice
  have hrange : rangeIn node (before ++ piece ++ after) mark =
      ⟨node.start + (Utf8.encode before).length,
        node.start + ((Utf8.encode before).length + (Utf8.encode piece).length)⟩ := by
    have htake : (before ++ piece ++ after).take mark.start = before := by simp [hstart]
    have htake' : (before ++ piece ++ after).take mark.stop = before ++ piece := by
      rw [hstop, ← List.length_append, List.take_left]
    rw [rangeIn, htake, htake', byteCount, byteCount, Utf8.encode_append, List.length_append]
  obtain ⟨rest, hfirst⟩ := hmark.exists_first_byte
  obtain ⟨front, last, hlast, hfirm⟩ := hmark.exists_last_byte
  obtain ⟨hsolid, hle⟩ := solid_of_slice hslice hfirst (by decide) hlast hfirm
  rw [hrange]
  exact ⟨hsolid, Nat.le_add_right _ _, hle⟩

theorem byteCount_take_mono (text : List Char) {i j : Nat} (h : i ≤ j) :
    byteCount (text.take i) ≤ byteCount (text.take j) := by
  obtain ⟨more, hmore⟩ := List.take_prefix_take_left h (l := text)
  rw [byteCount, byteCount, ← hmore, Utf8.encode_append, List.length_append]
  omega

end SourceText

/-! ### Marks of a node -/

section Marks

variable {settings : Settings} {source : SourceText} {path : Path} {node : Node}

/-- The byte ranges of the attributes of a property that give its default. -/
def defaultMarksOf (settings : Settings) (source : SourceText) (node : Node) : List Span :=
  match source.textOf node with
  | .error _ => []
  | .ok text =>
    match head bindingKeywords text with
    | .error _ => []
    | .ok head =>
      (givenDefaults settings head).map fun (mark, _) => SourceText.rangeIn node text mark

/-- The byte ranges of the attributes of a node that go with it: those that ask for a builder, or
those that give a default. -/
def marksAt (settings : Settings) (source : SourceText) (node : Node) : List Span :=
  if typeNodes.contains node.kind then marksOf settings source node
  else if propertyNodes.contains node.kind then defaultMarksOf settings source node
  else []

theorem map_fst_givenDefaults_sublist (settings : Settings) (found : Head) :
    ((givenDefaults settings found).map (·.1)).Sublist found.attributes := by
  unfold givenDefaults
  induction found.attributes with
  | nil => exact .slnil
  | cons mark rest ih =>
    rw [List.filterMap_cons]
    split
    · exact ih.cons mark
    · next given hgiven =>
      split at hgiven
      · obtain ⟨expression, -, rfl⟩ := Option.map_eq_some_iff.mp hgiven
        exact ih.cons_cons mark
      · cases hgiven

/-- The marks of a node are some of the attributes that its head is read with. -/
theorem exists_attributes_of_marksAt (settings : Settings) (source : SourceText) (node : Node) :
    marksAt settings source node = [] ∨
      ∃ (text : List Char) (keywords : List String) (found : Head) (marks : List Attribute),
      source.textOf node = .ok text ∧ head keywords text = .ok found ∧
        marks.Sublist found.attributes ∧
          marksAt settings source node = marks.map (SourceText.rangeIn node text) := by
  unfold marksAt marksOf defaultMarksOf
  cases htext : source.textOf node with
  | error reason => simp
  | ok text =>
    split
    · dsimp only
      split
      · exact .inl rfl
      · next found hfound =>
        exact .inr ⟨text, _, found, marksIn settings found, rfl, hfound, List.filter_sublist, rfl⟩
    · split
      · dsimp only
        split
        · exact .inl rfl
        · next found hfound =>
          refine .inr ⟨text, _, found, (givenDefaults settings found).map (·.1), rfl, hfound, ?_,
            ?_⟩
          · exact map_fst_givenDefaults_sublist settings found
          · rw [List.map_map]
            rfl
      · exact .inl rfl

theorem solid_of_mem_marksAt {mark : Span} (h : mark ∈ marksAt settings source node) :
    source.Solid mark ∧ node.start ≤ mark.start ∧ mark.stop ≤ node.stop := by
  rcases exists_attributes_of_marksAt settings source node with
    hnone | ⟨text, keywords, found, marks, htext, hfound, hsome, heq⟩
  · rw [hnone] at h
    cases h
  · rw [heq] at h
    obtain ⟨mark, hmark, rfl⟩ := List.mem_map.mp h
    exact SourceText.solid_rangeIn htext
      ((head_attributes hfound).1 mark (hsome.subset hmark))

theorem marksAt_pairwise (settings : Settings) (source : SourceText) (node : Node) :
    (marksAt settings source node).Pairwise fun a b => a.stop ≤ b.start := by
  rcases exists_attributes_of_marksAt settings source node with
    hnone | ⟨text, keywords, found, marks, htext, hfound, hsome, heq⟩
  · rw [hnone]
    exact .nil
  · rw [heq, List.pairwise_map]
    refine ((head_attributes hfound).2.sublist hsome).imp fun {a b} hle => ?_
    exact Nat.add_le_add_left (SourceText.byteCount_take_mono text hle) _

/-! ### What goes for the marks -/

def propertiesOf (node : Node) : List Node :=
  match node.body? with
  | none => []
  | some body => body.namedChildren.filter fun child => propertyNodes.contains child.kind

variable {place : Node.InTree} {site head : RecordSite}

theorem recordHead_strips (h : recordHead settings source path place = .ok (some site)) :
    site.strips = (marksOf settings source place.node).map source.widen := by
  obtain ⟨text, found, _, htext, hfound, rfl, -, -, -, -, hstrips⟩ := recordHead_cases h
  simp only [hstrips, marksOf, htext, hfound, List.map_map]
  exact List.map_congr_left fun _ _ => SourceText.spanIn_eq_widen ..

theorem memberSite_strips {member : MemberSite} {warning : Option Warning}
    (h : memberSite settings source path node = .ok (member, warning)) :
    member.strips = (defaultMarksOf settings source node).map source.widen := by
  simp only [memberSite, bind, Except.bind, pure, Except.pure] at h
  split at h
  · cases h
  rename_i text htext
  split at h
  · next error herror =>
    obtain ⟨rfl, -⟩ := Prod.mk.inj (Except.ok.inj h)
    simp [defaultMarksOf, htext, herror]
  · next found hfound =>
    obtain ⟨rfl, -⟩ := Prod.mk.inj (Except.ok.inj h)
    simp only [defaultMarksOf, htext, hfound, List.map_map]
    exact List.map_congr_left fun _ _ => SourceText.spanIn_eq_widen ..

theorem memberSites_strips {nodes : List Node} {members : List MemberSite}
    {warnings : List Warning}
    (h : memberSites settings source path nodes = (.ok members, warnings)) :
    members.flatMap (·.strips) =
      nodes.flatMap fun node => (defaultMarksOf settings source node).map source.widen := by
  have hall := forall₂_memberSites h
  clear h
  induction hall with
  | nil => rfl
  | cons hsite _ ih =>
    obtain ⟨warning, hsite⟩ := hsite
    rw [List.flatMap_cons, List.flatMap_cons, memberSite_strips hsite, ih]

theorem withMembers_strips {warnings : List Warning}
    (h : withMembers settings source path node head = (.ok site, warnings)) :
    site.strips = head.strips ++ (propertiesOf node).flatMap fun node =>
      (defaultMarksOf settings source node).map source.widen := by
  obtain ⟨hbody, rfl⟩ | ⟨body, members, hbody, hmembers, rfl⟩ := withMembers_cases h
  · simp [propertiesOf, hbody]
  · rw [propertiesOf, hbody]
    dsimp only
    rw [← memberSites_strips hmembers]

/-- What goes with a record are the marks of its node and those of the properties in its body, grown
over blanks. -/
theorem recordSite_strips (h : (recordSite settings source path place).1 = .ok (some site)) :
    site.strips = (marksOf settings source place.node).map source.widen ++
      (propertiesOf place.node).flatMap fun node =>
        (defaultMarksOf settings source node).map source.widen := by
  obtain ⟨head, warnings, hhead, hfull⟩ := exists_head_of_recordSite h
  rw [← recordHead_strips hhead]
  exact withMembers_strips hfull

end Marks

end FluentBuilder
