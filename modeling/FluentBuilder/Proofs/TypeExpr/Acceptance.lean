import FluentBuilder.Proofs.TypeExpr.Derivation
import FluentBuilder.Proofs.TypeExpr.Recovery

/-!
# The type reader accepts its grammar

`ofString_exact`: a text without reserved words is read as a type iff it splits into tokens that
are derived as a type, and if not, what comes back is an error about this text.

That every type is accepted has to be shown against the reader, which takes the longest way at
every step and looks ahead at most two tokens. Only the result of a function is at stake: what is
derived as a function with suffixes and with types joined to it is read as a function whose result
takes all of these. The grammar allows this reading too (`Derives.type_append`), so the proof goes
by the number of tokens instead of by the derivation: behind the arrow, a shorter type is read
(`accepted_of_derives`). For the other parts a phrase is read up to every rest that ends it
(`Accepted` for types), and what stands behind a phrase in the grammar does so.
-/

namespace FluentBuilder.TypeExpr

open Text Lexeme

/-! ### Types go on -/

theorem Derives.suffixes_append {u v : List Token} (hu : Derives .suffixes u)
    (hv : Derives .suffixes v) : Derives .suffixes (u ++ v) := by
  generalize hc : Nonterminal.suffixes = c at hu
  induction hu with
  | suffixesNone => exact hv
  | question _ ih => exact .question (ih hc)
  | exclamation _ ih => exact .exclamation (ih hc)
  | metatype hw _ ih => exact .metatype hw (ih hc)
  | _ => cases hc

theorem Derives.joined_of_type {u : List Token} (h : Derives .type u) :
    Derives .joined (.mark .ampersand :: u) := by
  cases h with
  | type hu hv => exact .joined hu hv

/-- Suffixes behind a suffixed type and the types joined to it go to the last of these. -/
theorem Derives.type_append_of_joined {u j b v : List Token} (hu : Derives .suffixed u)
    (hj : Derives .joined j) (hb : Derives .suffixes b) (hv : Derives .joined v) :
    Derives .type (u ++ (j ++ (b ++ v))) := by
  generalize hc : Nonterminal.joined = c at hj
  induction hj generalizing u with
  | joinedNone =>
    cases hu with
    | suffixed hp hs =>
      rw [List.nil_append, ← List.append_assoc, List.append_assoc _ _ b]
      exact .type (.suffixed hp (hs.suffixes_append hb)) hv
  | joined hu' _ _ ih =>
    have hmore := (ih hu' hc).joined_of_type
    have htype := Derives.type hu hmore
    simpa using htype
  | _ => cases hc

theorem Derives.type_append {u b v : List Token} (hu : Derives .type u) (hb : Derives .suffixes b)
    (hv : Derives .joined v) : Derives .type (u ++ (b ++ v)) := by
  cases hu with
  | type hu hj =>
    rw [List.append_assoc]
    exact hu.type_append_of_joined hj hb hv

/-! ### Lexemes of tokens -/

theorem exists_cons_of_map_eq {l : List Lexeme} {token : Token} {w : List Token}
    (h : l.map (·.token) = token :: w) :
    ∃ g l', l = ⟨g, token⟩ :: l' ∧ l'.map (·.token) = w := by
  obtain ⟨⟨g, token⟩, l', rfl, rfl, hw⟩ := List.map_eq_cons_iff.1 h
  exact ⟨g, l', rfl, hw⟩

theorem exists_append_of_map_eq {l : List Lexeme} {u v : List Token}
    (h : l.map (·.token) = u ++ v) :
    ∃ a b, l = a ++ b ∧ a.map (·.token) = u ∧ b.map (·.token) = v :=
  List.map_eq_append_iff.1 h

theorem exists_append_cons_of_map_eq {l : List Lexeme} {token : Token} {u v : List Token}
    (h : l.map (·.token) = u ++ token :: v) :
    ∃ a g b, l = a ++ ⟨g, token⟩ :: b ∧ a.map (·.token) = u ∧ b.map (·.token) = v := by
  obtain ⟨a, b, rfl, ha, hb⟩ := exists_append_of_map_eq h
  obtain ⟨g, b, rfl, hv⟩ := exists_cons_of_map_eq hb
  exact ⟨a, g, b, rfl, ha, hv⟩

theorem exists_append_last_of_map_eq {l : List Lexeme} {token : Token} {u : List Token}
    (h : l.map (·.token) = u ++ [token]) :
    ∃ a g, l = a ++ [⟨g, token⟩] ∧ a.map (·.token) = u := by
  obtain ⟨a, g, b, rfl, ha, hb⟩ := exists_append_cons_of_map_eq h
  obtain rfl := List.map_eq_nil_iff.1 hb
  exact ⟨a, g, rfl, ha⟩

/-! ### What ends a type -/

/-- Whether a type ends in front of the next tokens: in front of what closes it, or of the dots of
an element. -/
def endsType (tokens : List Token) : Bool := isClosing tokens || tokens == [.ellipsis]

theorem endsType_iff {tokens : List Token} :
    endsType tokens = true ↔ isClosing tokens = true ∨ tokens = [.ellipsis] := by
  simp [endsType]

theorem endsPrimary_of_endsType {tokens : List Token} (h : endsType tokens = true) :
    endsPrimary tokens = true := by
  rcases endsType_iff.1 h with h | rfl
  · exact endsPrimary_of_isClosing h
  · rfl

theorem isSuffix_of_endsType {tokens : List Token} (h : endsType tokens = true) :
    isSuffix tokens = false := by
  rcases endsType_iff.1 h with h | rfl
  · exact isSuffix_of_isClosing h
  · rfl

theorem ne_ampersand_of_endsType {tokens : List Token} (h : endsType tokens = true) :
    tokens ≠ [.mark .ampersand] := by
  rcases endsType_iff.1 h with h | rfl
  · exact ne_of_isClosing h rfl
  · simp

theorem endsType_mark {m : Mark} {gap : List Char} {rest : List Lexeme}
    (h : isClosing [.mark m] = true) : endsType (lookahead (⟨gap, .mark m⟩ :: rest)) = true :=
  endsType_iff.2 (.inl (isClosing_mark h))

/-! ### Suffixes -/

theorem reads_suffixes {b : List Token} (h : Derives .suffixes b) {l : List Lexeme}
    (hl : l.map (·.token) = b) (text : List Char) (bare : TypeExpr) {mid : List Lexeme}
    (hmid : isSuffix (lookahead mid) = false) : ∃ t, Suffixes text bare t (l ++ mid) mid := by
  generalize hc : Nonterminal.suffixes = c at h
  induction h generalizing l text bare with
  | suffixesNone =>
    obtain rfl := List.map_eq_nil_iff.1 hl
    exact ⟨bare, .done hmid⟩
  | question _ ih =>
    obtain ⟨g, l, rfl, htail⟩ := exists_cons_of_map_eq hl
    obtain ⟨t, ht⟩ := ih htail _ _ hc
    exact ⟨t, .question ht⟩
  | exclamation _ ih =>
    obtain ⟨g, l, rfl, htail⟩ := exists_cons_of_map_eq hl
    obtain ⟨t, ht⟩ := ih htail _ _ hc
    exact ⟨t, .exclamation ht⟩
  | metatype hw _ ih =>
    obtain ⟨g, l, rfl, hword⟩ := exists_cons_of_map_eq hl
    obtain ⟨g', l, rfl, htail⟩ := exists_cons_of_map_eq hword
    obtain ⟨t, ht⟩ := ih htail _ _ hc
    exact ⟨t, .metatype hw rfl ht⟩
  | _ => cases hc

/-- A primary type ends in front of suffixes, if it ends in front of what stands behind them. -/
theorem endsPrimary_suffixes {b : List Token} (h : Derives .suffixes b) {l : List Lexeme}
    (hl : l.map (·.token) = b) {mid : List Lexeme} (hmid : endsPrimary (lookahead mid) = true) :
    endsPrimary (lookahead (l ++ mid)) = true := by
  cases h with
  | suffixesNone =>
    obtain rfl := List.map_eq_nil_iff.1 hl
    exact hmid
  | question =>
    obtain ⟨g, l, rfl, -⟩ := exists_cons_of_map_eq hl
    rw [List.cons_append, lookahead_cons (by simp)]
    rfl
  | exclamation =>
    obtain ⟨g, l, rfl, -⟩ := exists_cons_of_map_eq hl
    rw [List.cons_append, lookahead_cons (by simp)]
    rfl
  | metatype hw =>
    obtain ⟨g, l, rfl, hword⟩ := exists_cons_of_map_eq hl
    obtain ⟨g', l, rfl, -⟩ := exists_cons_of_map_eq hword
    rw [List.cons_append, List.cons_append, lookahead_dot]
    simp [endsPrimary, endsName, isMember, isEffect, hw]

/-- In front of joined types a suffixed type ends. -/
theorem ends_joined {v : List Token} (h : Derives .joined v) {l : List Lexeme}
    (hl : l.map (·.token) = v) {rest : List Lexeme} (hrest : endsType (lookahead rest) = true) :
    endsPrimary (lookahead (l ++ rest)) = true ∧ isSuffix (lookahead (l ++ rest)) = false := by
  cases h with
  | joinedNone =>
    obtain rfl := List.map_eq_nil_iff.1 hl
    exact ⟨endsPrimary_of_endsType hrest, isSuffix_of_endsType hrest⟩
  | joined =>
    obtain ⟨g, l, rfl, -⟩ := exists_cons_of_map_eq hl
    rw [List.cons_append, lookahead_cons (by simp)]
    exact ⟨rfl, rfl⟩

/-! ### Types that are accepted -/

/-- Lexemes with these tokens are read as a suffixed type with others joined to it, up to every rest
that ends a type. The suffixed type may take them all: a function takes what its result does. -/
def Accepted (w : List Token) : Prop :=
  ∀ l : List Lexeme, l.map (·.token) = w → Unreserved l →
    ∀ rest, endsType (lookahead rest) = true →
      ∃ t mid, Reads (.suffixed t) (l ++ rest) mid ∧ Reads .joined mid rest

theorem Accepted.reads {w : List Token} (h : Accepted w) {l : List Lexeme}
    (hl : l.map (·.token) = w) (hplain : Unreserved l) {rest : List Lexeme}
    (hrest : endsType (lookahead rest) = true) : ∃ t, Reads (.type t) (l ++ rest) rest := by
  obtain ⟨t, mid, hs, hj⟩ := h l hl hplain rest hrest
  have hstart : startsConstraint (l ++ rest) = false := by
    rcases l with _ | ⟨x, l⟩
    · -- a suffixed type takes a token
      have hle := hs.length_le
      have hle' := hj.suffix.length_le
      simp only [Phrase.least, List.nil_append] at hle
      omega
    · exact startsConstraint_of_unreserved (unreserved_cons.1 hplain).1
  cases hj with
  | joinedMore ht hj => exact ⟨_, .join hstart hs (.joinedMore ht hj) rfl⟩
  | joinedDone hne => exact ⟨t, .single hstart hs hne⟩

section Parts

variable {n : Nat}

/-- Every type with fewer than `n` tokens is accepted. -/
def AcceptedBelow (n : Nat) : Prop := ∀ w, w.length < n → Derives .type w → Accepted w

theorem AcceptedBelow.reads (hbelow : AcceptedBelow n) {w : List Token} (h : Derives .type w)
    (hn : w.length < n) {l : List Lexeme} (hl : l.map (·.token) = w) (hplain : Unreserved l)
    {rest : List Lexeme} (hrest : endsType (lookahead rest) = true) :
    ∃ t, Reads (.type t) (l ++ rest) rest :=
  (hbelow w hn h).reads hl hplain hrest

/-! ### Arguments and names -/

theorem AcceptedBelow.reads_types (hbelow : AcceptedBelow n) {w : List Token}
    (h : Derives .types w) (hn : w.length < n) {l : List Lexeme} (hl : l.map (·.token) = w)
    (hplain : Unreserved l) (g : List Char) (rest : List Lexeme) :
    ∃ ts, Reads (.types ts) (l ++ ⟨g, .mark .greater⟩ :: rest) rest := by
  generalize hc : Nonterminal.types = c at h
  induction h generalizing l with
  | typesLast hu =>
    have hends : endsType (lookahead (⟨g, .mark .greater⟩ :: rest)) = true := endsType_mark rfl
    obtain ⟨t, ht⟩ := hbelow.reads hu hn hl hplain hends
    exact ⟨[t], .typesLast ht⟩
  | @typesMore u v hu _ _ ih =>
    obtain ⟨a, g', b, rfl, ha, hmore⟩ := exists_append_cons_of_map_eq hl
    rw [List.length_append, List.length_cons] at hn
    obtain ⟨hpa, hpb⟩ := unreserved_append.1 hplain
    have hends : endsType (lookahead (⟨g', .mark .comma⟩ :: (b ++ ⟨g, .mark .greater⟩ :: rest))) =
        true := endsType_mark rfl
    obtain ⟨t, ht⟩ := hbelow.reads hu (by omega) ha hpa hends
    obtain ⟨ts, hts⟩ := ih (by omega) hmore (unreserved_cons.1 hpb).2 hc
    refine ⟨t :: ts, ?_⟩
    rw [List.append_assoc, List.cons_append]
    exact .typesMore ht hts
  | _ => cases hc

theorem AcceptedBelow.reads_arguments (hbelow : AcceptedBelow n) {w : List Token}
    (h : Derives .arguments w) (hn : w.length < n) {l : List Lexeme} (hl : l.map (·.token) = w)
    (hplain : Unreserved l) {mid : List Lexeme} (hmid : lookahead mid ≠ [.mark .less]) :
    ∃ ts, Reads (.arguments ts) (l ++ mid) mid := by
  cases h with
  | argumentsNone =>
    obtain rfl := List.map_eq_nil_iff.1 hl
    exact ⟨[], .argumentsNone hmid⟩
  | arguments hu =>
    obtain ⟨g, l, rfl, htail⟩ := exists_cons_of_map_eq hl
    obtain ⟨a, g', rfl, ha⟩ := exists_append_last_of_map_eq htail
    simp only [List.length_cons, List.length_append] at hn
    obtain ⟨ts, hts⟩ := hbelow.reads_types hu (by omega) ha
      (unreserved_append.1 (unreserved_cons.1 hplain).2).1 g' mid
    refine ⟨ts, ?_⟩
    simpa using Reads.arguments hts

/-- Arguments and further words of a name are read as far as they go. -/
theorem AcceptedBelow.reads_nominal (hbelow : AcceptedBelow n) {u v : List Token}
    (hu : Derives .arguments u) (hv : Derives .members v) (hn : (u ++ v).length < n)
    {l : List Lexeme} (hl : l.map (·.token) = u ++ v) (hplain : Unreserved l) (name : String)
    {mid : List Lexeme} (hmid : endsName (lookahead mid) = true) :
    ∃ t, Reads (.nominal name t) (l ++ mid) mid := by
  simp only [endsName, bne_iff_ne, ne_eq, Bool.and_eq_true, Bool.not_eq_true'] at hmid
  generalize hc : Nonterminal.members = c at hv
  induction hv generalizing u l name with
  | membersNone =>
    rw [List.append_nil] at hl hn
    obtain ⟨ts, hts⟩ := hbelow.reads_arguments hu hn hl hplain hmid.1
    exact ⟨.nominal name ts, .nominalDone hts hmid.2⟩
  | @member w u' v' hw hu' _ _ ih =>
    obtain ⟨a, g, b, rfl, ha, hword⟩ := exists_append_cons_of_map_eq hl
    obtain ⟨g', b, rfl, hmore⟩ := exists_cons_of_map_eq hword
    obtain ⟨hpa, hpb⟩ := unreserved_append.1 hplain
    rw [List.length_append, List.length_cons, List.length_cons] at hn
    have hdot : lookahead (⟨g, .mark .dot⟩ :: ⟨g', .word w⟩ :: (b ++ mid)) ≠ [.mark .less] := by
      simp [lookahead_dot]
    obtain ⟨ts, hts⟩ := hbelow.reads_arguments hu (by omega) ha hpa hdot
    obtain ⟨t, ht⟩ := ih hu' (by omega) hmore (unreserved_cons.1 (unreserved_cons.1 hpb).2).2 _ hc
    refine ⟨t, ?_⟩
    rw [List.append_assoc, List.cons_append, List.cons_append]
    exact .member hts hw ht
  | _ => cases hc

/-! ### Elements -/

/-- A label of the grammar is read as a label, or as none if there is none, in front of a type that
is not taken for one. -/
theorem exists_readLabel_eq {u : List Token} (h : Derives .label u) {l : List Lexeme}
    (hl : l.map (·.token) = u) (hplain : Unreserved l) {x : Lexeme} {input : List Lexeme}
    (hx : x.token.isUnreserved = true) (hnone : readLabel (x :: input) = (none, x :: input)) :
    ∃ label a, skipAttributes 0 (l ++ x :: input) = .ok a ∧
      readLabel a = (label, x :: input) ∧ skipAttributes 0 (x :: input) = .ok (x :: input) := by
  cases h with
  | labelNone =>
    obtain rfl := List.map_eq_nil_iff.1 hl
    exact ⟨none, _, skipAttributes_of_unreserved hx, hnone, skipAttributes_of_unreserved hx⟩
  | labelOne =>
    obtain ⟨g, l, rfl, hcolon⟩ := exists_cons_of_map_eq hl
    obtain ⟨g', l, rfl, hnil⟩ := exists_cons_of_map_eq hcolon
    obtain rfl := List.map_eq_nil_iff.1 hnil
    exact ⟨_, _, skipAttributes_of_unreserved (unreserved_cons.1 hplain).1, rfl,
      skipAttributes_of_unreserved hx⟩
  | labelTwo =>
    obtain ⟨g, l, rfl, hword⟩ := exists_cons_of_map_eq hl
    obtain ⟨g', l, rfl, hcolon⟩ := exists_cons_of_map_eq hword
    obtain ⟨g'', l, rfl, hnil⟩ := exists_cons_of_map_eq hcolon
    obtain rfl := List.map_eq_nil_iff.1 hnil
    exact ⟨_, _, skipAttributes_of_unreserved (unreserved_cons.1 hplain).1, rfl,
      skipAttributes_of_unreserved hx⟩

/-- A label and a type are read as they are in front of what is neither a word nor a colon. -/
theorem AcceptedBelow.reads_labelled (hbelow : AcceptedBelow n) {u v : List Token}
    (hu : Derives .label u) (hv : Derives .type v) (hn : (u ++ v).length < n) {l : List Lexeme}
    (hl : l.map (·.token) = u ++ v) (hplain : Unreserved l) {z : Lexeme} {tail : List Lexeme}
    (hends : endsType (lookahead (z :: tail)) = true) (hcolon : z.token ≠ .mark .colon) :
    ∃ label t a b, skipAttributes 0 (l ++ z :: tail) = .ok a ∧ readLabel a = (label, b) ∧
      skipAttributes 0 b = .ok b ∧ Reads (.type t) b (z :: tail) := by
  obtain ⟨front, back, rfl, hfront, hback⟩ := exists_append_of_map_eq hl
  obtain ⟨hpf, hpb⟩ := unreserved_append.1 hplain
  rw [List.length_append] at hn
  obtain ⟨t, ht⟩ := hbelow.reads hv (by omega) hback hpb hends
  have hword : ∀ w, z.token ≠ .word w := by
    rintro w hz
    obtain ⟨g, token⟩ := z
    obtain rfl : token = .word w := hz
    rw [lookahead_cons (by simp)] at hends
    simp [endsType, isClosing] at hends
  have hnone := ht.readLabel_eq hword hcolon
  rcases back with _ | ⟨x, back⟩
  · have hle := ht.length_le
    simp [Phrase.least] at hle
  · obtain ⟨label, a, ha, hlabel, hskip⟩ :=
      exists_readLabel_eq hu hfront hpf (unreserved_cons.1 hpb).1 hnone
    exact ⟨label, t, a, _, by rw [List.append_assoc]; exact ha, hlabel, hskip, ht⟩

theorem AcceptedBelow.reads_element (hbelow : AcceptedBelow n) {w : List Token}
    (h : Derives .element w) (hn : w.length < n) {l : List Lexeme} (hl : l.map (·.token) = w)
    (hplain : Unreserved l) {m : Mark} (hm : m = .comma ∨ m = .closeParen) (g : List Char)
    (tail : List Lexeme) :
    ∃ e, Reads (.element e) (l ++ ⟨g, .mark m⟩ :: tail) (⟨g, .mark m⟩ :: tail) := by
  have hnext : lookahead (⟨g, .mark m⟩ :: tail) = [.mark m] := by
    rcases hm with rfl | rfl <;> exact lookahead_cons (by simp)
  cases h with
  | element hu hv =>
    have hends : endsType (lookahead (⟨g, .mark m⟩ :: tail)) = true := by
      rcases hm with rfl | rfl <;> exact endsType_mark rfl
    have hcolon : Token.mark m ≠ .mark .colon := by rcases hm with rfl | rfl <;> simp
    obtain ⟨label, t, a, b, ha, hlabel, hskip, ht⟩ :=
      hbelow.reads_labelled hu hv hn hl hplain hends hcolon
    exact ⟨(label, t), .element ha hlabel hskip ht (by simp [hnext])⟩
  | @variadic u v hu hv =>
    rw [← List.append_assoc] at hl
    obtain ⟨a, g', rfl, ha⟩ := exists_append_last_of_map_eq hl
    have hends : endsType (lookahead (⟨g', .ellipsis⟩ :: ⟨g, .mark m⟩ :: tail)) = true := by
      rw [lookahead_cons (by simp)]
      rfl
    have hlength : (u ++ v).length < n := by
      simp only [List.length_append, List.length_cons, List.length_nil] at hn ⊢
      omega
    obtain ⟨label, t, c, d, hc, hlabel, hskip, ht⟩ := hbelow.reads_labelled hu hv hlength ha
      (unreserved_append.1 hplain).1 hends (by simp)
    refine ⟨(label, .array t), ?_⟩
    rw [List.append_assoc]
    exact .variadic hc hlabel hskip ht

theorem AcceptedBelow.reads_elements (hbelow : AcceptedBelow n) {w : List Token}
    (h : Derives .elements w) (hn : w.length < n) {l : List Lexeme} (hl : l.map (·.token) = w)
    (hplain : Unreserved l) (g : List Char) (rest : List Lexeme) :
    ∃ es, Reads (.elements es) (l ++ ⟨g, .mark .closeParen⟩ :: rest) rest := by
  generalize hc : Nonterminal.elements = c at h
  induction h generalizing l with
  | elementsLast hu =>
    obtain ⟨e, he⟩ := hbelow.reads_element hu hn hl hplain (.inr rfl) g rest
    exact ⟨[e], .elementsLast he⟩
  | @elementsMore u v hu _ _ ih =>
    obtain ⟨a, g', b, rfl, ha, hmore⟩ := exists_append_cons_of_map_eq hl
    rw [List.length_append, List.length_cons] at hn
    obtain ⟨hpa, hpb⟩ := unreserved_append.1 hplain
    obtain ⟨e, he⟩ := hbelow.reads_element hu (by omega) ha hpa (.inl rfl) g'
      (b ++ ⟨g, .mark .closeParen⟩ :: rest)
    obtain ⟨es, hes⟩ := ih (by omega) hmore (unreserved_cons.1 hpb).2 hc
    refine ⟨e :: es, ?_⟩
    rw [List.append_assoc, List.cons_append]
    exact .elementsMore he hes
  | _ => cases hc

theorem AcceptedBelow.reads_list (hbelow : AcceptedBelow n) {w : List Token}
    (h : Derives .list w) (hn : w.length < n) {l : List Lexeme} (hl : l.map (·.token) = w)
    (hplain : Unreserved l) (g : List Char) (rest : List Lexeme) :
    ∃ es, Reads (.list es) (l ++ ⟨g, .mark .closeParen⟩ :: rest) rest := by
  cases h with
  | listNone =>
    obtain rfl := List.map_eq_nil_iff.1 hl
    exact ⟨[], .listNil⟩
  | list hu =>
    obtain ⟨es, hes⟩ := hbelow.reads_elements hu hn hl hplain g rest
    exact ⟨es, .list hes.elements_first hes⟩

/-! ### Effects -/

/-- Effects are read as far as the arrow: in front of it and of an effect there is no opening
parenthesis that could belong to `throws`. -/
theorem AcceptedBelow.reads_effects (hbelow : AcceptedBelow n) {w : List Token}
    (h : Derives .effects w) (hn : w.length < n) {l : List Lexeme} (hl : l.map (·.token) = w)
    (hplain : Unreserved l) (before : Effects) (g : List Char) (rest : List Lexeme) :
    ∃ after, Reads (.effects before after) (l ++ ⟨g, .arrow⟩ :: rest) (⟨g, .arrow⟩ :: rest) := by
  have hfirst {v : List Token} {l : List Lexeme} (h : Derives .effects v)
      (hl : l.map (·.token) = v) :
      lookahead (l ++ ⟨g, .arrow⟩ :: rest) ≠ [.mark .openParen] := by
    cases h with
    | effectsNone =>
      obtain rfl := List.map_eq_nil_iff.1 hl
      simp [lookahead_cons]
    | _ =>
      obtain ⟨g', l, rfl, -⟩ := exists_cons_of_map_eq hl
      simp [lookahead_cons]
  generalize hc : Nonterminal.effects = c at h
  induction h generalizing l before with
  | effectsNone =>
    obtain rfl := List.map_eq_nil_iff.1 hl
    exact ⟨before, .effectsDone (by rw [List.nil_append, lookahead_cons (by simp)]; rfl)⟩
  | async _ ih =>
    obtain ⟨g', l, rfl, htail⟩ := exists_cons_of_map_eq hl
    rw [List.length_cons] at hn
    obtain ⟨after, hafter⟩ := ih (by omega) htail (unreserved_cons.1 hplain).2 _ hc
    exact ⟨after, .async hafter⟩
  | rethrows _ ih =>
    obtain ⟨g', l, rfl, htail⟩ := exists_cons_of_map_eq hl
    rw [List.length_cons] at hn
    obtain ⟨after, hafter⟩ := ih (by omega) htail (unreserved_cons.1 hplain).2 _ hc
    exact ⟨after, .rethrows hafter⟩
  | throws hv ih =>
    obtain ⟨g', l, rfl, htail⟩ := exists_cons_of_map_eq hl
    rw [List.length_cons] at hn
    obtain ⟨after, hafter⟩ := ih (by omega) htail (unreserved_cons.1 hplain).2 _ hc
    exact ⟨after, .throws (hfirst hv htail) hafter⟩
  | @throwsType u v hu _ _ ih =>
    obtain ⟨g', l, rfl, hopen⟩ := exists_cons_of_map_eq hl
    obtain ⟨g'', l, rfl, htail⟩ := exists_cons_of_map_eq hopen
    obtain ⟨a, g₃, b, rfl, ha, hmore⟩ := exists_append_cons_of_map_eq htail
    obtain ⟨hpa, hpb⟩ := unreserved_append.1 (unreserved_cons.1 (unreserved_cons.1 hplain).2).2
    simp only [List.length_cons, List.length_append] at hn
    have hends : endsType (lookahead (⟨g₃, .mark .closeParen⟩ :: (b ++ ⟨g, .arrow⟩ :: rest))) =
        true := endsType_mark rfl
    obtain ⟨t, ht⟩ := hbelow.reads hu (by omega) ha hpa hends
    obtain ⟨after, hafter⟩ := ih (by omega) hmore (unreserved_cons.1 hpb).2 _ hc
    refine ⟨after, ?_⟩
    rw [List.cons_append, List.cons_append, List.append_assoc, List.cons_append]
    exact .throwsType ht hafter
  | _ => cases hc

/-! ### Primary types -/

/-- A function is read with all that its result takes. -/
theorem AcceptedBelow.reads_function (hbelow : AcceptedBelow n) {u v x : List Token}
    (hu : Derives .list u) (hv : Derives .effects v) (hx : Derives .type x)
    (hn : u.length + v.length + x.length < n) {l : List Lexeme}
    (hl : l.map (·.token) = .mark .openParen :: (u ++ .mark .closeParen :: (v ++ .arrow :: x)))
    (hplain : Unreserved l) {rest : List Lexeme} (hrest : endsType (lookahead rest) = true) :
    ∃ t, Reads (.primary t) (l ++ rest) rest := by
  obtain ⟨g, l, rfl, htail⟩ := exists_cons_of_map_eq hl
  obtain ⟨a, g', b, rfl, ha, hafter⟩ := exists_append_cons_of_map_eq htail
  obtain ⟨c, g'', d, rfl, hc, hresult⟩ := exists_append_cons_of_map_eq hafter
  obtain ⟨hpa, hpb⟩ := unreserved_append.1 (unreserved_cons.1 hplain).2
  obtain ⟨hpc, hpd⟩ := unreserved_append.1 (unreserved_cons.1 hpb).2
  obtain ⟨t, ht⟩ := hbelow.reads hx (by omega) hresult (unreserved_cons.1 hpd).2 hrest
  obtain ⟨effects, heffects⟩ := hbelow.reads_effects hv (by omega) hc hpc {} g'' (d ++ rest)
  obtain ⟨es, hes⟩ := hbelow.reads_list hu (by omega) ha hpa g'
    (c ++ ⟨g'', .arrow⟩ :: (d ++ rest))
  have hfunction := Reads.parenthesized (g := g) (.function hes heffects ht)
  exact ⟨_, by simpa using hfunction⟩

/-- A primary type is a function, or it is read up to everything that ends it. -/
theorem AcceptedBelow.reads_primary (hbelow : AcceptedBelow n) {w : List Token}
    (h : Derives .primary w) (hn : w.length ≤ n) {l : List Lexeme} (hl : l.map (·.token) = w)
    (hplain : Unreserved l) :
    (∃ u v x, w = .mark .openParen :: (u ++ .mark .closeParen :: (v ++ .arrow :: x)) ∧
      Derives .list u ∧ Derives .effects v ∧ Derives .type x) ∨
    ∀ mid, endsPrimary (lookahead mid) = true → ∃ t, Reads (.primary t) (l ++ mid) mid := by
  cases h with
  | nominal hu hv =>
    right
    intro mid hmid
    obtain ⟨g, l, rfl, htail⟩ := exists_cons_of_map_eq hl
    simp only [endsPrimary, Bool.and_eq_true] at hmid
    rw [List.length_cons] at hn
    obtain ⟨t, ht⟩ := hbelow.reads_nominal hu hv (by omega) htail (unreserved_cons.1 hplain).2 _
      hmid.1.1
    exact ⟨t, .nominal ht⟩
  | array hu =>
    right
    intro mid _
    obtain ⟨g, l, rfl, htail⟩ := exists_cons_of_map_eq hl
    obtain ⟨a, g', rfl, ha⟩ := exists_append_last_of_map_eq htail
    simp only [List.length_cons, List.length_append] at hn
    have hends : endsType (lookahead (⟨g', .mark .closeBracket⟩ :: mid)) = true := endsType_mark rfl
    obtain ⟨t, ht⟩ := hbelow.reads hu (by omega) ha
      (unreserved_append.1 (unreserved_cons.1 hplain).2).1 hends
    refine ⟨.array t, ?_⟩
    simpa using Reads.bracketed (.array ht)
  | @dictionary u v hu hv =>
    right
    intro mid _
    obtain ⟨g, l, rfl, htail⟩ := exists_cons_of_map_eq hl
    obtain ⟨a, g', b, rfl, ha, hvalue⟩ := exists_append_cons_of_map_eq htail
    obtain ⟨c, g'', rfl, hc⟩ := exists_append_last_of_map_eq hvalue
    simp only [List.length_cons, List.length_append] at hn
    obtain ⟨hpa, hpb⟩ := unreserved_append.1 (unreserved_cons.1 hplain).2
    have hcolon : endsType (lookahead (⟨g', .mark .colon⟩ ::
        (c ++ ⟨g'', .mark .closeBracket⟩ :: mid))) = true := endsType_mark rfl
    have hclose : endsType (lookahead (⟨g'', .mark .closeBracket⟩ :: mid)) = true :=
      endsType_mark rfl
    obtain ⟨key, hkey⟩ := hbelow.reads hu (by omega) ha hpa hcolon
    obtain ⟨value, hvalue⟩ := hbelow.reads hv (by omega) hc
      (unreserved_append.1 (unreserved_cons.1 hpb).2).1 hclose
    refine ⟨.dictionary key value, ?_⟩
    simpa using Reads.bracketed (.dictionary hkey hvalue)
  | tuple hu =>
    right
    intro mid hmid
    obtain ⟨g, l, rfl, htail⟩ := exists_cons_of_map_eq hl
    obtain ⟨a, g', rfl, ha⟩ := exists_append_last_of_map_eq htail
    simp only [List.length_cons, List.length_append] at hn
    obtain ⟨es, hes⟩ := hbelow.reads_list hu (by omega) ha
      (unreserved_append.1 (unreserved_cons.1 hplain).2).1 g' mid
    simp only [endsPrimary, Bool.and_eq_true, Bool.not_eq_true', bne_iff_ne] at hmid
    refine ⟨ofElements es, ?_⟩
    simpa using Reads.parenthesized (.tuple hes hmid.1.2 hmid.2)
  | function hu hv hx => exact .inl ⟨_, _, _, rfl, hu, hv, hx⟩

end Parts

/-! ### Whole types -/

/-- **What is derived is accepted.** By the number of tokens: behind an arrow stands a shorter type,
with all the suffixes and joined types that stand behind the function. -/
theorem accepted_of_derives {w : List Token} (h : Derives .type w) : Accepted w := by
  induction hlength : w.length using Nat.strong_induction_on generalizing w with
  | _ n ih =>
    have hbelow : AcceptedBelow n := fun w' hlt h' => ih _ hlt h' rfl
    intro l hl hplain rest hrest
    cases h with
    | @type p v hp hv =>
      cases hp with
      | @suffixed a b ha hb =>
        simp only [List.length_append] at hlength
        obtain ⟨lp, lv, rfl, hlp, hlv⟩ := exists_append_of_map_eq hl
        obtain ⟨la, lb, rfl, hla, hlb⟩ := exists_append_of_map_eq hlp
        obtain ⟨hpp, hpv⟩ := unreserved_append.1 hplain
        obtain ⟨hpa, hpb⟩ := unreserved_append.1 hpp
        obtain ⟨hends, hsuffix⟩ := ends_joined hv hlv hrest
        rcases hbelow.reads_primary ha (by omega) hla hpa with
          ⟨u, effects, x, rfl, hu, heffects, hx⟩ | hreads
        · -- the result of the function takes all that follows
          have hresult := hx.type_append hb hv
          obtain ⟨t, ht⟩ := hbelow.reads_function hu heffects hresult
            (by simp only [List.length_append, List.length_cons] at hlength ⊢; omega)
            (by simpa using hl) hplain hrest
          exact ⟨t, rest, .suffixed ht rfl (.done (isSuffix_of_endsType hrest)),
            .joinedDone (ne_ampersand_of_endsType hrest)⟩
        · obtain ⟨bare, hbare⟩ := hreads (lb ++ (lv ++ rest)) (endsPrimary_suffixes hb hlb hends)
          obtain ⟨t, ht⟩ := reads_suffixes hb hlb (textOf la) bare hsuffix
          have hs : Reads (.suffixed t) (la ++ (lb ++ (lv ++ rest))) (lv ++ rest) :=
            .suffixed hbare rfl ht
          refine ⟨t, lv ++ rest, by simpa using hs, ?_⟩
          cases hv with
          | joinedNone =>
            obtain rfl := List.map_eq_nil_iff.1 hlv
            exact .joinedDone (ne_ampersand_of_endsType hrest)
          | joined hu hv =>
            obtain ⟨g, l, rfl, htail⟩ := exists_cons_of_map_eq hlv
            simp only [List.length_cons, List.length_append] at hlength
            have hshorter := hbelow _ (by rw [List.length_append]; omega) (.type hu hv)
            obtain ⟨t', mid, hs', hj⟩ := hshorter l htail (unreserved_cons.1 hpv).2 rest hrest
            exact .joinedMore hs' hj

/-! ### Whole texts -/

/-- The words with a meaning of their own in front of a type. -/
def reservedWords : List (List Char) :=
  [['a', 'n', 'y'], ['s', 'o', 'm', 'e'], ['i', 'n', 'o', 'u', 't']]

/-- No token of the text is one of the reserved words or starts with `@`. -/
def PlainText (text : String) : Prop :=
  ∀ input, Lexeme.ofChars text.toList = .ok input →
    ∀ x ∈ input, x.token.chars ∉ reservedWords ∧ x.token.chars.head? ≠ some '@'

theorem isUnreserved_of_valid {token : Token} (h : token.Valid)
    (hword : token.chars ∉ reservedWords) (hat : token.chars.head? ≠ some '@') :
    token.isUnreserved = true := by
  rcases token with _ | _ | w | w | m
  · rfl
  · rfl
  · obtain ⟨plain, rfl, -⟩ := h
    simp [Token.chars] at hat
  · simpa [Token.chars, reservedWords, Token.isUnreserved, isConstraintWord, and_assoc] using hword
  · rfl

theorem PlainText.unreserved {text : String} (h : PlainText text) {input : List Lexeme}
    (hinput : Lexeme.ofChars text.toList = .ok input) : Unreserved input := by
  intro x hx
  obtain ⟨tail, -, -, hstands⟩ := ofChars_eq_ok_iff.1 hinput
  obtain ⟨a, b, rfl⟩ := List.append_of_mem hx
  obtain ⟨hvalid, -⟩ := (stands_cons.1 (stands_append.1 hstands).2).2
  exact isUnreserved_of_valid hvalid (h _ hinput x hx).1 (h _ hinput x hx).2

theorem ofString_eq_error {text : String} {error : SyntaxError} (h : ofString text = .error error) :
    error.text = text := by
  unfold ofString at h
  split at h
  · obtain rfl := Except.error.inj h
    rfl
  · next input _ =>
    cases hread : ofLexemes input with
    | ok t => simp [hread, Except.mapError] at h
    | error fault =>
      rw [hread] at h
      obtain rfl := Except.error.inj h
      rfl

/-- **The type reader accepts its grammar.** A text without reserved words and attributes is read as
a type exactly if it splits into tokens that are derived as one; otherwise there is an error about
the text. -/
theorem ofString_exact (text : String) (hplain : PlainText text) :
    ((∃ t, ofString text = .ok t) ↔ ∃ input, Lexeme.ofChars text.toList = .ok input ∧
      Derives .type (input.map (·.token))) ∧
    ((¬∃ t, ofString text = .ok t) → ∃ fault, ofString text = .error ⟨text, fault⟩) := by
  refine ⟨⟨?_, ?_⟩, ?_⟩
  · rintro ⟨t, ht⟩
    obtain ⟨input, hinput, hread⟩ := ofString_eq_ok_iff.1 ht
    obtain ⟨front, hfront, hderived⟩ := hread.derived (hplain.unreserved hinput)
    rw [List.append_nil] at hfront
    exact ⟨input, hinput, hfront ▸ hderived⟩
  · rintro ⟨input, hinput, hderives⟩
    have hends : endsType (lookahead []) = true := rfl
    obtain ⟨t, ht⟩ := (accepted_of_derives hderives).reads rfl (hplain.unreserved hinput) hends
    rw [List.append_nil] at ht
    exact ⟨t, ofString_eq_ok_iff.2 ⟨input, hinput, ht⟩⟩
  · intro hnone
    cases h : ofString text with
    | ok t => exact absurd ⟨t, h⟩ hnone
    | error error =>
      obtain ⟨_, fault⟩ := error
      obtain rfl := ofString_eq_error h
      exact ⟨fault, rfl⟩

/-- A function with a label, three dots, arguments, a metatype, a typed error and a joined type in
its result. -/
def handlerText : String := "(_ id: Int..., A.B<C?>.Type) async throws (E) -> [K: V] & P"

theorem ofString_exact_handler :
    PlainText handlerText ∧ ∃ input, Lexeme.ofChars handlerText.toList = .ok input ∧
      Derives .type (input.map (·.token)) := by
  have hplain : PlainText handlerText := by
    have hall : ∀ input ∈ (Lexeme.ofChars handlerText.toList).toOption, ∀ x ∈ input,
        x.token.chars ∉ reservedWords ∧ x.token.chars.head? ≠ some '@' := by
      decide +kernel
    exact fun input hinput => hall input (by rw [hinput]; rfl)
  have hread : (ofString handlerText).isOk = true := by
    decide +kernel
  refine ⟨hplain, (ofString_exact handlerText hplain).1.1 ?_⟩
  cases h : ofString handlerText with
  | ok t => exact ⟨t, rfl⟩
  | error error => simp [h, Except.isOk, Except.toBool] at hread

end FluentBuilder.TypeExpr
