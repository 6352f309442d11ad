import FluentBuilder.Proofs.TypeExpr.Parts

/-!
# Which types are read back

`ofString_render_iff`: a type that is read from a text is read back from its own text iff it is
stable. A name loses its backticks when it is read, and a constraint its parentheses when it is
rendered in front of a mark, so the text of a type may start with a word that means something else
there. `Stable` says what the texts of the parts must not start with, and that no later segment of a
name is the suffix of a metatype.

Stable types are faithful, each constructor by the theorem on it (`Stable.faithful`). For the other
direction (`Readable.stable`), where the text of a type is read as the type, the texts of its parts
are read as the parts. This is an induction on the number of lexemes: the arguments inside of a name
are known by their text only, and may be read as others than those they were rendered from.
-/

namespace FluentBuilder.TypeExpr

open Text Lexeme

/-! ### Stable types -/

/-- Types whose text is not taken for that of another type. -/
inductive Stable : TypeExpr → Prop where
  | word {w : List Char} : IsPlain w → Stable (.nominal (String.ofList w) [])
  /-- In front of arguments a name does not start with `any` or `some`. -/
  | arguments {name : String} {ts : List TypeExpr} :
    Stable (.nominal name []) → startsWithConstraint (.nominal name []) = false → ts ≠ [] →
    (∀ t ∈ ts, Stable t) → Stable (.nominal name ts)
  /-- Nor does it in front of a further segment, and this is neither `Type` nor `Protocol`. -/
  | member {name : String} {ts : List TypeExpr} {w : List Char} :
    Readable (.nominal name ts) → Stable (.nominal name ts) →
    startsWithConstraint (.nominal name ts) = false → IsPlain w → isMetatypeSuffix w = false →
    Stable (.nominal (render (.nominal name ts) ++ "." ++ String.ofList w) [])
  /-- In parentheses a type does not start with `inout`, and without them it does not start with
  `any` or `some`. -/
  | optional {t : TypeExpr} : Stable t →
    (if t.needsParentheses then startsWithInout t = false else startsWithConstraint t = false) →
    Stable (.optional t)
  | unwrapped {t : TypeExpr} : Stable t →
    (if t.needsParentheses then startsWithInout t = false else startsWithConstraint t = false) →
    Stable (.unwrapped t)
  | array {t : TypeExpr} : Stable t → Stable (.array t)
  | dictionary {key value : TypeExpr} : Stable key → Stable value → Stable (.dictionary key value)
  /-- No element starts with `inout`, and no label is one. -/
  | tuple {es : List (Option String × TypeExpr)} :
    (∀ e ∈ es, Stable e.2) → (∀ e ∈ es, startsWithInout e.2 = false) →
    (∀ e ∈ es, e.1 ≠ some "inout") → Stable (.tuple es)
  /-- No parameter starts with `inout`. -/
  | function {ps : List TypeExpr} {result : TypeExpr} {isAsync throws : Bool}
      {thrown : Option TypeExpr} :
    (∀ t ∈ ps, Stable t) → (∀ t ∈ ps, startsWithInout t = false) → Stable result →
    (∀ t ∈ thrown, Stable t) → Stable (.function ps result isAsync throws thrown)
  /-- What is kept by its text is read as this text. -/
  | verbatim {text : String} : Stable (.verbatim text)

/-! ### Stable types are read back -/

theorem faithful_word {w : List Char} (hw : IsPlain w) :
    Faithful (.nominal (String.ofList w) []) := by
  have hread : Reads (.nominal (String.ofList (unticked w)) (.nominal (String.ofList w) [])) []
      [] := by
    rw [unticked_of_plain hw]
    exact .nominalDone (.argumentsNone (by simp)) rfl
  have hname : FaithfulName (String.ofList w) [⟨[], .word w⟩] := by
    refine ⟨by simpa using spelled_word hw.isTicked, ?_, w, [], rfl⟩
    exact .single rfl (.suffixed (.nominal hread) (List.append_nil _).symm (.done rfl)) (by simp)
  exact faithful_nominal hname (by simp) (by simp)

theorem Faithful.arguments {name : String} {ts : List TypeExpr} (h : Faithful (.nominal name []))
    (hname : Readable (.nominal name [])) (hstart : startsWithConstraint (.nominal name []) = false)
    (hts : ∀ t ∈ ts, Faithful t) : Faithful (.nominal name ts) := by
  have hread := h.reads [] rfl
  rw [List.append_nil] at hread
  exact faithful_nominal ⟨h.legible, hread, hname.exists_word rfl⟩ hts fun _ => hstart

theorem Faithful.member {name : String} {ts : List TypeExpr} {w : List Char}
    (h : Faithful (.nominal name ts)) (hname : Readable (.nominal name ts))
    (hstart : startsWithConstraint (.nominal name ts) = false) (hplain : IsPlain w)
    (hw : isMetatypeSuffix w = false) :
    Faithful (.nominal (render (.nominal name ts) ++ "." ++ String.ofList w) []) := by
  have hspelled := spelled_path h.legible hplain
  obtain ⟨first, tail, htail⟩ := hname.exists_word rfl
  have hread := h.reads [] rfl
  have hstart' := h.legible.startsConstraint_eq hstart [⟨[], .mark .dot⟩, ⟨[], .word w⟩]
  rw [htail] at hread hstart' hspelled
  rw [List.append_nil] at hread
  refine faithful_nominal ⟨hspelled, ?_, first, _, rfl⟩ (by simp) (by simp)
  cases (hread.primary_of_type rfl).1 with
  | nominal hn =>
    have := hn.nominal_member rfl rfl [] [] hw
    rw [unticked_of_plain hplain] at this
    exact .single hstart' (.suffixed (.nominal this) (List.append_nil _).symm (.done rfl)) (by simp)

theorem Stable.faithful {t : TypeExpr} (h : Stable t) (ht : Readable t) : Faithful t := by
  induction h with
  | word hw => exact faithful_word hw
  | arguments _ hstart hne _ ihname ih =>
    cases ht with
    | word | member => exact absurd rfl hne
    | arguments hname _ hts =>
      exact (ihname hname).arguments hname hstart fun t ht => ih t ht (hts t ht)
  | member hname _ hstart hplain hw ih => exact (ih hname).member hname hstart hplain hw
  | optional _ hmark ih =>
    cases ht with
    | optional ht => exact faithful_optional (ih ht) hmark
  | unwrapped _ hmark ih =>
    cases ht with
    | unwrapped ht => exact faithful_unwrapped (ih ht) hmark
  | array _ ih =>
    cases ht with
    | array ht => exact faithful_array (ih ht)
  | dictionary _ _ ihkey ihvalue =>
    cases ht with
    | dictionary hkey hvalue => exact faithful_dictionary (ihkey hkey) (ihvalue hvalue)
  | tuple _ hinout hlabel ih =>
    cases ht with
    | tuple hes hplain hsingle =>
      refine faithful_tuple (fun e he => ⟨ih e he (hes e he), hinout e he, fun text htext => ?_⟩)
        hsingle
      refine ⟨hplain e he text htext, fun hword => hlabel e he ?_⟩
      rw [Option.mem_def.1 htext, ← String.ofList_toList (s := text), hword]
      rfl
  | function _ hinout _ _ ihps ihresult iht =>
    cases ht with
    | function hps hresult hthrown hthrows =>
      exact faithful_function (fun t ht => ⟨ihps t ht (hps t ht), hinout t ht⟩) (ihresult hresult)
        (fun t ht => iht t ht (hthrown t ht)) hthrows
  | verbatim =>
    cases ht with
    | verbatim h => exact h

/-! ### What is read back is stable -/

theorem length_le_commas {ls : List (List Lexeme)} {l : List Lexeme} (h : l ∈ ls) :
    l.length ≤ (commas ls).length := by
  induction ls with
  | nil => simp at h
  | cons l' ls ih =>
    rcases ls with _ | ⟨l'', ls⟩
    · rw [List.mem_singleton.1 h]
      exact le_rfl
    · have hlength : (commas (l' :: l'' :: ls)).length =
          l'.length + 1 + (commas (l'' :: ls)).length := by
        rw [commas_cons_cons, List.length_append, List.length_cons, length_regap]
        omega
      rcases List.mem_cons.1 h with rfl | h
      · omega
      · have := ih h
        omega

theorem length_le_elementLexemes (e : Option String × TypeExpr) :
    e.2.lexemes.length ≤ (elementLexemes e).length := by
  obtain ⟨_ | label, t⟩ := e
  · exact le_rfl
  · rw [elementLexemes]
    split
    · exact le_rfl
    · simp only [List.length_cons, length_regap]
      omega

theorem length_lt_markedLexemes (t : TypeExpr) (mark : Mark) :
    t.lexemes.length < (markedLexemes t mark).length := by
  unfold markedLexemes
  split
  · simp only [List.length_cons, List.length_append]
    omega
  · simp

theorem length_le_effectLexemes (isAsync : Bool) {throws : Bool} {t : TypeExpr}
    {thrown : Option TypeExpr} (ht : t ∈ thrown) (hthrows : throws = true) :
    t.lexemes.length ≤ (effectLexemes isAsync throws thrown).length := by
  obtain rfl := Option.mem_def.1 ht
  subst hthrows
  simp only [effectLexemes, if_true, thrownLexemes, List.length_append, List.length_cons]
  omega

theorem lexemes_congr {t t' : TypeExpr} (h : render t = render t') : t.lexemes = t'.lexemes := by
  rw [lexemes, lexemes, h]

theorem firstToken_congr {t t' : TypeExpr} (h : render t = render t') :
    firstToken? t = firstToken? t' := by
  rw [firstToken?, firstToken?, h]

/-- The text in front of the last segment of a name is read as a name with arguments, if the name is
read. -/
theorem ReadAs.member {name : String} {ts : List TypeExpr} {w : List Char}
    (hname : Readable (.nominal name ts)) (hw : IsPlain w)
    (h : ReadAs (.nominal (render (.nominal name ts) ++ "." ++ String.ofList w) [])
      (.nominal (render (.nominal name ts) ++ "." ++ String.ofList w) [])) :
    startsWithConstraint (.nominal name ts) = false ∧ isMetatypeSuffix w = false ∧
      ∃ first ts', render (.nominal first ts') = render (.nominal name ts) ∧
        ReadAs (.nominal name ts) (.nominal first ts') := by
  obtain ⟨v, tail, htail⟩ := hname.exists_word rfl
  have hclosed := hname.closed
  rw [ReadAs, lexemes_member hname hw] at h
  rw [htail] at h hclosed
  obtain ⟨hprimary, hstart⟩ := h.primary_of_type rfl
  have hfirst : startsWithConstraint (.nominal name ts) = false := by
    rw [startsWithConstraint, hname.legible.firstToken_eq htail]
    by_contra hv
    have hnext : isClosing (lookahead [⟨[], .mark .dot⟩, ⟨[], .word w⟩]) = false := rfl
    have := hclosed.startsConstraint_eq (by simpa using hv) hnext
    exact absurd (this.symm.trans hstart) (by simp)
  generalize hlast : render (.nominal name ts) ++ "." ++ String.ofList w = last at hprimary
  cases hprimary with
  | nominal hn =>
    obtain ⟨first, ts', hread, hsuffix, heq⟩ := hn.nominal_last rfl rfl rfl
    rw [unticked_of_plain hw, ← hlast] at heq
    have hrender : render (.nominal first ts') = render (.nominal name ts) := by
      simpa using heq.symm
    have hstart' := hname.legible.startsConstraint_eq hfirst []
    refine ⟨hfirst, hsuffix, first, ts', hrender, ?_⟩
    rw [ReadAs]
    rw [htail] at hstart' ⊢
    rw [List.append_nil] at hstart'
    exact .single hstart' (.suffixed (.nominal hread) (List.append_nil _).symm (.done rfl)) (by simp)

theorem Readable.stable {t : TypeExpr} (h : Readable t) (hread : ReadAs t t) : Stable t := by
  induction hn : t.lexemes.length using Nat.strong_induction_on generalizing t with
  | _ n ih =>
    subst hn
    have ih' {u : TypeExpr} (hu : Readable u) (hread : ReadAs u u)
        (hlt : u.lexemes.length < t.lexemes.length) : Stable u := ih _ hlt hu hread rfl
    have hmem {α : Type} {R : α → α → Prop} {as : List α} (h : List.Forall₂ R as as) :
        ∀ a ∈ as, R a a := List.forall₂_same.1 h
    cases h with
    | word hw => exact .word hw
    | member hname hw =>
      obtain ⟨hfirst, hsuffix, first, ts', hrender, hread'⟩ := hread.member hname hw
      have hname' := readable_of_ofString (hname.legible.readAs_iff.1 hread')
      have hlexemes := congrArg List.length (lexemes_member hname hw)
      rw [List.length_append, ← lexemes_congr hrender] at hlexemes
      rw [ReadAs, ← lexemes_congr hrender] at hread'
      rw [startsWithConstraint, ← firstToken_congr hrender] at hfirst
      rw [← hrender]
      exact .member hname' (ih' hname' hread' (by rw [hlexemes]; simp)) hfirst hw hsuffix
    | arguments hname hne hts =>
      obtain ⟨hbare, hstart, hargs⟩ := hread.nominal hname hts hne hne
      have hlexemes := congrArg List.length (lexemes_arguments hname hne hts)
      simp only [List.length_append, List.length_cons] at hlexemes
      refine .arguments (ih' hname hbare (by omega)) hstart hne fun t ht => ?_
      have := length_le_commas (List.mem_map_of_mem (f := lexemes) ht)
      exact ih' (hts t ht) (hmem hargs t ht) (by omega)
    | optional h =>
      obtain ⟨hread', hfirst⟩ := hread.of_marked .question h (lexemes_optional h)
      rw [lexemes_optional h] at ih'
      exact .optional (ih' h hread' (length_lt_markedLexemes _ _)) hfirst
    | unwrapped h =>
      obtain ⟨hread', hfirst⟩ := hread.of_marked .exclamation h (lexemes_unwrapped h)
      rw [lexemes_unwrapped h] at ih'
      exact .unwrapped (ih' h hread' (length_lt_markedLexemes _ _)) hfirst
    | array h =>
      have hlexemes := congrArg List.length (lexemes_array h)
      simp only [List.length_append, List.length_cons] at hlexemes
      exact .array (ih' h (hread.array h) (by omega))
    | dictionary hkey hvalue =>
      obtain ⟨hk, hv⟩ := hread.dictionary hkey hvalue
      have hlexemes := congrArg List.length (lexemes_dictionary hkey hvalue)
      simp only [List.length_append, List.length_cons, length_regap] at hlexemes
      exact .dictionary (ih' hkey hk (by omega)) (ih' hvalue hv (by omega))
    | tuple h hlabel hsingle =>
      have helements := hmem (hread.tuple (fun e he => ⟨h e he, hlabel e he⟩) hsingle)
      have hlexemes := congrArg List.length (lexemes_tuple h hlabel)
      simp only [List.length_append, List.length_cons] at hlexemes
      refine .tuple (fun e he => ?_) (fun e he => (helements e he).inout)
        fun e he => (helements e he).ne_inout
      have hle := length_le_commas (List.mem_map_of_mem (f := elementLexemes) he)
      have hle' := length_le_elementLexemes e
      exact ih' (h e he) (helements e he).reads (by omega)
    | @function _ _ isAsync throws _ hps hresult hthrown hthrows =>
      obtain ⟨hparams, hresult', hthrown'⟩ := hread.function hps hresult hthrown hthrows
      have hlexemes := congrArg List.length (lexemes_function isAsync throws hps hresult hthrown)
      simp only [List.length_append, List.length_cons, length_regap] at hlexemes
      refine .function (fun t ht => ?_) (fun t ht => (hmem hparams t ht).1)
        (ih' hresult hresult' (by omega)) fun t ht => ?_
      · have := length_le_commas (List.mem_map_of_mem (f := lexemes) ht)
        exact ih' (hps t ht) (hmem hparams t ht).2 (by omega)
      · obtain ⟨t₀, ht₀, hread'⟩ := hthrown' t ht
        obtain rfl := Option.mem_unique ht ht₀
        have hne := Option.ne_none_iff_exists'.2 ⟨_, ht⟩
        have := length_le_effectLexemes isAsync ht (hthrows hne)
        exact ih' (hthrown _ ht) hread' (by omega)
    | verbatim => exact .verbatim

/-- What is read from a text is read back from its own text iff it is stable. -/
theorem ofString_render_iff {text : String} {t : TypeExpr} (h : ofString text = .ok t) :
    ofString (render t) = .ok t ↔ Stable t := by
  have ht := readable_of_ofString h
  constructor
  · exact fun hread => ht.stable (ht.legible.readAs_iff.2 hread)
  · exact fun hstable => (hstable.faithful ht).ofString_render

/-- Neither the parentheses around an argument nor the backticks around a segment are needed. -/
theorem ofString_render_segment :
    ofString "A<(B)>.`C`" = .ok (.nominal "A<B>.C" []) ∧ Stable (.nominal "A<B>.C" []) := by
  have h : ofString "A<(B)>.`C`" = .ok (.nominal "A<B>.C" []) := by cbv
  exact ⟨h, (ofString_render_iff h).1 (by cbv)⟩

/-- A constraint without a blank loses its parentheses, and the mark becomes a part of it. -/
theorem ofString_render_constraint :
    ofString "(any[P])?" = .ok (.optional (.verbatim "any[P]")) ∧
      ofString (render (.optional (.verbatim "any[P]"))) = .ok (.verbatim "any[P]?") := by
  have hrender : render (.optional (.verbatim "any[P]")) = "any[P]?" := by decide
  rw [hrender]
  exact ⟨by cbv, by cbv⟩

end FluentBuilder.TypeExpr
