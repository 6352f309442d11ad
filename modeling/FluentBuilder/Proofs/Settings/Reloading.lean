import FluentBuilder.Proofs.Outcomes
import FluentBuilder.Proofs.Text.Trimming
import FluentBuilder.Settings
import Mathlib.Data.List.Basic

/-!
# Settings that are saved and read again

Settings are saved as data with one entry for each of them (`Settings.entries`). Read again they are
always accepted, and all that can change is the names of attributes: `attributeName` takes the `@`s
in front of a name before the blanks, so that a name given as `" @Buildable"` keeps its `@` at
first, and loses it when it is read again.

`ofEntries_entries_exact` says for which settings that is so, and from which names they come
(`HidesAt`). The rest of the settings is a normal form. `Gives` says what an accepted reading has
found for each key, and every entry of saved settings is read by the rule for its key alone.
-/

namespace FluentBuilder.Settings

open Text

/-! ### Names of attributes -/

/-- Behind the `@`s at the start of a name stand blanks, and behind these another `@`. -/
def HidesAt (name : List Char) : Prop :=
  ∃ ats blanks rest, name = ats ++ blanks ++ '@' :: rest ∧ (∀ c ∈ ats, c = '@') ∧
    blanks ≠ [] ∧ ∀ c ∈ blanks, isBlank c = true

@[simp]
theorem toList_attributeName (name : String) :
    (attributeName name).toList = trim (name.toList.dropWhile (· == '@')) := by
  rw [attributeName, String.toList_ofList]

theorem trim_attributeName (name : String) :
    trim (attributeName name).toList = (attributeName name).toList := by
  rw [toList_attributeName, trim_trim]

/-- A name without blanks around it stays as it is exactly if it starts with no `@`. -/
theorem attributeName_eq_self_iff {name : String} (htrim : trim name.toList = name.toList) :
    attributeName name = name ↔ name.toList.head? ≠ some '@' := by
  constructor
  · intro hself hhead
    obtain ⟨rest, hrest⟩ := List.head?_eq_some_iff.mp hhead
    have hlength : (attributeName name).toList.length ≤ rest.length := by
      rw [toList_attributeName, hrest, List.dropWhile_cons_of_pos (by simp), trim,
        trimEnd_eq_rdropWhile]
      exact ((List.rdropWhile_prefix _ _).length_le.trans
        (List.dropWhile_suffix isBlank).length_le).trans
        (List.dropWhile_suffix (· == '@')).length_le
    rw [hself, hrest, List.length_cons] at hlength
    omega
  · intro hhead
    have hdrop : name.toList.dropWhile (· == '@') = name.toList := by
      cases hname : name.toList with
      | nil => rfl
      | cons c rest =>
        have hc : c ≠ '@' := by simpa [hname] using hhead
        simp [hc]
    apply String.toList_injective
    rw [toList_attributeName, hdrop, htrim]

/-- The `@`s that are taken are all at the start, so one behind blanks is kept. -/
theorem head?_attributeName_iff {name : String} :
    (attributeName name).toList.head? = some '@' ↔ HidesAt name.toList := by
  rw [toList_attributeName, head?_trim]
  constructor
  · intro hhead
    obtain ⟨rest, hrest⟩ := List.head?_eq_some_iff.mp hhead
    refine ⟨name.toList.takeWhile (· == '@'),
      (name.toList.dropWhile (· == '@')).takeWhile isBlank, rest, ?_, ?_, ?_, ?_⟩
    · rw [← hrest, trimStart, List.append_assoc, List.takeWhile_append_dropWhile,
        List.takeWhile_append_dropWhile]
    · intro c hc
      simpa using List.mem_takeWhile_imp hc
    · -- without blanks between them the `@` would have been taken with those in front of it
      intro hnone
      have hstart : trimStart (name.toList.dropWhile (· == '@')) =
          name.toList.dropWhile (· == '@') := by
        have happend := List.takeWhile_append_dropWhile (p := isBlank)
          (l := name.toList.dropWhile (· == '@'))
        rwa [hnone, List.nil_append] at happend
      have hnot := List.head?_dropWhile_not (· == '@') name.toList
      rw [← hstart, hrest] at hnot
      simp at hnot
    · exact fun c hc => List.mem_takeWhile_imp hc
  · rintro ⟨ats, blanks, rest, hname, hats, hne, hblanks⟩
    obtain ⟨b, more, rfl⟩ := List.exists_cons_of_ne_nil hne
    have hb : isBlank b = true := hblanks b List.mem_cons_self
    have hnot : b ≠ '@' := by
      rintro rfl
      exact absurd hb (by decide)
    have hdrop : name.toList.dropWhile (· == '@') = b :: more ++ '@' :: rest := by
      rw [hname, List.append_assoc, List.dropWhile_append_of_pos (by simpa using hats)]
      simp [hnot]
    rw [hdrop, trimStart_append hblanks, trimStart, List.dropWhile_cons_of_neg (by decide)]
    rfl

/-! ### What is found for each key -/

/-- What an accepted reading has found for each key. -/
structure Gives (given : List (String × Data)) (settings : Settings) : Prop where
  builderAttributes :
    setting given "builder_attributes" ({} : Settings).builderAttributes readAttributes =
      .ok settings.builderAttributes
  defaultAttributes :
    setting given "default_attributes" ({} : Settings).defaultAttributes readAttributes =
      .ok settings.defaultAttributes
  builderName :
    setting given "builder_name" ({} : Settings).builderName (readBuilderName "builder_name") =
      .ok settings.builderName
  indentWidth :
    setting given "indent_width" ({} : Settings).indentWidth (readIndentWidth "indent_width") =
      .ok settings.indentWidth
  zeroConstructible :
    setting given "zero_constructible" ({} : Settings).zeroConstructible
      (readTexts "zero_constructible") = .ok settings.zeroConstructible
  literalDefaults :
    setting given "literal_defaults" ({} : Settings).literalDefaults
      (readTextEntries "literal_defaults") = .ok settings.literalDefaults
  detectCycles :
    setting given "detect_cycles" ({} : Settings).detectCycles (readBoolean "detect_cycles") =
      .ok settings.detectCycles

variable {given : List (String × Data)} {settings : Settings}

theorem ofEntries_eq_ok_iff : ofEntries given = .ok settings ↔ Gives given settings := by
  constructor
  · intro h
    unfold ofEntries at h
    obtain ⟨builderAttributes, hbuilder, h⟩ := bind_eq_ok.mp h
    obtain ⟨defaultAttributes, hdefault, h⟩ := bind_eq_ok.mp h
    dsimp only at h
    split at h
    · next hname hwidth hzero hliteral hcycles =>
      obtain rfl := Except.ok.inj h
      exact ⟨hbuilder, hdefault, hname, hwidth, hzero, hliteral, hcycles⟩
    · cases h
  · intro h
    unfold ofEntries
    simp only [h.builderAttributes, h.defaultAttributes, h.builderName, h.indentWidth,
      h.zeroConstructible, h.literalDefaults, h.detectCycles, bind, Except.bind, pure, Except.pure]

theorem readAttributes_eq_ok_iff {data : Data} {names : List String} :
    readAttributes data = .ok names ↔ ∃ row, rowOf? data = some row ∧ names = row.map attributeName := by
  unfold readAttributes
  cases rowOf? data with
  | none => simp
  | some row => simp [eq_comm]

/-! ### Settings as they are saved -/

/-- The data that settings are saved as. -/
def entries (settings : Settings) : List (String × Data) :=
  [("builder_attributes", .list (settings.builderAttributes.map .text)),
    ("default_attributes", .list (settings.defaultAttributes.map .text)),
    ("builder_name", .text settings.builderName),
    ("indent_width", .integer settings.indentWidth),
    ("zero_constructible", .list (settings.zeroConstructible.map .text)),
    ("literal_defaults", .object (settings.literalDefaults.map fun entry => (entry.1, .text entry.2))),
    ("detect_cycles", .bool settings.detectCycles)]

/-- The settings with the names of attributes read once more. -/
def renamed (settings : Settings) : Settings :=
  { settings with
    builderAttributes := settings.builderAttributes.map attributeName
    defaultAttributes := settings.defaultAttributes.map attributeName }

theorem readAttributes_list_text (names : List String) :
    readAttributes (.list (names.map .text)) = .ok (names.map attributeName) := by
  rw [readAttributes_eq_ok_iff]
  refine ⟨names, ?_, rfl⟩
  simp [rowOf?, Function.comp_def, Data.asName]

theorem collect_map_ok {α : Type} (values : List α) :
    collect (values.map fun value => (.ok value : Checked α)) = .ok values := by
  induction values with
  | nil => rfl
  | cons value values ih => simp only [List.map_cons, collect, ih]

theorem readTexts_list_text (key : String) (texts : List String) :
    readTexts key (.list (texts.map .text)) = .ok texts := by
  have hitems : (texts.map Data.text).mapIdx (fun i item => readText [.key key, .index i] item) =
      texts.map .ok := by
    rw [List.mapIdx_eq_iff]
    intro i
    simp [Function.comp_def, readText]
  rw [readTexts, hitems, collect_map_ok]

theorem readTextEntries_object_text (key : String) (entries : List (String × String)) :
    readTextEntries key (.object (entries.map fun entry => (entry.1, .text entry.2))) =
      .ok entries := by
  rw [readTextEntries, List.map_map]
  exact collect_map_ok entries

/-- Saved settings are read by the rule for each key alone. -/
theorem Gives.entries (hname : isIdentifier settings.builderName = true)
    (hwidth : 1 ≤ settings.indentWidth) : Gives settings.entries settings.renamed where
  builderAttributes := readAttributes_list_text settings.builderAttributes
  defaultAttributes := readAttributes_list_text settings.defaultAttributes
  builderName := if_pos hname
  indentWidth := by
    have hnot : ¬(settings.indentWidth : Int) < 1 := by omega
    show readIndentWidth "indent_width" (.integer settings.indentWidth) = _
    simp [readIndentWidth, readInteger, hnot, bind, Except.bind, pure, Except.pure, renamed]
  zeroConstructible := readTexts_list_text _ settings.zeroConstructible
  literalDefaults := readTextEntries_object_text _ settings.literalDefaults
  detectCycles := rfl

theorem Gives.isIdentifier (h : Gives given settings) :
    isIdentifier settings.builderName = true := by
  have hread := h.builderName
  unfold setting at hread
  split at hread
  · next data _ =>
    unfold readBuilderName at hread
    split at hread
    · split at hread
      · next hname => exact Except.ok.inj hread ▸ hname
      · cases hread
    · cases hread
  · rw [← Except.ok.inj hread]
    decide

theorem Gives.one_le_indentWidth (h : Gives given settings) : 1 ≤ settings.indentWidth := by
  have hread := h.indentWidth
  unfold setting at hread
  split at hread
  · next data _ =>
    unfold readIndentWidth at hread
    obtain ⟨width, -, hread⟩ := bind_eq_ok.mp hread
    split at hread
    · cases hread
    · next hnot =>
      have hwidth : width.toNat = settings.indentWidth := Except.ok.inj hread
      omega
  · rw [← Except.ok.inj hread]
    decide

/-! ### Settings that stay as they are -/

def attributeNames (settings : Settings) : List String :=
  settings.builderAttributes ++ settings.defaultAttributes

/-- The names that data give for a key of attributes, as they stand there. -/
def namesAt (given : List (String × Data)) (key : String) : List String :=
  ((given.lookup key).bind rowOf?).getD []

/-- The names of attributes that data give, as they stand there. -/
def givenNames (given : List (String × Data)) : List String :=
  namesAt given "builder_attributes" ++ namesAt given "default_attributes"

theorem renamed_eq_self_iff :
    settings.renamed = settings ↔ ∀ name ∈ settings.attributeNames, attributeName name = name := by
  have hself (names : List String) :
      names.map attributeName = names ↔ ∀ name ∈ names, attributeName name = name := by
    conv_lhs => rw [← List.map_id names, List.map_map]
    exact List.map_inj_left
  obtain ⟨builderAttributes, defaultAttributes, _⟩ := settings
  simp only [renamed, attributeNames, mk.injEq, and_true, hself, List.forall_mem_append]

/-- The names found for a key are the given ones, read, or those of a default. -/
theorem names_cases {key : String} {default names : List String}
    (h : setting given key default readAttributes = .ok names) :
    names = (namesAt given key).map attributeName ∨ names = default ∧ namesAt given key = [] := by
  unfold setting at h
  unfold namesAt
  split at h
  · next data hdata =>
    obtain ⟨row, hrow, rfl⟩ := readAttributes_eq_ok_iff.mp h
    left
    rw [hdata, Option.bind_some, hrow, Option.getD_some]
  · next hnone =>
    right
    rw [hnone]
    exact ⟨(Except.ok.inj h).symm, rfl⟩

theorem Gives.trim_name (h : Gives given settings) :
    ∀ name ∈ settings.attributeNames, trim name.toList = name.toList := by
  have hkey {key : String} {default names : List String}
      (hnames : setting given key default readAttributes = .ok names)
      (hdefault : ∀ name ∈ default, trim name.toList = name.toList) :
      ∀ name ∈ names, trim name.toList = name.toList := by
    rcases names_cases hnames with rfl | ⟨rfl, -⟩
    · rw [List.forall_mem_map]
      exact fun name _ => trim_attributeName name
    · exact hdefault
  exact List.forall_mem_append.mpr
    ⟨hkey h.builderAttributes (by decide), hkey h.defaultAttributes (by decide)⟩

/-- Those of them that start with an `@` come from given names that hide it behind blanks. -/
theorem Gives.forall_head?_ne_iff (h : Gives given settings) :
    (∀ name ∈ settings.attributeNames, name.toList.head? ≠ some '@') ↔
      ∀ name ∈ givenNames given, ¬HidesAt name.toList := by
  have hkey {key : String} {default names : List String}
      (hnames : setting given key default readAttributes = .ok names)
      (hdefault : ∀ name ∈ default, name.toList.head? ≠ some '@') :
      (∀ name ∈ names, name.toList.head? ≠ some '@') ↔
        ∀ name ∈ namesAt given key, ¬HidesAt name.toList := by
    rcases names_cases hnames with rfl | ⟨rfl, hnone⟩
    · simp only [List.forall_mem_map, ne_eq, head?_attributeName_iff]
    · simpa [hnone] using hdefault
  rw [attributeNames, givenNames, List.forall_mem_append, List.forall_mem_append,
    hkey h.builderAttributes (by decide), hkey h.defaultAttributes (by decide)]

/-- **When settings are a normal form.** Settings that are saved and read again are always accepted,
with the names of attributes read once more and all else as it was. These names have no blanks
around them. None of them starts with an `@`, and the settings stay as they are, exactly if no name
was given with an `@` behind blanks, be these at its start or behind further `@`s. -/
theorem ofEntries_entries_exact (h : ofEntries given = .ok settings) :
    ofEntries settings.entries = .ok settings.renamed ∧
      (∀ name ∈ settings.attributeNames, trim name.toList = name.toList) ∧
      ((∀ name ∈ settings.attributeNames, name.toList.head? ≠ some '@') ↔
        ∀ name ∈ givenNames given, ¬HidesAt name.toList) ∧
      (ofEntries settings.entries = .ok settings ↔
        ∀ name ∈ givenNames given, ¬HidesAt name.toList) := by
  have hgives : Gives given settings := ofEntries_eq_ok_iff.mp h
  have hagain : ofEntries settings.entries = .ok settings.renamed :=
    ofEntries_eq_ok_iff.mpr (Gives.entries hgives.isIdentifier hgives.one_le_indentWidth)
  refine ⟨hagain, hgives.trim_name, hgives.forall_head?_ne_iff, ?_⟩
  rw [hagain, Except.ok.injEq, renamed_eq_self_iff, ← hgives.forall_head?_ne_iff]
  apply forall₂_congr
  intro name hname
  exact attributeName_eq_self_iff (hgives.trim_name name hname)

/-- Data of many shapes, with one name that hides its `@`. -/
def loosely : List (String × Data) :=
  [("indent_width", .text " +2.0"), ("detect_cycles", .text "oFF"),
    ("builder_attributes", .list [.text " @Buildable", .text "@@Make ", .null, .bool true]),
    ("default_attributes", .text "B@"),
    ("literal_defaults", .object [("Color", .text ".clear")])]

def looseSettings : Settings :=
  { builderAttributes := ["@Buildable", "Make", "None", "True"], defaultAttributes := ["B", ""],
    indentWidth := 2, literalDefaults := [("Color", ".clear")], detectCycles := false }

theorem ofEntries_entries_exact_loosely :
    ofEntries loosely = .ok looseSettings ∧
      ofEntries looseSettings.entries = .ok looseSettings.renamed ∧
      ¬∀ name ∈ givenNames loosely, ¬HidesAt name.toList := by
  have hread : ofEntries loosely = .ok looseSettings := by decide +kernel
  obtain ⟨hagain, -, hnames, -⟩ := ofEntries_entries_exact hread
  refine ⟨hread, hagain, ?_⟩
  rw [← hnames]
  decide

/-- A name keeps its `@` behind a blank, and loses it when the settings are read again. -/
theorem at_kept_behind_blank :
    ∃ settings, ofEntries [("builder_attributes", .list [.text " @Buildable"])] = .ok settings ∧
      settings.builderAttributes = ["@Buildable"] ∧ ofEntries settings.entries ≠ .ok settings :=
  ⟨{ builderAttributes := ["@Buildable"] }, by decide +kernel, rfl, by decide +kernel⟩

end FluentBuilder.Settings
