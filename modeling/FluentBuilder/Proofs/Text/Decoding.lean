import FluentBuilder.Proofs.Outcomes
import FluentBuilder.Proofs.Text.Encoding

/-!
# Bytes as characters, and back

`encode_of_decode`: where bytes are the bytes of a text, the text is written as these bytes again.
So places in the text are places in the bytes. The other way round, a byte of ASCII stands between
two places of the text (`isBoundary_of_ascii`), since no other character has such a byte.

Reading asks for more of the second byte of a character than that it continues one. This is what
leaves only numbers that need as many bytes as were read and that stand for a character; so each
width is a case of its own, with the bounds on the number from those on the bytes.
-/

namespace FluentBuilder.Text.Utf8

/-! ### Bytes by their numbers -/

theorem width_eq (a : UInt8) : width a =
    if a.toNat < 0x80 then 1 else if a.toNat < 0xC2 then 0 else if a.toNat < 0xE0 then 2
    else if a.toNat < 0xF0 then 3 else if a.toNat < 0xF5 then 4 else 0 := by
  have h := width_ofNat a.toNat_lt
  rwa [UInt8.ofNat_toNat] at h

theorem isContinuation_iff (a : UInt8) :
    isContinuation a = true ↔ 0x80 ≤ a.toNat ∧ a.toNat ≤ 0xBF := by
  have h := isContinuation_ofNat a.toNat_lt
  rw [UInt8.ofNat_toNat] at h
  simp [h]

theorem isSecond_iff (a b : UInt8) : isSecond a b = true ↔
    (0x80 ≤ b.toNat ∧ b.toNat ≤ 0xBF) ∧ if a.toNat = 0xE0 then 0xA0 ≤ b.toNat
      else if a.toNat = 0xED then b.toNat ≤ 0x9F else if a.toNat = 0xF0 then 0x90 ≤ b.toNat
      else if a.toNat = 0xF4 then b.toNat ≤ 0x8F else True := by
  have h := isSecond_ofNat a.toNat_lt b.toNat_lt
  rw [UInt8.ofNat_toNat, UInt8.ofNat_toNat] at h
  rw [h]
  split_ifs <;> simp

/-! ### Writing one character -/

theorem toNat_ofNat {n : Nat} (h : n.isValidChar) : (Char.ofNat n).toNat = n := by
  unfold Char.ofNat
  rw [dif_pos h]
  rfl

theorem byte_eq {n : Nat} {a : UInt8} (h : n = a.toNat) : UInt8.ofNat n = a := by
  rw [h, UInt8.ofNat_toNat]

theorem encode_one {a : UInt8} (ha : width a = 1) :
    String.utf8EncodeChar (Char.ofNat a.toNat) = [a] := by
  rw [width_eq] at ha
  have hlt : a.toNat < 0x80 := by grind
  have hn : (Char.ofNat a.toNat).val.toNat = a.toNat :=
    toNat_ofNat (.inl (by omega))
  unfold String.utf8EncodeChar
  simp only [hn]
  rw [if_pos (by omega)]
  simp

theorem encode_two {a b : UInt8} (ha : width a = 2) (hb : isSecond a b = true) :
    String.utf8EncodeChar (Char.ofNat (a.toNat % 32 * 64 + low b)) = [a, b] := by
  rw [width_eq] at ha
  rw [isSecond_iff] at hb
  have hlead : 0xC2 ≤ a.toNat ∧ a.toNat < 0xE0 := by grind
  obtain ⟨hb, -⟩ := hb
  have hn : (Char.ofNat (a.toNat % 32 * 64 + low b)).val.toNat = a.toNat % 32 * 64 + low b :=
    toNat_ofNat (.inl (by unfold low; omega))
  unfold String.utf8EncodeChar
  simp only [hn]
  unfold low at *
  rw [if_neg (by omega), if_pos (by omega), byte_eq (a := a) (by omega), byte_eq (a := b) (by omega)]

theorem encode_three {a b c : UInt8} (ha : width a = 3) (hb : isSecond a b = true)
    (hc : isContinuation c = true) :
    String.utf8EncodeChar (Char.ofNat ((a.toNat % 16 * 64 + low b) * 64 + low c)) = [a, b, c] := by
  rw [width_eq] at ha
  rw [isSecond_iff] at hb
  rw [isContinuation_iff] at hc
  have hlead : 0xE0 ≤ a.toNat ∧ a.toNat < 0xF0 := by grind
  obtain ⟨hb, hlow⟩ := hb
  have hsize : 0x800 ≤ (a.toNat % 16 * 64 + low b) * 64 + low c ∧
      ((a.toNat % 16 * 64 + low b) * 64 + low c < 0xD800 ∨
        0xDFFF < (a.toNat % 16 * 64 + low b) * 64 + low c) := by
    unfold low
    split_ifs at hlow <;> omega
  have hn : (Char.ofNat ((a.toNat % 16 * 64 + low b) * 64 + low c)).val.toNat =
      (a.toNat % 16 * 64 + low b) * 64 + low c := by
    refine toNat_ofNat ?_
    unfold Nat.isValidChar low at *
    omega
  unfold String.utf8EncodeChar
  simp only [hn]
  unfold low at *
  rw [if_neg (by omega), if_neg (by omega), if_pos (by omega), byte_eq (a := a) (by omega),
    byte_eq (a := b) (by omega), byte_eq (a := c) (by omega)]

theorem encode_four {a b c d : UInt8} (ha : width a = 4) (hb : isSecond a b = true)
    (hc : isContinuation c = true) (hd : isContinuation d = true) :
    String.utf8EncodeChar (Char.ofNat (((a.toNat % 8 * 64 + low b) * 64 + low c) * 64 + low d)) =
      [a, b, c, d] := by
  rw [width_eq] at ha
  rw [isSecond_iff] at hb
  rw [isContinuation_iff] at hc hd
  have hlead : 0xF0 ≤ a.toNat ∧ a.toNat < 0xF5 := by grind
  obtain ⟨hb, hlow⟩ := hb
  have hsize : 0x10000 ≤ ((a.toNat % 8 * 64 + low b) * 64 + low c) * 64 + low d ∧
      ((a.toNat % 8 * 64 + low b) * 64 + low c) * 64 + low d < 0x110000 := by
    unfold low
    split_ifs at hlow <;> omega
  have hn : (Char.ofNat (((a.toNat % 8 * 64 + low b) * 64 + low c) * 64 + low d)).val.toNat =
      ((a.toNat % 8 * 64 + low b) * 64 + low c) * 64 + low d := by
    refine toNat_ofNat ?_
    unfold Nat.isValidChar
    omega
  unfold String.utf8EncodeChar
  simp only [hn]
  unfold low at *
  rw [if_neg (by omega), if_neg (by omega), if_neg (by omega), byte_eq (a := a) (by omega),
    byte_eq (a := b) (by omega), byte_eq (a := c) (by omega), byte_eq (a := d) (by omega)]

theorem encode_cons (c : Char) (rest : List Char) :
    encode (c :: rest) = String.utf8EncodeChar c ++ encode rest := by
  rw [encode, List.flatMap_cons, encode]

/-! ### Whole texts -/

/-- **Writing undoes reading.** -/
theorem encode_of_decodeFrom {offset : Nat} {bytes : List UInt8} {text : List Char}
    (h : decodeFrom offset bytes = .ok text) : encode text = bytes := by
  fun_induction decodeFrom offset bytes generalizing text with
  | case1 =>
    obtain rfl : [] = text := by simpa using h
    rfl
  | case2 _ _ _ hwidth ih =>
    obtain ⟨rest, hrest, rfl⟩ := map_eq_ok.mp h
    rw [encode_cons, ih hrest, encode_one (by simpa using hwidth)]
    rfl
  | case6 _ _ _ _ _ _ hsecond hwidth ih =>
    obtain ⟨rest, hrest, rfl⟩ := map_eq_ok.mp h
    rw [encode_cons, ih hrest, encode_two (by simpa using hwidth) (by simpa using hsecond)]
    rfl
  | case9 _ _ _ _ _ hsecond _ _ _ hthird hwidth ih =>
    obtain ⟨rest, hrest, rfl⟩ := map_eq_ok.mp h
    rw [encode_cons, ih hrest, encode_three (by simpa using hwidth) (by simpa using hsecond)
      (by simpa using hthird)]
    rfl
  | case12 _ a hone hzero b hsecond htwo c hthird hthree d rest hfourth ih =>
    obtain ⟨rest, hrest, rfl⟩ := map_eq_ok.mp h
    have hwidth : width a = 4 := by
      rw [width_eq] at *
      grind
    rw [encode_cons, ih hrest, encode_four hwidth (by simpa using hsecond) (by simpa using hthird)
      (by simpa using hfourth)]
    rfl
  | case3 | case4 | case5 | case7 | case8 | case10 | case11 => cases h

theorem encode_of_decode {bytes : List UInt8} {text : List Char} (h : decode bytes = .ok text) :
    encode text = bytes :=
  encode_of_decodeFrom h

/-! ### Places between characters -/

theorem le_of_mem_utf8EncodeChar {c : Char} (h : 128 ≤ c.toNat) :
    ∀ byte ∈ String.utf8EncodeChar c, 128 ≤ byte.toNat := by
  have hvalid : c.toNat < 0xD800 ∨ 0xDFFF < c.toNat ∧ c.toNat < 0x110000 := c.valid
  have hlarge (n : Nat) (hle : 128 ≤ n) (hlt : n < 256) : 128 ≤ (UInt8.ofNat n).toNat := by
    simpa [Nat.mod_eq_of_lt hlt] using hle
  unfold String.utf8EncodeChar
  simp only [show c.val.toNat = c.toNat from rfl]
  rw [if_neg (by omega)]
  split
  · simp only [List.forall_mem_cons]
    refine ⟨hlarge _ ?_ ?_, hlarge _ ?_ ?_, List.forall_mem_nil _⟩ <;> omega
  split
  · simp only [List.forall_mem_cons]
    refine ⟨hlarge _ ?_ ?_, hlarge _ ?_ ?_, hlarge _ ?_ ?_, List.forall_mem_nil _⟩ <;> omega
  · simp only [List.forall_mem_cons]
    refine ⟨hlarge _ ?_ ?_, hlarge _ ?_ ?_, hlarge _ ?_ ?_, hlarge _ ?_ ?_,
      List.forall_mem_nil _⟩ <;> omega

/-- A byte of ASCII in the bytes of a character is all of them. -/
theorem utf8EncodeChar_of_ascii {c : Char} {byte : UInt8} (h : byte ∈ String.utf8EncodeChar c)
    (hascii : byte.toNat < 128) : String.utf8EncodeChar c = [byte] := by
  have hc : c.toNat < 128 := by
    by_contra hlarge
    have hle := le_of_mem_utf8EncodeChar (not_lt.mp hlarge) byte h
    omega
  have hone : String.utf8EncodeChar c = [UInt8.ofNat c.toNat] := if_pos (Nat.le_of_lt_succ hc)
  rw [hone, List.mem_singleton] at h
  rw [hone, h]

/-- On both sides of a byte of ASCII are places between characters. -/
theorem isBoundary_of_ascii {text : List Char} {k : Nat} {byte : UInt8}
    (h : (encode text)[k]? = some byte) (hascii : byte.toNat < 128) :
    IsBoundary text k ∧ IsBoundary text (k + 1) := by
  induction text generalizing k with
  | nil => simp [encode] at h
  | cons c rest ih =>
    rw [encode_cons] at h
    rcases lt_or_ge k (String.utf8EncodeChar c).length with hlt | hle
    · rw [List.getElem?_append_left hlt] at h
      have hsingle := utf8EncodeChar_of_ascii (List.mem_of_getElem? h) hascii
      rw [hsingle, List.length_singleton, Nat.lt_one_iff] at hlt
      subst hlt
      exact ⟨isBoundary_zero _, [c], rest, rfl, by simp [encode, hsingle]⟩
    · rw [List.getElem?_append_right hle] at h
      have hbehind {j : Nat} (hj : IsBoundary rest j) :
          IsBoundary (c :: rest) ((String.utf8EncodeChar c).length + j) := by
        obtain ⟨before, after, rfl, rfl⟩ := hj
        exact ⟨c :: before, after, rfl, by rw [encode_cons, List.length_append]⟩
      obtain ⟨hfirst, hsecond⟩ := ih h
      have hk := hbehind hfirst
      have hnext := hbehind hsecond
      rw [← Nat.add_assoc] at hnext
      rw [Nat.add_sub_cancel' hle] at hk hnext
      exact ⟨hk, hnext⟩

/-- A text whose bytes start with those of another starts with this one. -/
theorem exists_append_of_encode {text front : List Char} {rest : List UInt8}
    (h : encode text = encode front ++ rest) :
    ∃ back, text = front ++ back ∧ encode back = rest := by
  induction front generalizing text with
  | nil => exact ⟨text, rfl, h⟩
  | cons c front ih =>
    have hread := congrArg (decodeFrom 0) h
    rw [decodeFrom_encode, encode_cons, List.append_assoc, decodeFrom_char_append] at hread
    obtain ⟨chars, -, rfl⟩ := map_eq_ok.mp hread.symm
    rw [encode_cons, encode_cons, List.append_assoc, List.append_cancel_left_eq] at h
    obtain ⟨back, rfl, hback⟩ := ih h
    exact ⟨back, rfl, hback⟩

end FluentBuilder.Text.Utf8
