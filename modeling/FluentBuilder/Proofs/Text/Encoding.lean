import FluentBuilder.Text.Utf8
import Mathlib.Tactic

/-!
# Characters as bytes, and back

`decode_encode`: the bytes of a text are read back as this text. A character is written in one to
four bytes by the size of its number, so reading it back is a case for each of the four, in which
the bounds on the number give the bounds on the bytes (`decodeFrom_char_append`).

A place between two characters (`IsBoundary`) cuts the bytes of a text into the bytes of two
texts, so what lies between two such places is again the bytes of a text
(`IsBoundary.exists_slice`).
-/

namespace FluentBuilder.Text.Utf8

theorem encode_append (a b : List Char) : encode (a ++ b) = encode a ++ encode b :=
  List.flatMap_append

/-! ### Bytes by their numbers -/

theorem width_ofNat {n : Nat} (h : n < 256) :
    width (UInt8.ofNat n) =
      if n < 0x80 then 1 else if n < 0xC2 then 0 else if n < 0xE0 then 2 else if n < 0xF0 then 3
      else if n < 0xF5 then 4 else 0 := by
  have hn : (UInt8.ofNat n).toNat = n := by simp [Nat.mod_eq_of_lt h]
  simp only [width, UInt8.lt_iff_toNat_lt, hn]
  rfl

theorem isContinuation_ofNat {n : Nat} (h : n < 256) :
    isContinuation (UInt8.ofNat n) = (0x80 ≤ n && n ≤ 0xBF) := by
  have hn : (UInt8.ofNat n).toNat = n := by simp [Nat.mod_eq_of_lt h]
  simp only [isContinuation, UInt8.le_iff_toNat_le, hn]
  rfl

theorem isSecond_ofNat {m n : Nat} (hm : m < 256) (h : n < 256) :
    isSecond (UInt8.ofNat m) (UInt8.ofNat n) = (((0x80 ≤ n && n ≤ 0xBF)) &&
      if m = 0xE0 then 0xA0 ≤ n else if m = 0xED then n ≤ 0x9F else if m = 0xF0 then 0x90 ≤ n
      else if m = 0xF4 then n ≤ 0x8F else true) := by
  have hn : (UInt8.ofNat n).toNat = n := by simp [Nat.mod_eq_of_lt h]
  have hm : (UInt8.ofNat m).toNat = m := by simp [Nat.mod_eq_of_lt hm]
  simp only [isSecond, isContinuation_ofNat h, UInt8.le_iff_toNat_le, hn, beq_iff_eq,
    ← UInt8.toNat_inj, hm]
  rfl

theorem low_ofNat {n : Nat} (h : n < 256) : low (UInt8.ofNat n) = n % 64 := by
  simp [low, Nat.mod_eq_of_lt h]

/-! ### Reading one character -/

theorem decodeFrom_one {a : UInt8} (offset : Nat) (rest : List UInt8) (ha : width a = 1) :
    decodeFrom offset (a :: rest) =
      (decodeFrom (offset + 1) rest).map (Char.ofNat a.toNat :: ·) := by
  rw [decodeFrom.eq_def]
  simp [ha]

theorem decodeFrom_two {a b : UInt8} (offset : Nat) (rest : List UInt8) (ha : width a = 2)
    (hb : isSecond a b = true) :
    decodeFrom offset (a :: b :: rest) =
      (decodeFrom (offset + 2) rest).map (Char.ofNat (a.toNat % 32 * 64 + low b) :: ·) := by
  rw [decodeFrom.eq_def]
  simp [ha, hb]

theorem decodeFrom_three {a b c : UInt8} (offset : Nat) (rest : List UInt8) (ha : width a = 3)
    (hb : isSecond a b = true) (hc : isContinuation c = true) :
    decodeFrom offset (a :: b :: c :: rest) =
      (decodeFrom (offset + 3) rest).map
        (Char.ofNat ((a.toNat % 16 * 64 + low b) * 64 + low c) :: ·) := by
  rw [decodeFrom.eq_def]
  simp [ha, hb, hc]

theorem decodeFrom_four {a b c d : UInt8} (offset : Nat) (rest : List UInt8) (ha : width a = 4)
    (hb : isSecond a b = true) (hc : isContinuation c = true) (hd : isContinuation d = true) :
    decodeFrom offset (a :: b :: c :: d :: rest) =
      (decodeFrom (offset + 4) rest).map
        (Char.ofNat (((a.toNat % 8 * 64 + low b) * 64 + low c) * 64 + low d) :: ·) := by
  rw [decodeFrom.eq_def]
  simp [ha, hb, hc, hd]

/-- Reading goes over the bytes of a character and gives it. -/
theorem decodeFrom_char_append (offset : Nat) (c : Char) (rest : List UInt8) :
    decodeFrom offset (String.utf8EncodeChar c ++ rest) =
      (decodeFrom (offset + (String.utf8EncodeChar c).length) rest).map (c :: ·) := by
  have hvalid : c.toNat < 0xD800 ∨ 0xDFFF < c.toNat ∧ c.toNat < 0x110000 := c.valid
  have hof : ∀ n, n = c.toNat → Char.ofNat n = c := fun n h => h ▸ Char.ofNat_toNat c
  have hbyte : ∀ n, n < 256 → (UInt8.ofNat n).toNat = n := fun n h => by
    simp [Nat.mod_eq_of_lt h]
  unfold String.utf8EncodeChar
  simp only [show c.val.toNat = c.toNat from rfl]
  split
  · rw [List.cons_append, List.nil_append, decodeFrom_one, hof]
    · rfl
    · rw [hbyte _ (by omega)]
    · rw [width_ofNat (by omega), if_pos (by omega)]
  · split
    · rw [List.cons_append, List.cons_append, List.nil_append, decodeFrom_two, hof]
      · rfl
      · rw [hbyte _ (by omega), low_ofNat (by omega)]
        omega
      · rw [width_ofNat (by omega)]
        grind
      · rw [isSecond_ofNat (by omega) (by omega)]
        grind
    · split
      · simp only [List.cons_append, List.nil_append]
        rw [decodeFrom_three, hof]
        · rfl
        · rw [hbyte _ (by omega), low_ofNat (by omega), low_ofNat (by omega)]
          omega
        · rw [width_ofNat (by omega)]
          grind
        · rw [isSecond_ofNat (by omega) (by omega)]
          grind
        · rw [isContinuation_ofNat (by omega)]
          grind
      · simp only [List.cons_append, List.nil_append]
        rw [decodeFrom_four, hof]
        · rfl
        · rw [hbyte _ (by omega), low_ofNat (by omega), low_ofNat (by omega), low_ofNat (by omega)]
          omega
        · rw [width_ofNat (by omega)]
          grind
        · rw [isSecond_ofNat (by omega) (by omega)]
          grind
        · rw [isContinuation_ofNat (by omega)]
          grind
        · rw [isContinuation_ofNat (by omega)]
          grind

/-! ### Whole texts -/

theorem decodeFrom_encode (offset : Nat) (text : List Char) :
    decodeFrom offset (encode text) = .ok text := by
  induction text generalizing offset with
  | nil => rfl
  | cons c rest ih =>
    rw [encode, List.flatMap_cons, decodeFrom_char_append]
    have h := ih (offset + (String.utf8EncodeChar c).length)
    rw [encode] at h
    rw [h]
    rfl

/-- **Reading undoes writing.** -/
theorem decode_encode (text : List Char) : decode (encode text) = .ok text :=
  decodeFrom_encode 0 text

/-! ### Places between characters -/

/-- The offset lies between two characters of a text, or at one of its ends. -/
def IsBoundary (text : List Char) (offset : Nat) : Prop :=
  ∃ before after, text = before ++ after ∧ (encode before).length = offset

theorem IsBoundary.le_length {text : List Char} {offset : Nat} (h : IsBoundary text offset) :
    offset ≤ (encode text).length := by
  obtain ⟨before, after, rfl, rfl⟩ := h
  rw [encode_append, List.length_append]
  omega

theorem isBoundary_zero (text : List Char) : IsBoundary text 0 := ⟨[], text, rfl, rfl⟩

theorem IsBoundary.exists_drop {text : List Char} {offset : Nat} (h : IsBoundary text offset) :
    ∃ after, (encode text).drop offset = encode after := by
  obtain ⟨before, after, rfl, rfl⟩ := h
  exact ⟨after, by rw [encode_append, List.drop_left]⟩

/-- Between two places between characters stand the bytes of a text. -/
theorem IsBoundary.exists_slice {text : List Char} {i j : Nat} (hi : IsBoundary text i)
    (hj : IsBoundary text j) (hij : i ≤ j) :
    ∃ mid, (encode text).take j = (encode text).take i ++ encode mid := by
  obtain ⟨before, after, rfl, rfl⟩ := hi
  obtain ⟨before', after', h', rfl⟩ := hj
  rw [h', encode_append before', List.take_left, ← encode_append, ← h', encode_append, List.take_left]
  rcases List.append_eq_append_iff.mp h' with ⟨mid, rfl, -⟩ | ⟨mid, rfl, -⟩
  · exact ⟨mid, encode_append before mid⟩
  · rw [encode_append, List.length_append] at hij
    have hmid : encode mid = [] := List.length_eq_zero_iff.mp (by omega)
    exact ⟨[], by rw [encode_append, hmid, List.append_nil]; simp [encode]⟩

end FluentBuilder.Text.Utf8
