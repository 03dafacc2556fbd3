import Gust.Lib.Text

/-!
# Lossy decoding of valid UTF-8

Lossy decoding replaces what is not valid; what is valid it leaves alone. So the bytes of
a string decode to that string (`fromUtf8Lossy_asBytes`), and decoding loses nothing
exactly on the byte sequences that are the UTF-8 form of some string
(`asBytes_fromUtf8Lossy_iff`).

The proof goes by the width of a character. Each byte of its form is a constant plus a
few bits of the code point, and what the decoder asks of such a byte is settled by
running through those bits.
-/

namespace Gust.Lib.Str

/-! ## The bytes of a form -/

theorem isContinuation_ofNat : ∀ x < 64, isContinuation (UInt8.ofNat (x + 128)) = true := by
  decide

theorem payload_ofNat : ∀ x < 64, payload (UInt8.ofNat (x + 128)) = x := by
  decide

theorem charWidth_ofNat_one : ∀ x < 128, charWidth (UInt8.ofNat x) = 1 := by
  decide

theorem charWidth_ofNat_two : ∀ x < 32, 2 ≤ x → charWidth (UInt8.ofNat (x + 192)) = 2 ∧
    (UInt8.ofNat (x + 192) &&& 0x1F).toNat = x := by
  decide

theorem charWidth_ofNat_three : ∀ x < 16, charWidth (UInt8.ofNat (x + 224)) = 3 ∧
    (UInt8.ofNat (x + 224) &&& 0x0F).toNat = x := by
  decide

theorem charWidth_ofNat_four : ∀ x < 5, charWidth (UInt8.ofNat (x + 240)) = 4 ∧
    (UInt8.ofNat (x + 240) &&& 0x07).toNat = x := by
  decide

/-- The second byte of a three-byte form is neither overlong nor half of a surrogate. -/
theorem isSecondByte_ofNat_three : ∀ x < 16, ∀ y < 64, (x = 0 → 32 ≤ y) → (x = 13 → y < 32) →
    isSecondByte (UInt8.ofNat (x + 224)) (UInt8.ofNat (y + 128)) = true := by
  decide +kernel

/-- The second byte of a four-byte form is neither overlong nor beyond the last code point. -/
theorem isSecondByte_ofNat_four : ∀ x < 5, ∀ y < 64, (x = 0 → 16 ≤ y) → (x = 4 → y < 16) →
    isSecondByte (UInt8.ofNat (x + 240)) (UInt8.ofNat (y + 128)) = true := by
  decide +kernel

/-! ## One character -/

/-- The form of a character decodes to that character, whatever follows it. -/
theorem decodeChar_utf8EncodeChar (c : Char) (rest : List UInt8) :
    ∃ b tail, String.utf8EncodeChar c = b :: tail ∧ decodeChar b (tail ++ rest) = (c, rest) := by
  have hvalid : c.val.toNat < 0xD800 ∨ 0xDFFF < c.val.toNat ∧ c.val.toNat < 0x110000 := c.valid
  have hc : Char.ofNat c.val.toNat = c := c.ofNat_toNat
  generalize hv : c.val.toNat = v at hvalid hc
  simp only [String.utf8EncodeChar, hv]
  by_cases h1 : v ≤ 0x7f
  · have hv256 : v % 256 = v := Nat.mod_eq_of_lt (by omega)
    refine ⟨UInt8.ofNat v, [], if_pos h1, ?_⟩
    simp [decodeChar, charWidth_ofNat_one v (by omega), hv256, hc]
  · rw [if_neg h1]
    by_cases h2 : v ≤ 0x7ff
    · rw [if_pos h2]
      refine ⟨_, _, rfl, ?_⟩
      obtain ⟨hwidth, hbits⟩ := charWidth_ofNat_two (v / 64 % 32) (by omega) (by omega)
      have hsum : v / 64 % 32 * 64 + v % 64 = v := by omega
      simp only [decodeChar, List.cons_append, List.nil_append, hwidth, hbits,
        isContinuation_ofNat (v % 64) (by omega), payload_ofNat (v % 64) (by omega), if_true, hsum,
        hc]
    · rw [if_neg h2]
      by_cases h3 : v ≤ 0xffff
      · rw [if_pos h3]
        refine ⟨_, _, rfl, ?_⟩
        obtain ⟨hwidth, hbits⟩ := charWidth_ofNat_three (v / 4096 % 16) (by omega)
        have hsecond := isSecondByte_ofNat_three (v / 4096 % 16) (by omega) (v / 64 % 64) (by omega)
          (by omega) (by omega)
        have hsum : (v / 4096 % 16 * 64 + v / 64 % 64) * 64 + v % 64 = v := by omega
        simp only [decodeChar, List.cons_append, List.nil_append, hwidth, hbits, hsecond,
          isContinuation_ofNat (v % 64) (by omega), payload_ofNat (v / 64 % 64) (by omega),
          payload_ofNat (v % 64) (by omega), if_true, hsum, hc]
      · rw [if_neg h3]
        refine ⟨_, _, rfl, ?_⟩
        obtain ⟨hwidth, hbits⟩ := charWidth_ofNat_four (v / 262144 % 8) (by omega)
        have hsecond := isSecondByte_ofNat_four (v / 262144 % 8) (by omega) (v / 4096 % 64)
          (by omega) (by omega) (by omega)
        have hsum : ((v / 262144 % 8 * 64 + v / 4096 % 64) * 64 + v / 64 % 64) * 64 + v % 64 = v := by
          omega
        simp only [decodeChar, List.cons_append, List.nil_append, hwidth, hbits, hsecond,
          isContinuation_ofNat (v / 64 % 64) (by omega), isContinuation_ofNat (v % 64) (by omega),
          payload_ofNat (v / 4096 % 64) (by omega), payload_ofNat (v / 64 % 64) (by omega),
          payload_ofNat (v % 64) (by omega), if_true, hsum, hc]

/-! ## Strings -/

@[simp] theorem asBytes_nil : asBytes [] = [] := rfl

theorem asBytes_cons (c : Char) (s : Str) :
    asBytes (c :: s) = String.utf8EncodeChar c ++ asBytes s := rfl

theorem asBytes_append (s t : Str) : asBytes (s ++ t) = asBytes s ++ asBytes t :=
  List.flatMap_append

theorem fromUtf8LossyGo_asBytes {s : Str} {fuel : ℕ} (h : (asBytes s).length ≤ fuel) :
    fromUtf8LossyGo fuel (asBytes s) = s := by
  induction s generalizing fuel with
  | nil => cases fuel <;> rfl
  | cons c s ih =>
      obtain ⟨b, tail, hform, hdecode⟩ := decodeChar_utf8EncodeChar c (asBytes s)
      rw [asBytes_cons, hform, List.cons_append] at h ⊢
      rw [List.length_cons, List.length_append] at h
      obtain ⟨fuel, rfl⟩ : ∃ n, fuel = n + 1 := ⟨fuel - 1, by omega⟩
      rw [fromUtf8LossyGo, hdecode, ih (by omega)]

/-- **Decoding undoes encoding.** -/
@[simp] theorem fromUtf8Lossy_asBytes (s : Str) : fromUtf8Lossy (asBytes s) = s :=
  fromUtf8LossyGo_asBytes le_rfl

/-- Lossy decoding loses nothing exactly on valid UTF-8. -/
theorem asBytes_fromUtf8Lossy_iff {bs : List UInt8} :
    asBytes (fromUtf8Lossy bs) = bs ↔ ∃ s, bs = asBytes s := by
  constructor
  · intro h
    exact ⟨_, h.symm⟩
  · rintro ⟨s, rfl⟩
    rw [fromUtf8Lossy_asBytes]

/-! ## ASCII -/

theorem toNat_ofNat_of_ascii : ∀ n < 128, (Char.ofNat n).toNat = n := by
  decide

theorem utf8EncodeChar_of_ascii {c : Char} (h : c.toNat < 128) :
    String.utf8EncodeChar c = [UInt8.ofNat c.toNat] := by
  have hle : c.val.toNat ≤ 0x7f := by
    rw [Char.toNat_val]
    omega
  rw [String.utf8EncodeChar]
  exact if_pos hle

/-- A byte below 128 stands for itself: no part of a longer form is ASCII. -/
theorem mem_of_mem_asBytes {s : Str} {b : UInt8} (hb : b.toNat < 128) (h : b ∈ asBytes s) :
    Char.ofNat b.toNat ∈ s := by
  obtain ⟨c, hc, hmem⟩ := List.mem_flatMap.mp h
  by_cases hascii : c.toNat < 128
  · rw [utf8EncodeChar_of_ascii hascii, List.mem_singleton] at hmem
    have hbc : b.toNat = c.toNat := by
      rw [hmem, UInt8.toNat_ofNat', Nat.mod_eq_of_lt (by omega)]
    rw [hbc, Char.ofNat_toNat]
    exact hc
  · -- every byte of a longer form is a residue plus at least 128
    have hge : ∀ x y, 128 ≤ y → x + y < 256 → b = UInt8.ofNat (x + y) → False := by
      rintro x y hy hlt rfl
      rw [UInt8.toNat_ofNat', Nat.mod_eq_of_lt hlt] at hb
      omega
    exfalso
    rw [← Char.toNat_val] at hascii
    simp only [String.utf8EncodeChar] at hmem
    generalize c.val.toNat = v at hascii hmem
    rw [if_neg (by omega)] at hmem
    by_cases h2 : v ≤ 0x7ff
    · simp only [if_pos h2, List.mem_cons, List.not_mem_nil, or_false] at hmem
      obtain h | h := hmem <;> exact hge _ _ (by decide) (by omega) h
    · by_cases h3 : v ≤ 0xffff
      · simp only [if_neg h2, if_pos h3, List.mem_cons, List.not_mem_nil, or_false] at hmem
        obtain h | h | h := hmem <;> exact hge _ _ (by decide) (by omega) h
      · simp only [if_neg h2, if_neg h3, List.mem_cons, List.not_mem_nil, or_false] at hmem
        obtain h | h | h | h := hmem <;> exact hge _ _ (by decide) (by omega) h

end Gust.Lib.Str
