import Gust.Lib.Utf8

/-!
# Percent-encoding

`percentDecode` reads escapes from left to right in a byte sequence: a `%` with two
hexadecimal digits behind it stands for one byte, and everything else, a stray `%`
included, stands for itself. `percentEncode` escapes the bytes of a string that are not
unreserved, and decoding gives those bytes back.
-/

namespace Gust.Lib.Str

/-- The value of a byte that is a hexadecimal digit. -/
def hexByte (b : UInt8) : Option ℕ := hexDigit (Char.ofNat b.toNat)

/-- Replace each escape by the byte it stands for. -/
def percentDecode : List UInt8 → List UInt8
  | b :: hi :: lo :: rest =>
      if b = 0x25 then
        match hexByte hi, hexByte lo with
        | some h, some l => UInt8.ofNat (h * 16 + l) :: percentDecode rest
        | _, _ => b :: percentDecode (hi :: lo :: rest)
      else b :: percentDecode (hi :: lo :: rest)
  | bs => bs

theorem percentDecode_cons_of_ne {b : UInt8} (h : b ≠ 0x25) (rest : List UInt8) :
    percentDecode (b :: rest) = b :: percentDecode rest := by
  match rest with
  | [] => rfl
  | [_] => rfl
  | _ :: _ :: _ => rw [percentDecode, if_neg h]

/-- An escape needs two bytes behind it. -/
theorem percentDecode_cons_of_length_lt (b : UInt8) {rest : List UInt8} (h : rest.length < 2) :
    percentDecode (b :: rest) = b :: percentDecode rest := by
  match rest with
  | [] => rfl
  | [_] => rfl
  | _ :: _ :: _ =>
      simp only [List.length_cons] at h
      omega

theorem percentDecode_eq_self {bs : List UInt8} (h : 0x25 ∉ bs) : percentDecode bs = bs := by
  induction bs with
  | nil => rfl
  | cons b bs ih =>
      rw [List.mem_cons, not_or] at h
      rw [percentDecode_cons_of_ne (Ne.symm h.1), ih h.2]

/-! ## Encoding -/

/-- Letters, digits, hyphen, full stop, underscore and tilde. -/
def isUnreserved (c : Char) : Bool :=
  c.isAlphanum || c == '-' || c == '.' || c == '_' || c == '~'

def hexChar (n : ℕ) : Char := (Nat.digitChar n).toUpper

def percentEncodeByte (b : UInt8) : Str :=
  if b.toNat < 128 && isUnreserved (Char.ofNat b.toNat) then [Char.ofNat b.toNat]
  else ['%', hexChar (b.toNat / 16), hexChar (b.toNat % 16)]

def percentEncode (s : Str) : Str := (asBytes s).flatMap percentEncodeByte

theorem hexChar_spec : ∀ n < 16, (hexChar n).toNat < 128 ∧ hexDigit (hexChar n) = some n ∧
    isUnreserved (hexChar n) = true := by
  decide

theorem hexByte_hexChar {n : ℕ} (hn : n < 16) :
    String.utf8EncodeChar (hexChar n) = [UInt8.ofNat (hexChar n).toNat] ∧
      hexByte (UInt8.ofNat (hexChar n).toNat) = some n := by
  obtain ⟨hlt, hdigit, -⟩ := hexChar_spec n hn
  refine ⟨utf8EncodeChar_of_ascii hlt, ?_⟩
  rw [hexByte, UInt8.toNat_ofNat', Nat.mod_eq_of_lt (by omega), Char.ofNat_toNat, hdigit]

/-- An encoded byte is read back. -/
theorem percentDecode_percentEncodeByte (b : UInt8) (rest : List UInt8) :
    percentDecode (asBytes (percentEncodeByte b) ++ rest) = b :: percentDecode rest := by
  have hb := b.toNat_lt
  by_cases hun : (b.toNat < 128 && isUnreserved (Char.ofNat b.toNat)) = true
  · rw [percentEncodeByte, if_pos hun]
    rw [Bool.and_eq_true, decide_eq_true_eq] at hun
    have hchar : (Char.ofNat b.toNat).toNat = b.toNat := toNat_ofNat_of_ascii _ hun.1
    have hbytes : asBytes [Char.ofNat b.toNat] = [b] := by
      rw [asBytes_cons, asBytes_nil, utf8EncodeChar_of_ascii (by omega), hchar, UInt8.ofNat_toNat]
      rfl
    have hne : b ≠ 0x25 := by
      rintro rfl
      exact absurd hun.2 (by decide)
    rw [hbytes, List.singleton_append, percentDecode_cons_of_ne hne]
  · rw [percentEncodeByte, if_neg hun]
    obtain ⟨hhi, hhexhi⟩ := @hexByte_hexChar (b.toNat / 16) (by omega)
    obtain ⟨hlo, hhexlo⟩ := @hexByte_hexChar (b.toNat % 16) (by omega)
    have hpercent : String.utf8EncodeChar '%' = [0x25] := rfl
    have hsum : b.toNat / 16 * 16 + b.toNat % 16 = b.toNat := by omega
    simp only [asBytes_cons, asBytes_nil, hpercent, hhi, hlo, List.cons_append, List.nil_append,
      percentDecode, if_true, hhexhi, hhexlo, hsum, UInt8.ofNat_toNat]

/-- **Decoding undoes encoding.** -/
theorem percentDecode_percentEncode (s : Str) :
    percentDecode (asBytes (percentEncode s)) = asBytes s := by
  have hall : ∀ bs : List UInt8, percentDecode (asBytes (bs.flatMap percentEncodeByte)) = bs := by
    intro bs
    induction bs with
    | nil => rfl
    | cons b bs ih =>
        rw [List.flatMap_cons, asBytes_append, percentDecode_percentEncodeByte, ih]
  exact hall (asBytes s)

/-- What an encoded string is made of. -/
theorem unreserved_of_mem_percentEncode {s : Str} {c : Char} (h : c ∈ percentEncode s) :
    c = '%' ∨ isUnreserved c = true := by
  obtain ⟨b, -, hc⟩ := List.mem_flatMap.mp h
  have hb := b.toNat_lt
  by_cases hun : (b.toNat < 128 && isUnreserved (Char.ofNat b.toNat)) = true
  · rw [percentEncodeByte, if_pos hun, List.mem_singleton] at hc
    rw [Bool.and_eq_true] at hun
    exact .inr (hc ▸ hun.2)
  · rw [percentEncodeByte, if_neg hun] at hc
    simp only [List.mem_cons, List.not_mem_nil, or_false] at hc
    obtain rfl | rfl | rfl := hc
    · exact .inl rfl
    · exact .inr (hexChar_spec _ (by omega)).2.2
    · exact .inr (hexChar_spec _ (by omega)).2.2

end Gust.Lib.Str
