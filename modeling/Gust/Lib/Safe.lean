import Gust.Lib.Text

/-!
# Outcomes that are no panic

A panic is never caught, so a computation is safe if each of its steps is, for the values
that reach it (`Safe.bind`). The steps that can panic are indexing and slicing. A slice is
safe exactly at a boundary of the string (`safe_sliceTo_iff`, `safe_sliceFrom_iff`), however
many bytes the characters around it have.

The offset that a search returns is a boundary. The offset behind it is one if what was
found has one byte, as the ASCII delimiters have.
-/

namespace Gust.Lib

universe u

namespace Outcome

variable {ε ε' α β : Type u}

/-- A value or an error. -/
def Safe (x : Outcome ε α) : Prop := x ≠ panic

@[simp] theorem safe_ok (a : α) : (ok a : Outcome ε α).Safe := by simp [Safe]

@[simp] theorem safe_err (e : ε) : (err e : Outcome ε α).Safe := by simp [Safe]

@[simp] theorem not_safe_panic : ¬ (panic : Outcome ε α).Safe := fun h => h rfl

theorem Safe.bind {x : Outcome ε α} {f : α → Outcome ε β} (hx : x.Safe)
    (hf : ∀ a, x = ok a → (f a).Safe) : (x >>= f).Safe := by
  cases x with
  | ok a => exact hf a rfl
  | err e => exact safe_err e
  | panic => exact absurd rfl hx

@[simp] theorem safe_mapErr_iff {f : ε → ε'} {x : Outcome ε α} : (x.mapErr f).Safe ↔ x.Safe := by
  cases x <;> simp [mapErr]

@[simp] theorem safe_ofOption (e : ε) (x : Option α) : (ofOption e x).Safe := by
  cases x <;> simp [ofOption]

@[simp] theorem safe_expect_iff {x : Option α} :
    (expect x : Outcome ε α).Safe ↔ x.isSome = true := by
  cases x <;> simp [expect]

theorem safe_collect {f : α → Outcome ε β} (h : ∀ a, (f a).Safe) (as : List α) :
    (collect f as).Safe := by
  induction as with
  | nil => exact safe_ok []
  | cons a as ih =>
      refine (h a).bind fun b _ => ?_
      exact ih.bind fun bs _ => safe_ok (b :: bs)

theorem safe_forAll {f : α → Outcome ε PUnit} (h : ∀ a, (f a).Safe) (as : List α) :
    (forAll f as).Safe := by
  induction as with
  | nil => exact safe_ok _
  | cons a as ih => exact (h a).bind fun _ _ => ih

end Outcome

namespace Str

open String (utf8Len)
open Outcome

variable {ε β : Type} {s : Str} {i j : ℕ}

/-! ## Boundaries -/

/-- `i` is in range and not inside a character. -/
def IsBoundary (s : Str) (i : ℕ) : Prop := ∃ pre post, s = pre ++ post ∧ i = utf8Len pre

/-- A string can be split at its boundaries, and nowhere else. -/
theorem isSome_splitAtByte_iff : (splitAtByte s i).isSome = true ↔ IsBoundary s i := by
  constructor
  · intro h
    induction s generalizing i with
    | nil =>
        rw [splitAtByte] at h
        split at h
        · rename_i hi
          exact ⟨[], [], rfl, hi⟩
        · cases h
    | cons c s ih =>
        rw [splitAtByte] at h
        split at h
        · rename_i hi
          exact ⟨[], c :: s, rfl, hi⟩
        · split at h
          · rename_i hle
            rw [Option.isSome_map] at h
            obtain ⟨pre, post, rfl, hpre⟩ := ih h
            refine ⟨c :: pre, post, rfl, ?_⟩
            rw [String.utf8Len_cons]
            omega
          · cases h
  · rintro ⟨pre, post, rfl, rfl⟩
    rw [splitAtByte_append]
    rfl

theorem safe_sliceTo_iff : (sliceTo s i : Outcome ε Str).Safe ↔ IsBoundary s i := by
  rw [sliceTo, safe_expect_iff, Option.isSome_map, isSome_splitAtByte_iff]

example : (sliceTo "é:1".toList 1 : Outcome Unit Str) = .panic := by decide

theorem safe_sliceFrom_iff : (sliceFrom s i : Outcome ε Str).Safe ↔ IsBoundary s i := by
  rw [sliceFrom, safe_expect_iff, Option.isSome_map, isSome_splitAtByte_iff]

/-- A boundary is still one if the string is cut off behind it. -/
theorem isBoundary_of_le {pre post : Str} (h : IsBoundary (pre ++ post) i)
    (hle : i ≤ utf8Len pre) : IsBoundary pre i := by
  obtain ⟨a, b, hab, rfl⟩ := h
  rcases List.append_eq_append_iff.mp hab with ⟨c, rfl, -⟩ | ⟨c, rfl, -⟩
  · rw [String.utf8Len_append] at hle ⊢
    have hc : utf8Len c = 0 := by omega
    exact ⟨pre, [], (List.append_nil pre).symm, by rw [hc, Nat.add_zero]⟩
  · exact ⟨a, c, rfl, rfl⟩

theorem safe_slice (hi : IsBoundary s i) (hj : IsBoundary s j) (hij : i ≤ j) :
    (slice s i j : Outcome ε Str).Safe := by
  obtain ⟨pre, post, rfl, rfl⟩ := hj
  rw [slice, if_pos hij, sliceTo_append, ok_bind, safe_sliceFrom_iff]
  exact isBoundary_of_le hi hij

theorem isBoundary_utf8Len (s : Str) : IsBoundary s (utf8Len s) :=
  ⟨s, [], (List.append_nil s).symm, rfl⟩

theorem isBoundary_one {c : Char} (hc : c.utf8Size = 1) (h : s.head? = some c) :
    IsBoundary s 1 := by
  cases s with
  | nil => cases h
  | cons d s =>
      obtain rfl : d = c := Option.some.inj h
      refine ⟨[d], s, rfl, ?_⟩
      rw [String.utf8Len_cons, hc]
      rfl

/-! ## Around what was found -/

/-- A delimiter of one byte has a boundary on either side. -/
theorem isBoundary_around {pre post : Str} {c : Char} (hc : c.utf8Size = 1) :
    IsBoundary (pre ++ c :: post) (utf8Len pre) ∧
      IsBoundary (pre ++ c :: post) (utf8Len pre + 1) := by
  refine ⟨⟨pre, c :: post, rfl, rfl⟩, pre ++ [c], post, by simp, ?_⟩
  rw [String.utf8Len_append, String.utf8Len_cons, hc]
  rfl

theorem isBoundary_of_find {p : Char → Bool} (h : find p s = some i) : IsBoundary s i := by
  obtain ⟨pre, c, post, hs, hi, -, -⟩ := find_eq_some_iff.mp h
  exact ⟨pre, c :: post, hs, hi⟩

theorem isBoundary_around_of_find {d : Char} (hd : d.utf8Size = 1)
    (h : find (· == d) s = some i) : IsBoundary s i ∧ IsBoundary s (i + 1) := by
  obtain ⟨pre, post, rfl, rfl, -⟩ := find_delim_iff.mp h
  exact isBoundary_around hd

theorem isBoundary_around_of_rfind {d : Char} (hd : d.utf8Size = 1)
    (h : rfind (· == d) s = some i) : IsBoundary s i ∧ IsBoundary s (i + 1) := by
  obtain ⟨pre, post, rfl, rfl, -⟩ := rfind_delim_iff.mp h
  exact isBoundary_around hd

/-- A search goes past a first character that does not match. -/
theorem pos_of_find {p : Char → Bool} {c : Char} (hhead : s.head? = some c) (hc : p c = false)
    (h : find p s = some i) : 0 < i := by
  obtain ⟨pre, d, post, rfl, rfl, hd, -⟩ := find_eq_some_iff.mp h
  cases pre with
  | nil =>
      obtain rfl : d = c := Option.some.inj hhead
      rw [hc] at hd
      cases hd
  | cons e pre =>
      have hsize := e.utf8Size_pos
      rw [String.utf8Len_cons]
      omega

/-- The boundaries of a pattern that was found. -/
theorem isBoundary_of_findStr {pat : Str} (hpat : pat ≠ []) (h : findStr pat s = some i) :
    IsBoundary s i ∧ IsBoundary s (i + utf8Len pat) := by
  obtain ⟨pre, post, rfl, rfl, -⟩ := findStr_eq_some hpat h
  refine ⟨⟨pre, pat ++ post, rfl, rfl⟩, pre ++ pat, post, ?_, ?_⟩
  · rw [List.append_assoc]
  · rw [String.utf8Len_append]

/-- Going on with what stands on either side of a delimiter. -/
theorem safe_around {f : Str → Str → Outcome ε β} (h : IsBoundary s i ∧ IsBoundary s (i + 1))
    (hf : ∀ before behind, (f before behind).Safe) :
    (do
      let before ← sliceTo s i
      let behind ← sliceFrom s (i + 1)
      f before behind).Safe := by
  refine (safe_sliceTo_iff.mpr h.1).bind fun before _ => ?_
  exact (safe_sliceFrom_iff.mpr h.2).bind fun behind _ => hf before behind

end Str
end Gust.Lib
