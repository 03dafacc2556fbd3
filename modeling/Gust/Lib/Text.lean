import Mathlib.Data.List.Forall2
import Mathlib.Data.String.Basic

/-!
# Strings indexed by byte, and results that may panic

A `Str` is a sequence of Unicode scalar values. Lengths and indices are counted in
bytes of its UTF-8 form, as a systems language counts them, so that a search
returns a byte offset and a slice at an offset inside a character is a panic rather
than a shorter string. `Outcome` keeps the three ways a function can end apart: a
value, an error the caller handles, and a panic.

The lemmas that proofs use speak of concatenation instead of offsets. A search
splits the string around what it found (`find_eq_some_iff`, `rfind_eq_some_iff`),
and slicing at the length of a prefix gives the prefix back (`splitAtByte_append`).

## Main definitions

* `Outcome ε α` — a value, an error or a panic.
* `Str.find`, `Str.rfind`, `Str.findStr` — byte offsets of a match.
* `Str.sliceTo`, `Str.sliceFrom`, `Str.slice` — panicking slices.
* `Str.parseUnsigned` — the decimal parser of the unsigned machine integers.
* `Str.fromUtf8Lossy` — decoding that replaces each maximal invalid run.
-/

namespace Gust.Lib

universe u

/-- How a function that may fail, or panic, ends. -/
inductive Outcome (ε α : Type u)
  | ok (a : α)
  | err (e : ε)
  | panic
  deriving DecidableEq, Repr

namespace Outcome

variable {ε ε' α β : Type u}

def bind (x : Outcome ε α) (f : α → Outcome ε β) : Outcome ε β :=
  match x with
  | ok a => f a
  | err e => err e
  | panic => panic

instance : Monad (Outcome ε) where
  pure := ok
  bind := bind

/-- Replace the error, as `map_err` does. -/
def mapErr (f : ε → ε') : Outcome ε α → Outcome ε' α
  | ok a => ok a
  | err e => err (f e)
  | panic => panic

/-- The error to report for a missing value, as `ok_or` does. -/
def ofOption (e : ε) : Option α → Outcome ε α
  | some a => ok a
  | none => err e

/-- The value, or a panic, as `expect` and indexing do. -/
def expect : Option α → Outcome ε α
  | some a => ok a
  | none => panic

@[simp] theorem pure_eq_ok (a : α) : (pure a : Outcome ε α) = ok a := rfl
@[simp] theorem ok_bind (a : α) (f : α → Outcome ε β) : (ok a >>= f) = f a := rfl
@[simp] theorem err_bind (e : ε) (f : α → Outcome ε β) : (err e >>= f) = err e := rfl
@[simp] theorem panic_bind (f : α → Outcome ε β) : ((panic : Outcome ε α) >>= f) = panic := rfl

theorem bind_eq_ok_iff {x : Outcome ε α} {f : α → Outcome ε β} {b : β} :
    (x >>= f) = ok b ↔ ∃ a, x = ok a ∧ f a = ok b := by
  cases x <;> simp

@[simp] theorem mapErr_eq_ok_iff {f : ε → ε'} {x : Outcome ε α} {a : α} :
    x.mapErr f = ok a ↔ x = ok a := by
  cases x <;> simp [mapErr]

@[simp] theorem ofOption_eq_ok_iff {e : ε} {x : Option α} {a : α} :
    ofOption e x = ok a ↔ x = some a := by
  cases x <;> simp [ofOption]

@[simp] theorem expect_eq_ok_iff {x : Option α} {a : α} :
    (expect x : Outcome ε α) = ok a ↔ x = some a := by
  cases x <;> simp [expect]

/-- A loop that pushes one result per input, leaving at the first failure. -/
def collect (f : α → Outcome ε β) : List α → Outcome ε (List β)
  | [] => ok []
  | a :: as => do
      let b ← f a
      let bs ← collect f as
      pure (b :: bs)

/-- A loop that only checks leaves at the first failure, too. -/
def forAll (f : α → Outcome ε PUnit) : List α → Outcome ε PUnit
  | [] => ok ⟨⟩
  | a :: as => do
      f a
      forAll f as

theorem collect_eq_ok_iff {f : α → Outcome ε β} {as : List α} {bs : List β} :
    collect f as = ok bs ↔ List.Forall₂ (fun a b => f a = ok b) as bs := by
  induction as generalizing bs with
  | nil => cases bs <;> simp [collect, List.forall₂_nil_left_iff]
  | cons a as ih =>
      cases bs with
      | nil => simp [collect, bind_eq_ok_iff, List.forall₂_nil_right_iff]
      | cons b bs => simp [collect, bind_eq_ok_iff, ih]

/-- Everything collected comes from one of the inputs. -/
theorem exists_mem_of_forall₂ {R : α → β → Prop} {as : List α} {bs : List β}
    (h : List.Forall₂ R as bs) {b : β} (hb : b ∈ bs) : ∃ a ∈ as, R a b := by
  induction h with
  | nil => simp at hb
  | cons hab _ ih =>
      rcases List.mem_cons.mp hb with rfl | hb
      · exact ⟨_, List.mem_cons_self, hab⟩
      · obtain ⟨a, ha, hR⟩ := ih hb
        exact ⟨a, List.mem_cons_of_mem _ ha, hR⟩

/-- What is collected at a position comes from the input at that position. -/
theorem rel_of_forall₂ {R : α → β → Prop} {as : List α} {bs : List β} (h : List.Forall₂ R as bs)
    {i : ℕ} {a : α} {b : β} (ha : as[i]? = some a) (hb : bs[i]? = some b) : R a b := by
  induction h generalizing i with
  | nil => simp at ha
  | cons hab _ ih =>
      cases i with
      | zero =>
          rw [List.getElem?_cons_zero, Option.some.injEq] at ha hb
          rwa [← ha, ← hb]
      | succ i =>
          rw [List.getElem?_cons_succ] at ha hb
          exact ih ha hb

/-- A property of pairs of inputs carries over to the results, pair by pair. -/
theorem pairwise_iff_of_forall₂ {R : α → β → Prop} {P : α → α → Prop} {Q S : β → β → Prop}
    {as : List α} {bs : List β} (h : List.Forall₂ R as bs) (hS : bs.Pairwise S)
    (hPQ : ∀ {a a' b b'}, R a b → R a' b' → S b b' → (P a a' ↔ Q b b')) :
    as.Pairwise P ↔ bs.Pairwise Q := by
  induction h with
  | nil => simp
  | @cons a b as bs hab has ih =>
      rw [List.pairwise_cons] at hS
      rw [List.pairwise_cons, List.pairwise_cons, ih hS.2]
      have hhead : (∀ a' ∈ as, P a a') ↔ ∀ b' ∈ bs, Q b b' := by
        constructor
        · intro hP b' hb'
          obtain ⟨a', ha', hR⟩ := exists_mem_of_forall₂ has hb'
          exact (hPQ hab hR (hS.1 b' hb')).mp (hP a' ha')
        · intro hQ a' ha'
          obtain ⟨b', hb', hR⟩ := exists_mem_of_forall₂ has.flip ha'
          exact (hPQ hab hR (hS.1 b' hb')).mpr (hQ b' hb')
      rw [hhead]

theorem forAll_eq_ok_iff {f : α → Outcome ε PUnit} {as : List α} :
    forAll f as = ok ⟨⟩ ↔ ∀ a ∈ as, f a = ok ⟨⟩ := by
  induction as with
  | nil => simp [forAll]
  | cons a as ih =>
      simp only [forAll, bind_eq_ok_iff, ih, List.mem_cons, forall_eq_or_imp]
      constructor
      · rintro ⟨⟨⟩, ha, has⟩
        exact ⟨ha, has⟩
      · rintro ⟨ha, has⟩
        exact ⟨⟨⟩, ha, has⟩

end Outcome

/-- A string, as its sequence of Unicode scalar values. -/
abbrev Str := List Char

namespace Str

open String (utf8Len utf8Len_cons)

/-- The UTF-8 form. -/
def asBytes (s : Str) : List UInt8 := s.flatMap String.utf8EncodeChar

@[simp] theorem length_asBytes (s : Str) : (asBytes s).length = utf8Len s := by
  induction s with
  | nil => rfl
  | cons c s ih =>
      have hcons : asBytes (c :: s) = String.utf8EncodeChar c ++ asBytes s := rfl
      rw [hcons, List.length_append, ih, String.length_utf8EncodeChar, utf8Len_cons]
      omega

/-! ## Searching -/

/-- The byte offset of the first character that satisfies `p`. -/
def find (p : Char → Bool) : Str → Option ℕ
  | [] => none
  | c :: s => if p c then some 0 else (find p s).map (c.utf8Size + ·)

/-- The byte offset of the last character that satisfies `p`. -/
def rfind (p : Char → Bool) : Str → Option ℕ
  | [] => none
  | c :: s =>
      match rfind p s with
      | some i => some (c.utf8Size + i)
      | none => if p c then some 0 else none

/-- The byte offset of the first occurrence of `pat`. -/
def findStr (pat : Str) : Str → Option ℕ
  | [] => if pat = [] then some 0 else none
  | c :: s => if pat.isPrefixOf (c :: s) then some 0 else (findStr pat s).map (c.utf8Size + ·)

theorem rfind_eq_none_iff {p : Char → Bool} {s : Str} :
    rfind p s = none ↔ ∀ c ∈ s, p c = false := by
  induction s with
  | nil => simp [rfind]
  | cons c s ih =>
      cases hs : rfind p s with
      | none =>
          have hall := ih.mp hs
          by_cases hc : p c
          · simp [rfind, hs, hc]
          · simpa [rfind, hs, hc] using hall
      | some i =>
          have hnot : ¬ ∀ d ∈ s, p d = false := fun hall => by simp [ih.mpr hall] at hs
          simp only [rfind, hs, reduceCtorEq, List.mem_cons, forall_eq_or_imp, false_iff]
          exact fun h => hnot h.2

/-- A successful search splits the string at the first match. -/
theorem find_eq_some_iff {p : Char → Bool} {s : Str} {i : ℕ} :
    find p s = some i ↔ ∃ pre c post, s = pre ++ c :: post ∧ i = utf8Len pre ∧ p c = true ∧
      ∀ d ∈ pre, p d = false := by
  induction s generalizing i with
  | nil => simp [find]
  | cons c s ih =>
      by_cases hc : p c
      · constructor
        · intro h
          simp only [find, hc, if_true, Option.some.injEq] at h
          exact ⟨[], c, s, rfl, by simp [← h], hc, by simp⟩
        · rintro ⟨pre, d, post, hs, rfl, -, hpre⟩
          cases pre with
          | nil => simp [find, hc]
          | cons e pre =>
              obtain ⟨rfl, -⟩ := List.cons.inj hs
              simp [hpre c List.mem_cons_self] at hc
      · simp only [find, hc, Bool.false_eq_true, if_false, Option.map_eq_some_iff, ih]
        constructor
        · rintro ⟨j, ⟨pre, d, post, rfl, rfl, hd, hpre⟩, rfl⟩
          refine ⟨c :: pre, d, post, rfl, ?_, hd, ?_⟩
          · simp only [utf8Len_cons]
            omega
          · intro e he
            rcases List.mem_cons.mp he with rfl | he
            · simpa using hc
            · exact hpre e he
        · rintro ⟨pre, d, post, hs, rfl, hd, hpre⟩
          cases pre with
          | nil =>
              obtain ⟨rfl, -⟩ := List.cons.inj hs
              exact absurd hd hc
          | cons e pre =>
              obtain ⟨rfl, rfl⟩ := List.cons.inj hs
              refine ⟨utf8Len pre, ⟨pre, d, post, rfl, rfl, hd, ?_⟩, ?_⟩
              · exact fun x hx => hpre x (List.mem_cons_of_mem _ hx)
              · simp only [utf8Len_cons]
                omega

/-- A successful search from the right splits the string at the last match. -/
theorem rfind_eq_some_iff {p : Char → Bool} {s : Str} {i : ℕ} :
    rfind p s = some i ↔ ∃ pre c post, s = pre ++ c :: post ∧ i = utf8Len pre ∧ p c = true ∧
      ∀ d ∈ post, p d = false := by
  induction s generalizing i with
  | nil => simp [rfind]
  | cons c s ih =>
      constructor
      · intro h
        cases hs : rfind p s with
        | none =>
            rw [rfind_eq_none_iff] at hs
            by_cases hc : p c
            · simp only [rfind, rfind_eq_none_iff.mpr hs, hc, if_true, Option.some.injEq] at h
              exact ⟨[], c, s, rfl, by simp [← h], hc, hs⟩
            · simp [rfind, rfind_eq_none_iff.mpr hs, hc] at h
        | some j =>
            obtain ⟨pre, d, post, rfl, rfl, hd, hpost⟩ := ih.mp hs
            simp only [rfind, hs, Option.some.injEq] at h
            refine ⟨c :: pre, d, post, rfl, ?_, hd, hpost⟩
            simp only [utf8Len_cons]
            omega
      · rintro ⟨pre, d, post, hs, rfl, hd, hpost⟩
        cases pre with
        | nil =>
            obtain ⟨rfl, rfl⟩ := List.cons.inj hs
            simp [rfind, rfind_eq_none_iff.mpr hpost, hd]
        | cons e pre =>
            obtain ⟨rfl, rfl⟩ := List.cons.inj hs
            have hrec := ih.mpr ⟨pre, d, post, rfl, rfl, hd, hpost⟩
            simp only [rfind, hrec, Option.some.injEq, utf8Len_cons]
            omega

theorem find_append_cons {p : Char → Bool} {pre post : Str} {c : Char} (hc : p c = true)
    (hpre : ∀ d ∈ pre, p d = false) : find p (pre ++ c :: post) = some (utf8Len pre) :=
  find_eq_some_iff.mpr ⟨pre, c, post, rfl, rfl, hc, hpre⟩

theorem find_eq_none_iff {p : Char → Bool} {s : Str} :
    find p s = none ↔ ∀ c ∈ s, p c = false := by
  induction s with
  | nil => simp [find]
  | cons c s ih =>
      cases hc : p c with
      | true => simp [find, hc]
      | false => simp [find, hc, ih]

theorem rfind_append_cons {p : Char → Bool} {pre post : Str} {c : Char} (hc : p c = true)
    (hpost : ∀ d ∈ post, p d = false) : rfind p (pre ++ c :: post) = some (utf8Len pre) :=
  rfind_eq_some_iff.mpr ⟨pre, c, post, rfl, rfl, hc, hpost⟩

/-- A delimiter is found where it stands first. -/
theorem find_delim_iff {d : Char} {s : Str} {i : ℕ} :
    find (· == d) s = some i ↔
      ∃ pre post, s = pre ++ d :: post ∧ i = utf8Len pre ∧ ∀ c ∈ pre, c ≠ d := by
  rw [find_eq_some_iff]
  constructor
  · rintro ⟨pre, c, post, hs, hi, hc, hpre⟩
    obtain rfl : c = d := by simpa using hc
    exact ⟨pre, post, hs, hi, fun e he => by simpa using hpre e he⟩
  · rintro ⟨pre, post, hs, hi, hpre⟩
    exact ⟨pre, d, post, hs, hi, by simp, fun e he => by simpa using hpre e he⟩

/-- From the right, it is found where it stands last. -/
theorem rfind_delim_iff {d : Char} {s : Str} {i : ℕ} :
    rfind (· == d) s = some i ↔
      ∃ pre post, s = pre ++ d :: post ∧ i = utf8Len pre ∧ ∀ c ∈ post, c ≠ d := by
  rw [rfind_eq_some_iff]
  constructor
  · rintro ⟨pre, c, post, hs, hi, hc, hpost⟩
    obtain rfl : c = d := by simpa using hc
    exact ⟨pre, post, hs, hi, fun e he => by simpa using hpost e he⟩
  · rintro ⟨pre, post, hs, hi, hpost⟩
    exact ⟨pre, d, post, hs, hi, by simp, fun e he => by simpa using hpost e he⟩

/-- A pattern is found behind `pre` if no occurrence of it starts inside `pre`. -/
theorem findStr_append {pat pre post : Str}
    (h : ∀ a b, a ++ b = pre → b ≠ [] → ¬ pat <+: b ++ (pat ++ post)) :
    findStr pat (pre ++ (pat ++ post)) = some (utf8Len pre) := by
  induction pre with
  | nil =>
      have hpat : pat <+: pat ++ post := List.prefix_append pat post
      rw [List.nil_append]
      cases hs : pat ++ post with
      | nil => simp [findStr, (List.append_eq_nil_iff.mp hs).1]
      | cons c s =>
          rw [hs] at hpat
          simp [findStr, hpat]
  | cons c pre ih =>
      have hno : ¬ pat <+: c :: (pre ++ (pat ++ post)) :=
        h [] (c :: pre) rfl (List.cons_ne_nil c pre)
      have htail : findStr pat (pre ++ (pat ++ post)) = some (utf8Len pre) := by
        refine ih ?_
        intro a b hab hb
        exact h (c :: a) b (by rw [List.cons_append, hab]) hb
      rw [List.cons_append, findStr, if_neg (by simpa using hno), htail, Option.map_some,
        utf8Len_cons, Nat.add_comm]

/-- A pattern is found where it occurs first. -/
theorem findStr_eq_some {pat s : Str} {i : ℕ} (hpat : pat ≠ []) (h : findStr pat s = some i) :
    ∃ pre post, s = pre ++ (pat ++ post) ∧ i = utf8Len pre ∧ ¬ pat <:+: pre := by
  induction s generalizing i with
  | nil => simp [findStr, hpat] at h
  | cons c s ih =>
      rw [findStr] at h
      split at h
      · rename_i hprefix
        obtain ⟨post, hpost⟩ := List.isPrefixOf_iff_prefix.mp hprefix
        rw [Option.some.injEq] at h
        exact ⟨[], post, hpost.symm, h.symm, fun hinfix => hpat (List.infix_nil.mp hinfix)⟩
      · rename_i hprefix
        obtain ⟨j, hj, rfl⟩ := Option.map_eq_some_iff.mp h
        obtain ⟨pre, post, rfl, rfl, hpre⟩ := ih hj
        refine ⟨c :: pre, post, rfl, by rw [utf8Len_cons, Nat.add_comm], ?_⟩
        rw [List.infix_cons_iff]
        rintro (⟨t, ht⟩ | hinfix)
        · refine hprefix (List.isPrefixOf_iff_prefix.mpr ⟨t ++ (pat ++ post), ?_⟩)
          rw [← List.append_assoc, ht]
          rfl
        · exact hpre hinfix

/-! ## Slicing -/

/-- Split at a byte offset; `none` when it is out of range or inside a character. -/
def splitAtByte : Str → ℕ → Option (Str × Str)
  | [], i => if i = 0 then some ([], []) else none
  | c :: s, i =>
      if i = 0 then some ([], c :: s)
      else if c.utf8Size ≤ i then
        (splitAtByte s (i - c.utf8Size)).map fun r => (c :: r.1, r.2)
      else none

/-- `&s[..i]`. -/
def sliceTo {ε : Type} (s : Str) (i : ℕ) : Outcome ε Str := .expect ((splitAtByte s i).map Prod.fst)

/-- `&s[i..]`. -/
def sliceFrom {ε : Type} (s : Str) (i : ℕ) : Outcome ε Str :=
  .expect ((splitAtByte s i).map Prod.snd)

/-- `&s[i..j]`. -/
def slice {ε : Type} (s : Str) (i j : ℕ) : Outcome ε Str :=
  if i ≤ j then do
    let t ← sliceTo s j
    sliceFrom t i
  else .panic

@[simp] theorem splitAtByte_append (a b : Str) : splitAtByte (a ++ b) (utf8Len a) = some (a, b) := by
  induction a with
  | nil => cases b <;> simp [splitAtByte]
  | cons c a ih =>
      have hpos := c.utf8Size_pos
      have hne : utf8Len (c :: a) ≠ 0 := by
        simp only [utf8Len_cons]
        omega
      have hle : c.utf8Size ≤ utf8Len (c :: a) := by
        simp only [utf8Len_cons]
        omega
      have hsub : utf8Len (c :: a) - c.utf8Size = utf8Len a := by
        simp only [utf8Len_cons]
        omega
      simp only [List.cons_append, splitAtByte, hne, if_false, hle, if_true, hsub, ih,
        Option.map_some]

@[simp] theorem sliceTo_append {ε : Type} (a b : Str) :
    (sliceTo (a ++ b) (utf8Len a) : Outcome ε Str) = .ok a := by
  simp [sliceTo]

@[simp] theorem sliceFrom_append {ε : Type} (a b : Str) :
    (sliceFrom (a ++ b) (utf8Len a) : Outcome ε Str) = .ok b := by
  simp [sliceFrom]

/-- Slicing just behind a one-byte delimiter. -/
theorem sliceFrom_append_cons {ε : Type} (a b : Str) {c : Char} (hc : c.utf8Size = 1) :
    (sliceFrom (a ++ c :: b) (utf8Len a + 1) : Outcome ε Str) = .ok b := by
  have hlen : utf8Len (a ++ [c]) = utf8Len a + 1 := by simp [hc]
  have happ : a ++ c :: b = (a ++ [c]) ++ b := by simp
  rw [happ, ← hlen, sliceFrom_append]

/-! ## Trimming and case -/

def stripPrefix (c : Char) : Str → Option Str
  | [] => none
  | d :: s => if d = c then some s else none

theorem stripPrefix_eq_some_iff {c : Char} {s rest : Str} :
    stripPrefix c s = some rest ↔ s = c :: rest := by
  cases s with
  | nil => simp [stripPrefix]
  | cons d s => by_cases hd : d = c <;> simp [stripPrefix, hd]

theorem stripPrefix_eq_none_iff {c : Char} {s : Str} :
    stripPrefix c s = none ↔ s.head? ≠ some c := by
  cases s with
  | nil => simp [stripPrefix]
  | cons d s => by_cases hd : d = c <;> simp [stripPrefix, hd]

/-- The Unicode `White_Space` property. -/
def isWhitespace (c : Char) : Bool :=
  let n := c.toNat
  (9 ≤ n && n ≤ 13) || n == 0x20 || n == 0x85 || n == 0xA0 || n == 0x1680 ||
    (0x2000 ≤ n && n ≤ 0x200A) || n == 0x2028 || n == 0x2029 || n == 0x202F || n == 0x205F ||
    n == 0x3000

/-- Drop the characters that satisfy `p` from both ends. -/
def trimMatches (p : Char → Bool) (s : Str) : Str := ((s.dropWhile p).reverse.dropWhile p).reverse

def trim (s : Str) : Str := trimMatches isWhitespace s

def toAsciiLowercase (s : Str) : Str := s.map Char.toLower

/-- The pieces between the characters that equal `c`, empty ones included. -/
def split (c : Char) : Str → List Str
  | [] => [[]]
  | d :: s =>
      if d = c then [] :: split c s
      else
        match split c s with
        | [] => [[d]]
        | t :: ts => (d :: t) :: ts

/-- Trimming leaves a string alone that has nothing to drop at either end. -/
theorem trimMatches_eq_self {p : Char → Bool} {s : Str} (hhead : ∀ c, s.head? = some c → p c = false)
    (hlast : ∀ c, s.getLast? = some c → p c = false) : trimMatches p s = s := by
  have hdrop : ∀ t : Str, (∀ c, t.head? = some c → p c = false) → t.dropWhile p = t := by
    intro t ht
    cases t with
    | nil => rfl
    | cons c t => simp [ht c rfl]
  rw [trimMatches, hdrop s hhead, hdrop s.reverse ?_, List.reverse_reverse]
  intro c hc
  rw [List.head?_reverse] at hc
  exact hlast c hc

theorem split_of_not_mem {c : Char} {s : Str} (h : c ∉ s) : split c s = [s] := by
  induction s with
  | nil => rfl
  | cons d s ih =>
      rw [List.mem_cons, not_or] at h
      rw [split, if_neg (Ne.symm h.1), ih h.2]

theorem split_append_cons {c : Char} {s : Str} (h : c ∉ s) (t : Str) :
    split c (s ++ c :: t) = s :: split c t := by
  induction s with
  | nil => rw [List.nil_append, split, if_pos rfl]
  | cons d s ih =>
      rw [List.mem_cons, not_or] at h
      rw [List.cons_append, split, if_neg (Ne.symm h.1), ih h.2]

/-- Splitting undoes joining, for pieces without the separator. -/
theorem split_intercalate {c : Char} {ts : List Str} (hne : ts ≠ []) (h : ∀ t ∈ ts, c ∉ t) :
    split c ([c].intercalate ts) = ts := by
  induction ts with
  | nil => exact absurd rfl hne
  | cons t ts ih =>
      have ht := h t List.mem_cons_self
      cases ts with
      | nil =>
          rw [List.intercalate_singleton]
          exact split_of_not_mem ht
      | cons u ts =>
          have htail := ih (List.cons_ne_nil u ts) fun v hv => h v (List.mem_cons_of_mem t hv)
          rw [List.intercalate_cons_cons, List.append_assoc, List.singleton_append,
            split_append_cons ht, htail]

/-! ## Reading from the front -/

/-- What follows a fixed text. -/
def stripStr : Str → Str → Option Str
  | [], s => some s
  | c :: pat, s => (stripPrefix c s).bind (stripStr pat)

@[simp] theorem stripStr_append (pat s : Str) : stripStr pat (pat ++ s) = some s := by
  induction pat with
  | nil => rfl
  | cons c pat ih =>
      rw [List.cons_append, stripStr, stripPrefix_eq_some_iff.mpr rfl, Option.bind_some, ih]

/-- The text up to the first `c`, and the rest from there on. -/
def upTo (c : Char) (s : Str) : Str × Str := (s.takeWhile (· != c), s.dropWhile (· != c))

theorem upTo_append {c : Char} {s : Str} (h : c ∉ s) (t : Str) :
    upTo c (s ++ c :: t) = (s, c :: t) := by
  have hs : ∀ d ∈ s, (d != c) = true := by
    intro d hd
    exact bne_iff_ne.mpr fun hdc => h (hdc ▸ hd)
  rw [upTo, List.takeWhile_append_of_pos hs,
    List.dropWhile_append_of_pos hs]
  simp

/-- Lines, each with its newline. -/
def unlines (ls : List Str) : Str := ls.flatMap fun l => l ++ ['\n']

/-- The lines of a text whose last line is complete. -/
def lines (s : Str) : Option (List Str) :=
  if (split '\n' s).getLast? = some [] then some (split '\n' s).dropLast else none

theorem split_unlines {ls : List Str} (h : ∀ l ∈ ls, '\n' ∉ l) :
    split '\n' (unlines ls) = ls ++ [[]] := by
  induction ls with
  | nil => rfl
  | cons l ls ih =>
      have hl := h l List.mem_cons_self
      have htail := ih fun l' hl' => h l' (List.mem_cons_of_mem l hl')
      rw [unlines, List.flatMap_cons, List.append_assoc, List.singleton_append,
        split_append_cons hl, List.cons_append, ← htail, unlines]

theorem lines_unlines {ls : List Str} (h : ∀ l ∈ ls, '\n' ∉ l) : lines (unlines ls) = some ls := by
  simp [lines, split_unlines h]

theorem unlines_append (ls ms : List Str) : unlines (ls ++ ms) = unlines ls ++ unlines ms :=
  List.flatMap_append

/-! ## Numbers -/

/-- A decimal number as it is printed. -/
def ofNat (n : ℕ) : Str := Nat.toDigits 10 n

/-- At least one digit and nothing else, with a value of at most `max`. -/
def parseDigits (max : ℕ) (s : Str) : Option ℕ :=
  if s.isEmpty || !s.all Char.isDigit then none
  else if Nat.ofDigitChars 10 s 0 ≤ max then some (Nat.ofDigitChars 10 s 0) else none

/-- The parser of an unsigned integer type with largest value `max`: an optional
`+`, then digits; leading zeros are allowed, overflow is an error. -/
def parseUnsigned (max : ℕ) (s : Str) : Option ℕ := parseDigits max ((stripPrefix '+' s).getD s)

def parseU16 (s : Str) : Option UInt16 := (parseUnsigned 65535 s).map UInt16.ofNat

def parseU64 (s : Str) : Option UInt64 := (parseUnsigned 18446744073709551615 s).map UInt64.ofNat

/-- The parser of the signed 64-bit integers: a `-` or an optional `+`, then digits. -/
def parseI64 (s : Str) : Option Int64 :=
  match stripPrefix '-' s with
  | some digits => (parseDigits 9223372036854775808 digits).map fun n => Int64.ofInt (-n)
  | none => (parseUnsigned 9223372036854775807 s).map fun n => Int64.ofInt n

/-- The integer a text spells, of any size: a sign or none, then at least one digit. -/
def integer (s : Str) : Option ℤ :=
  let digits (ds : Str) : Option ℕ :=
    if ds.isEmpty || !ds.all Char.isDigit then none else some (Nat.ofDigitChars 10 ds 0)
  match stripPrefix '-' s with
  | some ds => (digits ds).map fun n : ℕ => -(n : ℤ)
  | none => (digits ((stripPrefix '+' s).getD s)).map fun n : ℕ => (n : ℤ)

theorem parseDigits_eq_some_iff {max n : ℕ} {s : Str} :
    parseDigits max s = some n ↔
      (s.isEmpty || !s.all Char.isDigit) = false ∧ Nat.ofDigitChars 10 s 0 = n ∧ n ≤ max := by
  unfold parseDigits
  cases s.isEmpty || !s.all Char.isDigit
  · by_cases hle : Nat.ofDigitChars 10 s 0 ≤ max
    · simp only [Bool.false_eq_true, if_false, if_pos hle, Option.some.injEq, true_and]
      exact ⟨fun h => ⟨h, h ▸ hle⟩, fun h => h.1⟩
    · simp only [Bool.false_eq_true, if_false, if_neg hle, reduceCtorEq, true_and, false_iff]
      rintro ⟨rfl, h⟩
      exact hle h
  · simp

/-- An unsigned number is the integer that was written. -/
theorem integer_of_parseUnsigned {max n : ℕ} {s : Str} (h : parseUnsigned max s = some n) :
    integer s = some (n : ℤ) ∧ n ≤ max := by
  have hminus : stripPrefix '-' s = none := by
    rw [stripPrefix_eq_none_iff]
    intro hhead
    obtain ⟨c, s, rfl⟩ := List.exists_cons_of_ne_nil (l := s) (by rintro rfl; cases hhead)
    obtain rfl : c = '-' := by simpa using hhead
    have hplus : stripPrefix '+' ('-' :: s) = none := rfl
    rw [parseUnsigned, hplus, Option.getD_none, parseDigits_eq_some_iff] at h
    exact absurd h.1 (by simp)
  rw [parseUnsigned, parseDigits_eq_some_iff] at h
  obtain ⟨hdigits, hn, hle⟩ := h
  refine ⟨?_, hle⟩
  simp only [integer, hminus, hdigits, hn, Bool.false_eq_true, if_false, Option.map_some]

theorem integer_of_parseU64 {s : Str} {n : UInt64} (h : parseU64 s = some n) :
    integer s = some (n.toNat : ℤ) := by
  obtain ⟨m, hm, rfl⟩ := Option.map_eq_some_iff.mp h
  obtain ⟨hint, hle⟩ := integer_of_parseUnsigned hm
  have hmod : (UInt64.ofNat m).toNat = m := UInt64.toNat_ofNat_of_lt (Nat.lt_succ_of_le hle)
  rw [hint, hmod]

theorem integer_of_parseI64 {s : Str} {m : Int64} (h : parseI64 s = some m) :
    integer s = some m.toInt := by
  unfold parseI64 at h
  split at h
  · rename_i digits hs
    simp only [Option.map_eq_some_iff, Option.bind_eq_bind, Option.bind_eq_some_iff,
      Option.pure_def, Option.some.injEq] at h
    obtain ⟨_, ⟨n, hn, rfl⟩, rfl⟩ := h
    obtain ⟨hdigits, hval, hle⟩ := parseDigits_eq_some_iff.mp hn
    have hmod : (Int64.ofInt (-(n : ℤ))).toInt = -(n : ℤ) :=
      Int64.toInt_ofInt_of_le (by omega) (by omega)
    rw [hmod]
    simp only [integer, hs, hdigits, hval, Bool.false_eq_true, if_false, Option.map_some]
  · simp only [Option.map_eq_some_iff, Option.bind_eq_bind, Option.bind_eq_some_iff,
      Option.pure_def, Option.some.injEq] at h
    obtain ⟨_, ⟨n, hn, rfl⟩, rfl⟩ := h
    obtain ⟨hint, hle⟩ := integer_of_parseUnsigned hn
    have hmod : (Int64.ofInt (n : ℤ)).toInt = n := Int64.toInt_ofInt_of_le (by omega) (by omega)
    rw [hint, hmod]

theorem isDigit_of_mem_ofNat {n : ℕ} {c : Char} (h : c ∈ ofNat n) : c.isDigit = true :=
  Nat.isDigit_of_mem_toDigits (by decide) (by decide) h

/-- A printed number is free of delimiters. -/
theorem beq_of_mem_ofNat {n : ℕ} {c d : Char} (h : c ∈ ofNat n) (hd : d.isDigit = false) :
    (c == d) = false := by
  rw [beq_eq_false_iff_ne]
  rintro rfl
  rw [isDigit_of_mem_ofNat h] at hd
  cases hd

theorem parseDigits_ofNat {n max : ℕ} (h : n ≤ max) : parseDigits max (ofNat n) = some n := by
  have hne : (ofNat n).isEmpty = false := by
    simp [ofNat, Nat.toDigits_ne_nil]
  have hall : (ofNat n).all Char.isDigit = true := by
    rw [List.all_eq_true]
    exact fun c hc => isDigit_of_mem_ofNat hc
  have hval : Nat.ofDigitChars 10 (ofNat n) 0 = n := Nat.ofDigitChars_ten_toDigits
  simp [parseDigits, hne, hall, hval, h]

/-- Printing and parsing again gives the number back. -/
theorem parseUnsigned_ofNat {n max : ℕ} (h : n ≤ max) :
    parseUnsigned max (ofNat n) = some n := by
  have hplus : stripPrefix '+' (ofNat n) = none := by
    cases hs : ofNat n with
    | nil => rfl
    | cons c s =>
        have hc : c.isDigit = true := isDigit_of_mem_ofNat (n := n) (by rw [hs]; simp)
        have hne : c ≠ '+' := by
          rintro rfl
          exact absurd hc (by decide)
        simp [stripPrefix, hne]
  simp [parseUnsigned, hplus, parseDigits_ofNat h]

@[simp] theorem parseU16_ofNat_toNat (p : UInt16) : parseU16 (ofNat p.toNat) = some p := by
  have hp : p.toNat ≤ 65535 := by
    have := p.toNat_lt
    omega
  simp [parseU16, parseUnsigned_ofNat hp]

/-- The value of a hexadecimal digit. -/
def hexDigit (c : Char) : Option ℕ :=
  if c.isDigit then some (c.toNat - '0'.toNat)
  else if 'a' ≤ c ∧ c ≤ 'f' then some (c.toNat - 'a'.toNat + 10)
  else if 'A' ≤ c ∧ c ≤ 'F' then some (c.toNat - 'A'.toNat + 10)
  else none

/-! ## Lossy decoding -/

/-- The replacement character. -/
def replacement : Char := '\uFFFD'

def isContinuation (b : UInt8) : Bool := b &&& 0xC0 == 0x80

/-- Whether `b` may follow the leading byte of a three-byte or four-byte form. -/
def isSecondByte (lead b : UInt8) : Bool :=
  match lead.toNat with
  | 0xE0 => 0xA0 ≤ b && b ≤ 0xBF
  | 0xED => 0x80 ≤ b && b ≤ 0x9F
  | 0xF0 => 0x90 ≤ b && b ≤ 0xBF
  | 0xF4 => 0x80 ≤ b && b ≤ 0x8F
  | _ => 0x80 ≤ b && b ≤ 0xBF

/-- How many bytes a leading byte announces; zero when it cannot lead. -/
def charWidth (b : UInt8) : ℕ :=
  if b < 0x80 then 1
  else if 0xC2 ≤ b && b ≤ 0xDF then 2
  else if 0xE0 ≤ b && b ≤ 0xEF then 3
  else if 0xF0 ≤ b && b ≤ 0xF4 then 4
  else 0

def payload (b : UInt8) : ℕ := (b &&& 0x3F).toNat

/-- Decode one character behind the leading byte `b`. An invalid sequence becomes
one replacement character, and as many bytes are dropped as could have started a
valid one. -/
def decodeChar (b : UInt8) (rest : List UInt8) : Char × List UInt8 :=
  match charWidth b, rest with
  | 1, _ => (Char.ofNat b.toNat, rest)
  | 2, b₁ :: rest₁ =>
      if isContinuation b₁ then (Char.ofNat ((b &&& 0x1F).toNat * 64 + payload b₁), rest₁)
      else (replacement, rest)
  | 3, b₁ :: rest₁ =>
      if isSecondByte b b₁ then
        match rest₁ with
        | b₂ :: rest₂ =>
            if isContinuation b₂ then
              (Char.ofNat (((b &&& 0x0F).toNat * 64 + payload b₁) * 64 + payload b₂), rest₂)
            else (replacement, rest₁)
        | [] => (replacement, rest₁)
      else (replacement, rest)
  | 4, b₁ :: rest₁ =>
      if isSecondByte b b₁ then
        match rest₁ with
        | b₂ :: rest₂ =>
            if isContinuation b₂ then
              match rest₂ with
              | b₃ :: rest₃ =>
                  if isContinuation b₃ then
                    (Char.ofNat ((((b &&& 0x07).toNat * 64 + payload b₁) * 64 + payload b₂) * 64
                      + payload b₃), rest₃)
                  else (replacement, rest₂)
              | [] => (replacement, rest₂)
            else (replacement, rest₁)
        | [] => (replacement, rest₁)
      else (replacement, rest)
  | _, _ => (replacement, rest)

/-- At most `fuel` characters; every one consumes a byte, so the number of bytes is
always enough. -/
def fromUtf8LossyGo : ℕ → List UInt8 → Str
  | 0, _ => []
  | _, [] => []
  | fuel + 1, b :: rest => (decodeChar b rest).1 :: fromUtf8LossyGo fuel (decodeChar b rest).2

def fromUtf8Lossy (bs : List UInt8) : Str := fromUtf8LossyGo bs.length bs

end Str
end Gust.Lib
