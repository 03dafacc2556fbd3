import Mathlib.Data.Int.CardIntervalMod
import Gust.Lib.Machine

/-!
# Round robin with a machine counter

A pick takes the element at the counter modulo the number of elements and advances the
counter, which wraps around at its width. A single element is picked without counting.

Started at zero, the `k`-th pick is at position `k % 2 ^ w % n` (`nthPick_roundRobin`), also
when the picks are spread over the run of a larger machine (`getElem?_outputs`). As
`2 ^ w` need not be a multiple of `n`, the order starts over early at a wrap. In a window
of picks any two positions are chosen equally often, up to one and one more for each wrap
inside the window (`timesPicked_le`).
-/

namespace Gust.Lib

universe u v

variable {α : Type u} {w : ℕ}

/-- The element and the counter after the pick; `none` is the division by zero on an
empty list. -/
def roundRobin (xs : List α) (rr : BitVec w) : Option (α × BitVec w) :=
  match xs with
  | [x] => some (x, rr)
  | xs => (xs[rr.toNat % xs.length]?).map fun x => (x, rr + 1)

theorem mem_of_roundRobin {xs : List α} {rr rr' : BitVec w} {x : α}
    (h : roundRobin xs rr = some (x, rr')) : x ∈ xs := by
  simp only [roundRobin] at h
  split at h
  · cases h
    exact List.mem_singleton_self _
  · obtain ⟨_, hget, heq⟩ := Option.map_eq_some_iff.mp h
    cases heq
    exact List.mem_of_getElem? hget

/-- A pick from a non-empty list neither divides by zero nor is out of range. -/
theorem isSome_roundRobin {xs : List α} (h : xs ≠ []) (rr : BitVec w) :
    (roundRobin xs rr).isSome = true := by
  have hlt : rr.toNat % xs.length < xs.length := Nat.mod_lt _ (List.length_pos_iff.mpr h)
  simp only [roundRobin]
  split
  · rfl
  · simp [hlt]

/-! ## A sequence of picks -/

/-- The counter before the `k`-th pick, counting from zero; `none` once a pick has failed. -/
def counterAt (pick : BitVec w → Option (α × BitVec w)) : ℕ → Option (BitVec w)
  | 0 => some 0
  | k + 1 => (counterAt pick k).bind fun rr => (pick rr).map Prod.snd

/-- What the `k`-th pick returns. -/
def nthPick (pick : BitVec w → Option (α × BitVec w)) (k : ℕ) : Option α :=
  (counterAt pick k).bind fun rr => (pick rr).map Prod.fst

/-- The position of the `k`-th pick from `n` elements. -/
def position (w n k : ℕ) : ℕ := if n = 1 then 0 else k % 2 ^ w % n

theorem position_lt {n : ℕ} (hn : 0 < n) (k : ℕ) : position w n k < n := by
  rw [position]
  split
  · exact hn
  · exact Nat.mod_lt _ hn

/-- One element is picked without counting; more are picked by the counter. -/
theorem roundRobin_eq_some {xs : List α} (h : xs ≠ []) (rr : BitVec w) :
    ∃ x, roundRobin xs rr = some (x, if xs.length = 1 then rr else rr + 1) ∧
      xs[if xs.length = 1 then 0 else rr.toNat % xs.length]? = some x := by
  by_cases hone : xs.length = 1
  · obtain ⟨x, rfl⟩ := List.length_eq_one_iff.mp hone
    exact ⟨x, rfl, rfl⟩
  · have hlt : rr.toNat % xs.length < xs.length := Nat.mod_lt _ (List.length_pos_iff.mpr h)
    refine ⟨xs[rr.toNat % xs.length], ?_, ?_⟩
    · match xs, hone with
      | [], _ => exact absurd rfl h
      | _ :: _ :: _, _ => simp [roundRobin]
    · rw [if_neg hone, List.getElem?_eq_getElem hlt]

theorem counterAt_roundRobin {xs : List α} (h : xs ≠ []) (k : ℕ) :
    counterAt (roundRobin (w := w) xs) k = some (if xs.length = 1 then 0 else BitVec.ofNat w k) := by
  induction k with
  | zero => simp [counterAt]
  | succ k ih =>
      obtain ⟨x, hx, -⟩ := roundRobin_eq_some h (if xs.length = 1 then 0 else BitVec.ofNat w k)
      rw [counterAt, ih, Option.bind_some, hx, Option.map_some]
      split
      · rfl
      · rw [BitVec.ofNat_add]
        rfl

/-- The `k`-th pick. -/
theorem nthPick_roundRobin {xs : List α} (h : xs ≠ []) (k : ℕ) :
    nthPick (roundRobin (w := w) xs) k = xs[position w xs.length k]? := by
  obtain ⟨x, hx, hget⟩ := roundRobin_eq_some h (if xs.length = 1 then 0 else BitVec.ofNat w k)
  rw [nthPick, counterAt_roundRobin h, Option.bind_some, hx, Option.map_some, ← hget, position]
  split
  · rfl
  · rw [BitVec.toNat_ofNat]

/-! ## Picks in a run -/

section Runs

variable {σ : Type u} {ι : Type v} {β : Type u}

/-- A step that picks puts out what it picked and stores the counter; every other step
leaves the counter alone. -/
def PicksOnly (M : Machine σ ι) (counter : σ → BitVec w) (pick : BitVec w → Option (β × BitVec w))
    (out : σ → ι → Option β) : Prop :=
  ∀ s a t, M.step s a = some t →
    (out s a = none ∧ counter t = counter s) ∨
      ∃ x rr, pick (counter s) = some (x, rr) ∧ out s a = some x ∧ counter t = rr

/-- The picks of a run, in order, are the sequence of picks from the start. -/
theorem getElem?_outputs {M : Machine σ ι} {counter : σ → BitVec w}
    {pick : BitVec w → Option (β × BitVec w)} {out : σ → ι → Option β}
    (hpicks : PicksOnly M counter pick out) (hinit : counter M.init = 0) {s : σ} {as : List ι}
    (h : M.run M.init as = some s) {k : ℕ} (hk : k < (M.outputs out M.init as).length) :
    (M.outputs out M.init as)[k]? = nthPick pick k := by
  -- the counter stands where as many picks have left it
  have hinv : counterAt pick (M.outputs out M.init as).length = some (counter s) ∧
      ∀ k < (M.outputs out M.init as).length, (M.outputs out M.init as)[k]? = nthPick pick k := by
    refine Machine.run_outputs_invariant
      (I := fun outs s => counterAt pick outs.length = some (counter s) ∧
        ∀ k < outs.length, outs[k]? = nthPick pick k) ?_ ?_ h
    · exact ⟨by rw [hinit]; rfl, fun k hk => absurd hk (Nat.not_lt_zero k)⟩
    · rintro outs s a t ⟨hcounter, hall⟩ hstep
      obtain ⟨hout, hsame⟩ | ⟨x, rr, hpick, hout, hnext⟩ := hpicks s a t hstep
      · rw [hout, hsame, Option.toList_none, List.append_nil]
        exact ⟨hcounter, hall⟩
      · rw [hout, Option.toList_some, List.length_append, List.length_singleton]
        refine ⟨?_, ?_⟩
        · rw [counterAt, hcounter, Option.bind_some, hpick, Option.map_some, hnext]
        · intro k hk
          by_cases hlast : k < outs.length
          · rw [List.getElem?_append_left hlast]
            exact hall k hlast
          · obtain rfl : k = outs.length := by omega
            rw [List.getElem?_concat_length, nthPick, hcounter, Option.bind_some, hpick,
              Option.map_some]
  exact hinv.2 k hk

end Runs

/-! ## Fairness -/

/-- How often position `i` is chosen in the window of `m` picks from the `a`-th on. -/
def timesPicked (w n a m i : ℕ) : ℕ := Nat.count (fun k => position w n (a + k) = i) m

/-- How often the counter wraps between the first and the last pick of a window. -/
def wraps (w a m : ℕ) : ℕ := (a + m - 1) / 2 ^ w - a / 2 ^ w

theorem count_congr {p q : ℕ → Prop} [DecidablePred p] [DecidablePred q] {m : ℕ}
    (h : ∀ k < m, p k ↔ q k) : Nat.count p m = Nat.count q m := by
  rw [Nat.count_eq_card_filter_range, Nat.count_eq_card_filter_range]
  exact congrArg Finset.card (Finset.filter_congr fun k hk => h k (Finset.mem_range.mp hk))

/-- Among consecutive numbers, any two residues occur equally often up to one. -/
theorem count_mod_le {n : ℕ} (c m : ℕ) {i j : ℕ} (hi : i < n) (hj : j < n) :
    Nat.count (fun k => (c + k) % n = i) m ≤ Nat.count (fun k => (c + k) % n = j) m + 1 := by
  have hn : 0 < n := by omega
  have hcount : ∀ {i}, i < n → ∀ b, Nat.count (· % n = i) b = b / n + if i < b % n then 1 else 0 := by
    intro i hi b
    have hcard := Nat.count_modEq_card b hn i
    rw [Nat.mod_eq_of_lt hi] at hcard
    rw [← hcard]
    exact count_congr fun k _ => by rw [Nat.ModEq, Nat.mod_eq_of_lt hi]
  have hsplit : ∀ i, Nat.count (· % n = i) (c + m) =
      Nat.count (· % n = i) c + Nat.count (fun k => (c + k) % n = i) m :=
    fun i => Nat.count_add (fun k => k % n = i) c m
  have hi' := hsplit i
  have hj' := hsplit j
  rw [hcount hi, hcount hi] at hi'
  rw [hcount hj, hcount hj] at hj'
  split at hi' <;> split at hi' <;> split at hj' <;> split at hj' <;> omega

/-- In a window without a wrap the positions are consecutive residues. -/
theorem timesPicked_le_of_wraps_eq_zero {n a m i j : ℕ} (h : a % 2 ^ w + m ≤ 2 ^ w) (hi : i < n)
    (hj : j < n) : timesPicked w n a m i ≤ timesPicked w n a m j + 1 := by
  by_cases hone : n = 1
  · obtain rfl : i = j := by omega
    exact Nat.le_succ _
  · have hpos : ∀ k < m, position w n (a + k) = (a % 2 ^ w + k) % n := by
      intro k hk
      have hmod : (a + k) % 2 ^ w = a % 2 ^ w + k := by
        rw [← Nat.mod_add_mod, Nat.mod_eq_of_lt (by omega)]
      rw [position, if_neg hone, hmod]
    have hcongr : ∀ i, timesPicked w n a m i =
        Nat.count (fun k => (a % 2 ^ w + k) % n = i) m :=
      fun i => count_congr fun k hk => by rw [hpos k hk]
    rw [hcongr i, hcongr j]
    exact count_mod_le _ m hi hj

theorem timesPicked_add (n a m m' i : ℕ) :
    timesPicked w n a (m + m') i = timesPicked w n a m i + timesPicked w n (a + m) m' i := by
  rw [timesPicked, Nat.count_add, timesPicked, timesPicked]
  simp only [Nat.add_assoc]

/-- **Round robin is fair up to the wraps.** -/
theorem timesPicked_le {n i j : ℕ} (hi : i < n) (hj : j < n) (a m : ℕ) :
    timesPicked w n a m i ≤ timesPicked w n a m j + (wraps w a m + 1) := by
  have htwo : 0 < 2 ^ w := Nat.two_pow_pos w
  generalize hr : wraps w a m = r
  induction r using Nat.strong_induction_on generalizing a m with
  | _ r ih =>
      have hmod : a % 2 ^ w < 2 ^ w := Nat.mod_lt a htwo
      by_cases hfits : a % 2 ^ w + m ≤ 2 ^ w
      · have hle := timesPicked_le_of_wraps_eq_zero hfits hi hj
        omega
      · -- split the window at its first wrap
        obtain ⟨m', rfl⟩ := Nat.exists_eq_add_of_le (by omega : 2 ^ w - a % 2 ^ w ≤ m)
        have hdiv : (a + (2 ^ w - a % 2 ^ w)) / 2 ^ w = a / 2 ^ w + 1 := by
          have hsum : a + (2 ^ w - a % 2 ^ w) = (a / 2 ^ w + 1) * 2 ^ w := by
            have := Nat.div_add_mod' a (2 ^ w)
            rw [Nat.add_mul]
            omega
          rw [hsum, Nat.mul_div_cancel _ htwo]
        have hlast : a / 2 ^ w + 1 ≤ (a + (2 ^ w - a % 2 ^ w + m') - 1) / 2 ^ w := by
          rw [← hdiv]
          exact Nat.div_le_div_right (by omega)
        have hfewer : wraps w (a + (2 ^ w - a % 2 ^ w)) m' + 1 = r := by
          rw [← hr, wraps, wraps, hdiv, Nat.add_assoc]
          omega
        have hrest := ih (r - 1) (by omega) (a + (2 ^ w - a % 2 ^ w)) m' (by omega)
        have hfirst := timesPicked_le_of_wraps_eq_zero (w := w) (a := a) (m := 2 ^ w - a % 2 ^ w)
          (by omega) hi hj
        rw [timesPicked_add, timesPicked_add]
        omega

end Gust.Lib
