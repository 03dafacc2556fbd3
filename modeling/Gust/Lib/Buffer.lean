import Mathlib.Data.List.Basic

/-!
# Reused receive buffers

A receive call writes to the front of a buffer and reports how much it has written; what
the buffer held behind that stays there. Its reader takes the reported number of bytes
from the front, so what it sees is the data of this call and nothing of an earlier one.

A copy loop moves a stream through such a buffer. `InTransit` says where the stream is in
the middle of that: what has been taken from it is what has been delivered, followed by
what the loop holds. Sending, taking and delivering in pieces of any size all keep it.

A loop over messages takes them up whole, and a message may get lost. `Settled` is the
account of that: every message taken up before the one at hand has met a fate, and what
was passed on are those whose fate it was, in order.
-/

namespace Gust.Lib

universe u v

variable {α : Type u}

/-- The buffer after a call that had `data` to deliver; it takes what fits. -/
def fill (buf data : List α) : List α := data.take buf.length ++ buf.drop data.length

/-- What the call reports. -/
def filled (buf data : List α) : ℕ := min data.length buf.length

@[simp] theorem length_fill (buf data : List α) : (fill buf data).length = buf.length := by
  rw [fill, List.length_append, List.length_take, List.length_drop]
  omega

/-- **No byte of an earlier call is seen.** -/
@[simp] theorem take_filled_fill (buf data : List α) :
    (fill buf data).take (filled buf data) = data.take buf.length := by
  have hlen : (data.take buf.length).length = filled buf data := by
    rw [List.length_take, filled, Nat.min_comm]
  rw [fill, ← hlen, List.take_left]

theorem filled_of_le {buf data : List α} (h : data.length ≤ buf.length) :
    filled buf data = data.length :=
  Nat.min_eq_left h

/-! ## Copying a stream -/

/-- Of the stream `sent`, the first `taken` elements have been taken; they are those
`delivered`, in order, and then those still `held`. -/
structure InTransit (sent : List α) (taken : ℕ) (delivered held : List α) : Prop where
  taken_le : taken ≤ sent.length
  take_eq : sent.take taken = delivered ++ held

namespace InTransit

variable {sent delivered held : List α} {taken : ℕ}

theorem start : InTransit ([] : List α) 0 [] [] := ⟨Nat.le_refl 0, rfl⟩

theorem delivered_prefix (h : InTransit sent taken delivered held) : delivered <+: sent := by
  have hpre : delivered <+: sent.take taken := by
    rw [h.take_eq]
    exact List.prefix_append delivered held
  exact hpre.trans (List.take_prefix taken sent)

theorem taken_eq (h : InTransit sent taken delivered held) :
    taken = delivered.length + held.length := by
  have hlen := congrArg List.length h.take_eq
  rwa [List.length_take, Nat.min_eq_left h.taken_le, List.length_append] at hlen

theorem send (h : InTransit sent taken delivered held) (more : List α) :
    InTransit (sent ++ more) taken delivered held := by
  refine ⟨?_, ?_⟩
  · rw [List.length_append]
    exact Nat.le_add_right_of_le h.taken_le
  · rw [List.take_append_of_le_length h.taken_le, h.take_eq]

/-- The next `n` elements are taken when nothing is held. -/
theorem take (h : InTransit sent taken delivered []) {n : ℕ} (hn : n ≤ (sent.drop taken).length) :
    InTransit sent (taken + n) delivered ((sent.drop taken).take n) := by
  have hle := h.taken_le
  rw [List.length_drop] at hn
  refine ⟨by omega, ?_⟩
  rw [List.take_add, h.take_eq, List.append_nil]

/-- The first `n` elements that are held are delivered. -/
theorem deliver (h : InTransit sent taken delivered held) (n : ℕ) :
    InTransit sent taken (delivered ++ held.take n) (held.drop n) := by
  refine ⟨h.taken_le, ?_⟩
  rw [h.take_eq, List.append_assoc, List.take_append_drop]

/-- A stream of which nothing is left and nothing is held has been delivered. -/
theorem delivered_eq (h : InTransit sent taken delivered []) (hleft : sent.drop taken = []) :
    delivered = sent := by
  have htake : sent.take taken = sent := List.take_of_length_le (List.drop_eq_nil_iff.mp hleft)
  rw [← htake, h.take_eq, List.append_nil]

end InTransit
/-! ## Handling messages one at a time -/

/-- The messages `got` have met the `fates`, one each and in order, except for those still
`held`; those of a good fate have been `put` out. -/
structure Settled {φ : Type v} (good : φ → Bool) (got held : List α) (fates : List φ)
    (put : List α) : Prop where
  exists_done : ∃ done : List (α × φ), done.map Prod.snd = fates ∧
    got = done.map Prod.fst ++ held ∧ put = (done.filter fun d => good d.2).map Prod.fst

namespace Settled

variable {φ : Type v} {good : φ → Bool} {got held put : List α} {fates : List φ}

theorem start : Settled good ([] : List α) [] [] [] := ⟨[], rfl, rfl, rfl⟩

theorem take (h : Settled good got [] fates put) (x : α) :
    Settled good (got ++ [x]) [x] fates put := by
  obtain ⟨done, hfates, hgot, hput⟩ := h
  refine ⟨done, hfates, ?_, hput⟩
  rw [hgot, List.append_nil]

/-- The message at hand gets lost. -/
theorem lose {x : α} {fate : φ} (h : Settled good got [x] fates put) (hfate : good fate = false) :
    Settled good got [] (fates ++ [fate]) put := by
  obtain ⟨done, rfl, hgot, rfl⟩ := h
  refine ⟨done ++ [(x, fate)], by simp, by simp [hgot], by simp [hfate]⟩

/-- The message at hand is passed on. -/
theorem pass {x : α} {fate : φ} (h : Settled good got [x] fates put) (hfate : good fate = true) :
    Settled good got [] (fates ++ [fate]) (put ++ [x]) := by
  obtain ⟨done, rfl, hgot, rfl⟩ := h
  refine ⟨done ++ [(x, fate)], by simp, by simp [hgot], by simp [hfate]⟩

/-- Nothing is made up, doubled or put out of order. -/
theorem sublist (h : Settled good got held fates put) : put.Sublist got := by
  obtain ⟨done, -, rfl, rfl⟩ := h
  exact (List.filter_sublist.map Prod.fst).trans (List.sublist_append_left _ _)

/-- Nothing is lost unless its fate says so. -/
theorem eq_append (h : Settled good got held fates put) (hgood : ∀ f ∈ fates, good f = true) :
    got = put ++ held := by
  obtain ⟨done, rfl, rfl, rfl⟩ := h
  have hall : (done.filter fun d => good d.2) = done :=
    List.filter_eq_self.mpr fun d hd => hgood d.2 (List.mem_map_of_mem hd)
  rw [hall]

end Settled

end Gust.Lib
