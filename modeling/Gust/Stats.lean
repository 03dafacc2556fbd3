import Gust.Lib.Machine
import Gust.Lib.Text

/-!
# The counters of a listener

All serve runs of one listener, and all tasks they spawn, share one `ListenerStats`. Its
counters are 64 bits wide and wrap, and each change of one of them is atomic; `on_accept`
makes two changes, one after the other, and other tasks can come in between.
-/

namespace Gust

open Gust.Lib

structure ListenerStats where
  accepted : UInt64
  /-- How many `ActiveGuard`s there are, if all is well. -/
  active : UInt64
  restarts : UInt64
  errors : UInt64
  lastError : Option Str
  deriving DecidableEq, Repr

/-- An atomic change of the counters. `on_accept` is `accept` and then `guard`, from which
on there is a guard; to drop the guard is `unguard`. -/
inductive StatsOp
  | accept
  | guard
  | unguard
  | restart
  | error
  | lastError (e : Str)
  deriving DecidableEq, Repr

namespace ListenerStats

def new : ListenerStats := ⟨0, 0, 0, 0, none⟩

def apply (stats : ListenerStats) : StatsOp → ListenerStats
  | .accept => { stats with accepted := stats.accepted + 1 }
  | .guard => { stats with active := stats.active + 1 }
  | .unguard => { stats with active := stats.active - 1 }
  | .restart => { stats with restarts := stats.restarts + 1 }
  | .error => { stats with errors := stats.errors + 1 }
  | .lastError e => { stats with lastError := some e }

/-- Both counters of `on_accept` are right, up to the width of a counter: so many accepts,
and so many guards in someone's hands. -/
structure Counts (stats : ListenerStats) (accepts guards : ℕ) : Prop where
  accepted : stats.accepted = UInt64.ofNat accepts
  active : stats.active = UInt64.ofNat guards

end ListenerStats

/-- How a step with the operation `op` changes what a task has: the calls of `on_accept` it
is in the middle of, and the guards in its hands. -/
structure Balance (op : Option StatsOp) (pending guards pending' guards' : ℕ) : Prop where
  pending : pending' + op.toList.count .guard = pending + op.toList.count .accept
  guards : guards' + op.toList.count .unguard = guards + op.toList.count .guard

variable {op : Option StatsOp} {pending guards pending' guards' accepts : ℕ}

/-- What is in balance for one task is in balance for all together. -/
theorem Balance.set {α : Type} {p g : α → ℕ} {xs : List α} {i : ℕ} {x y : α}
    (hx : xs[i]? = some x) (h : Balance op (p x) (g x) (p y) (g y)) :
    Balance op (xs.map p).sum (xs.map g).sum ((xs.set i y).map p).sum ((xs.set i y).map g).sum := by
  have hp := sum_map_set_add (f := p) hx y
  have hg := sum_map_set_add (f := g) hx y
  obtain ⟨hpending, hguards⟩ := h
  constructor <;> omega

namespace ListenerStats

variable {stats : ListenerStats}

/-- The counters stay right if the guards are made and dropped as the operation says. -/
theorem Counts.apply (h : stats.Counts accepts guards)
    (hop : Balance op pending guards pending' guards') :
    (op.elim stats stats.apply).Counts (accepts + op.toList.count .accept) guards' := by
  obtain ⟨haccepted, hactive⟩ := h
  have hguards := hop.guards
  cases op with
  | none =>
      obtain rfl : guards' = guards := hguards
      exact ⟨haccepted, hactive⟩
  | some op =>
      cases op with
      | accept =>
          obtain rfl : guards' = guards := hguards
          exact ⟨by simp [ListenerStats.apply, haccepted], hactive⟩
      | guard =>
          obtain rfl : guards' = guards + 1 := hguards
          exact ⟨haccepted, by simp [ListenerStats.apply, hactive]⟩
      | unguard =>
          obtain rfl : guards' + 1 = guards := hguards
          exact ⟨haccepted, by simp [ListenerStats.apply, hactive]⟩
      | restart | error | lastError =>
          obtain rfl : guards' = guards := hguards
          exact ⟨haccepted, hactive⟩

theorem Counts.toNat_accepted (h : stats.Counts accepts guards) (hlt : accepts < 2 ^ 64) :
    stats.accepted.toNat = accepts := by
  rw [h.accepted, UInt64.toNat_ofNat_of_lt' hlt]

theorem Counts.toNat_active (h : stats.Counts accepts guards) (hlt : guards < 2 ^ 64) :
    stats.active.toNat = guards := by
  rw [h.active, UInt64.toNat_ofNat_of_lt' hlt]

end ListenerStats
end Gust
