import Mathlib.Data.Nat.Basic

/-!
# A single-slot watch channel

The sender half of a watch channel holds one value, a version that counts the
stores, and the number of receivers alive. A receiver is nothing but the version
it regards as seen. The four operations are the documented ones:

* `send v` stores `v` when at least one receiver exists; with none it reports a
  failure and leaves the stored value as it was;
* `subscribe` makes a receiver that regards the current value as seen;
* `changed` is ready once the stored version is not the seen one;
* dropping a receiver only lowers the count.
-/

namespace Gust.Lib

universe u

/-- The state shared by the sender and the receivers of a watch channel. -/
structure Watch (α : Type u) where
  /-- The stored value, which `borrow` reads. -/
  value : α
  /-- How often a value has been stored. -/
  version : ℕ
  /-- How many receivers are alive. -/
  receivers : ℕ
  deriving DecidableEq, Repr

namespace Watch

variable {α : Type u}

/-- A fresh channel, together with the receiver it is created with. -/
def channel (v : α) : Watch α := ⟨v, 0, 1⟩

/-- Store a value; `false` when there was nobody to store it for. -/
def send (w : Watch α) (v : α) : Watch α × Bool :=
  if w.receivers = 0 then (w, false)
  else ({ w with value := v, version := w.version + 1 }, true)

/-- A new receiver, which has seen the current version. -/
def subscribe (w : Watch α) : Watch α × ℕ :=
  ({ w with receivers := w.receivers + 1 }, w.version)

/-- Whether a receiver that has seen `seen` has something new to look at. -/
def changed (w : Watch α) (seen : ℕ) : Bool := w.version != seen

/-- One receiver goes out of scope. -/
def dropReceiver (w : Watch α) : Watch α := { w with receivers := w.receivers - 1 }

@[simp] theorem receivers_subscribe (w : Watch α) :
    w.subscribe.1.receivers = w.receivers + 1 := rfl
@[simp] theorem receivers_dropReceiver (w : Watch α) :
    w.dropReceiver.receivers = w.receivers - 1 := rfl

/-- Without a receiver a store is lost. -/
theorem send_of_receivers_eq_zero {w : Watch α} (h : w.receivers = 0) (v : α) :
    w.send v = (w, false) := by simp [send, h]

theorem send_of_receivers_pos {w : Watch α} (h : 0 < w.receivers) (v : α) :
    w.send v = ({ w with value := v, version := w.version + 1 }, true) := by
  simp [send, Nat.ne_of_gt h]

@[simp] theorem receivers_send (w : Watch α) (v : α) : (w.send v).1.receivers = w.receivers := by
  unfold send; split <;> rfl

end Watch
end Gust.Lib
