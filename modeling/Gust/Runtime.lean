import Gust.Lib.Machine
import Gust.Lib.Watch

/-!
# The cooperative shutdown signal

`Shutdown` is a watch channel of booleans behind a shared sender. A `cancelled()`
call is a future of its own: it subscribes, reads the value, and then alternates
between waiting for a change and reading again. The future may be dropped at any
await point, because most callers hold it in an arm of a `select!`.

`Tasks` puts any number of such calls next to the channel they share and lets them
interleave with `trigger()` and `is_triggered()` in every order. The result about
the whole system is `neverLost_iff_exists_live`: the first `trigger()` is seen by
everybody, forever, exactly when some `cancelled()` call held a receiver at that
moment. `Shutdown::new` drops the receiver the channel is created with, so there
need not be one.
-/

namespace Gust

open Gust.Lib

/-- The channel behind every clone of one `Shutdown`. -/
abbrev Shutdown := Watch Bool

namespace Shutdown

/-- `let (tx, _) = watch::channel(false)`: the receiver is dropped at once. -/
def new : Shutdown := (Watch.channel false).dropReceiver

/-- `let _ = self.tx.send(true)`: the result of the store is ignored. -/
def trigger (w : Shutdown) : Shutdown := (w.send true).1

def isTriggered (w : Shutdown) : Bool := w.value

@[simp] theorem receivers_trigger (w : Shutdown) : w.trigger.receivers = w.receivers :=
  w.receivers_send true

theorem trigger_of_receivers_eq_zero {w : Shutdown} (h : w.receivers = 0) : w.trigger = w := by
  simp [trigger, Watch.send_of_receivers_eq_zero h]

theorem trigger_of_receivers_pos {w : Shutdown} (h : 0 < w.receivers) :
    w.trigger = { w with value := true, version := w.version + 1 } := by
  simp [trigger, Watch.send_of_receivers_pos h]

/-- Nothing ever stores `false` again. -/
theorem value_trigger_of_value {w : Shutdown} (h : w.value = true) : w.trigger.value = true := by
  rcases Nat.eq_zero_or_pos w.receivers with h0 | h0
  · rwa [trigger_of_receivers_eq_zero h0]
  · rw [trigger_of_receivers_pos h0]

end Shutdown

/-- The future of one `cancelled()` call. `checking` is about to read the value,
before the loop and in its body alike; `waiting` is inside `rx.changed().await`. -/
inductive Cancelled
  | checking (seen : ℕ)
  | waiting (seen : ℕ)
  | returned
  | dropped
  deriving DecidableEq, Repr

namespace Cancelled

/-- The call still owns its receiver. -/
def live : Cancelled → Bool
  | checking _ => true
  | waiting _ => true
  | returned => false
  | dropped => false

/-- `let mut rx = self.tx.subscribe()`. -/
def start (w : Shutdown) : Shutdown × Cancelled := (w.subscribe.1, checking w.subscribe.2)

/-- The call's own next step, if it is not blocked. The sender lives as long as the
call, which borrows it, so `changed()` never fails. -/
def advance (w : Shutdown) : Cancelled → Option (Shutdown × Cancelled)
  | checking seen => some (if w.value then (w.dropReceiver, returned) else (w, waiting seen))
  | waiting seen => if w.changed seen then some (w, checking w.version) else none
  | returned => none
  | dropped => none

/-- The future is dropped before it has completed. -/
def cancel (w : Shutdown) : Cancelled → Option (Shutdown × Cancelled)
  | checking _ => some (w.dropReceiver, dropped)
  | waiting _ => some (w.dropReceiver, dropped)
  | returned => none
  | dropped => none

/-- What a call knows about the channel: it has not seen more than was stored, and
if it waits on a channel that holds `true`, there is something new to see. -/
def Fresh (w : Shutdown) : Cancelled → Prop
  | checking seen => seen ≤ w.version
  | waiting seen => seen ≤ w.version ∧ (w.value = true → seen < w.version)
  | returned => True
  | dropped => True

theorem fresh_congr {w w' : Shutdown} (hv : w'.value = w.value) (hn : w'.version = w.version)
    (c : Cancelled) : c.Fresh w' ↔ c.Fresh w := by
  cases c <;> simp [Fresh, hv, hn]

theorem fresh_start (w : Shutdown) : (start w).2.Fresh (start w).1 := by
  simp [start, Fresh, Watch.subscribe]

theorem fresh_trigger {w : Shutdown} {c : Cancelled} (h : c.Fresh w) : c.Fresh w.trigger := by
  rcases Nat.eq_zero_or_pos w.receivers with h0 | h0
  · rwa [Shutdown.trigger_of_receivers_eq_zero h0]
  · rw [Shutdown.trigger_of_receivers_pos h0]
    cases c <;> simp only [Fresh] at h ⊢ <;> omega

/-- Everything an own step can do. -/
theorem advance_cases {w w' : Shutdown} {c c' : Cancelled} (h : c.advance w = some (w', c')) :
    (∃ seen, c = checking seen ∧ w.value = true ∧ w' = w.dropReceiver ∧ c' = returned) ∨
    (∃ seen, c = checking seen ∧ w.value = false ∧ w' = w ∧ c' = waiting seen) ∨
    (∃ seen, c = waiting seen ∧ w.version ≠ seen ∧ w' = w ∧ c' = checking w.version) := by
  cases c with
  | checking seen =>
      cases hv : w.value
      · simp [advance, hv] at h
        exact .inr (.inl ⟨seen, rfl, rfl, h.1.symm, h.2.symm⟩)
      · simp [advance, hv] at h
        exact .inl ⟨seen, rfl, rfl, h.1.symm, h.2.symm⟩
  | waiting seen =>
      by_cases hc : w.version = seen
      · simp [advance, Watch.changed, hc] at h
      · simp [advance, Watch.changed, hc] at h
        exact .inr (.inr ⟨seen, rfl, hc, h.1.symm, h.2.symm⟩)
  | returned => simp [advance] at h
  | dropped => simp [advance] at h

theorem cancel_cases {w w' : Shutdown} {c c' : Cancelled} (h : c.cancel w = some (w', c')) :
    c.live = true ∧ w' = w.dropReceiver ∧ c' = dropped := by
  cases c <;> simp [cancel] at h <;> simp [live, h]

/-- A call returns only when the value is `true`. -/
theorem value_of_advance_returned {w w' : Shutdown} {c : Cancelled}
    (h : c.advance w = some (w', returned)) : w.value = true := by
  rcases advance_cases h with ⟨_, _, hv, _, _⟩ | ⟨_, _, _, _, hc⟩ | ⟨_, _, _, _, hc⟩
  · exact hv
  · cases hc
  · cases hc

end Cancelled

/-- An arm of a `select!` that waits for the shutdown. The call it holds does nothing
before the arm is polled for the first time. -/
abbrev Arm := Option Cancelled

namespace Arm

def poll (w : Shutdown) : Arm → Option (Shutdown × Cancelled)
  | none => some (Cancelled.start w)
  | some c => c.advance w

/-- Another arm has won, or the whole task is gone. -/
def drop (w : Shutdown) : Arm → Shutdown
  | none => w
  | some c => if c.live then w.dropReceiver else w

@[simp] theorem value_drop (w : Shutdown) (arm : Arm) : (drop w arm).value = w.value := by
  cases arm with
  | none => rfl
  | some c =>
      simp only [drop]
      split <;> rfl

theorem value_poll {w w' : Shutdown} {arm : Arm} {c : Cancelled} (h : poll w arm = some (w', c)) :
    w'.value = w.value := by
  cases arm with
  | none =>
      cases h
      rfl
  | some c₀ =>
      rcases Cancelled.advance_cases h with ⟨_, _, _, rfl, _⟩ | ⟨_, _, _, rfl, _⟩ | ⟨_, _, _, rfl, _⟩
      · rfl
      · rfl
      · rfl

/-- The arm completes only when the value is `true`. -/
theorem value_of_poll_returned {w w' : Shutdown} {arm : Arm}
    (h : poll w arm = some (w', .returned)) : w.value = true := by
  cases arm with
  | none => cases h
  | some c => exact Cancelled.value_of_advance_returned h

end Arm

/-! ## Any number of tasks sharing one `Shutdown` -/

/-- The channel and every `cancelled()` call made so far, finished ones included. -/
structure Tasks where
  watch : Shutdown
  calls : List Cancelled
  deriving DecidableEq, Repr

namespace Tasks

/-- One atomic step of some task. -/
inductive Act
  /-- A task calls `trigger()`. -/
  | trigger
  /-- A task calls `is_triggered()`. -/
  | isTriggered
  /-- A task calls `cancelled()`, which subscribes. -/
  | cancelled
  /-- The `i`-th `cancelled()` call takes its own next step. -/
  | advance (i : ℕ)
  /-- The `select!` arm that holds the `i`-th call is cancelled. -/
  | cancel (i : ℕ)
  deriving DecidableEq, Repr

/-- Replace the `i`-th call by what an operation on it leaves. -/
def update (s : Tasks) (i : ℕ) (op : Shutdown → Cancelled → Option (Shutdown × Cancelled)) :
    Option Tasks :=
  match s.calls[i]? with
  | none => none
  | some c => (op s.watch c).map fun r => ⟨r.1, s.calls.set i r.2⟩

def step (s : Tasks) : Act → Option Tasks
  | .trigger => some { s with watch := s.watch.trigger }
  | .isTriggered => some s
  | .cancelled => some ⟨(Cancelled.start s.watch).1, s.calls ++ [(Cancelled.start s.watch).2]⟩
  | .advance i => s.update i Cancelled.advance
  | .cancel i => s.update i Cancelled.cancel

/-- A fresh `Shutdown` that no task has used. -/
def machine : Machine Tasks Act := ⟨⟨Shutdown.new, []⟩, step⟩

theorem update_eq_some {s t : Tasks} {i : ℕ}
    {op : Shutdown → Cancelled → Option (Shutdown × Cancelled)} (h : s.update i op = some t) :
    ∃ c w c', s.calls[i]? = some c ∧ op s.watch c = some (w, c') ∧
      t = ⟨w, s.calls.set i c'⟩ := by
  simp only [update] at h
  cases hc : s.calls[i]? with
  | none => simp [hc] at h
  | some c =>
      simp only [hc, Option.map_eq_some_iff] at h
      obtain ⟨⟨w, c'⟩, hop, rfl⟩ := h
      exact ⟨c, w, c', rfl, hop, rfl⟩

/-- The receiver count is the number of calls alive, and every call is fresh. -/
structure Inv (s : Tasks) : Prop where
  receivers_eq : s.watch.receivers = s.calls.countP Cancelled.live
  fresh : ∀ c ∈ s.calls, c.Fresh s.watch

theorem inv_init : Inv machine.init := ⟨rfl, by simp [machine]⟩

/-- An operation that ends a call's life gives its receiver back. -/
theorem inv_set_dropReceiver {s : Tasks} (hs : Inv s) {i : ℕ} {c c' : Cancelled}
    (hc : s.calls[i]? = some c) (hlive : c.live = true) (hdead : c'.live = false)
    (hfresh : c'.Fresh s.watch) : Inv ⟨s.watch.dropReceiver, s.calls.set i c'⟩ := by
  refine ⟨?_, ?_⟩
  · have h := countP_set_add (p := Cancelled.live) hc c'
    have hr := hs.receivers_eq
    simp only [hlive, hdead, if_true, Bool.false_eq_true, if_false] at h
    simp only [Watch.receivers_dropReceiver]
    omega
  · intro d hd
    refine (Cancelled.fresh_congr (w := s.watch) rfl rfl d).mpr ?_
    rcases List.mem_or_eq_of_mem_set hd with hd | rfl
    · exact hs.fresh d hd
    · exact hfresh

/-- An operation that keeps a call alive leaves the channel as it is. -/
theorem inv_set {s : Tasks} (hs : Inv s) {i : ℕ} {c c' : Cancelled}
    (hc : s.calls[i]? = some c) (hlive : c.live = c'.live) (hfresh : c'.Fresh s.watch) :
    Inv ⟨s.watch, s.calls.set i c'⟩ := by
  refine ⟨?_, ?_⟩
  · have h := countP_set_add (p := Cancelled.live) hc c'
    rw [hlive] at h
    have hr := hs.receivers_eq
    simp only
    omega
  · intro d hd
    rcases List.mem_or_eq_of_mem_set hd with hd | rfl
    · exact hs.fresh d hd
    · exact hfresh

theorem inv_advance {s t : Tasks} (hs : Inv s) {i : ℕ}
    (h : s.update i Cancelled.advance = some t) : Inv t := by
  obtain ⟨c, w, c', hc, hop, rfl⟩ := update_eq_some h
  have hfresh := hs.fresh c (List.mem_of_getElem? hc)
  rcases Cancelled.advance_cases hop with
    ⟨seen, rfl, hv, rfl, rfl⟩ | ⟨seen, rfl, hv, rfl, rfl⟩ | ⟨seen, rfl, hne, rfl, rfl⟩
  · exact inv_set_dropReceiver hs hc rfl rfl trivial
  · refine inv_set hs hc rfl ⟨hfresh, ?_⟩
    simp [hv]
  · exact inv_set hs hc rfl le_rfl

theorem inv_cancel {s t : Tasks} (hs : Inv s) {i : ℕ}
    (h : s.update i Cancelled.cancel = some t) : Inv t := by
  obtain ⟨c, w, c', hc, hop, rfl⟩ := update_eq_some h
  obtain ⟨hlive, rfl, rfl⟩ := Cancelled.cancel_cases hop
  exact inv_set_dropReceiver hs hc hlive rfl trivial

theorem inv_step (s : Tasks) (a : Act) (t : Tasks) (hs : Inv s) (h : step s a = some t) :
    Inv t := by
  cases a with
  | trigger =>
      obtain rfl := Option.some.inj h
      refine ⟨?_, fun c hc => Cancelled.fresh_trigger (hs.fresh c hc)⟩
      simpa using hs.receivers_eq
  | isTriggered =>
      obtain rfl := Option.some.inj h
      exact hs
  | cancelled =>
      obtain rfl := Option.some.inj h
      refine ⟨?_, ?_⟩
      · simp [Cancelled.start, Cancelled.live, List.countP_append, hs.receivers_eq]
      · intro c hc
        rcases List.mem_append.mp hc with hc | hc
        · exact (Cancelled.fresh_congr (w := s.watch) rfl rfl c).mpr (hs.fresh c hc)
        · rw [List.mem_singleton.mp hc]
          exact Cancelled.fresh_start s.watch
  | advance i => exact inv_advance hs h
  | cancel i => exact inv_cancel hs h

/-- Only `trigger()` touches the stored value. -/
theorem value_step_of_ne_trigger {s t : Tasks} {a : Act} (h : step s a = some t)
    (ha : a ≠ .trigger) : t.watch.value = s.watch.value := by
  cases a with
  | trigger => exact absurd rfl ha
  | isTriggered =>
      obtain rfl := Option.some.inj h
      rfl
  | cancelled =>
      obtain rfl := Option.some.inj h
      rfl
  | advance i =>
      obtain ⟨c, w, c', _, hop, rfl⟩ := update_eq_some h
      rcases Cancelled.advance_cases hop with
        ⟨_, _, _, rfl, _⟩ | ⟨_, _, _, rfl, _⟩ | ⟨_, _, _, rfl, _⟩ <;> rfl
  | cancel i =>
      obtain ⟨c, w, c', _, hop, rfl⟩ := update_eq_some h
      obtain ⟨_, rfl, _⟩ := Cancelled.cancel_cases hop
      rfl

/-- The stored value never goes back from `true` to `false`. -/
theorem value_run {s t : Tasks} {as : List Act} (h : machine.run s as = some t)
    (hv : s.watch.value = true) : t.watch.value = true := by
  refine Machine.run_invariant (I := fun s => s.watch.value = true) ?_ h hv
  intro s a t hs hstep
  by_cases ha : a = .trigger
  · subst ha
    obtain rfl := Option.some.inj hstep
    exact Shutdown.value_trigger_of_value hs
  · rw [value_step_of_ne_trigger hstep ha]
    exact hs

/-- Without a `trigger()` the value stays `false`. -/
theorem value_run_of_trigger_notMem {as : List Act} {s t : Tasks}
    (h : machine.run s as = some t) (hmem : Act.trigger ∉ as) (hv : s.watch.value = false) :
    t.watch.value = false := by
  induction as generalizing s with
  | nil => rwa [← Option.some.inj h]
  | cons a as ih =>
      obtain ⟨r, hr, ht⟩ := Machine.run_cons_iff.mp h
      rw [List.mem_cons, not_or] at hmem
      refine ih ht hmem.2 ?_
      rw [value_step_of_ne_trigger hr (Ne.symm hmem.1)]
      exact hv

/-! ## When a broadcast is lost -/

/-- The `i`-th call, left alone with the processor, returns. -/
def Completes (s : Tasks) (i : ℕ) : Prop :=
  ∃ as t, (∀ a ∈ as, a = Act.advance i) ∧ machine.run s as = some t ∧
    t.calls[i]? = some .returned

/-- In every state of every continuation, `is_triggered()` answers `true` and every
`cancelled()` call still alive, old or new, is enabled to complete. -/
def NeverLost (s : Tasks) : Prop :=
  ∀ as t, machine.run s as = some t → t.watch.isTriggered = true ∧
    ∀ i c, t.calls[i]? = some c → c.live = true → t.Completes i

theorem step_advance {s : Tasks} {i : ℕ} {c c' : Cancelled} {w : Shutdown}
    (hc : s.calls[i]? = some c) (hop : c.advance s.watch = some (w, c')) :
    machine.step s (.advance i) = some ⟨w, s.calls.set i c'⟩ := by
  simp [machine, step, update, hc, hop]

/-- A call about to read a `true` value returns in one step of its own. -/
theorem completes_checking {s : Tasks} (hv : s.watch.value = true) {i seen : ℕ}
    (hc : s.calls[i]? = some (.checking seen)) : s.Completes i := by
  have hstep : machine.step s (.advance i) =
      some ⟨s.watch.dropReceiver, s.calls.set i .returned⟩ :=
    step_advance hc (by simp [Cancelled.advance, hv])
  refine ⟨[.advance i], _, by simp, Machine.run_cons_iff.mpr ⟨_, hstep, rfl⟩, ?_⟩
  exact getElem?_set_of_getElem? hc _

/-- A waiting call on a channel that holds `true` wakes up, reads and returns. -/
theorem completes_waiting {s : Tasks} (hs : Inv s) (hv : s.watch.value = true) {i seen : ℕ}
    (hc : s.calls[i]? = some (.waiting seen)) : s.Completes i := by
  have hfresh : seen < s.watch.version := (hs.fresh _ (List.mem_of_getElem? hc)).2 hv
  have hstep : machine.step s (.advance i) =
      some ⟨s.watch, s.calls.set i (.checking s.watch.version)⟩ :=
    step_advance hc (by simp [Cancelled.advance, Watch.changed, (Nat.ne_of_lt hfresh).symm])
  obtain ⟨as, t, has, hrun, ht⟩ :=
    completes_checking (s := ⟨s.watch, s.calls.set i (.checking s.watch.version)⟩) hv
      (getElem?_set_of_getElem? hc _)
  refine ⟨.advance i :: as, t, ?_, Machine.run_cons_iff.mpr ⟨_, hstep, hrun⟩, ht⟩
  intro a ha
  rcases List.mem_cons.mp ha with rfl | ha
  · rfl
  · exact has a ha

theorem completes_of_live {s : Tasks} (hs : Inv s) (hv : s.watch.value = true) {i : ℕ}
    {c : Cancelled} (hc : s.calls[i]? = some c) (hlive : c.live = true) : s.Completes i := by
  cases c with
  | checking seen => exact completes_checking hv hc
  | waiting seen => exact completes_waiting hs hv hc
  | returned => cases hlive
  | dropped => cases hlive

/-- Once the value is `true`, nothing is lost any more. -/
theorem neverLost_of_value {s : Tasks} (hs : Inv s) (hv : s.watch.value = true) :
    s.NeverLost := by
  intro as t hrun
  have ht : t.watch.value = true := value_run hrun hv
  have hinv : Inv t := Machine.run_invariant inv_step hrun hs
  exact ⟨ht, fun i c hc hlive => completes_of_live hinv ht hc hlive⟩

theorem receivers_pos_iff {s : Tasks} (hs : Inv s) :
    0 < s.watch.receivers ↔ ∃ c ∈ s.calls, c.live = true := by
  rw [hs.receivers_eq, List.countP_pos_iff]

/-- **The first `trigger()` reaches everybody exactly when somebody is listening.**
For every run up to the first `trigger()`, nothing is lost after it if and only if
some `cancelled()` call owned its receiver when it was made. -/
theorem neverLost_iff_exists_live (as : List Act) {s t : Tasks}
    (hrun : machine.run machine.init as = some s) (hfirst : Act.trigger ∉ as)
    (ht : machine.step s .trigger = some t) :
    t.NeverLost ↔ ∃ c ∈ s.calls, c.live = true := by
  have hs : Inv s := Machine.run_invariant inv_step hrun inv_init
  have hv : s.watch.value = false := value_run_of_trigger_notMem hrun hfirst rfl
  have hinv : Inv t := inv_step s .trigger t hs ht
  obtain rfl := Option.some.inj ht
  rw [← receivers_pos_iff hs]
  constructor
  · intro hlost
    by_contra hzero
    have hsame : s.watch.trigger = s.watch :=
      Shutdown.trigger_of_receivers_eq_zero (by omega)
    have htrue := (hlost [] _ rfl).1
    simp [Shutdown.isTriggered, hsame, hv] at htrue
  · intro hpos
    refine neverLost_of_value hinv ?_
    simp [Shutdown.trigger_of_receivers_pos hpos]

/-- A task waiting in `cancelled()` when the signal arrives is enough. -/
theorem neverLost_one_waiting :
    ∃ s t, machine.run machine.init [.cancelled, .advance 0] = some s ∧
      machine.step s .trigger = some t ∧ t.NeverLost :=
  ⟨_, _, rfl, rfl, (neverLost_iff_exists_live [.cancelled, .advance 0] rfl
    (by decide) rfl).mpr (by decide)⟩

/-- A signal that arrives before anybody has called `cancelled()` is lost: the value
is still `false` when a call made afterwards has checked it. -/
theorem trigger_lost_without_receiver :
    ¬ ∀ as s t, machine.run machine.init as = some s → Act.trigger ∉ as →
      machine.step s .trigger = some t → t.NeverLost := by
  intro h
  have hlost := h [] _ _ rfl (by decide) rfl
  have hlate := (hlost [.cancelled, .advance 0] _ rfl).1
  exact absurd hlate (by decide)

end Tasks
end Gust
