import Gust.Backoff
import Gust.Userspace

/-!
# Coming back after failures

A listener that fails is restarted, with a pause in between. Here is how long that takes once
the cause is gone: from any state of the process, as long as there is no shutdown and the
listener's own binds and its serve loop do not fail any more, it is serving again after at most
seven steps of its own and one pause, of at most `backoffMax`; and then it stays so. What its
siblings do, and how often they fail, does not matter.

`distance` counts the steps that are left. Every one of them lowers it, nothing raises it, and
until it is 0 one of them is enabled.
-/

namespace Gust

open Gust.Lib

namespace Supervisor

variable {S : Service} {s s' : State S}

/-- The steps that are left until the serve loop runs. -/
def distance (tasks : List (Task S)) : Pc → ℕ
  | .selecting i _ =>
      match (tasks[i]?).map Task.serve with
      | some (.running _ _) => 0
      | some .binding => 1
      | _ => 7
  | .handling _ => 6
  | .rechecking => 5
  | .backingOff _ => 4
  | .checking => 3
  | .spawning => 2
  | .returned => 0

/-- The steps that lead back to a running serve loop. -/
def Act.recovers : Act S → Bool
  | .check | .spawn | .join | .handle | .recheck _ | .wake => true
  | .serve _ (.bind _) => true
  | _ => false

/-- The end of a pause. -/
def Act.wakes : Act S → Bool
  | .wake => true
  | _ => false

/-- The step is not a failure of the listener. -/
def Act.calm : Act S → Bool
  | .serve _ (.bind (some _)) => false
  | .serve _ .panic => false
  | _ => true

/-- The task the supervisor waits for is there, and every other one is over. -/
structure Current (s : State S) : Prop where
  lt : ∀ i arm, s.pc = .selecting i arm → i < s.tasks.length
  done : s.pc ≠ .returned → ∀ (j : ℕ) t, s.tasks[j]? = some t →
    (∀ arm, s.pc ≠ .selecting j arm) → t.serve.isDone = true

theorem serveStep_eq_none {w : Shutdown} {t : Task S} (h : t.serve.isDone = true)
    (a : ServeAct S) : serveStep w t a = none := by
  obtain ⟨f, aborted, joined⟩ := t
  cases f with
  | done r => cases a <;> simp [serveStep, Serve.isDone]
  | binding => cases h
  | running x arm => cases h

/-- A step that only moves the supervisor on. -/
theorem Current.goto (hs : Current s) {pc : Pc} (hold : ∀ i arm, s.pc ≠ .selecting i arm)
    (hreturned : s.pc ≠ .returned) (hpc : ∀ i arm, pc ≠ .selecting i arm) (w : Shutdown)
    (observed : Bool) (backoff restarts : ℕ) (lastError : Option Str) :
    Current ⟨w, s.others, pc, s.tasks, observed, backoff, restarts, lastError⟩ where
  lt i arm h := absurd h (hpc i arm)
  done _ j t ht _ := hs.done hreturned j t ht (hold j)

theorem current_poll (hs : Current s) (h : pollStep s = some s') : Current s' := by
  simp only [pollStep] at h
  split at h
  · rename_i i arm hpc
    obtain ⟨⟨w, c⟩, -, rfl⟩ := Option.map_eq_some_iff.mp h
    by_cases hc : c = .returned
    · simp only [if_pos hc]
      exact ⟨by simp [State.observe], by simp [State.observe]⟩
    · simp only [if_neg hc]
      refine ⟨fun j arm' hj => ?_, fun _ j t ht hne => ?_⟩
      · cases hj
        exact hs.lt i arm hpc
      · refine hs.done (by simp [hpc]) j t ht fun arm' hj => ?_
        rw [hpc] at hj
        cases hj
        exact hne c rfl
  · rename_i arm hpc
    obtain ⟨⟨w, c⟩, -, rfl⟩ := Option.map_eq_some_iff.mp h
    by_cases hc : c = .returned
    · simp only [if_pos hc]
      exact ⟨by simp [State.observe], by simp [State.observe]⟩
    · simp only [if_neg hc]
      exact hs.goto (by simp [hpc]) (by simp [hpc]) (by simp) _ _ _ _ _
  · cases h

theorem current_join (hs : Current s) (h : joinStep s = some s') : Current s' := by
  simp only [joinStep] at h
  split at h
  · rename_i i arm hpc
    split at h
    · rename_i r aborted joined ht
      cases h
      refine ⟨by simp, fun _ j t hj _ => ?_⟩
      obtain ⟨-, rfl⟩ | ⟨hij, hj⟩ := getElem?_set_cases hj
      · rfl
      · refine hs.done (by simp [hpc]) j t hj fun arm' hj' => ?_
        rw [hpc] at hj'
        cases hj'
        exact hij rfl
    · cases h
  · cases h

theorem current_handle (hs : Current s) (h : handleStep s = some s') : Current s' := by
  simp only [handleStep] at h
  split at h
  · rename_i hpc
    cases h
    exact hs.goto (by simp [hpc]) (by simp [hpc]) (by simp) _ _ _ _ _
  · rename_i e hpc
    cases h
    exact hs.goto (by simp [hpc]) (by simp [hpc]) (by simp) _ _ _ _ _
  · rename_i hpc
    cases h
    exact hs.goto (by simp [hpc]) (by simp [hpc]) (by simp) _ _ _ _ _
  · rename_i hpc
    cases h
    exact hs.goto (by simp [hpc]) (by simp [hpc]) (by simp) _ _ _ _ _
  · cases h

theorem current_serve (hs : Current s) {i : ℕ} {t : Task S} {f : Serve S} {a : ServeAct S}
    {w : Shutdown} (ht : s.tasks[i]? = some t) (h : serveStep s.watch t a = some (w, f)) :
    Current { s with watch := w, tasks := s.tasks.set i { t with serve := f } } := by
  refine ⟨fun j arm hj => ?_, fun hreturned j u hu hne => ?_⟩
  · rw [List.length_set]
    exact hs.lt j arm hj
  · obtain ⟨rfl, rfl⟩ | ⟨-, hu⟩ := getElem?_set_cases hu
    · -- only a task that is not over takes a step, and that one is waited for
      rw [serveStep_eq_none (hs.done hreturned j t ht hne)] at h
      cases h
    · exact hs.done hreturned j u hu hne

theorem current_step (s : State S) (a : Act S) (s' : State S) (hs : Current s)
    (h : step s a = some s') : Current s' := by
  cases a with
  | trigger =>
      cases h
      exact ⟨hs.lt, hs.done⟩
  | subscribe =>
      cases h
      exact ⟨hs.lt, hs.done⟩
  | unsubscribe =>
      simp only [step, Option.ite_none_right_eq_some, Option.some.injEq] at h
      obtain ⟨-, rfl⟩ := h
      exact ⟨hs.lt, hs.done⟩
  | check =>
      simp only [step, Option.ite_none_right_eq_some] at h
      obtain ⟨hpc, h⟩ := h
      split at h
      · cases h
        exact hs.goto (by simp [hpc]) (by simp [hpc]) (by simp) _ _ _ _ _
      · cases h
        exact hs.goto (by simp [hpc]) (by simp [hpc]) (by simp) _ _ _ _ _
  | spawn =>
      simp only [step, Option.ite_none_right_eq_some, Option.some.injEq] at h
      obtain ⟨hpc, rfl⟩ := h
      refine ⟨fun i arm hi => ?_, fun _ j t hj hne => ?_⟩
      · cases hi
        simp
      · have hlt : j < s.tasks.length := by
          have hlt := (List.getElem?_eq_some_iff.mp hj).1
          rw [List.length_append, List.length_singleton] at hlt
          have hneq : j ≠ s.tasks.length := by
            rintro rfl
            exact hne none rfl
          omega
        rw [List.getElem?_append_left hlt] at hj
        exact hs.done (by simp [hpc]) j t hj (by simp [hpc])
  | poll => exact current_poll hs h
  | join => exact current_join hs h
  | handle => exact current_handle hs h
  | recheck elapsed =>
      simp only [step, Option.ite_none_right_eq_some] at h
      obtain ⟨hpc, h⟩ := h
      split at h
      · cases h
        exact hs.goto (by simp [hpc]) (by simp [hpc]) (by simp) _ _ _ _ _
      · cases h
        exact hs.goto (by simp [hpc]) (by simp [hpc]) (by simp) _ _ _ _ _
  | wake =>
      simp only [step] at h
      split at h
      · rename_i arm hpc
        cases h
        exact hs.goto (by simp [hpc]) (by simp [hpc]) (by simp) _ _ _ _ _
      · cases h
  | serve i a =>
      obtain ⟨t, ht, h⟩ := Option.bind_eq_some_iff.mp h
      obtain ⟨⟨w, f⟩, hserve, rfl⟩ := Option.map_eq_some_iff.mp h
      exact current_serve hs ht hserve

theorem current (h : (machine S).Reachable s) : Current s := by
  refine h.invariant ⟨by simp [machine], ?_⟩ current_step
  simp [machine]

/-! ## The steps that are left -/

/-- The shutdown has not been seen, so the supervisor is still there. -/
theorem Inv.ne_returned (hs : Inv s) (hv : s.watch.value = false) : s.pc ≠ .returned := by
  intro hpc
  rw [hs.returned hpc] at hv
  cases hv

theorem distance_poll (hv : s.watch.value = false) (h : pollStep s = some s') :
    distance s'.tasks s'.pc = distance s.tasks s.pc := by
  have hne : ∀ {arm : Arm} {w : Shutdown} {c : Cancelled}, arm.poll s.watch = some (w, c) →
      c ≠ .returned := by
    rintro arm w c hpoll rfl
    rw [Arm.value_of_poll_returned hpoll] at hv
    cases hv
  simp only [pollStep] at h
  split at h
  · rename_i i arm hpc
    obtain ⟨⟨w, c⟩, hpoll, rfl⟩ := Option.map_eq_some_iff.mp h
    simp only [if_neg (hne hpoll), hpc, distance]
  · rename_i arm hpc
    obtain ⟨⟨w, c⟩, hpoll, rfl⟩ := Option.map_eq_some_iff.mp h
    simp only [if_neg (hne hpoll), hpc, distance]
  · cases h

/-- A step of the task that is waited for. -/
theorem distance_serve (hs : Inv s) (hcurrent : Current s) (hv : s.watch.value = false) {i : ℕ}
    {t : Task S} {f : Serve S} {a : ServeAct S} {w : Shutdown} (ht : s.tasks[i]? = some t)
    (ha : (Act.serve i a : Act S).calm = true) (h : serveStep s.watch t a = some (w, f)) :
    distance (s.tasks.set i { t with serve := f }) s.pc +
      (if (Act.serve i a : Act S).recovers then 1 else 0) ≤ distance s.tasks s.pc := by
  have hpc := hs.ne_returned hv
  obtain ⟨arm, hselecting⟩ : ∃ arm, s.pc = .selecting i arm := by
    by_contra hne
    rw [not_exists] at hne
    rw [serveStep_eq_none (hcurrent.done hpc i t ht hne)] at h
    cases h
  have hset := getElem?_set_of_getElem? ht { t with serve := f }
  simp only [distance, hselecting, hset, ht, Option.map_some]
  cases a with
  | bind fault =>
      cases fault with
      | some e => cases ha
      | none =>
          simp only [serveStep] at h
          split at h
          · rename_i hserve _
            cases h
            simp [hserve, Act.recovers]
          · rename_i hfault
            cases hfault
          · cases h
  | work b =>
      simp only [serveStep] at h
      split at h
      · rename_i x arm' hserve
        obtain ⟨x', -, heq⟩ := Option.map_eq_some_iff.mp h
        obtain ⟨-, arm'', hrunning⟩ := Serve.value_work s.watch x x' arm'
        rw [heq] at hrunning
        dsimp only at hrunning
        simp [hrunning, hserve, Act.recovers]
      · cases h
  | poll =>
      simp only [serveStep] at h
      split at h
      · rename_i x arm' hserve
        split at h
        · obtain ⟨⟨w₁, c⟩, hpoll, heq⟩ := Option.map_eq_some_iff.mp h
          rw [Prod.mk.injEq] at heq
          obtain ⟨rfl, rfl⟩ := heq
          have hc : c ≠ .returned := by
            rintro rfl
            rw [Arm.value_of_poll_returned hpoll] at hv
            cases hv
          simp [hc, hserve, Act.recovers]
        · cases h
      · cases h
  | panic => cases ha
  | reap =>
      simp only [serveStep, Option.ite_none_right_eq_some] at h
      exact absurd (hs.aborted t (List.mem_of_getElem? ht) h.1.1) hpc

/-- Every step on the way lowers the distance, and nothing raises it. -/
theorem distance_step (hs : Inv s) (hcurrent : Current s) (hv : s.watch.value = false) {a : Act S}
    (ha : a.calm = true) (h : step s a = some s') :
    distance s'.tasks s'.pc + (if a.recovers then 1 else 0) ≤ distance s.tasks s.pc := by
  have htriggered : s.watch.isTriggered = false := hv
  cases a with
  | trigger =>
      cases h
      exact le_rfl
  | subscribe =>
      cases h
      exact le_rfl
  | unsubscribe =>
      simp only [step, Option.ite_none_right_eq_some, Option.some.injEq] at h
      obtain ⟨-, rfl⟩ := h
      exact le_rfl
  | check =>
      simp only [step, Option.ite_none_right_eq_some, htriggered, Bool.false_eq_true, if_false,
        Option.some.injEq] at h
      obtain ⟨hpc, rfl⟩ := h
      simp [distance, hpc, Act.recovers]
  | spawn =>
      simp only [step, Option.ite_none_right_eq_some, Option.some.injEq] at h
      obtain ⟨hpc, rfl⟩ := h
      simp [distance, hpc, Act.recovers]
  | poll => exact (distance_poll hv h).le
  | join =>
      simp only [step, joinStep] at h
      split at h
      · rename_i i arm hpc
        split at h
        · rename_i r aborted joined ht
          cases h
          simp [distance, hpc, ht, Act.recovers]
        · cases h
      · cases h
  | handle =>
      simp only [step, handleStep] at h
      split at h
      · rename_i hpc
        rw [(hs.handling _ hpc).2 rfl] at hv
        cases hv
      · rename_i e hpc
        cases h
        simp [distance, hpc, Act.recovers]
      · rename_i hpc
        cases h
        simp [distance, hpc, Act.recovers]
      · rename_i hpc
        exact absurd rfl (hs.handling _ hpc).1
      · cases h
  | recheck elapsed =>
      simp only [step, Option.ite_none_right_eq_some, htriggered, Bool.false_eq_true, if_false,
        Option.some.injEq] at h
      obtain ⟨hpc, rfl⟩ := h
      simp [distance, hpc, Act.recovers]
  | wake =>
      simp only [step] at h
      split at h
      · rename_i arm hpc
        cases h
        simp [distance, hpc, Act.recovers]
      · cases h
  | serve i b =>
      obtain ⟨t, ht, h⟩ := Option.bind_eq_some_iff.mp h
      obtain ⟨⟨w, f⟩, hserve, rfl⟩ := Option.map_eq_some_iff.mp h
      exact distance_serve hs hcurrent hv ht ha hserve

theorem distance_le (tasks : List (Task S)) (pc : Pc) : distance tasks pc ≤ 7 := by
  cases pc with
  | selecting i arm =>
      simp only [distance]
      split <;> omega
  | _ => simp [distance]

/-- A pause may still be ahead. -/
def pauseLeft (tasks : List (Task S)) (pc : Pc) : ℕ := if 4 ≤ distance tasks pc then 1 else 0

theorem pauseLeft_step (hs : Inv s) (hcurrent : Current s) (hv : s.watch.value = false) {a : Act S}
    (ha : a.calm = true) (h : step s a = some s') :
    pauseLeft s'.tasks s'.pc + (if a.wakes then 1 else 0) ≤ pauseLeft s.tasks s.pc := by
  have hle := distance_step hs hcurrent hv ha h
  simp only [pauseLeft]
  cases a with
  | wake =>
      simp only [step] at h
      split at h
      · rename_i arm hpc
        cases h
        simp [distance, hpc, Act.wakes]
      · cases h
  | _ =>
      simp only [Act.wakes, Bool.false_eq_true, if_false, Nat.add_zero]
      split <;> split <;> omega

theorem backoffAfter_le {backoff : ℕ} (h : backoff ≤ backoffMax) (elapsed : ℕ) :
    backoffAfter backoff elapsed ≤ backoffMax := by
  simp only [backoffAfter]
  split
  · decide
  · exact h

theorem backoff_le (h : (machine S).Reachable s) : s.backoff ≤ backoffMax := by
  refine h.invariant (I := fun s => s.backoff ≤ backoffMax) ?_ ?_
  · simp [machine, backoffInitial, backoffMax]
  intro s a s' hs hstep
  have hphase := phase_step hstep
  generalize pauses s a = out at hphase
  cases hphase with
  | stay hphase hbackoff hrestarts htasks => exact hbackoff.trans_le hs
  | call hphase hphase' hbackoff hrestarts htasks => exact hbackoff.trans_le hs
  | pause elapsed hphase hphase' hbackoff hrestarts htasks =>
      exact hbackoff.trans_le (backoffAfter_le hs elapsed)
  | wake hphase hphase' hbackoff hrestarts htasks =>
      exact hbackoff.trans_le (Nat.min_le_right _ _)

/-- A supervisor whose serve loop does not run has a step on its way back to it. -/
theorem exists_recovery_step (hs : Inv s) (hcurrent : Current s) (hv : s.watch.value = false)
    (hdistance : distance s.tasks s.pc ≠ 0) :
    ∃ a : Act S, a.own = true ∧ a.recovers = true ∧ a.calm = true ∧
      ∃ s', step s a = some s' := by
  cases hpc : s.pc with
  | checking => exact ⟨.check, rfl, rfl, rfl, by simp [step, hpc, Shutdown.isTriggered, hv]⟩
  | spawning => exact ⟨.spawn, rfl, rfl, rfl, by simp [step, hpc]⟩
  | selecting i arm =>
      obtain ⟨t, ht⟩ : ∃ t, s.tasks[i]? = some t :=
        ⟨_, List.getElem?_eq_getElem (hcurrent.lt i arm hpc)⟩
      obtain ⟨f, aborted, joined⟩ := t
      cases f with
      | binding => exact ⟨.serve i (.bind none), rfl, rfl, rfl, by simp [step, ht, serveStep]⟩
      | running x arm' => simp [distance, hpc, ht] at hdistance
      | done r => exact ⟨.join, rfl, rfl, rfl, by simp [step, joinStep, hpc, ht]⟩
  | handling r =>
      refine ⟨.handle, rfl, rfl, rfl, ?_⟩
      cases r <;> simp [step, handleStep, hpc]
  | rechecking =>
      exact ⟨.recheck 0, rfl, rfl, rfl, by simp [step, hpc, Shutdown.isTriggered, hv]⟩
  | backingOff arm => exact ⟨.wake, rfl, rfl, rfl, by simp [step, hpc]⟩
  | returned => exact absurd hpc (hs.ne_returned hv)

end Supervisor

namespace Userspace

open Supervisor

variable {n : ℕ} {S : Fin n → Service} {s t : State S} {i : Fin n}

/-- The serve loop of the listener runs, and the supervisor waits for it. -/
def Listener.Serving {T : Service} (l : Listener T) : Prop :=
  ∃ j arm x arm', l.pc = .selecting j arm ∧ (l.tasks[j]?).map Task.serve = some (.running x arm')

def Act.recovers (i : Fin n) (a : Act S) : Bool := (a.ofListener i).any Supervisor.Act.recovers

def Act.wakes (i : Fin n) (a : Act S) : Bool := (a.ofListener i).any Supervisor.Act.wakes

/-- Neither a shutdown nor a failure of listener `i`. The others may fail as they like. -/
def Act.calm (i : Fin n) : Act S → Bool
  | .signals .trigger => false
  | a => (a.ofListener i).all Supervisor.Act.calm

/-- What the process is like before a shutdown. -/
structure Up (i : Fin n) (s : State S) : Prop where
  reachable : (machine S).Reachable s
  value : s.watch.value = false
  launched : i < s.main.launched n

theorem Up.supervisor (hs : Up i s) :
    (Supervisor.machine (S i)).Reachable ((s.listeners i).view s.watch) := by
  obtain ⟨as, has⟩ := hs.reachable
  obtain ⟨-, bs, hbs, -⟩ := projects_run (i := i) has
  exact ⟨bs, hbs⟩

theorem distance_eq_zero_iff (hs : Up i s) :
    distance (s.listeners i).tasks (s.listeners i).pc = 0 ↔ (s.listeners i).Serving := by
  have hreturned : (s.listeners i).pc ≠ .returned :=
    (Supervisor.inv hs.supervisor).ne_returned hs.value
  constructor
  · intro hzero
    cases hpc : (s.listeners i).pc with
    | selecting j arm =>
        simp only [distance, hpc] at hzero
        split at hzero
        · rename_i x arm' hrunning
          exact ⟨j, arm, x, arm', hpc, hrunning⟩
        · cases hzero
        · cases hzero
    | returned => exact absurd hpc hreturned
    | _ => simp [distance, hpc] at hzero
  · rintro ⟨j, arm, x, arm', hpc, hrunning⟩
    simp [distance, hpc, hrunning]

/-- A listener that is launched stays launched. -/
theorem launched_step {a : Act S} (hs : Inv s) (h : step s a = some t) :
    s.main.launched n ≤ t.main.launched n := by
  have hstage := hs.stage
  simp only [Stage] at hstage
  simp only [step, Option.ite_none_left_eq_some] at h
  obtain ⟨-, h⟩ := h
  cases a with
  | main a =>
      cases mainStep_cases h with
      | launch k hmain hk => simp [hmain, Main.launched]
      | install k hmain hk =>
          rw [hmain] at hstage
          simp [hmain, Main.launched, hstage.1]
      | _ => simp_all [Main.launched]
  | signals a =>
      cases signalsStep_cases h with
      | _ => exact le_rfl
  | heartbeat a =>
      cases heartbeatStep_cases h with
      | _ => exact le_rfl
  | listener j a =>
      obtain ⟨x, -, -, -, -, rfl⟩ := listenerStep_cases h
      exact le_rfl

theorem up_step (s : State S) (a : Act S) (t : State S) (ha : a.calm i = true) (hs : Up i s)
    (h : step s a = some t) : Up i t where
  reachable := hs.reachable.step h
  value := by
    rcases step_cases h with ⟨rfl, -⟩ | ⟨j, b, -, hlistener⟩ | ⟨-, hframe⟩
    · cases ha
    · obtain ⟨x, -, -, -, hcounts, rfl⟩ := listenerStep_cases hlistener
      exact hcounts.value.trans hs.value
    · exact hframe.value.trans hs.value
  launched := hs.launched.trans_le (launched_step (inv hs.reachable) h)

/-- A potential of one supervisor is one of the process, whatever the other tasks do. -/
theorem potential_step {φ : List (Task (S i)) → Pc → ℕ} {cost : Supervisor.Act (S i) → Bool}
    (hφ : ∀ (x : Supervisor.State (S i)) (b : Supervisor.Act (S i)) (x' : Supervisor.State (S i)),
      Supervisor.Inv x → Current x → x.watch.value = false → b.calm = true →
      Supervisor.step x b = some x' →
      φ x'.tasks x'.pc + (if cost b then 1 else 0) ≤ φ x.tasks x.pc)
    (s : State S) (a : Act S) (t : State S) (ha : a.calm i = true) (hs : Up i s)
    (h : step s a = some t) :
    φ (t.listeners i).tasks (t.listeners i).pc + (if (a.ofListener i).any cost then 1 else 0) ≤
      φ (s.listeners i).tasks (s.listeners i).pc := by
  rcases step_cases h with ⟨rfl, -⟩ | ⟨j, b, rfl, hlistener⟩ | ⟨hne, hframe⟩
  · cases ha
  · obtain ⟨x, hx, -, -, -, rfl⟩ := listenerStep_cases hlistener
    by_cases hij : j = i
    · subst hij
      have hcalm : b.calm = true := by simpa [Act.calm, Act.ofListener] using ha
      have hle := hφ _ b x (Supervisor.inv hs.supervisor) (current hs.supervisor) hs.value hcalm hx
      simpa [Act.ofListener, Listener.ofState, Listener.view] using hle
    · simp [Act.ofListener, hij, Function.update_of_ne (Ne.symm hij)]
  · rw [Act.ofListener_eq_none hne, hframe.listeners]
    exact le_rfl

/-- What a stretch `bs` of a run without a shutdown and without a failure of listener `i` does
for it, from `s` to `t`. -/
structure Recovers (i : Fin n) (bs : List (Act S)) (s t : State S) : Prop where
  /-- The way back is short. -/
  steps : bs.countP (Act.recovers i) ≤ 7
  /-- There is at most one pause on it, -/
  pauses : bs.countP (Act.wakes i) ≤ 1
  /-- and that is never longer than five seconds. -/
  pause : (t.listeners i).backoff ≤ backoffMax
  /-- Until the listener serves again, its next step is enabled. -/
  progress : ¬ (t.listeners i).Serving →
    ∃ a : Act S, a.recovers i = true ∧ ∃ u, (machine S).step t a = some u
  /-- Once it serves, it goes on. -/
  stays : (s.listeners i).Serving → (t.listeners i).Serving

theorem recovers {bs : List (Act S)} (hs : Up i s) (hbs : (machine S).run s bs = some t)
    (hcalm : ∀ a ∈ bs, a.calm i = true) : Recovers i bs s t := by
  obtain ⟨ht, hsteps⟩ := Machine.run_potential_of_forall (M := machine S) (I := Up i)
    (fun s => distance (s.listeners i).tasks (s.listeners i).pc) up_step
    (potential_step fun x b x' hx hcurrent hv hb h => distance_step hx hcurrent hv hb h)
    hbs hcalm hs
  obtain ⟨-, hpauses⟩ := Machine.run_potential_of_forall (M := machine S) (I := Up i)
    (fun s => pauseLeft (s.listeners i).tasks (s.listeners i).pc) up_step
    (potential_step fun x b x' hx hcurrent hv hb h => pauseLeft_step hx hcurrent hv hb h)
    hbs hcalm hs
  rw [← countP_eq_sum_map] at hsteps hpauses
  refine ⟨?_, ?_, backoff_le ht.supervisor, fun hnot => ?_, fun hserving => ?_⟩
  · have hle := distance_le (s.listeners i).tasks (s.listeners i).pc
    exact (Nat.le_add_left _ _).trans (hsteps.trans hle)
  · have hle : pauseLeft (s.listeners i).tasks (s.listeners i).pc ≤ 1 := by
      simp only [pauseLeft]
      split <;> omega
    exact (Nat.le_add_left _ _).trans (hpauses.trans hle)
  · obtain ⟨a, hown, hrecovers, -, x, hx⟩ := exists_recovery_step (Supervisor.inv ht.supervisor)
      (current ht.supervisor) ht.value (mt (distance_eq_zero_iff ht).mp hnot)
    have hmain : t.main ≠ .exited := by
      intro hexited
      have hstage := (inv ht.reachable).stage
      rw [Stage, hexited, ht.value] at hstage
      cases hstage
    refine ⟨.listener i a, by simpa [Act.recovers, Act.ofListener] using hrecovers, ?_⟩
    simp [machine, step, hmain, listenerStep, ht.launched, Listener.step, hown, hx]
  · rw [← distance_eq_zero_iff ht]
    rw [← distance_eq_zero_iff hs] at hserving
    omega

end Userspace

namespace App

/-- **A listener comes back.** From any state of any run of the process that is not being shut
down, as long as the binds and the serve loop of listener `i` do not fail and however its
siblings fail: it takes at most seven steps and one pause of at most five seconds until it
serves again, each of these steps is enabled when its turn comes, and then it goes on
serving. -/
theorem listener_recovers (specs : List ListenerSpec)
    {as bs : List (Userspace.Act (services specs))} {s t : Userspace.State (services specs)}
    (has : (runUserspace specs).run (runUserspace specs).init as = some s)
    (hv : s.watch.isTriggered = false) (i : Fin specs.length)
    (hi : i < s.main.launched specs.length) (hbs : (runUserspace specs).run s bs = some t)
    (hcalm : ∀ a ∈ bs, a.calm i = true) : Userspace.Recovers i bs s t :=
  Userspace.recovers ⟨⟨as, has⟩, hv, hi⟩ hbs hcalm

/-- The port of the first listener is in use at first, and the second one panics while the first
comes back. -/
theorem listener_recovers_bind :
    ∃ as bs s t, (runUserspace [⟨.tcp, ":80".toList, 80, ["a:1".toList], false, []⟩,
        ⟨.udp, ":53".toList, 53, ["b:2".toList], false, []⟩]).run
        (runUserspace _).init as = some s ∧
      (runUserspace _).run s bs = some t ∧ ¬ (s.listeners 0).Serving ∧
      (t.listeners 0).Serving ∧ Userspace.Recovers 0 bs s t := by
  obtain ⟨as, bs, s, t, has, hv, hi, hbs, hcalm, hfailed, hserving⟩ :
      ∃ as bs s t, (runUserspace [⟨.tcp, ":80".toList, 80, ["a:1".toList], false, []⟩,
          ⟨.udp, ":53".toList, 53, ["b:2".toList], false, []⟩]).run
          (runUserspace _).init as = some s ∧
        s.watch.isTriggered = false ∧ (0 : Fin 2) < s.main.launched 2 ∧
        (runUserspace _).run s bs = some t ∧ (∀ a ∈ bs, a.calm 0 = true) ∧
        ¬ (s.listeners 0).Serving ∧ (t.listeners 0).Serving := by
    refine ⟨[.main .next, .main .next, .listener 0 .check, .listener 0 .spawn, .listener 1 .check,
      .listener 1 .spawn, .listener 0 (.serve 0 (.bind (some ⟨.other, "in use".toList⟩)))],
     [.listener 0 .join, .listener 0 .handle, .listener 0 (.recheck 3), .listener 0 .poll,
      .listener 1 (.serve 0 .panic), .listener 0 .wake, .listener 0 .check, .listener 0 .spawn,
      .listener 0 (.serve 1 (.bind none))],
     _, _, rfl, rfl, by decide, rfl, by decide, ?_, 1, none, _, none, rfl, rfl⟩
    rintro ⟨j, arm, x, arm', hpc, hrunning⟩
    cases hpc
    cases hrunning
  exact ⟨as, bs, s, t, has, hbs, hfailed, hserving, listener_recovers _ has hv 0 hi hbs hcalm⟩

end App
end Gust
