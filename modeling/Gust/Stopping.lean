import Gust.Userspace

/-!
# Stopping the process

What happens after SIGINT or SIGTERM. The signal task calls `trigger()` once and is gone,
so everything depends on whether that one call stores its value: it does exactly when some
task of the process is inside a `cancelled()` call (`receivers_pos_iff`). If
none is, the process cannot be stopped by a signal any more; from the moment the main task
waits, this cannot happen.

Once the value is stored, the control tasks (the main task, the supervisors, the heartbeat
and the signal task) run out of steps. `State.rank` bounds how many they have left, every
step of theirs lowers it, and as long as the main task has not returned one of them is
enabled (`shutdown_completes`).
-/

namespace Gust

open Gust.Lib Gust.Supervisor

/-! ## How many steps are left -/

/-- The polls an arm needs to complete on a channel that holds `true`. -/
def Arm.rank : Arm → ℕ
  | none => 2
  | some (.waiting _) => 2
  | some (.checking _) => 1
  | some .returned => 0
  | some .dropped => 0

namespace Arm

variable {w w' : Shutdown} {arm : Arm} {c : Cancelled}

theorem rank_pos (h : arm.Ready w) : 0 < arm.rank := by
  cases arm with
  | none => simp [rank]
  | some c =>
      have hlive := (h c rfl).1
      cases c with
      | checking seen => simp [rank]
      | waiting seen => simp [rank]
      | returned => cases hlive
      | dropped => cases hlive

theorem rank_le (arm : Arm) : arm.rank ≤ 2 := by
  cases arm with
  | none => simp [rank]
  | some c => cases c <;> simp [rank]

theorem rank_poll (hv : w.value = true) (h : arm.poll w = some (w', c)) :
    rank (some c) < arm.rank := by
  cases arm with
  | none =>
      cases h
      simp [rank]
  | some c₀ =>
      rcases Cancelled.advance_cases h with
        ⟨seen, rfl, -, -, rfl⟩ | ⟨seen, rfl, hfalse, -, -⟩ | ⟨seen, rfl, -, -, rfl⟩
      · simp [rank]
      · rw [hv] at hfalse
        cases hfalse
      · simp [rank]

/-- On a channel that holds `true` an arm is never blocked. -/
theorem exists_poll (hready : arm.Ready w) (hv : w.value = true) : ∃ r, arm.poll w = some r := by
  cases arm with
  | none => exact ⟨_, rfl⟩
  | some c =>
      obtain ⟨hlive, hfresh⟩ := hready c rfl
      cases c with
      | checking seen => exact ⟨_, rfl⟩
      | waiting seen =>
          have hlt : seen < w.version := hfresh.2 hv
          refine ⟨(w, .checking w.version), ?_⟩
          simp [poll, Cancelled.advance, Watch.changed, (Nat.ne_of_lt hlt).symm]
      | returned => cases hlive
      | dropped => cases hlive

end Arm

namespace Supervisor

variable {S : Service} {s s' : State S}

/-- The steps a supervisor has left on a channel that holds `true`. -/
def Pc.rank : Pc → ℕ
  | returned => 0
  | checking => 1
  | rechecking => 1
  | handling _ => 2
  | backingOff arm => 1 + arm.rank
  | selecting _ arm => 2 + arm.rank
  | spawning => 5

theorem Pc.rank_le (pc : Pc) : pc.rank ≤ 5 := by
  cases pc with
  | backingOff arm =>
      have := arm.rank_le
      simp only [rank]
      omega
  | selecting i arm =>
      have := arm.rank_le
      simp only [rank]
      omega
  | _ => simp [rank]

/-- A step of the supervisor, not of a task it has spawned. -/
def Act.control : Act S → Bool
  | .serve _ _ => false
  | _ => true

theorem rank_pollStep (hv : s.watch.value = true) (h : pollStep s = some s') :
    s'.pc.rank < s.pc.rank := by
  simp only [pollStep] at h
  split at h
  · rename_i i arm hpc
    obtain ⟨⟨w, c⟩, hpoll, rfl⟩ := Option.map_eq_some_iff.mp h
    have hlt := Arm.rank_poll hv hpoll
    rw [hpc]
    split
    · simp [State.observe, Pc.rank]
    · simp only [Pc.rank]
      omega
  · rename_i arm hpc
    obtain ⟨⟨w, c⟩, hpoll, rfl⟩ := Option.map_eq_some_iff.mp h
    have hlt := Arm.rank_poll hv hpoll
    rw [hpc]
    split
    · simp [State.observe, Pc.rank]
    · simp only [Pc.rank]
      omega
  · cases h

theorem rank_handleStep (h : handleStep s = some s') : s'.pc.rank < s.pc.rank := by
  simp only [handleStep] at h
  split at h
  · rename_i hpc
    cases h
    simp [hpc, Pc.rank]
  · rename_i e hpc
    cases h
    simp [hpc, Pc.rank]
  · rename_i hpc
    cases h
    simp [hpc, Pc.rank]
  · rename_i hpc
    cases h
    simp [hpc, Pc.rank]
  · cases h

/-- Once the value is `true`, each step of the supervisor brings it closer to its end. -/
theorem rank_step {a : Act S} (hv : s.watch.value = true) (hready : s.pc.arm.Ready s.watch)
    (ha : a.own = true) (h : step s a = some s') :
    s'.pc.rank + (if a.control then 1 else 0) ≤ s.pc.rank := by
  have htriggered : s.watch.isTriggered = true := hv
  have hlt : a.control = true → s'.pc.rank < s.pc.rank →
      s'.pc.rank + (if a.control then 1 else 0) ≤ s.pc.rank := by
    intro hcontrol hlt
    rw [if_pos hcontrol]
    exact hlt
  cases a with
  | trigger => cases ha
  | subscribe => cases ha
  | unsubscribe => cases ha
  | check =>
      simp only [step, htriggered, if_true, Option.ite_none_right_eq_some, Option.some.injEq] at h
      obtain ⟨hpc, rfl⟩ := h
      exact hlt rfl (by simp [State.observe, hpc, Pc.rank])
  | spawn =>
      simp only [step, Option.ite_none_right_eq_some, Option.some.injEq] at h
      obtain ⟨hpc, rfl⟩ := h
      exact hlt rfl (by simp [hpc, Pc.rank, Arm.rank])
  | poll => exact hlt rfl (rank_pollStep hv h)
  | join =>
      simp only [step, joinStep] at h
      split at h
      · rename_i i arm hpc
        split at h
        · cases h
          rw [hpc] at hready
          have hpos := Arm.rank_pos hready
          refine hlt rfl ?_
          simp only [hpc, Pc.rank]
          simp only [Pc.arm] at hpos
          omega
        · cases h
      · cases h
  | handle => exact hlt rfl (rank_handleStep h)
  | recheck elapsed =>
      simp only [step, htriggered, if_true, Option.ite_none_right_eq_some, Option.some.injEq] at h
      obtain ⟨hpc, rfl⟩ := h
      exact hlt rfl (by simp [State.observe, hpc, Pc.rank])
  | wake =>
      simp only [step] at h
      split at h
      · rename_i arm hpc
        cases h
        rw [hpc] at hready
        have hpos := Arm.rank_pos hready
        refine hlt rfl ?_
        simp only [hpc, Pc.rank]
        simp only [Pc.arm] at hpos
        omega
      · cases h
  | serve i a =>
      obtain ⟨t, ht, h⟩ := Option.bind_eq_some_iff.mp h
      obtain ⟨⟨w, f⟩, -, rfl⟩ := Option.map_eq_some_iff.mp h
      exact le_rfl

/-- The serve call a supervisor is about to make. -/
def Pc.spawns : Pc → ℕ
  | spawning => 1
  | _ => 0

/-- Once the value is `true`, a supervisor makes the call it is about to make and no other. -/
theorem spawns_step {a : Act S} (hv : s.watch.value = true) (h : step s a = some s') :
    s'.tasks.length + s'.pc.spawns ≤ s.tasks.length + s.pc.spawns := by
  have htriggered : s.watch.isTriggered = true := hv
  cases a with
  | trigger =>
      cases h
      exact le_rfl
  | subscribe =>
      cases h
      exact le_rfl
  | unsubscribe =>
      simp only [step, Option.ite_none_right_eq_some, Option.some.injEq] at h
      obtain ⟨-, rfl⟩ := h
      exact le_rfl
  | check =>
      simp only [step, htriggered, if_true, Option.ite_none_right_eq_some, Option.some.injEq] at h
      obtain ⟨hpc, rfl⟩ := h
      exact Nat.le_add_right _ _
  | spawn =>
      simp only [step, Option.ite_none_right_eq_some, Option.some.injEq] at h
      obtain ⟨hpc, rfl⟩ := h
      simp [hpc, Pc.spawns]
  | poll =>
      simp only [step, pollStep] at h
      split at h
      · obtain ⟨r, -, rfl⟩ := Option.map_eq_some_iff.mp h
        split <;> simp [State.observe, Pc.spawns, abort]
      · obtain ⟨r, -, rfl⟩ := Option.map_eq_some_iff.mp h
        split <;> simp [State.observe, Pc.spawns]
      · cases h
  | join =>
      simp only [step, joinStep] at h
      split at h
      · split at h
        · cases h
          simp [Pc.spawns]
        · cases h
      · cases h
  | handle =>
      simp only [step, handleStep] at h
      split at h <;> cases h <;> exact Nat.le_add_right _ _
  | recheck elapsed =>
      simp only [step, htriggered, if_true, Option.ite_none_right_eq_some, Option.some.injEq] at h
      obtain ⟨hpc, rfl⟩ := h
      exact Nat.le_add_right _ _
  | wake =>
      simp only [step] at h
      split at h
      · cases h
        exact Nat.le_add_right _ _
      · cases h
  | serve i a =>
      obtain ⟨t, ht, h⟩ := Option.bind_eq_some_iff.mp h
      obtain ⟨⟨w, f⟩, -, rfl⟩ := Option.map_eq_some_iff.mp h
      simp

/-- Once the value is `true`, a supervisor that has not returned can take a step. -/
theorem exists_control_step (hv : s.watch.value = true) (hready : s.pc.arm.Ready s.watch)
    (hpc : s.pc ≠ .returned) :
    ∃ a, a.own = true ∧ a.control = true ∧ ∃ s', step s a = some s' := by
  cases h : s.pc with
  | checking => exact ⟨.check, rfl, rfl, by simp [step, h, Shutdown.isTriggered, hv]⟩
  | spawning => exact ⟨.spawn, rfl, rfl, by simp [step, h]⟩
  | selecting i arm =>
      rw [h] at hready
      obtain ⟨r, hr⟩ := Arm.exists_poll hready hv
      refine ⟨.poll, rfl, rfl, ?_⟩
      simp only [Pc.arm] at hr
      simp [step, pollStep, h, hr]
  | handling r => exact ⟨.handle, rfl, rfl, by cases r <;> simp [step, handleStep, h]⟩
  | rechecking => exact ⟨.recheck 0, rfl, rfl, by simp [step, h, Shutdown.isTriggered, hv]⟩
  | backingOff arm =>
      rw [h] at hready
      obtain ⟨r, hr⟩ := Arm.exists_poll hready hv
      refine ⟨.poll, rfl, rfl, ?_⟩
      simp only [Pc.arm] at hr
      simp [step, pollStep, h, hr]
  | returned => exact absurd h hpc

end Supervisor

namespace Userspace

variable {n : ℕ} {S : Fin n → Service} {s t : State S}

def Main.rank (n : ℕ) : Main → ℕ
  | launching k => (n - k) + (n + 5)
  | installed => n + 4
  | waiting arm => arm.rank + (n + 1)
  | joining k => (n - k) + 1
  | exited => 0

def Heartbeat.rank : Heartbeat → ℕ
  | absent => 3
  | selecting arm => 1 + arm.rank
  | checking => 1
  | logging => 4
  | returned => 0

/-- The steps the control tasks have left once the value is `true`. -/
def State.rank (s : State S) : ℕ :=
  s.main.rank n + s.signals.rank + s.heartbeat.rank + ∑ i, (s.listeners i).pc.rank

/-- A step of the main task, a supervisor, the heartbeat or the signal task. -/
def Act.control : Act S → Bool
  | .listener _ a => a.control
  | _ => true

theorem State.rank_le (s : State S) : s.rank ≤ 7 * n + 13 := by
  have hmain : s.main.rank n ≤ 2 * n + 5 := by
    cases s.main with
    | waiting arm =>
        have := arm.rank_le
        simp only [Main.rank]
        omega
    | _ =>
        simp only [Main.rank]
        omega
  have hsignals : s.signals.rank ≤ 4 := by cases s.signals <;> simp [Signals.rank]
  have hheartbeat : s.heartbeat.rank ≤ 4 := by
    cases s.heartbeat with
    | selecting arm =>
        have := arm.rank_le
        simp only [Heartbeat.rank]
        omega
    | _ => simp [Heartbeat.rank]
  have hlisteners : ∑ i, (s.listeners i).pc.rank ≤ n * 5 := by
    have h := Finset.sum_le_card_nsmul Finset.univ (fun i => (s.listeners i).pc.rank) 5
      (fun i _ => Pc.rank_le _)
    simpa using h
  simp only [State.rank]
  omega

theorem rank_mainStep (hs : Inv s) (hv : s.watch.value = true) {a : MainAct}
    (h : mainStep s a = some t) : t.rank < s.rank := by
  have hstage := hs.stage
  simp only [Stage] at hstage
  simp only [State.rank]
  cases mainStep_cases h with
  | launch k hmain hk =>
      simp only [hmain, Main.rank]
      omega
  | install k hmain hk =>
      rw [hmain] at hstage
      simp only [hmain, hstage.2.1, Main.rank, Signals.rank]
      omega
  | heartbeat hmain =>
      rw [hmain] at hstage
      simp only [hmain, hstage, Main.rank, Heartbeat.rank, Arm.rank]
      omega
  | poll arm w c hmain hpoll hc =>
      have hlt := Arm.rank_poll hv hpoll
      simp only [hmain, Main.rank]
      omega
  | wake arm w hmain hpoll =>
      have hlt := Arm.rank_poll hv hpoll
      simp only [hmain, Main.rank]
      omega
  | join k hmain hk hpc =>
      simp only [hmain, Main.rank]
      omega
  | exit k hmain hk =>
      simp only [hmain, Main.rank]
      omega
  | timeout k hmain =>
      simp only [hmain, Main.rank]
      omega

theorem rank_signalsStep {a : SignalsAct} (h : signalsStep s a = some t) : t.rank < s.rank := by
  simp only [State.rank]
  cases signalsStep_cases h with
  | move a sig hsig hlt =>
      dsimp only
      omega
  | trigger hsig => simp [hsig, Signals.rank]

theorem rank_heartbeatStep (hs : Inv s) (hv : s.watch.value = true) {a : HeartbeatAct}
    (h : heartbeatStep s a = some t) : t.rank < s.rank := by
  have hready := hs.heartbeat
  simp only [State.rank]
  cases heartbeatStep_cases h with
  | poll arm w c hb hpoll hc =>
      have hlt := Arm.rank_poll hv hpoll
      simp only [hb, Heartbeat.rank]
      omega
  | stop arm w hb hpoll =>
      simp only [hb, Heartbeat.rank]
      omega
  | tick arm hb =>
      rw [hb] at hready
      have hpos : 0 < arm.rank := Arm.rank_pos hready
      simp only [hb, Heartbeat.rank]
      omega
  | leave hb hv' => simp [hb, Heartbeat.rank]
  | stay hb hfalse =>
      rw [hv] at hfalse
      cases hfalse
  | log hb => simp [hb, Heartbeat.rank, Arm.rank]

theorem rank_listenerStep (hs : Inv s) (hv : s.watch.value = true) {i : Fin n}
    {a : Supervisor.Act (S i)} (h : listenerStep s i a = some t) :
    t.rank + (if a.control then 1 else 0) ≤ s.rank := by
  obtain ⟨x, hstep, hown, -, -, rfl⟩ := listenerStep_cases h
  have hle := rank_step (s := (s.listeners i).view s.watch) hv (hs.listeners i) hown hstep
  have hsum := sum_update_add (fun l => l.pc.rank) s.listeners i (Listener.ofState x)
  have hpc : (Listener.ofState x).pc = x.pc := rfl
  have hview : ((s.listeners i).view s.watch).pc = (s.listeners i).pc := rfl
  simp only [State.rank]
  rw [hpc] at hsum
  rw [hview] at hle
  omega

/-- Every step of a control task lowers the rank, and no other step raises it. -/
theorem rank_step (hs : Inv s) (hv : s.watch.value = true) {a : Act S} (h : step s a = some t) :
    t.rank + (if a.control then 1 else 0) ≤ s.rank := by
  simp only [step, Option.ite_none_left_eq_some] at h
  obtain ⟨-, h⟩ := h
  cases a with
  | main a => exact rank_mainStep hs hv h
  | signals a => exact rank_signalsStep h
  | heartbeat a => exact rank_heartbeatStep hs hv h
  | listener i a => exact rank_listenerStep hs hv h

/-- The stored value never goes back. -/
theorem value_step {a : Act S} (hv : s.watch.value = true) (h : step s a = some t) :
    t.watch.value = true := by
  rcases step_cases h with ⟨-, rfl⟩ | ⟨i, b, -, hlistener⟩ | ⟨-, hframe⟩
  · exact Shutdown.value_trigger_of_value hv
  · obtain ⟨x, -, -, -, hcounts, rfl⟩ := listenerStep_cases hlistener
    exact hcounts.value.trans hv
  · exact hframe.value.trans hv

/-- What the rest of a run relies on once the value is `true`. -/
def Stopping (s : State S) : Prop := Inv s ∧ s.watch.value = true

theorem stopping_step (s : State S) (a : Act S) (t : State S) (hs : Stopping s)
    (h : step s a = some t) : Stopping t :=
  ⟨inv_step s a t hs.1 h, value_step hs.2 h⟩

/-- As long as the main task has not returned, a control task can move without waiting for
the time-out. -/
theorem exists_control_step (hs : Stopping s) (hmain : s.main ≠ .exited) :
    ∃ a : Act S, a.control = true ∧ a ≠ .main .timeout ∧ ∃ t, step s a = some t := by
  obtain ⟨hinv, hv⟩ := hs
  have hnext : (∃ t, mainStep s .next = some t) →
      ∃ a : Act S, a.control = true ∧ a ≠ .main .timeout ∧ ∃ t, step s a = some t := by
    intro hnext
    refine ⟨.main .next, rfl, by simp, ?_⟩
    simpa only [step, if_neg hmain] using hnext
  cases hm : s.main with
  | launching k =>
      refine hnext ?_
      simp only [mainStep, hm]
      split <;> exact ⟨_, rfl⟩
  | installed => exact hnext (by simp [mainStep, hm])
  | waiting arm =>
      have hready := hinv.main
      rw [hm] at hready
      obtain ⟨r, hr⟩ := Arm.exists_poll hready hv
      simp only [Main.arm] at hr
      exact hnext (by simp [mainStep, hm, hr])
  | joining k =>
      by_cases hk : k < n
      · by_cases hpc : (s.listeners ⟨k, hk⟩).pc = .returned
        · exact hnext (by simp [mainStep, hm, hk, hpc])
        · obtain ⟨a, hown, hcontrol, x, hx⟩ := Supervisor.exists_control_step
            (s := (s.listeners ⟨k, hk⟩).view s.watch) hv (hinv.listeners _) hpc
          refine ⟨.listener ⟨k, hk⟩ a, hcontrol, by simp, ?_⟩
          simp [step, hm, listenerStep, Main.launched, hk, Listener.step, hown, hx]
      · exact hnext (by simp [mainStep, hm, hk])
  | exited => exact absurd hm hmain

/-! ### The heartbeat and the serve tasks -/

/-- The line the heartbeat is about to write. -/
def Heartbeat.lines : Heartbeat → ℕ
  | logging => 1
  | _ => 0

def Act.logs : Act S → Bool
  | .heartbeat .log => true
  | _ => false

theorem lines_step (hv : s.watch.value = true) {a : Act S} (h : step s a = some t) :
    t.heartbeat.lines + (if a.logs then 1 else 0) ≤ s.heartbeat.lines := by
  simp only [step, Option.ite_none_left_eq_some] at h
  obtain ⟨-, h⟩ := h
  cases a with
  | main a =>
      cases mainStep_cases h with
      | heartbeat hmain => exact Nat.zero_le _
      | _ => exact le_rfl
  | signals a =>
      cases signalsStep_cases h with
      | move a sig hsig hlt => exact le_rfl
      | trigger hsig => exact le_rfl
  | heartbeat a =>
      cases heartbeatStep_cases h with
      | stay hb hfalse =>
          rw [hv] at hfalse
          cases hfalse
      | log hb => simp [hb, Heartbeat.lines, Act.logs]
      | _ => exact Nat.zero_le _
  | listener i a =>
      obtain ⟨x, -, -, -, -, rfl⟩ := listenerStep_cases h
      exact le_rfl

/-- The serve calls of listener `i`, with the one it is about to make. -/
def State.spawns (i : Fin n) (s : State S) : ℕ :=
  (s.listeners i).tasks.length + (s.listeners i).pc.spawns

theorem State.spawns_step (i : Fin n) (hv : s.watch.value = true) {a : Act S}
    (h : step s a = some t) : t.spawns i + 0 ≤ s.spawns i := by
  rcases step_cases h with ⟨-, rfl⟩ | ⟨j, b, -, hlistener⟩ | ⟨-, hframe⟩
  · exact le_rfl
  · obtain ⟨x, hstep, -, -, -, rfl⟩ := listenerStep_cases hlistener
    by_cases hij : i = j
    · subst hij
      simp only [State.spawns, Function.update_self]
      exact Supervisor.spawns_step (s := (s.listeners i).view s.watch) hv hstep
    · simp only [State.spawns, Function.update_of_ne hij]
      exact le_rfl
  · rw [State.spawns, hframe.listeners]
    exact le_rfl

/-- Without the time-out the main task returns after the last handle. -/
theorem returned_step {a : Act S} (hs : Inv s) (h : step s a = some t) (ha : a ≠ .main .timeout)
    (ht : t.main = .exited) (i : Fin n) : (t.listeners i).pc = .returned := by
  have hstage := hs.stage
  simp only [Stage] at hstage
  simp only [step, Option.ite_none_left_eq_some] at h
  obtain ⟨hmain, h⟩ := h
  cases a with
  | main a =>
      cases mainStep_cases h with
      | exit k hjoining hk =>
          rw [hjoining] at hstage
          exact hstage.2.2 i (lt_of_lt_of_le i.isLt hk)
      | timeout k hjoining => exact absurd rfl ha
      | _ => cases ht
  | signals a =>
      cases signalsStep_cases h with
      | move a sig hsig hlt => exact absurd ht hmain
      | trigger hsig => exact absurd ht hmain
  | heartbeat a =>
      cases heartbeatStep_cases h with
      | _ => exact absurd ht hmain
  | listener j a =>
      obtain ⟨x, -, -, -, -, rfl⟩ := listenerStep_cases h
      exact absurd ht hmain

theorem returned_run {as : List (Act S)} (h : (machine S).run (machine S).init as = some s)
    (has : Act.main .timeout ∉ as) (hs : s.main = .exited) (i : Fin n) :
    (s.listeners i).pc = .returned := by
  have hrun := Machine.run_trace_invariant (M := machine S)
    (I := fun as s => Inv s ∧ (Act.main .timeout ∉ as → s.main = .exited →
      (s.listeners i).pc = .returned))
    ⟨inv_init, fun _ hinit => by cases hinit⟩ ?_ h
  · exact hrun.2 has hs
  · intro as s a t hs hstep
    refine ⟨inv_step s a t hs.1 hstep, fun has ht => ?_⟩
    refine returned_step hs.1 hstep ?_ ht i
    rintro rfl
    exact has (by simp)

/-- What the rest of a run is like once the value is `true`: `as` led to `s`, and `bs` goes
on from there to `t`. -/
structure Completes (as bs : List (Act S)) (s t : State S) : Prop where
  /-- The control tasks take boundedly many steps more. -/
  bounded : bs.countP Act.control ≤ 7 * n + 13
  /-- One heartbeat line may already be on its way. -/
  lines : bs.countP Act.logs ≤ 1
  /-- So may one call of `serve` per listener. -/
  spawns : ∀ i, (t.listeners i).tasks.length ≤ (s.listeners i).tasks.length + 1
  /-- Until the main task returns, nobody has to wait for the time-out. -/
  progress : t.main ≠ .exited →
    ∃ a : Act S, a.control = true ∧ a ≠ .main .timeout ∧ ∃ u, (machine S).step t a = some u
  /-- A process that exits before the time-out has joined every supervisor. -/
  joined : t.main = .exited → Act.main .timeout ∉ as ++ bs →
    ∀ i, (t.listeners i).pc = .returned

theorem completes {as bs : List (Act S)} (has : (machine S).run (machine S).init as = some s)
    (hv : s.watch.value = true) (hbs : (machine S).run s bs = some t) : Completes as bs s t := by
  have hs : Stopping s := ⟨inv ⟨as, has⟩, hv⟩
  have ht : Stopping t := Machine.run_invariant stopping_step hbs hs
  refine ⟨?_, ?_, fun i => ?_, fun hmain => exists_control_step ht hmain, ?_⟩
  · have hrank := Machine.run_potential (M := machine S) State.rank stopping_step
      (fun s a t hs h => rank_step hs.1 hs.2 h) hbs hs
    rw [← countP_eq_sum_map] at hrank
    have := s.rank_le
    omega
  · have hlines := Machine.run_potential (M := machine S) (fun s => s.heartbeat.lines)
      stopping_step (fun s a t hs h => lines_step hs.2 h) hbs hs
    rw [← countP_eq_sum_map] at hlines
    have : s.heartbeat.lines ≤ 1 := by cases s.heartbeat <;> simp [Heartbeat.lines]
    omega
  · have hspawns := Machine.run_potential (M := machine S) (State.spawns i) stopping_step
      (fun s a t hs h => State.spawns_step i hs.2 h) hbs hs
    have : (s.listeners i).pc.spawns ≤ 1 := by cases (s.listeners i).pc <;> simp [Pc.spawns]
    simp only [State.spawns] at hspawns
    omega
  · exact fun hmain hnot i =>
      returned_run (Machine.run_append_iff.mpr ⟨s, has, hbs⟩) hnot hmain i

/-! ## Whether the signal is heard -/

/-- Some task of the process is inside a `cancelled()` call. -/
def Listening (s : State S) : Prop :=
  0 < s.main.arm.held ∨ 0 < s.heartbeat.arm.held ∨ ∃ i, 0 < (s.listeners i).held

theorem receivers_pos_iff (hs : Inv s) : 0 < s.watch.receivers ↔ Listening s := by
  rw [hs.receivers_eq, State.held, Listening]
  have hsum : 0 < (∑ i, (s.listeners i).held) ↔ ∃ i, 0 < (s.listeners i).held := by
    rw [Finset.sum_pos_iff]
    simp
  rw [← hsum]
  omega

/-- The value and the signal task belong together: only that task stores `true`, and only
once. -/
structure Heard (s : State S) : Prop where
  value : s.watch.value = true → s.signals = .returned
  launching : ∀ k, s.main = .launching k → s.signals = .absent

theorem heard_step (s : State S) (a : Act S) (t : State S) (hs : Heard s)
    (h : step s a = some t) : Heard t := by
  simp only [step, Option.ite_none_left_eq_some] at h
  obtain ⟨-, h⟩ := h
  cases a with
  | main a =>
      have hframe := frame_mainStep h
      cases mainStep_cases h with
      | launch k hmain hk => exact ⟨hs.value, fun _ _ => hs.launching k hmain⟩
      | install k hmain hk =>
          refine ⟨fun hv => ?_, by simp⟩
          have hret := hs.value hv
          rw [hs.launching k hmain] at hret
          cases hret
      | _ => exact ⟨fun hv => hs.value (hframe.value.symm.trans hv), by simp⟩
  | signals a =>
      cases signalsStep_cases h with
      | move a sig hsig hlt =>
          refine ⟨fun hv => ?_, fun k hmain => absurd (hs.launching k hmain) hsig⟩
          rw [hs.value hv] at hlt
          exact absurd hlt (Nat.not_lt_zero _)
      | trigger hsig =>
          refine ⟨fun _ => rfl, fun k hmain => ?_⟩
          have habsent := hs.launching k hmain
          rw [hsig] at habsent
          cases habsent
  | heartbeat a =>
      have hframe := frame_heartbeatStep h
      cases heartbeatStep_cases h with
      | _ => exact ⟨fun hv => hs.value (hframe.value.symm.trans hv), hs.launching⟩
  | listener i a =>
      obtain ⟨x, -, -, -, hcounts, rfl⟩ := listenerStep_cases h
      exact ⟨fun hv => hs.value (hcounts.value.symm.trans hv), hs.launching⟩

theorem heard (h : (machine S).Reachable s) : Heard s :=
  h.invariant ⟨nofun, fun _ _ => rfl⟩ heard_step

/-- The one `trigger()` was made, and nobody heard it. -/
structure Unheard (s : State S) : Prop where
  value : s.watch.value = false
  signals : s.signals = .returned
  launching : ∀ k, s.main ≠ .launching k
  inv : Inv s

theorem unheard_step (s : State S) (a : Act S) (t : State S) (hs : Unheard s)
    (h : step s a = some t) : Unheard t := by
  have hinv := inv_step s a t hs.inv h
  simp only [step, Option.ite_none_left_eq_some] at h
  obtain ⟨-, h⟩ := h
  cases a with
  | main a =>
      have hframe := frame_mainStep h
      cases mainStep_cases h with
      | launch k hmain hk => exact absurd hmain (hs.launching k)
      | install k hmain hk => exact absurd hmain (hs.launching k)
      | _ => exact ⟨hframe.value.trans hs.value, hs.signals, by simp, hinv⟩
  | signals a =>
      cases signalsStep_cases h with
      | move a sig hsig hlt =>
          rw [hs.signals] at hlt
          exact absurd hlt (Nat.not_lt_zero _)
      | trigger hsig =>
          rw [hs.signals] at hsig
          cases hsig
  | heartbeat a =>
      have hframe := frame_heartbeatStep h
      cases heartbeatStep_cases h with
      | _ => exact ⟨hframe.value.trans hs.value, hs.signals, hs.launching, hinv⟩
  | listener i a =>
      obtain ⟨x, -, -, -, hcounts, rfl⟩ := listenerStep_cases h
      exact ⟨hcounts.value.trans hs.value, hs.signals, hs.launching, hinv⟩

/-- A process nobody has told to stop does not exit. -/
theorem Unheard.main_ne (hs : Unheard s) : s.main ≠ .exited := by
  intro hmain
  have hstage := hs.inv.stage
  rw [Stage, hmain, hs.value] at hstage
  cases hstage

/-- What the one `trigger()` of the signal task decides, made in `s` and leading to `t`. -/
structure Decides (s t : State S) : Prop where
  /-- Somebody listens: the value is `true` from now on. -/
  heard : Listening s → ∀ bs u, (machine S).run t bs = some u → u.watch.isTriggered = true
  /-- Nobody does: the process goes on for ever, and no further signal is acted on. -/
  lost : ¬ Listening s → ∀ bs u, (machine S).run t bs = some u →
    u.watch.isTriggered = false ∧ u.main ≠ .exited ∧ u.signals = .returned
  /-- The main task listens from its first poll of `cancelled()` on. -/
  main : ∀ c, s.main = .waiting (some c) → Listening s

theorem decides (hs : (machine S).Reachable s)
    (h : (machine S).step s (.signals .trigger) = some t) : Decides s t := by
  have hinv := inv hs
  have hheard := heard hs
  have hinv' := inv_step s (.signals .trigger) t hinv h
  have hstep : signalsStep s .trigger = some t := by
    have h' : step s (.signals .trigger) = some t := h
    simp only [step, Option.ite_none_left_eq_some] at h'
    exact h'.2
  obtain ⟨hreceived, ht⟩ : s.signals = .received ∧
      t = { s with watch := s.watch.trigger, signals := .returned } := by
    simp only [signalsStep, Option.ite_none_right_eq_some, Option.some.injEq] at hstep
    exact ⟨hstep.1, hstep.2.symm⟩
  have hfalse : s.watch.value = false := by
    by_contra hne
    have hret := hheard.value (by simpa using hne)
    rw [hreceived] at hret
    cases hret
  refine ⟨fun hlisten bs u hrun => ?_, fun hnot bs u hrun => ?_, fun c hc => ?_⟩
  · have hpos := (receivers_pos_iff hinv).mpr hlisten
    have hstop : Stopping t := by
      refine ⟨hinv', ?_⟩
      rw [ht, Shutdown.trigger_of_receivers_pos hpos]
    exact (Machine.run_invariant stopping_step hrun hstop).2
  · rw [← receivers_pos_iff hinv] at hnot
    have hsame : s.watch.trigger = s.watch := Shutdown.trigger_of_receivers_eq_zero (by omega)
    have hunheard : Unheard t := by
      refine ⟨?_, by rw [ht], fun k hk => ?_, hinv'⟩
      · rw [ht, hsame]
        exact hfalse
      · rw [ht] at hk
        have habsent := hheard.launching k hk
        rw [hreceived] at habsent
        cases habsent
    have hu := Machine.run_invariant unheard_step hrun hunheard
    exact ⟨hu.value, hu.main_ne, hu.signals⟩
  · refine .inl ?_
    have hlive := (hinv.main c (by rw [hc]; rfl)).1
    simp [hc, Main.arm, Arm.held, hlive]

end Userspace

namespace App

/-- **Shutdown completes.** In every run of the process, from the moment the shutdown value
is stored: the control tasks take at most `7 n + 13` steps more for `n` listeners, and until
the main task returns one of them can always take its step without the five seconds being
over; at most one heartbeat line is written and at most one serve loop per listener is
started; and if the five seconds never end, every supervisor has returned by the exit. -/
theorem shutdown_completes (specs : List ListenerSpec)
    {as bs : List (Userspace.Act (services specs))} {s t : Userspace.State (services specs)}
    (has : (runUserspace specs).run (runUserspace specs).init as = some s)
    (hv : s.watch.isTriggered = true) (hbs : (runUserspace specs).run s bs = some t) :
    Userspace.Completes as bs s t :=
  Userspace.completes has hv hbs

/-- A signal while one listener is in its pause after a failed bind. -/
theorem shutdown_completes_in_pause :
    ∃ as bs s t, (runUserspace [⟨.tcp, ":80".toList, 80, ["a:1".toList], false, []⟩]).run
        (runUserspace _).init as = some s ∧ (runUserspace _).run s bs = some t ∧
      t.main = .exited ∧ Userspace.Completes as bs s t := by
  obtain ⟨as, bs, s, t, has, hv, hbs, hmain⟩ :
      ∃ as bs s t, (runUserspace [⟨.tcp, ":80".toList, 80, ["a:1".toList], false, []⟩]).run
        (runUserspace _).init as = some s ∧ s.watch.isTriggered = true ∧
        (runUserspace _).run s bs = some t ∧ t.main = .exited :=
    ⟨[.main .next, .main .next, .signals (.install true), .signals (.install true),
      .listener 0 .check, .listener 0 .spawn,
      .listener 0 (.serve 0 (.bind (some ⟨.other, "in use".toList⟩))), .listener 0 .join,
      .listener 0 .handle, .listener 0 (.recheck 3), .main .next, .main .next, .main .next,
      .signals .recv, .signals .trigger],
     [.main .next, .main .next, .listener 0 .poll, .listener 0 .poll, .main .next, .main .next],
     _, _, rfl, rfl, rfl, rfl⟩
  exact ⟨as, bs, s, t, has, hbs, hmain, shutdown_completes _ has hv hbs⟩

/-- **A signal is heard exactly when somebody listens.** The signal task triggers once. If
some task of the process is inside a `cancelled()` call then, the shutdown is seen by
everybody for ever; if none is, the process never exits and no further signal is acted on.
From its first poll on the main task is one that listens. -/
theorem signal_decides (specs : List ListenerSpec) {s t : Userspace.State (services specs)}
    (hs : (runUserspace specs).Reachable s)
    (h : (runUserspace specs).step s (.signals .trigger) = some t) : Userspace.Decides s t :=
  Userspace.decides hs h

/-- SIGTERM arrives right after the handlers are installed, before any task has polled. -/
theorem signal_decides_early :
    ∃ s t, (runUserspace [⟨.tcp, ":80".toList, 80, ["a:1".toList], false, []⟩]).Reachable s ∧
      (runUserspace _).step s (.signals .trigger) = some t ∧ ¬ Userspace.Listening s ∧
      ∀ bs u, (runUserspace _).run t bs = some u → u.main ≠ .exited := by
  obtain ⟨s, t, hs, ht, hnot⟩ :
      ∃ s t, (runUserspace [⟨.tcp, ":80".toList, 80, ["a:1".toList], false, []⟩]).Reachable s ∧
        (runUserspace _).step s (.signals .trigger) = some t ∧ ¬ Userspace.Listening s := by
    refine ⟨_, _, ⟨[.main .next, .main .next, .signals (.install true), .signals (.install true),
      .signals .recv], rfl⟩, rfl, ?_⟩
    rintro (hmain | hheartbeat | ⟨i, hi⟩)
    · exact absurd hmain (by decide)
    · exact absurd hheartbeat (by decide)
    · exact absurd hi (Nat.lt_irrefl 0)
  exact ⟨s, t, hs, ht, hnot, fun bs u hrun => ((signal_decides _ hs ht).lost hnot bs u hrun).2.1⟩

end App
end Gust
