import Mathlib.Algebra.Order.BigOperators.Group.Finset
import Gust.App

/-!
# The userspace process

`run_userspace` launches one supervisor per listener, the signal task and the heartbeat,
all around one `Shutdown`, waits in `cancelled()`, and then joins the supervisors. The
system here is all of these tasks at once: the labels of a run say whose turn it is, so a
result about every run is a result about every schedule.

Two facts carry everything else. The receiver count of the channel is the number of
`cancelled()` calls alive, over the main task, the heartbeat, the supervisors and their
serve tasks (`Inv.receivers_eq`). And what one listener does inside the process is a run
of its own supervisor's system, in which all the other tasks are the environment
(`listener_projects`): so whatever is proved of one supervised listener holds of each
listener of the process.
-/

namespace Gust

open Gust.Lib

/-! ## How many receivers a task holds -/

namespace Arm

/-- The receivers behind an arm. -/
def held : Arm → ℕ
  | none => 0
  | some c => if c.live then 1 else 0

/-- The call behind the arm, if it was polled, is still alive and fresh. -/
def Ready (w : Shutdown) (arm : Arm) : Prop :=
  ∀ c, arm = some c → c.live = true ∧ c.Fresh w

@[simp] theorem held_none : held none = 0 := rfl

theorem ready_none (w : Shutdown) : Ready w none := by simp [Ready]

theorem version_drop (w : Shutdown) (arm : Arm) : (drop w arm).version = w.version := by
  cases arm with
  | none => rfl
  | some c =>
      simp only [drop]
      split <;> rfl

theorem receivers_drop (w : Shutdown) (arm : Arm) :
    (drop w arm).receivers = w.receivers - held arm := by
  cases arm with
  | none => rfl
  | some c =>
      simp only [drop, held]
      split <;> simp

/-- A poll stores nothing, and counts its receiver. -/
theorem poll_spec {w w' : Shutdown} {arm : Arm} {c : Cancelled} (h : poll w arm = some (w', c)) :
    w'.value = w.value ∧ w'.version = w.version ∧
      (held arm ≤ w.receivers → w'.receivers + held arm = w.receivers + held (some c)) := by
  cases arm with
  | none =>
      cases h
      exact ⟨rfl, rfl, fun _ => rfl⟩
  | some c₀ =>
      rcases Cancelled.advance_cases h with
        ⟨seen, rfl, -, rfl, rfl⟩ | ⟨seen, rfl, -, rfl, rfl⟩ | ⟨seen, rfl, -, rfl, rfl⟩
      · refine ⟨rfl, rfl, fun hle => ?_⟩
        simp only [held, Cancelled.live, Watch.receivers_dropReceiver, if_true] at hle ⊢
        simp only [Bool.false_eq_true, if_false]
        omega
      · exact ⟨rfl, rfl, fun _ => rfl⟩
      · exact ⟨rfl, rfl, fun _ => rfl⟩

theorem ready_congr {w w' : Shutdown} (hv : w'.value = w.value) (hn : w'.version = w.version)
    {arm : Arm} (h : Ready w arm) : Ready w' arm :=
  fun c hc => ⟨(h c hc).1, (Cancelled.fresh_congr hv hn c).mpr (h c hc).2⟩

theorem ready_trigger {w : Shutdown} {arm : Arm} (h : Ready w arm) : Ready w.trigger arm :=
  fun c hc => ⟨(h c hc).1, Cancelled.fresh_trigger (h c hc).2⟩

/-- What a poll leaves, unless it has completed. -/
theorem ready_poll {w w' : Shutdown} {arm : Arm} {c : Cancelled} (harm : Ready w arm)
    (h : poll w arm = some (w', c)) (hc : c ≠ .returned) : Ready w' (some c) := by
  intro c' hc'
  cases hc'
  cases arm with
  | none =>
      cases h
      exact ⟨rfl, Cancelled.fresh_start w⟩
  | some c₀ =>
      have hfresh := (harm c₀ rfl).2
      rcases Cancelled.advance_cases h with
        ⟨seen, rfl, -, rfl, rfl⟩ | ⟨seen, rfl, hv, rfl, rfl⟩ | ⟨seen, rfl, -, rfl, rfl⟩
      · exact absurd rfl hc
      · refine ⟨rfl, hfresh, ?_⟩
        simp [hv]
      · exact ⟨rfl, le_rfl⟩

end Arm

namespace Supervisor

variable {S : Service}

def Serve.held : Serve S → ℕ
  | running _ arm => arm.held
  | binding => 0
  | done _ => 0

@[simp] theorem Serve.held_done (r : JoinResult) : (done r : Serve S).held = 0 := rfl

/-- The arm the supervisor itself waits in. -/
def Pc.arm : Pc → Arm
  | selecting _ arm => arm
  | backingOff arm => arm
  | _ => none

/-- A label of the listener itself, not of its environment. -/
def Act.own : Act S → Bool
  | .trigger => false
  | .subscribe => false
  | .unsubscribe => false
  | _ => true

theorem Serve.drop_spec (w : Shutdown) (f : Serve S) :
    (f.drop w).version = w.version ∧ (f.drop w).receivers = w.receivers - f.held := by
  cases f with
  | running s arm => exact ⟨Arm.version_drop w arm, Arm.receivers_drop w arm⟩
  | binding => exact ⟨rfl, rfl⟩
  | done r => exact ⟨rfl, rfl⟩

/-- A step of a serve task stores nothing, and counts its receivers. -/
theorem serveStep_held {w w' : Shutdown} {t : Task S} {a : ServeAct S} {f : Serve S}
    (h : serveStep w t a = some (w', f)) : w'.version = w.version ∧
      (t.serve.held ≤ w.receivers → w'.receivers + t.serve.held = w.receivers + f.held) := by
  cases a with
  | bind fault =>
      simp only [serveStep] at h
      split at h
      · rename_i hserve
        cases h
        exact ⟨rfl, fun _ => by rw [hserve]; rfl⟩
      · rename_i hserve
        cases h
        exact ⟨rfl, fun _ => by rw [hserve]; rfl⟩
      · cases h
  | work a =>
      simp only [serveStep] at h
      split at h
      · rename_i x arm hserve
        obtain ⟨x', -, heq⟩ := Option.map_eq_some_iff.mp h
        rw [hserve]
        simp only [Serve.work] at heq
        split at heq
        · cases heq
          exact ⟨rfl, fun _ => rfl⟩
        · cases heq
          refine ⟨Arm.version_drop w arm, fun hle => ?_⟩
          simp only [Serve.held, Arm.receivers_drop, Arm.held_none] at hle ⊢
          omega
      · cases h
  | poll =>
      simp only [serveStep] at h
      split at h
      · rename_i x arm hserve
        split at h
        · obtain ⟨⟨w₁, c⟩, hpoll, heq⟩ := Option.map_eq_some_iff.mp h
          rw [Prod.mk.injEq] at heq
          obtain ⟨rfl, rfl⟩ := heq
          obtain ⟨-, hversion, hreceivers⟩ := Arm.poll_spec hpoll
          refine ⟨hversion, fun hle => ?_⟩
          rw [hserve] at hle ⊢
          have hheld := hreceivers hle
          by_cases hc : c = .returned
          · subst hc
            simpa [Serve.held, Arm.held, Cancelled.live] using hheld
          · simpa only [if_neg hc, Serve.held] using hheld
        · cases h
      · cases h
  | panic =>
      simp only [serveStep] at h
      split at h
      · cases h
      · cases h
        obtain ⟨hversion, hreceivers⟩ := Serve.drop_spec w t.serve
        refine ⟨hversion, fun hle => ?_⟩
        rw [hreceivers, Serve.held_done]
        omega
  | reap =>
      simp only [serveStep, Option.ite_none_right_eq_some, Option.some.injEq, Prod.mk.injEq] at h
      obtain ⟨-, rfl, rfl⟩ := h
      obtain ⟨hversion, hreceivers⟩ := Serve.drop_spec w t.serve
      refine ⟨hversion, fun hle => ?_⟩
      rw [hreceivers, Serve.held_done]
      omega

/-- The receivers of the supervisor and of every task it has spawned. -/
def State.held (s : State S) : ℕ := s.pc.arm.held + (s.tasks.map fun t => t.serve.held).sum

variable {s s' : State S}

/-- What a listener's own step does to the channel: it stores nothing, changes the count by
its own receivers only, and leaves its own arm ready. -/
structure Counts (s s' : State S) : Prop where
  others : s'.others = s.others
  value : s'.watch.value = s.watch.value
  version : s'.watch.version = s.watch.version
  receivers : s.held ≤ s.watch.receivers →
    s'.watch.receivers + s.held = s.watch.receivers + s'.held
  ready : s.pc.arm.Ready s.watch → s'.pc.arm.Ready s'.watch

/-- The supervisor goes on to a place where it does not wait. -/
theorem counts_leave (pc : Pc) (hpc : pc.arm = none) (tasks : List (Task S))
    (htasks : (tasks.map fun t => t.serve.held).sum = (s.tasks.map fun t => t.serve.held).sum)
    (observed : Bool) (backoff restarts : ℕ) (lastError : Option Str) :
    Counts s { s with
      watch := s.pc.arm.drop s.watch, pc := pc, tasks := tasks, observed := observed
      backoff := backoff, restarts := restarts, lastError := lastError } where
  others := rfl
  value := Arm.value_drop s.watch s.pc.arm
  version := Arm.version_drop s.watch s.pc.arm
  receivers hle := by
    simp only [State.held, hpc, htasks, Arm.receivers_drop, Arm.held_none] at hle ⊢
    omega
  ready _ := by
    rw [hpc]
    exact Arm.ready_none _

/-- The supervisor polls its arm, and stays or returns. -/
theorem counts_poll (pc : Pc) {w : Shutdown} {c : Cancelled}
    (hpoll : s.pc.arm.poll s.watch = some (w, c))
    (hpc : pc.arm = if c = .returned then none else some c) (tasks : List (Task S))
    (htasks : (tasks.map fun t => t.serve.held).sum = (s.tasks.map fun t => t.serve.held).sum)
    (observed : Bool) :
    Counts s { s with watch := w, pc := pc, tasks := tasks, observed := observed } := by
  obtain ⟨hvalue, hversion, hreceivers⟩ := Arm.poll_spec hpoll
  have hheld : pc.arm.held = Arm.held (some c) := by
    rw [hpc]
    split
    · rename_i hc
      subst hc
      rfl
    · rfl
  refine ⟨rfl, hvalue, hversion, fun hle => ?_, fun hready => ?_⟩
  · simp only [State.held, htasks, hheld] at hle ⊢
    have := hreceivers (by omega)
    omega
  · simp only [hpc]
    split
    · exact Arm.ready_none w
    · rename_i hc
      exact Arm.ready_poll hready hpoll hc

theorem held_abort (tasks : List (Task S)) (i : ℕ) :
    (abort tasks i).map (fun t => t.serve.held) = tasks.map fun t => t.serve.held := by
  refine List.ext_getElem? fun j => ?_
  rw [abort, List.getElem?_map, List.getElem?_map, List.getElem?_modify]
  cases tasks[j]? with
  | none => rfl
  | some t =>
      simp only [Option.map_some]
      split <;> rfl

theorem counts_pollStep (h : pollStep s = some s') : Counts s s' := by
  simp only [pollStep] at h
  split at h
  · rename_i i arm hpc
    obtain ⟨⟨w, c⟩, hpoll, rfl⟩ := Option.map_eq_some_iff.mp h
    have harm : s.pc.arm.poll s.watch = some (w, c) := by rwa [hpc]
    by_cases hc : c = .returned
    · simp only [if_pos hc]
      exact counts_poll .returned harm (by simp [hc, Pc.arm]) _ (by rw [held_abort]) _
    · simp only [if_neg hc]
      exact counts_poll (.selecting i c) harm (by simp [hc, Pc.arm]) _ rfl _
  · rename_i arm hpc
    obtain ⟨⟨w, c⟩, hpoll, rfl⟩ := Option.map_eq_some_iff.mp h
    have harm : s.pc.arm.poll s.watch = some (w, c) := by rwa [hpc]
    by_cases hc : c = .returned
    · simp only [if_pos hc]
      exact counts_poll .returned harm (by simp [hc, Pc.arm]) _ rfl _
    · simp only [if_neg hc]
      exact counts_poll (.backingOff c) harm (by simp [hc, Pc.arm]) _ rfl _
  · cases h

theorem counts_joinStep (h : joinStep s = some s') : Counts s s' := by
  simp only [joinStep] at h
  split at h
  · rename_i i arm hpc
    split at h
    · rename_i r aborted joined ht
      cases h
      have harm : arm = s.pc.arm := by rw [hpc]; rfl
      rw [harm]
      have hheld := map_set_of_eq (f := fun t : Task S => t.serve.held)
        (y := ⟨.done r, aborted, true⟩) ht rfl
      exact counts_leave (.handling r) rfl _ (congrArg List.sum hheld) _ _ _ _
    · cases h
  · cases h

/-- A step from a place where the supervisor does not wait. -/
theorem counts_goto {pc : Pc} (hold : s.pc.arm = none) (hpc : pc.arm = none) (observed : Bool)
    (backoff restarts : ℕ) (lastError : Option Str) :
    Counts s { s with
      pc := pc, observed := observed, backoff := backoff, restarts := restarts
      lastError := lastError } := by
  have h := counts_leave (s := s) pc hpc s.tasks rfl observed backoff restarts lastError
  rwa [hold] at h

theorem counts_handleStep (h : handleStep s = some s') : Counts s s' := by
  simp only [handleStep] at h
  split at h
  · rename_i hpc
    cases h
    exact counts_goto (by rw [hpc]; rfl) rfl _ _ _ _
  · rename_i e hpc
    cases h
    exact counts_goto (by rw [hpc]; rfl) rfl _ _ _ _
  · rename_i hpc
    cases h
    exact counts_goto (by rw [hpc]; rfl) rfl _ _ _ _
  · rename_i hpc
    cases h
    exact counts_goto (by rw [hpc]; rfl) rfl _ _ _ _
  · cases h

theorem counts_serve {i : ℕ} {t : Task S} {a : ServeAct S} {w : Shutdown} {f : Serve S}
    (ht : s.tasks[i]? = some t) (h : serveStep s.watch t a = some (w, f)) :
    Counts s { s with watch := w, tasks := s.tasks.set i { t with serve := f } } := by
  obtain ⟨hversion, hreceivers⟩ := serveStep_held h
  obtain ⟨hvalue, -⟩ := serveStep_spec h
  refine ⟨rfl, hvalue, hversion, fun hle => ?_, Arm.ready_congr hvalue hversion⟩
  have hsum := sum_map_set_add (f := fun u : Task S => u.serve.held) ht { t with serve := f }
  simp only [State.held] at hle hsum ⊢
  have hone := sum_map_set_add (f := fun u : Task S => u.serve.held) ht
    { t with serve := .done .ok }
  simp only [Serve.held_done] at hone
  have := hreceivers (by omega)
  omega

theorem counts_step {a : Act S} (ha : a.own = true) (h : step s a = some s') : Counts s s' := by
  cases a with
  | trigger => cases ha
  | subscribe => cases ha
  | unsubscribe => cases ha
  | check =>
      simp only [step, Option.ite_none_right_eq_some] at h
      obtain ⟨hpc, h⟩ := h
      split at h
      · cases h
        exact counts_goto (by rw [hpc]; rfl) rfl _ _ _ _
      · cases h
        exact counts_goto (by rw [hpc]; rfl) rfl _ _ _ _
  | spawn =>
      simp only [step, Option.ite_none_right_eq_some, Option.some.injEq] at h
      obtain ⟨hpc, rfl⟩ := h
      have hleave := counts_leave (s := s) (.selecting s.tasks.length none) rfl
        (s.tasks ++ [⟨.binding, false, false⟩]) (by simp [Serve.held]) s.observed s.backoff
        s.restarts s.lastError
      rwa [hpc] at hleave
  | poll => exact counts_pollStep h
  | join => exact counts_joinStep h
  | handle => exact counts_handleStep h
  | recheck elapsed =>
      simp only [step, Option.ite_none_right_eq_some] at h
      obtain ⟨hpc, h⟩ := h
      split at h
      · cases h
        exact counts_goto (by rw [hpc]; rfl) rfl _ _ _ _
      · cases h
        exact counts_goto (by rw [hpc]; rfl) rfl _ _ _ _
  | wake =>
      simp only [step] at h
      split at h
      · rename_i arm hpc
        cases h
        have harm : arm = s.pc.arm := by rw [hpc]; rfl
        rw [harm]
        exact counts_leave .checking rfl _ rfl _ _ _ _
      · cases h
  | serve i a =>
      obtain ⟨t, ht, h⟩ := Option.bind_eq_some_iff.mp h
      obtain ⟨⟨w, f⟩, hserve, rfl⟩ := Option.map_eq_some_iff.mp h
      exact counts_serve ht hserve

/-! ### The environment of one listener

Everybody else may hold as many receivers as they like. -/

/-- A state in which the others hold `k` receivers. -/
def State.setOthers (s : State S) (k : ℕ) : State S :=
  { s with watch := { s.watch with receivers := s.watch.receivers - s.others + k }, others := k }

theorem run_subscribe (s : State S) (k : ℕ) :
    (machine S).run (s.setOthers 0) (List.replicate k .subscribe) = some (s.setOthers k) := by
  induction k with
  | zero => rfl
  | succ k ih =>
      rw [List.replicate_succ', Machine.run_append_iff]
      refine ⟨_, ih, Machine.run_cons_iff.mpr ⟨_, rfl, ?_⟩⟩
      simp [Machine.run, State.setOthers, Watch.subscribe, Nat.add_assoc]

theorem run_unsubscribe {k : ℕ} (hs : s.others ≤ s.watch.receivers) (hk : s.others = k) :
    (machine S).run s (List.replicate k .unsubscribe) = some (s.setOthers 0) := by
  induction k generalizing s with
  | zero =>
      simp only [List.replicate_zero, Machine.run, Option.some.injEq]
      cases s
      subst hk
      rfl
  | succ k ih =>
      have hstep : (machine S).step s .unsubscribe =
          some { s with watch := s.watch.dropReceiver, others := s.others - 1 } := by
        simp [machine, step, hk]
      refine Machine.run_cons_iff.mpr ⟨_, hstep, ?_⟩
      rw [ih (by simp only [Watch.receivers_dropReceiver]; omega) (by simp only [hk]; omega)]
      simp only [State.setOthers, Watch.dropReceiver, Option.some.injEq, State.mk.injEq,
        Watch.mk.injEq, and_true, true_and]
      omega

/-- The others may change how many receivers they hold, to any number. -/
theorem run_setOthers (hs : s.others ≤ s.watch.receivers) (k : ℕ) :
    ∃ bs, (machine S).run s bs = some (s.setOthers k) ∧ ∀ b ∈ bs, b.own = false := by
  refine ⟨List.replicate s.others .unsubscribe ++ List.replicate k .subscribe, ?_, ?_⟩
  · exact Machine.run_append_iff.mpr ⟨_, run_unsubscribe hs rfl, run_subscribe s k⟩
  · intro b hb
    rcases List.mem_append.mp hb with hb | hb
    · rw [List.eq_of_mem_replicate hb]
      rfl
    · rw [List.eq_of_mem_replicate hb]
      rfl

end Supervisor

namespace Userspace

open Supervisor

/-! ## The tasks of the process -/

/-- What belongs to one listener alone: its supervisor and the tasks it has spawned. -/
structure Listener (S : Service) where
  pc : Pc
  tasks : List (Task S)
  observed : Bool
  backoff : ℕ
  restarts : ℕ
  lastError : Option Str

namespace Listener

variable {S : Service}

def init : Listener S := ⟨.checking, [], false, backoffInitial, 0, none⟩

def held (l : Listener S) : ℕ := l.pc.arm.held + (l.tasks.map fun t => t.serve.held).sum

/-- The supervisor's system as the listener sees it: all other receivers are the others'. -/
def view (w : Shutdown) (l : Listener S) : Supervisor.State S where
  watch := w
  others := w.receivers - l.held
  pc := l.pc
  tasks := l.tasks
  observed := l.observed
  backoff := l.backoff
  restarts := l.restarts
  lastError := l.lastError

def ofState (s : Supervisor.State S) : Listener S :=
  ⟨s.pc, s.tasks, s.observed, s.backoff, s.restarts, s.lastError⟩

/-- The listener takes a step of its own. -/
def step (w : Shutdown) (l : Listener S) (a : Supervisor.Act S) : Option (Shutdown × Listener S) :=
  if a.own then (Supervisor.step (l.view w) a).map fun s => (s.watch, ofState s) else none

end Listener

/-- Where `run_userspace` is. -/
inductive Main
  /-- So many listeners are spawned. -/
  | launching (k : ℕ)
  /-- The signal handlers are installed, the heartbeat is next. -/
  | installed
  /-- In `shutdown.cancelled().await`. -/
  | waiting (arm : Arm)
  /-- So many handles are joined. -/
  | joining (k : ℕ)
  | exited
  deriving DecidableEq, Repr

/-- The task that turns the first SIGINT or SIGTERM into `trigger()`. -/
inductive Signals
  | absent
  | sigint
  | sigterm
  | receiving
  | received
  | returned
  deriving DecidableEq, Repr

/-- The heartbeat task: its `select!`, the check behind it, and the line it writes. -/
inductive Heartbeat
  | absent
  | selecting (arm : Arm)
  | checking
  | logging
  | returned
  deriving DecidableEq, Repr

variable {n : ℕ}

structure State (S : Fin n → Service) where
  watch : Shutdown
  main : Main
  signals : Signals
  heartbeat : Heartbeat
  listeners : (i : Fin n) → Listener (S i)

inductive MainAct
  | next
  /-- The five seconds for the handles are over. -/
  | timeout
  deriving DecidableEq, Repr

inductive SignalsAct
  /-- `signal(kind)`, which may fail. -/
  | install (ok : Bool)
  /-- SIGINT or SIGTERM arrives. -/
  | recv
  | trigger
  deriving DecidableEq, Repr

inductive HeartbeatAct
  | poll
  /-- `sleep(interval)` is over. -/
  | tick
  | check
  | log
  deriving DecidableEq, Repr

inductive Act (S : Fin n → Service)
  | main (a : MainAct)
  | signals (a : SignalsAct)
  | heartbeat (a : HeartbeatAct)
  | listener (i : Fin n) (a : Supervisor.Act (S i))

/-- How many listeners the main task has spawned. -/
def Main.launched (n : ℕ) : Main → ℕ
  | launching k => k
  | _ => n

variable {S : Fin n → Service}

/-- `run_userspace`, up to its next await point. -/
def mainStep (s : State S) : MainAct → Option (State S)
  | .next =>
      match s.main with
      | .launching k =>
          if k < n then some { s with main := .launching (k + 1) }
          else some { s with main := .installed, signals := .sigint }
      | .installed => some { s with main := .waiting none, heartbeat := .selecting none }
      | .waiting arm =>
          (arm.poll s.watch).map fun r =>
            { s with
              watch := r.1
              main := if r.2 = .returned then .joining 0 else .waiting r.2 }
      | .joining k =>
          if h : k < n then
            if (s.listeners ⟨k, h⟩).pc = .returned then some { s with main := .joining (k + 1) }
            else none
          else some { s with main := .exited }
      | .exited => none
  | .timeout =>
      match s.main with
      | .joining _ => some { s with main := .exited }
      | _ => none

/-- The first task of `signals::install`. -/
def signalsStep (s : State S) : SignalsAct → Option (State S)
  | .install ok =>
      match s.signals with
      | .sigint => some { s with signals := if ok then .sigterm else .returned }
      | .sigterm => some { s with signals := if ok then .receiving else .returned }
      | _ => none
  | .recv => if s.signals = .receiving then some { s with signals := .received } else none
  | .trigger =>
      if s.signals = .received then some { s with watch := s.watch.trigger, signals := .returned }
      else none

/-- `spawn_heartbeat`. -/
def heartbeatStep (s : State S) : HeartbeatAct → Option (State S)
  | .poll =>
      match s.heartbeat with
      | .selecting arm =>
          (arm.poll s.watch).map fun r =>
            { s with
              watch := r.1
              heartbeat := if r.2 = .returned then .returned else .selecting r.2 }
      | _ => none
  | .tick =>
      match s.heartbeat with
      | .selecting arm => some { s with watch := arm.drop s.watch, heartbeat := .checking }
      | _ => none
  | .check =>
      if s.heartbeat = .checking then
        some { s with heartbeat := if s.watch.isTriggered then .returned else .logging }
      else none
  | .log => if s.heartbeat = .logging then some { s with heartbeat := .selecting none } else none

/-- A spawned listener takes a step. -/
def listenerStep (s : State S) (i : Fin n) (a : Supervisor.Act (S i)) : Option (State S) :=
  if i < s.main.launched n then
    ((s.listeners i).step s.watch a).map fun r =>
      { s with watch := r.1, listeners := Function.update s.listeners i r.2 }
  else none

/-- When the main task is over, so is the process. -/
def step (s : State S) (a : Act S) : Option (State S) :=
  if s.main = .exited then none
  else
    match a with
    | .main a => mainStep s a
    | .signals a => signalsStep s a
    | .heartbeat a => heartbeatStep s a
    | .listener i a => listenerStep s i a

def machine (S : Fin n → Service) : Machine (State S) (Act S) where
  init := ⟨Shutdown.new, .launching 0, .absent, .absent, fun _ => Listener.init⟩
  step := step

/-! ## What each task can do -/

variable {s t : State S}

/-- The steps of the main task. -/
inductive MainStep (s : State S) : MainAct → State S → Prop
  | launch (k : ℕ) (hmain : s.main = .launching k) (hk : k < n) :
      MainStep s .next { s with main := .launching (k + 1) }
  | install (k : ℕ) (hmain : s.main = .launching k) (hk : n ≤ k) :
      MainStep s .next { s with main := .installed, signals := .sigint }
  | heartbeat (hmain : s.main = .installed) :
      MainStep s .next { s with main := .waiting none, heartbeat := .selecting none }
  | poll (arm : Arm) (w : Shutdown) (c : Cancelled) (hmain : s.main = .waiting arm)
      (hpoll : arm.poll s.watch = some (w, c)) (hc : c ≠ .returned) :
      MainStep s .next { s with watch := w, main := .waiting c }
  | wake (arm : Arm) (w : Shutdown) (hmain : s.main = .waiting arm)
      (hpoll : arm.poll s.watch = some (w, .returned)) :
      MainStep s .next { s with watch := w, main := .joining 0 }
  | join (k : ℕ) (hmain : s.main = .joining k) (hk : k < n)
      (hpc : (s.listeners ⟨k, hk⟩).pc = .returned) :
      MainStep s .next { s with main := .joining (k + 1) }
  | exit (k : ℕ) (hmain : s.main = .joining k) (hk : n ≤ k) :
      MainStep s .next { s with main := .exited }
  | timeout (k : ℕ) (hmain : s.main = .joining k) :
      MainStep s .timeout { s with main := .exited }

theorem mainStep_cases {a : MainAct} (h : mainStep s a = some t) : MainStep s a t := by
  cases a with
  | next =>
      simp only [mainStep] at h
      split at h
      · rename_i k hmain
        split at h
        · rename_i hk
          cases h
          exact .launch k hmain hk
        · rename_i hk
          cases h
          exact .install k hmain (Nat.le_of_not_lt hk)
      · rename_i hmain
        cases h
        exact .heartbeat hmain
      · rename_i arm hmain
        obtain ⟨⟨w, c⟩, hpoll, rfl⟩ := Option.map_eq_some_iff.mp h
        by_cases hc : c = .returned
        · subst hc
          exact .wake arm w hmain hpoll
        · simp only [if_neg hc]
          exact .poll arm w c hmain hpoll hc
      · rename_i k hmain
        split at h
        · rename_i hk
          simp only [Option.ite_none_right_eq_some, Option.some.injEq] at h
          obtain ⟨hpc, rfl⟩ := h
          exact .join k hmain hk hpc
        · rename_i hk
          cases h
          exact .exit k hmain (Nat.le_of_not_lt hk)
      · cases h
  | timeout =>
      simp only [mainStep] at h
      split at h
      · rename_i k hmain
        cases h
        exact .timeout k hmain
      · cases h

/-- How far the signal task is from its end. -/
def Signals.rank : Signals → ℕ
  | absent => 4
  | sigint => 4
  | sigterm => 3
  | receiving => 2
  | received => 1
  | returned => 0

/-- The steps of the signal task: it moves on, or it triggers. -/
inductive SignalsStep (s : State S) : SignalsAct → State S → Prop
  | move (a : SignalsAct) (sig : Signals) (hsig : s.signals ≠ .absent)
      (hlt : sig.rank < s.signals.rank) : SignalsStep s a { s with signals := sig }
  | trigger (hsig : s.signals = .received) :
      SignalsStep s .trigger { s with watch := s.watch.trigger, signals := .returned }

theorem signalsStep_cases {a : SignalsAct} (h : signalsStep s a = some t) :
    SignalsStep s a t := by
  cases a with
  | install ok =>
      simp only [signalsStep] at h
      split at h
      · rename_i hsig
        cases h
        exact .move _ _ (by simp [hsig]) (by cases ok <;> simp [hsig, Signals.rank])
      · rename_i hsig
        cases h
        exact .move _ _ (by simp [hsig]) (by cases ok <;> simp [hsig, Signals.rank])
      · cases h
  | recv =>
      simp only [signalsStep, Option.ite_none_right_eq_some, Option.some.injEq] at h
      obtain ⟨hsig, rfl⟩ := h
      exact .move _ _ (by simp [hsig]) (by simp [hsig, Signals.rank])
  | trigger =>
      simp only [signalsStep, Option.ite_none_right_eq_some, Option.some.injEq] at h
      obtain ⟨hsig, rfl⟩ := h
      exact .trigger hsig

/-- The steps of the heartbeat. -/
inductive HeartbeatStep (s : State S) : HeartbeatAct → State S → Prop
  | poll (arm : Arm) (w : Shutdown) (c : Cancelled) (hb : s.heartbeat = .selecting arm)
      (hpoll : arm.poll s.watch = some (w, c)) (hc : c ≠ .returned) :
      HeartbeatStep s .poll { s with watch := w, heartbeat := .selecting c }
  | stop (arm : Arm) (w : Shutdown) (hb : s.heartbeat = .selecting arm)
      (hpoll : arm.poll s.watch = some (w, .returned)) :
      HeartbeatStep s .poll { s with watch := w, heartbeat := .returned }
  | tick (arm : Arm) (hb : s.heartbeat = .selecting arm) :
      HeartbeatStep s .tick { s with watch := arm.drop s.watch, heartbeat := .checking }
  | leave (hb : s.heartbeat = .checking) (hv : s.watch.value = true) :
      HeartbeatStep s .check { s with heartbeat := .returned }
  | stay (hb : s.heartbeat = .checking) (hv : s.watch.value = false) :
      HeartbeatStep s .check { s with heartbeat := .logging }
  | log (hb : s.heartbeat = .logging) :
      HeartbeatStep s .log { s with heartbeat := .selecting none }

theorem heartbeatStep_cases {a : HeartbeatAct} (h : heartbeatStep s a = some t) :
    HeartbeatStep s a t := by
  cases a with
  | poll =>
      simp only [heartbeatStep] at h
      split at h
      · rename_i arm hb
        obtain ⟨⟨w, c⟩, hpoll, rfl⟩ := Option.map_eq_some_iff.mp h
        by_cases hc : c = .returned
        · subst hc
          exact .stop arm w hb hpoll
        · simp only [if_neg hc]
          exact .poll arm w c hb hpoll hc
      · cases h
  | tick =>
      simp only [heartbeatStep] at h
      split at h
      · rename_i arm hb
        cases h
        exact .tick arm hb
      · cases h
  | check =>
      simp only [heartbeatStep, Option.ite_none_right_eq_some, Option.some.injEq] at h
      obtain ⟨hb, rfl⟩ := h
      cases hv : s.watch.value with
      | true =>
          simp only [Shutdown.isTriggered, hv, if_true]
          exact .leave hb hv
      | false =>
          simp only [Shutdown.isTriggered, hv, Bool.false_eq_true, if_false]
          exact .stay hb hv
  | log =>
      simp only [heartbeatStep, Option.ite_none_right_eq_some, Option.some.injEq] at h
      obtain ⟨hb, rfl⟩ := h
      exact .log hb

/-! ## The receivers are counted -/

def Main.arm : Main → Arm
  | waiting arm => arm
  | _ => none

def Heartbeat.arm : Heartbeat → Arm
  | selecting arm => arm
  | _ => none

/-- The receivers of all tasks together. -/
def State.held (s : State S) : ℕ :=
  s.main.arm.held + s.heartbeat.arm.held + ∑ i, (s.listeners i).held

/-- What the main task has done so far. -/
def Stage (s : State S) : Prop :=
  match s.main with
  | .launching k => k ≤ n ∧ s.signals = .absent ∧ s.heartbeat = .absent
  | .installed => s.heartbeat = .absent
  | .waiting _ => True
  | .joining k => s.watch.value = true ∧ k ≤ n ∧ ∀ i : Fin n, i < k → (s.listeners i).pc = .returned
  | .exited => s.watch.value = true

structure Inv (s : State S) : Prop where
  receivers_eq : s.watch.receivers = s.held
  main : s.main.arm.Ready s.watch
  heartbeat : s.heartbeat.arm.Ready s.watch
  listeners : ∀ i, (s.listeners i).pc.arm.Ready s.watch
  stage : Stage s

theorem inv_init : Inv (machine S).init where
  receivers_eq := by
    simp [machine, State.held, Main.arm, Heartbeat.arm, Listener.held, Listener.init, Pc.arm,
      Shutdown.new, Watch.channel, Watch.dropReceiver]
  main := Arm.ready_none _
  heartbeat := Arm.ready_none _
  listeners _ := Arm.ready_none _
  stage := ⟨Nat.zero_le n, rfl, rfl⟩

/-- The receivers of one task are among those of all. -/
theorem Inv.held_le (hs : Inv s) (i : Fin n) : (s.listeners i).held ≤ s.watch.receivers := by
  have hsum := Finset.single_le_sum (f := fun j => (s.listeners j).held) (fun j _ => Nat.zero_le _)
    (Finset.mem_univ i)
  rw [hs.receivers_eq, State.held]
  omega

/-- Replacing one listener changes a sum over all of them by what that one counts. -/
theorem sum_update_add (f : {T : Service} → Listener T → ℕ) (ls : (i : Fin n) → Listener (S i))
    (i : Fin n) (l : Listener (S i)) :
    (∑ j, f (Function.update ls i l j)) + f (ls i) = (∑ j, f (ls j)) + f l := by
  rw [← Finset.add_sum_erase _ _ (Finset.mem_univ i),
    ← Finset.add_sum_erase _ (fun j => f (ls j)) (Finset.mem_univ i), Function.update_self]
  have hrest : (∑ j ∈ Finset.univ.erase i, f (Function.update ls i l j)) =
      ∑ j ∈ Finset.univ.erase i, f (ls j) := by
    refine Finset.sum_congr rfl fun j hj => ?_
    rw [Function.update_of_ne (Finset.ne_of_mem_erase hj)]
  rw [hrest]
  omega

/-- Everything a listener's step can do. -/
theorem listenerStep_cases {i : Fin n} {a : Supervisor.Act (S i)}
    (h : listenerStep s i a = some t) : ∃ x,
      Supervisor.step ((s.listeners i).view s.watch) a = some x ∧ a.own = true ∧
      i < s.main.launched n ∧ Counts ((s.listeners i).view s.watch) x ∧
      t = { s with
        watch := x.watch, listeners := Function.update s.listeners i (Listener.ofState x) } := by
  simp only [listenerStep, Listener.step, Option.ite_none_right_eq_some] at h
  obtain ⟨hlt, h⟩ := h
  split at h
  · rename_i hown
    rw [Option.map_map] at h
    obtain ⟨x, hstep, rfl⟩ := Option.map_eq_some_iff.mp h
    exact ⟨x, hstep, hown, hlt, counts_step hown hstep, rfl⟩
  · cases h

theorem inv_listenerStep (hs : Inv s) {i : Fin n} {a : Supervisor.Act (S i)}
    (h : listenerStep s i a = some t) : Inv t := by
  obtain ⟨x, hstep, -, -, hcounts, rfl⟩ := listenerStep_cases h
  have hvalue : x.watch.value = s.watch.value := hcounts.value
  have hversion : x.watch.version = s.watch.version := hcounts.version
  have hle := hs.held_le i
  refine ⟨?_, Arm.ready_congr hvalue hversion hs.main, Arm.ready_congr hvalue hversion hs.heartbeat,
    fun j => ?_, ?_⟩
  · have hsum := sum_update_add Listener.held s.listeners i (Listener.ofState x)
    have hown : x.watch.receivers + (s.listeners i).held =
        s.watch.receivers + (Listener.ofState x).held := hcounts.receivers hle
    have htotal := hs.receivers_eq
    simp only [State.held] at htotal ⊢
    omega
  · by_cases hij : j = i
    · subst hij
      simp only [Function.update_self]
      exact hcounts.ready (hs.listeners j)
    · simp only [Function.update_of_ne hij]
      exact Arm.ready_congr hvalue hversion (hs.listeners j)
  · have hstage := hs.stage
    simp only [Stage] at hstage ⊢
    cases hmain : s.main with
    | joining k =>
        rw [hmain] at hstage
        refine ⟨hvalue.trans hstage.1, hstage.2.1, fun j hj => ?_⟩
        by_cases hij : j = i
        · subst hij
          rw [Function.update_self]
          exact (length_tasks_step (hstage.2.2 j hj) hstep).1
        · rw [Function.update_of_ne hij]
          exact hstage.2.2 j hj
    | exited =>
        rw [hmain] at hstage
        exact hvalue.trans hstage
    | launching k => rwa [hmain] at hstage
    | installed => rwa [hmain] at hstage
    | waiting arm => trivial

/-- The main task moves, and counts its receiver. -/
theorem Inv.setMain (hs : Inv s) {w : Shutdown} {m : Main} (hvalue : w.value = s.watch.value)
    (hversion : w.version = s.watch.version)
    (hheld : s.main.arm.held ≤ s.watch.receivers →
      w.receivers + s.main.arm.held = s.watch.receivers + m.arm.held)
    (hready : m.arm.Ready w) (hstage : Stage { s with watch := w, main := m }) :
    Inv { s with watch := w, main := m } where
  receivers_eq := by
    have hreceivers := hs.receivers_eq
    simp only [State.held] at hreceivers ⊢
    have := hheld (by omega)
    omega
  main := hready
  heartbeat := Arm.ready_congr hvalue hversion hs.heartbeat
  listeners i := Arm.ready_congr hvalue hversion (hs.listeners i)
  stage := hstage

/-- The main task moves between places where it does not wait. -/
theorem Inv.goto (hs : Inv s) {m : Main} (hold : s.main.arm = none) (hnew : m.arm = none)
    (hstage : Stage { s with main := m }) : Inv { s with main := m } := by
  refine hs.setMain rfl rfl ?_ ?_ hstage
  · rw [hold, hnew]
    exact fun _ => rfl
  · rw [hnew]
    exact Arm.ready_none _

theorem inv_mainStep (hs : Inv s) {a : MainAct} (h : mainStep s a = some t) : Inv t := by
  have hstage := hs.stage
  simp only [Stage] at hstage
  cases mainStep_cases h with
  | launch k hmain hk =>
      rw [hmain] at hstage
      exact hs.goto (by rw [hmain]; rfl) rfl ⟨hk, hstage.2⟩
  | install k hmain hk =>
      rw [hmain] at hstage
      have hmove := hs.goto (m := .installed) (by rw [hmain]; rfl) rfl hstage.2.2
      exact ⟨hmove.receivers_eq, hmove.main, hmove.heartbeat, hmove.listeners, hmove.stage⟩
  | heartbeat hmain =>
      rw [hmain] at hstage
      have hmove := hs.goto (m := .waiting none) (by rw [hmain]; rfl) rfl trivial
      refine ⟨?_, hmove.main, Arm.ready_none _, hmove.listeners, trivial⟩
      have hreceivers := hmove.receivers_eq
      simp only [State.held, hstage] at hreceivers
      exact hreceivers
  | poll arm w c hmain hpoll hc =>
      obtain ⟨hvalue, hversion, hheld⟩ := Arm.poll_spec hpoll
      have hready := hs.main
      rw [hmain] at hready
      refine hs.setMain hvalue hversion ?_ (Arm.ready_poll hready hpoll hc) trivial
      rw [hmain]
      exact hheld
  | wake arm w hmain hpoll =>
      obtain ⟨hvalue, hversion, hheld⟩ := Arm.poll_spec hpoll
      refine hs.setMain hvalue hversion ?_ (Arm.ready_none _) ?_
      · rw [hmain]
        exact hheld
      · exact ⟨hvalue.trans (Arm.value_of_poll_returned hpoll), Nat.zero_le n, by simp⟩
  | join k hmain hk hpc =>
      rw [hmain] at hstage
      refine hs.goto (by rw [hmain]; rfl) rfl ⟨hstage.1, hk, fun i hi => ?_⟩
      rcases Nat.lt_succ_iff_lt_or_eq.mp hi with hlt | heq
      · exact hstage.2.2 i hlt
      · have hik : i = ⟨k, hk⟩ := Fin.ext heq
        rw [hik]
        exact hpc
  | exit k hmain hk =>
      rw [hmain] at hstage
      exact hs.goto (by rw [hmain]; rfl) rfl hstage.1
  | timeout k hmain =>
      rw [hmain] at hstage
      exact hs.goto (by rw [hmain]; rfl) rfl hstage.1

/-- The stage does not depend on the signal task once that is there. -/
theorem Stage.setSignals (hs : Stage s) (hsignals : s.signals ≠ .absent) (w : Shutdown)
    (hw : s.watch.value = true → w.value = true) (sig : Signals) :
    Stage { s with watch := w, signals := sig } := by
  simp only [Stage] at hs ⊢
  cases hmain : s.main with
  | launching k =>
      rw [hmain] at hs
      exact absurd hs.2.1 hsignals
  | installed => rwa [hmain] at hs
  | waiting arm => trivial
  | joining k =>
      rw [hmain] at hs
      exact ⟨hw hs.1, hs.2⟩
  | exited =>
      rw [hmain] at hs
      exact hw hs

theorem inv_signalsStep (hs : Inv s) {a : SignalsAct} (h : signalsStep s a = some t) : Inv t := by
  cases signalsStep_cases h with
  | move a sig hsig hlt =>
      exact ⟨hs.receivers_eq, hs.main, hs.heartbeat, hs.listeners,
        hs.stage.setSignals hsig _ id sig⟩
  | trigger hsig =>
      refine ⟨?_, Arm.ready_trigger hs.main, Arm.ready_trigger hs.heartbeat,
        fun i => Arm.ready_trigger (hs.listeners i), ?_⟩
      · rw [Shutdown.receivers_trigger]
        exact hs.receivers_eq
      · exact hs.stage.setSignals (by simp [hsig]) _ Shutdown.value_trigger_of_value _

/-- The stage does not depend on the heartbeat once that is there. -/
theorem Stage.setHeartbeat (hs : Stage s) (hheartbeat : s.heartbeat ≠ .absent) {w : Shutdown}
    (hw : w.value = s.watch.value) (hb : Heartbeat) :
    Stage { s with watch := w, heartbeat := hb } := by
  simp only [Stage] at hs ⊢
  cases hmain : s.main with
  | launching k =>
      rw [hmain] at hs
      exact absurd hs.2.2 hheartbeat
  | installed =>
      rw [hmain] at hs
      exact absurd hs hheartbeat
  | waiting arm => trivial
  | joining k =>
      rw [hmain] at hs
      exact ⟨hw.trans hs.1, hs.2⟩
  | exited =>
      rw [hmain] at hs
      exact hw.trans hs

/-- The heartbeat moves, and counts its receiver. -/
theorem Inv.setHeartbeat (hs : Inv s) (hheartbeat : s.heartbeat ≠ .absent) {w : Shutdown}
    {hb : Heartbeat} (hvalue : w.value = s.watch.value) (hversion : w.version = s.watch.version)
    (hheld : s.heartbeat.arm.held ≤ s.watch.receivers →
      w.receivers + s.heartbeat.arm.held = s.watch.receivers + hb.arm.held)
    (hready : hb.arm.Ready w) : Inv { s with watch := w, heartbeat := hb } where
  receivers_eq := by
    have hreceivers := hs.receivers_eq
    simp only [State.held] at hreceivers ⊢
    have := hheld (by omega)
    omega
  main := Arm.ready_congr hvalue hversion hs.main
  heartbeat := hready
  listeners i := Arm.ready_congr hvalue hversion (hs.listeners i)
  stage := hs.stage.setHeartbeat hheartbeat hvalue hb

theorem inv_heartbeatStep (hs : Inv s) {a : HeartbeatAct} (h : heartbeatStep s a = some t) :
    Inv t := by
  have hready := hs.heartbeat
  cases heartbeatStep_cases h with
  | poll arm w c hb hpoll hc =>
      obtain ⟨hvalue, hversion, hheld⟩ := Arm.poll_spec hpoll
      rw [hb] at hready
      refine hs.setHeartbeat (by simp [hb]) hvalue hversion ?_ (Arm.ready_poll hready hpoll hc)
      rw [hb]
      exact hheld
  | stop arm w hb hpoll =>
      obtain ⟨hvalue, hversion, hheld⟩ := Arm.poll_spec hpoll
      refine hs.setHeartbeat (by simp [hb]) hvalue hversion ?_ (Arm.ready_none _)
      rw [hb]
      exact hheld
  | tick arm hb =>
      refine hs.setHeartbeat (by simp [hb]) (Arm.value_drop _ _) (Arm.version_drop _ _) ?_
        (Arm.ready_none _)
      rw [hb]
      intro hle
      simp only [Heartbeat.arm, Arm.receivers_drop, Arm.held_none] at hle ⊢
      omega
  | leave hb hv =>
      refine hs.setHeartbeat (by simp [hb]) rfl rfl ?_ (Arm.ready_none _)
      rw [hb]
      exact fun _ => rfl
  | stay hb hv =>
      refine hs.setHeartbeat (by simp [hb]) rfl rfl ?_ (Arm.ready_none _)
      rw [hb]
      exact fun _ => rfl
  | log hb =>
      refine hs.setHeartbeat (by simp [hb]) rfl rfl ?_ (Arm.ready_none _)
      rw [hb]
      exact fun _ => rfl

theorem inv_step (s : State S) (a : Act S) (t : State S) (hs : Inv s) (h : step s a = some t) :
    Inv t := by
  simp only [step, Option.ite_none_left_eq_some] at h
  obtain ⟨-, h⟩ := h
  cases a with
  | main a => exact inv_mainStep hs h
  | signals a => exact inv_signalsStep hs h
  | heartbeat a => exact inv_heartbeatStep hs h
  | listener i a => exact inv_listenerStep hs h

theorem inv (h : (machine S).Reachable s) : Inv s := h.invariant inv_init inv_step

/-! ## One listener inside the process -/

/-- What a task of the process other than a listener leaves alone. -/
structure Frame (s t : State S) : Prop where
  value : t.watch.value = s.watch.value
  version : t.watch.version = s.watch.version
  listeners : t.listeners = s.listeners

theorem frame_mainStep {a : MainAct} (h : mainStep s a = some t) : Frame s t := by
  cases mainStep_cases h with
  | poll arm w c hmain hpoll hc =>
      obtain ⟨hvalue, hversion, -⟩ := Arm.poll_spec hpoll
      exact ⟨hvalue, hversion, rfl⟩
  | wake arm w hmain hpoll =>
      obtain ⟨hvalue, hversion, -⟩ := Arm.poll_spec hpoll
      exact ⟨hvalue, hversion, rfl⟩
  | _ => exact ⟨rfl, rfl, rfl⟩

theorem frame_heartbeatStep {a : HeartbeatAct} (h : heartbeatStep s a = some t) : Frame s t := by
  cases heartbeatStep_cases h with
  | poll arm w c hb hpoll hc =>
      obtain ⟨hvalue, hversion, -⟩ := Arm.poll_spec hpoll
      exact ⟨hvalue, hversion, rfl⟩
  | stop arm w hb hpoll =>
      obtain ⟨hvalue, hversion, -⟩ := Arm.poll_spec hpoll
      exact ⟨hvalue, hversion, rfl⟩
  | tick arm hb => exact ⟨Arm.value_drop _ _, Arm.version_drop _ _, rfl⟩
  | _ => exact ⟨rfl, rfl, rfl⟩

theorem frame_signalsStep {a : SignalsAct} (h : signalsStep s a = some t) :
    (a = .trigger ∧ t = { s with watch := s.watch.trigger, signals := .returned }) ∨
      Frame s t := by
  cases signalsStep_cases h with
  | move a sig hsig hlt => exact .inr ⟨rfl, rfl, rfl⟩
  | trigger hsig => exact .inl ⟨rfl, rfl⟩

/-- **What a step of the process does**: the signal task triggers, a listener moves, or
neither the stored value nor any listener changes. -/
theorem step_cases {a : Act S} (h : step s a = some t) :
    (a = .signals .trigger ∧ t = { s with watch := s.watch.trigger, signals := .returned }) ∨
      (∃ i b, a = .listener i b ∧ listenerStep s i b = some t) ∨
      ((∀ i b, a ≠ .listener i b) ∧ Frame s t) := by
  simp only [step, Option.ite_none_left_eq_some] at h
  obtain ⟨-, h⟩ := h
  cases a with
  | main a => exact .inr (.inr ⟨by simp, frame_mainStep h⟩)
  | signals a =>
      rcases frame_signalsStep h with ⟨rfl, ht⟩ | hframe
      · exact .inl ⟨rfl, ht⟩
      · exact .inr (.inr ⟨by simp, hframe⟩)
  | heartbeat a => exact .inr (.inr ⟨by simp, frame_heartbeatStep h⟩)
  | listener i a => exact .inr (.inl ⟨i, a, rfl, h⟩)

/-- The label, if it is one of listener `i`. -/
def Act.ofListener (i : Fin n) : Act S → Option (Supervisor.Act (S i))
  | .listener j a => if h : j = i then some (h ▸ a) else none
  | _ => none

theorem Act.ofListener_eq_none {i : Fin n} {a : Act S} (h : ∀ j b, a ≠ .listener j b) :
    a.ofListener i = none := by
  cases a with
  | listener j b => exact absurd rfl (h j b)
  | _ => rfl

/-- What happened to listener `i` so far: some run of its own supervisor's system arrives
where it is now, and its own labels in that run are the ones it had in the process. -/
def Projects (i : Fin n) (as : List (Act S)) (s : State S) : Prop :=
  ∃ bs, (Supervisor.machine (S i)).run (Supervisor.machine (S i)).init bs =
      some ((s.listeners i).view s.watch) ∧
    bs.filter Supervisor.Act.own = as.filterMap (Act.ofListener i)

theorem Listener.view_setOthers {S : Service} (l : Listener S) {w w' : Shutdown}
    (hvalue : w'.value = w.value) (hversion : w'.version = w.version)
    (hle : l.held ≤ w.receivers) (hle' : l.held ≤ w'.receivers) :
    (l.view w).setOthers (w'.receivers - l.held) = l.view w' := by
  obtain ⟨v', n', r'⟩ := w'
  simp only at hvalue hversion hle'
  subst hvalue hversion
  simp only [Supervisor.State.setOthers, Listener.view, Supervisor.State.mk.injEq,
    Watch.mk.injEq, true_and, and_true]
  omega

/-- A step of somebody else is a step of the environment. -/
theorem Projects.env {i : Fin n} {as : List (Act S)} {a : Act S} (hs : Inv s) (ht : Inv t)
    (hlisteners : t.listeners i = s.listeners i) (hvalue : t.watch.value = s.watch.value)
    (hversion : t.watch.version = s.watch.version) (ha : a.ofListener i = none)
    (h : Projects i as s) : Projects i (as ++ [a]) t := by
  obtain ⟨bs, hrun, hown⟩ := h
  have hle := hs.held_le i
  have hle' := ht.held_le i
  rw [hlisteners] at hle'
  obtain ⟨cs, hcs, hnot⟩ := run_setOthers (s := (s.listeners i).view s.watch)
    (Nat.sub_le _ _) (t.watch.receivers - (s.listeners i).held)
  rw [Listener.view_setOthers _ hvalue hversion hle hle'] at hcs
  refine ⟨bs ++ cs, Machine.run_append_iff.mpr ⟨_, hrun, ?_⟩, ?_⟩
  · rw [hlisteners]
    exact hcs
  · have hnone : cs.filter Supervisor.Act.own = [] := by
      rw [List.filter_eq_nil_iff]
      intro c hc
      simp [hnot c hc]
    simp [List.filter_append, hnone, hown, ha]

theorem Projects.trigger {i : Fin n} {as : List (Act S)} (h : Projects i as s) :
    Projects i (as ++ [.signals .trigger])
      { s with watch := s.watch.trigger, signals := .returned } := by
  obtain ⟨bs, hrun, hown⟩ := h
  refine ⟨bs ++ [.trigger], Machine.run_append_iff.mpr ⟨_, hrun, ?_⟩, ?_⟩
  · refine Machine.run_cons_iff.mpr ⟨_, rfl, ?_⟩
    simp [Machine.run, Listener.view]
  · simp [List.filter_append, hown, Act.ofListener, Supervisor.Act.own]

theorem Projects.listener {i j : Fin n} {as : List (Act S)} {a : Supervisor.Act (S j)}
    (hs : Inv s) (ht : Inv t) (hstep : listenerStep s j a = some t) (h : Projects i as s) :
    Projects i (as ++ [.listener j a]) t := by
  obtain ⟨x, hx, hown, -, hcounts, rfl⟩ := listenerStep_cases hstep
  by_cases hij : j = i
  · subst hij
    obtain ⟨bs, hrun, hbs⟩ := h
    refine ⟨bs ++ [a], Machine.run_append_iff.mpr ⟨_, hrun, ?_⟩, ?_⟩
    · refine Machine.run_cons_iff.mpr ⟨x, hx, ?_⟩
      -- the others still hold what they held
      have hreceivers := hcounts.receivers (hs.held_le j)
      have hothers : x.watch.receivers - (Listener.ofState x).held = x.others := by
        rw [hcounts.others]
        have hle := hs.held_le j
        have hview : (Listener.view s.watch (s.listeners j)).held = (s.listeners j).held := rfl
        have hx' : (Listener.ofState x).held = x.held := rfl
        rw [hview] at hreceivers
        rw [hx']
        simp only [Listener.view] at hreceivers ⊢
        omega
      simp only [Machine.run, Function.update_self, Listener.view, hothers, Option.some.injEq]
      rfl
    · simp [List.filter_append, hbs, Act.ofListener, hown]
  · exact h.env hs ht (Function.update_of_ne (Ne.symm hij) _ _) hcounts.value hcounts.version
      (by simp [Act.ofListener, hij])

theorem projects_step {i : Fin n} {as : List (Act S)} {a : Act S} (hs : Inv s)
    (hstep : step s a = some t) (h : Projects i as s) : Projects i (as ++ [a]) t := by
  have ht := inv_step s a t hs hstep
  rcases step_cases hstep with ⟨rfl, rfl⟩ | ⟨j, b, rfl, hlistener⟩ | ⟨hne, hframe⟩
  · exact h.trigger
  · exact h.listener hs ht hlistener
  · exact h.env hs ht (by rw [hframe.listeners]) hframe.value hframe.version
      (Act.ofListener_eq_none hne)

theorem projects_run {i : Fin n} {as : List (Act S)}
    (h : (machine S).run (machine S).init as = some s) : Inv s ∧ Projects i as s := by
  refine Machine.run_trace_invariant (I := fun as s => Inv s ∧ Projects i as s)
    ⟨inv_init, [], rfl, rfl⟩ ?_ h
  intro as s a t hs hstep
  exact ⟨inv_step s a t hs.1 hstep, projects_step hs.1 hstep hs.2⟩

end Userspace

namespace App

open Supervisor

/-- The serve loops of a configuration. -/
abbrev services (specs : List ListenerSpec) (i : Fin specs.length) : Service := serve specs[i]

/-- `run_userspace`: the process for the listeners of a configuration. -/
def runUserspace (specs : List ListenerSpec) :
    Machine (Userspace.State (services specs)) (Userspace.Act (services specs)) :=
  Userspace.machine (services specs)

/-- **One listener can never take down its siblings.** Whatever the other listeners, the
heartbeat, the signal task and the main task do in a run of the process, what listener `i`
does is a run of its own supervised system with the same labels of its own; in particular
it is never abandoned and never doubled. -/
theorem listener_projects (specs : List ListenerSpec)
    {as : List (Userspace.Act (services specs))} {s : Userspace.State (services specs)}
    (h : (runUserspace specs).run (runUserspace specs).init as = some s)
    (i : Fin specs.length) :
    (∃ bs : List (Supervisor.Act (serve specs[i])),
      (spawnListener specs[i]).run (spawnListener specs[i]).init bs =
        some ((s.listeners i).view s.watch) ∧
      bs.filter Supervisor.Act.own = as.filterMap (Userspace.Act.ofListener i)) ∧
    NeverAbandoned ((s.listeners i).view s.watch) := by
  obtain ⟨-, bs, hrun, hown⟩ := Userspace.projects_run (i := i) h
  exact ⟨⟨bs, hrun, hown⟩, neverAbandoned ⟨bs, hrun⟩⟩

/-- The first of two listeners panics while the second one serves. -/
theorem listener_projects_siblings :
    ∃ as s, (runUserspace [⟨.tcp, ":80".toList, 80, ["a:1".toList], false, []⟩,
        ⟨.udp, ":53".toList, 53, ["b:2".toList], false, []⟩]).run (runUserspace _).init as = some s ∧
      (s.listeners 0).lastError = some "panic".toList ∧
      NeverAbandoned ((s.listeners 1).view s.watch) := by
  obtain ⟨as, s, hrun, hpanic⟩ :
      ∃ as s, (runUserspace [⟨.tcp, ":80".toList, 80, ["a:1".toList], false, []⟩,
        ⟨.udp, ":53".toList, 53, ["b:2".toList], false, []⟩]).run (runUserspace _).init as = some s ∧
      (s.listeners 0).lastError = some "panic".toList :=
    ⟨[.main .next, .main .next, .listener 0 .check, .listener 0 .spawn, .listener 1 .check,
      .listener 1 .spawn, .listener 0 (.serve 0 .panic), .listener 1 (.serve 0 (.bind none)),
      .listener 0 .join, .listener 0 .handle], _, rfl, rfl⟩
  exact ⟨as, s, hrun, hpanic, (listener_projects _ hrun 1).2⟩

end App
end Gust
