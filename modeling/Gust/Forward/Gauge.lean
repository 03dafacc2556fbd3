import Gust.Forward.Tcp
import Gust.Forward.Udp
import Gust.Stats

/-!
# The gauge of active connections

A listener is its counters and all the serve runs it has ever had: the supervisor starts a
new run when one fails, and the tasks of the old one live on. A connection task calls
`on_accept` when it first runs and holds the guard until it returns or unwinds. A UDP serve
loop calls `on_accept` after it has inserted a session, and hands the guard to the reverse
task it then spawns, which drops it after it has removed the session. Nothing in a reverse
task can panic, and between the insertion and the spawn the serve loop does not await.

Each step makes at most one operation on the counters. What the operations add up to, and
what the tasks hold, are kept in balance by every step (`Run.balance`), so that the gauge
is exact in every interleaving (`gauge_exact`).
-/

namespace Gust

open Gust.Lib

/-! ## Connection tasks -/

namespace Tcp

/-- Where a connection task is. -/
inductive Conn
  | spawned
  /-- In `on_accept`, between its two counters. -/
  | accepting
  /-- In `handle_conn`, with the guard in its hands. -/
  | handling
  /-- Returned or unwinding, with the guard still in its hands. -/
  | leaving
  | gone
  deriving DecidableEq, Repr

inductive ConnAct
  | accept
  | guard
  | done
  | fail
  | panic
  | drop
  deriving DecidableEq, Repr

def Conn.step : Conn → ConnAct → Option (Option StatsOp × Conn)
  | .spawned, .accept => some (some .accept, .accepting)
  | .accepting, .guard => some (some .guard, .handling)
  | .handling, .done => some (none, .leaving)
  | .handling, .fail => some (some .error, .leaving)
  | .handling, .panic => some (none, .leaving)
  | .leaving, .drop => some (some .unguard, .gone)
  | _, _ => none

def Conn.pending : Conn → ℕ
  | .accepting => 1
  | _ => 0

def Conn.guards : Conn → ℕ
  | .handling | .leaving => 1
  | _ => 0

/-- A run of `tcp::serve`, with the connection tasks it has spawned. -/
structure Run where
  serve : State
  conns : List Conn
  deriving DecidableEq, Repr

inductive RunAct
  | serve (a : Act)
  | conn (j : ℕ) (a : ConnAct)
  deriving DecidableEq, Repr

def Run.fresh : Run := ⟨init, []⟩

def Run.step (targets : List Str) (r : Run) : RunAct → Option (Option StatsOp × Run)
  | .serve a =>
      (Tcp.step targets r.serve a).map fun s =>
        (if a = .acceptError then some .error else none,
          ⟨s, if a = .dispatch then r.conns ++ [.spawned] else r.conns⟩)
  | .conn j a => do
      let c ← r.conns[j]?
      let (op, c') ← c.step a
      return (op, { r with conns := r.conns.set j c' })

def Run.pending (r : Run) : ℕ := (r.conns.map Conn.pending).sum

def Run.guards (r : Run) : ℕ := (r.conns.map Conn.guards).sum

theorem Conn.balance {c c' : Conn} {a : ConnAct} {op : Option StatsOp}
    (h : c.step a = some (op, c')) : Balance op c.pending c.guards c'.pending c'.guards := by
  cases c <;> cases a <;> simp only [Conn.step, Option.some.injEq, Prod.mk.injEq, reduceCtorEq] at h
  all_goals
    obtain ⟨rfl, rfl⟩ := h
    exact ⟨rfl, rfl⟩

theorem Run.balance {targets : List Str} {r r' : Run} {a : RunAct} {op : Option StatsOp}
    (h : r.step targets a = some (op, r')) :
    Balance op r.pending r.guards r'.pending r'.guards := by
  cases a with
  | serve a =>
      obtain ⟨s, -, h⟩ := Option.map_eq_some_iff.mp h
      obtain ⟨rfl, rfl⟩ := Prod.mk.inj h
      cases a <;> exact ⟨by simp [Run.pending, Conn.pending], by simp [Run.guards, Conn.guards]⟩
  | conn j a =>
      simp only [Run.step, Option.bind_eq_bind, Option.bind_eq_some_iff, Option.pure_def,
        Option.some.injEq, Prod.mk.injEq] at h
      obtain ⟨c, hc, ⟨op, c'⟩, hstep, rfl, rfl⟩ := h
      exact Balance.set hc (Conn.balance hstep)

/-- The accept errors that the loop has seen are errors of the listener. -/
theorem Run.errors_serve {targets : List Str} {r r' : Run} {a : Act} {op : Option StatsOp}
    (h : r.step targets (.serve a) = some (op, r')) :
    r'.serve.errors = r.serve.errors + op.toList.count .error := by
  obtain ⟨s, hs, h⟩ := Option.map_eq_some_iff.mp h
  obtain ⟨rfl, rfl⟩ := Prod.mk.inj h
  cases a with
  | accept peer | acceptError | resume =>
      simp only [Tcp.step, Option.ite_none_right_eq_some, Option.some.injEq] at hs
      obtain ⟨-, rfl⟩ := hs
      simp
  | dispatch =>
      simp only [Tcp.step] at hs
      split at hs
      · obtain ⟨x, -, rfl⟩ := Option.map_eq_some_iff.mp hs
        simp
      · cases hs

end Tcp

/-! ## Session tasks -/

namespace Udp

/-- Where the serve loop is with a new session, from the insertion to the spawn. -/
inductive Stage
  | settled
  | inserted
  /-- In `on_accept`, between its two counters. -/
  | accepting
  /-- With the guard in its hands. -/
  | guarded
  deriving DecidableEq, Repr

/-- A run of `udp::serve`. The reverse task of a new session is in the list of tasks from
the insertion on, and takes its first step after it is spawned. -/
structure Run where
  state : State
  stage : Stage
  /-- For each spawned task, whether it still holds its guard. -/
  spawned : List Bool

inductive RunAct
  | own (a : Act)
  | accept
  | guard
  | spawn
  | drop (j : ℕ)

def Run.fresh (targets : List Str) : Run := ⟨(machine targets).init, .settled, []⟩

/-- The serve loop goes on after the spawn, and only tasks that are spawned run. -/
def Run.enabled (r : Run) : Act → Bool
  | .tick _ => true
  | .serve _ => r.stage == .settled
  | .reverse j _ => j < r.spawned.length

/-- The stage that a step of the serve loop leads to. -/
def Run.stageAfter (r : Run) : Act → Stage
  | .serve .insert => .inserted
  | _ => r.stage

/-- The serve loop counts receive errors and sessions that could not be opened. -/
def State.op (s : State) : Act → Option StatsOp
  | .serve .recvError => some .error
  | .serve (.openSession lookup bindConnected) =>
      match s.loop with
      | .opening _ _ target =>
          match newSession lookup bindConnected target with
          | .ok _ => none
          | _ => some .error
      | _ => none
  | _ => none

def Run.step (targets : List Str) (r : Run) : RunAct → Option (Option StatsOp × Run)
  | .own a =>
      if r.enabled a then
        (Udp.step targets r.state a).map fun s =>
          (r.state.op a, { r with state := s, stage := r.stageAfter a })
      else none
  | .accept =>
      if r.stage = .inserted then some (some .accept, { r with stage := .accepting }) else none
  | .guard =>
      if r.stage = .accepting then some (some .guard, { r with stage := .guarded }) else none
  | .spawn =>
      if r.stage = .guarded then
        some (none, { r with stage := .settled, spawned := r.spawned ++ [true] })
      else none
  | .drop j =>
      if r.spawned[j]? = some true ∧ (r.state.tasks[j]?).map Reverse.pc = some .finished then
        some (some .unguard, { r with spawned := r.spawned.set j false })
      else none

def Run.pending (r : Run) : ℕ := if r.stage = .accepting then 1 else 0

/-- The guards that the run's tasks hold, and the one in the hands of the loop. -/
def Run.guards (r : Run) : ℕ := r.spawned.countP id + if r.stage = .guarded then 1 else 0

/-- The entries of the session map. -/
noncomputable def Run.sessions (r : Run) : ℕ := {peer | (r.state.sessions peer).isSome}.ncard

/-- The tasks that have removed their session but not yet dropped their guard. -/
def Run.lingering (r : Run) : ℕ :=
  (r.state.tasks.zip r.spawned).countP fun t => t.1.pc == .finished && t.2

/-- The loop stands between its `insert` and the end of its `on_accept`. -/
def Run.between (r : Run) : Bool := r.stage == .inserted || r.stage == .accepting

variable {targets : List Str} {r r' : Run} {a : RunAct} {op : Option StatsOp}

theorem State.count_op (s : State) (a : Act) : (s.op a).toList.count .accept = 0 ∧
    (s.op a).toList.count .guard = 0 ∧ (s.op a).toList.count .unguard = 0 := by
  fun_cases State.op <;> exact ⟨rfl, rfl, rfl⟩

/-- The stage changes where the serve loop is free to move. -/
theorem Run.stageAfter_cases {a : Act} (hr : r.enabled a) :
    r.stageAfter a = r.stage ∨ r.stage = .settled ∧ r.stageAfter a = .inserted := by
  fun_cases Run.stageAfter
  · exact .inr ⟨beq_iff_eq.mp hr, rfl⟩
  · exact .inl rfl

theorem Run.balance (h : r.step targets a = some (op, r')) :
    Balance op r.pending r.guards r'.pending r'.guards := by
  cases a with
  | own a =>
      simp only [Run.step, Option.ite_none_right_eq_some, Option.map_eq_some_iff,
        Prod.mk.injEq] at h
      obtain ⟨henabled, s, -, rfl, rfl⟩ := h
      obtain ⟨haccept, hguard, hunguard⟩ := r.state.count_op a
      obtain hstage | ⟨hsettled, hstage⟩ := Run.stageAfter_cases henabled
      · exact ⟨by simp [Run.pending, hstage, haccept, hguard],
          by simp [Run.guards, hstage, hguard, hunguard]⟩
      · exact ⟨by simp [Run.pending, hstage, hsettled, haccept, hguard],
          by simp [Run.guards, hstage, hsettled, hguard, hunguard]⟩
  | accept | guard | spawn =>
      simp only [Run.step, Option.ite_none_right_eq_some, Option.some.injEq, Prod.mk.injEq] at h
      obtain ⟨hstage, rfl, rfl⟩ := h
      exact ⟨by simp [Run.pending, hstage], by simp [Run.guards, hstage]⟩
  | drop j =>
      simp only [Run.step, Option.ite_none_right_eq_some, Option.some.injEq, Prod.mk.injEq] at h
      obtain ⟨⟨hj, -⟩, rfl, rfl⟩ := h
      have hcount := countP_set_add (p := id) hj false
      simp only [id_eq, if_true, Bool.false_eq_true, if_false, Nat.add_zero] at hcount
      refine ⟨rfl, ?_⟩
      simp only [Run.guards, Option.toList_some, List.count_singleton_self, ← hcount]
      simp
      omega

/-! ### Guards and sessions -/

/-- The tasks of the session map and the guards, side by side. -/
structure Run.Inv (targets : List Str) (r : Run) : Prop where
  reachable : (machine targets).Reachable r.state
  length : r.state.tasks.length = r.spawned.length + if r.stage = .settled then 0 else 1
  /-- A guard is dropped at the end. -/
  dropped : ∀ {j : ℕ} {t : Reverse}, r.spawned[j]? = some false → r.state.tasks[j]? = some t →
    t.pc = .finished
  /-- A task that is not spawned is at its start. -/
  unspawned : ∀ {t : Reverse}, r.state.tasks[r.spawned.length]? = some t → t.pc ≠ .finished

theorem Run.inv_fresh (targets : List Str) : (Run.fresh targets).Inv targets :=
  ⟨⟨[], rfl⟩, rfl, nofun, nofun⟩

theorem lookupStep_tasks (s : State) (n : ℕ) (peer : SocketAddr) :
    (lookupStep targets s n peer).tasks = s.tasks := by
  fun_cases lookupStep <;> rfl

theorem openStep_tasks (s : State) (n : ℕ) (peer : SocketAddr) (target : Str)
    (outcome : Outcome IoError SocketAddr) :
    (openStep s n peer target outcome).tasks = s.tasks := by
  cases outcome <;> rfl

theorem sendStep_tasks (s : State) (n out : ℕ) (ok : Bool) :
    (sendStep s n out ok).tasks = s.tasks := by
  fun_cases sendStep <;> rfl

/-- The serve loop adds a task when it inserts a session, and else leaves the tasks alone. -/
theorem tasks_serveStep {s s' : State} {a : ServeAct} (h : serveStep targets s a = some s') :
    (∃ t : Reverse, a = .insert ∧ t.pc ≠ .finished ∧ s'.tasks = s.tasks ++ [t]) ∨
      a ≠ .insert ∧ s'.tasks = s.tasks := by
  cases a with
  | recv | recvError | resume | shutdown | abort =>
      simp only [serveStep, Option.ite_none_right_eq_some, Option.some.injEq] at h
      obtain ⟨-, rfl⟩ := h
      exact .inr ⟨by simp, rfl⟩
  | lookup =>
      simp only [serveStep] at h
      split at h
      · cases h
        exact .inr ⟨by simp, lookupStep_tasks ..⟩
      · cases h
  | openSession lookup bindConnected =>
      simp only [serveStep] at h
      split at h
      · cases h
        exact .inr ⟨by simp, openStep_tasks ..⟩
      · cases h
  | insert =>
      simp only [serveStep] at h
      split at h
      · cases h
        refine .inl ⟨_, rfl, ?_, rfl⟩
        simp
      · cases h
  | store =>
      simp only [serveStep] at h
      split at h
      · cases h
        exact .inr ⟨by simp, rfl⟩
      · cases h
  | send ok =>
      simp only [serveStep] at h
      split at h
      · cases h
        exact .inr ⟨by simp, sendStep_tasks ..⟩
      · cases h

/-- A task changes itself alone, and only as long as it has not finished. -/
theorem tasks_reverseStep {s s' : State} {j : ℕ} {t : Reverse} {a : ReverseAct}
    (ht : s.tasks[j]? = some t) (h : reverseStep s j t a = some s') :
    t.pc ≠ .finished ∧ ∃ u, s'.tasks = s.tasks.set j u := by
  cases a with
  | recv | recvError | remove =>
      simp only [reverseStep, Option.ite_none_right_eq_some, Option.some.injEq] at h
      obtain ⟨hpc, rfl⟩ := h
      exact ⟨by simp [hpc], _, rfl⟩
  | timer =>
      simp only [reverseStep, Option.ite_none_right_eq_some] at h
      obtain ⟨hpc, h⟩ := h
      split at h
      · cases h
        exact ⟨by simp [hpc], _, rfl⟩
      · rw [Option.some.injEq, ← setPc_self ht hpc] at h
        exact ⟨by simp [hpc], _, by rw [← h]; rfl⟩
  | store =>
      simp only [reverseStep] at h
      split at h
      · rename_i n hpc
        cases h
        exact ⟨by simp [hpc], _, rfl⟩
      · cases h
  | send ok =>
      simp only [reverseStep] at h
      split at h
      · rename_i n hpc
        split at h
        · cases h
          exact ⟨by simp [hpc], _, rfl⟩
        · cases h
          exact ⟨by simp [hpc], _, rfl⟩
      · cases h

/-- The serve loop inserts a session. -/
theorem Run.Inv.inserted (h : r.Inv targets) {s : State} {t : Reverse}
    (hs : (machine targets).Reachable s) (hsettled : r.stage = .settled) (ht : t.pc ≠ .finished)
    (htasks : s.tasks = r.state.tasks ++ [t]) : Run.Inv targets ⟨s, .inserted, r.spawned⟩ := by
  have hlength : r.state.tasks.length = r.spawned.length := by
    simpa [hsettled] using h.length
  refine ⟨hs, ?_, ?_, ?_⟩
  · simp [htasks, hlength]
  · intro j u hj hu
    have hlt : j < r.state.tasks.length := by
      rw [hlength]
      exact (List.getElem?_eq_some_iff.mp hj).1
    dsimp only at hu
    rw [htasks, List.getElem?_append_left hlt] at hu
    exact h.dropped hj hu
  · intro u hu
    dsimp only at hu
    rw [htasks, ← hlength, List.getElem?_concat_length, Option.some.injEq] at hu
    exact hu ▸ ht

/-- A spawned task takes a step. -/
theorem Run.Inv.reverse (h : r.Inv targets) {s : State} {j : ℕ} {t u : Reverse}
    (hs : (machine targets).Reachable s) (hj : j < r.spawned.length)
    (ht : r.state.tasks[j]? = some t) (hpc : t.pc ≠ .finished)
    (htasks : s.tasks = r.state.tasks.set j u) : Run.Inv targets ⟨s, r.stage, r.spawned⟩ := by
  have hother : ∀ {k : ℕ} {v : Reverse}, s.tasks[k]? = some v → k ≠ j →
      r.state.tasks[k]? = some v := by
    intro k v hv hk
    rwa [htasks, List.getElem?_set_ne (Ne.symm hk)] at hv
  refine ⟨hs, ?_, ?_, ?_⟩
  · simp [htasks, h.length]
  · intro k v hk hv
    have hkj : k ≠ j := by
      rintro rfl
      exact hpc (h.dropped hk ht)
    exact h.dropped hk (hother hv hkj)
  · intro v hv
    exact h.unspawned (hother hv (Nat.ne_of_gt hj))

theorem Run.Inv.own (h : r.Inv targets) {a : Act} {s : State} (ha : r.enabled a)
    (hstep : Udp.step targets r.state a = some s) :
    Run.Inv targets ⟨s, r.stageAfter a, r.spawned⟩ := by
  have hs : (machine targets).Reachable s := h.reachable.step hstep
  cases a with
  | tick ms =>
      cases hstep
      exact ⟨hs, h.length, h.dropped, h.unspawned⟩
  | serve a =>
      have hsettled : r.stage = .settled := beq_iff_eq.mp ha
      obtain ⟨t, rfl, ht, htasks⟩ | ⟨hne, htasks⟩ := tasks_serveStep hstep
      · exact h.inserted hs hsettled ht htasks
      · have hstage : r.stageAfter (.serve a) = r.stage := by
          cases a with
          | insert => exact absurd rfl hne
          | _ => rfl
        rw [hstage]
        refine ⟨hs, ?_, ?_, ?_⟩
        · rw [htasks]
          exact h.length
        · rw [htasks]
          exact h.dropped
        · rw [htasks]
          exact h.unspawned
  | reverse j a =>
      obtain ⟨t, ht, hreverse⟩ := Option.bind_eq_some_iff.mp hstep
      obtain ⟨hpc, u, htasks⟩ := tasks_reverseStep ht hreverse
      exact h.reverse hs (of_decide_eq_true ha) ht hpc htasks

/-- The loop spawns the task of the new session. -/
theorem Run.Inv.spawn (h : r.Inv targets) (hstage : r.stage = .guarded) :
    Run.Inv targets ⟨r.state, .settled, r.spawned ++ [true]⟩ := by
  have hlength : r.state.tasks.length = r.spawned.length + 1 := by
    simpa [hstage] using h.length
  refine ⟨h.reachable, ?_, ?_, ?_⟩
  · simpa using hlength
  · intro j t hj ht
    obtain hlt | rfl : j < r.spawned.length ∨ j = r.spawned.length := by
      have hlt := (List.getElem?_eq_some_iff.mp hj).1
      rw [List.length_append, List.length_singleton] at hlt
      omega
    · rw [List.getElem?_append_left hlt] at hj
      exact h.dropped hj ht
    · rw [List.getElem?_concat_length] at hj
      cases hj
  · intro t ht
    dsimp only at ht
    rw [List.length_append, List.length_singleton, ← hlength, List.getElem?_length] at ht
    cases ht

/-- A task that has finished drops its guard. -/
theorem Run.Inv.drop (h : r.Inv targets) {j : ℕ}
    (hpc : (r.state.tasks[j]?).map Reverse.pc = some .finished) :
    Run.Inv targets ⟨r.state, r.stage, r.spawned.set j false⟩ := by
  refine ⟨h.reachable, ?_, ?_, ?_⟩
  · simpa using h.length
  · intro k t hk ht
    obtain ⟨rfl, -⟩ | ⟨-, hk⟩ := getElem?_set_cases hk
    · rw [ht, Option.map_some, Option.some.injEq] at hpc
      exact hpc
    · exact h.dropped hk ht
  · intro t ht
    dsimp only at ht
    rw [List.length_set] at ht
    exact h.unspawned ht

theorem Run.Inv.step (h : r.Inv targets) (hstep : r.step targets a = some (op, r')) :
    r'.Inv targets := by
  cases a with
  | own a =>
      simp only [Run.step, Option.ite_none_right_eq_some, Option.map_eq_some_iff,
        Prod.mk.injEq] at hstep
      obtain ⟨henabled, s, hs, -, rfl⟩ := hstep
      exact h.own henabled hs
  | accept | guard =>
      simp only [Run.step, Option.ite_none_right_eq_some, Option.some.injEq,
        Prod.mk.injEq] at hstep
      obtain ⟨hstage, -, rfl⟩ := hstep
      have hlength := h.length
      rw [hstage] at hlength
      exact ⟨h.reachable, hlength, h.dropped, h.unspawned⟩
  | spawn =>
      simp only [Run.step, Option.ite_none_right_eq_some, Option.some.injEq,
        Prod.mk.injEq] at hstep
      obtain ⟨hstage, -, rfl⟩ := hstep
      exact h.spawn hstage
  | drop j =>
      simp only [Run.step, Option.ite_none_right_eq_some, Option.some.injEq,
        Prod.mk.injEq] at hstep
      obtain ⟨⟨-, hpc⟩, -, rfl⟩ := hstep
      exact h.drop hpc

theorem Run.Inv.sessions_eq (h : r.Inv targets) :
    r.sessions = r.state.tasks.countP fun t => t.pc != .finished := by
  have hcard := (table_inv h.reachable).ncard_map
  simp only [State.table, List.countP_map] at hcard
  exact hcard

/-- Of the spawned tasks, those that have not finished hold a guard. -/
theorem countP_spawned {tasks : List Reverse} {spawned : List Bool}
    (hlength : tasks.length = spawned.length)
    (hdropped : ∀ t ∈ tasks.zip spawned, t.2 = false → t.1.pc = .finished) :
    spawned.countP id = (tasks.zip spawned).countP (fun t => t.1.pc == .finished && t.2) +
      tasks.countP fun t => t.pc != .finished := by
  have hsnd : spawned.countP id = (tasks.zip spawned).countP Prod.snd := by
    conv_lhs => rw [← List.map_snd_zip hlength.ge, List.countP_map]
    rfl
  have hfst : tasks.countP (fun t => t.pc != .finished) =
      (tasks.zip spawned).countP fun t => t.1.pc != .finished := by
    conv_lhs => rw [← List.map_fst_zip hlength.le, List.countP_map]
    rfl
  rw [hsnd, hfst, List.countP_eq_countP_filter_add _ _ fun t => t.1.pc == .finished,
    List.countP_filter, List.countP_filter]
  congr 1
  · refine List.countP_congr fun t _ => ?_
    simp [and_comm]
  · refine List.countP_congr fun t ht => ?_
    have hfinished := hdropped t ht
    cases hguard : t.2 with
    | false => simp [hfinished hguard]
    | true => simp

/-- The guards of a serve run are its sessions, up to those that are just being opened or
closed. -/
theorem Run.Inv.guards_add (h : r.Inv targets) :
    r.guards + (if r.between then 1 else 0) = r.sessions + r.lingering := by
  obtain ⟨front, rest, htasks, hfront⟩ : ∃ front rest, r.state.tasks = front ++ rest ∧
      front.length = r.spawned.length := by
    refine ⟨r.state.tasks.take r.spawned.length, r.state.tasks.drop r.spawned.length,
      (List.take_append_drop ..).symm, ?_⟩
    rw [List.length_take, h.length]
    omega
  have hzip : r.state.tasks.zip r.spawned = front.zip r.spawned := by
    have happend : (front ++ rest).zip (r.spawned ++ []) = front.zip r.spawned ++ rest.zip [] :=
      List.zip_append hfront
    rwa [List.append_nil, List.zip_nil_right, List.append_nil, ← htasks] at happend
  have hspawned := countP_spawned hfront (by
    intro t ht hguard
    obtain ⟨i, hi⟩ := List.mem_iff_getElem?.mp ht
    obtain ⟨htask, hspawned⟩ := List.getElem?_zip_eq_some.mp hi
    have hget : r.state.tasks[i]? = some t.1 := by
      rw [htasks, List.getElem?_append_left (List.getElem?_eq_some_iff.mp htask).1, htask]
    exact h.dropped (hguard ▸ hspawned) hget)
  have hlength : rest.length = if r.stage = .settled then 0 else 1 := by
    have hlength := h.length
    rw [htasks, List.length_append, hfront] at hlength
    omega
  have hrest : rest.countP (fun t => t.pc != .finished) = rest.length := by
    rw [List.countP_eq_length]
    intro t ht
    match rest, hlength, ht with
    | [u], _, ht =>
        obtain rfl := List.mem_singleton.mp ht
        refine bne_iff_ne.mpr (h.unspawned ?_)
        rw [htasks, ← hfront, List.getElem?_concat_length]
    | u :: v :: ws, hlength, _ =>
        split at hlength <;> simp at hlength
  rw [h.sessions_eq, Run.lingering, hzip, Run.guards, hspawned, htasks, List.countP_append, hrest,
    hlength]
  cases hstage : r.stage <;> simp [Run.between, hstage] <;> omega

end Udp

/-! ## The listener -/

inductive Run
  | tcp (r : Tcp.Run)
  | udp (r : Udp.Run)

inductive RunAct
  | tcp (a : Tcp.RunAct)
  | udp (a : Udp.RunAct)

def Run.fresh (targets : List Str) : Protocol → Run
  | .tcp => .tcp .fresh
  | .udp => .udp (.fresh targets)

def Run.step (targets : List Str) : Run → RunAct → Option (Option StatsOp × Run)
  | .tcp r, .tcp a => (r.step targets a).map fun (op, r') => (op, .tcp r')
  | .udp r, .udp a => (r.step targets a).map fun (op, r') => (op, .udp r')
  | _, _ => none

def Run.pending : Run → ℕ
  | .tcp r => r.pending
  | .udp r => r.pending

def Run.guards : Run → ℕ
  | .tcp r => r.guards
  | .udp r => r.guards

section

variable {targets : List Str} {r r' : Run} {a : RunAct} {op : Option StatsOp}

theorem Run.step_cases (h : r.step targets a = some (op, r')) :
    (∃ t t' b, r = .tcp t ∧ r' = .tcp t' ∧ t.step targets b = some (op, t')) ∨
      ∃ u u' b, r = .udp u ∧ r' = .udp u' ∧ u.step targets b = some (op, u') := by
  cases r with
  | tcp t =>
      cases a with
      | tcp b =>
          obtain ⟨⟨op, t'⟩, hstep, h⟩ := Option.map_eq_some_iff.mp h
          obtain ⟨rfl, rfl⟩ := Prod.mk.inj h
          exact .inl ⟨t, t', b, rfl, rfl, hstep⟩
      | udp b => cases h
  | udp u =>
      cases a with
      | tcp b => cases h
      | udp b =>
          obtain ⟨⟨op, u'⟩, hstep, h⟩ := Option.map_eq_some_iff.mp h
          obtain ⟨rfl, rfl⟩ := Prod.mk.inj h
          exact .inr ⟨u, u', b, rfl, rfl, hstep⟩

theorem Run.balance (h : r.step targets a = some (op, r')) :
    Balance op r.pending r.guards r'.pending r'.guards := by
  obtain ⟨t, t', b, rfl, rfl, hstep⟩ | ⟨u, u', b, rfl, rfl, hstep⟩ := Run.step_cases h
  · exact Tcp.Run.balance hstep
  · exact Udp.Run.balance hstep

def Run.Inv (targets : List Str) : Run → Prop
  | .tcp _ => True
  | .udp r => r.Inv targets

theorem Run.Inv.step (h : r.Inv targets) (hstep : r.step targets a = some (op, r')) :
    r'.Inv targets := by
  obtain ⟨t, t', b, rfl, rfl, -⟩ | ⟨u, u', b, rfl, rfl, hudp⟩ := Run.step_cases hstep
  · trivial
  · exact Udp.Run.Inv.step h hudp

theorem Run.fresh_spec (targets : List Str) (proto : Protocol) :
    (Run.fresh targets proto).pending = 0 ∧ (Run.fresh targets proto).guards = 0 ∧
      (Run.fresh targets proto).Inv targets := by
  cases proto with
  | tcp => exact ⟨rfl, rfl, trivial⟩
  | udp => exact ⟨rfl, rfl, Udp.Run.inv_fresh targets⟩

end

/-- A listener and all its serve runs. -/
structure Listener where
  stats : ListenerStats
  runs : List Run

namespace Listener

inductive Act
  /-- The supervisor starts a serve run, -/
  | start (proto : Protocol)
  /-- notes why one has failed, -/
  | failed (e : Str)
  /-- and counts the restart. -/
  | restart
  /-- A step of a serve run or of one of its tasks. -/
  | run (i : ℕ) (a : RunAct)

/-- What a step does, and its operation on the counters. -/
def act (targets : List Str) (s : Listener) : Act → Option (Option StatsOp × List Run)
  | .start proto => some (none, s.runs ++ [.fresh targets proto])
  | .failed e => some (some (.lastError e), s.runs)
  | .restart => some (some .restart, s.runs)
  | .run i a => do
      let r ← s.runs[i]?
      let (op, r') ← r.step targets a
      return (op, s.runs.set i r')

/-- The operation that a step makes on the counters. -/
def op (targets : List Str) (s : Listener) (a : Act) : Option StatsOp :=
  (s.act targets a).bind Prod.fst

def machine (targets : List Str) : Machine Listener Act where
  init := ⟨.new, []⟩
  step s a := (s.act targets a).map fun (op, runs) => ⟨op.elim s.stats s.stats.apply, runs⟩

/-- The operations on the counters in the course of a run. -/
def opsOf (targets : List Str) (as : List Act) : List StatsOp :=
  (machine targets).outputs (op targets) (machine targets).init as

/-- The guards that are in someone's hands. -/
def guards (s : Listener) : ℕ := (s.runs.map Run.guards).sum

def pending (s : Listener) : ℕ := (s.runs.map Run.pending).sum

variable {targets : List Str} {s s' : Listener} {a : Act} {runs : List Run} {o : Option StatsOp}
  {ops : List StatsOp}

/-- What every step keeps in balance, over all runs. -/
theorem act_balance (h : s.act targets a = some (o, runs)) :
    Balance o s.pending s.guards (runs.map Run.pending).sum (runs.map Run.guards).sum := by
  cases a with
  | start proto =>
      obtain ⟨rfl, rfl⟩ := Prod.mk.inj (Option.some.inj h)
      obtain ⟨hpending, hguards, -⟩ := Run.fresh_spec targets proto
      exact ⟨by simp [pending, hpending], by simp [guards, hguards]⟩
  | failed | restart =>
      obtain ⟨rfl, rfl⟩ := Prod.mk.inj (Option.some.inj h)
      exact ⟨rfl, rfl⟩
  | run i a =>
      simp only [act, Option.bind_eq_bind, Option.bind_eq_some_iff, Option.pure_def,
        Option.some.injEq, Prod.mk.injEq] at h
      obtain ⟨r, hr, ⟨o, r'⟩, hstep, rfl, rfl⟩ := h
      exact Balance.set hr (Run.balance hstep)

theorem inv_act (hs : ∀ r ∈ s.runs, r.Inv targets) (h : s.act targets a = some (o, runs)) :
    ∀ r ∈ runs, r.Inv targets := by
  cases a with
  | start proto =>
      obtain ⟨-, rfl⟩ := Prod.mk.inj (Option.some.inj h)
      refine List.forall_mem_append.mpr ⟨hs, List.forall_mem_singleton.mpr ?_⟩
      exact (Run.fresh_spec targets proto).2.2
  | failed | restart =>
      obtain ⟨-, rfl⟩ := Prod.mk.inj (Option.some.inj h)
      exact hs
  | run i a =>
      simp only [act, Option.bind_eq_bind, Option.bind_eq_some_iff, Option.pure_def,
        Option.some.injEq, Prod.mk.injEq] at h
      obtain ⟨r, hr, ⟨o, r'⟩, hstep, -, rfl⟩ := h
      intro u hu
      rcases List.mem_or_eq_of_mem_set hu with hu | rfl
      · exact hs u hu
      · exact (hs r (List.mem_of_getElem? hr)).step hstep

/-- **The balance of a listener**: the operations so far, the counters, and what is in the
hands of the tasks. -/
structure Inv (targets : List Str) (ops : List StatsOp) (s : Listener) : Prop where
  counts : s.stats.Counts (ops.count .accept) s.guards
  made : s.guards + ops.count .unguard = ops.count .guard
  accepted : s.pending + ops.count .guard = ops.count .accept
  runs : ∀ r ∈ s.runs, r.Inv targets

theorem inv_step (hs : s.Inv targets ops) (h : (machine targets).step s a = some s') :
    s'.Inv targets (ops ++ (s.op targets a).toList) := by
  obtain ⟨⟨o, runs⟩, hact, rfl⟩ := Option.map_eq_some_iff.mp h
  have hbalance := act_balance hact
  have hop : s.op targets a = o := by simp [Listener.op, hact]
  rw [hop]
  have hmade := hs.made
  have haccepted := hs.accepted
  have hguards := hbalance.guards
  have hpending := hbalance.pending
  refine ⟨?_, ?_, ?_, inv_act hs.runs hact⟩
  · rw [List.count_append]
    exact hs.counts.apply hbalance
  · simp only [guards, List.count_append] at *
    omega
  · simp only [pending, List.count_append] at *
    omega

theorem inv_run {as : List Act} (h : (machine targets).run (machine targets).init as = some s) :
    s.Inv targets (opsOf targets as) := by
  refine Machine.run_outputs_invariant (I := fun ops s => s.Inv targets ops) ?_ ?_ h
  · exact ⟨⟨rfl, rfl⟩, rfl, rfl, nofun⟩
  · intro ops s a t hs hstep
    exact inv_step hs hstep

/-- There are no more guards than accepts, and so the gauge is as good as a number. -/
theorem Inv.exact (hs : s.Inv targets ops) (hlt : ops.count .accept < 2 ^ 64) :
    s.stats.active.toNat = s.guards ∧ s.stats.accepted.toNat = ops.count .accept ∧
      s.stats.active ≤ s.stats.accepted := by
  have hle : s.guards ≤ ops.count .accept := by
    have hmade := hs.made
    have haccepted := hs.accepted
    omega
  have hactive := hs.counts.toNat_active (hle.trans_lt hlt)
  have haccepted := hs.counts.toNat_accepted hlt
  refine ⟨hactive, haccepted, ?_⟩
  rw [UInt64.le_iff_toNat_le, hactive, haccepted]
  exact hle

/-- **The gauge is exact and never underflows.** After any run with fewer than `2 ^ 64`
accepts, `active` is the number of guards that have been made and not yet dropped, at most
`accepted`, and to drop one of them takes one off it. The guards of a UDP serve run are the
sessions in its map, those whose task has removed them but not yet dropped its guard, and
not the one the loop has inserted but not yet accepted. -/
theorem gauge_exact {as : List Act}
    (h : (machine targets).run (machine targets).init as = some s)
    (hlt : (opsOf targets as).count .accept < 2 ^ 64) :
    s.stats.active.toNat = s.guards ∧
    s.guards + (opsOf targets as).count .unguard = (opsOf targets as).count .guard ∧
    s.stats.active ≤ s.stats.accepted ∧
    (∀ a s', (machine targets).step s a = some s' → s.op targets a = some .unguard →
      s.stats.active.toNat = s'.stats.active.toNat + 1) ∧
    (∀ r, .udp r ∈ s.runs →
      r.guards + (if r.between then 1 else 0) = r.sessions + r.lingering) := by
  have hs := inv_run h
  obtain ⟨hactive, -, hle⟩ := hs.exact hlt
  refine ⟨hactive, hs.made, hle, ?_, ?_⟩
  · intro a s' hstep hop
    have hs' := inv_step hs hstep
    rw [hop] at hs'
    have hmade := hs.made
    have hmade' : s'.guards + ((opsOf targets as).count .unguard + 1) =
        (opsOf targets as).count .guard := by simpa using hs'.made
    obtain ⟨hactive', -⟩ := hs'.exact (by simpa using hlt)
    omega
  · intro r hr
    exact (hs.runs (.udp r) hr).guards_add

/-- A connection whose task has panicked, and in a later serve run a session whose task has
removed it but not yet dropped its guard. -/
theorem gauge_exact_restarted :
    ∃ as s, (machine ["9.9.9.9:53".toList]).run (machine ["9.9.9.9:53".toList]).init as = some s ∧
      s.stats.accepted = 2 ∧ s.guards = 1 ∧ s.stats.active.toNat = s.guards := by
  obtain ⟨as, s, hrun, hlt, haccepted, hguards⟩ : ∃ as s,
      (machine ["9.9.9.9:53".toList]).run (machine ["9.9.9.9:53".toList]).init as = some s ∧
      (opsOf ["9.9.9.9:53".toList] as).count .accept < 2 ^ 64 ∧ s.stats.accepted = 2 ∧
      s.guards = 1 :=
    ⟨[.start .tcp, .run 0 (.tcp (.serve (.accept ⟨.v4 ⟨10, 0, 0, 1⟩, 4000, 0⟩))),
      .run 0 (.tcp (.serve .dispatch)), .run 0 (.tcp (.conn 0 .accept)),
      .run 0 (.tcp (.conn 0 .guard)), .failed "panic".toList, .restart, .start .udp,
      .run 1 (.udp (.own (.serve (.recv ⟨.v4 ⟨10, 0, 0, 1⟩, 4000, 0⟩ [1])))),
      .run 1 (.udp (.own (.serve .lookup))),
      .run 1 (.udp (.own (.serve (.openSession (.ok []) fun _ => none)))),
      .run 1 (.udp (.own (.serve .insert))), .run 1 (.udp .accept), .run 1 (.udp .guard),
      .run 1 (.udp .spawn), .run 0 (.tcp (.conn 0 .panic)), .run 0 (.tcp (.conn 0 .drop)),
      .run 1 (.udp (.own (.reverse 0 .recvError))), .run 1 (.udp (.own (.reverse 0 .remove)))],
      _, rfl, by decide, rfl, rfl⟩
  exact ⟨as, s, hrun, haccepted, hguards, (gauge_exact hrun hlt).1⟩

end Listener
end Gust
