import Gust.Forward.Gauge
import Gust.Supervisor

/-!
# Launching the listeners

Each `-L` runs under a supervisor of its own: `spawnListener` is the supervisor's system
around the serve loop of the listener's protocol.

The supervisor and the serve runs share the counters of the listener. The supervisor's system
counts in numbers and the listener in 64-bit words; `tally` is what the supervisor's calls add
up to, and both are read off it (`stats_of_supervised`).
-/

namespace Gust.App

open Gust.Lib Gust.Supervisor

/-- `tcp::serve`. -/
def tcpServe (spec : ListenerSpec) : Service where
  State := Tcp.State
  Act := Tcp.Act
  bind := spec.bind
  init := Tcp.init
  step := Tcp.step spec.targets
  atSelect s := s.loop == .accepting

/-- `udp::serve`. The shutdown arm and the abort are the supervisor's business. -/
def udpServe (spec : ListenerSpec) : Service where
  State := Udp.State
  Act := Udp.Act
  bind := spec.bind
  init := (Udp.machine spec.targets).init
  step s a :=
    match a with
    | .serve .shutdown => none
    | .serve .abort => none
    | a => Udp.step spec.targets s a
  atSelect s := s.loop == .receiving

def serve (spec : ListenerSpec) : Service :=
  match spec.proto with
  | .tcp => tcpServe spec
  | .udp => udpServe spec

/-- The supervised serve loop of one listener. -/
def spawnListener (spec : ListenerSpec) : Machine (State (serve spec)) (Act (serve spec)) :=
  machine (serve spec)

/-- **A listener is never abandoned and never doubled**, whatever its protocol. -/
theorem listener_neverAbandoned (spec : ListenerSpec) {s : State (serve spec)}
    (h : (spawnListener spec).Reachable s) : NeverAbandoned s :=
  neverAbandoned h

/-- A bind failure, a pause, and a shutdown in the middle of it. -/
theorem listener_bind_failure :
    ∃ s : State (serve ⟨.tcp, "0.0.0.0:80".toList, 80, ["1.2.3.4:80".toList], false, []⟩),
      (spawnListener _).Reachable s ∧ s.pc = .returned ∧ s.restarts = 1 ∧
      s.watch.value = true := by
  obtain ⟨s, hreach, hpc, hrestarts⟩ :
      ∃ s : State (serve ⟨.tcp, "0.0.0.0:80".toList, 80, ["1.2.3.4:80".toList], false, []⟩),
        (spawnListener _).Reachable s ∧ s.pc = .returned ∧ s.restarts = 1 :=
    ⟨_, ⟨[.check, .spawn, .poll, .serve 0 (.bind (some ⟨.other, "in use".toList⟩)), .join, .handle,
      .recheck 5, .poll, .trigger, .poll], rfl⟩, rfl, rfl⟩
  exact ⟨s, hreach, hpc, hrestarts, (listener_neverAbandoned _ hreach).returned hpc⟩

/-! ## The counters behind the supervisor -/

/-- The supervisor's dealings with its listener: it starts a serve run, notes why one has
failed, and counts the restart. -/
def listenerAct {S : Service} (proto : Protocol) (s : State S) : Act S → Option Listener.Act
  | .spawn => some (.start proto)
  | .handle =>
      match s.pc with
      | .handling (.err e) => some (.failed e.msg)
      | .handling .panicked => some (.failed "panic".toList)
      | _ => none
  | .recheck _ => if s.watch.isTriggered then none else some .restart
  | _ => none

/-- The step is the supervisor's, and not a serve run's. -/
def supervised : Listener.Act → Bool
  | .run _ _ => false
  | _ => true

/-- What the supervisor has done to its listener so far. -/
structure Tally where
  restarts : ℕ
  calls : ℕ
  lastError : Option Str
  deriving DecidableEq, Repr

def Tally.add (t : Tally) : Listener.Act → Tally
  | .start _ => { t with calls := t.calls + 1 }
  | .failed e => { t with lastError := some e }
  | .restart => { t with restarts := t.restarts + 1 }
  | .run _ _ => t

def tally (acts : List Listener.Act) : Tally := acts.foldl Tally.add ⟨0, 0, none⟩

@[simp] theorem tally_concat (acts : List Listener.Act) (a : Listener.Act) :
    tally (acts ++ [a]) = (tally acts).add a := by
  simp [tally]

/-- The steps of the serve runs do not count. -/
theorem tally_filter_supervised (acts : List Listener.Act) :
    tally (acts.filter supervised) = tally acts := by
  have hadd : (fun t a => if supervised a = true then Tally.add t a else t) = Tally.add := by
    funext t a
    cases a <;> rfl
  rw [tally, List.foldl_filter, hadd, tally]

section Supervisor

variable {S : Service} {s s' : State S} {proto : Protocol} {acts : List Listener.Act}

theorem tally_handle (hs : tally acts = ⟨s.restarts, s.tasks.length, s.lastError⟩)
    (h : handleStep s = some s') : tally (acts ++ (listenerAct proto s .handle).toList) =
      ⟨s'.restarts, s'.tasks.length, s'.lastError⟩ := by
  unfold handleStep at h
  split at h
  · rename_i hpc
    cases h
    simpa [listenerAct, hpc] using hs
  · rename_i e hpc
    cases h
    simp [listenerAct, hpc, hs, Tally.add]
  · rename_i hpc
    cases h
    simp [listenerAct, hpc, hs, Tally.add]
  · rename_i hpc
    cases h
    simpa [listenerAct, hpc] using hs
  · cases h

/-- Every step of the supervisor keeps the tally. -/
theorem tally_step {a : Act S} (hs : tally acts = ⟨s.restarts, s.tasks.length, s.lastError⟩)
    (h : Supervisor.step s a = some s') :
    tally (acts ++ (listenerAct proto s a).toList) =
      ⟨s'.restarts, s'.tasks.length, s'.lastError⟩ := by
  cases a with
  | trigger | subscribe =>
      cases h
      simpa [listenerAct] using hs
  | unsubscribe =>
      simp only [Supervisor.step, Option.ite_none_right_eq_some, Option.some.injEq] at h
      obtain ⟨-, rfl⟩ := h
      simpa [listenerAct] using hs
  | check =>
      simp only [Supervisor.step, Option.ite_none_right_eq_some] at h
      obtain ⟨-, h⟩ := h
      split at h <;> cases h <;> simpa [listenerAct, State.observe] using hs
  | spawn =>
      simp only [Supervisor.step, Option.ite_none_right_eq_some, Option.some.injEq] at h
      obtain ⟨-, rfl⟩ := h
      simp [listenerAct, hs, Tally.add]
  | poll =>
      simp only [Supervisor.step, pollStep] at h
      split at h
      · obtain ⟨r, -, rfl⟩ := Option.map_eq_some_iff.mp h
        split <;> simpa [listenerAct, State.observe, abort] using hs
      · obtain ⟨r, -, rfl⟩ := Option.map_eq_some_iff.mp h
        split <;> simpa [listenerAct, State.observe] using hs
      · cases h
  | join =>
      simp only [Supervisor.step, joinStep] at h
      split at h
      · split at h
        · cases h
          simpa [listenerAct] using hs
        · cases h
      · cases h
  | handle => exact tally_handle hs h
  | recheck elapsed =>
      simp only [Supervisor.step, Option.ite_none_right_eq_some] at h
      obtain ⟨-, h⟩ := h
      split at h
      · rename_i htriggered
        cases h
        simpa [listenerAct, htriggered, State.observe] using hs
      · rename_i htriggered
        cases h
        simp [listenerAct, htriggered, hs, Tally.add]
  | wake =>
      simp only [Supervisor.step] at h
      split at h
      · cases h
        simpa [listenerAct] using hs
      · cases h
  | serve i a =>
      obtain ⟨t, -, h⟩ := Option.bind_eq_some_iff.mp h
      obtain ⟨r, -, rfl⟩ := Option.map_eq_some_iff.mp h
      simpa [listenerAct] using hs

/-- The numbers in the supervisor's state are the tally of what it has done. -/
theorem tally_supervisor (proto : Protocol) {as : List (Act S)}
    (h : (machine S).run (machine S).init as = some s) :
    tally ((machine S).outputs (listenerAct proto) (machine S).init as) =
      ⟨s.restarts, s.tasks.length, s.lastError⟩ :=
  Machine.run_outputs_invariant
    (I := fun acts s => tally acts = ⟨s.restarts, s.tasks.length, s.lastError⟩) rfl
    (fun _ _ _ _ hs hstep => tally_step hs hstep) h

end Supervisor

section Counters

variable {targets : List Str} {l : Listener}

/-- An operation on a counter that is not the supervisor's. -/
def ServesOnly (op : Option StatsOp) : Prop :=
  ∀ o ∈ op, o ≠ .restart ∧ ∀ e, o ≠ .lastError e

theorem servesOnly_tcp {r r' : Tcp.Run} {a : Tcp.RunAct} {op : Option StatsOp}
    (h : r.step targets a = some (op, r')) : ServesOnly op := by
  cases a with
  | serve a =>
      obtain ⟨s, -, h⟩ := Option.map_eq_some_iff.mp h
      obtain ⟨rfl, -⟩ := Prod.mk.inj h
      cases a <;> simp [ServesOnly]
  | conn j a =>
      simp only [Tcp.Run.step, Option.bind_eq_bind, Option.bind_eq_some_iff, Option.pure_def,
        Option.some.injEq, Prod.mk.injEq] at h
      obtain ⟨c, -, ⟨op, c'⟩, hstep, rfl, -⟩ := h
      cases c <;> cases a <;>
        simp only [Tcp.Conn.step, Option.some.injEq, Prod.mk.injEq, reduceCtorEq] at hstep
      all_goals
        obtain ⟨rfl, -⟩ := hstep
        simp [ServesOnly]

theorem servesOnly_udp {r r' : Udp.Run} {a : Udp.RunAct} {op : Option StatsOp}
    (h : r.step targets a = some (op, r')) : ServesOnly op := by
  cases a with
  | own a =>
      simp only [Udp.Run.step, Option.ite_none_right_eq_some, Option.map_eq_some_iff,
        Prod.mk.injEq] at h
      obtain ⟨-, s, -, rfl, -⟩ := h
      fun_cases Udp.State.op <;> simp [ServesOnly]
  | accept | guard | spawn | drop j =>
      simp only [Udp.Run.step, Option.ite_none_right_eq_some, Option.some.injEq,
        Prod.mk.injEq] at h
      obtain ⟨-, rfl, -⟩ := h
      simp [ServesOnly]

/-- The serve runs leave what the supervisor counts alone. -/
theorem apply_of_run {r r' : Run} {a : RunAct} {op : Option StatsOp}
    (h : r.step targets a = some (op, r')) (stats : ListenerStats) :
    (op.elim stats stats.apply).restarts = stats.restarts ∧
      (op.elim stats stats.apply).lastError = stats.lastError := by
  have hserves : ServesOnly op := by
    obtain ⟨t, t', b, -, -, htcp⟩ | ⟨u, u', b, -, -, hudp⟩ := Run.step_cases h
    · exact servesOnly_tcp htcp
    · exact servesOnly_udp hudp
  cases op with
  | none => exact ⟨rfl, rfl⟩
  | some op =>
      obtain ⟨hrestart, hlast⟩ := hserves op rfl
      cases op with
      | restart => exact absurd rfl hrestart
      | lastError e => exact absurd rfl (hlast e)
      | _ => exact ⟨rfl, rfl⟩

/-- The counters of a listener, up to their width, are the tally of all its steps. -/
theorem stats_of_tally {bs : List Listener.Act}
    (h : (Listener.machine targets).run (Listener.machine targets).init bs = some l) :
    l.stats.restarts = UInt64.ofNat (tally bs).restarts ∧
      l.stats.lastError = (tally bs).lastError ∧ l.runs.length = (tally bs).calls := by
  refine Machine.run_trace_invariant
    (I := fun bs l => l.stats.restarts = UInt64.ofNat (tally bs).restarts ∧
      l.stats.lastError = (tally bs).lastError ∧ l.runs.length = (tally bs).calls)
    ⟨rfl, rfl, rfl⟩ ?_ h
  rintro bs l b l' ⟨hrestarts, hlast, hruns⟩ hstep
  obtain ⟨⟨op, runs⟩, hact, rfl⟩ := Option.map_eq_some_iff.mp hstep
  rw [tally_concat]
  cases b with
  | start proto =>
      obtain ⟨rfl, rfl⟩ := Prod.mk.inj (Option.some.inj hact)
      exact ⟨hrestarts, hlast, by simp [Tally.add, hruns]⟩
  | failed e =>
      obtain ⟨rfl, rfl⟩ := Prod.mk.inj (Option.some.inj hact)
      exact ⟨hrestarts, rfl, hruns⟩
  | restart =>
      obtain ⟨rfl, rfl⟩ := Prod.mk.inj (Option.some.inj hact)
      exact ⟨by simp [Tally.add, ListenerStats.apply, hrestarts], hlast, hruns⟩
  | run i a =>
      simp only [Listener.act, Option.bind_eq_bind, Option.bind_eq_some_iff, Option.pure_def,
        Option.some.injEq, Prod.mk.injEq] at hact
      obtain ⟨r, -, ⟨op, r'⟩, hrun, rfl, rfl⟩ := hact
      obtain ⟨hrestarts', hlast'⟩ := apply_of_run hrun l.stats
      exact ⟨hrestarts'.trans hrestarts, hlast'.trans hlast, by simpa [Tally.add] using hruns⟩

end Counters

/-- **One listener, counted twice.** Whatever its serve runs do in between, a listener that
its supervisor has brought to `l` shows the restarts of the supervisor's own count, up to the
width of the counter, the error it has noted last, and as many serve runs as it has called. -/
theorem stats_of_supervised (spec : ListenerSpec) {as : List (Act (serve spec))}
    {s : State (serve spec)} (h : (spawnListener spec).run (spawnListener spec).init as = some s)
    {bs : List Listener.Act} {l : Listener}
    (hl : (Listener.machine spec.targets).run (Listener.machine spec.targets).init bs = some l)
    (hbs : bs.filter supervised =
      (spawnListener spec).outputs (listenerAct spec.proto) (spawnListener spec).init as) :
    l.stats.restarts = UInt64.ofNat s.restarts ∧ l.stats.lastError = s.lastError ∧
      l.runs.length = s.tasks.length := by
  have htally : tally bs = ⟨s.restarts, s.tasks.length, s.lastError⟩ := by
    rw [← tally_filter_supervised, hbs]
    exact tally_supervisor spec.proto h
  obtain ⟨hrestarts, hlast, hruns⟩ := stats_of_tally hl
  rw [htally] at hrestarts hlast hruns
  exact ⟨hrestarts, hlast, hruns⟩

end Gust.App
