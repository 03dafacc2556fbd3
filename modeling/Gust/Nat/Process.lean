import Gust.Nat.Linux
import Gust.Stopping

/-!
# The NAT process

`nat::linux::run` up to the guard is the machine of `Gust.Nat.Linux`. Once the guard is armed,
the process has the same tasks as a userspace process without listeners: one `Shutdown`, the
signal task, the heartbeat, and the main task in `cancelled()`. What the main task does when
it is woken is to clean up and return.

Until the signal task has installed a handler for a signal, that signal kills the process and
no guard runs. The handlers are installed after the rules, by a task of their own.

The system is put together from the two machines, and projects onto each of them
(`nat_run`, `tasks_run`). So the tables are what the first one says, and whether
and when the main task wakes is what the second one says.
-/

namespace Gust.Nat

open Gust.Lib

variable {τ φ : Type}

/-- No listener is served in userspace. -/
def noListeners : Fin 0 → Supervisor.Service := Fin.elim0

/-- The `Shutdown` and the tasks around it. -/
abbrev Tasks := Userspace.State noListeners

/-- The signals that `signals::install` is for. -/
inductive Sig
  | int
  | term
  deriving DecidableEq, Repr

structure Process (τ φ : Type) where
  nat : NatRun τ φ
  tasks : Tasks
  /-- SIGINT has a handler. -/
  handlesInt : Bool
  /-- SIGTERM has a handler. -/
  handlesTerm : Bool
  /-- A signal with a handler has arrived. -/
  pending : Bool
  /-- A signal without a handler has arrived. -/
  killed : Bool

namespace Process

inductive Act
  /-- `run`, up to the guard. -/
  | run (e : Event)
  /-- The main task spawns the signal task, spawns the heartbeat, or polls `cancelled()`. -/
  | main
  /-- The main task unwinds. -/
  | panic
  /-- `state.cleanup()`. -/
  | cleanup (faults : Faults)
  /-- The main task returns, and drops the guard. -/
  | ret (faults : Faults)
  /-- The guard is dropped in the course of a panic. -/
  | unwound (faults : Faults)
  | signals (a : Userspace.SignalsAct)
  | heartbeat (a : Userspace.HeartbeatAct)
  /-- A signal is sent to the process. -/
  | deliver (sig : Sig)

/-- The steps of `run` before its guard is armed. -/
def early : Event → Bool
  | .preflight _ | .resolve _ | .ensureIpForward _ | .preclean _ | .install _ _ => true
  | .list | .shutdown _ | .unwind | .drop _ => false

/-- Nothing of the process runs any more. -/
def gone (p : Process τ φ) : Bool :=
  p.killed ||
    match p.nat.phase with
    | .ended _ => true
    | _ => false

def handles (p : Process τ φ) : Sig → Bool
  | .int => p.handlesInt
  | .term => p.handlesTerm

/-- A step of `run`. -/
def natStep (nft : Nft τ φ) (cfg : Config) (p : Process τ φ) (e : Event) : Option (Process τ φ) :=
  (NatRun.step nft cfg p.nat e).map fun s => { p with nat := s }

/-- A step of one of the tasks. -/
def tasksStep (p : Process τ φ) (a : Userspace.Act noListeners) : Option (Process τ φ) :=
  (Userspace.step p.tasks a).map fun ts => { p with tasks := ts }

/-- The signal task. A handler is there from its installation on, and a signal is received
after it has arrived. -/
def signalsStep (p : Process τ φ) : Userspace.SignalsAct → Option (Process τ φ)
  | .install ok =>
      (p.tasksStep (.signals (.install ok))).map fun q =>
        { q with
          handlesInt := p.handlesInt || ok && p.tasks.signals == .sigint
          handlesTerm := p.handlesTerm || ok && p.tasks.signals == .sigterm }
  | .recv => if p.pending then p.tasksStep (.signals .recv) else none
  | .trigger => p.tasksStep (.signals .trigger)

def step (nft : Nft τ φ) (cfg : Config) (p : Process τ φ) (a : Act) : Option (Process τ φ) :=
  if p.gone then none
  else
    match a with
    | .run e => if early e then p.natStep nft cfg e else none
    | .main =>
        match p.nat.phase, p.tasks.main with
        | .active _ _, .joining _ => none
        | .active _ _, _ => p.tasksStep (.main .next)
        | _, _ => none
    | .panic => p.natStep nft cfg .unwind
    | .cleanup faults =>
        if p.tasks.main = .joining 0 then p.natStep nft cfg (.shutdown faults) else none
    | .ret faults =>
        match p.nat.phase with
        | .leaving _ (some _) =>
            (p.natStep nft cfg (.drop faults)).bind fun q => q.tasksStep (.main .next)
        | _ => none
    | .unwound faults =>
        match p.nat.phase with
        | .leaving _ none => p.natStep nft cfg (.drop faults)
        | _ => none
    | .signals a => p.signalsStep a
    | .heartbeat a => p.tasksStep (.heartbeat a)
    | .deliver sig =>
        if p.handles sig then some { p with pending := true } else some { p with killed := true }

/-- `gust --nat` on a host in the state `k`. -/
def machine (nft : Nft τ φ) (cfg : Config) (k : Kernel τ φ) : Machine (Process τ φ) Act where
  init := ⟨⟨.preflight, k, false⟩, (Userspace.machine noListeners).init, false, false, false, false⟩
  step := step nft cfg

variable {nft : Nft τ φ} {cfg : Config} {k₀ : Kernel τ φ} {p q : Process τ φ}

/-- Everything a step of the process can do. -/
inductive Step (nft : Nft τ φ) (cfg : Config) (p : Process τ φ) : Act → Process τ φ → Prop
  | run (e : Event) (s : NatRun τ φ) (he : early e = true)
      (h : NatRun.step nft cfg p.nat e = some s) : Step nft cfg p (.run e) { p with nat := s }
  | main (rules : List NatRule) (state : NatState) (ts : Tasks)
      (hphase : p.nat.phase = .active rules state) (hmain : ∀ k, p.tasks.main ≠ .joining k)
      (h : Userspace.step p.tasks (.main .next) = some ts) :
      Step nft cfg p .main { p with tasks := ts }
  | panic (rules : List NatRule) (state : NatState) (hphase : p.nat.phase = .active rules state) :
      Step nft cfg p .panic { p with nat := { p.nat with phase := .leaving state none } }
  | cleanup (faults : Faults) (rules : List NatRule) (state : NatState)
      (hphase : p.nat.phase = .active rules state) (hmain : p.tasks.main = .joining 0) :
      Step nft cfg p (.cleanup faults)
        { p with
          nat :=
            { p.nat with
              phase := .leaving (state.cleanup faults p.nat.kernel).1 (some 0)
              kernel := (state.cleanup faults p.nat.kernel).2 } }
  | ret (faults : Faults) (state : NatState) (code : ℕ) (ts : Tasks)
      (hphase : p.nat.phase = .leaving state (some code))
      (h : Userspace.step p.tasks (.main .next) = some ts) :
      Step nft cfg p (.ret faults)
        { p with
          nat :=
            { p.nat with
              phase := .ended (some code), kernel := (state.cleanup faults p.nat.kernel).2 }
          tasks := ts }
  | unwound (faults : Faults) (state : NatState) (hphase : p.nat.phase = .leaving state none) :
      Step nft cfg p (.unwound faults)
        { p with
          nat :=
            { p.nat with
              phase := .ended none, kernel := (state.cleanup faults p.nat.kernel).2 } }
  | install (ok : Bool) (ts : Tasks)
      (h : Userspace.step p.tasks (.signals (.install ok)) = some ts) :
      Step nft cfg p (.signals (.install ok))
        { p with
          tasks := ts
          handlesInt := p.handlesInt || ok && p.tasks.signals == .sigint
          handlesTerm := p.handlesTerm || ok && p.tasks.signals == .sigterm }
  | recv (ts : Tasks) (hpending : p.pending = true)
      (h : Userspace.step p.tasks (.signals .recv) = some ts) :
      Step nft cfg p (.signals .recv) { p with tasks := ts }
  | trigger (ts : Tasks) (h : Userspace.step p.tasks (.signals .trigger) = some ts) :
      Step nft cfg p (.signals .trigger) { p with tasks := ts }
  | heartbeat (a : Userspace.HeartbeatAct) (ts : Tasks)
      (h : Userspace.step p.tasks (.heartbeat a) = some ts) :
      Step nft cfg p (.heartbeat a) { p with tasks := ts }
  | handled (sig : Sig) (hsig : p.handles sig = true) :
      Step nft cfg p (.deliver sig) { p with pending := true }
  | killed (sig : Sig) (hsig : p.handles sig = false) :
      Step nft cfg p (.deliver sig) { p with killed := true }

theorem step_cases {a : Act} (h : step nft cfg p a = some q) :
    p.gone = false ∧ Step nft cfg p a q := by
  simp only [step, Option.ite_none_left_eq_some, Bool.not_eq_true] at h
  obtain ⟨hgone, h⟩ := h
  refine ⟨hgone, ?_⟩
  cases a with
  | run e =>
      simp only [Option.ite_none_right_eq_some] at h
      obtain ⟨he, h⟩ := h
      obtain ⟨s, hs, rfl⟩ := Option.map_eq_some_iff.mp h
      exact .run e s he hs
  | main =>
      dsimp only at h
      split at h
      · cases h
      · rename_i rules state hphase hmain
        obtain ⟨ts, hts, rfl⟩ := Option.map_eq_some_iff.mp h
        exact .main rules state ts hphase (fun k hk => hmain k hk) hts
      · cases h
  | panic =>
      obtain ⟨s, hs, rfl⟩ := Option.map_eq_some_iff.mp h
      cases NatRun.step_cases hs with
      | unwind hphase => exact .panic _ _ hphase
  | cleanup faults =>
      simp only [Option.ite_none_right_eq_some] at h
      obtain ⟨hmain, h⟩ := h
      obtain ⟨s, hs, rfl⟩ := Option.map_eq_some_iff.mp h
      cases NatRun.step_cases hs with
      | shutdown hphase => exact .cleanup faults _ _ hphase hmain
  | ret faults =>
      dsimp only at h
      split at h
      · rename_i state code hphase
        obtain ⟨r, hr, h⟩ := Option.bind_eq_some_iff.mp h
        obtain ⟨s, hs, rfl⟩ := Option.map_eq_some_iff.mp hr
        obtain ⟨ts, hts, rfl⟩ := Option.map_eq_some_iff.mp h
        simp only [NatRun.step, hphase, Option.some.injEq] at hs
        obtain rfl := hs
        exact .ret faults state code ts hphase hts
      · cases h
  | unwound faults =>
      dsimp only at h
      split at h
      · rename_i state hphase
        obtain ⟨s, hs, rfl⟩ := Option.map_eq_some_iff.mp h
        simp only [NatRun.step, hphase, Option.some.injEq] at hs
        obtain rfl := hs
        exact .unwound faults state hphase
      · cases h
  | signals a =>
      cases a with
      | install ok =>
          obtain ⟨r, hr, rfl⟩ := Option.map_eq_some_iff.mp h
          obtain ⟨ts, hts, rfl⟩ := Option.map_eq_some_iff.mp hr
          exact .install ok ts hts
      | recv =>
          simp only [signalsStep, Option.ite_none_right_eq_some] at h
          obtain ⟨hpending, h⟩ := h
          obtain ⟨ts, hts, rfl⟩ := Option.map_eq_some_iff.mp h
          exact .recv ts hpending hts
      | trigger =>
          obtain ⟨ts, hts, rfl⟩ := Option.map_eq_some_iff.mp h
          exact .trigger ts hts
  | heartbeat a =>
      obtain ⟨ts, hts, rfl⟩ := Option.map_eq_some_iff.mp h
      exact .heartbeat a ts hts
  | deliver sig =>
      dsimp only at h
      split at h
      · rename_i hsig
        cases h
        exact .handled sig hsig
      · rename_i hsig
        cases h
        exact .killed sig (Bool.eq_false_iff.mpr hsig)

/-! ## The two sides of the process -/

/-- The step of `run` that a step of the process is. -/
def Act.event : Act → Option Event
  | .run e => some e
  | .panic => some .unwind
  | .cleanup faults => some (.shutdown faults)
  | .ret faults => some (.drop faults)
  | .unwound faults => some (.drop faults)
  | _ => none

/-- The table of the family was to be deleted, and was not. -/
def Act.failsDelete (f : Family) (a : Act) : Bool := a.event.any fun e => e.failsDelete f

/-- The sysctl was to be put back, and was not. -/
def Act.failsRestore (a : Act) : Bool := a.event.any fun e => e.failsRestore

/-- The step of the tasks that a step of the process is. -/
def Act.task : Act → Option (Userspace.Act noListeners)
  | .main => some (.main .next)
  | .ret _ => some (.main .next)
  | .signals a => some (.signals a)
  | .heartbeat a => some (.heartbeat a)
  | _ => none

theorem nat_step (p : Process τ φ) (a : Act) (q : Process τ φ) (h : step nft cfg p a = some q) :
    (NatRun.machine nft cfg k₀).run p.nat a.event.toList = some q.nat := by
  obtain ⟨-, h⟩ := step_cases h
  cases h with
  | run e s he hs => exact Machine.run_singleton hs
  | panic rules state hphase =>
      exact Machine.run_singleton (by simp [NatRun.machine, NatRun.step, hphase])
  | cleanup faults rules state hphase hmain =>
      exact Machine.run_singleton (by simp [NatRun.machine, NatRun.step, hphase])
  | ret faults state code ts hphase hts =>
      exact Machine.run_singleton (by simp [NatRun.machine, NatRun.step, hphase])
  | unwound faults state hphase =>
      exact Machine.run_singleton (by simp [NatRun.machine, NatRun.step, hphase])
  | _ => rfl

theorem tasks_step (p : Process τ φ) (a : Act) (q : Process τ φ) (h : step nft cfg p a = some q) :
    (Userspace.machine noListeners).run p.tasks a.task.toList = some q.tasks := by
  obtain ⟨-, h⟩ := step_cases h
  cases h with
  | main rules state ts hphase hmain hts => exact Machine.run_singleton hts
  | ret faults state code ts hphase hts => exact Machine.run_singleton hts
  | install ok ts hts => exact Machine.run_singleton hts
  | recv ts hpending hts => exact Machine.run_singleton hts
  | trigger ts hts => exact Machine.run_singleton hts
  | heartbeat a ts hts => exact Machine.run_singleton hts
  | _ => rfl

theorem nat_run {as : List Act} (h : (machine nft cfg k₀).run p as = some q) :
    (NatRun.machine nft cfg k₀).run p.nat (as.filterMap Act.event) = some q.nat :=
  Machine.run_simulation (N := NatRun.machine nft cfg k₀) Process.nat Act.event
    (fun p a q hstep => nat_step p a q hstep) h

theorem tasks_run {as : List Act} (h : (machine nft cfg k₀).run p as = some q) :
    (Userspace.machine noListeners).run p.tasks (as.filterMap Act.task) = some q.tasks :=
  Machine.run_simulation (N := Userspace.machine noListeners) Process.tasks Act.task
    (fun p a q hstep => tasks_step p a q hstep) h

theorem tasks_reachable (h : (machine nft cfg k₀).Reachable p) :
    (Userspace.machine noListeners).Reachable p.tasks := by
  obtain ⟨as, has⟩ := h
  exact ⟨_, tasks_run has⟩

/-! ## Where the process is -/

/-- A signal or heartbeat step leaves the main task where it is, and is not there for tasks
that have not been spawned. -/
theorem main_of_step {ts ts' : Tasks} {a : Userspace.Act noListeners}
    (ha : ∀ b, a ≠ .main b) (h : Userspace.step ts a = some ts') :
    ts'.main = ts.main ∧ ts ≠ (Userspace.machine noListeners).init := by
  simp only [Userspace.step, Option.ite_none_left_eq_some] at h
  obtain ⟨-, h⟩ := h
  cases a with
  | main b => exact absurd rfl (ha b)
  | signals b =>
      refine ⟨?_, ?_⟩
      · cases Userspace.signalsStep_cases h with
        | move a sig hsig hlt => rfl
        | trigger hsig => rfl
      · rintro rfl
        cases Userspace.signalsStep_cases h with
        | move a sig hsig hlt => exact hsig rfl
        | trigger hsig => cases hsig
  | heartbeat b =>
      refine ⟨?_, ?_⟩
      · cases Userspace.heartbeatStep_cases h with
        | _ => rfl
      · rintro rfl
        cases Userspace.heartbeatStep_cases h with
        | poll arm w c hb hpoll hc => cases hb
        | stop arm w hb hpoll => cases hb
        | tick arm hb => cases hb
        | leave hb hv => cases hb
        | stay hb hv => cases hb
        | log hb => cases hb
  | listener i b => exact i.elim0

/-- How far the two sides are, together. `panicked` says that the main task may have unwound. -/
def Stage (panicked : Prop) (p : Process τ φ) : Prop :=
  match p.nat.phase with
  | .active _ _ => p.nat.installed = true ∧ p.tasks.main ≠ .exited
  | .leaving _ (some code) => p.nat.installed = true ∧ code = 0 ∧ p.tasks.main = .joining 0
  | .leaving _ none => p.nat.installed = true ∧ panicked
  | .ended (some code) =>
      p.nat.installed = true ∧ code = 0 ∧ p.tasks.main = .exited ∨
        p.nat.installed = false ∧ p.tasks = (Userspace.machine noListeners).init
  | .ended none => p.nat.installed = true ∧ panicked
  | _ => p.nat.installed = false ∧ p.tasks = (Userspace.machine noListeners).init

variable {panicked : Prop}

theorem Stage.mono {panicked' : Prop} (h : panicked → panicked') (hp : Stage panicked p) :
    Stage panicked' p := by
  simp only [Stage] at hp ⊢
  split at hp
  · exact hp
  · exact hp
  · exact ⟨hp.1, h hp.2⟩
  · exact hp
  · exact ⟨hp.1, h hp.2⟩
  · exact hp

/-- The signal task and the heartbeat do not change the stage. -/
theorem Stage.tasks (hp : Stage panicked p) {a : Userspace.Act noListeners} {ts : Tasks}
    (ha : ∀ b, a ≠ .main b) (h : Userspace.step p.tasks a = some ts) {b c d : Bool} :
    Stage panicked ⟨p.nat, ts, b, c, d, p.killed⟩ := by
  obtain ⟨hmain, hinit⟩ := main_of_step ha h
  simp only [Stage] at hp ⊢
  rw [hmain]
  split at hp
  · exact hp
  · exact hp
  · exact hp
  · exact .inl (hp.resolve_right fun h => hinit h.2)
  · exact hp
  · exact absurd hp.2 hinit

/-- A step of `run` before the guard is armed. -/
theorem Stage.early (hp : Stage panicked p) {e : Event} {s : NatRun τ φ} (he : early e = true)
    (h : NatRun.step nft cfg p.nat e = some s) : Stage panicked { p with nat := s } := by
  cases NatRun.step_cases h with
  | preflight hphase =>
      rw [Stage, hphase] at hp
      exact hp
  | preflightFailed hphase =>
      rw [Stage, hphase] at hp
      exact .inr hp
  | resolve hphase hrules =>
      rw [Stage, hphase] at hp
      exact hp
  | resolveFailed hphase =>
      rw [Stage, hphase] at hp
      exact .inr hp
  | forward hphase hensure =>
      rw [Stage, hphase] at hp
      exact hp
  | forwardFailed hphase =>
      rw [Stage, hphase] at hp
      exact .inr hp
  | preclean hphase =>
      rw [Stage, hphase] at hp
      exact hp
  | install hphase =>
      rw [Stage, hphase] at hp
      refine ⟨rfl, ?_⟩
      dsimp only
      rw [hp.2]
      simp [Userspace.machine]
  | installFailed hphase =>
      rw [Stage, hphase] at hp
      exact .inr hp
  | list hphase => cases he
  | shutdown hphase => cases he
  | unwind hphase => cases he
  | drop hphase => cases he

/-- The main task goes on, and does not return before it is woken. -/
theorem main_ne_exited {ts ts' : Tasks} (hmain : ∀ k, ts.main ≠ .joining k)
    (h : Userspace.step ts (.main .next) = some ts') : ts'.main ≠ .exited := by
  simp only [Userspace.step, Option.ite_none_left_eq_some] at h
  cases Userspace.mainStep_cases h.2 with
  | exit k hjoin hk => exact absurd hjoin (hmain k)
  | _ => simp

theorem stage_step {a : Act} (hp : Stage panicked p) (h : step nft cfg p a = some q) :
    Stage (panicked ∨ a = .panic) q := by
  obtain ⟨hgone, h⟩ := step_cases h
  cases h with
  | run e s he hs => exact (hp.early he hs).mono .inl
  | main rules state ts hphase hmain hts =>
      simp only [Stage, hphase] at hp ⊢
      exact ⟨hp.1, main_ne_exited hmain hts⟩
  | panic rules state hphase =>
      simp only [Stage, hphase] at hp
      exact ⟨hp.1, .inr rfl⟩
  | cleanup faults rules state hphase hmain =>
      simp only [Stage, hphase] at hp
      exact ⟨hp.1, rfl, hmain⟩
  | ret faults state code ts hphase hts =>
      simp only [Stage, hphase] at hp
      obtain ⟨hinstalled, rfl, hmain⟩ := hp
      have hexited : ts.main = .exited := by
        simpa [Userspace.step, Userspace.mainStep, hmain, eq_comm] using congrArg
          (fun o => o.map fun t : Tasks => t.main) hts
      exact .inl ⟨hinstalled, rfl, hexited⟩
  | unwound faults state hphase =>
      simp only [Stage, hphase] at hp
      exact ⟨hp.1, .inl hp.2⟩
  | install ok ts hts => exact (hp.tasks (by simp) hts).mono .inl
  | recv ts hpending hts => exact (hp.tasks (by simp) hts).mono .inl
  | trigger ts hts => exact (hp.tasks (by simp) hts).mono .inl
  | heartbeat a ts hts => exact (hp.tasks (by simp) hts).mono .inl
  | handled sig hsig => exact hp.mono .inl
  | killed sig hsig => exact hp.mono .inl

theorem stage_run {as : List Act}
    (h : (machine nft cfg k₀).run (machine nft cfg k₀).init as = some p) :
    Stage (.panic ∈ as) p := by
  have hinit : Stage (Act.panic ∈ []) (machine nft cfg k₀).init := ⟨rfl, rfl⟩
  refine Machine.run_trace_invariant (I := fun as p => Stage (Act.panic ∈ as) p) hinit ?_ h
  intro as p a q hp hstep
  have hq := stage_step hp hstep
  have hiff : (Act.panic ∈ as ∨ a = .panic) = (Act.panic ∈ as ++ [a]) := by
    simp [eq_comm]
  rwa [hiff] at hq

/-! ## Signals and their handlers -/

/-- The signal task has installed the handlers it is past. -/
def Handled (p : Process τ φ) : Prop :=
  match p.tasks.signals with
  | .sigterm => p.handlesInt = true
  | .receiving | .received => p.handlesInt = true ∧ p.handlesTerm = true
  | _ => True

theorem handled_step (p : Process τ φ) (a : Act) (q : Process τ φ) (hp : Handled p)
    (h : step nft cfg p a = some q) : Handled q := by
  obtain ⟨-, h⟩ := step_cases h
  -- a step of the main task leaves the signal task alone or spawns it
  have hspawn : ∀ {ts : Tasks}, Userspace.step p.tasks (.main .next) = some ts →
      ts.signals = p.tasks.signals ∨ ts.signals = .sigint := by
    intro ts hts
    simp only [Userspace.step, Option.ite_none_left_eq_some] at hts
    cases Userspace.mainStep_cases hts.2 with
    | install k hmain hk => exact .inr rfl
    | _ => exact .inl rfl
  cases h with
  | main rules state ts hphase hmain hts =>
      obtain hsig | hsig := hspawn hts
      · simpa only [Handled, hsig] using hp
      · simp [Handled, hsig]
  | ret faults state code ts hphase hts =>
      obtain hsig | hsig := hspawn hts
      · simpa only [Handled, hsig] using hp
      · simp [Handled, hsig]
  | install ok ts hts =>
      simp only [Userspace.step, Option.ite_none_left_eq_some, Userspace.signalsStep] at hts
      obtain ⟨-, hts⟩ := hts
      split at hts
      · rename_i hsig
        cases hts
        cases ok <;> simp [Handled, hsig]
      · rename_i hsig
        cases hts
        simp only [Handled, hsig] at hp
        cases ok <;> simp [Handled, hsig, hp]
      · cases hts
  | recv ts hpending hts =>
      simp only [Userspace.step, Option.ite_none_left_eq_some, Userspace.signalsStep,
        Option.ite_none_right_eq_some, Option.some.injEq] at hts
      obtain ⟨-, hsig, rfl⟩ := hts
      simpa only [Handled, hsig] using hp
  | trigger ts hts =>
      simp only [Userspace.step, Option.ite_none_left_eq_some, Userspace.signalsStep,
        Option.ite_none_right_eq_some, Option.some.injEq] at hts
      obtain ⟨-, -, rfl⟩ := hts
      simp [Handled]
  | heartbeat b ts hts =>
      have hsig : ts.signals = p.tasks.signals := by
        simp only [Userspace.step, Option.ite_none_left_eq_some] at hts
        cases Userspace.heartbeatStep_cases hts.2 with
        | _ => rfl
      simpa only [Handled, hsig] using hp
  | _ => exact hp

/-- Both signals have handlers, and none has killed the process. -/
structure Safe (p : Process τ φ) : Prop where
  handlesInt : p.handlesInt = true
  handlesTerm : p.handlesTerm = true
  killed : p.killed = false

theorem safe_step (p : Process τ φ) (a : Act) (q : Process τ φ) (hp : Safe p)
    (h : step nft cfg p a = some q) : Safe q := by
  obtain ⟨-, h⟩ := step_cases h
  cases h with
  | install ok ts hts => exact ⟨by simp [hp.handlesInt], by simp [hp.handlesTerm], hp.killed⟩
  | killed sig hsig =>
      cases sig with
      | int => exact absurd hp.handlesInt (by simpa [handles] using hsig)
      | term => exact absurd hp.handlesTerm (by simpa [handles] using hsig)
  | _ => exact ⟨hp.handlesInt, hp.handlesTerm, hp.killed⟩

/-! ## The way out -/

/-- A step that is not just a signal from outside. -/
def Act.control : Act → Bool
  | .deliver _ => false
  | _ => true

/-- The steps that the main task has to go after it is woken, besides its polls. -/
def phaseRank : Phase → ℕ
  | .active _ _ => 2
  | .leaving _ _ => 1
  | _ => 0

def rank (p : Process τ φ) : ℕ := p.tasks.rank + phaseRank p.nat.phase

/-- The shutdown value is stored. -/
structure Stopping (p : Process τ φ) : Prop where
  tasks : Userspace.Stopping p.tasks
  stage : Stage True p

theorem stopping_step (p : Process τ φ) (a : Act) (q : Process τ φ) (hp : Stopping p)
    (h : step nft cfg p a = some q) : Stopping q := by
  refine ⟨?_, ?_⟩
  · exact Machine.run_invariant (M := Userspace.machine noListeners) Userspace.stopping_step
      (tasks_step p a q h) hp.tasks
  · have hq := stage_step hp.stage h
    rwa [true_or] at hq

/-- A process that is being stopped has its rules installed, or has had them installed. -/
theorem Stopping.tasks_ne (hp : Stopping p) : p.tasks ≠ (Userspace.machine noListeners).init := by
  intro hinit
  have hv := hp.tasks.2
  rw [hinit] at hv
  cases hv

theorem rank_step (hp : Stopping p) {a : Act} (h : step nft cfg p a = some q) :
    q.rank + (if a.control then 1 else 0) ≤ p.rank := by
  obtain ⟨-, h⟩ := step_cases h
  -- a step of the tasks is paid for there
  have htasks : ∀ {b : Userspace.Act noListeners} {ts : Tasks}, b.control = true →
      Userspace.step p.tasks b = some ts → ts.rank + 1 ≤ p.tasks.rank := by
    intro b ts hb hts
    have hle := Userspace.rank_step hp.tasks.1 hp.tasks.2 hts
    rwa [hb, if_pos rfl] at hle
  cases h with
  | run e s he hs =>
      have hstage := hp.stage
      cases NatRun.step_cases hs with
      | list hphase => cases he
      | shutdown hphase => cases he
      | unwind hphase => cases he
      | drop hphase => cases he
      | _ hphase =>
          rw [Stage, hphase] at hstage
          exact absurd hstage.2 hp.tasks_ne
  | main rules state ts hphase hmain hts =>
      have := htasks rfl hts
      simp only [rank, Act.control, if_true]
      omega
  | panic rules state hphase => simp [rank, phaseRank, hphase, Act.control]
  | cleanup faults rules state hphase hmain => simp [rank, phaseRank, hphase, Act.control]
  | ret faults state code ts hphase hts =>
      have := htasks rfl hts
      simp only [rank, phaseRank, hphase, Act.control, if_true]
      omega
  | unwound faults state hphase => simp [rank, phaseRank, hphase, Act.control]
  | install ok ts hts =>
      have := htasks rfl hts
      simp only [rank, Act.control, if_true]
      omega
  | recv ts hpending hts =>
      have := htasks rfl hts
      simp only [rank, Act.control, if_true]
      omega
  | trigger ts hts =>
      have := htasks rfl hts
      simp only [rank, Act.control, if_true]
      omega
  | heartbeat b ts hts =>
      have := htasks rfl hts
      simp only [rank, Act.control, if_true]
      omega
  | handled sig hsig => exact le_rfl
  | killed sig hsig => exact le_rfl

theorem rank_le (p : Process τ φ) : p.rank ≤ 15 := by
  have htasks := p.tasks.rank_le
  have hphase : phaseRank p.nat.phase ≤ 2 := by cases p.nat.phase <;> simp [phaseRank]
  simp only [rank]
  omega

/-- A process that is being stopped is over, or has a step to take. -/
theorem exists_control_step (hp : Stopping p) (hgone : p.gone = false) :
    ∃ a : Act, a.control = true ∧ ∃ q, step nft cfg p a = some q := by
  have hstage := hp.stage
  simp only [Stage] at hstage
  split at hstage
  · rename_i rules state hphase
    have hnext : (∀ k, p.tasks.main ≠ .joining k) →
        (∃ ts, Userspace.mainStep p.tasks .next = some ts) →
        ∃ a : Act, a.control = true ∧ ∃ q, step nft cfg p a = some q := by
      rintro hjoin ⟨ts, hts⟩
      have htasks : Userspace.step p.tasks (.main .next) = some ts := by
        simp only [Userspace.step, if_neg hstage.2, hts]
      refine ⟨.main, rfl, { p with tasks := ts }, ?_⟩
      simp only [step, hgone, Bool.false_eq_true, if_false, hphase]
      simp [tasksStep, htasks]
    cases hmain : p.tasks.main with
    | launching k => exact hnext (by simp [hmain]) (by simp [Userspace.mainStep, hmain])
    | installed => exact hnext (by simp [hmain]) (by simp [Userspace.mainStep, hmain])
    | waiting arm =>
        have hready := hp.tasks.1.main
        rw [hmain] at hready
        obtain ⟨r, hr⟩ := Arm.exists_poll hready hp.tasks.2
        refine hnext (by simp [hmain]) ?_
        simp only [Userspace.Main.arm] at hr
        simp [Userspace.mainStep, hmain, hr]
    | joining k =>
        have hjoin := hp.tasks.1.stage
        simp only [Userspace.Stage, hmain] at hjoin
        obtain rfl : k = 0 := Nat.le_zero.mp hjoin.2.1
        refine ⟨.cleanup .none, rfl, ?_⟩
        simp [step, hgone, hphase, hmain, natStep, NatRun.step]
    | exited => exact absurd hmain hstage.2
  · rename_i state code hphase
    obtain ⟨-, rfl, hmain⟩ := hstage
    refine ⟨.ret .none, rfl, ?_⟩
    simp [step, hgone, hphase, natStep, NatRun.step, tasksStep, Userspace.step, Userspace.mainStep,
      hmain]
  · rename_i state hphase
    refine ⟨.unwound .none, rfl, ?_⟩
    simp [step, hgone, hphase, natStep, NatRun.step]
  · rename_i code hphase
    simp [gone, hphase] at hgone
  · rename_i hphase
    simp [gone, hphase] at hgone
  · exact absurd hstage.2 hp.tasks_ne

/-- What the rest of a run is like once the shutdown is under way: the steps `as` led to `p`,
the last of them, `bs`, since the signal. -/
structure Stops (k₀ : Kernel τ φ) (nft : Nft τ φ) (cfg : Config) (as bs : List Act)
    (p : Process τ φ) : Prop where
  bounded : bs.countP Act.control ≤ 15
  /-- Until the process is over, one of its tasks can move. -/
  progress : p.gone = false → ∃ a : Act, a.control = true ∧ ∃ q, step nft cfg p a = some q
  /-- No further signal kills it. -/
  survives : p.killed = false
  /-- At the end the host is what it was, but for tables of an earlier process, and for what
  a call that failed has not given back. -/
  restored : ∀ code, p.nat.phase = .ended code →
    (∀ f, (∀ a ∈ as, a.failsDelete f = false) → p.nat.kernel.gust f = none) ∧
      ((∀ a ∈ as, a.failsRestore = false) → p.nat.kernel.ipForward = k₀.ipForward) ∧
      (nft.Confined → p.nat.kernel.foreign = k₀.foreign) ∧ (.panic ∉ as → code = some 0)

/-- What the one `trigger()` of the signal task decides. It was made in `p` and led to `q`, and
the steps up to `q` were `as`. -/
structure Decides (k₀ : Kernel τ φ) (nft : Nft τ φ) (cfg : Config) (as : List Act)
    (p q : Process τ φ) : Prop where
  /-- The main task or the heartbeat listens: the process ends and gives everything back. -/
  heard : Userspace.Listening p.tasks → ∀ bs r, (machine nft cfg k₀).run q bs = some r →
    Stops k₀ nft cfg (as ++ bs) bs r
  /-- Nobody does: short of a panic the rules stay, and no signal ends the process. -/
  lost : ¬ Userspace.Listening p.tasks → ∀ bs r, (machine nft cfg k₀).run q bs = some r →
    r.killed = false ∧ (.panic ∉ as ++ bs → ∃ rules state, r.nat.phase = .active rules state ∧
      ∀ f, (∀ a ∈ as ++ bs, a.failsDelete f = false) →
        r.nat.kernel.gust f = nft.describe (buildRuleset rules) f)
  /-- The main task listens from its first poll of `cancelled()` on. -/
  main : ∀ c, p.tasks.main = .waiting (some c) → Userspace.Listening p.tasks

/-- A process fails to delete what its `run` fails to delete. -/
theorem deletes_events {as : List Act} {f : Family} (has : ∀ a ∈ as, a.failsDelete f = false) :
    NatRun.Deletes (as.filterMap Act.event) f := by
  intro e he
  obtain ⟨a, ha, hevent⟩ := List.mem_filterMap.mp he
  simpa [Act.failsDelete, hevent] using has a ha

theorem restores_events {as : List Act} (has : ∀ a ∈ as, a.failsRestore = false) :
    NatRun.Restores (as.filterMap Act.event) := by
  intro e he
  obtain ⟨a, ha, hevent⟩ := List.mem_filterMap.mp he
  simpa [Act.failsRestore, hevent] using has a ha

/-- At the end of a process that was being stopped, nothing is left of it. -/
theorem restored_of_ended {as : List Act}
    (h : (machine nft cfg k₀).run (machine nft cfg k₀).init as = some p)
    (hp : p.tasks ≠ (Userspace.machine noListeners).init) {code : Option ℕ}
    (hphase : p.nat.phase = .ended code) :
    (∀ f, (∀ a ∈ as, a.failsDelete f = false) → p.nat.kernel.gust f = none) ∧
      ((∀ a ∈ as, a.failsRestore = false) → p.nat.kernel.ipForward = k₀.ipForward) ∧
      (nft.Confined → p.nat.kernel.foreign = k₀.foreign) ∧ (.panic ∉ as → code = some 0) := by
  obtain ⟨-, hforeign, hinv⟩ := NatRun.inv_run (nat_run h)
  simp only [NatRun.PhaseInv, hphase] at hinv
  have hstage := stage_run h
  simp only [Stage, hphase] at hstage
  have hinstalled : p.nat.installed = true ∧ (.panic ∉ as → code = some 0) := by
    cases code with
    | none => exact ⟨hstage.1, fun hnot => absurd hstage.2 hnot⟩
    | some code =>
        obtain ⟨hinstalled, rfl, -⟩ := hstage.resolve_right fun h => hp h.2
        exact ⟨hinstalled, fun _ => rfl⟩
  exact ⟨fun f has => hinv.2 hinstalled.1 f (deletes_events has),
    fun has => hinv.1 (restores_events has), hforeign, hinstalled.2⟩

/-- A process that was not told to stop stays active. -/
theorem active_of_unheard {as : List Act}
    (h : (machine nft cfg k₀).run (machine nft cfg k₀).init as = some p)
    (hv : p.tasks.watch.value = false) (hmain : p.tasks.main ≠ .exited)
    (hp : p.tasks ≠ (Userspace.machine noListeners).init) (hnot : Act.panic ∉ as) :
    ∃ rules state, p.nat.phase = .active rules state ∧
      ∀ f, (∀ a ∈ as, a.failsDelete f = false) →
        p.nat.kernel.gust f = nft.describe (buildRuleset rules) f := by
  obtain ⟨-, -, hinv⟩ := NatRun.inv_run (nat_run h)
  have htasks := (Userspace.inv (tasks_reachable ⟨as, h⟩)).stage
  have hstage := stage_run h
  simp only [Stage] at hstage
  split at hstage
  · rename_i rules state hphase
    simp only [NatRun.PhaseInv, hphase] at hinv
    exact ⟨rules, state, hphase, fun f has => hinv.2.2.1 f (deletes_events has)⟩
  · simp only [Userspace.Stage, hstage.2.2, hv] at htasks
    cases htasks.1
  · exact absurd hstage.2 hnot
  · obtain ⟨-, -, hexited⟩ | ⟨-, hinit⟩ := hstage
    · exact absurd hexited hmain
    · exact absurd hinit hp
  · exact absurd hstage.2 hnot
  · exact absurd hstage.2 hp

/-- When nothing fails, the rules get installed before any task is spawned. -/
theorem run_activate_process {lookup : Lookup} {rules : List NatRule} {restoreFwd : Option Bool}
    {k : Kernel τ φ} (hrules : buildRules lookup cfg = .ok rules)
    (hensure : ensureIpForward none cfg.setIpForward k₀ = (.ok restoreFwd, k)) :
    (machine nft cfg k₀).run (machine nft cfg k₀).init
      [.run (.preflight true), .run (.resolve lookup), .run (.ensureIpForward none),
        .run (.preclean fun _ => false), .run (.install true false)] =
      some ⟨⟨.active rules ⟨true, restoreFwd⟩, apply nft (buildRuleset rules) (deleteTables k),
        true⟩, (Userspace.machine noListeners).init, false, false, false, false⟩ := by
  simp [Machine.run, machine, step, gone, early, natStep, NatRun.step, hrules, NatRun.forwardPhase,
    hensure, NatRun.installPhase, tryDeletes_eq_deleteTables]

end Process
end Gust.Nat
