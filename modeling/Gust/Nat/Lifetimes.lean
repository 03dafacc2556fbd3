import Gust.Nat.Linux

/-!
# NAT mode from one process to the next

The tables and the sysctl outlive the process that set them. Here a host sees any number of
NAT processes one after the other. Each may be killed at any moment, between two calls of
one cleanup as well, and then nothing of it runs any more, no guard and no handler; and
`gust --nat-cleanup` may be called at any time, any number of times, also next to a process
that is active. It makes one `nft` call after the other, and the process goes on in between.
A process's own two deletions are one step unless it is killed: only other deletions could come
between them, and deletions commute.

A call that deletes a table or puts the sysctl back may fail, and then the program goes on.
What is left behind is kept in history variables: `wiped` says that a table of the running
process was removed under it, `uncleaned` that a stale one was not removed before it,
`leaked` that some process was killed, or failed to write, while it owed the host its
sysctl. `Lives` collects what holds after any such history.
-/

namespace Gust.Nat

open Gust.Lib

variable {τ φ : Type}

/-- Where a `gust --nat-cleanup` is. -/
inductive CleanupMain
  | ensuring
  | deleting (f : Family)
  | exited (code : ℕ)
  deriving DecidableEq, Repr

namespace CleanupMain

/-- The next `nft` call of `cleanup_main`, which succeeds or fails. -/
def step (ok : Bool) (k : Kernel τ φ) : CleanupMain → Option (Kernel τ φ × CleanupMain)
  | ensuring => some (k, if ok then deleting .ip else exited 1)
  | deleting .ip => some (tryDelete (!ok) .ip k, deleting .ip6)
  | deleting .ip6 => some (tryDelete (!ok) .ip6 k, exited 0)
  | exited _ => none

/-- The call removes the table of the family. -/
def removes (ok : Bool) (g : Family) : CleanupMain → Bool
  | deleting f => ok && f == g
  | _ => false

theorem step_spec {c c' : CleanupMain} {ok : Bool} {k k' : Kernel τ φ}
    (h : c.step ok k = some (k', c')) :
    k'.ipForward = k.ipForward ∧ k'.foreign = k.foreign ∧
      ∀ g, k'.gust g = if c.removes ok g then none else k.gust g := by
  cases c with
  | ensuring =>
      cases h
      exact ⟨rfl, rfl, fun _ => rfl⟩
  | deleting f =>
      obtain rfl : k' = tryDelete (!ok) f k := by
        cases f <;> cases h <;> rfl
      refine ⟨by simp, by simp, fun g => ?_⟩
      rw [gust_tryDelete]
      by_cases hg : g = f
      · subst hg
        cases ok <;> simp [removes]
      · cases ok <;> simp [removes, hg, Ne.symm hg]
  | exited code => cases h

end CleanupMain

/-- A running NAT process: its configuration, where its `run` is, and whether `apply` has
succeeded. -/
structure Proc where
  cfg : Config
  phase : Phase
  installed : Bool

structure HostState (τ φ : Type) where
  kernel : Kernel τ φ
  proc : Option Proc
  /-- Every `--nat-cleanup` so far. -/
  cleanups : List CleanupMain
  /-- `--nat-cleanup` has removed this table of the running process. -/
  wiped : Family → Bool
  /-- The running process has not managed to remove a stale table. -/
  uncleaned : Family → Bool
  /-- A process did not restore the sysctl it had changed. -/
  leaked : Bool

/-- Where in a step a kill hits. -/
inductive Cut
  | before
  /-- After `delete_table("ip")`. -/
  | firstTable (failed : Bool)
  /-- After both tables, before the sysctl. -/
  | tables (failed : Family → Bool)

/-- The sysctl value the guard still has to write back. -/
def NatState.owed (state : NatState) : Option Bool :=
  if state.armed then state.restoreFwd else none

namespace Phase

/-- The sysctl value the process still has to write back. -/
def owed : Phase → Option Bool
  | precleaning _ restoreFwd => restoreFwd
  | installing _ restoreFwd => restoreFwd
  | active _ state => state.owed
  | leaving state _ => state.owed
  | _ => none

/-- The guard is armed, so a cleanup is ahead. -/
def armed : Phase → Bool
  | active _ state => state.armed
  | leaving state _ => state.armed
  | _ => false

/-- The next step deletes the tables. -/
def deletes : Phase → Bool
  | precleaning _ _ => true
  | phase => phase.armed

end Phase

namespace Event

/-- The step was to put back a changed sysctl, and failed to. -/
def leaks (e : Event) (phase : Phase) : Bool := e.failsRestore && phase.owed == some false

/-- Which stale tables are still there after the step. -/
def uncleaned (old : Family → Bool) : Event → Family → Bool
  | preclean failed => failed
  | _ => old

end Event

/-- What a kill leaves of the kernel. -/
def cut (phase : Phase) (k : Kernel τ φ) : Cut → Option (Kernel τ φ)
  | .before => some k
  | .firstTable failed => if phase.deletes then some (tryDelete failed .ip k) else none
  | .tables failed => if phase.deletes then some (tryDeletes failed k) else none

namespace HostState

inductive Act
  | start (cfg : Config)
  | event (e : Event)
  /-- The process has ended and is gone. -/
  | exit
  | kill (c : Cut)
  | natCleanup
  /-- The next call of one of the `--nat-cleanup`. -/
  | cleanup (i : ℕ) (ok : Bool)

def step (nft : Nft τ φ) (h : HostState τ φ) : Act → Option (HostState τ φ)
  | .start cfg =>
      match h.proc with
      | none => some { h with proc := some ⟨cfg, .preflight, false⟩ }
      | some _ => none
  | .event e =>
      match h.proc with
      | none => none
      | some p =>
          (NatRun.step nft p.cfg ⟨p.phase, h.kernel, p.installed⟩ e).map fun s =>
            { h with
              kernel := s.kernel
              proc := some ⟨p.cfg, s.phase, s.installed⟩
              wiped := fun f => h.wiped f && p.phase.armed
              uncleaned := e.uncleaned h.uncleaned
              leaked := h.leaked || e.leaks p.phase }
  | .exit =>
      match h.proc with
      | some ⟨_, .ended _, _⟩ => some { h with proc := none }
      | _ => none
  | .kill c =>
      match h.proc with
      | none => none
      | some p =>
          (cut p.phase h.kernel c).map fun k =>
            { h with
              kernel := k
              proc := none
              leaked := h.leaked || p.phase.owed == some false }
  | .natCleanup => some { h with cleanups := h.cleanups ++ [.ensuring] }
  | .cleanup i ok =>
      match h.cleanups[i]? with
      | none => none
      | some c =>
          (c.step ok h.kernel).map fun (k, c') =>
            { h with
              kernel := k
              cleanups := h.cleanups.set i c'
              wiped := fun f => h.wiped f || c.removes ok f
              uncleaned := fun f => h.uncleaned f && !c.removes ok f }

/-- A host on which no NAT process has run. -/
def machine (nft : Nft τ φ) (k : Kernel τ φ) : Machine (HostState τ φ) Act where
  init := ⟨k, none, [], fun _ => false, fun _ => false, false⟩
  step := step nft

/-- Everything a step can do. -/
inductive Step (nft : Nft τ φ) (h : HostState τ φ) : Act → HostState τ φ → Prop
  | start (cfg : Config) (hproc : h.proc = none) :
      Step nft h (.start cfg) { h with proc := some ⟨cfg, .preflight, false⟩ }
  | event {p : Proc} {s : NatRun τ φ} (e : Event) (hproc : h.proc = some p)
      (hs : NatRun.step nft p.cfg ⟨p.phase, h.kernel, p.installed⟩ e = some s) :
      Step nft h (.event e)
        { h with
          kernel := s.kernel
          proc := some ⟨p.cfg, s.phase, s.installed⟩
          wiped := fun f => h.wiped f && p.phase.armed
          uncleaned := e.uncleaned h.uncleaned
          leaked := h.leaked || e.leaks p.phase }
  | exit {cfg : Config} {code : Option ℕ} {installed : Bool}
      (hproc : h.proc = some ⟨cfg, .ended code, installed⟩) :
      Step nft h .exit { h with proc := none }
  | kill {p : Proc} {k : Kernel τ φ} (c : Cut) (hproc : h.proc = some p)
      (hk : cut p.phase h.kernel c = some k) :
      Step nft h (.kill c)
        { h with kernel := k, proc := none, leaked := h.leaked || p.phase.owed == some false }
  | natCleanup : Step nft h .natCleanup { h with cleanups := h.cleanups ++ [.ensuring] }
  | cleanup {c c' : CleanupMain} {k : Kernel τ φ} (i : ℕ) (ok : Bool)
      (hk : c.step ok h.kernel = some (k, c')) :
      Step nft h (.cleanup i ok)
        { h with
          kernel := k
          cleanups := h.cleanups.set i c'
          wiped := fun f => h.wiped f || c.removes ok f
          uncleaned := fun f => h.uncleaned f && !c.removes ok f }

variable {nft : Nft τ φ} {k₀ : Kernel τ φ} {h h' : HostState τ φ}

theorem step_cases {a : Act} (hstep : step nft h a = some h') : Step nft h a h' := by
  cases a with
  | start cfg =>
      simp only [step] at hstep
      split at hstep
      · rename_i hproc
        cases hstep
        exact .start cfg hproc
      · cases hstep
  | event e =>
      simp only [step] at hstep
      split at hstep
      · cases hstep
      · rename_i p hproc
        obtain ⟨s, hs, rfl⟩ := Option.map_eq_some_iff.mp hstep
        exact .event e hproc hs
  | exit =>
      simp only [step] at hstep
      split at hstep
      · rename_i cfg code installed hproc
        cases hstep
        exact .exit hproc
      · cases hstep
  | kill c =>
      simp only [step] at hstep
      split at hstep
      · cases hstep
      · rename_i p hproc
        obtain ⟨k, hk, rfl⟩ := Option.map_eq_some_iff.mp hstep
        exact .kill c hproc hk
  | natCleanup =>
      cases hstep
      exact .natCleanup
  | cleanup i ok =>
      simp only [step] at hstep
      split at hstep
      · cases hstep
      · rename_i c hc
        obtain ⟨⟨k, c'⟩, hk, rfl⟩ := Option.map_eq_some_iff.mp hstep
        exact .cleanup i ok hk

/-- What the running process still owes. -/
def owed (h : HostState τ φ) : Option Bool := h.proc.bind fun p => p.phase.owed

/-- What the tables are, as far as the phase of the process determines it. -/
def Tables (nft : Nft τ φ) (cfg : Config) (wiped uncleaned : Family → Bool) (k : Kernel τ φ) :
    Phase → Prop
  | .forwarding rules => ∃ lookup, buildRules lookup cfg = .ok rules
  | .precleaning rules _ => ∃ lookup, buildRules lookup cfg = .ok rules
  | .installing rules _ => (∃ lookup, buildRules lookup cfg = .ok rules) ∧
      ∀ f, uncleaned f = false → k.gust f = none
  | .active rules state => state.armed = true ∧ (∃ lookup, buildRules lookup cfg = .ok rules) ∧
      ∀ f, uncleaned f = false →
        k.gust f = if wiped f then none else nft.describe (buildRuleset rules) f
  | _ => True

structure Inv (nft : Nft τ φ) (k₀ : Kernel τ φ) (h : HostState τ φ) : Prop where
  foreign : nft.Confined → h.kernel.foreign = k₀.foreign
  /-- Paying back what is owed gives the value the host had, or 1 after a leak. -/
  forward : (restore h.owed h.kernel).ipForward = (k₀.ipForward || h.leaked)
  /-- Only a sysctl that was changed from 0 to 1 is owed. -/
  owed : ∀ v, h.owed = some v → v = false ∧ h.kernel.ipForward = true
  tables : ∀ p, h.proc = some p → Tables nft p.cfg h.wiped h.uncleaned h.kernel p.phase

theorem inv_init : Inv nft k₀ (machine nft k₀).init where
  foreign := fun _ => rfl
  forward := by simp [machine, HostState.owed, restore]
  owed := by simp [machine, HostState.owed]
  tables := by simp [machine]

theorem restore_congr {k k' : Kernel τ φ} (prev : Option Bool) (hk : k'.ipForward = k.ipForward) :
    (restore prev k').ipForward = (restore prev k).ipForward := by
  cases prev with
  | none => exact hk
  | some v => rfl

/-- A write that fails leaves the 1 that was written before. -/
theorem ipForward_tryRestore {prev : Option Bool} {k : Kernel τ φ}
    (hv : ∀ v, prev = some v → v = false ∧ k.ipForward = true) (failed : Bool) :
    (tryRestore failed prev k).ipForward =
      ((restore prev k).ipForward || (failed && prev == some false)) := by
  cases failed with
  | false => simp [tryRestore]
  | true =>
      cases prev with
      | none => simp [tryRestore, restore]
      | some v =>
          obtain ⟨rfl, hon⟩ := hv v rfl
          simp [tryRestore, hon]

/-- A guard that cleans up pays what it owes, unless it fails to. -/
theorem ipForward_cleanup {faults : Faults} {state : NatState} {k : Kernel τ φ}
    (hv : ∀ v, state.owed = some v → v = false ∧ k.ipForward = true) :
    (state.cleanup faults k).2.ipForward =
      ((restore state.owed k).ipForward || (faults.restore && state.owed == some false)) := by
  simp only [NatState.cleanup, NatState.owed] at hv ⊢
  split
  · rename_i harmed
    rw [if_pos harmed] at hv
    have hdeletes : ∀ v, state.restoreFwd = some v →
        v = false ∧ (tryDeletes faults.delete k).ipForward = true := by simpa using hv
    have hrestore := restore_congr state.restoreFwd (ipForward_tryDeletes faults.delete k)
    exact (ipForward_tryRestore hdeletes faults.restore).trans (by rw [hrestore])
  · simp [restore]

/-- After a cleanup a table is left if its deletion has failed, or if it was not armed. -/
theorem gust_cleanup (faults : Faults) (state : NatState) (k : Kernel τ φ) (f : Family) :
    (state.cleanup faults k).2.gust f =
      if state.armed && !faults.delete f then none else k.gust f := by
  simp only [NatState.cleanup]
  cases state.armed <;> cases hf : faults.delete f <;> simp [gust_tryDeletes, hf]

/-- What a step of `run` has to show for the host: `k` and `k'` are the kernel before and
after, `phase` and `phase'` where the process is. -/
structure Keeps (nft : Nft τ φ) (cfg : Config) (wiped uncleaned : Family → Bool) (leaks : Bool)
    (k : Kernel τ φ) (phase : Phase) (k' : Kernel τ φ) (phase' : Phase) : Prop where
  foreign : nft.Confined → k'.foreign = k.foreign
  forward : (restore phase'.owed k').ipForward = ((restore phase.owed k).ipForward || leaks)
  owed : ∀ v, phase'.owed = some v → v = false ∧ k'.ipForward = true
  tables : Tables nft cfg wiped uncleaned k' phase'

/-- A step that leaves the kernel and what is owed as they are. -/
theorem Keeps.goto {cfg : Config} {wiped uncleaned : Family → Bool} {k : Kernel τ φ}
    {phase phase' : Phase} (howed : phase'.owed = phase.owed)
    (hv : ∀ v, phase.owed = some v → v = false ∧ k.ipForward = true)
    (htables : Tables nft cfg wiped uncleaned k phase') :
    Keeps nft cfg wiped uncleaned false k phase k phase' where
  foreign := fun _ => rfl
  forward := by rw [howed, Bool.or_false]
  owed := by rwa [howed]
  tables := htables

theorem keeps_step {cfg : Config} {wiped uncleaned : Family → Bool} {s t : NatRun τ φ} {e : Event}
    (h : NatRun.step nft cfg s e = some t)
    (hv : ∀ v, s.phase.owed = some v → v = false ∧ s.kernel.ipForward = true)
    (htables : Tables nft cfg wiped uncleaned s.kernel s.phase) :
    Keeps nft cfg (fun f => wiped f && s.phase.armed) (e.uncleaned uncleaned) (e.leaks s.phase)
      s.kernel s.phase t.kernel t.phase := by
  cases NatRun.step_cases h with
  | preflight hphase => exact .goto (by rw [hphase]; rfl) hv trivial
  | preflightFailed hphase => exact .goto (by rw [hphase]; rfl) hv trivial
  | resolve hphase hrules => exact .goto (by rw [hphase]; rfl) hv ⟨_, hrules⟩
  | resolveFailed hphase => exact .goto (by rw [hphase]; rfl) hv trivial
  | @forward fault rules restoreFwd k hphase hensure =>
      rw [hphase] at htables ⊢
      obtain ⟨-, heq⟩ | ⟨hoff, -, heq⟩ | ⟨err, heq⟩ :=
        NatRun.ensureIpForward_cases fault cfg.setIpForward s.kernel
      · rw [heq] at hensure
        cases hensure
        exact ⟨fun _ => rfl, (Bool.or_false _).symm, by simp [Phase.owed], htables⟩
      · rw [heq] at hensure
        cases hensure
        refine ⟨fun _ => rfl, hoff.symm.trans (Bool.or_false _).symm, ?_, htables⟩
        simp [Phase.owed, writeIpForward]
      · rw [heq] at hensure
        cases hensure
  | forwardFailed hphase => exact .goto (by rw [hphase]; rfl) hv trivial
  | @preclean failed rules restoreFwd hphase =>
      rw [hphase] at htables hv ⊢
      refine ⟨fun _ => foreign_tryDeletes failed s.kernel, ?_, ?_, htables, fun f hok => ?_⟩
      · exact (restore_congr restoreFwd (by simp)).trans (Bool.or_false _).symm
      · intro v howed
        rw [ipForward_tryDeletes]
        exact hv v howed
      · have hcall : failed f = false := hok
        simp [gust_tryDeletes, hcall]
  | @install restoreFails rules restoreFwd hphase =>
      rw [hphase] at htables hv ⊢
      obtain ⟨⟨lookup, hrules⟩, hnone⟩ := htables
      refine ⟨fun hnft => NatRun.touch_buildRuleset hnft hrules _, ?_, hv, rfl, ⟨lookup, hrules⟩,
        fun f hok => ?_⟩
      · have hwrite :
            (Event.install true restoreFails).leaks (.installing rules restoreFwd) = false := rfl
        rw [hwrite, Bool.or_false]
        exact restore_congr restoreFwd rfl
      · rw [gust_apply_of_none (hnone f hok)]
        simp [Phase.armed]
  | @installFailed restoreFails rules restoreFwd hphase =>
      rw [hphase] at hv ⊢
      exact ⟨fun _ => NatRun.foreign_tryRestore _ _ _, ipForward_tryRestore hv restoreFails,
        by simp [Phase.owed], trivial⟩
  | @list rules state hphase =>
      refine .goto rfl hv ?_
      rw [hphase] at htables ⊢
      simp only [Phase.armed, htables.1, Bool.and_true]
      exact htables
  | @shutdown faults rules state hphase =>
      rw [hphase] at hv ⊢
      have hpaid : (state.cleanup faults s.kernel).1.owed = none := by
        simp [NatState.owed, NatRun.armed_cleanup]
      refine ⟨fun _ => NatRun.foreign_cleanup faults state s.kernel, ?_, ?_, trivial⟩
      · simp only [Phase.owed, hpaid]
        exact ipForward_cleanup hv
      · simp [Phase.owed, hpaid]
  | @unwind rules state hphase =>
      rw [hphase] at hv ⊢
      exact .goto rfl hv trivial
  | @drop faults state code hphase =>
      rw [hphase] at hv ⊢
      exact ⟨fun _ => NatRun.foreign_cleanup faults state s.kernel, ipForward_cleanup hv,
        by simp [Phase.owed], trivial⟩

/-- A kill cuts a deletion short, and changes nothing else. -/
theorem cut_spec {phase : Phase} {k k' : Kernel τ φ} {c : Cut} (h : cut phase k c = some k') :
    k'.foreign = k.foreign ∧ k'.ipForward = k.ipForward := by
  cases c with
  | before =>
      cases h
      exact ⟨rfl, rfl⟩
  | firstTable failed =>
      simp only [cut, Option.ite_none_right_eq_some, Option.some.injEq] at h
      obtain ⟨-, rfl⟩ := h
      simp
  | tables failed =>
      simp only [cut, Option.ite_none_right_eq_some, Option.some.injEq] at h
      obtain ⟨-, rfl⟩ := h
      simp

theorem Inv.kill (hh : Inv nft k₀ h) {p : Proc} (hp : h.proc = some p) {c : Cut} {k : Kernel τ φ}
    (hcut : cut p.phase h.kernel c = some k) :
    Inv nft k₀
      { h with kernel := k, proc := none, leaked := h.leaked || p.phase.owed == some false } := by
  obtain ⟨hforeign, hfwd⟩ := cut_spec hcut
  have howed : h.owed = p.phase.owed := by simp [HostState.owed, hp]
  refine ⟨fun hnft => hforeign.trans (hh.foreign hnft), ?_, by simp [HostState.owed], by simp⟩
  have hforward := hh.forward
  simp only [howed] at hforward
  simp only [HostState.owed, Option.bind_none, restore, hfwd]
  cases hv : p.phase.owed with
  | none =>
      rw [hv] at hforward
      simpa [restore] using hforward
  | some v =>
      -- the debt is now a leak
      obtain ⟨rfl, hon⟩ := hh.owed v (howed.trans hv)
      simp [hon]

theorem Inv.cleanup (hh : Inv nft k₀ h) {c c' : CleanupMain} {ok : Bool} {k : Kernel τ φ} (i : ℕ)
    (hc : c.step ok h.kernel = some (k, c')) :
    Inv nft k₀
      { h with
        kernel := k
        cleanups := h.cleanups.set i c'
        wiped := fun f => h.wiped f || c.removes ok f
        uncleaned := fun f => h.uncleaned f && !c.removes ok f } := by
  obtain ⟨hfwd, hforeign, hgust⟩ := CleanupMain.step_spec hc
  refine ⟨fun hnft => hforeign.trans (hh.foreign hnft),
    (restore_congr h.owed hfwd).trans hh.forward,
    fun v hv => ⟨(hh.owed v hv).1, hfwd.trans (hh.owed v hv).2⟩, fun p hp => ?_⟩
  have htables := hh.tables p hp
  cases hphase : p.phase with
  | installing rules restoreFwd =>
      rw [hphase] at htables
      refine ⟨htables.1, fun f hok => ?_⟩
      cases hf : c.removes ok f with
      | true => simp [hgust, hf]
      | false => simp [hgust, hf, htables.2 f (by simpa [hf] using hok)]
  | active rules state =>
      rw [hphase] at htables
      refine ⟨htables.1, htables.2.1, fun f hok => ?_⟩
      cases hf : c.removes ok f with
      | true => simp [hgust, hf]
      | false => simp [hgust, hf, htables.2.2 f (by simpa [hf] using hok)]
  | forwarding rules => rwa [hphase] at htables
  | precleaning rules restoreFwd => rwa [hphase] at htables
  | leaving state code => trivial
  | preflight => trivial
  | resolving => trivial
  | ended code => trivial

theorem inv_step (h : HostState τ φ) (a : Act) (h' : HostState τ φ) (hh : Inv nft k₀ h)
    (hstep : step nft h a = some h') : Inv nft k₀ h' := by
  cases step_cases hstep with
  | start cfg hproc =>
      have howed : h.owed = none := by simp [HostState.owed, hproc]
      refine ⟨hh.foreign, ?_, by simp [HostState.owed, Phase.owed], ?_⟩
      · have hforward := hh.forward
        rw [howed] at hforward
        exact hforward
      · intro p hp
        cases hp
        trivial
  | @event p s e hproc hs =>
      have howed : h.owed = p.phase.owed := by simp [HostState.owed, hproc]
      have hkeeps := keeps_step hs (by rw [← howed]; exact hh.owed) (hh.tables p hproc)
      refine ⟨fun hnft => (hkeeps.foreign hnft).trans (hh.foreign hnft), ?_, hkeeps.owed, ?_⟩
      · have hforward := hh.forward
        rw [howed] at hforward
        rw [← Bool.or_assoc, ← hforward]
        exact hkeeps.forward
      · intro p' hp'
        cases hp'
        exact hkeeps.tables
  | exit hproc =>
      have howed : h.owed = none := by simp [HostState.owed, hproc, Phase.owed]
      refine ⟨hh.foreign, ?_, by simp [HostState.owed], by simp⟩
      have hforward := hh.forward
      rw [howed] at hforward
      exact hforward
  | kill c hproc hk => exact hh.kill hproc hk
  | natCleanup => exact ⟨hh.foreign, hh.forward, hh.owed, hh.tables⟩
  | cleanup i ok hk => exact hh.cleanup i hk

/-! ## Histories in which nothing is left behind -/

/-- The process is killed, or fails to delete the table of the family. -/
def Act.strands (f : Family) : Act → Bool
  | .kill _ => true
  | .event e => e.failsDelete f
  | _ => false

/-- The process is killed, or fails to put back the sysctl. -/
def Act.leaks : Act → Bool
  | .kill _ => true
  | .event e => e.failsRestore
  | _ => false

/-- A guard is armed, so the tables in the kernel are those of the running process. -/
def armed (h : HostState τ φ) : Bool := h.proc.any fun p => p.phase.armed

/-- Unless a guard is armed, there is no table but the one the host had at first. -/
def Unchanged (k₀ : Kernel τ φ) (f : Family) (h : HostState τ φ) : Prop :=
  h.armed = false → h.kernel.gust f = none ∨ h.kernel.gust f = k₀.gust f

theorem unchanged_event {cfg : Config} {wiped uncleaned : Family → Bool} {s t : NatRun τ φ}
    {e : Event} {f : Family} (h : NatRun.step nft cfg s e = some t)
    (htables : Tables nft cfg wiped uncleaned s.kernel s.phase) (hok : e.failsDelete f = false)
    (hs : s.phase.armed = false → s.kernel.gust f = none ∨ s.kernel.gust f = k₀.gust f)
    (harmed : t.phase.armed = false) : t.kernel.gust f = none ∨ t.kernel.gust f = k₀.gust f := by
  cases NatRun.step_cases h with
  | preflight hphase => exact hs (by rw [hphase]; rfl)
  | preflightFailed hphase => exact hs (by rw [hphase]; rfl)
  | resolve hphase hrules => exact hs (by rw [hphase]; rfl)
  | resolveFailed hphase => exact hs (by rw [hphase]; rfl)
  | @forward fault rules restoreFwd k hphase hensure =>
      have hk : k.gust = s.kernel.gust := by
        obtain ⟨-, heq⟩ | ⟨-, -, heq⟩ | ⟨err, heq⟩ :=
          NatRun.ensureIpForward_cases fault cfg.setIpForward s.kernel
        · rw [heq] at hensure
          cases hensure
          rfl
        · rw [heq] at hensure
          cases hensure
          rfl
        · rw [heq] at hensure
          cases hensure
      simp only [hk]
      exact hs (by rw [hphase]; rfl)
  | forwardFailed hphase => exact hs (by rw [hphase]; rfl)
  | @preclean failed rules restoreFwd hphase =>
      have hcall : failed f = false := hok
      exact .inl (by simp [gust_tryDeletes, hcall])
  | install hphase => cases harmed
  | installFailed hphase =>
      simp only [NatRun.gust_tryRestore]
      exact hs (by rw [hphase]; rfl)
  | list hphase => exact hs harmed
  | @shutdown faults rules state hphase =>
      rw [hphase] at htables
      have hcall : faults.delete f = false := hok
      exact .inl (by simp [gust_cleanup, htables.1, hcall])
  | unwind hphase =>
      rw [hphase] at htables
      simp only [Phase.armed] at harmed
      rw [htables.1] at harmed
      cases harmed
  | @drop faults state code hphase =>
      have hcall : faults.delete f = false := hok
      rw [hphase] at hs
      cases hstate : state.armed with
      | true => exact .inl (by simp [gust_cleanup, hstate, hcall])
      | false =>
          simp only [gust_cleanup, hstate, Bool.false_and, Bool.false_eq_true, if_false]
          exact hs hstate

theorem unchanged_step {a : Act} {f : Family} (hh : Inv nft k₀ h) (hu : Unchanged k₀ f h)
    (hstep : step nft h a = some h') (ha : a.strands f = false) : Unchanged k₀ f h' := by
  intro harmed
  cases step_cases hstep with
  | start cfg hproc => exact hu (by simp [HostState.armed, hproc])
  | event e hproc hs =>
      exact unchanged_event hs (hh.tables _ hproc) ha
        (fun hold => hu (by simpa [HostState.armed, hproc] using hold))
        (by simpa [HostState.armed] using harmed)
  | exit hproc => exact hu (by simp [HostState.armed, hproc, Phase.armed])
  | kill c => cases ha
  | natCleanup => exact hu harmed
  | cleanup i ok hk =>
      obtain ⟨-, -, hgust⟩ := CleanupMain.step_spec hk
      dsimp only
      rw [hgust]
      split
      · exact .inl rfl
      · exact hu harmed

/-- Only a step that is counted in `Act.leaks` leaks. -/
theorem leaked_step {a : Act} (hstep : step nft h a = some h') (ha : a.leaks = false) :
    h'.leaked = h.leaked := by
  cases step_cases hstep with
  | event e hproc hs =>
      have hok : e.failsRestore = false := ha
      simp [Event.leaks, hok]
  | kill c => cases ha
  | start | exit | natCleanup | cleanup => rfl

theorem inv_run {as : List Act} (hrun : (machine nft k₀).run (machine nft k₀).init as = some h) :
    Inv nft k₀ h :=
  Machine.run_invariant inv_step hrun inv_init

theorem unchanged_run {as : List Act} {f : Family}
    (hrun : (machine nft k₀).run (machine nft k₀).init as = some h)
    (has : ∀ a ∈ as, a.strands f = false) : Unchanged k₀ f h := by
  suffices hinv : Inv nft k₀ h ∧ ((∀ a ∈ as, a.strands f = false) → Unchanged k₀ f h) from
    hinv.2 has
  refine Machine.run_trace_invariant
    (I := fun as h => Inv nft k₀ h ∧ ((∀ a ∈ as, Act.strands f a = false) → Unchanged k₀ f h))
    ⟨inv_init, fun _ _ => .inr rfl⟩ ?_ hrun
  intro as h a h' hh hstep
  refine ⟨inv_step h a h' hh.1 hstep, fun has => ?_⟩
  rw [List.forall_mem_append, List.forall_mem_singleton] at has
  exact unchanged_step hh.1 (hh.2 has.1) hstep has.2

theorem leaked_run {as : List Act}
    (hrun : (machine nft k₀).run (machine nft k₀).init as = some h)
    (has : ∀ a ∈ as, a.leaks = false) : h.leaked = false := by
  refine Machine.run_trace_invariant
    (I := fun as h => (∀ a ∈ as, Act.leaks a = false) → h.leaked = false) (fun _ => rfl) ?_ hrun has
  intro as h a h' hh hstep has
  rw [List.forall_mem_append, List.forall_mem_singleton] at has
  exact (leaked_step hstep has.2).trans (hh has.1)

/-- What holds after any history `as` of a host that was in the state `k₀` at first. -/
structure Lives (nft : Nft τ φ) (k₀ : Kernel τ φ) (as : List Act) (h : HostState τ φ) : Prop where
  /-- Foreign tables stay as they are, if `nft` leaves them alone where only `gust` is named. -/
  foreign : nft.Confined → h.kernel.foreign = k₀.foreign
  /-- An active process has exactly its own table in each family, whatever was left behind
  before, if it could remove that. Once it is removed under the process, there is none. -/
  active : ∀ p rules state, h.proc = some p → p.phase = .active rules state →
    (∃ lookup, buildRules lookup p.cfg = .ok rules) ∧
      ∀ f, h.uncleaned f = false →
        h.kernel.gust f = if h.wiped f then none else nft.describe (buildRuleset rules) f
  /-- Between two processes the sysctl is what it was, or 1 for good after a leak. -/
  forward : h.proc = none → h.kernel.ipForward = (k₀.ipForward || h.leaked)
  /-- Forwarding that was on is never turned off, not even for a moment. -/
  kept : k₀.ipForward = true → h.kernel.ipForward = true
  /-- The sysctl leaks only by a kill or by a write that fails. -/
  leaked : (∀ a ∈ as, a.leaks = false) → h.leaked = false
  /-- A table is left behind only by a kill or by a deletion of it that fails. -/
  clean : ∀ f, (∀ a ∈ as, a.strands f = false) → h.proc = none →
    h.kernel.gust f = none ∨ h.kernel.gust f = k₀.gust f

/-- When nothing fails, a process that is started becomes active. -/
theorem run_start (nft : Nft τ φ) (k₀ : Kernel τ φ) {cfg : Config} {lookup : Lookup}
    {rules : List NatRule} {restoreFwd : Option Bool} {k : Kernel τ φ} (hproc : h.proc = none)
    (hrules : buildRules lookup cfg = .ok rules)
    (hensure : ensureIpForward none cfg.setIpForward h.kernel = (.ok restoreFwd, k)) :
    (machine nft k₀).run h [.start cfg, .event (.preflight true), .event (.resolve lookup),
      .event (.ensureIpForward none), .event (.preclean fun _ => false),
      .event (.install true false)] =
      some ⟨apply nft (buildRuleset rules) (deleteTables k),
        some ⟨cfg, .active rules ⟨true, restoreFwd⟩, true⟩, h.cleanups, fun _ => false,
        fun _ => false, h.leaked⟩ := by
  simp [Machine.run, machine, step, hproc, NatRun.step, hrules, NatRun.forwardPhase, hensure,
    NatRun.installPhase, Phase.armed, Event.leaks, Event.failsRestore, Event.uncleaned,
    tryDeletes_eq_deleteTables]

/-- A host without tables and with forwarding off. -/
def blankHost : Kernel Str Unit := ⟨false, false, fun _ => none, ()⟩

end HostState
end Gust.Nat
