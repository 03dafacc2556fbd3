import Gust.Nat.Decode
import Gust.Lib.Machine

/-!
# NAT mode from start to exit

`run` acquires two things, the sysctl and the tables, and has to give back both on every
way out. It is a machine here: a label fixes how the step it names turned out, whether
that is a failed check, an answer of the resolver, a sysctl that cannot be read or written,
a refused ruleset, a shutdown or an unwinding panic. A deletion or a restore that fails is
reported and skipped, so a label also says which of the calls it makes have failed.

`nat_restores_host` is the result: after every run the tables are exactly the described
ones while NAT is active, and when `run` has ended they are gone and the sysctl is what it
was, each of this as far as the calls that give it back have not failed.
-/

namespace Gust.Nat

open Gust.Lib

variable {τ φ : Type}

/-- A text of `gust` tables, and of nothing else, leaves foreign tables alone. -/
def Nft.Confined (nft : Nft τ φ) : Prop :=
  ∀ text tables, decode text = some tables → ∀ x, nft.touch text x = x

def ipv4Fwd : Str := "/proc/sys/net/ipv4/ip_forward".toList

def ipForwardOff : Str :=
  ("net.ipv4.ip_forward is 0, but NAT forwarding to a remote backend needs it set to 1.\n  " ++
    "Persistent fix:  echo 'net.ipv4.ip_forward=1' | sudo tee /etc/sysctl.d/99-gust.conf " ++
    "&& sudo sysctl --system\n  " ++
    "Or pass --set-ip-forward to have gust set it for this run (restored on exit).").toList

/-- How an access to the sysctl fails. -/
inductive SysctlFault
  | read (e : IoError)
  | write (e : IoError)
  deriving DecidableEq, Repr

/-- What to restore later, if the sysctl had to be changed. -/
def ensureIpForward (fault : Option SysctlFault) (set : Bool) (k : Kernel τ φ) :
    Outcome Str (Option Bool) × Kernel τ φ :=
  match fault with
  | some (.read e) => (.err ("cannot read ".toList ++ ipv4Fwd ++ ": ".toList ++ e.msg), k)
  | fault =>
      if k.ipForward then (.ok none, k)
      else if set then
        match fault with
        | some (.write e) => (.err ("cannot set ".toList ++ ipv4Fwd ++ "=1: ".toList ++ e.msg), k)
        | _ => (.ok (some false), writeIpForward true k)
      else (.err ipForwardOff, k)

/-- Put the sysctl back, if there is something to put back. -/
def restore (prev : Option Bool) (k : Kernel τ φ) : Kernel τ φ :=
  match prev with
  | some v => writeIpForward v k
  | none => k

/-- A write that fails is not tried again. -/
def tryRestore (failed : Bool) (prev : Option Bool) (k : Kernel τ φ) : Kernel τ φ :=
  if failed then k else restore prev k

/-- Which calls of a cleanup fail. -/
structure Faults where
  delete : Family → Bool
  restore : Bool

def Faults.none : Faults := ⟨fun _ => false, false⟩

/-- The cleanup guard. -/
structure NatState where
  armed : Bool
  restoreFwd : Option Bool
  deriving DecidableEq, Repr

/-- Give everything back, the first time it is called. -/
def NatState.cleanup (faults : Faults) (state : NatState) (k : Kernel τ φ) :
    NatState × Kernel τ φ :=
  if state.armed then
    (⟨false, none⟩, tryRestore faults.restore state.restoreFwd (tryDeletes faults.delete k))
  else (state, k)

/-- Where `run` is. -/
inductive Phase
  | preflight
  | resolving
  | forwarding (rules : List NatRule)
  | precleaning (rules : List NatRule) (restoreFwd : Option Bool)
  | installing (rules : List NatRule) (restoreFwd : Option Bool)
  | active (rules : List NatRule) (state : NatState)
  /-- On its way out, normally or unwinding, with the guard still to be dropped. -/
  | leaving (state : NatState) (code : Option ℕ)
  /-- The exit code, or `none` after a panic. -/
  | ended (code : Option ℕ)
  deriving DecidableEq, Repr

structure NatRun (τ φ : Type) where
  phase : Phase
  kernel : Kernel τ φ
  /-- Whether `apply` has succeeded. -/
  installed : Bool

/-- What happens next, and how it turns out. -/
inductive Event
  /-- `ensure_available` and `has_net_admin`. -/
  | preflight (ok : Bool)
  | resolve (lookup : Lookup)
  | ensureIpForward (fault : Option SysctlFault)
  /-- Any stale table of either family is deleted, but where that fails. -/
  | preclean (failed : Family → Bool)
  /-- `restoreFails` is about the sysctl, which is put back if the ruleset is refused. -/
  | install (ok restoreFails : Bool)
  /-- A heartbeat or a status dump. -/
  | list
  | shutdown (faults : Faults)
  | unwind
  | drop (faults : Faults)

namespace Event

/-- The table of the family was to be deleted, and was not. -/
def failsDelete (f : Family) : Event → Bool
  | preclean failed => failed f
  | shutdown faults => faults.delete f
  | drop faults => faults.delete f
  | _ => false

/-- The sysctl was to be put back, and was not. -/
def failsRestore : Event → Bool
  | install ok restoreFails => !ok && restoreFails
  | shutdown faults => faults.restore
  | drop faults => faults.restore
  | _ => false

end Event

namespace NatRun

/-- Continue with what to restore, or leave. -/
def forwardPhase (cfg : Config) (rules : List NatRule) (fault : Option SysctlFault)
    (s : NatRun τ φ) : NatRun τ φ :=
  match ensureIpForward fault cfg.setIpForward s.kernel with
  | (.ok restoreFwd, k) => { s with phase := .precleaning rules restoreFwd, kernel := k }
  | (_, k) => { s with phase := .ended (some 1), kernel := k }

/-- Arm the guard, or put the sysctl back and leave. -/
def installPhase (nft : Nft τ φ) (rules : List NatRule) (restoreFwd : Option Bool)
    (ok restoreFails : Bool) (s : NatRun τ φ) : NatRun τ φ :=
  if ok then
    { phase := .active rules ⟨true, restoreFwd⟩
      kernel := apply nft (buildRuleset rules) s.kernel
      installed := true }
  else
    { s with phase := .ended (some 1), kernel := tryRestore restoreFails restoreFwd s.kernel }

/-- Each step of `run`. -/
def step (nft : Nft τ φ) (cfg : Config) (s : NatRun τ φ) : Event → Option (NatRun τ φ)
  | .preflight ok =>
      if s.phase = .preflight then
        some { s with phase := if ok then .resolving else .ended (some 1) }
      else none
  | .resolve lookup =>
      if s.phase = .resolving then
        match buildRules lookup cfg with
        | .ok rules => some { s with phase := .forwarding rules }
        | _ => some { s with phase := .ended (some 2) }
      else none
  | .ensureIpForward fault =>
      match s.phase with
      | .forwarding rules => some (s.forwardPhase cfg rules fault)
      | _ => none
  | .preclean failed =>
      match s.phase with
      | .precleaning rules restoreFwd =>
          some { s with phase := .installing rules restoreFwd,
                        kernel := tryDeletes failed s.kernel }
      | _ => none
  | .install ok restoreFails =>
      match s.phase with
      | .installing rules restoreFwd => some (s.installPhase nft rules restoreFwd ok restoreFails)
      | _ => none
  | .list =>
      match s.phase with
      | .active _ _ => some s
      | _ => none
  | .shutdown faults =>
      match s.phase with
      | .active _ state =>
          some { s with phase := .leaving (state.cleanup faults s.kernel).1 (some 0),
                        kernel := (state.cleanup faults s.kernel).2 }
      | _ => none
  | .unwind =>
      match s.phase with
      | .active _ state => some { s with phase := .leaving state none }
      | _ => none
  | .drop faults =>
      match s.phase with
      | .leaving state code =>
          some { s with phase := .ended code, kernel := (state.cleanup faults s.kernel).2 }
      | _ => none

/-- `run cfg` on a host in the state `k`. -/
def machine (nft : Nft τ φ) (cfg : Config) (k : Kernel τ φ) : Machine (NatRun τ φ) Event where
  init := ⟨.preflight, k, false⟩
  step := step nft cfg

@[simp] theorem gust_tryRestore (failed : Bool) (prev : Option Bool) (k : Kernel τ φ) :
    (tryRestore failed prev k).gust = k.gust := by
  cases failed <;> cases prev <;> rfl

@[simp] theorem ip6Forward_tryRestore (failed : Bool) (prev : Option Bool) (k : Kernel τ φ) :
    (tryRestore failed prev k).ip6Forward = k.ip6Forward := by
  cases failed <;> cases prev <;> rfl

@[simp] theorem foreign_tryRestore (failed : Bool) (prev : Option Bool) (k : Kernel τ φ) :
    (tryRestore failed prev k).foreign = k.foreign := by
  cases failed <;> cases prev <;> rfl

/-- Restoring gives back the initial value. -/
def Owes (k₀ k : Kernel τ φ) (restoreFwd : Option Bool) : Prop :=
  (restore restoreFwd k).ipForward = k₀.ipForward

theorem Owes.congr {k₀ k k' : Kernel τ φ} {restoreFwd : Option Bool} (h : Owes k₀ k restoreFwd)
    (hk : k'.ipForward = k.ipForward) : Owes k₀ k' restoreFwd := by
  cases restoreFwd with
  | none => exact hk.trans h
  | some v => exact h

/-- What a call of `ensure_ip_forward` can do: find the sysctl set, set it, or fail and
leave it alone. -/
theorem ensureIpForward_cases (fault : Option SysctlFault) (set : Bool) (k : Kernel τ φ) :
    (k.ipForward = true ∧ ensureIpForward fault set k = (.ok none, k)) ∨
    (k.ipForward = false ∧ set = true ∧
      ensureIpForward fault set k = (.ok (some false), writeIpForward true k)) ∨
    ∃ e, ensureIpForward fault set k = (.err e, k) := by
  simp only [ensureIpForward]
  split
  · exact .inr (.inr ⟨_, rfl⟩)
  · by_cases hon : k.ipForward = true
    · rw [if_pos hon]
      exact .inl ⟨hon, rfl⟩
    · rw [if_neg hon]
      by_cases hset : set = true
      · rw [if_pos hset]
        split
        · exact .inr (.inr ⟨_, rfl⟩)
        · exact .inr (.inl ⟨Bool.eq_false_iff.mpr hon, hset, rfl⟩)
      · rw [if_neg hset]
        exact .inr (.inr ⟨_, rfl⟩)

/-- What `ensure_ip_forward` wants restored is the value that was there. -/
theorem owes_ensureIpForward {fault : Option SysctlFault} {set : Bool} {k k' : Kernel τ φ}
    {restoreFwd : Option Bool} (h : ensureIpForward fault set k = (.ok restoreFwd, k')) :
    Owes k k' restoreFwd ∧ k'.ip6Forward = k.ip6Forward ∧ k'.foreign = k.foreign := by
  obtain ⟨-, heq⟩ | ⟨hoff, -, heq⟩ | ⟨e, heq⟩ := ensureIpForward_cases fault set k
  · rw [heq] at h
    cases h
    exact ⟨rfl, rfl, rfl⟩
  · rw [heq] at h
    cases h
    exact ⟨hoff.symm, rfl, rfl⟩
  · rw [heq] at h
    cases h

theorem ensureIpForward_err {fault : Option SysctlFault} {set : Bool} {k k' : Kernel τ φ}
    {x : Outcome Str (Option Bool)} (h : ensureIpForward fault set k = (x, k'))
    (hx : ∀ restoreFwd, x ≠ .ok restoreFwd) : k' = k := by
  obtain ⟨-, heq⟩ | ⟨-, -, heq⟩ | ⟨e, heq⟩ := ensureIpForward_cases fault set k
  · rw [heq] at h
    cases h
    exact absurd rfl (hx none)
  · rw [heq] at h
    cases h
    exact absurd rfl (hx (some false))
  · rw [heq] at h
    cases h
    rfl

/-- The installed text is such a text. -/
theorem touch_buildRuleset {nft : Nft τ φ} {lookup : Lookup} {cfg : Config} {rules : List NatRule}
    (h : nft.Confined) (hrules : buildRules lookup cfg = .ok rules) (x : φ) :
    nft.touch (buildRuleset rules) x = x :=
  h _ _ (decode_buildRuleset (plainComments_buildRules hrules)) x

/-- No deletion of the family's table has failed. -/
def Deletes (events : List Event) (f : Family) : Prop := ∀ e ∈ events, e.failsDelete f = false

/-- No restore of the sysctl has failed. -/
def Restores (events : List Event) : Prop := ∀ e ∈ events, e.failsRestore = false

variable {events : List Event} {e : Event}

theorem deletes_append_iff {f : Family} :
    Deletes (events ++ [e]) f ↔ Deletes events f ∧ e.failsDelete f = false := by
  simp only [Deletes, List.forall_mem_append, List.forall_mem_singleton]

theorem restores_append_iff :
    Restores (events ++ [e]) ↔ Restores events ∧ e.failsRestore = false := by
  simp only [Restores, List.forall_mem_append, List.forall_mem_singleton]

/-- What the guard stands for: it owes the host its sysctl, or all is given back. -/
def Guards (k₀ : Kernel τ φ) (events : List Event) (state : NatState) (k : Kernel τ φ) : Prop :=
  if state.armed then Owes k₀ k state.restoreFwd
  else (Restores events → k.ipForward = k₀.ipForward) ∧ ∀ f, Deletes events f → k.gust f = none

theorem armed_cleanup (faults : Faults) (state : NatState) (k : Kernel τ φ) :
    (state.cleanup faults k).1.armed = false := by
  simp only [NatState.cleanup]
  split
  · rfl
  · rename_i harmed
    exact Bool.eq_false_iff.mpr harmed

@[simp] theorem foreign_cleanup (faults : Faults) (state : NatState) (k : Kernel τ φ) :
    (state.cleanup faults k).2.foreign = k.foreign := by
  simp only [NatState.cleanup]
  split <;> simp

@[simp] theorem ip6Forward_cleanup (faults : Faults) (state : NatState) (k : Kernel τ φ) :
    (state.cleanup faults k).2.ip6Forward = k.ip6Forward := by
  simp only [NatState.cleanup]
  split <;> simp

/-- After the first cleanup nothing is left to do, so a second one does nothing. -/
theorem Guards.cleanup {k₀ k : Kernel τ φ} {state : NatState} {faults : Faults}
    (h : Guards k₀ events state k) (hdelete : ∀ f, e.failsDelete f = faults.delete f)
    (hrestore : e.failsRestore = faults.restore) :
    Guards k₀ (events ++ [e]) (state.cleanup faults k).1 (state.cleanup faults k).2 := by
  rw [Guards, if_neg (by simp [armed_cleanup])]
  simp only [NatState.cleanup]
  by_cases harmed : state.armed = true
  · rw [Guards, if_pos harmed] at h
    rw [if_pos harmed]
    refine ⟨?_, ?_⟩
    · intro hok
      have hwrite := (restores_append_iff.mp hok).2
      rw [hrestore] at hwrite
      have howes : Owes k₀ (tryDeletes faults.delete k) state.restoreFwd := h.congr (by simp)
      simp only [tryRestore, hwrite, Bool.false_eq_true, if_false]
      exact howes
    · intro f hok
      have hcall := (deletes_append_iff.mp hok).2
      rw [hdelete] at hcall
      simp [gust_tryDeletes, hcall]
  · rw [Guards, if_neg harmed] at h
    rw [if_neg harmed]
    exact ⟨fun hok => h.1 (restores_append_iff.mp hok).1,
      fun f hok => h.2 f (deletes_append_iff.mp hok).1⟩

/-- What `run` owes to the host it started on, phase by phase. -/
def PhaseInv (nft : Nft τ φ) (cfg : Config) (k₀ : Kernel τ φ) (events : List Event)
    (s : NatRun τ φ) : Prop :=
  match s.phase with
  | .preflight | .resolving => s.installed = false ∧ s.kernel.ipForward = k₀.ipForward
  | .forwarding rules =>
      s.installed = false ∧ s.kernel.ipForward = k₀.ipForward ∧
        ∃ lookup, buildRules lookup cfg = .ok rules
  | .precleaning rules restoreFwd =>
      s.installed = false ∧ Owes k₀ s.kernel restoreFwd ∧
        ∃ lookup, buildRules lookup cfg = .ok rules
  | .installing rules restoreFwd =>
      s.installed = false ∧ Owes k₀ s.kernel restoreFwd ∧
        (∀ f, Deletes events f → s.kernel.gust f = none) ∧
        ∃ lookup, buildRules lookup cfg = .ok rules
  | .active rules state =>
      state.armed = true ∧ Owes k₀ s.kernel state.restoreFwd ∧
        (∀ f, Deletes events f → s.kernel.gust f = nft.describe (buildRuleset rules) f) ∧
        ∃ lookup, buildRules lookup cfg = .ok rules
  | .leaving state _ => Guards k₀ events state s.kernel
  | .ended _ =>
      (Restores events → s.kernel.ipForward = k₀.ipForward) ∧
        (s.installed = true → ∀ f, Deletes events f → s.kernel.gust f = none)

structure Inv (nft : Nft τ φ) (cfg : Config) (k₀ : Kernel τ φ) (events : List Event)
    (s : NatRun τ φ) : Prop where
  ip6Forward : s.kernel.ip6Forward = k₀.ip6Forward
  foreign : nft.Confined → s.kernel.foreign = k₀.foreign
  phase : PhaseInv nft cfg k₀ events s

variable {nft : Nft τ φ} {cfg : Config} {k₀ : Kernel τ φ} {s t : NatRun τ φ}

/-- Everything a step of `run` can do. -/
inductive Step (nft : Nft τ φ) (cfg : Config) (s : NatRun τ φ) : Event → NatRun τ φ → Prop
  | preflight (hphase : s.phase = .preflight) :
      Step nft cfg s (.preflight true) { s with phase := .resolving }
  | preflightFailed (hphase : s.phase = .preflight) :
      Step nft cfg s (.preflight false) { s with phase := .ended (some 1) }
  | resolve {lookup : Lookup} {rules : List NatRule} (hphase : s.phase = .resolving)
      (hrules : buildRules lookup cfg = .ok rules) :
      Step nft cfg s (.resolve lookup) { s with phase := .forwarding rules }
  | resolveFailed {lookup : Lookup} (hphase : s.phase = .resolving) :
      Step nft cfg s (.resolve lookup) { s with phase := .ended (some 2) }
  | forward {fault : Option SysctlFault} {rules : List NatRule} {restoreFwd : Option Bool}
      {k : Kernel τ φ} (hphase : s.phase = .forwarding rules)
      (hensure : ensureIpForward fault cfg.setIpForward s.kernel = (.ok restoreFwd, k)) :
      Step nft cfg s (.ensureIpForward fault)
        { s with phase := .precleaning rules restoreFwd, kernel := k }
  | forwardFailed {fault : Option SysctlFault} {rules : List NatRule}
      (hphase : s.phase = .forwarding rules) :
      Step nft cfg s (.ensureIpForward fault) { s with phase := .ended (some 1) }
  | preclean {failed : Family → Bool} {rules : List NatRule} {restoreFwd : Option Bool}
      (hphase : s.phase = .precleaning rules restoreFwd) :
      Step nft cfg s (.preclean failed)
        { s with phase := .installing rules restoreFwd, kernel := tryDeletes failed s.kernel }
  | install {restoreFails : Bool} {rules : List NatRule} {restoreFwd : Option Bool}
      (hphase : s.phase = .installing rules restoreFwd) :
      Step nft cfg s (.install true restoreFails)
        { phase := .active rules ⟨true, restoreFwd⟩
          kernel := apply nft (buildRuleset rules) s.kernel
          installed := true }
  | installFailed {restoreFails : Bool} {rules : List NatRule} {restoreFwd : Option Bool}
      (hphase : s.phase = .installing rules restoreFwd) :
      Step nft cfg s (.install false restoreFails)
        { s with phase := .ended (some 1), kernel := tryRestore restoreFails restoreFwd s.kernel }
  | list {rules : List NatRule} {state : NatState} (hphase : s.phase = .active rules state) :
      Step nft cfg s .list s
  | shutdown {faults : Faults} {rules : List NatRule} {state : NatState}
      (hphase : s.phase = .active rules state) :
      Step nft cfg s (.shutdown faults)
        { s with phase := .leaving (state.cleanup faults s.kernel).1 (some 0),
                 kernel := (state.cleanup faults s.kernel).2 }
  | unwind {rules : List NatRule} {state : NatState} (hphase : s.phase = .active rules state) :
      Step nft cfg s .unwind { s with phase := .leaving state none }
  | drop {faults : Faults} {state : NatState} {code : Option ℕ}
      (hphase : s.phase = .leaving state code) :
      Step nft cfg s (.drop faults)
        { s with phase := .ended code, kernel := (state.cleanup faults s.kernel).2 }

theorem step_cases {e : Event} (h : step nft cfg s e = some t) : Step nft cfg s e t := by
  cases e with
  | preflight ok =>
      simp only [step] at h
      split at h
      · rename_i hphase
        cases h
        cases ok
        · exact .preflightFailed hphase
        · exact .preflight hphase
      · cases h
  | resolve lookup =>
      simp only [step] at h
      split at h
      · rename_i hphase
        split at h
        · rename_i rules hrules
          cases h
          exact .resolve hphase hrules
        · cases h
          exact .resolveFailed hphase
      · cases h
  | ensureIpForward fault =>
      simp only [step] at h
      split at h
      · rename_i rules hphase
        cases h
        rw [forwardPhase]
        split
        · rename_i restoreFwd k hensure
          exact .forward hphase hensure
        · rename_i x k hx hensure
          obtain rfl := ensureIpForward_err hensure fun restoreFwd hok => hx restoreFwd hok
          exact .forwardFailed hphase
      · cases h
  | preclean failed =>
      simp only [step] at h
      split at h
      · rename_i rules restoreFwd hphase
        cases h
        exact .preclean hphase
      · cases h
  | install ok restoreFails =>
      simp only [step] at h
      split at h
      · rename_i rules restoreFwd hphase
        cases h
        cases ok
        · exact .installFailed hphase
        · exact .install hphase
      · cases h
  | list =>
      simp only [step] at h
      split at h
      · rename_i rules state hphase
        cases h
        exact .list hphase
      · cases h
  | shutdown faults =>
      simp only [step] at h
      split at h
      · rename_i rules state hphase
        cases h
        exact .shutdown hphase
      · cases h
  | unwind =>
      simp only [step] at h
      split at h
      · rename_i rules state hphase
        cases h
        exact .unwind hphase
      · cases h
  | drop faults =>
      simp only [step] at h
      split at h
      · rename_i state code hphase
        cases h
        exact .drop hphase
      · cases h

theorem inv_step (events : List Event) (s : NatRun τ φ) (e : Event) (t : NatRun τ φ)
    (hs : Inv nft cfg k₀ events s) (h : step nft cfg s e = some t) :
    Inv nft cfg k₀ (events ++ [e]) t := by
  obtain ⟨hip6, hforeign, hinv⟩ := hs
  cases step_cases h with
  | preflight hphase =>
      simp only [PhaseInv, hphase] at hinv
      exact ⟨hip6, hforeign, hinv⟩
  | preflightFailed hphase =>
      simp only [PhaseInv, hphase] at hinv
      exact ⟨hip6, hforeign, fun _ => hinv.2, by simp [hinv.1]⟩
  | resolve hphase hrules =>
      simp only [PhaseInv, hphase] at hinv
      exact ⟨hip6, hforeign, hinv.1, hinv.2, _, hrules⟩
  | resolveFailed hphase =>
      simp only [PhaseInv, hphase] at hinv
      exact ⟨hip6, hforeign, fun _ => hinv.2, by simp [hinv.1]⟩
  | forward hphase hensure =>
      simp only [PhaseInv, hphase] at hinv
      obtain ⟨hinstalled, hfwd, hrules⟩ := hinv
      obtain ⟨howes, hk6, hk⟩ := owes_ensureIpForward hensure
      exact ⟨hk6.trans hip6, fun hnft => hk.trans (hforeign hnft), hinstalled, howes.trans hfwd,
        hrules⟩
  | forwardFailed hphase =>
      simp only [PhaseInv, hphase] at hinv
      exact ⟨hip6, hforeign, fun _ => hinv.2.1, by simp [hinv.1]⟩
  | @preclean failed rules restoreFwd hphase =>
      simp only [PhaseInv, hphase] at hinv
      obtain ⟨hinstalled, howes, hrules⟩ := hinv
      refine ⟨by simpa using hip6, by simpa using hforeign, hinstalled, howes.congr (by simp), ?_,
        hrules⟩
      intro f hok
      have hcall : failed f = false := (deletes_append_iff.mp hok).2
      simp [gust_tryDeletes, hcall]
  | install hphase =>
      simp only [PhaseInv, hphase] at hinv
      obtain ⟨-, howes, hnone, lookup, hrules⟩ := hinv
      refine ⟨hip6, fun hnft => ?_, rfl, howes.congr rfl, fun f hok => ?_, lookup, hrules⟩
      · exact (touch_buildRuleset hnft hrules _).trans (hforeign hnft)
      · exact gust_apply_of_none (hnone f (deletes_append_iff.mp hok).1)
  | @installFailed restoreFails rules restoreFwd hphase =>
      simp only [PhaseInv, hphase] at hinv
      obtain ⟨hinstalled, howes, -, -⟩ := hinv
      refine ⟨by simpa using hip6, by simpa using hforeign, fun hok => ?_, by simp [hinstalled]⟩
      have hwrite : restoreFails = false := (restores_append_iff.mp hok).2
      simp only [tryRestore, hwrite, Bool.false_eq_true, if_false]
      exact howes
  | list hphase =>
      simp only [PhaseInv, hphase] at hinv
      obtain ⟨harmed, howes, htables, hrules⟩ := hinv
      refine ⟨hip6, hforeign, ?_⟩
      simp only [PhaseInv, hphase]
      exact ⟨harmed, howes, fun f hok => htables f (deletes_append_iff.mp hok).1, hrules⟩
  | @shutdown faults rules state hphase =>
      simp only [PhaseInv, hphase] at hinv
      obtain ⟨harmed, howes, -, -⟩ := hinv
      have hguard : Guards k₀ events state s.kernel := by rwa [Guards, if_pos harmed]
      exact ⟨by simpa using hip6, by simpa using hforeign, hguard.cleanup (fun _ => rfl) rfl⟩
  | unwind hphase =>
      simp only [PhaseInv, hphase] at hinv
      refine ⟨hip6, hforeign, ?_⟩
      simp only [PhaseInv, Guards, hinv.1, if_true]
      exact hinv.2.1
  | @drop faults state code hphase =>
      simp only [PhaseInv, hphase] at hinv
      have hguard := hinv.cleanup (e := .drop faults) (fun _ => rfl) rfl
      rw [Guards, if_neg (by simp [armed_cleanup])] at hguard
      exact ⟨by simpa using hip6, by simpa using hforeign, hguard.1, fun _ => hguard.2⟩

theorem inv_run (h : (machine nft cfg k₀).run (machine nft cfg k₀).init events = some s) :
    Inv nft cfg k₀ events s := by
  have hinit : Inv nft cfg k₀ [] (machine nft cfg k₀).init := ⟨rfl, fun _ => rfl, rfl, rfl⟩
  exact Machine.run_trace_invariant hinit inv_step h

/-- **NAT mode restores the host on every path.** Whatever tables were there before, and
however each step turns out: while `run` is active the tables are exactly those its ruleset
describes, when it has ended after an installation both are gone, and when it has ended at
all the sysctl has its initial value. A table depends only on the deletions of its own
family, and the sysctl only on the writes that put it back. Foreign tables are left alone
by an `nft` that leaves them alone where a text names only `gust` tables. -/
theorem nat_restores_host
    (h : (machine nft cfg k₀).run (machine nft cfg k₀).init events = some s) :
    (∀ rules state, s.phase = .active rules state →
      (∃ lookup, buildRules lookup cfg = .ok rules) ∧
      ∀ f, (∀ e ∈ events, e.failsDelete f = false) →
        s.kernel.gust f = nft.describe (buildRuleset rules) f) ∧
    (∀ code, s.phase = .ended code → s.installed = true → ∀ f,
      (∀ e ∈ events, e.failsDelete f = false) → s.kernel.gust f = none) ∧
    (∀ code, s.phase = .ended code → (∀ e ∈ events, e.failsRestore = false) →
      s.kernel.ipForward = k₀.ipForward) ∧
    (nft.Confined → s.kernel.foreign = k₀.foreign) := by
  obtain ⟨-, hforeign, hinv⟩ := inv_run h
  refine ⟨?_, ?_, ?_, hforeign⟩
  · intro rules state hphase
    simp only [PhaseInv, hphase] at hinv
    exact ⟨hinv.2.2.2, hinv.2.2.1⟩
  · intro code hphase
    simp only [PhaseInv, hphase] at hinv
    exact hinv.2
  · intro code hphase
    simp only [PhaseInv, hphase] at hinv
    exact hinv.1

/-- When nothing fails, `run` becomes active. -/
theorem run_activate {lookup : Lookup} {rules : List NatRule} {restoreFwd : Option Bool}
    {k : Kernel τ φ} (hrules : buildRules lookup cfg = .ok rules)
    (hensure : ensureIpForward none cfg.setIpForward k₀ = (.ok restoreFwd, k)) :
    (machine nft cfg k₀).run (machine nft cfg k₀).init
      [.preflight true, .resolve lookup, .ensureIpForward none, .preclean fun _ => false,
        .install true false] =
      some ⟨.active rules ⟨true, restoreFwd⟩, apply nft (buildRuleset rules) (deleteTables k),
        true⟩ := by
  simp [Machine.run, machine, step, hrules, forwardPhase, hensure, installPhase,
    tryDeletes_eq_deleteTables]

/-- When nothing fails, `run` gets to its regular exit. -/
theorem exists_regular_exit {lookup : Lookup} {rules : List NatRule}
    (hrules : buildRules lookup cfg = .ok rules)
    (hfwd : k₀.ipForward = true ∨ cfg.setIpForward = true) :
    ∃ events s, (machine nft cfg k₀).run (machine nft cfg k₀).init events = some s ∧
      (∀ f, ∀ e ∈ events, e.failsDelete f = false) ∧ (∀ e ∈ events, e.failsRestore = false) ∧
      s.phase = .ended (some 0) ∧ s.installed = true := by
  obtain ⟨restoreFwd, k, hensure⟩ : ∃ restoreFwd k,
      ensureIpForward none cfg.setIpForward k₀ = (.ok restoreFwd, k) := by
    by_cases hon : k₀.ipForward = true
    · exact ⟨none, k₀, by simp [ensureIpForward, hon]⟩
    · have hset := hfwd.resolve_left hon
      exact ⟨some false, writeIpForward true k₀, by simp [ensureIpForward, hon, hset]⟩
  have hactive := @run_activate _ _ nft _ _ _ _ _ _ hrules hensure
  obtain ⟨s, hleave, hphase, hinstalled⟩ : ∃ s, (machine nft cfg k₀).run
      ⟨.active rules ⟨true, restoreFwd⟩, apply nft (buildRuleset rules) (deleteTables k), true⟩
      [.shutdown .none, .drop .none] = some s ∧ s.phase = .ended (some 0) ∧ s.installed = true :=
    ⟨_, rfl, rfl, rfl⟩
  exact ⟨_, s, Machine.run_append_iff.mpr ⟨_, hactive, hleave⟩,
    by simp [Event.failsDelete, Faults.none], by simp [Event.failsRestore, Faults.none], hphase,
    hinstalled⟩

end NatRun

/-- A reading under which a table is the text that opens it. -/
def textNft : Nft Str Unit where
  describe text f :=
    if (Str.findStr ("table ".toList ++ f.asStr ++ " gust ".toList) text).isSome then some text
    else none
  extend old new := old ++ new
  touch _ x := x

/-- Forwarding is off, and there is a stale table in each family. -/
def staleHost : Kernel Str Unit := ⟨false, false, fun _ => some "stale".toList, ()⟩

namespace NatRun

/-- Stale tables, a sysctl that has to be changed, and a normal shutdown. -/
theorem nat_restores_stale_host :
    ∃ cfg, buildConfig
        { listens := ["tcp://:8080/1.2.3.4:443".toList], nat := true, setIpForward := true } =
          .ok cfg ∧
      ∃ (events : List Event) (s : NatRun Str Unit),
        (machine textNft cfg staleHost).run (machine textNft cfg staleHost).init events = some s ∧
        s.phase = .ended (some 0) ∧ (∀ f, s.kernel.gust f = none) ∧
        s.kernel.ipForward = false := by
  obtain ⟨cfg, hcfg, hset, rules, hrules⟩ : ∃ cfg, buildConfig
        { listens := ["tcp://:8080/1.2.3.4:443".toList], nat := true, setIpForward := true } =
          .ok cfg ∧
      cfg.setIpForward = true ∧ ∃ rules, buildRules (fun _ _ => .ok []) cfg = .ok rules :=
    ⟨_, rfl, rfl, _, rfl⟩
  obtain ⟨events, s, hrun, hdeletes, hrestores, hphase, hinstalled⟩ :=
    exists_regular_exit hrules (Or.inr hset)
  have hhost := nat_restores_host hrun
  exact ⟨cfg, hcfg, events, s, hrun, hphase, fun f => hhost.2.1 _ hphase hinstalled f (hdeletes f),
    hhost.2.2.1 _ hphase hrestores⟩

end NatRun
end Gust.Nat
