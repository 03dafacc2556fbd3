import Gust.Forward.Tcp
import Gust.Forward.Udp

/-!
# Which target a client gets

Both forwarders take the targets of a listener in turn: the accept loop once for every
connection, the receive loop once for every new session, whether or not its socket can be
opened. Each run of a serve loop starts its counter at zero and hands it to nobody, so the
picks of a run are the sequence of picks from the start (`picks_in_turn`).
-/

namespace Gust

open Gust.Lib

/-- A run of `tcp::serve` once its socket is bound. -/
def Tcp.machine (targets : List Str) : Machine Tcp.State Tcp.Act where
  init := Tcp.init
  step := Tcp.step targets

/-- The target that a step of the accept loop picks. -/
def Tcp.picked (targets : List Str) (s : Tcp.State) : Tcp.Act → Option Str
  | .dispatch =>
      match s.loop with
      | .accepted _ => (Tcp.pickTarget targets s.rr).map Prod.fst
      | _ => none
  | _ => none

/-- The target that a step of the receive loop picks. -/
def Udp.picked (targets : List Str) (s : Udp.State) : Udp.Act → Option Str
  | .serve .lookup =>
      match s.loop with
      | .lookingUp _ peer =>
          if s.sessions peer = none then (Udp.pickTarget targets s.rr).map Prod.fst else none
      | _ => none
  | _ => none

/-- The counter of the accept loop is for the picks alone. -/
theorem Tcp.picksOnly (targets : List Str) :
    PicksOnly (Tcp.machine targets) Tcp.State.rr (Tcp.pickTarget targets) (Tcp.picked targets) := by
  intro s a t h
  cases a with
  | accept peer =>
      simp only [machine, step, Option.ite_none_right_eq_some, Option.some.injEq] at h
      exact .inl ⟨rfl, by rw [← h.2]⟩
  | acceptError =>
      simp only [machine, step, Option.ite_none_right_eq_some, Option.some.injEq] at h
      exact .inl ⟨rfl, by rw [← h.2]⟩
  | resume =>
      simp only [machine, step, Option.ite_none_right_eq_some, Option.some.injEq] at h
      exact .inl ⟨rfl, by rw [← h.2]⟩
  | dispatch =>
      simp only [machine, step] at h
      split at h
      · rename_i peer hloop
        obtain ⟨⟨x, rr⟩, hpick, rfl⟩ := Option.map_eq_some_iff.mp h
        exact .inr ⟨x, rr, hpick, by simp only [picked, hloop, hpick, Option.map_some], rfl⟩
      · cases h

theorem Udp.rr_of_reverseStep {s t : Udp.State} {i : ℕ} {r : Udp.Reverse} {a : Udp.ReverseAct}
    (h : Udp.reverseStep s i r a = some t) : t.rr = s.rr := by
  cases a <;> grind [reverseStep, State.setPc]

theorem Udp.rr_openStep (s : Udp.State) (n : ℕ) (peer : SocketAddr) (target : Str)
    (addr : Outcome IoError SocketAddr) : (Udp.openStep s n peer target addr).rr = s.rr := by
  cases addr <;> rfl

theorem Udp.rr_sendStep (s : Udp.State) (n out : ℕ) (ok : Bool) :
    (Udp.sendStep s n out ok).rr = s.rr := by
  unfold sendStep
  split <;> rfl

theorem Udp.rr_of_serveStep {targets : List Str} {s t : Udp.State} {a : Udp.ServeAct}
    (ha : a ≠ .lookup) (h : Udp.serveStep targets s a = some t) : t.rr = s.rr := by
  cases a <;> grind [serveStep, rr_openStep, rr_sendStep]

/-- The counter of the receive loop is for the picks alone. -/
theorem Udp.picksOnly (targets : List Str) :
    PicksOnly (Udp.machine targets) Udp.State.rr (Udp.pickTarget targets) (Udp.picked targets) := by
  intro s a t h
  cases a with
  | tick ms =>
      cases h
      exact .inl ⟨rfl, rfl⟩
  | reverse i a =>
      obtain ⟨r, -, hstep⟩ := Option.bind_eq_some_iff.mp h
      exact .inl ⟨rfl, rr_of_reverseStep hstep⟩
  | serve a =>
      by_cases ha : a = .lookup
      · subst ha
        simp only [machine, step, serveStep] at h
        split at h
        · rename_i n peer hloop
          rw [Option.some.injEq] at h
          subst h
          cases hsession : s.sessions peer with
          | some out =>
              refine .inl ⟨?_, ?_⟩
              · simp [picked, hloop, hsession]
              · simp [lookupStep, hsession]
          | none =>
              cases hpick : pickTarget targets s.rr with
              | none =>
                  refine .inl ⟨?_, ?_⟩
                  · simp [picked, hloop, hsession, hpick]
                  · simp [lookupStep, hsession, hpick]
              | some pick =>
                  refine .inr ⟨pick.1, pick.2, rfl, ?_, ?_⟩
                  · simp [picked, hloop, hsession, hpick]
                  · simp [lookupStep, hsession, hpick]
        · cases h
      · refine .inl ⟨?_, rr_of_serveStep ha h⟩
        cases a <;> first | rfl | exact absurd rfl ha

/-- The targets of a listener are taken in turn, without a panic and fairly. -/
structure TakesTurns (targets : List Str) : Prop where
  /-- No call panics, whatever the counter. -/
  noPanic : ∀ (w : ℕ) (rr : BitVec w),
    (Tcp.pickTarget targets rr).isSome = true ∧ (Udp.pickTarget targets rr).isSome = true
  /-- The `k`-th call, in both forwarders. -/
  nthPick : ∀ w k, position w targets.length k < targets.length ∧
    nthPick (Tcp.pickTarget (w := w) targets) k = targets[position w targets.length k]? ∧
    nthPick (Udp.pickTarget (w := w) targets) k = targets[position w targets.length k]?
  /-- The picks of every run of the accept loop. -/
  tcp : ∀ {as s}, (Tcp.machine targets).run Tcp.init as = some s →
    ∀ k < ((Tcp.machine targets).outputs (Tcp.picked targets) Tcp.init as).length,
      ((Tcp.machine targets).outputs (Tcp.picked targets) Tcp.init as)[k]? =
        targets[position 64 targets.length k]?
  /-- The picks of every run of the receive loop. -/
  udp : ∀ {as s}, (Udp.machine targets).run (Udp.machine targets).init as = some s →
    ∀ k < ((Udp.machine targets).outputs (Udp.picked targets) (Udp.machine targets).init as).length,
      ((Udp.machine targets).outputs (Udp.picked targets) (Udp.machine targets).init as)[k]? =
        targets[position 64 targets.length k]?
  /-- In a window of picks, any two positions are chosen equally often up to one, or up to
  two if the counter wraps once. -/
  fair : ∀ w a m i j, i < targets.length → j < targets.length →
    (wraps w a m = 0 → timesPicked w targets.length a m i ≤
      timesPicked w targets.length a m j + 1) ∧
    (wraps w a m = 1 → timesPicked w targets.length a m i ≤
      timesPicked w targets.length a m j + 2)

theorem takesTurns {targets : List Str} (h : targets ≠ []) : TakesTurns targets where
  noPanic := fun _ rr => ⟨isSome_roundRobin h rr, isSome_roundRobin h rr⟩
  nthPick := fun _ k =>
    ⟨position_lt (List.length_pos_iff.mpr h) k, nthPick_roundRobin h k, nthPick_roundRobin h k⟩
  tcp := fun hrun k hk =>
    (getElem?_outputs (Tcp.picksOnly targets) rfl hrun hk).trans (nthPick_roundRobin h k)
  udp := fun hrun k hk =>
    (getElem?_outputs (Udp.picksOnly targets) rfl hrun hk).trans (nthPick_roundRobin h k)
  fair := by
    intro w a m i j hi hj
    have hle := timesPicked_le (w := w) hi hj a m
    exact ⟨fun hwraps => by rwa [hwraps] at hle, fun hwraps => by rwa [hwraps] at hle⟩

/-- **Round robin is fair and both forwarders agree on it**, for every listener of an
accepted configuration. -/
theorem picks_in_turn {raw : RawArgs} {cfg : Config} (hcfg : buildConfig raw = .ok cfg)
    {l : ListenerSpec} (hl : l ∈ cfg.listeners) : TakesTurns l.targets := by
  obtain ⟨ls, -, node, hnode⟩ := (buildConfig_eq_ok_iff.mp hcfg).listener hl
  exact takesTurns hnode.targets_ne_nil

/-- A two-bit counter over three targets: the fourth and the fifth pick are the first
target. -/
theorem picks_in_turn_three_targets :
    ∃ cfg l, buildConfig { listens := ["tcp://:80/a:1,b:2,c:3".toList] } = .ok cfg ∧
      l ∈ cfg.listeners ∧ TakesTurns l.targets ∧
      (List.range 6).map (nthPick (Tcp.pickTarget (w := 2) l.targets)) =
        [some "a:1".toList, some "b:2".toList, some "c:3".toList, some "a:1".toList,
          some "a:1".toList, some "b:2".toList] := by
  obtain ⟨cfg, l, hcfg, hl, htargets⟩ : ∃ cfg l,
      buildConfig { listens := ["tcp://:80/a:1,b:2,c:3".toList] } = .ok cfg ∧ l ∈ cfg.listeners ∧
      l.targets = ["a:1".toList, "b:2".toList, "c:3".toList] :=
    ⟨_, _, rfl, List.mem_singleton_self _, rfl⟩
  refine ⟨cfg, l, hcfg, hl, picks_in_turn hcfg hl, ?_⟩
  rw [htargets]
  decide

end Gust
