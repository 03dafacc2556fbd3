import Gust.Forward.Udp

/-!
# Idle expiry of UDP sessions

A reverse task decides that its session is idle in one step and removes it in another, and it
holds no lock in between. The serve loop looks the session up, stores the time and sends, also
in separate steps. What goes wrong is exactly that the two overlap: the task decides while the
loop is already at work on the session, or the loop finds a session whose task has decided.
`no_active_session_reaped` is about all runs in which neither happens, and
`active_session_reaped` is a run in which the second does.
-/

namespace Gust.Udp

open Gust.Lib

/-- The session the loop is at work on, between finding or inserting it and the send. -/
def Loop.session : Loop → Option ℕ
  | .storing _ out | .sending _ out => some out
  | _ => none

/-- The task has decided to stop. -/
def Pc.stopping : Pc → Bool
  | .removing | .finished => true
  | _ => false

/-- A socket operation of one of the loops returned an error. -/
def Act.socketError : Act → Bool
  | .serve .recvError | .serve (.send false) => true
  | .reverse _ .recvError | .reverse _ (.send false) => true
  | _ => false

/-- The decision to expire and the use of a session do not overlap: a timer that finds its
session idle does not find the loop at work on it, and a lookup does not find a session whose
task is about to remove it. -/
def Undisturbed (s : State) : Act → Prop
  | .reverse i .timer => ∀ t, s.tasks[i]? = some t → udpTtl ≤ s.now - s.last t.out →
      s.loop.session ≠ some t.out
  | .serve .lookup => ∀ n peer, s.loop = .lookingUp n peer → ∀ t ∈ s.tasks,
      s.sessions peer = some t.out → t.pc ≠ .removing
  | _ => True

/-- A session that is about to be removed is idle, and the loop is at work on no session whose
task has decided to stop. -/
structure Idle (s : State) : Prop where
  removing : ∀ (i : ℕ) (t : Reverse), s.tasks[i]? = some t → t.pc = .removing →
    udpTtl ≤ s.now - s.last t.out
  unused : ∀ (i : ℕ) (t : Reverse), s.tasks[i]? = some t → t.pc.stopping = true →
    s.loop.session ≠ some t.out

variable {targets : List Str} {s s' : State} {i : ℕ} {t : Reverse}

/-- The loop may always let go of its session. -/
theorem Idle.leave (hs : Idle s) (htasks : s'.tasks = s.tasks) (hnow : s'.now = s.now)
    (hlast : s'.last = s.last) (hloop : s'.loop.session = none) : Idle s' := by
  constructor
  · rw [htasks, hnow, hlast]
    exact hs.removing
  · intro i t _ _
    rw [hloop]
    exact (Option.some_ne_none _).symm

/-- One task goes on, and if it stops, then for a session that is idle and not in use. -/
theorem Idle.set_task (hs : Idle s) {u : Reverse} (htasks : s'.tasks = s.tasks.set i u)
    (hnow : s'.now = s.now) (hloop : s'.loop = s.loop)
    (hlast : ∀ j t, j ≠ i → s.tasks[j]? = some t → s'.last t.out = s.last t.out)
    (hremoving : u.pc = .removing → udpTtl ≤ s'.now - s'.last u.out)
    (hunused : u.pc.stopping = true → s.loop.session ≠ some u.out) : Idle s' := by
  constructor
  · intro j t ht hpc
    rw [htasks] at ht
    rcases getElem?_set_cases ht with ⟨-, rfl⟩ | ⟨hij, ht⟩
    · exact hremoving hpc
    · rw [hnow, hlast j t hij ht]
      exact hs.removing j t ht hpc
  · intro j t ht hpc
    rw [htasks] at ht
    rw [hloop]
    rcases getElem?_set_cases ht with ⟨-, rfl⟩ | ⟨-, ht⟩
    · exact hunused hpc
    · exact hs.unused j t ht hpc

/-- One task goes on and does not stop. -/
theorem Idle.set_running (hs : Idle s) {u : Reverse} (htasks : s'.tasks = s.tasks.set i u)
    (hnow : s'.now = s.now) (hloop : s'.loop = s.loop)
    (hlast : ∀ j t, j ≠ i → s.tasks[j]? = some t → s'.last t.out = s.last t.out)
    (hpc : u.pc.stopping = false) : Idle s' := by
  refine hs.set_task htasks hnow hloop hlast ?_ ?_
  · intro hremoving
    rw [hremoving] at hpc
    cases hpc
  · intro hstopping
    rw [hpc] at hstopping
    cases hstopping

/-- A session in the map belongs to no task that has finished. -/
theorem not_finished_of_session (hreach : (machine targets).Reachable s) {peer : SocketAddr}
    (ht : s.tasks[i]? = some t) (hsession : s.sessions peer = some t.out) : t.pc ≠ .finished := by
  obtain ⟨j, u, hu, hlive, -, hout⟩ := exists_task_of_session hreach hsession
  obtain rfl := index_eq_of_out hreach hu ht hout
  rw [hu, Option.some.injEq] at ht
  exact ht ▸ hlive

/-- The loop finds a session whose task goes on. -/
theorem Idle.hit (hs : Idle s) (hreach : (machine targets).Reachable s) {n out : ℕ}
    {peer : SocketAddr} (hsession : s.sessions peer = some out)
    (hremoving : ∀ t ∈ s.tasks, s.sessions peer = some t.out → t.pc ≠ .removing) :
    Idle { s with loop := .storing n out } := by
  refine ⟨hs.removing, ?_⟩
  intro i t ht hpc hout
  obtain rfl := Option.some.inj hout
  have hfinished := not_finished_of_session hreach ht hsession
  have hgoes := hremoving t (List.mem_of_getElem? ht) hsession
  cases hcase : t.pc with
  | removing => exact hgoes hcase
  | finished => exact hfinished hcase
  | _ =>
      rw [hcase] at hpc
      cases hpc

/-- A new socket is none of those the tasks have. -/
theorem Idle.opened (hs : Idle s) (hreach : (machine targets).Reachable s) {n : ℕ}
    {peer : SocketAddr} {outs : List Outbound} :
    Idle { s with
      loop := .inserting n peer s.outs.length
      outs := outs
      last := Function.update s.last s.outs.length s.now } := by
  refine ⟨?_, fun i t _ _ => (Option.some_ne_none _).symm⟩
  intro i t ht hpc
  obtain ⟨-, ⟨o, ho, -⟩, -⟩ := (flow hreach).tasks t (List.mem_of_getElem? ht)
  have hlt : t.out < s.outs.length := (List.getElem?_eq_some_iff.mp ho).1
  simp only [Function.update_of_ne hlt.ne]
  exact hs.removing i t ht hpc

/-- No other task has the session of a new one. -/
theorem Idle.inserted (hs : Idle s) {n : ℕ} {t₀ : Reverse} (hpc₀ : t₀.pc = .receiving)
    (htasks : s'.tasks = s.tasks ++ [t₀]) (hnow : s'.now = s.now) (hlast : s'.last = s.last)
    (hloop : s'.loop = .storing n t₀.out) (hreach : (machine targets).Reachable s') :
    Idle s' := by
  have hold : ∀ (i : ℕ) (t : Reverse), s'.tasks[i]? = some t → t.pc.stopping = true →
      i < s.tasks.length ∧ s.tasks[i]? = some t := by
    intro i t ht hpc
    rw [htasks] at ht
    by_cases hi : i < s.tasks.length
    · rw [List.getElem?_append_left hi] at ht
      exact ⟨hi, ht⟩
    · rw [List.getElem?_append_right (Nat.not_lt.mp hi)] at ht
      obtain rfl := List.mem_singleton.mp (List.mem_of_getElem? ht)
      rw [hpc₀] at hpc
      cases hpc
  constructor
  · intro i t ht hpc
    rw [hnow, hlast]
    exact hs.removing i t (hold i t ht (by rw [hpc]; rfl)).2 hpc
  · intro i t ht hpc hout
    rw [hloop] at hout
    have hlast : s'.tasks[s.tasks.length]? = some t₀ := by
      rw [htasks]
      exact List.getElem?_concat_length
    have hi := index_eq_of_out hreach ht hlast (Option.some.inj hout).symm
    have hlt := (hold i t ht hpc).1
    omega

/-- The loop stores the time of its own session. -/
theorem Idle.stored (hs : Idle s) {n out : ℕ} (hloop : s.loop = .storing n out) :
    Idle { s with loop := .sending n out, last := Function.update s.last out s.now } := by
  have hunused := hs.unused
  rw [hloop] at hunused
  refine ⟨?_, hunused⟩
  intro i t ht hpc
  have hne : t.out ≠ out := by
    rintro rfl
    exact hunused i t ht (by rw [hpc]; rfl) rfl
  simp only [Function.update_of_ne hne]
  exact hs.removing i t ht hpc

theorem idle_serveStep (hreach : (machine targets).Reachable s) (hs : Idle s) {a : ServeAct}
    (hC : Undisturbed s (.serve a)) (h : serveStep targets s a = some s') : Idle s' := by
  have hreach' : (machine targets).Reachable s' := hreach.step (a := .serve a) h
  cases a with
  | lookup =>
      simp only [serveStep] at h
      split at h
      · rename_i n peer hloop
        simp only [Option.some.injEq, lookupStep] at h
        split at h
        · rename_i out hsession
          exact h ▸ hs.hit hreach hsession (hC n peer hloop)
        · split at h
          · exact h ▸ hs.leave rfl rfl rfl rfl
          · exact h ▸ hs.leave rfl rfl rfl rfl
      · cases h
  | openSession lookup bindConnected =>
      simp only [serveStep] at h
      split at h
      · simp only [Option.some.injEq, openStep] at h
        split at h
        · exact h ▸ hs.opened hreach
        · exact h ▸ hs.leave rfl rfl rfl rfl
      · cases h
  | insert =>
      simp only [serveStep] at h
      split at h
      · rw [Option.some.injEq] at h
        subst h
        exact hs.inserted rfl rfl rfl rfl rfl hreach'
      · cases h
  | store =>
      simp only [serveStep] at h
      split at h
      · rename_i n out hloop
        rw [Option.some.injEq] at h
        exact h ▸ hs.stored hloop
      · cases h
  | send ok =>
      simp only [serveStep] at h
      split at h
      · simp only [Option.some.injEq, sendStep] at h
        split at h
        · exact h ▸ hs.leave rfl rfl rfl rfl
        · exact h ▸ hs.leave rfl rfl rfl rfl
      · cases h
  | _ =>
      simp only [serveStep, Option.ite_none_right_eq_some, Option.some.injEq] at h
      exact h.2 ▸ hs.leave rfl rfl rfl rfl

theorem idle_reverseStep (hreach : (machine targets).Reachable s) (hs : Idle s) {a : ReverseAct}
    (herr : (Act.reverse i a).socketError = false) (hC : Undisturbed s (.reverse i a))
    (ht : s.tasks[i]? = some t) (h : reverseStep s i t a = some s') : Idle s' := by
  cases a with
  | recv src data =>
      simp only [reverseStep, Option.ite_none_right_eq_some, Option.some.injEq] at h
      exact h.2 ▸ hs.set_running rfl rfl rfl (fun _ _ _ _ => rfl) rfl
  | recvError => cases herr
  | timer =>
      simp only [reverseStep, Option.ite_none_right_eq_some] at h
      obtain ⟨-, h⟩ := h
      split at h
      · rename_i hidle
        rw [Option.some.injEq] at h
        exact h ▸ hs.set_task rfl rfl rfl (fun _ _ _ _ => rfl) (fun _ => hidle)
          fun _ => hC t ht hidle
      · rw [Option.some.injEq] at h
        exact h ▸ hs
  | store =>
      simp only [reverseStep] at h
      split at h
      · rw [Option.some.injEq] at h
        subst h
        refine hs.set_running rfl rfl rfl ?_ rfl
        intro j u hij hu
        exact Function.update_of_ne (fun hout => hij (index_eq_of_out hreach hu ht hout)) _ _
      · cases h
  | send ok =>
      simp only [reverseStep] at h
      split at h
      · cases ok with
        | true =>
            rw [if_pos rfl, Option.some.injEq] at h
            exact h ▸ hs.set_running rfl rfl rfl (fun _ _ _ _ => rfl) rfl
        | false => cases herr
      · cases h
  | remove =>
      simp only [reverseStep, Option.ite_none_right_eq_some, Option.some.injEq] at h
      obtain ⟨hpc, rfl⟩ := h
      refine hs.set_task rfl rfl rfl (fun _ _ _ _ => rfl) (by simp) fun _ => ?_
      exact hs.unused i t ht (by rw [hpc]; rfl)

theorem idle_step {a : Act} (hreach : (machine targets).Reachable s) (hs : Idle s)
    (herr : a.socketError = false) (hC : Undisturbed s a) (h : step targets s a = some s') :
    Idle s' := by
  cases a with
  | tick ms =>
      simp only [step, Option.some.injEq] at h
      subst h
      refine ⟨fun i t ht hpc => ?_, hs.unused⟩
      have hidle := hs.removing i t ht hpc
      dsimp only
      omega
  | serve a => exact idle_serveStep hreach hs hC h
  | reverse i a =>
      obtain ⟨t, ht, h⟩ := Option.bind_eq_some_iff.mp h
      exact idle_reverseStep hreach hs herr hC ht h

theorem idle_run {as : List Act} (h : (machine targets).run (machine targets).init as = some s)
    (herr : ∀ a ∈ as, a.socketError = false)
    (hC : (machine targets).Meets Undisturbed (machine targets).init as) : Idle s := by
  have hinv := hC.invariant (I := fun s => (machine targets).Reachable s ∧ Idle s)
    (fun s a ha s' hs hCa hstep =>
      ⟨hs.1.step hstep, idle_step hs.1 hs.2 (herr a ha) hCa hstep⟩) h
  refine (hinv ⟨⟨[], rfl⟩, ?_, ?_⟩).2
  · intro i t ht
    simp [machine] at ht
  · intro i t ht
    simp [machine] at ht

/-- **An active session is not reaped, unless its use and its expiry overlap.** In every run
without socket errors in which they never do: a task removes its session only when nothing was
stored for it in the last `UDP_TTL`, and no datagram is sent on a session whose task has
decided to stop. -/
theorem no_active_session_reaped {as : List Act}
    (h : (machine targets).run (machine targets).init as = some s)
    (herr : ∀ a ∈ as, a.socketError = false)
    (hC : (machine targets).Meets Undisturbed (machine targets).init as) :
    (∀ i t s', s.tasks[i]? = some t → step targets s (.reverse i .remove) = some s' →
      udpTtl ≤ s.now - s.last t.out) ∧
    (∀ n out ok s', s.loop = .sending n out → step targets s (.serve (.send ok)) = some s' →
      ∀ t ∈ s.tasks, t.out = out → t.pc ≠ .removing ∧ t.pc ≠ .finished) := by
  have hidle := idle_run h herr hC
  constructor
  · intro i t s' ht hstep
    obtain ⟨u, hu, hremove⟩ := Option.bind_eq_some_iff.mp hstep
    rw [ht, Option.some.injEq] at hu
    subst hu
    simp only [reverseStep, Option.ite_none_right_eq_some] at hremove
    exact hidle.removing i t ht hremove.1
  · intro n out ok s' hloop _ t ht hout
    obtain ⟨i, hi⟩ := List.getElem?_of_mem ht
    have hstopping : t.pc.stopping ≠ true := by
      intro hpc
      refine hidle.unused i t hi hpc ?_
      rw [hloop, hout]
      rfl
    constructor
    · intro hpc
      exact hstopping (by rw [hpc]; rfl)
    · intro hpc
      exact hstopping (by rw [hpc]; rfl)

/-! ## A client that is silent for a minute -/

def client : SocketAddr := ⟨.v4 ⟨10, 0, 0, 1⟩, 4000, 0⟩

def silentTargets : List Str := ["9.9.9.9:53".toList]

/-- The client's first datagram opens a session, and a minute later its task decides. -/
def silentMinute : List Act :=
  [.serve (.recv client [1]), .serve .lookup, .serve (.openSession (.ok []) fun _ => none),
    .serve .insert, .serve .store, .serve (.send true), .tick 60000, .reverse 0 .timer]

/-- The state after that minute. -/
def silentState : State :=
  ((machine silentTargets).run (machine silentTargets).init silentMinute).get rfl

theorem run_silentMinute :
    (machine silentTargets).run (machine silentTargets).init silentMinute = some silentState :=
  (Option.some_get _).symm

/-- The silent session may be removed. -/
theorem no_active_session_reaped_silent :
    ∃ t s', silentState.tasks[0]? = some t ∧
      step silentTargets silentState (.reverse 0 .remove) = some s' ∧
      udpTtl ≤ silentState.now - silentState.last t.out := by
  have hmeets : (machine silentTargets).Meets Undisturbed (machine silentTargets).init
      silentMinute := by
    refine .cons trivial rfl (.cons ?_ rfl (.cons trivial rfl (.cons trivial rfl (.cons trivial rfl
      (.cons trivial rfl (.cons trivial rfl ⟨?_, fun _ _ => trivial⟩))))))
    · intro n peer _ t ht
      cases ht
    · intro t _ _
      exact (Option.some_ne_none _).symm
  obtain ⟨t, s', ht, hremove⟩ : ∃ t s', silentState.tasks[0]? = some t ∧
      step silentTargets silentState (.reverse 0 .remove) = some s' := ⟨_, _, rfl, rfl⟩
  exact ⟨t, s', ht, hremove,
    (no_active_session_reaped run_silentMinute (by decide) hmeets).1 0 t s' ht hremove⟩

/-- Another datagram of the client, on its way through the loop. -/
def laterDatagram : List Act :=
  [.serve (.recv client [2]), .serve .lookup, .serve .store, .serve (.send true)]

/-- A datagram that arrives between the decision and the removal is forwarded on the session,
and the session is removed in the same millisecond. -/
theorem active_session_reaped :
    (∀ a ∈ silentMinute ++ laterDatagram, a.socketError = false) ∧
      (machine silentTargets).run (machine silentTargets).init silentMinute = some silentState ∧
      ∃ t, silentState.tasks[0]? = some t ∧ t.pc = .removing ∧
        silentState.forwarded.map Forwarded.out = [t.out] ∧
        ∃ s s', (machine silentTargets).run silentState laterDatagram = some s ∧
          s.forwarded.map Forwarded.out = [t.out, t.out] ∧
          s.tasks[0]? = some t ∧ step silentTargets s (.reverse 0 .remove) = some s' ∧
          s.now - s.last t.out < udpTtl := by
  refine ⟨by decide, run_silentMinute, ⟨client, 0, List.replicate udpBuf 0, .removing⟩, rfl, rfl,
    rfl, ?_⟩
  obtain ⟨s, s', hrun, hsent, ht, hremove, hnow, hlast⟩ : ∃ s s',
      (machine silentTargets).run silentState laterDatagram = some s ∧
      s.forwarded.map Forwarded.out = [0, 0] ∧
      s.tasks[0]? = some ⟨client, 0, List.replicate udpBuf 0, .removing⟩ ∧
      step silentTargets s (.reverse 0 .remove) = some s' ∧
      s.now = 60000 ∧ s.last 0 = 60000 := ⟨_, _, rfl, rfl, rfl, rfl, rfl, rfl⟩
  refine ⟨s, s', hrun, hsent, ht, hremove, ?_⟩
  rw [hnow, hlast]
  decide

end Gust.Udp
