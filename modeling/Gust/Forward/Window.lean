import Gust.Forward.Udp

/-!
# How long a silent session lives

The loop of a reverse task, as the clock sees it. A datagram of the client stores the time
and leaves the timer alone; a reply of the target stores the time and arms the timer again;
the timer fires `UDP_TTL` after it was armed, and either ends the loop or is armed again.
Sends take no time and do not fail, and a session is removed in the millisecond in which
its task decides.

As the timer is not armed when the client sends, it may fire early for the session, and
then has to run once more. The time of the last arming is therefore less than `UDP_TTL`
behind the last activity, and that bounds the silence at the end (`idle_window`). What the
loop does here are runs of the whole forwarder (`exists_run_of_lifetime`).
-/

namespace Gust.Udp

open Gust.Lib

/-- The loop of a reverse task. -/
structure Lifetime where
  /-- When the last thing happened. -/
  now : ℕ
  /-- When the timer was last armed. -/
  armed : ℕ
  /-- `last_activity`. -/
  last : ℕ
  ended : Bool
  deriving DecidableEq, Repr

inductive Event
  | client
  | reply
  | timer
  deriving DecidableEq, Repr

/-- An event at time `t`. Time does not run backwards, the timer fires on time, and nothing
happens to a session that has ended. -/
def Lifetime.step (l : Lifetime) (t : ℕ) (e : Event) : Option Lifetime :=
  if l.ended = true ∨ t < l.now ∨ l.armed + udpTtl < t then none
  else
    match e with
    | .client => some { l with now := t, last := t }
    | .reply => some { l with now := t, last := t, armed := t }
    | .timer =>
        if t ≠ l.armed + udpTtl then none
        else if udpTtl ≤ t - l.last then some { l with now := t, ended := true }
        else some { l with now := t, armed := t }

/-- A session from its creation on. -/
def lifetime (created : ℕ) : Machine Lifetime (ℕ × Event) where
  init := ⟨created, created, created, false⟩
  step l e := l.step e.1 e.2

/-- At every event of the trace the client has been silent for less than `UDP_TTL`, since
its latest datagram or, before that, since `heard`. -/
def KeepsTalking : (heard : ℕ) → List (ℕ × Event) → Prop
  | _, [] => True
  | heard, (t, .client) :: as => t < heard + udpTtl ∧ KeepsTalking t as
  | heard, (t, _) :: as => t < heard + udpTtl ∧ KeepsTalking heard as

variable {l l' : Lifetime} {t created : ℕ} {e : Event}

/-- What an event does. -/
theorem Lifetime.step_cases (h : l.step t e = some l') :
    l.ended = false ∧ l.now ≤ t ∧ t ≤ l.armed + udpTtl ∧
      (e = .client ∧ l' = { l with now := t, last := t } ∨
        e = .reply ∧ l' = { l with now := t, last := t, armed := t } ∨
        e = .timer ∧ t = l.armed + udpTtl ∧
          (udpTtl ≤ t - l.last ∧ l' = { l with now := t, ended := true } ∨
            t - l.last < udpTtl ∧ l' = { l with now := t, armed := t })) := by
  unfold Lifetime.step at h
  split at h
  · cases h
  rename_i hlive
  rw [not_or, not_or, Bool.not_eq_true, Nat.not_lt, Nat.not_lt] at hlive
  refine ⟨hlive.1, hlive.2.1, hlive.2.2, ?_⟩
  cases e with
  | client => exact .inl ⟨rfl, (Option.some.inj h).symm⟩
  | reply => exact .inr (.inl ⟨rfl, (Option.some.inj h).symm⟩)
  | timer =>
      simp only [ne_eq, ite_not, Option.ite_none_right_eq_some] at h
      obtain ⟨htime, h⟩ := h
      refine .inr (.inr ⟨rfl, htime, ?_⟩)
      split at h
      · rename_i hidle
        exact .inl ⟨hidle, (Option.some.inj h).symm⟩
      · rename_i hidle
        exact .inr ⟨Nat.not_le.mp hidle, (Option.some.inj h).symm⟩

/-- The timer was armed less than `UDP_TTL` behind the last activity. -/
structure Lifetime.Inv (l : Lifetime) : Prop where
  last_le : l.last ≤ l.now
  armed_lt : l.armed < l.last + udpTtl
  ended : l.ended = true → udpTtl ≤ l.now - l.last ∧ l.now - l.last < 2 * udpTtl

theorem Lifetime.inv_step (hl : l.Inv) (h : l.step t e = some l') : l'.Inv := by
  obtain ⟨hlive, hnow, htime, hcases⟩ := step_cases h
  have hlast := hl.last_le
  have harmed := hl.armed_lt
  have httl : 0 < udpTtl := by decide
  have hnot : ∀ {p : Prop}, l.ended = true → p := by
    intro p hended
    rw [hlive] at hended
    cases hended
  obtain ⟨rfl, rfl⟩ | ⟨rfl, rfl⟩ | ⟨rfl, rfl, ⟨hidle, rfl⟩ | ⟨hbusy, rfl⟩⟩ := hcases
  · exact ⟨le_rfl, by dsimp only; omega, hnot⟩
  · exact ⟨le_rfl, by dsimp only; omega, hnot⟩
  · exact ⟨by dsimp only; omega, harmed, fun _ => ⟨hidle, by dsimp only; omega⟩⟩
  · exact ⟨by dsimp only; omega, by dsimp only; omega, hnot⟩

theorem Lifetime.inv_init : (lifetime created).init.Inv := by
  refine ⟨le_rfl, ?_, nofun⟩
  have httl : 0 < udpTtl := by decide
  exact Nat.lt_add_of_pos_right httl

theorem inv_lifetime {as : List (ℕ × Event)}
    (h : (lifetime created).run (lifetime created).init as = some l) : l.Inv :=
  Machine.run_invariant (I := Lifetime.Inv) (fun _ _ _ hl h => Lifetime.inv_step hl h) h
    Lifetime.inv_init

/-- A client that keeps talking keeps its session. -/
theorem not_ended_of_keepsTalking {as : List (ℕ × Event)} {heard : ℕ}
    (htalk : KeepsTalking heard as) (hl : l.Inv) (hheard : heard ≤ l.last) (hlive : l.ended = false)
    (h : (lifetime created).run l as = some l') : l'.ended = false := by
  induction as generalizing heard l with
  | nil => exact Option.some.inj h ▸ hlive
  | cons a as ih =>
      obtain ⟨t, e⟩ := a
      obtain ⟨r, hr, hrest⟩ := Machine.run_cons_iff.mp h
      have hr' := Lifetime.inv_step hl hr
      have hlast := hl.last_le
      obtain ⟨-, hnow, -, hcases⟩ := Lifetime.step_cases hr
      have hlt : t < heard + udpTtl := by
        cases e <;> exact htalk.1
      obtain ⟨rfl, rfl⟩ | ⟨rfl, rfl⟩ | ⟨rfl, -, ⟨hidle, rfl⟩ | ⟨-, rfl⟩⟩ := hcases
      · exact ih (l := { l with now := t, last := t }) htalk.2 hr' le_rfl hlive hrest
      · exact ih (l := { l with now := t, last := t, armed := t }) htalk.2 hr'
          (hheard.trans (hlast.trans hnow)) hlive hrest
      · dsimp only at hidle
        omega
      · exact ih (l := { l with now := t, armed := t }) htalk.2 hr' hheard hlive hrest

/-- **The window of idle expiry.** For every trace: if the loop has ended, then between
`UDP_TTL` and twice `UDP_TTL` after the last activity; a timer that finds the session idle
for less than `UDP_TTL` keeps it alive; and so does a client whose gaps stay below
`UDP_TTL`, with or without replies. -/
theorem idle_window {as : List (ℕ × Event)}
    (h : (lifetime created).run (lifetime created).init as = some l) :
    (l.ended = true → l.last ≤ l.now ∧ udpTtl ≤ l.now - l.last ∧ l.now - l.last < 2 * udpTtl) ∧
    (∀ t l', l.step t .timer = some l' → t - l.last < udpTtl → l'.ended = false) ∧
    (KeepsTalking created as → l.ended = false) := by
  have hl := inv_lifetime h
  refine ⟨?_, ?_, ?_⟩
  · intro hended
    exact ⟨hl.last_le, hl.ended hended⟩
  · intro t l' hstep hbusy
    obtain ⟨hlive, -, -, hcases⟩ := Lifetime.step_cases hstep
    obtain ⟨he, -⟩ | ⟨he, -⟩ | ⟨-, -, ⟨hidle, -⟩ | ⟨-, rfl⟩⟩ := hcases
    · cases he
    · cases he
    · omega
    · exact hlive
  · intro htalk
    exact not_ended_of_keepsTalking htalk Lifetime.inv_init le_rfl rfl h

/-- One datagram a second after the session is opened: the first timer lets it live, the
second ends it, almost two minutes after the datagram. -/
theorem idle_window_late :
    ∃ l, (lifetime 0).run (lifetime 0).init
        [(1000, .client), (60000, .timer), (120000, .timer)] = some l ∧
      l.ended = true ∧ l.now - l.last = 119000 ∧ l.now - l.last < 2 * udpTtl := by
  obtain ⟨l, hrun, hended, hgap⟩ : ∃ l, (lifetime 0).run (lifetime 0).init
        [(1000, .client), (60000, .timer), (120000, .timer)] = some l ∧
      l.ended = true ∧ l.now - l.last = 119000 := ⟨_, rfl, rfl, rfl⟩
  exact ⟨l, hrun, hended, hgap, ((idle_window hrun).1 hended).2.2⟩

/-! ## Runs of the forwarder -/

/-- The session of task `i` is where its lifetime says, with the serve loop at its start. -/
structure Lives (s : State) (i out : ℕ) (peer : SocketAddr) (l : Lifetime) : Prop where
  now : s.now = l.now
  loop : s.loop = .receiving
  last : s.last out = l.last
  outbound : ∃ o, s.outs[out]? = some o
  task : ∃ buf, s.tasks[i]? = some ⟨peer, out, buf, if l.ended then .finished else .receiving⟩
  session : s.sessions peer = if l.ended then none else some out

variable {targets : List Str} {s : State} {i out : ℕ} {peer : SocketAddr}

theorem run_of_step {a : Act} {s' s'' : State} {as : List Act} (h : step targets s a = some s')
    (hrest : (machine targets).run s' as = some s'') :
    (machine targets).run s (a :: as) = some s'' :=
  Machine.run_cons_iff.mpr ⟨s', h, hrest⟩

theorem step_store {n : ℕ} (hloop : s.loop = .storing n out) :
    step targets s (.serve .store) =
      some { s with loop := .sending n out, last := Function.update s.last out s.now } := by
  simp [step, serveStep, hloop]

theorem step_send {n : ℕ} {o : Outbound} (hloop : s.loop = .sending n out)
    (ho : s.outs[out]? = some o) :
    step targets s (.serve (.send true)) = some { s with
      loop := .receiving, forwarded := s.forwarded ++ [⟨out, o.addr, s.buf.take n⟩] } := by
  simp [step, serveStep, hloop, sendStep, ho]

variable (targets)

/-- Time passes until the event. -/
theorem Lives.tick (hs : Lives s i out peer l) (ht : l.now ≤ t) :
    Udp.step targets s (.tick (t - l.now)) = some { s with now := t } ∧
      Lives { s with now := t } i out peer { l with now := t } := by
  have hnow : s.now + (t - l.now) = t := by
    rw [hs.now]
    omega
  refine ⟨by rw [step, hnow], ?_⟩
  exact ⟨rfl, hs.loop, hs.last, hs.outbound, hs.task, hs.session⟩

/-- A datagram of the client on its way through the loop. -/
theorem Lives.client (hs : Lives s i out peer l) (hlive : l.ended = false) :
    ∃ s', (machine targets).run s [.serve (.recv peer []), .serve .lookup, .serve .store,
        .serve (.send true)] = some s' ∧ Lives s' i out peer { l with last := l.now } := by
  obtain ⟨o, ho⟩ := hs.outbound
  have hsession : s.sessions peer = some out := by
    rw [hs.session, hlive]
    rfl
  have hrecv : step targets s (.serve (.recv peer [])) = some { s with
      loop := .lookingUp (filled s.buf []) peer
      buf := fill s.buf []
      received := s.received ++ [(peer, [])] } := if_pos hs.loop
  have hlookup : step targets { s with
        loop := .lookingUp (filled s.buf []) peer
        buf := fill s.buf []
        received := s.received ++ [(peer, [])] } (.serve .lookup) = some { s with
      loop := .storing (filled s.buf []) out
      buf := fill s.buf []
      received := s.received ++ [(peer, [])] } := by
    simp [step, serveStep, lookupStep, hsession]
  refine ⟨_, run_of_step hrecv (run_of_step hlookup (run_of_step (step_store rfl)
    (run_of_step (step_send rfl ho) rfl))), ?_⟩
  refine ⟨hs.now, rfl, ?_, ⟨o, ho⟩, hs.task, hs.session⟩
  exact (Function.update_self out s.now s.last).trans hs.now

/-- A reply on its way through the task. -/
theorem Lives.reply (hs : Lives s i out peer l) (hlive : l.ended = false) :
    ∃ src s', (machine targets).run s [.reverse i (.recv src []), .reverse i .store,
        .reverse i (.send true)] = some s' ∧ Lives s' i out peer { l with last := l.now } := by
  obtain ⟨o, ho⟩ := hs.outbound
  obtain ⟨buf, htask⟩ := hs.task
  rw [hlive] at htask
  have hset : ∀ u, (s.tasks.set i u)[i]? = some u := getElem?_set_of_getElem? htask
  have hrecv : step targets s (.reverse i (.recv o.addr [])) = some { s with
      tasks := s.tasks.set i ⟨peer, out, fill buf [], .storing (filled buf [])⟩
      replies := s.replies ++ [⟨out, o.addr, []⟩] } := by
    simp [step, htask, reverseStep, ho]
  have hstore : step targets { s with
        tasks := s.tasks.set i ⟨peer, out, fill buf [], .storing (filled buf [])⟩
        replies := s.replies ++ [⟨out, o.addr, []⟩] } (.reverse i .store) = some { s with
      tasks := s.tasks.set i ⟨peer, out, fill buf [], .sending (filled buf [])⟩
      replies := s.replies ++ [⟨out, o.addr, []⟩]
      last := Function.update s.last out s.now } := by
    simp [step, hset, reverseStep, State.setPc]
  have hsend : step targets { s with
        tasks := s.tasks.set i ⟨peer, out, fill buf [], .sending (filled buf [])⟩
        replies := s.replies ++ [⟨out, o.addr, []⟩]
        last := Function.update s.last out s.now } (.reverse i (.send true)) = some { s with
      tasks := s.tasks.set i ⟨peer, out, fill buf [], .receiving⟩
      replies := s.replies ++ [⟨out, o.addr, []⟩]
      last := Function.update s.last out s.now
      returned := s.returned ++ [(peer, (fill buf []).take (filled buf []))] } := by
    simp [step, hset, reverseStep, State.setPc]
  refine ⟨o.addr, _, run_of_step hrecv (run_of_step hstore (run_of_step hsend rfl)), ?_⟩
  refine ⟨hs.now, hs.loop, ?_, ⟨o, ho⟩, ⟨fill buf [], ?_⟩, hs.session⟩
  · exact (Function.update_self out s.now s.last).trans hs.now
  · rw [hlive]
    exact hset _

/-- The timer fires for a session that is idle. -/
theorem Lives.expire (hs : Lives s i out peer l) (hlive : l.ended = false)
    (hidle : udpTtl ≤ l.now - l.last) :
    ∃ s', (machine targets).run s [.reverse i .timer, .reverse i .remove] = some s' ∧
      Lives s' i out peer { l with ended := true } := by
  obtain ⟨buf, htask⟩ := hs.task
  rw [hlive] at htask
  rw [← hs.now, ← hs.last] at hidle
  have hset : ∀ u, (s.tasks.set i u)[i]? = some u := getElem?_set_of_getElem? htask
  have htimer : step targets s (.reverse i .timer) =
      some { s with tasks := s.tasks.set i ⟨peer, out, buf, .removing⟩ } := by
    simp [step, htask, reverseStep, hidle, State.setPc]
  have hremove : step targets { s with tasks := s.tasks.set i ⟨peer, out, buf, .removing⟩ }
      (.reverse i .remove) = some { s with
        tasks := s.tasks.set i ⟨peer, out, buf, .finished⟩
        sessions := Function.update s.sessions peer none } := by
    simp [step, hset, reverseStep, State.setPc]
  refine ⟨_, run_of_step htimer (run_of_step hremove rfl), ?_⟩
  refine ⟨hs.now, hs.loop, hs.last, hs.outbound, ⟨buf, hset _⟩, ?_⟩
  simp

/-- The timer fires for a session that is not. -/
theorem Lives.rearm (hs : Lives s i out peer l) (hlive : l.ended = false)
    (hbusy : l.now - l.last < udpTtl) : step targets s (.reverse i .timer) = some s := by
  obtain ⟨buf, htask⟩ := hs.task
  rw [hlive] at htask
  rw [← hs.now, ← hs.last, ← Nat.not_le] at hbusy
  simp [step, htask, reverseStep, hbusy]

/-- When the timer was armed is not part of the forwarder's state. -/
theorem Lives.setArmed (hs : Lives s i out peer l) (armed : ℕ) :
    Lives s i out peer { l with armed := armed } :=
  ⟨hs.now, hs.loop, hs.last, hs.outbound, hs.task, hs.session⟩

/-- Every event is a run of the forwarder. -/
theorem Lives.step (hs : Lives s i out peer l) (h : l.step t e = some l') :
    ∃ as s', (machine targets).run s as = some s' ∧ Lives s' i out peer l' := by
  obtain ⟨hlive, hnow, -, hcases⟩ := Lifetime.step_cases h
  obtain ⟨htick, hs⟩ := hs.tick targets hnow
  obtain ⟨rfl, rfl⟩ | ⟨rfl, rfl⟩ | ⟨rfl, -, ⟨hidle, rfl⟩ | ⟨hbusy, rfl⟩⟩ := hcases
  · obtain ⟨s', hrun, hs'⟩ := hs.client targets hlive
    exact ⟨_, s', run_of_step htick hrun, hs'⟩
  · obtain ⟨src, s', hrun, hs'⟩ := hs.reply targets hlive
    exact ⟨_, s', run_of_step htick hrun, hs'.setArmed t⟩
  · obtain ⟨s', hrun, hs'⟩ := hs.expire targets hlive hidle
    exact ⟨_, s', run_of_step htick hrun, hs'⟩
  · have hrearm : (machine targets).run { s with now := t } [.reverse i .timer] =
        some { s with now := t } := run_of_step (hs.rearm targets hlive hbusy) rfl
    exact ⟨_, _, run_of_step htick hrearm, hs.setArmed t⟩

/-- A session that has just been opened. -/
theorem lives_of_inserting {n : ℕ} {o : Outbound} (hloop : s.loop = .inserting n peer out)
    (ho : s.outs[out]? = some o) :
    ∃ s', (machine targets).run s [.serve .insert, .serve .store, .serve (.send true)] = some s' ∧
      Lives s' s.tasks.length out peer (lifetime s.now).init := by
  have hinsert : Udp.step targets s (.serve .insert) = some { s with
      loop := .storing n out
      sessions := Function.update s.sessions peer (some out)
      tasks := s.tasks ++ [⟨peer, out, List.replicate udpBuf 0, .receiving⟩] } := by
    simp [Udp.step, serveStep, hloop]
  refine ⟨_, run_of_step hinsert (run_of_step (step_store rfl)
    (run_of_step (step_send rfl ho) rfl)), ?_⟩
  refine ⟨rfl, rfl, ?_, ⟨o, ho⟩, ⟨List.replicate udpBuf 0, ?_⟩, ?_⟩
  · simp [lifetime]
  · simp [lifetime]
  · simp [lifetime]

/-- **Lifetimes are runs.** From the insertion of a session on, everything that can happen to
its lifetime happens in some run of the forwarder, which agrees on the time, on
`last_activity` and on whether the session has ended. -/
theorem exists_run_of_lifetime {n : ℕ} {o : Outbound} (hloop : s.loop = .inserting n peer out)
    (ho : s.outs[out]? = some o) {events : List (ℕ × Event)}
    (h : (lifetime s.now).run (lifetime s.now).init events = some l) :
    ∃ as s', (machine targets).run s as = some s' ∧ Lives s' s.tasks.length out peer l := by
  obtain ⟨s₁, hrun₁, hs₁⟩ := lives_of_inserting targets hloop ho
  refine Machine.run_invariant (I := fun l => ∃ as s', (machine targets).run s as = some s' ∧
    Lives s' s.tasks.length out peer l) ?_ h ⟨_, s₁, hrun₁, hs₁⟩
  rintro l ⟨t, e⟩ l' ⟨as, s', hrun, hs'⟩ hstep
  obtain ⟨bs, s'', hrun', hs''⟩ := hs'.step targets hstep
  exact ⟨as ++ bs, s'', Machine.run_append_iff.mpr ⟨s', hrun, hrun'⟩, hs''⟩

end Gust.Udp
