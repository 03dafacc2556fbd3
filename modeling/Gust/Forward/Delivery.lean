import Gust.Forward.Udp

/-!
# What becomes of every datagram

A client's datagram is in the hand of the serve loop until it has met a fate: it is sent
on, or lost because no session could be opened, the send failed, or the listener was
stopped in between. There is one hand, so the datagrams meet their fates in the order in
which they came in, and what has been forwarded is the received datagrams of good fate, in
that order (`datagrams_settled`).

In the other direction each session has a task and a hand of its own, and a client has
one session after another. Only one of its tasks is ever unfinished, so the account holds
for each client across all its sessions (`replies_settled`): a reply of an earlier session
is never overtaken by one of a later session.
-/

namespace Gust.Udp

open Gust.Lib

variable {targets : List Str} {s s' : State}

/-! ## From the clients -/

inductive Fate
  | forwarded
  | sendFailed
  /-- No session could be opened. -/
  | openFailed
  /-- There was no target to pick, which panics. -/
  | noTarget
  /-- The listener was stopped in between. -/
  | aborted
  deriving DecidableEq, Repr

def Fate.good (f : Fate) : Bool := f == .forwarded

/-- The fate that a step decides, of the datagram at hand. -/
def fate (targets : List Str) (s : State) : Act → Option Fate
  | .serve .lookup =>
      match s.loop with
      | .lookingUp _ peer =>
          if s.sessions peer = none ∧ pickTarget targets s.rr = none then some .noTarget else none
      | _ => none
  | .serve (.openSession lookup bindConnected) =>
      match s.loop with
      | .opening _ _ target =>
          match newSession lookup bindConnected target with
          | .ok _ => none
          | _ => some .openFailed
      | _ => none
  | .serve (.send ok) => some (if ok then .forwarded else .sendFailed)
  | .serve .abort =>
      match s.loop with
      | .opening _ _ _ | .sending _ _ => some .aborted
      | _ => none
  | _ => none

/-- What a receive takes of a datagram. -/
def clip (d : SocketAddr × Payload) : SocketAddr × Payload := (d.1, d.2.take udpBuf)

/-- The datagram at hand, with its client. -/
def State.atHand (s : State) : List (SocketAddr × Payload) :=
  match s.loop with
  | .lookingUp n peer | .opening n peer _ | .inserting n peer _ => [(peer, s.buf.take n)]
  | .storing n out | .sending n out =>
      (s.outs[out]?).toList.map fun o => (o.peer, s.buf.take n)
  | _ => []

/-- The datagram was sent on a socket of its client, to where that is connected. -/
def Carries (s : State) (f : Forwarded) (d : SocketAddr × Payload) : Prop :=
  ∃ o, s.outs[f.out]? = some o ∧ o.peer = d.1 ∧ f.dest = o.addr ∧ f.payload = d.2

/-- The account of the clients' datagrams. -/
def Accounted (fates : List Fate) (s : State) : Prop :=
  ∃ put, List.Forall₂ (Carries s) s.forwarded put ∧
    Settled Fate.good (s.received.map clip) s.atHand fates put

theorem length_atHand_le (s : State) : s.atHand.length ≤ 1 := by
  rw [State.atHand]
  split <;> simp [Option.length_toList_le]

theorem atHand_of_getElem? {n out : ℕ} {o : Outbound}
    (hloop : s.loop = .storing n out ∨ s.loop = .sending n out) (ho : s.outs[out]? = some o) :
    s.atHand = [(o.peer, s.buf.take n)] := by
  obtain hloop | hloop := hloop <;> simp [State.atHand, hloop, ho]

theorem Carries.mono (houts : s.outs <+: s'.outs) {f : Forwarded} {d : SocketAddr × Payload}
    (h : Carries s f d) : Carries s' f d := by
  obtain ⟨o, ho, hcarries⟩ := h
  obtain ⟨rest, hrest⟩ := houts
  refine ⟨o, ?_, hcarries⟩
  rw [← hrest, List.getElem?_append_left (List.getElem?_eq_some_iff.mp ho).1, ho]

namespace Accounted

variable {fates : List Fate}

/-- A step that leaves the hand and the logs leaves the account. -/
theorem mono (h : Accounted fates s) (houts : s.outs <+: s'.outs)
    (hreceived : s'.received = s.received) (hforwarded : s'.forwarded = s.forwarded)
    (hhand : s'.atHand = s.atHand) : Accounted fates s' := by
  obtain ⟨put, hput, hsettled⟩ := h
  refine ⟨put, ?_, ?_⟩
  · rw [hforwarded]
    exact hput.imp fun f d hcarries => hcarries.mono houts
  · rwa [hreceived, hhand]

/-- The loop gives the datagram at hand up. -/
theorem giveUp (h : Accounted fates s) {x : SocketAddr × Payload} {f : Fate} {loop : Loop}
    (hhand : s.atHand = [x]) (hf : f.good = false) (hloop : loop = .receiving ∨ loop = .stopped) :
    Accounted (fates ++ [f]) { s with loop := loop } := by
  obtain ⟨put, hput, hsettled⟩ := h
  rw [hhand] at hsettled
  have hnone : ({ s with loop := loop } : State).atHand = [] := by
    obtain rfl | rfl := hloop <;> rfl
  refine ⟨put, hput, ?_⟩
  rw [hnone]
  exact hsettled.lose hf

theorem received (h : Accounted fates s) (hbuf : s.buf.length = udpBuf)
    (hloop : s.loop = .receiving) (peer : SocketAddr) (data : Payload) :
    Accounted fates { s with
      loop := .lookingUp (filled s.buf data) peer
      buf := fill s.buf data
      received := s.received ++ [(peer, data)] } := by
  obtain ⟨put, hput, hsettled⟩ := h
  have hhand : s.atHand = [] := by rw [State.atHand, hloop]
  rw [hhand] at hsettled
  refine ⟨put, hput, ?_⟩
  have htake : (fill s.buf data).take (filled s.buf data) = data.take udpBuf :=
    (take_filled_fill s.buf data).trans (by rw [hbuf])
  simp only [State.atHand, List.map_append, List.map_cons, List.map_nil, htake]
  exact hsettled.take _

theorem sent (h : Accounted fates s) {n out : ℕ} {o : Outbound} (hloop : s.loop = .sending n out)
    (ho : s.outs[out]? = some o) :
    Accounted (fates ++ [.forwarded]) { s with
      loop := .receiving, forwarded := s.forwarded ++ [⟨out, o.addr, s.buf.take n⟩] } := by
  obtain ⟨put, hput, hsettled⟩ := h
  rw [atHand_of_getElem? (.inr hloop) ho] at hsettled
  refine ⟨put ++ [(o.peer, s.buf.take n)], ?_, hsettled.pass rfl⟩
  exact List.rel_append hput (.cons ⟨o, ho, rfl, rfl, rfl⟩ .nil)

theorem lookedUp (h : Accounted fates s) (hs : Flow targets s) {n : ℕ} {peer : SocketAddr}
    (hloop : s.loop = .lookingUp n peer) :
    Accounted (fates ++ (fate targets s (.serve .lookup)).toList)
      (lookupStep targets s n peer) := by
  have hhand : s.atHand = [(peer, s.buf.take n)] := by rw [State.atHand, hloop]
  cases hsession : s.sessions peer with
  | some out =>
      obtain ⟨o, ho, rfl⟩ := hs.sessions peer out hsession
      have hfate : fate targets s (.serve .lookup) = none := by simp [fate, hloop, hsession]
      rw [hfate, Option.toList_none, List.append_nil, lookupStep, hsession]
      refine h.mono List.prefix_rfl rfl rfl ?_
      rw [hhand]
      exact atHand_of_getElem? (.inl rfl) ho
  | none =>
      cases hpick : pickTarget targets s.rr with
      | some picked =>
          have hfate : fate targets s (.serve .lookup) = none := by simp [fate, hloop, hpick]
          rw [hfate, Option.toList_none, List.append_nil, lookupStep, hsession, hpick]
          exact h.mono List.prefix_rfl rfl rfl hhand.symm
      | none =>
          have hfate : fate targets s (.serve .lookup) = some .noTarget := by
            simp [fate, hloop, hsession, hpick]
          rw [hfate, lookupStep, hsession, hpick]
          exact h.giveUp hhand rfl (.inr rfl)

theorem opened (h : Accounted fates s) {n : ℕ} {peer : SocketAddr} {target : Str}
    (hloop : s.loop = .opening n peer target) (lookup : Outcome IoError (List SocketAddr))
    (bindConnected : SocketAddr → Option IoError) :
    Accounted (fates ++ (fate targets s (.serve (.openSession lookup bindConnected))).toList)
      (openStep s n peer target (newSession lookup bindConnected target)) := by
  have hhand : s.atHand = [(peer, s.buf.take n)] := by rw [State.atHand, hloop]
  cases hnew : newSession lookup bindConnected target with
  | ok addr =>
      simp only [fate, hloop, hnew, Option.toList_none, List.append_nil]
      exact h.mono (List.prefix_append _ _) rfl rfl hhand.symm
  | _ =>
      simp only [fate, hloop, hnew, Option.toList_some]
      exact h.giveUp hhand rfl (.inl rfl)

/-- The loop is stopped where it awaits. -/
theorem aborted (h : Accounted fates s) (hs : Flow targets s) (hloop : s.loop.awaits = true) :
    Accounted (fates ++ (fate targets s (.serve .abort)).toList) { s with loop := .stopped } := by
  cases hcase : s.loop with
  | opening n peer target =>
      have hhand : s.atHand = [(peer, s.buf.take n)] := by rw [State.atHand, hcase]
      simp only [fate, hcase, Option.toList_some]
      exact h.giveUp hhand rfl (.inr rfl)
  | sending n out =>
      have hok := hs.loop
      simp only [LoopOk, hcase] at hok
      obtain ⟨peer, -, o, ho, rfl⟩ := hok
      simp only [fate, hcase, Option.toList_some]
      exact h.giveUp (atHand_of_getElem? (.inr hcase) ho) rfl (.inr rfl)
  | receiving | pausing =>
      simp only [fate, hcase, Option.toList_none, List.append_nil]
      refine h.mono List.prefix_rfl rfl rfl ?_
      simp only [State.atHand, hcase]
  | lookingUp n peer | inserting n peer out | storing n out | stopped =>
      simp [hcase, Loop.awaits] at hloop

/-- What does not go through the loop does not change its account. -/
theorem congr (h : Accounted fates s) (hloop : s'.loop = s.loop) (hbuf : s'.buf = s.buf)
    (houts : s'.outs = s.outs) (hreceived : s'.received = s.received)
    (hforwarded : s'.forwarded = s.forwarded) : Accounted fates s' := by
  refine h.mono (houts ▸ List.prefix_rfl) hreceived hforwarded ?_
  rw [State.atHand, State.atHand, hloop, hbuf, houts]

/-- A step that decides no fate. -/
theorem undecided {a : Act} (h : Accounted fates s') (hfate : fate targets s a = none) :
    Accounted (fates ++ (fate targets s a).toList) s' := by
  rwa [hfate, Option.toList_none, List.append_nil]

theorem serveStep (h : Accounted fates s) (hs : Flow targets s) {a : ServeAct}
    (hstep : serveStep targets s a = some s') :
    Accounted (fates ++ (fate targets s (.serve a)).toList) s' := by
  have hok := hs.loop
  cases a with
  | recv peer data =>
      simp only [Udp.serveStep, Option.ite_none_right_eq_some, Option.some.injEq] at hstep
      obtain ⟨hloop, rfl⟩ := hstep
      exact (h.received hs.buf hloop peer data).undecided rfl
  | recvError | resume | shutdown =>
      simp only [Udp.serveStep, Option.ite_none_right_eq_some, Option.some.injEq] at hstep
      obtain ⟨hloop, rfl⟩ := hstep
      refine undecided (h.mono List.prefix_rfl rfl rfl ?_) rfl
      simp only [State.atHand, hloop]
  | abort =>
      simp only [Udp.serveStep, Option.ite_none_right_eq_some, Option.some.injEq] at hstep
      obtain ⟨hloop, rfl⟩ := hstep
      exact h.aborted hs hloop
  | lookup =>
      simp only [Udp.serveStep] at hstep
      split at hstep
      · rename_i n peer hloop
        exact Option.some.inj hstep ▸ h.lookedUp hs hloop
      · cases hstep
  | openSession lookup bindConnected =>
      simp only [Udp.serveStep] at hstep
      split at hstep
      · rename_i n peer target hloop
        exact Option.some.inj hstep ▸ h.opened hloop lookup bindConnected
      · cases hstep
  | insert =>
      simp only [Udp.serveStep] at hstep
      split at hstep
      · rename_i n peer out hloop
        obtain rfl := Option.some.inj hstep
        simp only [LoopOk, hloop] at hok
        obtain ⟨-, o, ho, rfl⟩ := hok
        refine undecided (h.mono List.prefix_rfl rfl rfl ?_) rfl
        simp only [State.atHand, hloop, ho, Option.toList_some, List.map_cons, List.map_nil]
      · cases hstep
  | store =>
      simp only [Udp.serveStep] at hstep
      split at hstep
      · rename_i n out hloop
        obtain rfl := Option.some.inj hstep
        refine undecided (h.mono List.prefix_rfl rfl rfl ?_) rfl
        simp only [State.atHand, hloop]
      · cases hstep
  | send ok =>
      simp only [Udp.serveStep] at hstep
      split at hstep
      · rename_i n out hloop
        obtain rfl := Option.some.inj hstep
        simp only [LoopOk, hloop] at hok
        obtain ⟨peer, -, o, ho, rfl⟩ := hok
        cases ok with
        | true =>
            simp only [sendStep, ho]
            exact h.sent hloop ho
        | false =>
            simp only [sendStep]
            exact h.giveUp (atHand_of_getElem? (.inr hloop) ho) rfl (.inl rfl)
      · cases hstep

end Accounted

/-- A reverse task leaves the serve loop and what it works on alone. -/
theorem reverseStep_loop {i : ℕ} {t : Reverse} {a : ReverseAct}
    (h : reverseStep s i t a = some s') :
    s'.loop = s.loop ∧ s'.buf = s.buf ∧ s'.outs = s.outs ∧ s'.received = s.received ∧
      s'.forwarded = s.forwarded := by
  cases a <;> simp only [reverseStep] at h <;> (repeat' split at h) <;> cases h <;>
    exact ⟨rfl, rfl, rfl, rfl, rfl⟩

theorem accounted_step {fates : List Fate} {a : Act} (h : Accounted fates s)
    (hs : Flow targets s) (hstep : step targets s a = some s') :
    Accounted (fates ++ (fate targets s a).toList) s' := by
  cases a with
  | tick ms =>
      obtain rfl := Option.some.inj hstep
      exact (h.congr rfl rfl rfl rfl rfl).undecided rfl
  | serve a => exact h.serveStep hs hstep
  | reverse i a =>
      obtain ⟨t, ht, hstep⟩ := Option.bind_eq_some_iff.mp hstep
      obtain ⟨hloop, hbuf, houts, hreceived, hforwarded⟩ := reverseStep_loop hstep
      exact (h.congr hloop hbuf houts hreceived hforwarded).undecided rfl

/-- **Every client datagram meets one fate, in the order of arrival.** Those received are
those that have met a fate and then at most one at hand; those sent on are exactly those
whose fate was to be forwarded, in the order of arrival, each once, on a socket of its
client. So what is forwarded is a subsequence of what came in, and all of it when nothing
failed. -/
theorem datagrams_settled {as : List Act}
    (h : (machine targets).run (machine targets).init as = some s) :
    ∃ put, List.Forall₂ (Carries s) s.forwarded put ∧
      Settled Fate.good (s.received.map clip) s.atHand
        ((machine targets).outputs (fate targets) (machine targets).init as) put ∧
      s.atHand.length ≤ 1 ∧ put.Sublist (s.received.map clip) ∧
      ((∀ f ∈ (machine targets).outputs (fate targets) (machine targets).init as,
        f = .forwarded) → s.received.map clip = put ++ s.atHand) := by
  have hinit : Flow targets (machine targets).init ∧ Accounted [] (machine targets).init :=
    ⟨flow ⟨[], rfl⟩, [], .nil, .start⟩
  have hrun : Flow targets s ∧
      Accounted ((machine targets).outputs (fate targets) (machine targets).init as) s :=
    Machine.run_outputs_invariant (I := fun fates s => Flow targets s ∧ Accounted fates s) hinit
      (fun fates s a t hs hstep => ⟨flow_step s a t hs.1 hstep, accounted_step hs.2 hs.1 hstep⟩) h
  obtain ⟨-, put, hput, hsettled⟩ := hrun
  refine ⟨put, hput, hsettled, length_atHand_le s, hsettled.sublist, fun hgood => ?_⟩
  exact hsettled.eq_append fun f hf => by rw [hgood f hf]; rfl

/-- Of three datagrams of a client, one is sent on, one is lost and one is at hand. -/
theorem datagrams_settled_one_lost :
    ∃ as s, (machine ["9.9.9.9:53".toList]).run (machine ["9.9.9.9:53".toList]).init as = some s ∧
      s.received.length = 3 ∧ s.forwarded.length = 1 ∧ s.atHand.length = 1 ∧
      (machine ["9.9.9.9:53".toList]).outputs (fate ["9.9.9.9:53".toList])
        (machine ["9.9.9.9:53".toList]).init as = [.forwarded, .sendFailed] ∧
      ∃ put, List.Forall₂ (Carries s) s.forwarded put ∧
        Settled Fate.good (s.received.map clip) s.atHand
          ((machine ["9.9.9.9:53".toList]).outputs (fate ["9.9.9.9:53".toList])
            (machine ["9.9.9.9:53".toList]).init as) put := by
  let as : List Act := [.serve (.recv ⟨.v4 ⟨10, 0, 0, 1⟩, 4000, 0⟩ [1, 2, 3]), .serve .lookup,
    .serve (.openSession (.ok []) fun _ => none), .serve .insert, .serve .store,
    .serve (.send true), .serve (.recv ⟨.v4 ⟨10, 0, 0, 1⟩, 4000, 0⟩ [4]), .serve .lookup,
    .serve .store, .serve (.send false), .serve (.recv ⟨.v4 ⟨10, 0, 0, 1⟩, 4000, 0⟩ [5])]
  obtain ⟨s, hrun, hreceived, hforwarded, hhand⟩ :
      ∃ s, (machine ["9.9.9.9:53".toList]).run (machine ["9.9.9.9:53".toList]).init as = some s ∧
        s.received.length = 3 ∧ s.forwarded.length = 1 ∧ s.atHand.length = 1 :=
    ⟨_, rfl, rfl, rfl, rfl⟩
  obtain ⟨put, hput, hsettled, -⟩ := datagrams_settled hrun
  exact ⟨as, s, hrun, hreceived, hforwarded, hhand, rfl, put, hput, hsettled⟩

/-! ## To the clients -/

/-- What became of a reply for `peer`, decided by the send of the task that has it. -/
def replyFate (peer : SocketAddr) (s : State) : Act → Option Bool
  | .reverse i (.send ok) =>
      (s.tasks[i]?).bind fun t => if t.peer = peer then some ok else none
  | _ => none

/-- The replies received on the sockets of `peer`, as far as a receive takes them. -/
def State.repliesTo (s : State) (peer : SocketAddr) : List Payload :=
  (s.replies.filter fun r => (s.outs[r.out]?).map Outbound.peer = some peer).map
    fun r => r.payload.take udpBuf

/-- The reply that a task has at hand. -/
def Reverse.atHand (t : Reverse) : List Payload :=
  match t.pc with
  | .storing n | .sending n => [t.buf.take n]
  | _ => []

/-- What the tasks of `peer` have at hand. -/
def Reverse.handFor (peer : SocketAddr) (t : Reverse) : List Payload :=
  if t.peer = peer then t.atHand else []

def State.handFor (s : State) (peer : SocketAddr) : List Payload :=
  s.tasks.flatMap (Reverse.handFor peer)

def State.returnedTo (s : State) (peer : SocketAddr) : List Payload :=
  (s.returned.filter fun r => r.1 = peer).map Prod.snd

/-- The account of the replies to `peer`. -/
def Answered (peer : SocketAddr) (fates : List Bool) (s : State) : Prop :=
  Settled id (s.repliesTo peer) (s.handFor peer) fates (s.returnedTo peer)

variable {peer : SocketAddr}

/-- A client has one unfinished task at a time. -/
theorem live_unique (h : s.table.Inv) {i j : ℕ} {t u : Reverse} (ht : s.tasks[i]? = some t)
    (hu : s.tasks[j]? = some u) (htlive : t.pc ≠ .finished) (hulive : u.pc ≠ .finished)
    (hpeer : t.peer = u.peer) : j = i := by
  have hmap := h.mem (getElem?_table ht) (by simpa [Reverse.entry] using htlive)
  have hmap' := h.mem (getElem?_table hu) (by simpa [Reverse.entry] using hulive)
  have hkey : t.entry.key = u.entry.key := hpeer
  rw [hkey, hmap', Option.some.injEq] at hmap
  exact h.index_eq (getElem?_table hu) (getElem?_table ht) hmap

theorem atHand_of_finished {t : Reverse} (h : t.pc = .finished) : t.atHand = [] := by
  rw [Reverse.atHand, h]

/-- The others of a client with an unfinished task have nothing at hand. -/
theorem handFor_others (h : s.table.Inv) {i : ℕ} {t : Reverse} (ht : s.tasks[i]? = some t)
    (hlive : t.pc ≠ .finished) (j : ℕ) (u : Reverse) (hu : s.tasks[j]? = some u) (hne : j ≠ i) :
    u.handFor t.peer = [] := by
  rw [Reverse.handFor]
  split
  · rename_i hpeer
    by_cases hfinished : u.pc = .finished
    · exact atHand_of_finished hfinished
    · exact absurd (live_unique h ht hu hlive hfinished hpeer.symm) hne
  · rfl

theorem handFor_eq (h : s.table.Inv) {i : ℕ} {t : Reverse} (ht : s.tasks[i]? = some t)
    (hlive : t.pc ≠ .finished) : s.handFor t.peer = t.atHand := by
  rw [State.handFor, flatMap_eq_of_unique ht (handFor_others h ht hlive), Reverse.handFor,
    if_pos rfl]

/-- A task goes on, and the hand of its client is the hand of the task. -/
theorem handFor_set (h : s.table.Inv) {i : ℕ} {t u : Reverse} (ht : s.tasks[i]? = some t)
    (hlive : t.pc ≠ .finished) (hpeer : u.peer = t.peer) :
    (s.tasks.set i u).flatMap (Reverse.handFor t.peer) = u.atHand := by
  have hothers : ∀ j v, (s.tasks.set i u)[j]? = some v → j ≠ i → v.handFor t.peer = [] := by
    intro j v hv hne
    rw [List.getElem?_set_ne (Ne.symm hne)] at hv
    exact handFor_others h ht hlive j v hv hne
  rw [flatMap_eq_of_unique (getElem?_set_of_getElem? ht u) hothers, Reverse.handFor, if_pos hpeer]

theorem handFor_set_of_ne {i : ℕ} {t u : Reverse} (ht : s.tasks[i]? = some t)
    (hpeer : u.peer = t.peer) (hne : t.peer ≠ peer) :
    (s.tasks.set i u).flatMap (Reverse.handFor peer) = s.handFor peer := by
  refine flatMap_set_of_eq ht ?_
  rw [Reverse.handFor, Reverse.handFor, if_neg hne, if_neg (hpeer ▸ hne)]

/-- The replies received are those of the sockets there were. -/
theorem repliesTo_mono (hs : Flow targets s) (houts : s.outs <+: s'.outs)
    (hreplies : s'.replies = s.replies) : s'.repliesTo peer = s.repliesTo peer := by
  rw [State.repliesTo, State.repliesTo, hreplies]
  congr 1
  refine List.filter_congr fun r hr => ?_
  obtain ⟨o, ho, -⟩ := hs.replies r hr
  obtain ⟨rest, hrest⟩ := houts
  rw [← hrest, List.getElem?_append_left (List.getElem?_eq_some_iff.mp ho).1]

namespace Answered

variable {fates : List Bool}

/-- A step that leaves the hand and the logs leaves the account. -/
theorem mono (h : Answered peer fates s) (hs : Flow targets s) (houts : s.outs <+: s'.outs)
    (hreplies : s'.replies = s.replies) (hreturned : s'.returned = s.returned)
    (hhand : s'.handFor peer = s.handFor peer) : Answered peer fates s' := by
  have hreturnedTo : s'.returnedTo peer = s.returnedTo peer := by
    rw [State.returnedTo, State.returnedTo, hreturned]
  rwa [Answered, repliesTo_mono hs houts hreplies, hhand, hreturnedTo]

/-- A task that goes on with the same at hand. -/
theorem advanced (h : Answered peer fates s) (hs : Flow targets s) {i : ℕ} {t u : Reverse}
    (ht : s.tasks[i]? = some t) (htasks : s'.tasks = s.tasks.set i u) (hpeer : u.peer = t.peer)
    (hhand : u.atHand = t.atHand) (houts : s'.outs = s.outs)
    (hreplies : s'.replies = s.replies) (hreturned : s'.returned = s.returned) :
    Answered peer fates s' := by
  refine h.mono hs (houts ▸ List.prefix_rfl) hreplies hreturned ?_
  rw [State.handFor, htasks]
  refine flatMap_set_of_eq ht ?_
  rw [Reverse.handFor, Reverse.handFor, hpeer, hhand]

/-- The tasks of other clients have no part in the account. -/
theorem other (h : Answered peer fates s) {i : ℕ} {t u : Reverse} (ht : s.tasks[i]? = some t)
    (hne : t.peer ≠ peer) (htasks : s'.tasks = s.tasks.set i u) (hpeer : u.peer = t.peer)
    (hreplies : s'.repliesTo peer = s.repliesTo peer)
    (hreturned : s'.returnedTo peer = s.returnedTo peer) : Answered peer fates s' := by
  have hhand : s'.handFor peer = s.handFor peer := by
    rw [State.handFor, htasks]
    exact handFor_set_of_ne ht hpeer hne
  rwa [Answered, hreplies, hhand, hreturned]

/-- For the account of a client, its unfinished task stands for all of them. -/
theorem iff_task (h : s.table.Inv) {i : ℕ} {t : Reverse} (ht : s.tasks[i]? = some t)
    (hlive : t.pc ≠ .finished) :
    Answered t.peer fates s ↔
      Settled id (s.repliesTo t.peer) t.atHand fates (s.returnedTo t.peer) := by
  rw [Answered, handFor_eq h ht hlive]

theorem of_set {i : ℕ} {t u : Reverse} {got put : List Payload}
    (hsettled : Settled id got u.atHand fates put) (h : s.table.Inv) (ht : s.tasks[i]? = some t)
    (hlive : t.pc ≠ .finished) (htasks : s'.tasks = s.tasks.set i u) (hpeer : u.peer = t.peer)
    (hreplies : s'.repliesTo t.peer = got) (hreturned : s'.returnedTo t.peer = put) :
    Answered t.peer fates s' := by
  have hhand : s'.handFor t.peer = u.atHand := by
    rw [State.handFor, htasks]
    exact handFor_set h ht hlive hpeer
  rwa [Answered, hreplies, hhand, hreturned]

theorem replied (h : Answered peer fates s) (hs : Flow targets s) (htable : s.table.Inv) {i : ℕ}
    {t : Reverse} {src : SocketAddr} (ht : s.tasks[i]? = some t) (hpc : t.pc = .receiving)
    (data : Payload) :
    Answered peer fates { s with
      tasks := s.tasks.set i { t with buf := fill t.buf data, pc := .storing (filled t.buf data) }
      replies := s.replies ++ [⟨t.out, src, data⟩] } := by
  obtain ⟨hbuf, ⟨o, ho, howner⟩, -⟩ := hs.tasks t (List.mem_of_getElem? ht)
  have hlive : t.pc ≠ .finished := by simp [hpc]
  by_cases hpeer : t.peer = peer
  · subst hpeer
    have hnone : t.atHand = [] := by rw [Reverse.atHand, hpc]
    have htake : (fill t.buf data).take (filled t.buf data) = data.take udpBuf :=
      (take_filled_fill t.buf data).trans (by rw [hbuf])
    rw [iff_task htable ht hlive, hnone] at h
    have htaken := h.take ((fill t.buf data).take (filled t.buf data))
    refine of_set htaken htable ht hlive rfl rfl ?_ rfl
    simp [State.repliesTo, ho, howner, htake]
  · refine h.other ht hpeer rfl rfl ?_ rfl
    simp [State.repliesTo, ho, howner, hpeer]

/-- The reply at hand was sent back. -/
theorem returned (h : Answered peer fates s) (htable : s.table.Inv) {i n : ℕ} {t : Reverse}
    (ht : s.tasks[i]? = some t) (hpc : t.pc = .sending n) :
    Answered peer (fates ++ (if t.peer = peer then [true] else []))
      { s.setPc i t .receiving with returned := s.returned ++ [(t.peer, t.buf.take n)] } := by
  have hlive : t.pc ≠ .finished := by simp [hpc]
  by_cases hpeer : t.peer = peer
  · subst hpeer
    have hhand : t.atHand = [t.buf.take n] := by rw [Reverse.atHand, hpc]
    rw [iff_task htable ht hlive, hhand] at h
    rw [if_pos rfl]
    refine of_set (h.pass rfl) htable ht hlive rfl rfl rfl ?_
    simp [State.returnedTo]
  · rw [if_neg hpeer, List.append_nil]
    refine h.other ht hpeer rfl rfl rfl ?_
    simp [State.returnedTo, hpeer]

/-- The reply at hand could not be sent back, which ends the session. -/
theorem failed (h : Answered peer fates s) (htable : s.table.Inv) {i n : ℕ} {t : Reverse}
    (ht : s.tasks[i]? = some t) (hpc : t.pc = .sending n) :
    Answered peer (fates ++ (if t.peer = peer then [false] else [])) (s.setPc i t .removing) := by
  have hlive : t.pc ≠ .finished := by simp [hpc]
  by_cases hpeer : t.peer = peer
  · subst hpeer
    have hhand : t.atHand = [t.buf.take n] := by rw [Reverse.atHand, hpc]
    rw [iff_task htable ht hlive, hhand] at h
    rw [if_pos rfl]
    exact of_set (h.lose rfl) htable ht hlive rfl rfl rfl rfl
  · rw [if_neg hpeer, List.append_nil]
    exact h.other ht hpeer rfl rfl rfl rfl

/-- A step that decides no fate. -/
theorem undecided {a : Act} (h : Answered peer fates s') (hfate : replyFate peer s a = none) :
    Answered peer (fates ++ (replyFate peer s a).toList) s' := by
  rwa [hfate, Option.toList_none, List.append_nil]

theorem reverseStep (h : Answered peer fates s) (hs : Flow targets s) (htable : s.table.Inv)
    {i : ℕ} {t : Reverse} {a : ReverseAct} (ht : s.tasks[i]? = some t)
    (hstep : reverseStep s i t a = some s') :
    Answered peer (fates ++ (replyFate peer s (.reverse i a)).toList) s' := by
  cases a with
  | recv src data =>
      simp only [Udp.reverseStep, Option.ite_none_right_eq_some, Option.some.injEq] at hstep
      obtain ⟨⟨hpc, -⟩, rfl⟩ := hstep
      exact (h.replied hs htable ht hpc data).undecided rfl
  | recvError =>
      simp only [Udp.reverseStep, Option.ite_none_right_eq_some, Option.some.injEq] at hstep
      obtain ⟨hpc, rfl⟩ := hstep
      refine undecided (h.advanced hs ht rfl rfl ?_ rfl rfl rfl) rfl
      simp only [Reverse.atHand, hpc]
  | timer =>
      simp only [Udp.reverseStep, Option.ite_none_right_eq_some] at hstep
      obtain ⟨hpc, hstep⟩ := hstep
      split at hstep
      · obtain rfl := Option.some.inj hstep
        refine undecided (h.advanced hs ht rfl rfl ?_ rfl rfl rfl) rfl
        simp only [Reverse.atHand, hpc]
      · exact Option.some.inj hstep ▸ h.undecided rfl
  | store =>
      simp only [Udp.reverseStep] at hstep
      split at hstep
      · rename_i n hpc
        obtain rfl := Option.some.inj hstep
        refine undecided (h.advanced hs ht rfl rfl ?_ rfl rfl rfl) rfl
        simp only [Reverse.atHand, hpc]
      · cases hstep
  | send ok =>
      have hfate : (replyFate peer s (.reverse i (.send ok))).toList =
          if t.peer = peer then [ok] else [] := by
        rw [replyFate, ht, Option.bind_some]
        split <;> rfl
      simp only [Udp.reverseStep] at hstep
      split at hstep
      · rename_i n hpc
        rw [hfate]
        cases ok with
        | true => exact Option.some.inj hstep ▸ h.returned htable ht hpc
        | false => exact Option.some.inj hstep ▸ h.failed htable ht hpc
      · cases hstep
  | remove =>
      simp only [Udp.reverseStep, Option.ite_none_right_eq_some, Option.some.injEq] at hstep
      obtain ⟨hpc, rfl⟩ := hstep
      refine undecided (h.advanced hs ht rfl rfl ?_ rfl rfl rfl) rfl
      simp only [Reverse.atHand, hpc]

end Answered

/-- The serve loop leaves the replies alone: a task that it spawns has nothing at hand. -/
theorem serveStep_replies {a : ServeAct} (h : serveStep targets s a = some s') :
    s'.replies = s.replies ∧ s'.returned = s.returned ∧
      ∀ peer, s'.handFor peer = s.handFor peer := by
  cases a with
  | insert =>
      simp only [serveStep] at h
      split at h
      · obtain rfl := Option.some.inj h
        refine ⟨rfl, rfl, fun peer => ?_⟩
        simp [State.handFor, Reverse.handFor, Reverse.atHand]
      · cases h
  | _ =>
      simp only [serveStep, lookupStep, openStep, sendStep] at h
      (repeat' split at h) <;> cases h <;> exact ⟨rfl, rfl, fun _ => rfl⟩

theorem answered_step {fates : List Bool} {a : Act} (h : Answered peer fates s)
    (hs : Flow targets s) (htable : s.table.Inv) (hstep : step targets s a = some s') :
    Answered peer (fates ++ (replyFate peer s a).toList) s' := by
  cases a with
  | tick ms =>
      obtain rfl := Option.some.inj hstep
      exact (h.mono hs List.prefix_rfl rfl rfl rfl).undecided rfl
  | serve a =>
      obtain ⟨hreplies, hreturned, hhand⟩ := serveStep_replies hstep
      have houts := outs_prefix_step (step_of_serveStep hstep)
      exact (h.mono hs houts hreplies hreturned (hhand peer)).undecided rfl
  | reverse i a =>
      obtain ⟨t, ht, hstep⟩ := Option.bind_eq_some_iff.mp hstep
      exact h.reverseStep hs htable ht hstep

theorem length_handFor_le (h : s.table.Inv) (peer : SocketAddr) :
    (s.handFor peer).length ≤ 1 := by
  by_cases hlive : ∃ t ∈ s.tasks, t.pc ≠ .finished ∧ t.peer = peer
  · obtain ⟨t, ht, hlive, rfl⟩ := hlive
    obtain ⟨i, hi⟩ := List.mem_iff_getElem?.mp ht
    rw [handFor_eq h hi hlive, Reverse.atHand]
    split <;> simp
  · have hnone : s.handFor peer = [] := by
      refine List.flatMap_eq_nil_iff.mpr fun t ht => ?_
      rw [Reverse.handFor]
      split
      · rename_i hpeer
        refine atHand_of_finished (by_contra fun hne => ?_)
        exact hlive ⟨t, ht, hne, hpeer⟩
      · rfl
    simp [hnone]

/-- **Every reply meets one fate, in the order of arrival, across all sessions of its
client.** The replies received on the sockets opened for a client are those that some send
has decided on and then at most one at hand; those sent to the client are exactly those
whose send succeeded, in the order of arrival, each once. -/
theorem replies_settled {as : List Act}
    (h : (machine targets).run (machine targets).init as = some s) (peer : SocketAddr) :
    Settled id (s.repliesTo peer) (s.handFor peer)
        ((machine targets).outputs (replyFate peer) (machine targets).init as)
        (s.returnedTo peer) ∧
      (s.handFor peer).length ≤ 1 ∧ (s.returnedTo peer).Sublist (s.repliesTo peer) ∧
      ((∀ ok ∈ (machine targets).outputs (replyFate peer) (machine targets).init as,
        ok = true) → s.repliesTo peer = s.returnedTo peer ++ s.handFor peer) := by
  have hinit : (machine targets).Reachable (machine targets).init := ⟨[], rfl⟩
  have hrun : Flow targets s ∧ s.table.Inv ∧ Answered peer
      ((machine targets).outputs (replyFate peer) (machine targets).init as) s :=
    Machine.run_outputs_invariant
      (I := fun fates s => Flow targets s ∧ s.table.Inv ∧ Answered peer fates s)
      ⟨flow hinit, table_inv hinit, .start⟩
      (fun fates s a t hs hstep => ⟨flow_step s a t hs.1 hstep, table_inv_step s a t hs.2.1 hstep,
        answered_step hs.2.2 hs.1 hs.2.1 hstep⟩) h
  obtain ⟨-, htable, hsettled⟩ := hrun
  exact ⟨hsettled, length_handFor_le htable peer, hsettled.sublist, hsettled.eq_append⟩

/-- A reply in each of two sessions of one client; the first session ends because its
second reply cannot be sent. -/
theorem replies_settled_two_sessions :
    ∃ as s, (machine ["9.9.9.9:53".toList]).run (machine ["9.9.9.9:53".toList]).init as = some s ∧
      s.tasks.length = 2 ∧
      (s.returnedTo ⟨.v4 ⟨10, 0, 0, 1⟩, 4000, 0⟩).length = 2 ∧
      (s.repliesTo ⟨.v4 ⟨10, 0, 0, 1⟩, 4000, 0⟩).length = 3 ∧
      (s.returnedTo ⟨.v4 ⟨10, 0, 0, 1⟩, 4000, 0⟩).Sublist
        (s.repliesTo ⟨.v4 ⟨10, 0, 0, 1⟩, 4000, 0⟩) := by
  let as : List Act := [.serve (.recv ⟨.v4 ⟨10, 0, 0, 1⟩, 4000, 0⟩ [1]), .serve .lookup,
    .serve (.openSession (.ok []) fun _ => none), .serve .insert, .serve .store,
    .serve (.send true), .reverse 0 (.recv ⟨.v4 ⟨9, 9, 9, 9⟩, 53, 0⟩ [2]), .reverse 0 .store,
    .reverse 0 (.send true), .reverse 0 (.recv ⟨.v4 ⟨9, 9, 9, 9⟩, 53, 0⟩ [3]), .reverse 0 .store,
    .reverse 0 (.send false), .reverse 0 .remove,
    .serve (.recv ⟨.v4 ⟨10, 0, 0, 1⟩, 4000, 0⟩ [4]), .serve .lookup,
    .serve (.openSession (.ok []) fun _ => none), .serve .insert, .serve .store,
    .serve (.send true), .reverse 1 (.recv ⟨.v4 ⟨9, 9, 9, 9⟩, 53, 0⟩ [5]), .reverse 1 .store,
    .reverse 1 (.send true)]
  obtain ⟨s, hrun, htasks, hreturned, hreplies⟩ :
      ∃ s, (machine ["9.9.9.9:53".toList]).run (machine ["9.9.9.9:53".toList]).init as = some s ∧
        s.tasks.length = 2 ∧ (s.returnedTo ⟨.v4 ⟨10, 0, 0, 1⟩, 4000, 0⟩).length = 2 ∧
        (s.repliesTo ⟨.v4 ⟨10, 0, 0, 1⟩, 4000, 0⟩).length = 3 :=
    ⟨_, rfl, rfl, rfl, rfl⟩
  exact ⟨as, s, hrun, htasks, hreturned, hreplies, (replies_settled hrun _).2.2.1⟩

end Gust.Udp
