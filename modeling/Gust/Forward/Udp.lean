import Gust.Config
import Gust.Lib.Buffer
import Gust.Lib.IpAddr
import Gust.Lib.Machine
import Gust.Lib.RoundRobin
import Gust.Lib.SessionTable

/-!
# UDP forwarding with one session per client

`serve` receives every client's datagrams on one socket and in one buffer. A client that
has no session gets one, with an outbound socket of its own that is connected to the
target picked for it; a reverse task copies the replies back and removes the session when
it is idle or broken. The system is the serve loop and all reverse tasks it has spawned,
interleaved in every order: each label is one atomic step of one of them, or of the clock.

`Step` says what each label can do, and everything else is derived from it. The session
map refines the table of `Gust.Lib.SessionTable` (`refines_table`), which gives the
bijection between entries and tasks; `Flow` ties sockets, sessions, tasks and buffers
together, which gives isolation between the clients.
-/

namespace Gust.Udp

open Gust.Lib

/-- The receive buffer of the serve loop and of each reverse task. -/
def udpBuf : ℕ := 64 * 1024

/-- The idle lifetime of a session, in milliseconds. -/
def udpTtl : ℕ := 60000

abbrev Payload := List UInt8

/-- Round robin over the targets; the counter has the width of `usize`. -/
def pickTarget {w : ℕ} (targets : List Str) (rr : BitVec w) : Option (Str × BitVec w) :=
  roundRobin targets rr

/-- The first address that a socket can be bound and connected for. -/
def firstBound (bindConnected : SocketAddr → Option IoError) :
    Option IoError → List SocketAddr → Outcome IoError SocketAddr
  | lastErr, [] => .err (lastErr.getD ⟨.other, "no target address".toList⟩)
  | _, sa :: sas =>
      match bindConnected sa with
      | none => .ok sa
      | some e => firstBound bindConnected (some e) sas

/-- The address a new session's socket is connected to. Literals are not looked up. -/
def newSession (lookup : Outcome IoError (List SocketAddr))
    (bindConnected : SocketAddr → Option IoError) (target : Str) : Outcome IoError SocketAddr :=
  match SocketAddr.parse target with
  | some sa =>
      match bindConnected sa with
      | none => .ok sa
      | some e => .err e
  | none => do
      let sas ← lookup
      firstBound bindConnected none sas

/-- An outbound socket, by the client it was opened for. -/
structure Outbound where
  peer : SocketAddr
  /-- The target picked for the session. -/
  target : Str
  /-- The address it is connected to. -/
  addr : SocketAddr
  deriving DecidableEq, Repr

/-- Where the serve loop is. A session stands for its outbound socket. -/
inductive Loop
  | receiving
  /-- In the pause after a receive error. -/
  | pausing
  | lookingUp (n : ℕ) (peer : SocketAddr)
  | opening (n : ℕ) (peer : SocketAddr) (target : Str)
  | inserting (n : ℕ) (peer : SocketAddr) (out : ℕ)
  | storing (n : ℕ) (out : ℕ)
  | sending (n : ℕ) (out : ℕ)
  /-- Returned, aborted or panicked. -/
  | stopped
  deriving DecidableEq, Repr

inductive Pc
  | receiving
  | storing (n : ℕ)
  | sending (n : ℕ)
  | removing
  | finished
  deriving DecidableEq, Repr

/-- A reverse task. -/
structure Reverse where
  peer : SocketAddr
  out : ℕ
  buf : Payload
  pc : Pc
  deriving DecidableEq, Repr

/-- A datagram sent on an outbound socket. -/
structure Forwarded where
  out : ℕ
  dest : SocketAddr
  payload : Payload
  deriving DecidableEq, Repr

/-- A datagram received on an outbound socket. -/
structure Reply where
  out : ℕ
  src : SocketAddr
  payload : Payload
  deriving DecidableEq, Repr

structure State where
  /-- `mono_ms`. -/
  now : ℕ
  loop : Loop
  buf : Payload
  rr : BitVec 64
  /-- All outbound sockets ever opened. -/
  outs : List Outbound
  /-- The `last_activity` of each session. -/
  last : ℕ → ℕ
  sessions : SocketAddr → Option ℕ
  tasks : List Reverse
  /-- The datagrams received from clients, with their sources. -/
  received : List (SocketAddr × Payload)
  forwarded : List Forwarded
  replies : List Reply
  /-- The datagrams sent to clients, with their destinations. -/
  returned : List (SocketAddr × Payload)

/-- A step of the serve loop. -/
inductive ServeAct
  | recv (peer : SocketAddr) (data : Payload)
  | recvError
  | resume
  | shutdown
  | abort
  | lookup
  | openSession (lookup : Outcome IoError (List SocketAddr))
      (bindConnected : SocketAddr → Option IoError)
  | insert
  | store
  | send (ok : Bool)

/-- A step of a reverse task. -/
inductive ReverseAct
  | recv (src : SocketAddr) (data : Payload)
  | recvError
  | timer
  | store
  | send (ok : Bool)
  | remove
  deriving DecidableEq, Repr

inductive Act
  | tick (ms : ℕ)
  | serve (a : ServeAct)
  | reverse (i : ℕ) (a : ReverseAct)

/-- The loop can be aborted where it awaits. -/
def Loop.awaits : Loop → Bool
  | .receiving | .pausing | .opening _ _ _ | .sending _ _ => true
  | _ => false

def lookupStep (targets : List Str) (s : State) (n : ℕ) (peer : SocketAddr) : State :=
  match s.sessions peer with
  | some out => { s with loop := .storing n out }
  | none =>
      match pickTarget targets s.rr with
      | some (target, rr) => { s with loop := .opening n peer target, rr := rr }
      | none => { s with loop := .stopped }

def openStep (s : State) (n : ℕ) (peer : SocketAddr) (target : Str) :
    Outcome IoError SocketAddr → State
  | .ok addr =>
      { s with
        loop := .inserting n peer s.outs.length
        outs := s.outs ++ [⟨peer, target, addr⟩]
        last := Function.update s.last s.outs.length s.now }
  | _ => { s with loop := .receiving }

/-- `send` on the outbound socket; a failure is only logged. -/
def sendStep (s : State) (n out : ℕ) (ok : Bool) : State :=
  match ok, s.outs[out]? with
  | true, some o =>
      { s with loop := .receiving, forwarded := s.forwarded ++ [⟨out, o.addr, s.buf.take n⟩] }
  | _, _ => { s with loop := .receiving }

def serveStep (targets : List Str) (s : State) : ServeAct → Option State
  | .recv peer data =>
      if s.loop = .receiving then
        some { s with
          loop := .lookingUp (filled s.buf data) peer
          buf := fill s.buf data
          received := s.received ++ [(peer, data)] }
      else none
  | .recvError => if s.loop = .receiving then some { s with loop := .pausing } else none
  | .resume => if s.loop = .pausing then some { s with loop := .receiving } else none
  | .shutdown => if s.loop = .receiving then some { s with loop := .stopped } else none
  | .abort => if s.loop.awaits then some { s with loop := .stopped } else none
  | .lookup =>
      match s.loop with
      | .lookingUp n peer => some (lookupStep targets s n peer)
      | _ => none
  | .openSession lookup bindConnected =>
      match s.loop with
      | .opening n peer target =>
          some (openStep s n peer target (newSession lookup bindConnected target))
      | _ => none
  | .insert =>
      match s.loop with
      | .inserting n peer out =>
          some { s with
            loop := .storing n out
            sessions := Function.update s.sessions peer (some out)
            tasks := s.tasks ++ [⟨peer, out, List.replicate udpBuf 0, .receiving⟩] }
      | _ => none
  | .store =>
      match s.loop with
      | .storing n out =>
          some { s with loop := .sending n out, last := Function.update s.last out s.now }
      | _ => none
  | .send ok =>
      match s.loop with
      | .sending n out => some (sendStep s n out ok)
      | _ => none

def State.setPc (s : State) (i : ℕ) (t : Reverse) (pc : Pc) : State :=
  { s with tasks := s.tasks.set i { t with pc := pc } }

/-- One step of task `i`. A connected socket delivers only what comes from the address it
is connected to. -/
def reverseStep (s : State) (i : ℕ) (t : Reverse) : ReverseAct → Option State
  | .recv src data =>
      if t.pc = .receiving ∧ (s.outs[t.out]?).map Outbound.addr = some src then
        some { s with
          tasks := s.tasks.set i { t with buf := fill t.buf data, pc := .storing (filled t.buf data) }
          replies := s.replies ++ [⟨t.out, src, data⟩] }
      else none
  | .recvError => if t.pc = .receiving then some (s.setPc i t .removing) else none
  | .timer =>
      if t.pc = .receiving then
        if udpTtl ≤ s.now - s.last t.out then some (s.setPc i t .removing) else some s
      else none
  | .store =>
      match t.pc with
      | .storing n =>
          some { s.setPc i t (.sending n) with last := Function.update s.last t.out s.now }
      | _ => none
  | .send ok =>
      match t.pc with
      | .sending n =>
          if ok then
            some { s.setPc i t .receiving with
              returned := s.returned ++ [(t.peer, t.buf.take n)] }
          else some (s.setPc i t .removing)
      | _ => none
  | .remove =>
      if t.pc = .removing then
        some { s.setPc i t .finished with sessions := Function.update s.sessions t.peer none }
      else none

def step (targets : List Str) (s : State) : Act → Option State
  | .tick ms => some { s with now := s.now + ms }
  | .serve a => serveStep targets s a
  | .reverse i a => (s.tasks[i]?).bind fun t => reverseStep s i t a

/-- A run of `serve` once its socket is bound. -/
def machine (targets : List Str) : Machine State Act where
  init :=
    { now := 0, loop := .receiving, buf := List.replicate udpBuf 0, rr := 0, outs := []
      last := fun _ => 0, sessions := fun _ => none, tasks := []
      received := [], forwarded := [], replies := [], returned := [] }
  step := step targets

/-- What a step can do. -/
inductive Step (targets : List Str) (s : State) : State → Prop
  | tick (ms : ℕ) : Step targets s { s with now := s.now + ms }
  | recv (peer : SocketAddr) (data : Payload) : Step targets s { s with
      loop := .lookingUp (filled s.buf data) peer
      buf := fill s.buf data
      received := s.received ++ [(peer, data)] }
  /-- The loop goes back to its start, or stops. -/
  | leave (loop : Loop) (h : loop = .receiving ∨ loop = .pausing ∨ loop = .stopped) :
      Step targets s { s with loop := loop }
  | hit {n out : ℕ} {peer : SocketAddr} (hloop : s.loop = .lookingUp n peer)
      (hsession : s.sessions peer = some out) : Step targets s { s with loop := .storing n out }
  | miss {n : ℕ} {peer : SocketAddr} {target : Str} {rr : BitVec 64}
      (hloop : s.loop = .lookingUp n peer) (hsession : s.sessions peer = none)
      (hpick : pickTarget targets s.rr = some (target, rr)) :
      Step targets s { s with loop := .opening n peer target, rr := rr }
  | opened {n : ℕ} {peer addr : SocketAddr} {target : Str}
      (hloop : s.loop = .opening n peer target) (lookup : Outcome IoError (List SocketAddr))
      (bindConnected : SocketAddr → Option IoError)
      (hnew : newSession lookup bindConnected target = .ok addr) : Step targets s { s with
        loop := .inserting n peer s.outs.length
        outs := s.outs ++ [⟨peer, target, addr⟩]
        last := Function.update s.last s.outs.length s.now }
  | inserted {n out : ℕ} {peer : SocketAddr} (hloop : s.loop = .inserting n peer out) :
      Step targets s { s with
        loop := .storing n out
        sessions := Function.update s.sessions peer (some out)
        tasks := s.tasks ++ [⟨peer, out, List.replicate udpBuf 0, .receiving⟩] }
  | stored {n out : ℕ} (hloop : s.loop = .storing n out) : Step targets s { s with
      loop := .sending n out, last := Function.update s.last out s.now }
  | sent {n out : ℕ} {o : Outbound} (hloop : s.loop = .sending n out)
      (ho : s.outs[out]? = some o) : Step targets s { s with
        loop := .receiving, forwarded := s.forwarded ++ [⟨out, o.addr, s.buf.take n⟩] }
  | replied {i : ℕ} {t : Reverse} {o : Outbound} (ht : s.tasks[i]? = some t)
      (hpc : t.pc = .receiving) (ho : s.outs[t.out]? = some o) (data : Payload) :
      Step targets s { s with
        tasks := s.tasks.set i { t with buf := fill t.buf data, pc := .storing (filled t.buf data) }
        replies := s.replies ++ [⟨t.out, o.addr, data⟩] }
  /-- An error, an expired session, or nothing to do. -/
  | advanced {i : ℕ} {t : Reverse} (ht : s.tasks[i]? = some t) (hpc : t.pc ≠ .finished)
      (pc : Pc) (h : pc = .receiving ∨ pc = .removing) : Step targets s (s.setPc i t pc)
  | storedReply {i n : ℕ} {t : Reverse} (ht : s.tasks[i]? = some t) (hpc : t.pc = .storing n) :
      Step targets s { s.setPc i t (.sending n) with last := Function.update s.last t.out s.now }
  | returned {i n : ℕ} {t : Reverse} (ht : s.tasks[i]? = some t) (hpc : t.pc = .sending n) :
      Step targets s { s.setPc i t .receiving with
        returned := s.returned ++ [(t.peer, t.buf.take n)] }
  | removed {i : ℕ} {t : Reverse} (ht : s.tasks[i]? = some t) (hpc : t.pc = .removing) :
      Step targets s { s.setPc i t .finished with
        sessions := Function.update s.sessions t.peer none }

variable {targets : List Str} {s s' : State}

theorem setPc_self {i : ℕ} {t : Reverse} (ht : s.tasks[i]? = some t) {pc : Pc} (hpc : t.pc = pc) :
    s.setPc i t pc = s := by
  have hset : s.tasks.set i { t with pc := pc } = s.tasks := by
    obtain ⟨hi, rfl⟩ := List.getElem?_eq_some_iff.mp ht
    subst hpc
    exact List.set_getElem_self hi
  rw [State.setPc, hset]

theorem step_of_serveStep {a : ServeAct} (h : serveStep targets s a = some s') :
    Step targets s s' := by
  cases a with
  | recv peer data =>
      simp only [serveStep, Option.ite_none_right_eq_some, Option.some.injEq] at h
      exact h.2 ▸ .recv peer data
  | recvError =>
      simp only [serveStep, Option.ite_none_right_eq_some, Option.some.injEq] at h
      exact h.2 ▸ .leave _ (.inr (.inl rfl))
  | resume =>
      simp only [serveStep, Option.ite_none_right_eq_some, Option.some.injEq] at h
      exact h.2 ▸ .leave _ (.inl rfl)
  | shutdown =>
      simp only [serveStep, Option.ite_none_right_eq_some, Option.some.injEq] at h
      exact h.2 ▸ .leave _ (.inr (.inr rfl))
  | abort =>
      simp only [serveStep, Option.ite_none_right_eq_some, Option.some.injEq] at h
      exact h.2 ▸ .leave _ (.inr (.inr rfl))
  | lookup =>
      simp only [serveStep] at h
      split at h
      · rename_i n peer hloop
        rw [Option.some.injEq] at h
        subst h
        simp only [lookupStep]
        split
        · rename_i out hsession
          exact .hit hloop hsession
        · rename_i hsession
          split
          · rename_i target rr hpick
            exact .miss hloop hsession hpick
          · exact .leave _ (.inr (.inr rfl))
      · cases h
  | openSession lookup bindConnected =>
      simp only [serveStep] at h
      split at h
      · rename_i n peer target hloop
        rw [Option.some.injEq] at h
        subst h
        simp only [openStep]
        split
        · rename_i addr hnew
          exact .opened hloop lookup bindConnected hnew
        · exact .leave _ (.inl rfl)
      · cases h
  | insert =>
      simp only [serveStep] at h
      split at h
      · rename_i n peer out hloop
        rw [Option.some.injEq] at h
        exact h ▸ .inserted hloop
      · cases h
  | store =>
      simp only [serveStep] at h
      split at h
      · rename_i n out hloop
        rw [Option.some.injEq] at h
        exact h ▸ .stored hloop
      · cases h
  | send ok =>
      simp only [serveStep] at h
      split at h
      · rename_i n out hloop
        rw [Option.some.injEq] at h
        subst h
        simp only [sendStep]
        split
        · rename_i o ho
          exact .sent hloop ho
        · exact .leave _ (.inl rfl)
      · cases h

theorem step_of_reverseStep {i : ℕ} {t : Reverse} {a : ReverseAct} (ht : s.tasks[i]? = some t)
    (h : reverseStep s i t a = some s') : Step targets s s' := by
  cases a with
  | recv src data =>
      simp only [reverseStep, Option.ite_none_right_eq_some, Option.some.injEq] at h
      obtain ⟨⟨hpc, ho⟩, rfl⟩ := h
      obtain ⟨o, hout, rfl⟩ := Option.map_eq_some_iff.mp ho
      exact .replied ht hpc hout data
  | recvError =>
      simp only [reverseStep, Option.ite_none_right_eq_some, Option.some.injEq] at h
      exact h.2 ▸ .advanced ht (by simp [h.1]) _ (.inr rfl)
  | timer =>
      simp only [reverseStep, Option.ite_none_right_eq_some] at h
      obtain ⟨hpc, h⟩ := h
      split at h
      · rw [Option.some.injEq] at h
        exact h ▸ .advanced ht (by simp [hpc]) _ (.inr rfl)
      · rw [Option.some.injEq, ← setPc_self ht hpc] at h
        exact h ▸ .advanced ht (by simp [hpc]) _ (.inl rfl)
  | store =>
      simp only [reverseStep] at h
      split at h
      · rename_i n hpc
        rw [Option.some.injEq] at h
        exact h ▸ .storedReply ht hpc
      · cases h
  | send ok =>
      simp only [reverseStep] at h
      split at h
      · rename_i n hpc
        split at h
        · rw [Option.some.injEq] at h
          exact h ▸ .returned ht hpc
        · rw [Option.some.injEq] at h
          exact h ▸ .advanced ht (by simp [hpc]) _ (.inr rfl)
      · cases h
  | remove =>
      simp only [reverseStep, Option.ite_none_right_eq_some, Option.some.injEq] at h
      exact h.2 ▸ .removed ht h.1

theorem step_cases {a : Act} (h : step targets s a = some s') : Step targets s s' := by
  cases a with
  | tick ms =>
      simp only [step, Option.some.injEq] at h
      exact h ▸ .tick ms
  | serve a => exact step_of_serveStep h
  | reverse i a =>
      obtain ⟨t, ht, h⟩ := Option.bind_eq_some_iff.mp h
      exact step_of_reverseStep ht h

/-! ## The session table -/

def Reverse.entry (t : Reverse) : Entry SocketAddr := ⟨t.peer, t.out, t.pc != .finished⟩

def Loop.pending : Loop → Pending SocketAddr
  | .opening _ peer _ => .missed peer
  | .inserting _ peer out => .made peer out
  | _ => .idle

/-- The table behind a state: the session map, and the tasks that have to clear it. -/
def State.table (s : State) : Table SocketAddr where
  fresh := s.outs.length
  map := s.sessions
  sessions := s.tasks.map Reverse.entry
  pending := s.loop.pending

/-- A task that goes on is still the same entry. -/
theorem map_entry_set {i : ℕ} {t : Reverse} (ht : s.tasks[i]? = some t) (hlive : t.pc ≠ .finished)
    (buf : Payload) (pc : Pc) (hpc : pc ≠ .finished) :
    (s.tasks.set i { t with buf := buf, pc := pc }).map Reverse.entry =
      s.tasks.map Reverse.entry := by
  have hentry : Reverse.entry { t with buf := buf, pc := pc } = t.entry := by
    simp only [Reverse.entry, bne_iff_ne.mpr hlive, bne_iff_ne.mpr hpc]
  exact map_set_of_eq ht hentry

/-- **The session map refines the table**: every step is a step of the table or leaves it
as it was. -/
theorem refines_table (h : Step targets s s') :
    s'.table = s.table ∨ ∃ op, s.table.step op = some s'.table := by
  cases h with
  | tick ms => exact .inl rfl
  | recv peer data => exact .inr ⟨.giveUp, rfl⟩
  | leave loop hloop =>
      refine .inr ⟨.giveUp, ?_⟩
      obtain rfl | rfl | rfl := hloop <;> rfl
  | hit hloop hsession => exact .inr ⟨.giveUp, rfl⟩
  | @miss n peer _ _ hloop hsession hpick =>
      refine .inr ⟨.miss peer, ?_⟩
      simp [Table.step, State.table, hsession, Loop.pending]
  | opened hloop lookup bindConnected hnew =>
      refine .inr ⟨.make, ?_⟩
      simp [Table.step, State.table, hloop, Loop.pending]
  | inserted hloop =>
      refine .inr ⟨.insert, ?_⟩
      simp [Table.step, State.table, hloop, Loop.pending, Reverse.entry]
  | stored hloop => exact .inr ⟨.giveUp, rfl⟩
  | sent hloop ho => exact .inr ⟨.giveUp, rfl⟩
  | replied ht hpc ho data =>
      refine .inl ?_
      simp only [State.table, map_entry_set ht (by simp [hpc]) _ (.storing _) (by simp)]
  | @advanced i t ht hpc pc h =>
      refine .inl ?_
      have hpc' : pc ≠ .finished := by rcases h with rfl | rfl <;> simp
      simp only [State.table, State.setPc, map_entry_set ht hpc t.buf pc hpc']
  | @storedReply i n t ht hpc =>
      refine .inl ?_
      simp only [State.table, State.setPc,
        map_entry_set ht (by simp [hpc]) t.buf (.sending n) (by simp)]
  | @returned i n t ht hpc =>
      refine .inl ?_
      simp only [State.table, State.setPc,
        map_entry_set ht (by simp [hpc]) t.buf .receiving (by simp)]
  | @removed i t ht hpc =>
      refine .inr ⟨.remove i, ?_⟩
      have hget : (s.tasks.map Reverse.entry)[i]? = some ⟨t.peer, t.out, true⟩ := by
        simp [ht, Reverse.entry, hpc]
      have hset : Reverse.entry { t with pc := .finished } = ⟨t.peer, t.out, false⟩ := rfl
      simp only [Table.step, State.table, State.setPc, hget, List.map_set, hset]

theorem table_inv_step (s : State) (a : Act) (s' : State) (hs : s.table.Inv)
    (h : step targets s a = some s') : s'.table.Inv := by
  rcases refines_table (step_cases h) with heq | ⟨op, hop⟩
  · rwa [heq]
  · exact hs.step hop

theorem table_inv (h : (machine targets).Reachable s) : s.table.Inv :=
  h.invariant Table.inv_empty table_inv_step

theorem getElem?_table {i : ℕ} {t : Reverse} (h : s.tasks[i]? = some t) :
    s.table.sessions[i]? = some t.entry := by
  simp [State.table, h]

/-- No two tasks share a session. -/
theorem index_eq_of_out (h : (machine targets).Reachable s) {i j : ℕ} {t u : Reverse}
    (ht : s.tasks[i]? = some t) (hu : s.tasks[j]? = some u) (hout : t.out = u.out) : i = j :=
  (table_inv h).index_eq (getElem?_table ht) (getElem?_table hu) hout

/-- An entry of the map belongs to a task that goes on. -/
theorem exists_task_of_session (h : (machine targets).Reachable s) {peer : SocketAddr} {out : ℕ}
    (hmap : s.sessions peer = some out) :
    ∃ (i : ℕ) (t : Reverse), s.tasks[i]? = some t ∧ t.pc ≠ .finished ∧ t.peer = peer ∧
      t.out = out := by
  obtain ⟨i, hi⟩ := (table_inv h).owner hmap
  obtain ⟨t, ht, hentry⟩ : ∃ t, s.tasks[i]? = some t ∧ t.entry = ⟨peer, out, true⟩ := by
    simpa [State.table] using hi
  rw [Reverse.entry, Entry.mk.injEq, bne_iff_ne] at hentry
  obtain ⟨hpeer, hout, hpc⟩ := hentry
  exact ⟨i, t, ht, hpc, hpeer, hout⟩

/-- **The session table invariant.** In every reachable state the entries of the map are
in bijection with the reverse tasks that have not removed theirs, there is at most one
such task per client, no two tasks share a session, and a task that removes the entry of
its client removes its own session. -/
theorem sessions_bijective (h : (machine targets).Reachable s) :
    (∀ (i : ℕ) (t : Reverse), s.tasks[i]? = some t → t.pc ≠ .finished →
      s.sessions t.peer = some t.out) ∧
    (∀ peer out, s.sessions peer = some out → ∃! i : ℕ, ∃ t : Reverse, s.tasks[i]? = some t ∧
      t.pc ≠ .finished ∧ t.peer = peer ∧ t.out = out) ∧
    (∀ (i j : ℕ) (t u : Reverse), s.tasks[i]? = some t → s.tasks[j]? = some u →
      t.pc ≠ .finished → u.pc ≠ .finished → t.peer = u.peer → i = j) ∧
    (∀ (i j : ℕ) (t u : Reverse), s.tasks[i]? = some t → s.tasks[j]? = some u →
      t.out = u.out → i = j) ∧
    (∀ i s', step targets s (.reverse i .remove) = some s' → ∃ t, s.tasks[i]? = some t ∧
      s.sessions t.peer = some t.out ∧
      s'.sessions = Function.update s.sessions t.peer none) := by
  have hinv := table_inv h
  have hlive : ∀ {t : Reverse}, t.pc ≠ .finished → t.entry.live = true :=
    fun hpc => bne_iff_ne.mpr hpc
  have hunique : ∀ (i j : ℕ) (t u : Reverse), s.tasks[i]? = some t → s.tasks[j]? = some u →
      t.pc ≠ .finished → u.pc ≠ .finished → t.peer = u.peer → i = j :=
    fun i j t u ht hu htpc hupc hpeer => hinv.index_eq_of_key (getElem?_table ht)
      (getElem?_table hu) (hlive htpc) (hlive hupc) hpeer
  refine ⟨fun i t ht hpc => hinv.mem (getElem?_table ht) (hlive hpc), ?_, hunique,
    fun i j t u => index_eq_of_out h, ?_⟩
  · intro peer out hmap
    obtain ⟨i, t, ht, hpc, hpeer, hout⟩ := exists_task_of_session h hmap
    refine ⟨i, ⟨t, ht, hpc, hpeer, hout⟩, ?_⟩
    rintro j ⟨u, hu, hupc, hupeer, -⟩
    exact hunique j i u t hu ht hupc hpc (hupeer.trans hpeer.symm)
  · intro i s' hstep
    obtain ⟨t, ht, hremove⟩ := Option.bind_eq_some_iff.mp hstep
    simp only [reverseStep, Option.ite_none_right_eq_some, Option.some.injEq] at hremove
    obtain ⟨hpc, rfl⟩ := hremove
    exact ⟨t, ht, hinv.mem (getElem?_table ht) (hlive (by simp [hpc])), rfl⟩

/-- The first client's session, while the second client's is being opened. -/
theorem sessions_bijective_two_clients :
    ∃ s, (machine ["9.9.9.9:53".toList]).Reachable s ∧
      s.sessions ⟨.v4 ⟨10, 0, 0, 1⟩, 4000, 0⟩ = some 0 ∧
      ∃! i : ℕ, ∃ t : Reverse, s.tasks[i]? = some t ∧ t.pc ≠ .finished ∧
        t.peer = ⟨.v4 ⟨10, 0, 0, 1⟩, 4000, 0⟩ ∧ t.out = 0 := by
  obtain ⟨s, hreach, hsession⟩ : ∃ s, (machine ["9.9.9.9:53".toList]).Reachable s ∧
      s.sessions ⟨.v4 ⟨10, 0, 0, 1⟩, 4000, 0⟩ = some 0 :=
    ⟨_, ⟨[.serve (.recv ⟨.v4 ⟨10, 0, 0, 1⟩, 4000, 0⟩ [1]), .serve .lookup,
      .serve (.openSession (.ok []) fun _ => none), .serve .insert, .serve .store,
      .serve (.send true), .serve (.recv ⟨.v4 ⟨10, 0, 0, 2⟩, 4000, 0⟩ [2]), .serve .lookup,
      .reverse 0 .recvError], rfl⟩, rfl⟩
  exact ⟨s, hreach, hsession, (sessions_bijective hreach).2.1 _ _ hsession⟩

/-! ## Where every datagram comes from -/

/-- The session of `peer`, with a socket that was opened for it. -/
def Owns (s : State) (out : ℕ) (peer : SocketAddr) : Prop :=
  ∃ o, s.outs[out]? = some o ∧ o.peer = peer

/-- The payload is what a datagram from `peer` had to deliver. -/
def FromClient (s : State) (peer : SocketAddr) (payload : Payload) : Prop :=
  ∃ data, (peer, data) ∈ s.received ∧ payload = data.take udpBuf

/-- The payload is what a datagram on the socket `out` had to deliver. -/
def FromTarget (s : State) (out : ℕ) (payload : Payload) : Prop :=
  ∃ src data, ⟨out, src, data⟩ ∈ s.replies ∧ payload = data.take udpBuf

/-- The socket is connected to an address of a target of this listener. -/
def Connected (targets : List Str) (o : Outbound) : Prop :=
  o.target ∈ targets ∧ ∃ lookup bindConnected, newSession lookup bindConnected o.target = .ok o.addr

/-- What the serve loop holds in its buffer, and for whom. -/
def LoopOk (targets : List Str) (s : State) : Prop :=
  match s.loop with
  | .lookingUp n peer => FromClient s peer (s.buf.take n)
  | .opening n peer target => FromClient s peer (s.buf.take n) ∧ target ∈ targets
  | .inserting n peer out => FromClient s peer (s.buf.take n) ∧ Owns s out peer
  | .storing n out | .sending n out => ∃ peer, FromClient s peer (s.buf.take n) ∧ Owns s out peer
  | _ => True

/-- What a reverse task holds in its buffer. -/
def TaskOk (s : State) (t : Reverse) : Prop :=
  t.buf.length = udpBuf ∧ Owns s t.out t.peer ∧
    match t.pc with
    | .storing n | .sending n => FromTarget s t.out (t.buf.take n)
    | _ => True

/-- **The flow invariant**: sockets, sessions, tasks and logs agree on whose is what. -/
structure Flow (targets : List Str) (s : State) : Prop where
  buf : s.buf.length = udpBuf
  loop : LoopOk targets s
  sessions : ∀ peer out, s.sessions peer = some out → Owns s out peer
  tasks : ∀ t ∈ s.tasks, TaskOk s t
  outs : ∀ o ∈ s.outs, Connected targets o
  replies : ∀ r ∈ s.replies, ∃ o, s.outs[r.out]? = some o ∧ r.src = o.addr
  forwarded : ∀ f ∈ s.forwarded, ∃ o, s.outs[f.out]? = some o ∧ f.dest = o.addr ∧
    FromClient s o.peer f.payload
  returned : ∀ r ∈ s.returned, ∃ out, Owns s out r.1 ∧ FromTarget s out r.2

/-- Sockets and logs only grow. -/
structure Grows (s s' : State) : Prop where
  outs : s.outs <+: s'.outs
  received : s.received ⊆ s'.received
  replies : s.replies ⊆ s'.replies

variable {out : ℕ} {peer : SocketAddr} {payload : Payload}

theorem Grows.getElem? (h : Grows s s') {o : Outbound} (ho : s.outs[out]? = some o) :
    s'.outs[out]? = some o := by
  obtain ⟨rest, hrest⟩ := h.outs
  rw [← hrest, List.getElem?_append_left (List.getElem?_eq_some_iff.mp ho).1, ho]

theorem Grows.owns (h : Grows s s') (ho : Owns s out peer) : Owns s' out peer := by
  obtain ⟨o, ho, hpeer⟩ := ho
  exact ⟨o, h.getElem? ho, hpeer⟩

theorem Grows.fromClient (h : Grows s s') (hf : FromClient s peer payload) :
    FromClient s' peer payload := by
  obtain ⟨data, hdata, hpayload⟩ := hf
  exact ⟨data, h.received hdata, hpayload⟩

theorem Grows.fromTarget (h : Grows s s') (hf : FromTarget s out payload) :
    FromTarget s' out payload := by
  obtain ⟨src, data, hdata, hpayload⟩ := hf
  exact ⟨src, data, h.replies hdata, hpayload⟩

theorem Grows.taskOk (h : Grows s s') {t : Reverse} (ht : TaskOk s t) : TaskOk s' t := by
  obtain ⟨hbuf, howns, hpc⟩ := ht
  refine ⟨hbuf, h.owns howns, ?_⟩
  cases hcase : t.pc with
  | storing n =>
      rw [hcase] at hpc
      exact h.fromTarget hpc
  | sending n =>
      rw [hcase] at hpc
      exact h.fromTarget hpc
  | _ => trivial

/-- What was established about the sessions, the tasks and the logs stays true. -/
theorem Grows.flow (h : Grows s s') (hs : Flow targets s) :
    (∀ peer out, s.sessions peer = some out → Owns s' out peer) ∧
    (∀ t ∈ s.tasks, TaskOk s' t) ∧
    (∀ r ∈ s.replies, ∃ o, s'.outs[r.out]? = some o ∧ r.src = o.addr) ∧
    (∀ f ∈ s.forwarded, ∃ o, s'.outs[f.out]? = some o ∧ f.dest = o.addr ∧
      FromClient s' o.peer f.payload) ∧
    (∀ r ∈ s.returned, ∃ out, Owns s' out r.1 ∧ FromTarget s' out r.2) := by
  refine ⟨fun peer out hmap => h.owns (hs.sessions peer out hmap),
    fun t ht => h.taskOk (hs.tasks t ht), ?_, ?_, ?_⟩
  · intro r hr
    obtain ⟨o, ho, hsrc⟩ := hs.replies r hr
    exact ⟨o, h.getElem? ho, hsrc⟩
  · intro f hf
    obtain ⟨o, ho, hdest, hclient⟩ := hs.forwarded f hf
    exact ⟨o, h.getElem? ho, hdest, h.fromClient hclient⟩
  · intro r hr
    obtain ⟨out, howns, htarget⟩ := hs.returned r hr
    exact ⟨out, h.owns howns, h.fromTarget htarget⟩

theorem Flow.recv (hs : Flow targets s) (peer : SocketAddr) (data : Payload) :
    Flow targets { s with
      loop := .lookingUp (filled s.buf data) peer
      buf := fill s.buf data
      received := s.received ++ [(peer, data)] } := by
  have hgrows : Grows s { s with
      loop := .lookingUp (filled s.buf data) peer
      buf := fill s.buf data
      received := s.received ++ [(peer, data)] } :=
    ⟨List.prefix_rfl, List.subset_append_left _ _, List.Subset.refl _⟩
  obtain ⟨hsessions, htasks, hreplies, hforwarded, hreturned⟩ := hgrows.flow hs
  refine ⟨(length_fill s.buf data).trans hs.buf, ?_, hsessions, htasks, hs.outs, hreplies,
    hforwarded, hreturned⟩
  exact ⟨data, List.mem_append_right _ (List.mem_singleton_self _),
    (take_filled_fill s.buf data).trans (by rw [hs.buf])⟩

theorem Flow.opened (hs : Flow targets s) {n : ℕ} {addr : SocketAddr} {target : Str}
    (hloop : s.loop = .opening n peer target)
    (hnew : ∃ lookup bindConnected, newSession lookup bindConnected target = .ok addr) :
    Flow targets { s with
      loop := .inserting n peer s.outs.length
      outs := s.outs ++ [⟨peer, target, addr⟩]
      last := Function.update s.last s.outs.length s.now } := by
  have hgrows : Grows s { s with
      loop := .inserting n peer s.outs.length
      outs := s.outs ++ [⟨peer, target, addr⟩]
      last := Function.update s.last s.outs.length s.now } :=
    ⟨List.prefix_append _ _, List.Subset.refl _, List.Subset.refl _⟩
  obtain ⟨hsessions, htasks, hreplies, hforwarded, hreturned⟩ := hgrows.flow hs
  have hok := hs.loop
  simp only [LoopOk, hloop] at hok
  refine ⟨hs.buf, ⟨hok.1, ⟨peer, target, addr⟩, by simp, rfl⟩, hsessions, htasks, ?_, hreplies,
    hforwarded, hreturned⟩
  refine List.forall_mem_append.mpr ⟨hs.outs, List.forall_mem_singleton.mpr ?_⟩
  exact ⟨hok.2, hnew⟩

theorem Flow.inserted (hs : Flow targets s) {n : ℕ} (hloop : s.loop = .inserting n peer out) :
    Flow targets { s with
      loop := .storing n out
      sessions := Function.update s.sessions peer (some out)
      tasks := s.tasks ++ [⟨peer, out, List.replicate udpBuf 0, .receiving⟩] } := by
  have hok := hs.loop
  simp only [LoopOk, hloop] at hok
  refine ⟨hs.buf, ⟨peer, hok⟩, ?_, ?_, hs.outs, hs.replies, hs.forwarded, hs.returned⟩
  · intro p k hmap
    dsimp only at hmap
    by_cases hp : p = peer
    · subst hp
      rw [Function.update_self, Option.some.injEq] at hmap
      subst hmap
      exact hok.2
    · rw [Function.update_of_ne hp] at hmap
      exact hs.sessions p k hmap
  · refine List.forall_mem_append.mpr ⟨hs.tasks, List.forall_mem_singleton.mpr ?_⟩
    exact ⟨List.length_replicate, hok.2, trivial⟩

/-- A task can go on to any point at which it holds nothing new. -/
theorem Flow.set_task (hs : Flow targets s) {i : ℕ} {t : Reverse} (ht : TaskOk s t) :
    ∀ u ∈ s.tasks.set i t, TaskOk s u := by
  intro u hu
  rcases List.mem_or_eq_of_mem_set hu with hu | rfl
  · exact hs.tasks u hu
  · exact ht

theorem Flow.replied (hs : Flow targets s) {i : ℕ} {t : Reverse} {o : Outbound}
    (ht : s.tasks[i]? = some t) (ho : s.outs[t.out]? = some o) (data : Payload) :
    Flow targets { s with
      tasks := s.tasks.set i { t with buf := fill t.buf data, pc := .storing (filled t.buf data) }
      replies := s.replies ++ [⟨t.out, o.addr, data⟩] } := by
  have hgrows : Grows s { s with
      tasks := s.tasks.set i { t with buf := fill t.buf data, pc := .storing (filled t.buf data) }
      replies := s.replies ++ [⟨t.out, o.addr, data⟩] } :=
    ⟨List.prefix_rfl, List.Subset.refl _, List.subset_append_left _ _⟩
  obtain ⟨hsessions, htasks, hreplies, hforwarded, hreturned⟩ := hgrows.flow hs
  obtain ⟨hbuf, howns, -⟩ := hs.tasks t (List.mem_of_getElem? ht)
  refine ⟨hs.buf, hs.loop, hsessions, ?_, hs.outs, ?_, hforwarded, hreturned⟩
  · intro u hu
    rcases List.mem_or_eq_of_mem_set hu with hu | rfl
    · exact htasks u hu
    · refine ⟨(length_fill t.buf data).trans hbuf, howns, o.addr, data,
        List.mem_append_right _ (List.mem_singleton_self _), ?_⟩
      exact (take_filled_fill t.buf data).trans (by rw [hbuf])
  · refine List.forall_mem_append.mpr ⟨hreplies, List.forall_mem_singleton.mpr ?_⟩
    exact ⟨o, ho, rfl⟩

theorem flow_step (s : State) (a : Act) (s' : State) (hs : Flow targets s)
    (h : step targets s a = some s') : Flow targets s' := by
  cases step_cases h with
  | tick ms => exact { hs with }
  | recv peer data => exact hs.recv peer data
  | leave loop hloop =>
      have hok : LoopOk targets { s with loop := loop } := by
        obtain rfl | rfl | rfl := hloop <;> trivial
      exact { hs with loop := hok }
  | @hit n out peer hloop hsession =>
      have hok := hs.loop
      simp only [LoopOk, hloop] at hok
      exact { hs with loop := ⟨peer, hok, hs.sessions peer out hsession⟩ }
  | miss hloop hsession hpick =>
      have hok := hs.loop
      simp only [LoopOk, hloop] at hok
      exact { hs with loop := ⟨hok, mem_of_roundRobin hpick⟩ }
  | opened hloop lookup bindConnected hnew => exact hs.opened hloop ⟨lookup, bindConnected, hnew⟩
  | inserted hloop => exact hs.inserted hloop
  | stored hloop =>
      have hok := hs.loop
      simp only [LoopOk, hloop] at hok
      exact { hs with loop := hok }
  | @sent n out o hloop ho =>
      have hok := hs.loop
      simp only [LoopOk, hloop] at hok
      obtain ⟨peer, hclient, o', ho', rfl⟩ := hok
      rw [ho, Option.some.injEq] at ho'
      subst ho'
      refine { hs with loop := trivial, forwarded := ?_ }
      refine List.forall_mem_append.mpr ⟨hs.forwarded, List.forall_mem_singleton.mpr ?_⟩
      exact ⟨o, ho, rfl, hclient⟩
  | replied ht hpc ho data => exact hs.replied ht ho data
  | @advanced i t ht hpc pc hcase =>
      obtain ⟨hbuf, howns, -⟩ := hs.tasks t (List.mem_of_getElem? ht)
      have hok : TaskOk s { t with pc := pc } := by
        obtain rfl | rfl := hcase <;> exact ⟨hbuf, howns, trivial⟩
      exact { hs with tasks := hs.set_task hok }
  | @storedReply i n t ht hpc =>
      obtain ⟨hbuf, howns, hok⟩ := hs.tasks t (List.mem_of_getElem? ht)
      rw [hpc] at hok
      exact { hs with tasks := hs.set_task ⟨hbuf, howns, hok⟩ }
  | @returned i n t ht hpc =>
      obtain ⟨hbuf, howns, hok⟩ := hs.tasks t (List.mem_of_getElem? ht)
      rw [hpc] at hok
      refine { hs with tasks := hs.set_task ⟨hbuf, howns, trivial⟩, returned := ?_ }
      refine List.forall_mem_append.mpr ⟨hs.returned, List.forall_mem_singleton.mpr ?_⟩
      exact ⟨t.out, howns, hok⟩
  | @removed i t ht hpc =>
      obtain ⟨hbuf, howns, -⟩ := hs.tasks t (List.mem_of_getElem? ht)
      refine { hs with tasks := hs.set_task ⟨hbuf, howns, trivial⟩, sessions := ?_ }
      intro p k hmap
      dsimp only at hmap
      by_cases hp : p = t.peer
      · rw [hp, Function.update_self] at hmap
        cases hmap
      · rw [Function.update_of_ne hp] at hmap
        exact hs.sessions p k hmap

theorem flow (h : (machine targets).Reachable s) : Flow targets s := by
  refine h.invariant ⟨List.length_replicate, trivial, ?_, ?_, ?_, ?_, ?_, ?_⟩ flow_step <;>
    simp [machine]

/-- A socket stays connected to what it was opened for. -/
theorem outs_prefix_step (h : Step targets s s') : s.outs <+: s'.outs := by
  cases h with
  | opened hloop lookup bindConnected hnew => exact List.prefix_append _ _
  | _ => exact List.prefix_rfl

theorem outs_prefix_run {as : List Act} (h : (machine targets).run s as = some s') :
    s.outs <+: s'.outs :=
  Machine.run_invariant (I := fun t => s.outs <+: t.outs)
    (fun _ _ _ hprefix hstep => hprefix.trans (outs_prefix_step (step_cases hstep))) h
    List.prefix_rfl

/-- **Clients are isolated, sticky to their target, and their payloads intact.** What is
sent to a client was received, from the address it is connected to, on a socket opened
for that client; what is sent on a socket was received from the client it was opened for;
both carry exactly that datagram's bytes, up to the size of the buffer. All datagrams on
one socket go to the one address it was connected to when the session was opened, which
never changes. -/
theorem clients_isolated (h : (machine targets).Reachable s) :
    (∀ r ∈ s.returned, ∃ out o data, s.outs[out]? = some o ∧ o.peer = r.1 ∧
      ⟨out, o.addr, data⟩ ∈ s.replies ∧ r.2 = data.take udpBuf ∧
      (data.length ≤ udpBuf → r.2 = data)) ∧
    (∀ f ∈ s.forwarded, ∃ o data, s.outs[f.out]? = some o ∧ (o.peer, data) ∈ s.received ∧
      f.payload = data.take udpBuf ∧ (data.length ≤ udpBuf → f.payload = data)) ∧
    (∀ f ∈ s.forwarded, ∃ o, s.outs[f.out]? = some o ∧ f.dest = o.addr ∧ Connected targets o) ∧
    (∀ f ∈ s.forwarded, ∀ g ∈ s.forwarded, f.out = g.out → f.dest = g.dest) ∧
    (∀ as s', (machine targets).run s as = some s' → s.outs <+: s'.outs) := by
  have hflow := flow h
  refine ⟨?_, ?_, ?_, ?_, fun as s' hrun => outs_prefix_run hrun⟩
  · intro r hr
    obtain ⟨out, ⟨o, ho, hpeer⟩, src, data, hdata, hpayload⟩ := hflow.returned r hr
    obtain ⟨o', ho', hsrc⟩ := hflow.replies _ hdata
    rw [ho, Option.some.injEq] at ho'
    subst ho'
    refine ⟨out, o, data, ho, hpeer, hsrc ▸ hdata, hpayload, fun hlen => ?_⟩
    rw [hpayload, List.take_of_length_le hlen]
  · intro f hf
    obtain ⟨o, ho, -, data, hdata, hpayload⟩ := hflow.forwarded f hf
    refine ⟨o, data, ho, hdata, hpayload, fun hlen => ?_⟩
    rw [hpayload, List.take_of_length_le hlen]
  · intro f hf
    obtain ⟨o, ho, hdest, -⟩ := hflow.forwarded f hf
    exact ⟨o, ho, hdest, hflow.outs o (List.mem_of_getElem? ho)⟩
  · intro f hf g hg hout
    obtain ⟨o, ho, hdest, -⟩ := hflow.forwarded f hf
    obtain ⟨o', ho', hdest', -⟩ := hflow.forwarded g hg
    rw [hout, ho', Option.some.injEq] at ho
    rw [hdest, hdest', ho]

/-- Two clients and two targets. The second client's datagram is shorter than the first
client's, which is still in the buffer; the replies come back in the other order, and the first
client sends once more. -/
theorem clients_isolated_two_clients :
    ∃ s, (machine ["9.9.9.9:53".toList, "8.8.8.8:53".toList]).Reachable s ∧
      s.outs.map Outbound.peer = [⟨.v4 ⟨10, 0, 0, 1⟩, 4000, 0⟩, ⟨.v4 ⟨10, 0, 0, 2⟩, 4000, 0⟩] ∧
      s.forwarded.map (fun f => (f.out, f.dest)) = [(0, ⟨.v4 ⟨9, 9, 9, 9⟩, 53, 0⟩),
        (1, ⟨.v4 ⟨8, 8, 8, 8⟩, 53, 0⟩), (0, ⟨.v4 ⟨9, 9, 9, 9⟩, 53, 0⟩)] ∧
      s.returned.map Prod.fst = [⟨.v4 ⟨10, 0, 0, 2⟩, 4000, 0⟩, ⟨.v4 ⟨10, 0, 0, 1⟩, 4000, 0⟩] ∧
      (∀ r ∈ s.returned, ∃ out o data, s.outs[out]? = some o ∧ o.peer = r.1 ∧
        ⟨out, o.addr, data⟩ ∈ s.replies ∧ r.2 = data.take udpBuf ∧
        (data.length ≤ udpBuf → r.2 = data)) ∧
      (∀ f ∈ s.forwarded, ∃ o data, s.outs[f.out]? = some o ∧ (o.peer, data) ∈ s.received ∧
        f.payload = data.take udpBuf ∧ (data.length ≤ udpBuf → f.payload = data)) ∧
      ∀ f ∈ s.forwarded, ∀ g ∈ s.forwarded, f.out = g.out → f.dest = g.dest := by
  obtain ⟨s, hreach, houts, hforwarded, hreturned⟩ :
      ∃ s, (machine ["9.9.9.9:53".toList, "8.8.8.8:53".toList]).Reachable s ∧
        s.outs.map Outbound.peer =
          [⟨.v4 ⟨10, 0, 0, 1⟩, 4000, 0⟩, ⟨.v4 ⟨10, 0, 0, 2⟩, 4000, 0⟩] ∧
        s.forwarded.map (fun f => (f.out, f.dest)) = [(0, ⟨.v4 ⟨9, 9, 9, 9⟩, 53, 0⟩),
          (1, ⟨.v4 ⟨8, 8, 8, 8⟩, 53, 0⟩), (0, ⟨.v4 ⟨9, 9, 9, 9⟩, 53, 0⟩)] ∧
        s.returned.map Prod.fst =
          [⟨.v4 ⟨10, 0, 0, 2⟩, 4000, 0⟩, ⟨.v4 ⟨10, 0, 0, 1⟩, 4000, 0⟩] :=
    ⟨_, ⟨[.serve (.recv ⟨.v4 ⟨10, 0, 0, 1⟩, 4000, 0⟩ [1, 2, 3]), .serve .lookup,
      .serve (.openSession (.ok []) fun _ => none), .serve .insert, .serve .store,
      .serve (.send true),
      .serve (.recv ⟨.v4 ⟨10, 0, 0, 2⟩, 4000, 0⟩ [4]), .serve .lookup,
      .serve (.openSession (.ok []) fun _ => none), .serve .insert, .serve .store,
      .serve (.send true),
      .reverse 1 (.recv ⟨.v4 ⟨8, 8, 8, 8⟩, 53, 0⟩ [5, 6]), .reverse 1 .store,
      .reverse 0 (.recv ⟨.v4 ⟨9, 9, 9, 9⟩, 53, 0⟩ [7]), .reverse 0 .store,
      .reverse 1 (.send true), .reverse 0 (.send true),
      .serve (.recv ⟨.v4 ⟨10, 0, 0, 1⟩, 4000, 0⟩ [8, 9]), .serve .lookup, .serve .store,
      .serve (.send true)], rfl⟩, rfl, rfl, rfl⟩
  obtain ⟨hback, hout, -, hsticky, -⟩ := clients_isolated hreach
  exact ⟨s, hreach, houts, hforwarded, hreturned, hback, hout, hsticky⟩

end Gust.Udp
