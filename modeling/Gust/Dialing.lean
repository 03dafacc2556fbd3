import Gust.Forward.Udp
import Gust.Socket

/-!
# A dial with and without its system calls

The dial paths are modelled twice: by the system calls they make (`Gust.Socket`), and by what
they are about, the loop over the addresses (`Gust.dialTcp`, `Udp.newSession`) and the
handshakes on the stream to the first hop (`Chain.dial`). Here the two report the same. What
the other models leave open is taken from the kernel: the outcome of the attempt on each
address, and the replies of the hops.
-/

namespace Gust.Socket

open Gust.Lib Gust.Lib.Prog

variable {σ : Type} {lookup : Lookup} {attempt : SocketAddr → Net ℕ}
  {outcome : SocketAddr → Outcome IoError σ} {env : Env SockCall IoError} {target : Str}

/-! ## The addresses -/

/-- The attempt on an address ends in the same way whenever it is made. -/
def Settles (env : Env SockCall IoError) (attempt : SocketAddr → Net ℕ)
    (outcome : SocketAddr → Outcome IoError σ) : Prop :=
  ∀ sa w, ((attempt sa).run env w).1.Agrees (outcome sa)

/-- So it does if the kernel refuses nothing but a `connect`, to each address for a reason of its
own, and decides every connection in time. -/
theorem settles_dialOne {timeout : ℕ} {mark : Option UInt32} {opts : SockOpts}
    {verdict : SocketAddr → Option IoError} (hopens : ∀ log, env.opens log = none)
    (hconnect : ∀ log fd sa, env.call log fd (.connect sa) = verdict sa)
    (hcall : ∀ log fd c, (∀ sa, c ≠ .connect sa) → env.call log fd c = none)
    (hdelay : ∀ log fd, ∃ t ≤ timeout, env.delay log fd .writable = some t) :
    Settles env (dialOne timeout mark opts) fun sa => answer (verdict sa) := by
  intro sa w
  rw [dialOne, run_bind]
  simp only [openFd, hopens]
  refine agrees_owning _ (agrees_callAll_bind ?_ (fun w => ?_) _)
  · exact fun c hc log => hcall log _ c fun sa' heq =>
      connect_notMem_tcpOptions mark opts sa' (heq ▸ hc)
  · rw [run_bind]
    simp only [call, hconnect]
    cases verdict sa with
    | some e => exact .err e
    | none =>
        refine agrees_call_bind (fun log => hcall log _ _ (by simp)) (fun w => ?_) _
        refine agrees_await_bind (fun log => hcall log _ _ (by simp)) (fun log => hdelay log _)
          (fun w => ?_) w
        simp only [hcall w.log _ .takeError (by simp)]
        exact .ok () ()

section Loop

variable {each : Option IoError → List SocketAddr → Outcome IoError σ} {noAddress : IoError}

/-- A loop that tries the addresses in order and keeps the last error. -/
theorem agrees_tryEach (h : Settles env attempt outcome)
    (hnil : ∀ lastErr, each lastErr [] = .err (lastErr.getD noAddress))
    (hcons : ∀ lastErr sa sas, each lastErr (sa :: sas) = match outcome sa with
      | .ok b => .ok b
      | .err e => each (some e) sas
      | .panic => .panic)
    (lastErr : Option IoError) (sas : List SocketAddr) (w : World SockCall) :
    ((tryEach attempt noAddress lastErr sas).run env w).1.Agrees (each lastErr sas) := by
  induction sas generalizing lastErr w with
  | nil =>
      rw [hnil]
      exact .err _
  | cons sa sas ih =>
      have hcatching := agrees_catching (h sa w) fun e w' => ih (some e) w'
      rw [tryEach, hcons]
      cases hsa : outcome sa <;> simpa only [hsa] using hcatching

theorem agrees_tryTarget (h : Settles env attempt outcome)
    (hnil : ∀ lastErr, each lastErr [] = .err (lastErr.getD noAddress))
    (hcons : ∀ lastErr sa sas, each lastErr (sa :: sas) = match outcome sa with
      | .ok b => .ok b
      | .err e => each (some e) sas
      | .panic => .panic)
    (target : Str) (w : World SockCall) :
    ((tryTarget lookup attempt noAddress target).run env w).1.Agrees
      (match SocketAddr.parse target with
      | some sa => outcome sa
      | none => lookup target >>= each none) := by
  rw [tryTarget]
  cases SocketAddr.parse target with
  | some sa => exact h sa w
  | none => exact agrees_ofOutcome_bind fun sas => agrees_tryEach h hnil hcons none sas w

end Loop

/-- `dial_tcp` by its system calls is the loop over the addresses. -/
theorem agrees_dialTcp {timeout : ℕ} {mark : Option UInt32} {opts : SockOpts}
    (h : Settles env (dialOne timeout mark opts) outcome) (addr : Str) (w : World SockCall) :
    ((dialTcp lookup addr timeout mark opts).run env w).1.Agrees
      (Gust.dialTcp lookup outcome addr) :=
  agrees_tryTarget h (fun _ => rfl) (fun _ _ _ => rfl) addr w

/-- What binding and connecting a socket for an address comes to. -/
def boundTo (bind : SocketAddr → Option IoError) (sa : SocketAddr) : Outcome IoError SocketAddr :=
  match bind sa with
  | none => .ok sa
  | some e => .err e

/-- `new_session` by its system calls ends as the serve loop's model has it. -/
theorem agrees_newSession {mark : Option UInt32} {bind : SocketAddr → Option IoError}
    (h : Settles env (bindConnected mark) (boundTo bind)) (target : Str) (w : World SockCall) :
    ((newSession lookup target mark).run env w).1.Agrees
      (Udp.newSession (lookup target) bind target) := by
  refine agrees_tryTarget h (fun _ => rfl) (fun lastErr sa sas => ?_) target w
  rw [Udp.firstBound, boundTo]
  cases bind sa <;> rfl

/-! ## The handshakes -/

/-- The hops reply to the handshakes as they do on the stream `d`, and in time. -/
def RepliesOn (env : Env SockCall IoError) (hops : List ChainHop) (target : Str) :
    List ℕ → Duplex → Prop
  | [], _ => True
  | i :: is, d =>
      (∀ log fd, answer (env.call log fd (.handshake i)) =
          ((Chain.dialHop hops target i).run d).1 ∧
        ∃ t ≤ handshakeTimeout, env.delay log fd (.handshake i) = some t) ∧
      RepliesOn env hops target is ((Chain.dialHop hops target i).run d).2

theorem fst_run_dialHop {hops : List ChainHop} {i : ℕ} {d : Duplex} {fd t : ℕ}
    {w : World SockCall} (hanswer : answer (env.call w.log fd (.handshake i)) =
      ((Chain.dialHop hops target i).run d).1)
    (ht : t ≤ handshakeTimeout) (hdelay : env.delay w.log fd (.handshake i) = some t) :
    ((dialHop hops target fd i).run env w).1 = ((Chain.dialHop hops target i).run d).1 := by
  cases hsplit : splitHostPort (Chain.nextAddr hops target i) with
  | ok dest =>
      cases hhop : hops[i]? with
      | some hop =>
          rw [← hanswer, dialHop, hsplit, hhop]
          exact fst_run_await hdelay ht _
      | none =>
          rw [dialHop, Chain.dialHop, hsplit, hhop]
          rfl
  | err e =>
      rw [dialHop, Chain.dialHop, hsplit]
      rfl
  | panic =>
      rw [dialHop, Chain.dialHop, hsplit]
      rfl

/-- The handshakes end as they do on the stream. -/
theorem fst_run_handshakes {hops : List ChainHop} {is : List ℕ} {d : Duplex}
    (h : RepliesOn env hops target is d) (fd : ℕ) (w : World SockCall) :
    ((handshakes hops target fd is).run env w).1 =
      ((Client.sequence (is.map (Chain.dialHop hops target))).run d).1 := by
  induction is generalizing d w with
  | nil => rfl
  | cons i is ih =>
      obtain ⟨hone, hrest⟩ := h
      obtain ⟨hanswer, t, ht, hdelay⟩ := hone w.log fd
      have hhop := fst_run_dialHop hanswer ht hdelay
      rw [List.map_cons, Client.sequence, Client.run_bind, handshakes, run_bind]
      rcases hrun : (dialHop hops target fd i).run env w with ⟨y, w'⟩
      rcases hrun' : (Chain.dialHop hops target i).run d with ⟨y', d'⟩
      rw [hrun, hrun'] at hhop
      obtain rfl : y = y' := hhop
      rw [hrun'] at hrest
      cases y with
      | ok _ => exact ih hrest w'
      | err e => rfl
      | panic => rfl

/-- `chain::dial` by its system calls: the first hop is dialed, and then the handshakes are
made on its stream. -/
theorem agrees_dialChain {hop : ChainHop} {rest : List ChainHop} {mark : Option UInt32}
    {opts : SockOpts} {d : Duplex} (h : Settles env (dialOne dialTimeout mark opts) outcome)
    (hreplies : RepliesOn env (hop :: rest) target (List.range (rest.length + 1)) d)
    (w : World SockCall) :
    ((dialChain lookup (hop :: rest) target mark opts).run env w).1.Agrees
      (Gust.dialTcp lookup outcome hop.addr >>= fun _ =>
        ((Chain.dial (hop :: rest) target).run d).1) := by
  refine agrees_bind (agrees_dialTcp h hop.addr w) fun fd w' _ _ => ?_
  refine agrees_owning fd ?_
  rw [fst_run_handshakes hreplies]
  exact agrees_refl _

/-- **`Dialer::connect` by its system calls reports what it is about**: the outcome of the first
address that answers, or of the handshakes on the stream to the first hop. -/
theorem connect_agrees {cfg : Config} {d : Duplex} {outcome : SocketAddr → Outcome IoError Unit}
    (h : Settles env (dialOne dialTimeout cfg.mark cfg.sock) outcome)
    (hreplies : RepliesOn env cfg.chain target (List.range cfg.chain.length) d)
    (w : World SockCall) :
    ((connect lookup cfg.chain cfg.mark cfg.sock target).run env w).1.Agrees
      (match cfg.chain with
      | [] => Gust.dialTcp lookup outcome target
      | hop :: _ => Gust.dialTcp lookup outcome hop.addr >>= fun _ =>
          ((Chain.dial cfg.chain target).run d).1) := by
  rw [connect]
  cases hchain : cfg.chain with
  | nil => exact agrees_dialTcp h target w
  | cons hop rest =>
      rw [hchain] at hreplies
      exact agrees_dialChain h hreplies w

/-- A kernel that refuses nothing but the connects to one address. -/
def refuses (ip : IpAddr) : Env SockCall IoError where
  opens _ := none
  call _ _ c :=
    match c with
    | .connect sa => if sa.ip = ip then some ⟨.other, "refused".toList⟩ else none
    | _ => none
  delay _ _ _ := some 0

/-- The name has two addresses, and the first refuses. -/
theorem connect_agrees_second_address (w : World SockCall) :
    ∃ cfg, buildConfig { listens := ["tcp://:80/backend:80".toList] } = .ok cfg ∧
      ((connect (fun _ => .ok [⟨.v4 ⟨10, 0, 0, 1⟩, 80, 0⟩, ⟨.v4 ⟨10, 0, 0, 2⟩, 80, 0⟩]) cfg.chain
        cfg.mark cfg.sock "backend:80".toList).run (refuses (.v4 ⟨10, 0, 0, 1⟩)) w).1.Agrees
          (.ok () : Outcome IoError Unit) := by
  obtain ⟨cfg, hcfg, hchain⟩ : ∃ cfg,
      buildConfig { listens := ["tcp://:80/backend:80".toList] } = .ok cfg ∧ cfg.chain = [] :=
    ⟨_, rfl, rfl⟩
  have hsettles : Settles (refuses (.v4 ⟨10, 0, 0, 1⟩))
      (dialOne dialTimeout cfg.mark cfg.sock) fun sa => answer
        (if sa.ip = .v4 ⟨10, 0, 0, 1⟩ then some ⟨.other, "refused".toList⟩ else none) := by
    refine settles_dialOne (fun _ => rfl) (fun _ _ _ => rfl) ?_ fun _ _ => ⟨0, Nat.zero_le _, rfl⟩
    intro log fd c hc
    cases c with
    | connect sa => exact absurd rfl (hc sa)
    | _ => rfl
  refine ⟨cfg, hcfg, ?_⟩
  have hconnect := @connect_agrees
    (fun _ => .ok [⟨.v4 ⟨10, 0, 0, 1⟩, 80, 0⟩, ⟨.v4 ⟨10, 0, 0, 2⟩, 80, 0⟩]) _ "backend:80".toList
    cfg ⟨[], []⟩ _ hsettles (by rw [hchain]; trivial) w
  rw [hchain] at hconnect ⊢
  exact hconnect

end Gust.Socket
