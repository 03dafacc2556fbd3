import Gust.Chain
import Gust.Lib.Syscall

/-!
# The sockets of a connection

What the forwarder asks of the kernel for one connection: the options it sets on the
accepted socket, the sockets it opens towards the target, directly or towards the first
hop of the chain, and when it closes them. The kernel may refuse any call at any moment,
and a connection attempt or a handshake may take for ever.

Three results are about all answers of the kernel at once. `connect_prepared`: no
`connect()` is made on a socket for which the kernel has not accepted the mark and every
other option yet.
`handleConn_closes`: whatever fails, when a connection is over the accepted socket is
closed and no other socket is left open. `connect_takes`: a dial waits for five seconds per
address it tries and per hop, and no longer.
-/

namespace Gust.Socket

open Gust.Lib

/-- A call on a socket. -/
inductive SockCall
  | nonblocking
  /-- Idle time and interval of the probes in seconds, and how many are sent. -/
  | keepalive (time interval retries : ℕ)
  | nodelay
  | rcvbuf (n : ℤ)
  | sndbuf (n : ℤ)
  | mark (m : UInt32)
  /-- To any port of the unspecified address of a family. -/
  | bindAny (ipv4 : Bool)
  /-- Fails for reasons other than "in progress". -/
  | connect (sa : SocketAddr)
  /-- `from_std`. -/
  | register
  | writable
  | takeError
  /-- The SOCKS5 handshake with hop `i`. -/
  | handshake (i : ℕ)
  | read
  | write
  deriving DecidableEq, Repr

abbrev Net (α : Type) := Prog SockCall IoError α

def dialTimeout : ℕ := 5000
def handshakeTimeout : ℕ := 5000

/-- `keepalive()`, on Linux. -/
def keepalive : SockCall := .keepalive 180 25 4

/-- A `usize` as the C `int` that the kernel takes. -/
def cInt (n : UInt64) : ℤ := Int.bmod n.toNat (2 ^ 32)

/-- The explicit buffer sizes, if any. -/
def buffers (opts : SockOpts) : List SockCall :=
  (opts.rcvbuf.map fun n => SockCall.rcvbuf (cInt n)).toList ++
    (opts.sndbuf.map fun n => SockCall.sndbuf (cInt n)).toList

/-- What `tune_accepted` sets. -/
def tuning (opts : SockOpts) : List SockCall :=
  (if opts.nodelay then [.nodelay] else []) ++ [keepalive] ++ buffers opts

def tuneAccepted (fd : ℕ) (opts : SockOpts) : Net Unit := Prog.callAll fd (tuning opts)

/-- What a TCP socket is given before it connects. -/
def tcpOptions (mark : Option UInt32) (opts : SockOpts) : List SockCall :=
  [.nonblocking, keepalive] ++ (if opts.nodelay then [.nodelay] else []) ++ buffers opts ++
    (mark.map SockCall.mark).toList

def dialOne (timeout : ℕ) (mark : Option UInt32) (opts : SockOpts) (sa : SocketAddr) : Net ℕ :=
  Prog.openFd >>= fun fd => Prog.owning fd
    (Prog.callAll fd (tcpOptions mark opts) >>= fun _ => Prog.call fd (.connect sa) >>= fun _ => do
      Prog.call fd .register
      Prog.await fd .writable timeout ⟨.timedOut, "connect timed out".toList⟩
      Prog.call fd .takeError)

/-- What a UDP socket is given before it connects. -/
def udpOptions (mark : Option UInt32) (sa : SocketAddr) : List SockCall :=
  .nonblocking :: (mark.map SockCall.mark).toList ++ [.bindAny sa.ip.isIpv4]

def bindConnected (mark : Option UInt32) (sa : SocketAddr) : Net ℕ :=
  Prog.openFd >>= fun fd => Prog.owning fd
    (Prog.callAll fd (udpOptions mark sa) >>= fun _ => Prog.call fd (.connect sa) >>= fun _ =>
      Prog.call fd .register)

/-- The name lookup, which is not part of the program. -/
abbrev Lookup := Str → Outcome IoError (List SocketAddr)

/-- The addresses in order, until one succeeds; the last error is reported. -/
def tryEach (attempt : SocketAddr → Net ℕ) (noAddress : IoError) :
    Option IoError → List SocketAddr → Net ℕ
  | lastErr, [] => Prog.ofOutcome (.err (lastErr.getD noAddress))
  | _, sa :: sas => Prog.catching (attempt sa) fun e => tryEach attempt noAddress (some e) sas

/-- Literals are not looked up. -/
def tryTarget (lookup : Lookup) (attempt : SocketAddr → Net ℕ) (noAddress : IoError)
    (target : Str) : Net ℕ :=
  match SocketAddr.parse target with
  | some sa => attempt sa
  | none => Prog.ofOutcome (lookup target) >>= fun sas => tryEach attempt noAddress none sas

def dialTcp (lookup : Lookup) (addr : Str) (timeout : ℕ) (mark : Option UInt32)
    (opts : SockOpts) : Net ℕ :=
  tryTarget lookup (dialOne timeout mark opts)
    ⟨.other, "could not resolve `".toList ++ addr ++ ['`']⟩ addr

/-- `udp::new_session`. -/
def newSession (lookup : Lookup) (target : Str) (mark : Option UInt32) : Net ℕ :=
  tryTarget lookup (bindConnected mark) ⟨.other, "no target address".toList⟩ target

/-- The handshake with hop `i`, under its time limit. -/
def dialHop (hops : List ChainHop) (target : Str) (fd i : ℕ) : Net Unit :=
  Prog.ofOutcome (splitHostPort (Chain.nextAddr hops target i)) >>= fun _ =>
    match hops[i]? with
    | some hop =>
        Prog.await fd (.handshake i) handshakeTimeout
          ⟨.timedOut, "SOCKS5 handshake to ".toList ++ hop.addr ++ " timed out".toList⟩
    | none => Prog.ofOutcome .panic

/-- One handshake after another. -/
def handshakes (hops : List ChainHop) (target : Str) (fd : ℕ) : List ℕ → Net Unit
  | [] => pure ()
  | i :: is => dialHop hops target fd i >>= fun _ => handshakes hops target fd is

/-- `chain::dial`, with its time limits. -/
def dialChain (lookup : Lookup) (hops : List ChainHop) (target : Str) (mark : Option UInt32)
    (opts : SockOpts) : Net ℕ :=
  match hops with
  | [] => Prog.ofOutcome .panic
  | hop :: rest =>
      dialTcp lookup hop.addr dialTimeout mark opts >>= fun fd =>
        Prog.owning fd (handshakes (hop :: rest) target fd (List.range (rest.length + 1)))

/-- `Dialer::connect`. -/
def connect (lookup : Lookup) (chain : List ChainHop) (mark : Option UInt32) (opts : SockOpts)
    (target : Str) : Net ℕ :=
  if chain.isEmpty then dialTcp lookup target dialTimeout mark opts
  else dialChain lookup chain target mark opts

/-- A call of the relay on one of its two sockets. -/
inductive RelayCall
  | readClient
  | writeBackend
  | readBackend
  | writeClient
  deriving DecidableEq, Repr

/-- The reads and writes of the relay, in any number and order. -/
def transport (client backend : ℕ) : List RelayCall → Net Unit
  | [] => pure ()
  | c :: script =>
      (match c with
        | .readClient => Prog.call client .read
        | .writeBackend => Prog.call backend .write
        | .readBackend => Prog.call backend .read
        | .writeClient => Prog.call client .write) >>= fun _ => transport client backend script

/-- Both streams are dropped at the end. -/
def handleConn (lookup : Lookup) (cfg : Config) (target : Str) (script : List RelayCall)
    (client : ℕ) : Net Unit :=
  Prog.closing client
    (tuneAccepted client cfg.sock >>= fun _ =>
      Prog.mapErr (fun e => ⟨e.kind, "dial ".toList ++ target ++ " failed: ".toList ++ e.msg⟩)
        (connect lookup cfg.chain cfg.mark cfg.sock target) >>= fun backend =>
        Prog.closing backend (transport client backend script))

/-! ## Nothing stays open -/

section Leaves

open Prog

variable {lookup : Lookup} {attempt : SocketAddr → Net ℕ} {noAddress : IoError}

theorem leaves_dialOne (timeout : ℕ) (mark : Option UInt32) (opts : SockOpts) (sa : SocketAddr) :
    Leaves (dialOne timeout mark opts sa) fun fd => [fd] := by
  refine leaves_openFd.owning fun fd => ?_
  have hfd : fd ∈ [fd] := by simp
  refine (inert_callAll hfd _).bind fun _ => (inert_call hfd _).bind fun _ => ?_
  exact (inert_call hfd _).bind fun _ => (inert_await hfd _ _ _).bind fun _ => inert_call hfd _

theorem leaves_bindConnected (mark : Option UInt32) (sa : SocketAddr) :
    Leaves (bindConnected mark sa) fun fd => [fd] := by
  refine leaves_openFd.owning fun fd => ?_
  have hfd : fd ∈ [fd] := by simp
  exact (inert_callAll hfd _).bind fun _ => (inert_call hfd _).bind fun _ => inert_call hfd _

theorem leaves_tryEach (h : ∀ sa, Leaves (attempt sa) fun fd => [fd]) (lastErr : Option IoError)
    (sas : List SocketAddr) : Leaves (tryEach attempt noAddress lastErr sas) fun fd => [fd] := by
  induction sas generalizing lastErr with
  | nil => exact leaves_ofOutcome _ rfl
  | cons sa sas ih => exact (h sa).catching fun e => ih (some e)

theorem leaves_tryTarget (h : ∀ sa, Leaves (attempt sa) fun fd => [fd]) (target : Str) :
    Leaves (tryTarget lookup attempt noAddress target) fun fd => [fd] := by
  simp only [tryTarget]
  split
  · exact h _
  · exact Leaves.ofOutcome_bind _ fun sas => leaves_tryEach h none sas

theorem inert_handshakes (hops : List ChainHop) (target : Str) (fd : ℕ) (is : List ℕ) :
    Inert [fd] (handshakes hops target fd is) := by
  induction is with
  | nil => exact inert_pure ()
  | cons i is ih =>
      refine Inert.bind (Inert.bind (inert_ofOutcome _) fun _ => ?_) fun _ => ih
      cases hops[i]? with
      | some hop => exact inert_await (by simp) _ _ _
      | none => exact inert_ofOutcome _

theorem leaves_connect (chain : List ChainHop) (mark : Option UInt32) (opts : SockOpts)
    (target : Str) : Leaves (connect lookup chain mark opts target) fun fd => [fd] := by
  simp only [connect]
  split
  · exact leaves_tryTarget (leaves_dialOne dialTimeout mark opts) target
  · cases chain with
    | nil => exact leaves_ofOutcome _ rfl
    | cons hop rest =>
        exact (leaves_tryTarget (leaves_dialOne dialTimeout mark opts) hop.addr).owning fun fd =>
          inert_handshakes (hop :: rest) target fd _

theorem inert_transport (client backend : ℕ) (script : List RelayCall) :
    Inert [backend, client] (transport client backend script) := by
  induction script with
  | nil => exact inert_pure ()
  | cons c script ih =>
      refine Inert.bind ?_ fun _ => ih
      cases c <;> exact inert_call (by simp) _

/-- **A connection leaves no socket behind.** Whatever the kernel refuses, whether the dial
fails, times out or succeeds and whatever the relay does: when `handle_conn` is over, the
accepted socket is closed and exactly the other sockets that were open before are open. -/
theorem handleConn_closes (lookup : Lookup) (cfg : Config) (target : Str)
    (script : List RelayCall) (client : ℕ) (env : Env SockCall IoError) (w : World SockCall)
    (hw : Named w.log) (hclient : FdOpen w.log client) (fd : ℕ) :
    FdOpen ((handleConn lookup cfg target script client).run env w).2.log fd ↔
      FdOpen w.log fd ∧ fd ≠ client := by
  have hinert : Inert [client] (tuneAccepted client cfg.sock >>= fun _ =>
      Prog.mapErr (fun e => ⟨e.kind, "dial ".toList ++ target ++ " failed: ".toList ++ e.msg⟩)
        (connect lookup cfg.chain cfg.mark cfg.sock target) >>= fun backend =>
        Prog.closing backend (transport client backend script)) := by
    refine (inert_callAll (by simp) _).bind fun _ => ?_
    exact ((leaves_connect _ _ _ _).mapErr _).closing fun backend =>
      inert_transport client backend script
  exact hinert.fdOpen_closing hw hclient fd

/-- The target has two addresses; the first refuses the connection, the second times out. -/
theorem handleConn_closes_refused :
    ∃ cfg, buildConfig { listens := ["tcp://:80/backend:80".toList] } = .ok cfg ∧
      ∀ fd, ¬ FdOpen ((handleConn
        (fun _ => .ok [⟨.v4 ⟨10, 0, 0, 1⟩, 80, 0⟩, ⟨.v4 ⟨10, 0, 0, 2⟩, 80, 0⟩]) cfg
        "backend:80".toList [] 0).run
          ⟨fun _ => none, fun _ fd c => match c with
            | .connect _ => if fd = 1 then some ⟨.other, "refused".toList⟩ else none
            | _ => none, fun _ _ _ => none⟩ ⟨[.opened 0], 0⟩).2.log fd := by
  refine ⟨_, rfl, fun fd hopen => ?_⟩
  have hclosed := (handleConn_closes _ _ _ [] 0 _ ⟨[.opened 0], 0⟩ (by simp [Named, fresh,
    SysEvent.fd, SysEvent.isOpened]) (by simp [FdOpen]) fd).mp hopen
  simp [FdOpen] at hclosed

end Leaves

/-! ## Every option before the connect -/

/-- A `connect` needs something of the calls that were accepted before it. -/
def BeforeConnect (R : SocketAddr → List SockCall → Prop) (before : List SockCall) :
    SockCall → Prop
  | .connect sa => R sa before
  | _ => True

/-- What a TCP socket has been set to. -/
structure TcpPrepared (mark : Option UInt32) (opts : SockOpts) (before : List SockCall) :
    Prop where
  nonblocking : .nonblocking ∈ before
  /-- Four probes, 25 seconds apart, after three minutes. -/
  keepalive : .keepalive 180 25 4 ∈ before
  nodelay : .nodelay ∈ before ↔ opts.nodelay = true
  /-- A configured size that fits into a C `int`. -/
  rcvbuf : ∀ n, opts.rcvbuf = some n → n.toNat < 2 ^ 31 → .rcvbuf n.toNat ∈ before
  rcvbuf_none : opts.rcvbuf = none → ∀ k, .rcvbuf k ∉ before
  sndbuf : ∀ n, opts.sndbuf = some n → n.toNat < 2 ^ 31 → .sndbuf n.toNat ∈ before
  sndbuf_none : opts.sndbuf = none → ∀ k, .sndbuf k ∉ before
  /-- The configured mark, and no other. -/
  mark : ∀ m, .mark m ∈ before ↔ mark = some m

/-- What a UDP socket towards `sa` has been set to. -/
structure UdpPrepared (mark : Option UInt32) (sa : SocketAddr) (before : List SockCall) :
    Prop where
  nonblocking : .nonblocking ∈ before
  mark : ∀ m, .mark m ∈ before ↔ mark = some m
  bind : .bindAny sa.ip.isIpv4 ∈ before

/-- A size below 2 GiB is set as it is. -/
theorem cInt_of_lt {n : UInt64} (h : n.toNat < 2 ^ 31) : cInt n = n.toNat :=
  Int.bmod_eq_of_le (by omega) (by omega)

section Prepared

open Prog

variable {lookup : Lookup} {attempt : SocketAddr → Net ℕ} {noAddress : IoError}
  {R : SocketAddr → List SockCall → Prop} {base : List (SysEvent SockCall)}

theorem tcpPrepared_tcpOptions (mark : Option UInt32) (opts : SockOpts) :
    TcpPrepared mark opts (tcpOptions mark opts) where
  nonblocking := by simp [tcpOptions]
  keepalive := by simp [tcpOptions, Socket.keepalive]
  nodelay := by
    cases hnodelay : opts.nodelay <;> simp [tcpOptions, buffers, Socket.keepalive, hnodelay]
  rcvbuf n hn hlt := by simp [tcpOptions, buffers, hn, cInt_of_lt hlt]
  rcvbuf_none hn k := by
    cases hnodelay : opts.nodelay <;> simp [tcpOptions, buffers, Socket.keepalive, hnodelay, hn]
  sndbuf n hn hlt := by simp [tcpOptions, buffers, hn, cInt_of_lt hlt]
  sndbuf_none hn k := by
    cases hnodelay : opts.nodelay <;> simp [tcpOptions, buffers, Socket.keepalive, hnodelay, hn]
  mark m := by
    cases hnodelay : opts.nodelay <;> simp [tcpOptions, buffers, Socket.keepalive, hnodelay]

theorem udpPrepared_udpOptions (mark : Option UInt32) (sa : SocketAddr) :
    UdpPrepared mark sa (udpOptions mark sa) where
  nonblocking := by simp [udpOptions]
  mark m := by simp [udpOptions]
  bind := by simp [udpOptions]

theorem beforeConnect_of_mem {cs : List SockCall} (hcs : ∀ sa, .connect sa ∉ cs) {c : SockCall}
    (hc : c ∈ cs) (before : List SockCall) : BeforeConnect R before c := by
  cases c with
  | connect sa => exact absurd hc (hcs sa)
  | _ => trivial

theorem connect_notMem_tcpOptions (mark : Option UInt32) (opts : SockOpts) (sa : SocketAddr) :
    .connect sa ∉ tcpOptions mark opts := by
  cases hnodelay : opts.nodelay <;> simp [tcpOptions, buffers, keepalive, hnodelay]

theorem connect_notMem_udpOptions (mark : Option UInt32) (sa' sa : SocketAddr) :
    .connect sa ∉ udpOptions mark sa' := by
  simp [udpOptions]

theorem preserves_dialOne (timeout : ℕ) (mark : Option UInt32) (opts : SockOpts)
    (sa : SocketAddr) :
    Preserves (Guarded (BeforeConnect fun _ => TcpPrepared mark opts) base)
      (dialOne timeout mark opts sa) :=
  preserves_prepare (fun _ hc before =>
      beforeConnect_of_mem (connect_notMem_tcpOptions mark opts) hc before)
    (tcpPrepared_tcpOptions mark opts) fun _ =>
    (holds_call fun _ => trivial).bind fun _ =>
      (holds_await (fun _ => trivial) _ _).bind fun _ => holds_call fun _ => trivial

theorem preserves_bindConnected (mark : Option UInt32) (sa : SocketAddr) :
    Preserves (Guarded (BeforeConnect (UdpPrepared mark)) base) (bindConnected mark sa) :=
  preserves_prepare (fun _ hc before =>
      beforeConnect_of_mem (connect_notMem_udpOptions mark sa) hc before)
    (udpPrepared_udpOptions mark sa) fun _ => holds_call fun _ => trivial

theorem preserves_tryEach {I : List (SysEvent SockCall) → Prop}
    (hleaves : ∀ sa, Leaves (attempt sa) fun fd => [fd]) (h : ∀ sa, Preserves I (attempt sa))
    (lastErr : Option IoError) (sas : List SocketAddr) :
    Preserves I (tryEach attempt noAddress lastErr sas) := by
  induction sas generalizing lastErr with
  | nil => exact (holds_ofOutcome _).preserves
  | cons sa sas ih =>
      exact (h sa).catching (fun env w hw => (hleaves sa env w hw).named) fun e => ih (some e)

theorem preserves_tryTarget {I : List (SysEvent SockCall) → Prop}
    (hleaves : ∀ sa, Leaves (attempt sa) fun fd => [fd]) (h : ∀ sa, Preserves I (attempt sa))
    (target : Str) : Preserves I (tryTarget lookup attempt noAddress target) := by
  simp only [tryTarget]
  split
  · exact h _
  · exact Preserves.ofOutcome_bind _ fun sas => preserves_tryEach hleaves h none sas

theorem holds_handshakes (hops : List ChainHop) (target : Str) (fd : ℕ) (is : List ℕ) :
    Holds (Guarded (BeforeConnect R) base) (handshakes hops target fd is) := by
  induction is with
  | nil => exact holds_pure ()
  | cons i is ih =>
      refine Holds.bind (Holds.bind (holds_ofOutcome _) fun _ => ?_) fun _ => ih
      cases hops[i]? with
      | some hop => exact holds_await (fun _ => trivial) _ _
      | none => exact holds_ofOutcome _

theorem preserves_connect (chain : List ChainHop) (mark : Option UInt32) (opts : SockOpts)
    (target : Str) : Preserves (Guarded (BeforeConnect fun _ => TcpPrepared mark opts) base)
      (connect lookup chain mark opts target) := by
  simp only [connect]
  split
  · exact preserves_tryTarget (leaves_dialOne _ mark opts) (preserves_dialOne _ mark opts) target
  · cases chain with
    | nil => exact (holds_ofOutcome _).preserves
    | cons hop rest =>
        refine Preserves.bind ?_ fun fd => (holds_handshakes (hop :: rest) target fd _).owning
        exact preserves_tryTarget (leaves_dialOne _ mark opts) (preserves_dialOne _ mark opts)
          hop.addr

/-- **No socket connects before it carries the mark.** Whatever the kernel answers, every
`connect()` that a dial attempts, over all addresses it tries, is on a socket for which the
kernel has accepted non-blocking mode, keep-alive, no-delay and the buffer sizes if they are
configured (and below 2 GiB), and exactly the configured mark. For a UDP session these are
non-blocking mode, the mark and the bind. -/
theorem connect_prepared (lookup : Lookup) (cfg : Config) (target : Str)
    (env : Env SockCall IoError) (w : World SockCall) (hw : Named w.log) :
    Guarded (BeforeConnect fun _ => TcpPrepared cfg.mark cfg.sock) w.log
      ((connect lookup cfg.chain cfg.mark cfg.sock target).run env w).2.log ∧
    Guarded (BeforeConnect (UdpPrepared cfg.mark)) w.log
      ((newSession lookup target cfg.mark).run env w).2.log :=
  ⟨preserves_connect cfg.chain cfg.mark cfg.sock target env w hw (guarded_refl w.log),
    preserves_tryTarget (leaves_bindConnected cfg.mark) (preserves_bindConnected cfg.mark) target
      env w hw (guarded_refl w.log)⟩

/-- A marked dial with an explicit buffer size, while another socket is open. -/
theorem connect_prepared_marked :
    ∃ cfg, buildConfig
        { listens := ["tcp://:80/10.0.0.1:80".toList], mark := some 7, soRcvbuf := some 65536 } =
          .ok cfg ∧
      ∀ env, Guarded (BeforeConnect fun _ => TcpPrepared cfg.mark cfg.sock) [.opened 0]
        ((connect (fun _ => .ok []) cfg.chain cfg.mark cfg.sock "10.0.0.1:80".toList).run env
          ⟨[.opened 0], 0⟩).2.log := by
  refine ⟨_, rfl, fun env => ?_⟩
  exact (connect_prepared _ _ _ env ⟨[.opened 0], 0⟩ (by simp [Named, fresh, SysEvent.fd,
    SysEvent.isOpened])).1

end Prepared

/-! ## How long a dial waits -/

section Takes

open Prog

variable {attempt : SocketAddr → Net ℕ} {noAddress : IoError}

/-- How many addresses a dial has to try at most. -/
def addresses (lookup : Lookup) (target : Str) : ℕ :=
  match SocketAddr.parse target with
  | some _ => 1
  | none =>
      match lookup target with
      | .ok sas => sas.length
      | _ => 0

theorem takes_dialOne (timeout : ℕ) (mark : Option UInt32) (opts : SockOpts) (sa : SocketAddr) :
    Takes (dialOne timeout mark opts sa) timeout := by
  have hbody : ∀ fd, Takes (callAll fd (tcpOptions mark opts) >>= fun _ =>
      call fd (.connect sa) >>= fun _ => (do
        call fd .register
        await fd .writable timeout ⟨.timedOut, "connect timed out".toList⟩
        call fd .takeError : Net Unit)) (0 + (0 + (0 + (timeout + 0)))) := fun fd =>
    (takes_callAll fd _).bind fun _ => (takes_call fd _).bind fun _ =>
      (takes_call fd _).bind fun _ => (takes_await fd _ _ _).bind fun _ => takes_call fd _
  exact (takes_openFd.bind fun fd => (hbody fd).owning fd).mono (by omega)

theorem takes_tryEach {n : ℕ} (h : ∀ sa, Takes (attempt sa) n) (lastErr : Option IoError)
    (sas : List SocketAddr) : Takes (tryEach attempt noAddress lastErr sas) (n * sas.length) := by
  induction sas generalizing lastErr with
  | nil => exact takes_ofOutcome _
  | cons sa sas ih =>
      refine ((h sa).catching fun e => ih (some e)).mono ?_
      rw [List.length_cons, Nat.mul_succ]
      omega

theorem takes_tryTarget {n : ℕ} (lookup : Lookup) (noAddress : IoError)
    (h : ∀ sa, Takes (attempt sa) n)
    (target : Str) : Takes (tryTarget lookup attempt noAddress target)
      (n * addresses lookup target) := by
  simp only [tryTarget, addresses]
  split
  · exact (h _).mono (by omega)
  · cases lookup target with
    | ok sas => exact takes_tryEach h none sas
    | err e => exact takes_ofOutcome (.err e)
    | panic => exact takes_ofOutcome .panic

theorem takes_dialHop (hops : List ChainHop) (target : Str) (fd i : ℕ) :
    Takes (dialHop hops target fd i) handshakeTimeout := by
  refine (Takes.bind (n := handshakeTimeout) (takes_ofOutcome _) fun _ => ?_).mono (by omega)
  cases hops[i]? with
  | some hop => exact takes_await _ _ _ _
  | none => exact (takes_ofOutcome _).mono (Nat.zero_le _)

theorem takes_handshakes (hops : List ChainHop) (target : Str) (fd : ℕ) (is : List ℕ) :
    Takes (handshakes hops target fd is) (handshakeTimeout * is.length) := by
  induction is with
  | nil => exact takes_pure ()
  | cons i is ih =>
      refine ((takes_dialHop hops target fd i).bind fun _ => ih).mono ?_
      rw [List.length_cons, Nat.mul_succ]
      omega

/-- **A dial does not wait for ever.** However long the peers take, a dial waits for at most
five seconds for each address of the target, or of the first hop, and for each hop of the
chain; the name lookup comes on top. -/
theorem connect_takes (lookup : Lookup) (cfg : Config) (target : Str)
    (env : Env SockCall IoError) (w : World SockCall) :
    ((connect lookup cfg.chain cfg.mark cfg.sock target).run env w).2.clock ≤
      w.clock + 5000 * (addresses lookup (match cfg.chain with
        | [] => target
        | hop :: _ => hop.addr) + cfg.chain.length) := by
  simp only [connect]
  cases cfg.chain with
  | nil =>
      exact takes_tryTarget lookup _ (takes_dialOne dialTimeout cfg.mark cfg.sock) target env w
  | cons hop rest =>
      have hdial := (takes_tryTarget lookup
          ⟨.other, "could not resolve `".toList ++ hop.addr ++ ['`']⟩
        (takes_dialOne dialTimeout cfg.mark cfg.sock) hop.addr).bind fun fd =>
          (takes_handshakes (hop :: rest) target fd (List.range (rest.length + 1))).owning fd
      have h := hdial env w
      rw [List.length_range] at h
      rw [List.length_cons, Nat.mul_add]
      simp only [List.isEmpty_cons, Bool.false_eq_true, if_false]
      exact h

end Takes
end Gust.Socket
