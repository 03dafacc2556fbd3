import Gust.Cli
import Gust.Netopt
import Gust.Node

/-!
# The validated configuration

`buildConfig` turns raw flag values into a `Config`: it parses every `-L` and every
`-F`, checks the rules against each other, and bounds the scalars. The first failure
is returned as a text for the operator.

What later stages rely on is proved here as facts about every accepted configuration.
Each listener comes from one `-L` in order, each hop from one `-F`; every target and
every hop address splits into a non-empty host and a port; the relay buffer is neither
empty nor larger than a mebibyte; and `--nat` decides nothing about the listeners.
-/

namespace Gust

open Gust.Lib

inductive Protocol
  | tcp
  | udp
  deriving DecidableEq, Repr

def Protocol.asStr : Protocol → Str
  | tcp => "tcp".toList
  | udp => "udp".toList

/-- One `-L` rule. -/
structure ListenerSpec where
  proto : Protocol
  /-- The address to bind, as text. -/
  bind : Str
  port : UInt16
  /-- The destinations, taken in turn when there are several. -/
  targets : List Str
  nodelay : Bool
  /-- The display name. -/
  name : Str
  deriving DecidableEq, Repr

/-- One `-F` hop. -/
structure ChainHop where
  addr : Str
  user : Option Str
  pass : Option Str
  deriving DecidableEq, Repr

inductive Mode
  | userspace
  | nat
  deriving DecidableEq, Repr

structure Config where
  listeners : List ListenerSpec
  /-- The hops of the SOCKS5 chain; none for a direct dial. -/
  chain : List ChainHop
  mode : Mode
  mark : Option UInt32
  setIpForward : Bool
  /-- Relay buffer per direction, in bytes. -/
  bufSize : UInt64
  /-- Heartbeat interval, in seconds. -/
  heartbeat : UInt64
  debug : Bool
  workerThreads : Option UInt64
  sock : SockOpts
  deriving DecidableEq, Repr

def minBufKb : UInt64 := 1
def maxBufKb : UInt64 := 1024

/-- Check that a text looks like `host:port`, without resolving anything. -/
def validateHostport (s : Str) : Outcome Str Unit := do
  let (host, port) ← cutHostPort "unterminated IPv6 bracket".toList
    "missing :port after IPv6 literal".toList "missing :port".toList s
  if host.isEmpty then .err "missing host".toList
  else do
    let _ ← Outcome.ofOption ("invalid port `".toList ++ port ++ ['`']) (Str.parseU16 port)
    pure ()

/-- The protocol a scheme stands for. -/
def parseScheme (ls scheme : Str) : Outcome Str Protocol :=
  if scheme = "tcp".toList then .ok .tcp
  else if scheme = "udp".toList then .ok .udp
  else .err ("-L `".toList ++ ls ++ "`: unsupported scheme `".toList ++ scheme ++
    "` (only tcp:// and udp:// are supported)".toList)

/-- One turn of the loop over `-L`. -/
def buildListener (ls : Str) : Outcome Str ListenerSpec := do
  let node ← parseNode ls
  let proto ← parseScheme ls node.scheme
  let bind ← .ofOption ("-L `".toList ++ ls ++ "`: missing listen port".toList) node.bindString
  let port ← .expect node.port
  let targets := node.targets
  if targets.isEmpty then
    .err ("-L `".toList ++ ls ++ "`: forwarding requires a destination, e.g. ".toList ++
      proto.asStr ++ "://:".toList ++ Str.ofNat port.toNat ++ "/HOST:PORT".toList)
  else do
    Outcome.forAll (fun t => (validateHostport t).mapErr fun e =>
      "-L `".toList ++ ls ++ "` target `".toList ++ t ++ "`: ".toList ++ e) targets
    let nodelay := ((node.query.lookup "nodelay".toList).map fun v =>
      v != "false".toList && v != "0".toList).getD false
    let name :=
      if node.host.isEmpty then proto.asStr ++ "://:".toList ++ Str.ofNat port.toNat
      else proto.asStr ++ "://".toList ++ node.host ++ ':' :: Str.ofNat port.toNat
    pure ⟨proto, bind, port, targets, nodelay, name⟩

/-- One turn of the loop over `-F`. -/
def buildHop (fwd : Str) : Outcome Str ChainHop := do
  let node ← parseNode fwd
  if node.scheme ≠ "socks5".toList then
    .err ("-F `".toList ++ fwd ++ "`: only socks5:// hops are supported (got `".toList ++
      node.scheme ++ "://`)".toList)
  else do
    let addr ← .ofOption ("-F `".toList ++ fwd ++ "`: missing host:port".toList) node.authority
    (validateHostport addr).mapErr fun e => "-F `".toList ++ fwd ++ "`: ".toList ++ e
    pure ⟨addr, node.user, node.pass⟩

/-- The first two listeners, in the order of the nested loops, that share protocol
and bind text. -/
def findDuplicate : List ListenerSpec → Option (ListenerSpec × ListenerSpec)
  | [] => none
  | l :: ls =>
      match ls.find? fun m => l.proto == m.proto && l.bind == m.bind with
      | some m => some (l, m)
      | none => findDuplicate ls

/-- The rules that involve more than one flag. -/
def crossCheck (listeners : List ListenerSpec) (chain : List ChainHop) (mode : Mode) :
    Outcome Str Unit :=
  if mode = .nat ∧ chain ≠ [] then
    .err ("--nat cannot be combined with -F: kernel DNAT cannot speak SOCKS5. ".toList ++
      "Use a separate process for SOCKS5-chained listeners.".toList)
  else
    match if chain = [] then none else listeners.find? fun l => l.proto == .udp with
    | some l =>
        .err ("UDP forwarding does not support SOCKS5 chaining (-F): listener `".toList ++ l.name ++
          "` is udp://. Remove -F or drop the udp:// listener.".toList)
    | none =>
        match findDuplicate listeners with
        | some (l, m) =>
            .err ("duplicate listener: ".toList ++ l.name ++ " and ".toList ++ m.name ++
              " both bind ".toList ++ l.bind ++ " on ".toList ++ l.proto.asStr)
        | none => .ok ()

def checkBufKb (raw : RawArgs) : Outcome Str UInt64 :=
  let bufKb := raw.bufSizeKb.getD 32
  if minBufKb ≤ bufKb ∧ bufKb ≤ maxBufKb then .ok bufKb
  else .err ("--buf-size-kb must be between ".toList ++ Str.ofNat minBufKb.toNat ++ " and ".toList ++
    Str.ofNat maxBufKb.toNat ++ " (got ".toList ++ Str.ofNat bufKb.toNat ++ [')'])

/-- `m as u32` keeps the low 32 bits of a non-negative mark. -/
def checkMark (raw : RawArgs) : Outcome Str (Option UInt32) :=
  match raw.mark with
  | none => .ok none
  | some m =>
      if m < 0 then
        .err ("-M mark must be non-negative (got ".toList ++ (toString m.toInt).toList ++ [')'])
      else .ok (some (UInt32.ofNat m.toInt.toNat))

def checkWorkerThreads (raw : RawArgs) : Outcome Str Unit :=
  if raw.workerThreads = some 0 then .err "--worker-threads must be >= 1".toList else .ok ()

/-- Build and validate a configuration from the raw flag values. -/
def buildConfig (raw : RawArgs) : Outcome Str Config :=
  if raw.listens.isEmpty then
    .err ("no listeners: at least one -L is required ".toList ++
      "(e.g. -L=tcp://:8080/1.2.3.4:9090)".toList)
  else do
    let listeners ← Outcome.collect buildListener raw.listens
    let chain ← Outcome.collect buildHop raw.forwards
    let mode := if raw.nat then Mode.nat else Mode.userspace
    crossCheck listeners chain mode
    let bufKb ← checkBufKb raw
    let mark ← checkMark raw
    checkWorkerThreads raw
    pure {
      listeners := listeners
      chain := chain
      mode := mode
      mark := mark
      setIpForward := raw.setIpForward
      bufSize := bufKb * 1024
      heartbeat := raw.heartbeatSecs.getD 60
      debug := raw.debug
      workerThreads := raw.workerThreads
      sock := ⟨raw.nodelay.getD true, raw.soRcvbuf, raw.soSndbuf⟩ }

/-! ## What an accepted configuration is -/

/-- Start-up validation accepts exactly what dialing can split later. -/
theorem validateHostport_eq_ok_iff {s : Str} :
    validateHostport s = .ok () ↔ ∃ host port, splitHostPort s = .ok (host, port) := by
  simp only [validateHostport, Outcome.bind_eq_ok_iff, Prod.exists, cutHostPort_eq_ok_iff,
    splitHostPort_eq_ok_iff]
  constructor
  · rintro ⟨host, p, hcut, hok⟩
    by_cases hhost : host = []
    · simp [hhost] at hok
    · simp only [List.isEmpty_iff, hhost, if_false, Outcome.bind_eq_ok_iff,
        Outcome.ofOption_eq_ok_iff] at hok
      obtain ⟨port, hp, -⟩ := hok
      exact ⟨host, port, hhost, p, hcut, hp⟩
  · rintro ⟨host, port, hhost, p, hcut, hp⟩
    exact ⟨host, p, hcut, by simp [hhost, hp, Outcome.ofOption]⟩

/-- What one `-L` contributes: its listener is read off the parsed node, and every
target passed validation. -/
structure ListenerOf (ls : Str) (l : ListenerSpec) (node : Node) : Prop where
  parsed : parseNode ls = .ok node
  scheme : node.scheme = l.proto.asStr
  port : node.port = some l.port
  bind : node.bindString = some l.bind
  targets : l.targets = node.targets
  targets_ne_nil : l.targets ≠ []
  valid : ∀ t ∈ l.targets, validateHostport t = .ok ()

theorem parseScheme_eq_ok {ls scheme : Str} {proto : Protocol}
    (h : parseScheme ls scheme = .ok proto) : scheme = proto.asStr := by
  simp only [parseScheme] at h
  split at h
  · rename_i hs
    cases h
    exact hs
  · split at h
    · rename_i hs
      cases h
      exact hs
    · cases h

theorem buildListener_eq_ok {ls : Str} {l : ListenerSpec} (h : buildListener ls = .ok l) :
    ∃ node, ListenerOf ls l node := by
  simp only [buildListener, Outcome.bind_eq_ok_iff, Outcome.ofOption_eq_ok_iff,
    Outcome.expect_eq_ok_iff] at h
  obtain ⟨node, hnode, proto, hproto, bind, hbind, port, hport, h⟩ := h
  by_cases htargets : node.targets = []
  · simp [htargets] at h
  · simp only [List.isEmpty_iff, htargets, if_false, Outcome.bind_eq_ok_iff] at h
    obtain ⟨⟨⟩, hvalid, h⟩ := h
    rw [Outcome.forAll_eq_ok_iff] at hvalid
    simp only [Outcome.mapErr_eq_ok_iff] at hvalid
    rw [Outcome.pure_eq_ok, Outcome.ok.injEq] at h
    subst h
    exact ⟨node, hnode, parseScheme_eq_ok hproto, hport, hbind, rfl, htargets, hvalid⟩

/-- What one `-F` contributes: its address is the authority of the parsed node. -/
structure HopOf (fwd : Str) (hop : ChainHop) (node : Node) : Prop where
  parsed : parseNode fwd = .ok node
  authority : node.authority = some hop.addr
  user : hop.user = node.user
  pass : hop.pass = node.pass
  valid : validateHostport hop.addr = .ok ()

theorem buildHop_eq_ok {fwd : Str} {hop : ChainHop} (h : buildHop fwd = .ok hop) :
    ∃ node, HopOf fwd hop node := by
  simp only [buildHop, Outcome.bind_eq_ok_iff] at h
  obtain ⟨node, hnode, h⟩ := h
  by_cases hscheme : node.scheme = "socks5".toList
  · simp only [hscheme, ne_eq, not_true_eq_false, if_false, Outcome.bind_eq_ok_iff,
      Outcome.ofOption_eq_ok_iff, Outcome.mapErr_eq_ok_iff] at h
    obtain ⟨addr, haddr, ⟨⟩, hvalid, h⟩ := h
    rw [Outcome.pure_eq_ok, Outcome.ok.injEq] at h
    subst h
    exact ⟨node, hnode, haddr, rfl, rfl, hvalid⟩
  · simp only [ne_eq, hscheme, not_false_eq_true, if_true, reduceCtorEq] at h

/-- The configuration that a successful `buildConfig` returns, field by field. -/
structure Accepted (raw : RawArgs) (cfg : Config) : Prop where
  listens_ne_nil : raw.listens ≠ []
  listeners : List.Forall₂ (fun ls l => buildListener ls = .ok l) raw.listens cfg.listeners
  chain : List.Forall₂ (fun fwd hop => buildHop fwd = .ok hop) raw.forwards cfg.chain
  mode : cfg.mode = if raw.nat then Mode.nat else Mode.userspace
  cross : crossCheck cfg.listeners cfg.chain cfg.mode = .ok ()
  bufSize : ∃ kb, checkBufKb raw = .ok kb ∧ cfg.bufSize = kb * 1024
  mark : checkMark raw = .ok cfg.mark
  workers : checkWorkerThreads raw = .ok ()
  setIpForward : cfg.setIpForward = raw.setIpForward
  heartbeat : cfg.heartbeat = raw.heartbeatSecs.getD 60
  debug : cfg.debug = raw.debug
  workerThreads : cfg.workerThreads = raw.workerThreads
  sock : cfg.sock = ⟨raw.nodelay.getD true, raw.soRcvbuf, raw.soSndbuf⟩

theorem buildConfig_eq_ok_iff {raw : RawArgs} {cfg : Config} :
    buildConfig raw = .ok cfg ↔ Accepted raw cfg := by
  by_cases hne : raw.listens = []
  · refine ⟨fun h => ?_, fun h => absurd hne h.listens_ne_nil⟩
    simp [buildConfig, hne] at h
  · simp only [buildConfig, List.isEmpty_iff, hne, if_false, Outcome.bind_eq_ok_iff,
      Outcome.pure_eq_ok, Outcome.ok.injEq, Outcome.collect_eq_ok_iff]
    constructor
    · rintro ⟨ls, hls, hops, hhops, ⟨⟩, hcross, kb, hkb, mark, hmark, ⟨⟩, hworkers, rfl⟩
      exact ⟨hne, hls, hhops, rfl, hcross, ⟨kb, hkb, rfl⟩, hmark, hworkers, rfl, rfl, rfl, rfl, rfl⟩
    · intro h
      obtain ⟨kb, hkb, hbuf⟩ := h.bufSize
      refine ⟨_, h.listeners, _, h.chain, (), h.mode ▸ h.cross, kb, hkb, _, h.mark, (), h.workers, ?_⟩
      obtain ⟨_, _, _, _, _, _, _, _, _, _⟩ := cfg
      simp only [Config.mk.injEq, true_and]
      exact ⟨h.mode.symm, h.setIpForward.symm, hbuf.symm, h.heartbeat.symm, h.debug.symm,
        h.workerThreads.symm, h.sock.symm⟩

namespace Accepted

variable {raw : RawArgs} {cfg : Config}

theorem listener (h : Accepted raw cfg) {l : ListenerSpec} (hl : l ∈ cfg.listeners) :
    ∃ ls ∈ raw.listens, ∃ node, ListenerOf ls l node := by
  obtain ⟨ls, hls, hok⟩ := Outcome.exists_mem_of_forall₂ h.listeners hl
  exact ⟨ls, hls, buildListener_eq_ok hok⟩

/-- Every target of an accepted configuration splits. -/
theorem splitHostPort_target (h : Accepted raw cfg) {l : ListenerSpec} (hl : l ∈ cfg.listeners)
    {t : Str} (ht : t ∈ l.targets) : ∃ host port, splitHostPort t = .ok (host, port) := by
  obtain ⟨ls, -, node, hnode⟩ := h.listener hl
  exact validateHostport_eq_ok_iff.mp (hnode.valid t ht)

/-- Every hop address of an accepted configuration splits. -/
theorem splitHostPort_addr (h : Accepted raw cfg) {hop : ChainHop} (hhop : hop ∈ cfg.chain) :
    ∃ host port, splitHostPort hop.addr = .ok (host, port) := by
  obtain ⟨fwd, -, hok⟩ := Outcome.exists_mem_of_forall₂ h.chain hhop
  obtain ⟨node, hnode⟩ := buildHop_eq_ok hok
  exact validateHostport_eq_ok_iff.mp hnode.valid

theorem checkBufKb_eq_ok {kb : UInt64} (h : checkBufKb raw = .ok kb) : 1 ≤ kb ∧ kb ≤ 1024 := by
  unfold checkBufKb at h
  simp only at h
  split at h
  · rename_i hkb
    cases h
    exact hkb
  · cases h

/-- The relay buffer holds between one kibibyte and one mebibyte. -/
theorem bufSize_bounds (h : Accepted raw cfg) :
    1024 ≤ cfg.bufSize.toNat ∧ cfg.bufSize.toNat ≤ 1048576 := by
  obtain ⟨kb, hkb, hbuf⟩ := h.bufSize
  obtain ⟨hlo, hhi⟩ := checkBufKb_eq_ok hkb
  have hlo' : 1 ≤ kb.toNat := hlo
  have hhi' : kb.toNat ≤ 1024 := hhi
  have hmul : cfg.bufSize.toNat = kb.toNat * 1024 := by
    rw [hbuf, UInt64.toNat_mul, Nat.mod_eq_of_lt]
    · rfl
    · change kb.toNat * 1024 < 2 ^ 64
      omega
  omega

/-- `--nat` decides the mode and nothing else: without it the same flags are accepted
with the same listeners. -/
theorem userspace (h : Accepted raw cfg) :
    Accepted { raw with nat := false } { cfg with mode := .userspace } where
  listens_ne_nil := h.listens_ne_nil
  listeners := h.listeners
  chain := h.chain
  mode := rfl
  cross := by
    have hcross := h.cross
    simp only [crossCheck] at hcross ⊢
    split at hcross
    · cases hcross
    · simpa using hcross
  bufSize := h.bufSize
  mark := h.mark
  workers := h.workers
  setIpForward := h.setIpForward
  heartbeat := h.heartbeat
  debug := h.debug
  workerThreads := h.workerThreads
  sock := h.sock

end Accepted
end Gust
