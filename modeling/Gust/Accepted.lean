import Gust.Chain
import Gust.Forward.Tcp
import Gust.Forward.Udp
import Gust.Lib.IpText
import Gust.Nat.Equivalence

/-!
# What an accepted configuration promises

Validation happens once, at start-up. Everything that runs later takes its results for
granted: round robin divides by the number of targets, dialing and the NAT rules split
addresses that were only looked at, supervisors are told apart by their names.
`Config.Sound` lists what they rely on, and `buildConfig_sound` says that every accepted
configuration has it.

One promise is not kept: that all listeners can be bound together. Binds are compared as
texts, while sockets collide by address; `bound_together_iff` says which flags make the
difference. For IPv4 it is only the wildcard, since a dotted quad has one spelling.
-/

namespace Gust

open Gust.Lib

/-! ## Listeners are told apart -/

theorem pairwise_of_findDuplicate {ls : List ListenerSpec} (h : findDuplicate ls = none) :
    ls.Pairwise fun l m => ¬ (l.proto = m.proto ∧ l.bind = m.bind) := by
  induction ls with
  | nil => exact List.Pairwise.nil
  | cons l ls ih =>
      rw [findDuplicate] at h
      cases hfind : ls.find? fun m => l.proto == m.proto && l.bind == m.bind with
      | some m => simp [hfind] at h
      | none =>
          rw [hfind] at h
          rw [List.find?_eq_none] at hfind
          refine List.pairwise_cons.mpr ⟨?_, ih h⟩
          intro m hm hsame
          exact hfind m hm (by simp [hsame.1, hsame.2])

/-- The rules that involve more than one flag, once they have passed. -/
theorem crossCheck_eq_ok {listeners : List ListenerSpec} {chain : List ChainHop} {mode : Mode}
    (h : crossCheck listeners chain mode = .ok ()) :
    (mode = .nat → chain = []) ∧ (chain ≠ [] → ∀ l ∈ listeners, l.proto = .tcp) ∧
      findDuplicate listeners = none := by
  rw [crossCheck] at h
  split at h
  · cases h
  · rename_i hnat
    split at h
    · cases h
    · rename_i hudp
      split at h
      · cases h
      · rename_i hdup
        refine ⟨?_, ?_, hdup⟩
        · intro hmode
          by_contra hne
          exact hnat ⟨hmode, hne⟩
        · intro hne l hl
          rw [if_neg hne, List.find?_eq_none] at hudp
          cases hproto : l.proto with
          | tcp => rfl
          | udp => exact absurd (by rw [hproto]; rfl) (hudp l hl)

/-- A display name and a bind text are both read off the host and the port of the flag. -/
theorem name_of_buildListener {ls : Str} {l : ListenerSpec} (h : buildListener ls = .ok l) :
    ∃ host : Str, l.name = l.proto.asStr ++ ("://".toList ++ (host ++ ':' :: Str.ofNat l.port.toNat)) ∧
      l.bind = (if host.isEmpty then "0.0.0.0".toList else host) ++ ':' :: Str.ofNat l.port.toNat := by
  simp only [buildListener, Outcome.bind_eq_ok_iff, Outcome.ofOption_eq_ok_iff,
    Outcome.expect_eq_ok_iff] at h
  obtain ⟨node, -, proto, -, bind, hbind, port, hport, h⟩ := h
  by_cases htargets : node.targets = []
  · simp [htargets] at h
  · simp only [List.isEmpty_iff, htargets, if_false, Outcome.bind_eq_ok_iff] at h
    obtain ⟨⟨⟩, -, h⟩ := h
    rw [Outcome.pure_eq_ok, Outcome.ok.injEq] at h
    subst h
    rw [Node.bindString, hport, Option.map_some, Option.some.injEq] at hbind
    refine ⟨node.host, ?_, ?_⟩
    · cases hhost : node.host with
      | nil => simp
      | cons c host => simp
    · rw [← hbind]
      split <;> rfl

/-- The last colon separates a host from its port. -/
theorem host_port_inj {host host' : Str} {p p' : ℕ}
    (h : host ++ ':' :: Str.ofNat p = host' ++ ':' :: Str.ofNat p') :
    host = host' ∧ Str.ofNat p = Str.ofNat p' := by
  have hlast : ∀ (host : Str) (p : ℕ), Str.rfind (· == ':') (host ++ ':' :: Str.ofNat p) =
      some (String.utf8Len host) := fun host p =>
    Str.rfind_append_cons rfl fun c hc => Str.beq_of_mem_ofNat hc (by decide)
  have hlen : String.utf8Len host = String.utf8Len host' := by
    have := hlast host p
    rw [h, hlast host' p', Option.some.injEq] at this
    exact this.symm
  have hsplit := Str.splitAtByte_append host (':' :: Str.ofNat p)
  rw [h, hlen, Str.splitAtByte_append, Option.some.injEq, Prod.mk.injEq, List.cons.injEq] at hsplit
  exact ⟨hsplit.1.symm, hsplit.2.2.symm⟩

/-- Listeners with one name are for one protocol and one bind text. -/
theorem bind_eq_of_name_eq {ls ms : Str} {l m : ListenerSpec} (hl : buildListener ls = .ok l)
    (hm : buildListener ms = .ok m) (hname : l.name = m.name) :
    l.proto = m.proto ∧ l.bind = m.bind := by
  obtain ⟨host, hlname, hlbind⟩ := name_of_buildListener hl
  obtain ⟨host', hmname, hmbind⟩ := name_of_buildListener hm
  rw [hlname, hmname] at hname
  have hproto : l.proto = m.proto := by
    cases hp : l.proto <;> cases hq : m.proto
    · rfl
    · simp [hp, hq, Protocol.asStr] at hname
    · simp [hp, hq, Protocol.asStr] at hname
    · rfl
  rw [hproto, List.append_cancel_left_eq, List.append_cancel_left_eq] at hname
  obtain ⟨rfl, hport⟩ := host_port_inj hname
  exact ⟨hproto, by rw [hlbind, hmbind, hport]⟩

/-! ## The invariant -/

/-- What the rest of the program relies on. -/
structure Config.Sound (raw : RawArgs) (cfg : Config) : Prop where
  listeners_ne_nil : cfg.listeners ≠ []
  /-- One listener per `-L`, in their order. -/
  listeners : List.Forall₂ (fun ls l => buildListener ls = .ok l) raw.listens cfg.listeners
  /-- One hop per `-F`, in their order. -/
  chain : List.Forall₂ (fun fwd hop => buildHop fwd = .ok hop) raw.forwards cfg.chain
  targets_ne_nil : ∀ l ∈ cfg.listeners, l.targets ≠ []
  targets_split : ∀ l ∈ cfg.listeners, ∀ t ∈ l.targets, ∃ host port,
    splitHostPort t = .ok (host, port)
  /-- Round robin always picks a target, whatever the width of its counter. -/
  pick : ∀ l ∈ cfg.listeners, ∀ (w : ℕ) (rr : BitVec w),
    (Tcp.pickTarget l.targets rr).isSome = true ∧ (Udp.pickTarget l.targets rr).isSome = true
  /-- Every address that a dial splits does split. -/
  dial : ∀ l ∈ cfg.listeners, ∀ t ∈ l.targets, ∀ i, ∃ dest,
    splitHostPort (Chain.nextAddr cfg.chain t i) = .ok dest
  /-- A rule for a single target can only fail to resolve its host. -/
  rule : ∀ l ∈ cfg.listeners, ∀ t, l.targets = [t] → ∃ host port,
    splitHostPort t = .ok (host, port) ∧ ∀ lookup ip, Nat.resolveIp lookup host = .ok ip →
      Nat.buildRule lookup l = .ok (Nat.natRule l ip port)
  binds : cfg.listeners.Pairwise fun l m => ¬ (l.proto = m.proto ∧ l.bind = m.bind)
  names : cfg.listeners.Pairwise fun l m => l.name ≠ m.name
  nat : cfg.mode = .nat → cfg.chain = []
  tcp : cfg.chain ≠ [] → ∀ l ∈ cfg.listeners, l.proto = .tcp
  bufSize : 1024 ≤ cfg.bufSize.toNat ∧ cfg.bufSize.toNat ≤ 1048576
  workerThreads : cfg.workerThreads ≠ some 0

variable {raw : RawArgs} {cfg : Config}

theorem Accepted.names (h : Accepted raw cfg) :
    cfg.listeners.Pairwise fun l m => l.name ≠ m.name := by
  obtain ⟨-, -, hdup⟩ := crossCheck_eq_ok h.cross
  refine (pairwise_of_findDuplicate hdup).imp_of_mem ?_
  intro l m hl hm hne hname
  obtain ⟨ls, -, hls⟩ := Outcome.exists_mem_of_forall₂ h.listeners hl
  obtain ⟨ms, -, hms⟩ := Outcome.exists_mem_of_forall₂ h.listeners hm
  exact hne (bind_eq_of_name_eq hls hms hname)

theorem Accepted.splitHostPort_nextAddr (h : Accepted raw cfg) {l : ListenerSpec}
    (hl : l ∈ cfg.listeners) {t : Str} (ht : t ∈ l.targets) (i : ℕ) :
    ∃ dest, splitHostPort (Chain.nextAddr cfg.chain t i) = .ok dest := by
  rw [Chain.nextAddr]
  cases hnext : cfg.chain[i + 1]? with
  | some hop =>
      obtain ⟨host, port, hsplit⟩ := h.splitHostPort_addr (List.mem_of_getElem? hnext)
      exact ⟨_, hsplit⟩
  | none =>
      obtain ⟨host, port, hsplit⟩ := h.splitHostPort_target hl ht
      exact ⟨_, hsplit⟩

theorem Accepted.buildRule_single (h : Accepted raw cfg) {l : ListenerSpec}
    (hl : l ∈ cfg.listeners) {t : Str} (htargets : l.targets = [t]) :
    ∃ host port, splitHostPort t = .ok (host, port) ∧ ∀ lookup ip,
      Nat.resolveIp lookup host = .ok ip →
        Nat.buildRule lookup l = .ok (Nat.natRule l ip port) := by
  have ht : t ∈ l.targets := by
    rw [htargets]
    exact List.mem_singleton_self t
  obtain ⟨host, port, hsplit⟩ := h.splitHostPort_target hl ht
  refine ⟨host, port, hsplit, ?_⟩
  intro lookup ip hip
  simp only [Nat.buildRule, htargets, hsplit, hip, Outcome.mapErr, Outcome.ok_bind,
    Outcome.pure_eq_ok]

/-- **Every accepted configuration is sound.** -/
theorem buildConfig_sound (hcfg : buildConfig raw = .ok cfg) : cfg.Sound raw := by
  have h := buildConfig_eq_ok_iff.mp hcfg
  obtain ⟨hnat, htcp, hdup⟩ := crossCheck_eq_ok h.cross
  have htargets : ∀ l ∈ cfg.listeners, l.targets ≠ [] := by
    intro l hl
    obtain ⟨ls, -, node, hnode⟩ := h.listener hl
    exact hnode.targets_ne_nil
  refine
    { listeners_ne_nil := ?_
      listeners := h.listeners
      chain := h.chain
      targets_ne_nil := htargets
      targets_split := fun l hl t ht => h.splitHostPort_target hl ht
      pick := fun l hl w rr => ⟨isSome_roundRobin (htargets l hl) rr,
        isSome_roundRobin (htargets l hl) rr⟩
      dial := fun l hl t ht i => h.splitHostPort_nextAddr hl ht i
      rule := fun l hl t ht => h.buildRule_single hl ht
      binds := pairwise_of_findDuplicate hdup
      names := h.names
      nat := hnat
      tcp := htcp
      bufSize := h.bufSize_bounds
      workerThreads := ?_ }
  · intro hnil
    have hlen := h.listeners.length_eq
    rw [hnil, List.length_nil, List.length_eq_zero_iff] at hlen
    exact h.listens_ne_nil hlen
  · have hworkers := h.workers
    rw [checkWorkerThreads] at hworkers
    rw [h.workerThreads]
    intro hzero
    rw [if_pos hzero] at hworkers
    cases hworkers

/-- Two listeners behind one hop. -/
theorem buildConfig_sound_two_listeners :
    ∃ cfg : Config, cfg.Sound
      { listens := ["tcp://:80/10.0.0.9:80,[::1]:81".toList, "tcp://127.0.0.1:81/a.example:80".toList]
        forwards := ["socks5://hop:1080".toList] } :=
  ⟨_, buildConfig_sound rfl⟩

/-! ## Listeners that can be bound together -/

/-- Two bound addresses that cannot share a port: equal, or one of them the wildcard of the
other's family. -/
def Collide (a b : IpAddr) : Prop :=
  a = b ∨ Nat.familyOf a = Nat.familyOf b ∧ (a.isUnspecified ∨ b.isUnspecified)

/-- Two listeners whose sockets cannot be bound at the same time. -/
def Conflict (l m : ListenerSpec) : Prop :=
  l.proto = m.proto ∧ ∃ a b port, Nat.bindEndpoint l.bind = some (a, port) ∧
    Nat.bindEndpoint m.bind = some (b, port) ∧ port ≠ 0 ∧ Collide a b

/-- The listeners are bound one after the other, each next to all that are bound already. -/
def BindAll : (bound ls : List ListenerSpec) → Prop
  | _, [] => True
  | bound, l :: ls => (∀ m ∈ bound, ¬ Conflict m l) ∧ BindAll (l :: bound) ls

/-- No two listeners conflict, and in whatever order they are bound, every bind succeeds. -/
structure BoundTogether (ls : List ListenerSpec) : Prop where
  apart : ls.Pairwise fun l m => ¬ Conflict l m
  bind : ∀ order, order.Perm ls → BindAll [] order

theorem Collide.symm {a b : IpAddr} (h : Collide a b) : Collide b a :=
  h.imp Eq.symm fun ⟨hfam, hwild⟩ => ⟨hfam.symm, hwild.symm⟩

theorem Conflict.symm {l m : ListenerSpec} (h : Conflict l m) : Conflict m l := by
  obtain ⟨hproto, a, b, port, hl, hm, hport, hcollide⟩ := h
  exact ⟨hproto.symm, b, a, port, hm, hl, hport, hcollide.symm⟩

theorem bindAll_iff {bound ls : List ListenerSpec} :
    BindAll bound ls ↔
      (∀ l ∈ ls, ∀ m ∈ bound, ¬ Conflict m l) ∧ ls.Pairwise fun l m => ¬ Conflict l m := by
  induction ls generalizing bound with
  | nil => simp [BindAll]
  | cons l ls ih =>
      rw [BindAll, ih, List.pairwise_cons, List.forall_mem_cons]
      constructor
      · rintro ⟨hl, hbound, hls⟩
        refine ⟨⟨hl, fun m hm => ?_⟩, fun m hm => ?_, hls⟩
        · exact (List.forall_mem_cons.mp (hbound m hm)).2
        · exact (List.forall_mem_cons.mp (hbound m hm)).1
      · rintro ⟨⟨hl, hbound⟩, hhead, hls⟩
        exact ⟨hl, fun m hm => List.forall_mem_cons.mpr ⟨hhead m hm, hbound m hm⟩, hls⟩

/-- Listeners that do not conflict can be bound in any order. -/
theorem boundTogether_iff {ls : List ListenerSpec} :
    BoundTogether ls ↔ ls.Pairwise fun l m => ¬ Conflict l m := by
  constructor
  · exact fun h => h.apart
  · intro h
    refine ⟨h, fun order horder => bindAll_iff.mpr ⟨by simp, ?_⟩⟩
    exact (horder.pairwise_iff fun hne hc => hne hc.symm).mpr h

/-- Two hosts can share a port: neither is for all of IPv4 if both are for IPv4, and if both are
for IPv6 they are different addresses of which neither is `::`. -/
def hostsApart (host host' : Str) : Bool :=
  match IpAddr.parse (Nat.bindHost host), IpAddr.parse (Nat.bindHost host') with
  | some (.v4 _), some (.v4 _) =>
      Nat.bindHost host != "0.0.0.0".toList && Nat.bindHost host' != "0.0.0.0".toList
  | some (.v6 a), some (.v6 b) =>
      a != b && IpAddr.v6 a != .unspecified6 && IpAddr.v6 b != .unspecified6
  | _, _ => true

/-- Two flags differ in scheme or port, have the port 0, or have hosts that can share a port. -/
def flagsApart (ls ms : Str) : Bool :=
  match parseNode ls, parseNode ms with
  | .ok n, .ok m =>
      n.scheme != m.scheme || n.port != m.port || n.port == some 0 || hostsApart n.host m.host
  | _, _ => true

theorem asStr_injective : Function.Injective Protocol.asStr := by
  intro p q h
  cases p <;> cases q
  · rfl
  · exact absurd h (by decide)
  · exact absurd h (by decide)
  · rfl

/-- The text of a dotted quad is the only one for its address. -/
theorem eq_display_of_parse {s : Str} {ip : Ipv4Addr} (h : IpAddr.parse s = some (.v4 ip)) :
    s = IpAddr.displayIpv4 ip := by
  rw [IpAddr.parse] at h
  split at h
  · rename_i ip' hparse
    cases h
    exact IpAddr.eq_displayIpv4_of_parseIpv4 hparse
  · obtain ⟨_, -, h⟩ := Option.map_eq_some_iff.mp h
    cases h

/-- For hosts with different texts, sharing a port is a matter of their addresses. -/
theorem hostsApart_iff {host host' : Str} (hne : Nat.bindHost host ≠ Nat.bindHost host') :
    hostsApart host host' = true ↔ ¬ ∃ a b, IpAddr.parse (Nat.bindHost host) = some a ∧
      IpAddr.parse (Nat.bindHost host') = some b ∧ Collide a b := by
  -- the wildcard text is the text of the wildcard address
  have hwild : ∀ {h : Str} {a : Ipv4Addr}, IpAddr.parse (Nat.bindHost h) = some (.v4 a) →
      ((IpAddr.v4 a).isUnspecified = true ↔ Nat.bindHost h = "0.0.0.0".toList) := by
    intro h a ha
    constructor
    · intro hzero
      have ha₀ : a = ⟨0, 0, 0, 0⟩ := by
        simpa [IpAddr.isUnspecified, IpAddr.unspecified4, IpAddr.unspecified6] using hzero
      rw [eq_display_of_parse ha, ha₀]
      decide
    · intro htext
      have hparse : IpAddr.parse "0.0.0.0".toList = some .unspecified4 := by decide
      rw [htext, hparse] at ha
      rw [← Option.some.inj ha]
      decide
  have hsix : ∀ a : Ipv6Addr, (IpAddr.v6 a).isUnspecified = true ↔ IpAddr.v6 a = .unspecified6 := by
    intro a
    simp [IpAddr.isUnspecified, IpAddr.unspecified4]
  rw [hostsApart]
  split
  · rename_i a b ha hb
    have htexts : a ≠ b := by
      rintro rfl
      exact hne ((eq_display_of_parse ha).trans (eq_display_of_parse hb).symm)
    simp [ha, hb, Collide, htexts, hwild ha, hwild hb, Nat.familyOf, IpAddr.isIpv4]
  · rename_i a b ha hb
    simp [ha, hb, Collide, hsix, Nat.familyOf, IpAddr.isIpv4, and_assoc]
  · rename_i hv4 hv6
    simp only [true_iff]
    rintro ⟨a, b, ha, hb, hcollide⟩
    cases a with
    | v4 a =>
        cases b with
        | v4 b => exact hv4 a b ha hb
        | v6 b => simp [Collide, Nat.familyOf, IpAddr.isIpv4] at hcollide
    | v6 a =>
        cases b with
        | v4 b => simp [Collide, Nat.familyOf, IpAddr.isIpv4] at hcollide
        | v6 b => exact hv6 a b ha hb

/-- For listeners with different binds, the flags decide whether they conflict. -/
theorem flagsApart_iff {ls ms : Str} {l m : ListenerSpec} (hl : buildListener ls = .ok l)
    (hm : buildListener ms = .ok m) (hne : ¬ (l.proto = m.proto ∧ l.bind = m.bind)) :
    flagsApart ls ms = true ↔ ¬ Conflict l m := by
  obtain ⟨n, hn⟩ := buildListener_eq_ok hl
  obtain ⟨n', hn'⟩ := buildListener_eq_ok hm
  have hscheme : n.scheme = n'.scheme ↔ l.proto = m.proto := by
    rw [hn.scheme, hn'.scheme]
    exact ⟨fun h => asStr_injective h, fun h => by rw [h]⟩
  have hconflict : Conflict l m ↔ l.proto = m.proto ∧ l.port = m.port ∧ l.port ≠ 0 ∧
      ∃ a b, IpAddr.parse (Nat.bindHost n.host) = some a ∧
        IpAddr.parse (Nat.bindHost n'.host) = some b ∧ Collide a b := by
    simp only [Conflict, Nat.bindEndpoint_eq hn, Nat.bindEndpoint_eq hn', Option.map_eq_some_iff,
      Prod.mk.injEq]
    constructor
    · rintro ⟨hproto, a, b, _, ⟨_, ha, rfl, rfl⟩, ⟨_, hb, rfl, hport⟩, hzero, hcollide⟩
      exact ⟨hproto, hport.symm, hzero, _, _, ha, hb, hcollide⟩
    · rintro ⟨hproto, hport, hzero, a, b, ha, hb, hcollide⟩
      exact ⟨hproto, a, b, l.port, ⟨a, ha, rfl, rfl⟩, ⟨b, hb, rfl, hport.symm⟩, hzero, hcollide⟩
  rw [hconflict, flagsApart, hn.parsed, hn'.parsed]
  simp only [Bool.or_eq_true, bne_iff_ne, beq_iff_eq, ne_eq, hscheme, hn.port, hn'.port,
    Option.some.injEq]
  by_cases hsame : l.proto = m.proto ∧ l.port = m.port ∧ l.port ≠ 0
  · obtain ⟨hproto, hport, hzero⟩ := hsame
    have hhosts : Nat.bindHost n.host ≠ Nat.bindHost n'.host := by
      intro hhosts
      exact hne ⟨hproto, by rw [Nat.bind_eq hn, Nat.bind_eq hn', hhosts, hport]⟩
    rw [hport] at hzero
    simp [hostsApart_iff hhosts, hproto, hport, hzero]
  · constructor
    · rintro - ⟨hproto, hport, hzero, -⟩
      exact hsame ⟨hproto, hport, hzero⟩
    · intro _
      refine .inl ?_
      by_contra hall
      simp only [not_or, not_not] at hall
      exact hsame ⟨hall.1.1, hall.1.2, hall.2⟩

end Gust
