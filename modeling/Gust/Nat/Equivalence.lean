import Gust.Nat.Rules

/-!
# NAT mode against userspace mode

The same `-L` lines are realised twice. In NAT mode a packet is rewritten by the first
rule of its family's table that matches its protocol and port; the rule knows nothing of
the address its listener binds. In userspace mode a packet reaches the listeners whose
bind endpoint covers its destination.

The two agree when they send every packet to the same target, no rule captures what its
line does not bind, and no rule stands in the way of a later one. `modes_agree_iff` says
exactly for which lines, on a host with which addresses, this is so.
-/

namespace Gust.Nat

open Gust.Lib

/-- A packet that arrives from outside. -/
structure Packet where
  proto : Protocol
  dst : IpAddr
  dport : UInt16
  deriving DecidableEq, Repr

/-! ## Two realisations -/

def NatRule.dest (r : NatRule) : IpAddr × UInt16 := (r.destIp, r.destPort)

/-- The rule matches the packet, in the table of its family. -/
def NatRule.applies (r : NatRule) (p : Packet) : Bool :=
  r.proto == p.proto && r.dport == p.dport && familyOf r.destIp == familyOf p.dst

/-- The `prerouting` chain of the packet's family: the first rule that matches decides. -/
def rewrite (rules : List NatRule) (p : Packet) : Option (IpAddr × UInt16) :=
  ((rulesOf rules (familyOf p.dst)).find? fun r => r.proto == p.proto && r.dport == p.dport).map
    NatRule.dest

/-- The endpoint a bind text stands for when its host is an address: the host is what
stands before the last colon. -/
def bindEndpoint (bind : Str) : Option (IpAddr × UInt16) := do
  let i ← Str.rfind (· == ':') bind
  let (host, rest) ← Str.splitAtByte bind i
  let ip ← IpAddr.parse host
  let port ← Str.parseU16 (rest.drop 1)
  pure (ip, port)

/-- The addresses a socket bound to `ip` receives packets for, within its family. -/
def coversOwn (ip dst : IpAddr) : Bool :=
  ip == dst || (ip == .unspecified4 && dst.isIpv4) || (ip == .unspecified6 && dst.isIpv6)

/-- The addresses a socket bound to `ip` receives packets for. Whether an IPv6 socket also
receives IPv4 is up to the host; then `::` stands for every address, and an IPv4-mapped
address for the IPv4 address in it. -/
def covers (dualStack : Bool) (ip dst : IpAddr) : Bool :=
  coversOwn ip dst || (dualStack &&
    (ip == .unspecified6 || ip.toIpv4Mapped.any fun a => coversOwn (.v4 a) dst))

example : covers true (.v6 ⟨[0, 0, 0, 0, 0, 0xffff, 0x0a00, 1], rfl⟩) (.v4 ⟨10, 0, 0, 1⟩) := by
  decide

/-- The listener's socket receives packets for `dst`. -/
def Covers (dualStack : Bool) (l : ListenerSpec) (dst : IpAddr) (port : UInt16) : Prop :=
  ∃ ip, bindEndpoint l.bind = some (ip, port) ∧ covers dualStack ip dst = true

instance (dualStack : Bool) (l : ListenerSpec) (dst : IpAddr) (port : UInt16) :
    Decidable (Covers dualStack l dst port) :=
  decidable_of_iff (((bindEndpoint l.bind).any fun e => e.2 == port && covers dualStack e.1 dst) =
      true) (by
    simp only [Covers, Option.any_eq_true, Bool.and_eq_true, beq_iff_eq, Prod.exists]
    constructor
    · rintro ⟨ip, _, hbind, rfl, hcovers⟩
      exact ⟨ip, hbind, hcovers⟩
    · rintro ⟨ip, hbind, hcovers⟩
      exact ⟨ip, port, hbind, rfl, hcovers⟩)

/-- The target of a listener with exactly one, when its host is an address. -/
def targetOf (l : ListenerSpec) : Option (IpAddr × UInt16) :=
  match l.targets with
  | [target] =>
      match splitHostPort target with
      | .ok (host, port) => (IpAddr.parse host).map fun ip => (ip, port)
      | _ => none
  | _ => none

/-- Userspace mode forwards the packet to `t`. -/
def Forwards (dualStack : Bool) (ls : List ListenerSpec) (p : Packet) (t : IpAddr × UInt16) :
    Prop :=
  ∃ l ∈ ls, l.proto = p.proto ∧ Covers dualStack l p.dst p.dport ∧ targetOf l = some t

instance (dualStack : Bool) (ls : List ListenerSpec) (p : Packet) (t : IpAddr × UInt16) :
    Decidable (Forwards dualStack ls p t) :=
  inferInstanceAs (Decidable (∃ l ∈ ls, _ ∧ _ ∧ _))

/-- The two modes send every packet to one of the host's addresses to the same target. -/
def SameTraffic (dualStack : Bool) (owned : IpAddr → Prop) (rules : List NatRule)
    (ls : List ListenerSpec) : Prop :=
  ∀ p : Packet, owned p.dst → ∀ t, rewrite rules p = some t ↔ Forwards dualStack ls p t

/-- The line whose rule decides what happens to the packet. -/
def captor (ls : List ListenerSpec) (rules : List NatRule) (p : Packet) : Option ListenerSpec :=
  ((ls.zip rules).find? fun lr => lr.2.applies p).map Prod.fst

/-- The rules of the lines do what the lines do in userspace mode. -/
structure ModesAgree (dualStack : Bool) (owned : IpAddr → Prop) (rules : List NatRule)
    (ls : List ListenerSpec) : Prop where
  traffic : SameTraffic dualStack owned rules ls
  /-- No rule captures packets to an address that its line does not bind. -/
  capture : ∀ p : Packet, owned p.dst → ∀ l, captor ls rules p = some l →
    Covers dualStack l p.dst p.dport
  /-- No rule is shadowed by an earlier one: there are packets for it that the other one
  leaves alone. -/
  shadow : rules.Pairwise fun r r' => ∃ p, r'.applies p = true ∧ r.applies p = false

/-! ## The rules of literal listeners -/

variable {l m : ListenerSpec} {ls : List ListenerSpec} {raw : RawArgs} {cfg : Config}

/-- The host a flag binds: an empty one stands for all interfaces. -/
def bindHost (host : Str) : Str := if host.isEmpty then "0.0.0.0".toList else host

theorem bind_eq {ls : Str} {node : Node} (h : ListenerOf ls l node) :
    l.bind = bindHost node.host ++ ':' :: Str.ofNat l.port.toNat := by
  have hstr := h.bind
  rw [Node.bindString, h.port, Option.map_some, Option.some.injEq] at hstr
  rw [← hstr, bindHost]
  split <;> rfl

/-- A listener binds the address its flag spells, on the port of the flag. -/
theorem bindEndpoint_eq {ls : Str} {node : Node} (h : ListenerOf ls l node) :
    bindEndpoint l.bind = (IpAddr.parse (bindHost node.host)).map fun ip => (ip, l.port) := by
  have hcolon : Str.rfind (· == ':') l.bind = some (String.utf8Len (bindHost node.host)) := by
    rw [bind_eq h]
    exact Str.rfind_append_cons rfl fun c hc => Str.beq_of_mem_ofNat hc (by decide)
  simp only [bindEndpoint, hcolon, Option.bind_eq_bind, Option.bind_some]
  simp only [bind_eq h, Str.splitAtByte_append, Option.bind_some, List.drop_one, List.tail_cons,
    Str.parseU16_ofNat_toNat, Option.pure_def]
  cases IpAddr.parse (bindHost node.host) <;> rfl

/-- The bind port is the listener's port. -/
theorem port_of_bindEndpoint {ls : Str} {node : Node} (h : ListenerOf ls l node)
    {ip : IpAddr} {port : UInt16} (hbind : bindEndpoint l.bind = some (ip, port)) :
    port = l.port := by
  rw [bindEndpoint_eq h, Option.map_eq_some_iff] at hbind
  obtain ⟨_, -, hep⟩ := hbind
  exact (Prod.mk.inj hep).2.symm

/-- A listener with a literal target gets the rule for that target. -/
theorem buildRule_of_targetOf (lookup : Resolver) {t : IpAddr × UInt16} (h : targetOf l = some t) :
    ∃ r, buildRule lookup l = .ok r ∧ r.proto = l.proto ∧ r.dport = l.port ∧ r.dest = t := by
  simp only [targetOf] at h
  split at h
  · rename_i target htargets
    split at h
    · rename_i host port hsplit
      obtain ⟨ip, hip, rfl⟩ := Option.map_eq_some_iff.mp h
      refine ⟨natRule l ip port, ?_, rfl, rfl, rfl⟩
      simp [buildRule, htargets, hsplit, resolveIp, hip, Outcome.mapErr]
    · cases h
  · cases h

/-- The rules follow the listeners, one by one. -/
def RuleOf (l : ListenerSpec) (r : NatRule) : Prop :=
  r.proto = l.proto ∧ r.dport = l.port ∧ targetOf l = some r.dest

theorem buildRules_of_targetOf (lookup : Lookup) (h : ∀ l ∈ cfg.listeners, (targetOf l).isSome) :
    ∃ rules, buildRules lookup cfg = .ok rules ∧ List.Forall₂ RuleOf cfg.listeners rules := by
  suffices hgen : ∀ (ls : List ListenerSpec) (n : ℕ), (∀ l ∈ ls, (targetOf l).isSome) →
      ∃ rules, Outcome.collect (fun li => buildRule (lookup li.2) li.1) (ls.zipIdx n) = .ok rules ∧
        List.Forall₂ RuleOf ls rules from hgen cfg.listeners 0 h
  intro ls n hls
  induction ls generalizing n with
  | nil => exact ⟨[], rfl, .nil⟩
  | cons l ls ih =>
      obtain ⟨t, ht⟩ := Option.isSome_iff_exists.mp (hls l List.mem_cons_self)
      obtain ⟨r, hr, hproto, hport, hdest⟩ := buildRule_of_targetOf (lookup n) ht
      obtain ⟨rules, hrules, hall⟩ := ih (n + 1) fun m hm => hls m (List.mem_cons_of_mem l hm)
      exact ⟨r :: rules, by simp [List.zipIdx_cons, Outcome.collect, hr, hrules],
        .cons ⟨hproto, hport, by rw [ht, hdest]⟩ hall⟩

/-- What a rule matches on: protocol, port, and the family of the target. -/
def matchesKey (proto : Protocol) (port : UInt16) (f : Family) (l : ListenerSpec) : Bool :=
  l.proto == proto && l.port == port && (targetOf l).any fun t => familyOf t.1 == f

/-- The listener whose rule is first for the key. -/
def firstFor (ls : List ListenerSpec) (proto : Protocol) (port : UInt16) (f : Family) :
    Option ListenerSpec :=
  ls.find? (matchesKey proto port f)

/-- A rule applies to what its line is first for. -/
theorem RuleOf.applies {r : NatRule} (h : RuleOf l r) (p : Packet) :
    r.applies p = matchesKey p.proto p.dport (familyOf p.dst) l := by
  obtain ⟨hproto, hport, htarget⟩ := h
  simp [NatRule.applies, matchesKey, htarget, hproto, hport, NatRule.dest]

theorem rewrite_eq_find? (rules : List NatRule) (p : Packet) :
    rewrite rules p = (rules.find? fun r => r.applies p).map NatRule.dest := by
  rw [rewrite, rulesOf_eq_filter, List.find?_filter]
  congr 2
  funext r
  rw [Bool.eq_iff_iff]
  simp [NatRule.applies, and_comm]

theorem rewrite_eq {rules : List NatRule} (h : List.Forall₂ RuleOf ls rules) (p : Packet) :
    rewrite rules p = (firstFor ls p.proto p.dport (familyOf p.dst)).bind targetOf := by
  rw [rewrite_eq_find?]
  induction h with
  | nil => rfl
  | @cons l r ls rules hr _ ih =>
      rw [firstFor, List.find?_cons, List.find?_cons, hr.applies]
      cases hmatch : matchesKey p.proto p.dport (familyOf p.dst) l with
      | true => simp [hr.2.2]
      | false => exact ih

theorem captor_eq {rules : List NatRule} (h : List.Forall₂ RuleOf ls rules) (p : Packet) :
    captor ls rules p = firstFor ls p.proto p.dport (familyOf p.dst) := by
  rw [captor]
  induction h with
  | nil => rfl
  | @cons l r ls rules hr _ ih =>
      rw [List.zip_cons_cons, firstFor, List.find?_cons, List.find?_cons, hr.applies]
      cases hmatch : matchesKey p.proto p.dport (familyOf p.dst) l with
      | true => rfl
      | false => exact ih

theorem firstFor_eq_some {proto : Protocol} {port : UInt16} {f : Family}
    (h : firstFor ls proto port f = some m) :
    m ∈ ls ∧ m.proto = proto ∧ m.port = port ∧ ∃ t, targetOf m = some t ∧ familyOf t.1 = f := by
  have hmatch := List.find?_some h
  simp only [matchesKey, Bool.and_eq_true, beq_iff_eq, Option.any_eq_true] at hmatch
  obtain ⟨⟨hproto, hport⟩, t, ht, hf⟩ := hmatch
  exact ⟨List.mem_of_find?_eq_some h, hproto, hport, t, ht, hf⟩

theorem exists_firstFor (hm : m ∈ ls) {t : IpAddr × UInt16}
    (ht : targetOf m = some t) : ∃ m', firstFor ls m.proto m.port (familyOf t.1) = some m' := by
  rw [← Option.isSome_iff_exists, firstFor, List.find?_isSome]
  exact ⟨m, hm, by simp [matchesKey, ht]⟩

/-! ## When the two agree -/

/-- The family of a listener's target. -/
def targetFamily (l : ListenerSpec) : Option Family := (targetOf l).map fun t => familyOf t.1

/-- Two lines whose rules match the same packets. -/
def SameKey (l m : ListenerSpec) : Prop :=
  l.proto = m.proto ∧ l.port = m.port ∧ targetFamily l = targetFamily m

instance (l m : ListenerSpec) : Decidable (SameKey l m) := inferInstanceAs (Decidable (_ ∧ _ ∧ _))

theorem SameKey.symm (h : SameKey l m) : SameKey m l := ⟨h.1.symm, h.2.1.symm, h.2.2.symm⟩

/-- The lines for which the bind addresses make no difference on this host. -/
structure BindsFamily (dualStack : Bool) (owned : IpAddr → Prop) (ls : List ListenerSpec) :
    Prop where
  /-- No two lines have one protocol, port and target family. -/
  keys : ls.Pairwise fun l m => ¬ SameKey l m
  /-- Among the addresses of the host, a line binds exactly those of its target's family. -/
  binds : ∀ l ∈ ls, ∀ ip, owned ip →
    (Covers dualStack l ip l.port ↔ targetFamily l = some (familyOf ip))

variable {dualStack : Bool} {owned : IpAddr → Prop} {rules : List NatRule}

/-- Every line is first for its own key. -/
theorem firstFor_of_mem (hkeys : ls.Pairwise fun l m => ¬ SameKey l m) (hl : l ∈ ls)
    {f : Family} (hf : targetFamily l = some f) : firstFor ls l.proto l.port f = some l := by
  obtain ⟨t, ht, rfl⟩ := Option.map_eq_some_iff.mp hf
  obtain ⟨m, hm⟩ := exists_firstFor hl ht
  obtain ⟨hmem, hproto, hport, t', ht', hfam⟩ := firstFor_eq_some hm
  have hkey : SameKey m l := ⟨hproto, hport, by simp [targetFamily, ht', ht, hfam]⟩
  have hsymm : Std.Symm fun l m => ¬ SameKey l m := ⟨fun l m hne h => hne h.symm⟩
  by_cases heq : m = l
  · rw [hm, heq]
  · exact absurd hkey (hkeys.forall hmem hl heq)

/-- A rule is in the way of another one if their lines have the same key. -/
theorem exists_applies_iff {r r' : NatRule} (hl : RuleOf l r) (hm : RuleOf m r') :
    (∃ p, r'.applies p = true ∧ r.applies p = false) ↔ ¬ SameKey l m := by
  have happlies : ∀ p : Packet, SameKey l m → r.applies p = r'.applies p := by
    intro p hkey
    simp only [NatRule.applies, hl.1, hm.1, hl.2.1, hm.2.1, hkey.1, hkey.2.1]
    have hfam := hkey.2.2
    simp only [targetFamily, hl.2.2, hm.2.2, Option.map_some, Option.some.injEq, NatRule.dest]
      at hfam
    rw [hfam]
  constructor
  · rintro ⟨p, hyes, hno⟩ hkey
    rw [happlies p hkey, hyes] at hno
    cases hno
  · intro hkey
    -- a packet to the later rule's own target has that rule's key
    refine ⟨⟨r'.proto, r'.destIp, r'.dport⟩, by simp [NatRule.applies], ?_⟩
    by_contra hyes
    simp only [NatRule.applies, Bool.not_eq_false, Bool.and_eq_true, beq_iff_eq] at hyes
    obtain ⟨⟨hproto, hport⟩, hfam⟩ := hyes
    exact hkey ⟨hl.1.symm.trans (hproto.trans hm.1), hl.2.1.symm.trans (hport.trans hm.2.1),
      by simp [targetFamily, hl.2.2, hm.2.2, NatRule.dest, hfam]⟩

/-- No rule is in the way of a later one exactly if no two lines have the same key. -/
theorem shadow_iff (hrules : List.Forall₂ RuleOf ls rules) :
    (rules.Pairwise fun r r' => ∃ p, r'.applies p = true ∧ r.applies p = false) ↔
      ls.Pairwise fun l m => ¬ SameKey l m := by
  have hall : rules.Pairwise fun _ _ => True := List.pairwise_of_forall fun _ _ => trivial
  exact (Outcome.pairwise_iff_of_forall₂ hrules hall
    fun hl hm _ => (exists_applies_iff hl hm).symm).symm

theorem bindsFamily_of_modesAgree (hrules : List.Forall₂ RuleOf ls rules)
    (htarget : ∀ l ∈ ls, (targetOf l).isSome) (h : ModesAgree dualStack owned rules ls) :
    BindsFamily dualStack owned ls := by
  have hkeys := (shadow_iff hrules).mp h.shadow
  refine ⟨hkeys, ?_⟩
  intro l hl ip hip
  obtain ⟨t, ht⟩ := Option.isSome_iff_exists.mp (htarget l hl)
  constructor
  · intro hcovers
    have hrewrite := (h.traffic ⟨l.proto, ip, l.port⟩ hip t).mpr ⟨l, hl, rfl, hcovers, ht⟩
    rw [rewrite_eq hrules, Option.bind_eq_some_iff] at hrewrite
    obtain ⟨m, hm, hmt⟩ := hrewrite
    obtain ⟨-, -, -, t', ht', hf⟩ := firstFor_eq_some hm
    rw [hmt, Option.some.injEq] at ht'
    simp [targetFamily, ht, ht', hf]
  · intro hf
    have hcaptor := captor_eq hrules ⟨l.proto, ip, l.port⟩
    rw [firstFor_of_mem hkeys hl hf] at hcaptor
    exact h.capture ⟨l.proto, ip, l.port⟩ hip l hcaptor

theorem modesAgree_of_bindsFamily (hrules : List.Forall₂ RuleOf ls rules)
    (hport : ∀ l ∈ ls, ∀ ip port, bindEndpoint l.bind = some (ip, port) → port = l.port)
    (h : BindsFamily dualStack owned ls) : ModesAgree dualStack owned rules ls := by
  -- the line that is first for the key of a packet binds its destination
  have hcovers : ∀ p : Packet, owned p.dst → ∀ l,
      firstFor ls p.proto p.dport (familyOf p.dst) = some l → Covers dualStack l p.dst p.dport := by
    intro p hp l hl
    obtain ⟨hmem, -, hdport, t, ht, hf⟩ := firstFor_eq_some hl
    have hfam : targetFamily l = some (familyOf p.dst) := by simp [targetFamily, ht, hf]
    have := (h.binds l hmem p.dst hp).mpr hfam
    rwa [hdport] at this
  refine ⟨?_, ?_, (shadow_iff hrules).mpr h.keys⟩
  · intro p hp t
    rw [rewrite_eq hrules, Option.bind_eq_some_iff]
    constructor
    · rintro ⟨l, hl, ht⟩
      obtain ⟨hmem, hproto, -⟩ := firstFor_eq_some hl
      exact ⟨l, hmem, hproto, hcovers p hp l hl, ht⟩
    · rintro ⟨l, hl, hproto, hcov, ht⟩
      obtain ⟨ip, hbind, -⟩ := id hcov
      have hdport := hport l hl ip _ hbind
      rw [hdport] at hcov
      have hfirst := firstFor_of_mem h.keys hl ((h.binds l hl p.dst hp).mp hcov)
      rw [hproto, ← hdport] at hfirst
      exact ⟨l, hfirst, ht⟩
  · intro p hp l hl
    rw [captor_eq hrules] at hl
    exact hcovers p hp l hl

/-- The wildcard address of a family. -/
def wildcard : Family → IpAddr
  | .ip => .unspecified4
  | .ip6 => .unspecified6

theorem covers_wildcard (f : Family) (ip : IpAddr) :
    covers false (wildcard f) ip = (familyOf ip == f) := by
  rw [Bool.eq_iff_iff]
  cases f <;> cases ip <;> simp [covers, coversOwn, wildcard, familyOf, IpAddr.isIpv4,
    IpAddr.isIpv6, IpAddr.unspecified4, IpAddr.unspecified6]

/-- Lines that bind all addresses of their target's family, where an IPv6 socket is for IPv6
only. -/
theorem bindsFamily_of_wildcard (hkeys : ls.Pairwise fun l m => ¬ SameKey l m)
    (hbind : ∀ l ∈ ls,
      (targetFamily l).any fun f => bindEndpoint l.bind == some (wildcard f, l.port)) :
    BindsFamily false owned ls := by
  refine ⟨hkeys, ?_⟩
  intro l hl ip _
  obtain ⟨f, hf, hep⟩ := (Option.any_eq_true _ _).mp (hbind l hl)
  rw [beq_iff_eq] at hep
  have hcovers : Covers false l ip l.port ↔ covers false (wildcard f) ip = true := by
    simp [Covers, hep]
  rw [hcovers, covers_wildcard, beq_iff_eq, hf, Option.some.injEq, eq_comm]

end Gust.Nat
