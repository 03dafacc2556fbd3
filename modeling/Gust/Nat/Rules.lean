import Gust.Nat.Nftables

/-!
# From listeners to rules

`build_rules` turns every listener into one rule, and needs an address for its target. A
target that is no address is looked up, once for each listener, and two lookups of the same
host may well differ.
-/

namespace Gust.Nat

open Gust.Lib

/-- One name lookup: the addresses of a host, in order. -/
abbrev Resolver := Str → Outcome IoError (List IpAddr)

/-- The lookups of a run of `build_rules`, by the position of the listener. -/
abbrev Lookup := ℕ → Resolver

/-- The first IPv4 address if there is one, else the last IPv6 address. -/
def preferIpv4 (fallback : Option IpAddr) : List IpAddr → Option IpAddr
  | [] => fallback
  | ip :: ips => if ip.isIpv4 then some ip else preferIpv4 (some ip) ips

/-- Literals are not looked up. -/
def resolveIp (lookup : Resolver) (host : Str) : Outcome IoError IpAddr :=
  match IpAddr.parse host with
  | some ip => .ok ip
  | none => do
      let ips ← lookup host
      .ofOption ⟨.notFound, "no address found".toList⟩ (preferIpv4 none ips)

/-- The rule that sends a listener's port to a resolved destination. -/
def natRule (l : ListenerSpec) (ip : IpAddr) (port : UInt16) : NatRule where
  proto := l.proto
  dport := l.port
  destIp := ip
  destPort := port
  comment := "gust:".toList ++ l.proto.asStr ++ ':' :: Str.ofNat l.port.toNat ++ "->".toList ++
    ip.display ++ ':' :: Str.ofNat port.toNat

/-- The characters that occur in a comment. -/
def isCommentChar (c : Char) : Bool := IpAddr.isAddrChar c || "gust:tcp:udp->".toList.contains c

theorem isCommentChar_of_mem_comment {l : ListenerSpec} {ip : IpAddr} {port : UInt16} {c : Char}
    (h : c ∈ (natRule l ip port).comment) : isCommentChar c = true := by
  have hdigits : ∀ n, (Str.ofNat n).all isCommentChar = true := by
    intro n
    rw [List.all_eq_true]
    intro d hd
    simp [isCommentChar, IpAddr.isAddrChar, Str.isDigit_of_mem_ofNat hd]
  have hdisplay : ip.display.all isCommentChar = true := by
    rw [List.all_eq_true]
    intro d hd
    simp [isCommentChar, IpAddr.isAddrChar_of_mem_display hd]
  have hproto : l.proto.asStr.all isCommentChar = true := by
    cases l.proto <;> decide
  have hlit : "gust:".toList.all isCommentChar = true ∧ "->".toList.all isCommentChar = true ∧
      isCommentChar ':' = true := by decide
  have hall : (natRule l ip port).comment.all isCommentChar = true := by
    simp only [natRule, List.all_append, List.all_cons, hdigits, hdisplay, hproto, hlit,
      Bool.and_true]
  exact List.all_eq_true.mp hall c h

/-- One turn of the loop over the listeners. -/
def buildRule (lookup : Resolver) (l : ListenerSpec) : Outcome Str NatRule :=
  match l.targets with
  | [target] => do
      let (host, port) ← (splitHostPort target).mapErr IoError.msg
      let ip ← (resolveIp lookup host).mapErr fun e =>
        "NAT target `".toList ++ host ++ "` could not be resolved to an IP: ".toList ++ e.msg
      pure (natRule l ip port)
  | targets => .err ("NAT mode requires exactly one destination per -L; `".toList ++ l.name ++
      "` has ".toList ++ Str.ofNat targets.length ++
      " (round-robin DNAT is not supported in NAT mode)".toList)

def buildRules (lookup : Lookup) (cfg : Config) : Outcome Str (List NatRule) :=
  Outcome.collect (fun li => buildRule (lookup li.2) li.1) cfg.listeners.zipIdx

theorem buildRule_eq_ok {lookup : Resolver} {l : ListenerSpec} {r : NatRule}
    (h : buildRule lookup l = .ok r) : ∃ t host port ip, l.targets = [t] ∧
      splitHostPort t = .ok (host, port) ∧ resolveIp lookup host = .ok ip ∧
      r = natRule l ip port := by
  rw [buildRule] at h
  split at h
  · rename_i t htargets
    simp only [Outcome.bind_eq_ok_iff, Outcome.mapErr_eq_ok_iff, Outcome.pure_eq_ok,
      Outcome.ok.injEq, Prod.exists] at h
    obtain ⟨host, port, hsplit, ip, hip, rfl⟩ := h
    exact ⟨t, host, port, ip, htargets, hsplit, hip, rfl⟩
  · cases h

/-- Every rule is that of a listener. -/
theorem exists_listener_of_rule {lookup : Lookup} {cfg : Config} {rules : List NatRule}
    (h : buildRules lookup cfg = .ok rules) {r : NatRule} (hr : r ∈ rules) :
    ∃ i l, cfg.listeners[i]? = some l ∧ ∃ t host port ip, l.targets = [t] ∧
      splitHostPort t = .ok (host, port) ∧ resolveIp (lookup i) host = .ok ip ∧
      r = natRule l ip port := by
  obtain ⟨⟨l, i⟩, hl, hrule⟩ := Outcome.exists_mem_of_forall₂ (Outcome.collect_eq_ok_iff.mp h) hr
  exact ⟨i, l, List.mk_mem_zipIdx_iff_getElem?.mp hl, buildRule_eq_ok hrule⟩

/-- Every listener has a rule. -/
theorem exists_rule_of_listener {lookup : Lookup} {cfg : Config} {rules : List NatRule}
    (h : buildRules lookup cfg = .ok rules) {i : ℕ} {l : ListenerSpec}
    (hl : cfg.listeners[i]? = some l) : ∃ r ∈ rules, buildRule (lookup i) l = .ok r := by
  have hmem := List.mk_mem_zipIdx_iff_getElem?.mpr hl
  exact Outcome.exists_mem_of_forall₂ (Outcome.collect_eq_ok_iff.mp h).flip hmem

end Gust.Nat
