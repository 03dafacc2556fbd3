import Gust.Nat.Linux

/-!
# Forwarding switches

The kernel forwards rewritten packets of a family only if that family's sysctl is on, and
there is one for IPv4 and one for IPv6. Before it installs anything, `run` looks at the
first of them. Which families the ruleset has tables for is known only from the addresses
that the targets resolve to, and `active_forwards_iff` says for which of them NAT mode is
active with every switch it needs.
-/

namespace Gust.Nat

open Gust.Lib

variable {τ φ : Type}

/-- The forwarding switch of a family. -/
def forwarding (k : Kernel τ φ) : Family → Bool
  | .ip => k.ipForward
  | .ip6 => k.ip6Forward

/-- Every family that the ruleset has a table for is forwarded. -/
def AllForwarded (k : Kernel τ φ) (rules : List NatRule) : Prop :=
  ∀ f, rulesOf rules f ≠ [] → forwarding k f = true

/-- Every target resolves to an IPv4 address, as far as it resolves. -/
def ResolvesToIpv4 (lookup : Lookup) (cfg : Config) : Prop :=
  ∀ i l, cfg.listeners[i]? = some l → ∀ t ∈ l.targets, ∀ host port ip,
    splitHostPort t = .ok (host, port) → resolveIp (lookup i) host = .ok ip → ip.isIpv4 = true

/-! ## Families come from the resolver -/

theorem ipv4_rules_iff {lookup : Lookup} {cfg : Config} {rules : List NatRule}
    (h : buildRules lookup cfg = .ok rules) :
    (∀ r ∈ rules, r.destIp.isIpv4 = true) ↔ ResolvesToIpv4 lookup cfg := by
  constructor
  · intro hall i l hl t ht host port ip hsplit hip
    obtain ⟨r, hr, hrule⟩ := exists_rule_of_listener h hl
    obtain ⟨t', host', port', ip', htargets, hsplit', hip', rfl⟩ := buildRule_eq_ok hrule
    rw [htargets, List.mem_singleton] at ht
    subst ht
    rw [hsplit, Outcome.ok.injEq, Prod.mk.injEq] at hsplit'
    rw [← hsplit'.1, hip, Outcome.ok.injEq] at hip'
    rw [hip']
    exact hall _ hr
  · intro hall r hr
    obtain ⟨i, l, hl, t, host, port, ip, htargets, hsplit, hip, rfl⟩ :=
      exists_listener_of_rule h hr
    exact hall i l hl t (by rw [htargets]; exact List.mem_singleton_self t) host port ip hsplit hip

/-- The rules of the IPv6 table are those whose destination is not IPv4. -/
theorem rulesOf_ip6_eq_nil_iff {rules : List NatRule} :
    rulesOf rules .ip6 = [] ↔ ∀ r ∈ rules, r.destIp.isIpv4 = true := by
  simp [rulesOf, IpAddr.isIpv6]

/-! ## A run and its resolver -/

namespace NatRun

/-- What the events so far say about the rules, and the IPv4 switch about the phase. -/
def Progress (cfg : Config) (events : List Event) (s : NatRun τ φ) : Prop :=
  match s.phase with
  | .preflight | .resolving => s.installed = false ∧ ∀ lookup, Event.resolve lookup ∉ events
  | .forwarding rules => s.installed = false ∧ ∃ lookup, buildRules lookup cfg = .ok rules ∧
      ∀ lookup', Event.resolve lookup' ∈ events ↔ lookup' = lookup
  | .precleaning rules _ | .installing rules _ =>
      s.installed = false ∧ s.kernel.ipForward = true ∧
        ∃ lookup, buildRules lookup cfg = .ok rules ∧
          ∀ lookup', Event.resolve lookup' ∈ events ↔ lookup' = lookup
  | .active rules _ =>
      s.kernel.ipForward = true ∧ ∃ lookup, buildRules lookup cfg = .ok rules ∧
        ∀ lookup', Event.resolve lookup' ∈ events ↔ lookup' = lookup
  | .leaving _ code => code = some 0 ∨ code = none
  | .ended code => code = some 0 ∨ code = none ∨ s.installed = false

variable {nft : Nft τ φ} {cfg : Config} {events : List Event}

/-- The switch is on wherever `ensure_ip_forward` succeeds. -/
theorem ipForward_of_ensureIpForward {fault : Option SysctlFault} {set : Bool} {k k' : Kernel τ φ}
    {restoreFwd : Option Bool} (h : ensureIpForward fault set k = (.ok restoreFwd, k')) :
    k'.ipForward = true := by
  obtain ⟨hon, heq⟩ | ⟨-, -, heq⟩ | ⟨_, heq⟩ := ensureIpForward_cases fault set k
  · rw [heq] at h
    cases h
    exact hon
  · rw [heq] at h
    cases h
    rfl
  · rw [heq] at h
    cases h

/-- An event that is no resolution does not change what is known about the resolver. -/
theorem exists_lookup_append {rules : List NatRule} {e : Event}
    (hne : ∀ lookup, e ≠ .resolve lookup)
    (h : ∃ lookup, buildRules lookup cfg = .ok rules ∧
      ∀ lookup', Event.resolve lookup' ∈ events ↔ lookup' = lookup) :
    ∃ lookup, buildRules lookup cfg = .ok rules ∧
      ∀ lookup', Event.resolve lookup' ∈ events ++ [e] ↔ lookup' = lookup := by
  obtain ⟨lookup, hrules, honly⟩ := h
  refine ⟨lookup, hrules, ?_⟩
  intro lookup'
  simp [Ne.symm (hne lookup'), honly lookup']

theorem progress_step (events : List Event) (s : NatRun τ φ) (e : Event) (t : NatRun τ φ)
    (hs : Progress cfg events s) (h : step nft cfg s e = some t) :
    Progress cfg (events ++ [e]) t := by
  cases step_cases h with
  | preflight hphase =>
      simp only [Progress, hphase] at hs
      exact ⟨hs.1, fun lookup => by simpa using hs.2 lookup⟩
  | preflightFailed hphase =>
      simp only [Progress, hphase] at hs
      exact .inr (.inr hs.1)
  | @resolve lookup rules hphase hrules =>
      simp only [Progress, hphase] at hs
      refine ⟨hs.1, lookup, hrules, ?_⟩
      intro lookup'
      simp [hs.2 lookup']
  | resolveFailed hphase =>
      simp only [Progress, hphase] at hs
      exact .inr (.inr hs.1)
  | @forward fault rules restoreFwd k hphase hensure =>
      simp only [Progress, hphase] at hs
      obtain ⟨hinstalled, hlookup⟩ := hs
      have hon := ipForward_of_ensureIpForward hensure
      exact ⟨hinstalled, hon, exists_lookup_append (by simp) hlookup⟩
  | forwardFailed hphase =>
      simp only [Progress, hphase] at hs
      exact .inr (.inr hs.1)
  | preclean hphase =>
      simp only [Progress, hphase] at hs
      obtain ⟨hinstalled, hon, hlookup⟩ := hs
      exact ⟨hinstalled, (ipForward_tryDeletes _ _).trans hon,
        exists_lookup_append (by simp) hlookup⟩
  | install hphase =>
      simp only [Progress, hphase] at hs
      obtain ⟨-, hon, hlookup⟩ := hs
      exact ⟨hon, exists_lookup_append (by simp) hlookup⟩
  | installFailed hphase =>
      simp only [Progress, hphase] at hs
      exact .inr (.inr hs.1)
  | list hphase =>
      simp only [Progress, hphase] at hs ⊢
      obtain ⟨hon, hlookup⟩ := hs
      exact ⟨hon, exists_lookup_append (by simp) hlookup⟩
  | shutdown hphase => exact .inl rfl
  | unwind hphase => exact .inr rfl
  | drop hphase =>
      simp only [Progress, hphase] at hs
      exact hs.imp_right .inl

theorem progress_run {k₀ : Kernel τ φ} {s : NatRun τ φ}
    (h : (machine nft cfg k₀).run (machine nft cfg k₀).init events = some s) :
    Progress cfg events s := by
  have hinit : Progress cfg [] (machine nft cfg k₀).init := ⟨rfl, by simp⟩
  exact Machine.run_trace_invariant hinit progress_step h

/-- **When NAT mode is active, the kernel forwards exactly if IPv6 was on or is not
needed.** In every run, whatever the resolver answers and whatever the sysctls are: the
active phase has a switch on for each family that the ruleset has a table for if and only
if the IPv6 switch was on at the start or every target resolves to IPv4. A run that fails
has installed nothing. -/
theorem active_forwards_iff {k₀ : Kernel τ φ} {s : NatRun τ φ}
    (h : (machine nft cfg k₀).run (machine nft cfg k₀).init events = some s) :
    (∀ rules state, s.phase = .active rules state →
      (AllForwarded s.kernel rules ↔ k₀.ip6Forward = true ∨
        ∀ lookup, Event.resolve lookup ∈ events → ResolvesToIpv4 lookup cfg)) ∧
    (∀ code, s.phase = .ended (some code) → code ≠ 0 → s.installed = false) := by
  have hprogress := progress_run h
  obtain ⟨hip6, -, -⟩ := inv_run h
  refine ⟨?_, ?_⟩
  · intro rules state hphase
    simp only [Progress, hphase] at hprogress
    obtain ⟨hon, lookup, hrules, honly⟩ := hprogress
    have hresolver : (∀ lookup', Event.resolve lookup' ∈ events → ResolvesToIpv4 lookup' cfg) ↔
        rulesOf rules .ip6 = [] := by
      rw [rulesOf_ip6_eq_nil_iff, ipv4_rules_iff hrules]
      simp [honly]
    rw [hresolver, ← hip6]
    constructor
    · intro hall
      by_cases hnone : rulesOf rules .ip6 = []
      · exact .inr hnone
      · exact .inl (hall .ip6 hnone)
    · rintro hcases f hf
      cases f with
      | ip => exact hon
      | ip6 => exact hcases.resolve_right hf
  · intro code hphase hne
    simp only [Progress, hphase] at hprogress
    obtain hcode | hcode | hinstalled := hprogress
    · exact absurd (Option.some.inj hcode) hne
    · cases hcode
    · exact hinstalled

/-- Only IPv4 is forwarded, and there are no tables. -/
def ip4Host : Kernel Str Unit := ⟨true, false, fun _ => none, ()⟩

/-- An IPv4 target, with IPv6 forwarding off. -/
theorem active_forwards_ipv4 :
    ∃ cfg, buildConfig { listens := ["tcp://:8080/1.2.3.4:443".toList], nat := true } = .ok cfg ∧
      ∃ (s : NatRun Str Unit) (rules : List NatRule) (state : NatState),
        (machine textNft cfg ip4Host).Reachable s ∧
        s.phase = .active rules state ∧ AllForwarded s.kernel rules := by
  obtain ⟨cfg, rules, hcfg, hrules, hipv4⟩ : ∃ cfg rules,
      buildConfig { listens := ["tcp://:8080/1.2.3.4:443".toList], nat := true } = .ok cfg ∧
      buildRules (fun _ _ => .ok []) cfg = .ok rules ∧ ∀ r ∈ rules, r.destIp.isIpv4 = true :=
    ⟨_, _, rfl, rfl, by decide⟩
  have hensure : ensureIpForward none cfg.setIpForward ip4Host = (.ok none, ip4Host) := rfl
  refine ⟨cfg, hcfg, _, rules, ⟨true, none⟩, ⟨_, run_activate hrules hensure⟩, rfl, ?_⟩
  refine ((active_forwards_iff (run_activate hrules hensure)).1 rules _ rfl).mpr (.inr ?_)
  intro lookup hlookup
  obtain rfl : lookup = fun _ _ => .ok [] := by simpa using hlookup
  exact (ipv4_rules_iff hrules).mp hipv4

/-- An IPv6 target: the table is installed, the log says so, and the kernel drops what the
rule rewrites. -/
theorem active_without_ip6_forwarding :
    ∃ cfg, buildConfig
        { listens := ["tcp://:8080/[2001:db8::1]:443".toList], nat := true
          setIpForward := true } = .ok cfg ∧
      ∃ (s : NatRun Str Unit) (rules : List NatRule) (state : NatState),
        (machine textNft cfg ip4Host).Reachable s ∧
        s.phase = .active rules state ∧ ¬ AllForwarded s.kernel rules := by
  obtain ⟨cfg, rules, hcfg, hrules, hip6⟩ : ∃ cfg rules,
      buildConfig
        { listens := ["tcp://:8080/[2001:db8::1]:443".toList], nat := true
          setIpForward := true } = .ok cfg ∧
      buildRules (fun _ _ => .ok []) cfg = .ok rules ∧ rulesOf rules .ip6 ≠ [] :=
    ⟨_, _, rfl, rfl, by decide⟩
  have hensure : ensureIpForward none cfg.setIpForward ip4Host = (.ok none, ip4Host) := rfl
  refine ⟨cfg, hcfg, _, rules, ⟨true, none⟩, ⟨_, run_activate hrules hensure⟩, rfl, ?_⟩
  intro hall
  have hon : false = true := hall .ip6 hip6
  cases hon

end NatRun
end Gust.Nat
