import Gust.Chain
import Gust.Lib.IpText
import Gust.NodeText

/-!
# Addresses without their brackets

A flag names a host and a port. The parser drops the brackets of an IPv6 host, and
`authority` and `bindString` put host and port together again without them; the text that
is stored is taken apart later by other parsers.

All parsers of a `host:port` agree (`hostPort_parsers_agree`), apart from the empty host and
the missing port that only a flag may have.

Splitting at the last colon still finds the host and the port of the flag, for whatever
host was accepted (`hop_names_flag`): a host that starts with a bracket of its own would be
cut differently, but validation has rejected it. The parser of socket addresses is less
forgiving. It takes an IPv6 address in brackets only, so the stored text is a literal
exactly if the address is IPv4 (`stored_literal_iff`).
-/

namespace Gust

open Gust.Lib
open String (utf8Len)

/-! ## Where the host and the port stand in a flag -/

theorem splitAuthority_eq_ok {authority hostport : Str} {userinfo : Option Str}
    (h : splitAuthority authority = .ok (userinfo, hostport)) :
    authority = authorityText userinfo hostport ∧ '@' ∉ hostport := by
  unfold splitAuthority at h
  split at h
  · rename_i i hfind
    obtain ⟨pre, post, rfl, rfl, hpost⟩ := Str.rfind_delim_iff.mp hfind
    have hsize : '@'.utf8Size = 1 := rfl
    rw [Str.sliceTo_append, Str.sliceFrom_append_cons _ _ hsize, Outcome.ok_bind, Outcome.ok_bind,
      Outcome.pure_eq_ok, Outcome.ok.injEq, Prod.mk.injEq] at h
    obtain ⟨rfl, rfl⟩ := h
    exact ⟨rfl, fun hmem => hpost '@' hmem rfl⟩
  · rename_i hfind
    rw [Outcome.ok.injEq, Prod.mk.injEq] at h
    obtain ⟨rfl, rfl⟩ := h
    refine ⟨rfl, fun hmem => ?_⟩
    simpa using Str.rfind_eq_none_iff.mp hfind '@' hmem

/-- The authority is what stands before the first slash or question mark. -/
theorem exists_authority (rest : Str) : ∃ authority remainder, rest = authority ++ remainder ∧
    (Str.find (fun c => c == '/' || c == '?') rest).getD (utf8Len rest) = utf8Len authority ∧
    (∀ c ∈ authority, c ≠ '/' ∧ c ≠ '?') ∧ ∀ c, remainder.head? = some c → c = '/' ∨ c = '?' := by
  cases hfind : Str.find (fun c => c == '/' || c == '?') rest with
  | none =>
      refine ⟨rest, [], (List.append_nil rest).symm, rfl, ?_, by simp⟩
      intro c hc
      simpa using Str.find_eq_none_iff.mp hfind c hc
  | some i =>
      obtain ⟨pre, c, post, rfl, rfl, hc, hpre⟩ := Str.find_eq_some_iff.mp hfind
      refine ⟨pre, c :: post, rfl, rfl, ?_, ?_⟩
      · intro d hd
        simpa using hpre d hd
      · intro d hd
        rw [List.head?_cons, Option.some.injEq] at hd
        subst hd
        simpa using hc

/-- A string that the parser accepts has the shape it looks for. -/
theorem shape_of_parseNode {raw : Str} {node : Node} (h : parseNode raw = .ok node) :
    ∃ scheme userinfo hostport remainder,
      Shape (Str.trim raw) scheme userinfo hostport remainder ∧
      parseHostPort hostport = .ok (node.host, node.port) := by
  simp only [parseNode] at h
  split at h
  · cases h
  simp only [Outcome.bind_eq_ok_iff, Outcome.ofOption_eq_ok_iff] at h
  obtain ⟨i, hfind, name, hname, h⟩ := h
  obtain ⟨scheme, rest, htext, rfl, hscheme⟩ := Str.findStr_eq_some (by decide) hfind
  rw [htext, Str.sliceTo_append, Outcome.ok.injEq] at hname
  subst hname
  split at h
  · cases h
  rename_i hlower
  have hne : scheme ≠ [] := by
    rintro rfl
    exact hlower rfl
  have hlen : utf8Len scheme + 3 = utf8Len (scheme ++ "://".toList) := by
    rw [String.utf8Len_append]
    rfl
  rw [htext, hlen, ← List.append_assoc, Str.sliceFrom_append, Outcome.bind_eq_ok_iff] at h
  obtain ⟨_, hrest, h⟩ := h
  cases hrest
  obtain ⟨authority, remainder, rfl, hend, hauthority, hremainder⟩ := exists_authority rest
  simp only [parseRest, hend, Str.sliceTo_append, Str.sliceFrom_append, Outcome.ok_bind,
    Outcome.bind_eq_ok_iff, Prod.exists, Outcome.mapErr_eq_ok_iff, Outcome.pure_eq_ok,
    Outcome.ok.injEq] at h
  obtain ⟨path, queryStr, -, userinfo, hostport, hsplit, user, pass, -, host, port, hhost, query, -,
    rfl⟩ := h
  obtain ⟨rfl, hat⟩ := splitAuthority_eq_ok hsplit
  exact ⟨scheme, userinfo, hostport, remainder,
    ⟨htext, hne, hscheme, hauthority, hat, hremainder⟩, hhost⟩

/-- **The three parsers of `host:port` agree.** What start-up validation accepts is what
dialing can split later, and the host and the port are those that the authority of a flag
would name. Only the authority may leave the host or the port out. -/
theorem hostPort_parsers_agree (s : Str) :
    (∀ host port, splitHostPort s = .ok (host, port) ↔
      parseHostPort s = .ok (host, some port) ∧ host ≠ []) ∧
    (validateHostport s = .ok () ↔ ∃ host port, splitHostPort s = .ok (host, port)) := by
  refine ⟨?_, validateHostport_eq_ok_iff⟩
  intro host port
  rw [splitHostPort_eq_ok_iff]
  constructor
  · rintro ⟨hne, p, hcut, hport⟩
    exact ⟨parseHostPort_of_cut hcut hport, hne⟩
  · rintro ⟨hparse, hne⟩
    obtain ⟨p, hcut, hport⟩ := parseHostPort_eq_ok hparse
    exact ⟨hne, p, hcut, hport⟩

/-! ## Splitting what is stored -/

/-- A text is cut in one way only. -/
theorem Cut.unique {s host host' p p' : Str} (h : Cut s host p) (h' : Cut s host' p') :
    host = host' ∧ p = p' := by
  have hok : cutHostPort () () () s = .ok (host, p) := cutHostPort_eq_ok_iff.mpr h
  rw [cutHostPort_eq_ok_iff.mpr h', Outcome.ok.injEq, Prod.mk.injEq] at hok
  exact ⟨hok.1.symm, hok.2.symm⟩

/-- A host that starts with a bracket and has no closing one cannot be cut. -/
theorem not_cut_of_bracket {host : Str} (hhost : ∀ c ∈ host, c ≠ ']') (port : UInt16)
    {host' p : Str} : ¬ Cut ('[' :: (host ++ ':' :: Str.ofNat port.toNat)) host' p := by
  intro h
  have hclose : ']' ∈ host ++ ':' :: Str.ofNat port.toNat := by
    generalize hs : '[' :: (host ++ ':' :: Str.ofNat port.toNat) = s at h
    cases h with
    | bracketed =>
        obtain ⟨-, htail⟩ := List.cons.inj hs
        rw [htail]
        simp
    | plain hhead =>
        rw [← hs] at hhead
        exact absurd rfl hhead
  rcases List.mem_append.mp hclose with hmem | hmem
  · exact hhost _ hmem rfl
  · rcases List.mem_cons.mp hmem with heq | hmem
    · cases heq
    · have := Str.beq_of_mem_ofNat (d := ']') hmem (by decide)
      simp at this

/-- The stored address of a hop splits into the host and the port of its flag. -/
theorem HopOf.splitHostPort_addr {fwd : Str} {hop : ChainHop} {node : Node}
    (h : HopOf fwd hop node) : ∃ port, node.port = some port ∧
      splitHostPort hop.addr = .ok (node.host, port) := by
  obtain ⟨port, hport, haddr⟩ := Option.map_eq_some_iff.mp h.authority
  obtain ⟨scheme, userinfo, hostport, remainder, -, hparse⟩ := shape_of_parseNode h.parsed
  rw [hport] at hparse
  obtain ⟨p, hcut, -⟩ := parseHostPort_eq_ok hparse
  obtain ⟨host', port', hvalid⟩ := validateHostport_eq_ok_iff.mp h.valid
  obtain ⟨hne, p', hcut', hp'⟩ := splitHostPort_eq_ok_iff.mp hvalid
  have hhead : node.host.head? ≠ some '[' := by
    intro hbracket
    obtain ⟨c, host, hhost⟩ := List.exists_cons_of_ne_nil (l := node.host) (by
      intro hnil
      rw [hnil] at hbracket
      cases hbracket)
    obtain rfl : c = '[' := by
      rw [hhost] at hbracket
      simpa using hbracket
    rw [hhost] at hcut haddr
    cases hcut with
    | bracketed hclose =>
        rw [← haddr] at hcut'
        exact not_cut_of_bracket (fun c hc => hclose c (List.mem_cons_of_mem _ hc)) port hcut'
    | plain hhead => exact hhead rfl
  have hstored := cut_append_ofNat hhead port
  rw [haddr] at hstored
  obtain ⟨rfl, rfl⟩ := hcut'.unique hstored
  exact ⟨port, hport, splitHostPort_eq_ok_iff.mpr ⟨hne, _, hstored, Str.parseU16_ofNat_toNat port⟩⟩

/-- **The previous hop is asked for the host and the port of the flag.** For every `-F` of
an accepted configuration, the stored address splits into the host that was parsed and its
port, as they stand in the flag, so that the handshake with the hop before names exactly
them. -/
theorem hop_names_flag {raw : RawArgs} {cfg : Config} (hcfg : buildConfig raw = .ok cfg) {i : ℕ}
    {fwd : Str} (hfwd : raw.forwards[i]? = some fwd) :
    ∃ hop node port, cfg.chain[i]? = some hop ∧ parseNode fwd = .ok node ∧
      node.port = some port ∧ node.authority = some hop.addr ∧
      splitHostPort hop.addr = .ok (node.host, port) ∧
      (∃ scheme userinfo hostport remainder p,
        Shape (Str.trim fwd) scheme userinfo hostport remainder ∧ Cut hostport node.host p ∧
        Str.parseU16 p = some port) ∧
      ∀ j prev target, i = j + 1 → cfg.chain[j]? = some prev →
        Chain.dialHop cfg.chain target j = Socks5.connect node.host port prev.user prev.pass := by
  have h := buildConfig_eq_ok_iff.mp hcfg
  have hi : i < cfg.chain.length := by
    rw [← h.chain.length_eq]
    exact (List.getElem?_eq_some_iff.mp hfwd).1
  have hhop : cfg.chain[i]? = some cfg.chain[i] := List.getElem?_eq_getElem hi
  obtain ⟨node, hof⟩ := buildHop_eq_ok (Outcome.rel_of_forall₂ h.chain hfwd hhop)
  obtain ⟨port, hport, hsplit⟩ := hof.splitHostPort_addr
  refine ⟨_, node, port, hhop, hof.parsed, hport, hof.authority, hsplit, ?_, ?_⟩
  · obtain ⟨scheme, userinfo, hostport, remainder, hshape, hparse⟩ := shape_of_parseNode hof.parsed
    rw [hport] at hparse
    obtain ⟨p, hcut, hp⟩ := parseHostPort_eq_ok hparse
    exact ⟨scheme, userinfo, hostport, remainder, p, hshape, hcut, hp⟩
  · rintro j prev target rfl hprev
    have hnext : Chain.nextAddr cfg.chain target j = cfg.chain[j + 1].addr := by
      rw [Chain.nextAddr, hhop]
    simp only [Chain.dialHop, hnext, hsplit, hprev]
    rfl

/-- The brackets of an IPv6 hop, and a name with a bracket in it. -/
theorem hop_names_flag_ipv6 :
    ∃ cfg hop node, buildConfig
        { listens := ["tcp://:80/a:80".toList]
          forwards := ["socks5://b]c:1080".toList, "socks5://[::1]:1081".toList] } = .ok cfg ∧
      cfg.chain[1]? = some hop ∧ hop.addr = "::1:1081".toList ∧
      parseNode "socks5://[::1]:1081".toList = .ok node ∧
      splitHostPort hop.addr = .ok (node.host, 1081) := by
  obtain ⟨cfg, hcfg⟩ : ∃ cfg, buildConfig
        { listens := ["tcp://:80/a:80".toList]
          forwards := ["socks5://b]c:1080".toList, "socks5://[::1]:1081".toList] } = .ok cfg :=
    ⟨_, rfl⟩
  obtain ⟨hop, node, port, hhop, hnode, hport, hauthority, hsplit, -⟩ :=
    hop_names_flag (i := 1) hcfg rfl
  have hparsed : parseNode "socks5://[::1]:1081".toList =
      .ok ⟨"socks5".toList, none, none, "::1".toList, some 1081, [], ∅⟩ := rfl
  rw [hparsed, Outcome.ok.injEq] at hnode
  subst hnode
  obtain rfl := Option.some.inj hport
  exact ⟨cfg, hop, _, hcfg, hhop, (Option.some.inj hauthority).symm, hparsed, hsplit⟩

/-! ## Literals -/

/-- A text that the parser of socket addresses takes for this address and port, so that it
is dialed without a lookup. -/
def LiteralFor (text : Str) (ip : IpAddr) (port : UInt16) : Prop :=
  ∃ sa, SocketAddr.parse text = some sa ∧ sa.ip = ip ∧ sa.port = port ∧
    ∀ {σ : Type} (lookupHost : Str → Outcome IoError (List SocketAddr))
      (dialOne : SocketAddr → Outcome IoError σ), dialTcp lookupHost dialOne text = dialOne sa

theorem literalFor_of_parse {text : Str} {sa : SocketAddr} (h : SocketAddr.parse text = some sa) :
    LiteralFor text sa.ip sa.port := by
  refine ⟨sa, h, rfl, rfl, ?_⟩
  intro σ lookupHost dialOne
  rw [dialTcp, h]

theorem parseIpv4_or_parseIpv6 {s : Str} {ip : IpAddr} (h : IpAddr.parse s = some ip) :
    (∃ ip₄, ip = .v4 ip₄ ∧ IpAddr.parseIpv4 s = some ip₄) ∨
      ∃ ip₆, ip = .v6 ip₆ ∧ IpAddr.parseIpv6 s = some ip₆ := by
  rw [IpAddr.parse] at h
  split at h
  · rename_i ip₄ h₄
    exact .inl ⟨ip₄, (Option.some.inj h).symm, h₄⟩
  · obtain ⟨ip₆, h₆, rfl⟩ := Option.map_eq_some_iff.mp h
    exact .inr ⟨ip₆, rfl, h₆⟩

/-- An address and a port without brackets are a literal if the address is IPv4. -/
theorem literalFor_iff {host : Str} {ip : IpAddr} (h : IpAddr.parse host = some ip)
    (port : UInt16) :
    LiteralFor (host ++ ':' :: Str.ofNat port.toNat) ip port ↔ ip.isIpv4 = true := by
  obtain ⟨ip₄, rfl, h₄⟩ | ⟨ip₆, rfl, h₆⟩ := parseIpv4_or_parseIpv6 h
  · exact ⟨fun _ => rfl, fun _ => literalFor_of_parse (IpAddr.parse_ipv4_port h₄ port)⟩
  · refine ⟨?_, fun hv4 => by cases hv4⟩
    rintro ⟨sa, hsa, hip, -⟩
    have hbracket := IpAddr.head?_of_parse_v6 hsa hip
    have hhead := IpAddr.head?_of_parseIpv6 h₆
    have hne : host ≠ [] := by
      rintro rfl
      cases h₆
    rw [List.head?_append_of_ne_nil _ hne] at hbracket
    exact absurd hbracket hhead

/-- The text that is stored for a node whose host is an address. -/
theorem Node.bindString_of_parse {node : Node} {ip : IpAddr} {port : UInt16}
    (hip : IpAddr.parse node.host = some ip) (hport : node.port = some port) :
    node.bindString = some (node.host ++ ':' :: Str.ofNat port.toNat) := by
  have hne : node.host.isEmpty = false := by
    cases hhost : node.host with
    | nil =>
        rw [hhost] at hip
        cases hip
    | cons c host => rfl
  simp [Node.bindString, hport, hne]

/-- **IPv4 literals stay literals, IPv6 literals do not.** For every `-L` and every `-F` of
an accepted configuration whose host is an IP address, the stored text is a literal for that
address and port exactly if the address is IPv4. -/
theorem stored_literal_iff {raw : RawArgs} {cfg : Config} (hcfg : buildConfig raw = .ok cfg)
    {i : ℕ} {flag : Str} {node : Node} {ip : IpAddr} {port : UInt16}
    (hnode : parseNode flag = .ok node) (hip : IpAddr.parse node.host = some ip)
    (hport : node.port = some port) :
    (∀ l, raw.listens[i]? = some flag → cfg.listeners[i]? = some l →
      (LiteralFor l.bind ip port ↔ ip.isIpv4 = true)) ∧
    ∀ hop, raw.forwards[i]? = some flag → cfg.chain[i]? = some hop →
      (LiteralFor hop.addr ip port ↔ ip.isIpv4 = true) := by
  have h := buildConfig_eq_ok_iff.mp hcfg
  refine ⟨?_, ?_⟩
  · intro l hflag hl
    obtain ⟨node', hof⟩ := buildListener_eq_ok (Outcome.rel_of_forall₂ h.listeners hflag hl)
    obtain rfl : node' = node := Outcome.ok.inj (hof.parsed.symm.trans hnode)
    have hbind := hof.bind
    rw [Node.bindString_of_parse hip hport, Option.some.injEq] at hbind
    rw [← hbind]
    exact literalFor_iff hip port
  · intro hop hflag hhop
    obtain ⟨node', hof⟩ := buildHop_eq_ok (Outcome.rel_of_forall₂ h.chain hflag hhop)
    obtain rfl : node' = node := Outcome.ok.inj (hof.parsed.symm.trans hnode)
    have haddr := hof.authority
    rw [Node.authority, hport, Option.map_some, Option.some.injEq] at haddr
    rw [← haddr]
    exact literalFor_iff hip port

/-- An IPv4 bind and an IPv4 hop. -/
theorem stored_literal_ipv4 :
    ∃ cfg l hop, buildConfig
        { listens := ["tcp://127.0.0.1:80/a:80".toList]
          forwards := ["socks5://10.0.0.9:1080".toList] } = .ok cfg ∧
      cfg.listeners[0]? = some l ∧ cfg.chain[0]? = some hop ∧
      LiteralFor l.bind (.v4 ⟨127, 0, 0, 1⟩) 80 ∧ LiteralFor hop.addr (.v4 ⟨10, 0, 0, 9⟩) 1080 := by
  obtain ⟨cfg, hcfg, l, hop, hl, hhop⟩ : ∃ cfg, buildConfig
        { listens := ["tcp://127.0.0.1:80/a:80".toList]
          forwards := ["socks5://10.0.0.9:1080".toList] } = .ok cfg ∧
        ∃ l hop, cfg.listeners[0]? = some l ∧ cfg.chain[0]? = some hop :=
    ⟨_, rfl, _, _, rfl, rfl⟩
  have hlisten : parseNode "tcp://127.0.0.1:80/a:80".toList =
      .ok ⟨"tcp".toList, none, none, "127.0.0.1".toList, some 80, "a:80".toList, ∅⟩ := rfl
  have hforward : parseNode "socks5://10.0.0.9:1080".toList =
      .ok ⟨"socks5".toList, none, none, "10.0.0.9".toList, some 1080, [], ∅⟩ := rfl
  refine ⟨cfg, l, hop, hcfg, hl, hhop, ?_, ?_⟩
  · exact ((stored_literal_iff hcfg hlisten (by decide) rfl).1 l rfl hl).mpr rfl
  · exact ((stored_literal_iff hcfg hforward (by decide) rfl).2 hop rfl hhop).mpr rfl

/-- All IPv6 interfaces and an IPv6 hop: both are stored without their brackets, and
neither is a socket address any more. -/
theorem stored_literal_ipv6 :
    ∃ cfg l hop, buildConfig
        { listens := ["tcp://[::]:8080/[2001:db8::1]:443".toList]
          forwards := ["socks5://[::1]:1080".toList] } = .ok cfg ∧
      cfg.listeners[0]? = some l ∧ cfg.chain[0]? = some hop ∧
      l.bind = ":::8080".toList ∧ SocketAddr.parse l.bind = none ∧
      hop.addr = "::1:1080".toList ∧ SocketAddr.parse hop.addr = none ∧
      ¬ LiteralFor l.bind .unspecified6 8080 ∧
      ¬ LiteralFor hop.addr (.v6 ⟨[0, 0, 0, 0, 0, 0, 0, 1], rfl⟩) 1080 := by
  have hbind : SocketAddr.parse ":::8080".toList = none := by decide
  have haddr : SocketAddr.parse "::1:1080".toList = none := by decide
  refine ⟨_, _, _, rfl, rfl, rfl, rfl, hbind, rfl, haddr, ?_, ?_⟩
  · rintro ⟨sa, hsa, -⟩
    cases hbind.symm.trans hsa
  · rintro ⟨sa, hsa, -⟩
    cases haddr.symm.trans hsa

end Gust
