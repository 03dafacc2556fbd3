import Gust.Config
import Gust.Proxy

/-!
# Dialing through a chain of SOCKS5 hops

All hops share one stream: the handshake with hop `i` asks it to CONNECT to hop `i + 1`,
and the last hop is asked for the target. The TCP connection to the first hop is given,
and the time limits around the handshakes are not modelled.

`dial_spec` says when the whole chain succeeds, what has been written by then, and what
the proxies on the way have understood.
-/

namespace Gust.Chain

open Gust.Lib Gust.Socks5 Gust.Proxy

/-- The address that hop `i` is asked for. -/
def nextAddr (hops : List ChainHop) (target : Str) (i : ℕ) : Str :=
  match hops[i + 1]? with
  | some hop => hop.addr
  | none => target

/-- One round of the loop: the handshake with hop `i`. -/
def dialHop (hops : List ChainHop) (target : Str) (i : ℕ) : Client Unit := do
  let (host, port) ← .ofOutcome (splitHostPort (nextAddr hops target i))
  match hops[i]? with
  | some hop => connect host port hop.user hop.pass
  | none => .panic

/-- Dial `target` over the stream to the first hop. -/
def dial (hops : List ChainHop) (target : Str) : Client Unit :=
  match hops with
  | [] => .panic
  | _ :: _ => Client.sequence ((List.range hops.length).map (dialHop hops target))

/-- A successful handshake with hop `i`: what it replies and what is written to it. -/
def HopHandshake (hops : List ChainHop) (target : Str) (i : ℕ) (seg w : List UInt8) : Prop :=
  ∃ hop host port m, hops[i]? = some hop ∧
    splitHostPort (nextAddr hops target i) = .ok (host, port) ∧
    Replies hop.user hop.pass m seg ∧ handshake host port hop.user hop.pass m = .ok w

variable {hops : List ChainHop} {target : Str}

theorem dial_eq_sequence (hne : hops ≠ []) :
    dial hops target = Client.sequence ((List.range hops.length).map (dialHop hops target)) := by
  cases hops with
  | nil => exact absurd rfl hne
  | cons hop hops => rfl

theorem exact_dialHop {i : ℕ} (hi : i < hops.length) :
    Client.Exact (dialHop hops target i) (fun seg w _ => HopHandshake hops target i seg w) := by
  have hhop : hops[i]? = some hops[i] := List.getElem?_eq_getElem hi
  simp only [dialHop]
  simp only [hhop]
  refine (Client.exact_ofOutcome_bind fun dest _ =>
    exact_connect dest.1 dest.2 hops[i].user hops[i].pass).congr ?_
  intro seg w _
  constructor
  · rintro ⟨⟨host, port⟩, hsplit, m, hreplies, hw⟩
    exact ⟨hops[i], host, port, m, hhop, hsplit, hreplies, hw⟩
  · rintro ⟨hop, host, port, m, hhop', hsplit, hreplies, hw⟩
    rw [hhop, Option.some.injEq] at hhop'
    subst hhop'
    exact ⟨(host, port), hsplit, m, hreplies, hw⟩

/-- The first `n` hops, one after another. -/
theorem exact_dialHops {n : ℕ} (hn : n ≤ hops.length) :
    Client.Exact (Client.sequence ((List.range n).map (dialHop hops target)))
      (fun seg w _ => ∃ segs ws : ℕ → List UInt8,
        (∀ i ∈ List.range n, HopHandshake hops target i (segs i) (ws i)) ∧
        seg = (List.range n).flatMap segs ∧ w = (List.range n).flatMap ws) :=
  Client.exact_sequence List.nodup_range fun _ hi =>
    exact_dialHop (lt_of_lt_of_le (List.mem_range.mp hi) hn)

theorem exact_dial (hne : hops ≠ []) :
    Client.Exact (dial hops target) (fun seg w _ => ∃ segs ws : ℕ → List UInt8,
      (∀ i ∈ List.range hops.length, HopHandshake hops target i (segs i) (ws i)) ∧
      seg = (List.range hops.length).flatMap segs ∧ w = (List.range hops.length).flatMap ws) := by
  rw [dial_eq_sequence hne]
  exact exact_dialHops le_rfl

theorem eq_range_of_range_eq_append {n i : ℕ} {before after : List ℕ}
    (h : List.range n = before ++ i :: after) : i < n ∧ before = List.range i := by
  have hi : i = before.length := by
    have hget := congrArg (fun l => l[before.length]?) h
    simp only [List.getElem?_append_right le_rfl, Nat.sub_self, List.getElem?_cons_zero] at hget
    rw [List.getElem?_eq_some_iff] at hget
    obtain ⟨_, hget⟩ := hget
    simpa using hget.symm
  have hlen := congrArg List.length h
  simp only [List.length_range, List.length_append, List.length_cons] at hlen
  refine ⟨by omega, ?_⟩
  have htake := congrArg (List.take i) h
  rw [List.take_range, List.take_left' hi.symm, Nat.min_eq_left (by omega)] at htake
  exact htake.symm

/-! ## What the proxies understand -/

/-- The replies a hop is read to have made are the replies it made. -/
theorem replies_eq_output {host : Str} {port : UInt16} {user pass : Option Str} {m : UInt8}
    {c : Choice} {seg w rest rest' : List UInt8} (hreplies : Replies user pass m seg)
    (hw : handshake host port user pass m = .ok w) (hc : ConnectReply c.reply)
    (h : seg ++ rest = c.output ++ rest') :
    Method user pass c.method ∧ m = c.method ∧ seg = c.output ∧ rest = rest' := by
  obtain ⟨auth, reply, hm, hauth, hreply, rfl⟩ := hreplies
  have hmethod : m = c.method := by
    simp only [Choice.output, List.cons_append, List.nil_append, List.cons.injEq, true_and] at h
    exact h.1
  subst hmethod
  have hcauth : AuthReply c.method (if c.method = 2 then [1, 0] else []) := by
    generalize c.method = m at hauth
    cases hauth with
    | noAuth => exact .noAuth
    | userPass v => exact .userPass 1
  have hseg : [5, c.method] ++ auth ++ reply = c.output :=
    ((exact_connect host port user pass).unique () ()
      ⟨c.method, ⟨auth, reply, hm, hauth, hreply, rfl⟩, hw⟩
      ⟨c.method, ⟨_, c.reply, hm, hcauth, hc, rfl⟩, hw⟩ h).1
  rw [hseg] at h
  exact ⟨hm, rfl, hseg, List.append_cancel_left h⟩

/-- Proxies that made the replies of a dial have each decoded the request meant for
them, and the rest on both sides is the application's. -/
theorem serveAll_dialHops {dest : ℕ → Str × UInt16} {choice : ℕ → Choice} {is : List ℕ}
    {segs ws : ℕ → List UInt8} {rest app : List UInt8}
    (hdest : ∀ i ∈ is, splitHostPort (nextAddr hops target i) = .ok (dest i))
    (hhop : ∀ i ∈ is, HopHandshake hops target i (segs i) (ws i))
    (hc : ∀ i ∈ is, ConnectReply (choice i).reply)
    (h : is.flatMap segs ++ rest = (is.flatMap fun i => (choice i).output) ++ app)
    (up : List UInt8) :
    rest = app ∧ serveAll (is.map choice) (is.flatMap ws ++ up) =
      some (is.map fun i => requestFor (dest i).1 (dest i).2, up) := by
  induction is with
  | nil => exact ⟨h, rfl⟩
  | cons i is ih =>
      obtain ⟨hop, host, port, m, -, hsplit, hreplies, hw⟩ := hhop i List.mem_cons_self
      rw [hdest i List.mem_cons_self, Outcome.ok.injEq] at hsplit
      simp only [List.flatMap_cons, List.append_assoc] at h
      obtain ⟨hm, rfl, -, htail⟩ := replies_eq_output hreplies hw (hc i List.mem_cons_self) h
      obtain ⟨hrest, hserve⟩ := ih (fun j hj => hdest j (List.mem_cons_of_mem i hj))
        (fun j hj => hhop j (List.mem_cons_of_mem i hj))
        (fun j hj => hc j (List.mem_cons_of_mem i hj)) htail
      refine ⟨hrest, ?_⟩
      simp [serveAll, serve_handshake hm hw, hserve, hsplit]

/-- Every hop of an accepted configuration can be told where to connect to. -/
theorem exists_splitHostPort_nextAddr {raw : RawArgs} {cfg : Config} {l : ListenerSpec}
    (hcfg : buildConfig raw = .ok cfg) (hhops : ∀ hop ∈ hops, hop ∈ cfg.chain)
    (hl : l ∈ cfg.listeners) (ht : target ∈ l.targets) (i : ℕ) :
    ∃ dest, splitHostPort (nextAddr hops target i) = .ok dest := by
  have hacc := buildConfig_eq_ok_iff.mp hcfg
  simp only [nextAddr]
  cases hnext : hops[i + 1]? with
  | some hop =>
      obtain ⟨host, port, h⟩ := hacc.splitHostPort_addr (hhops hop (List.mem_of_getElem? hnext))
      exact ⟨_, h⟩
  | none =>
      obtain ⟨host, port, h⟩ := hacc.splitHostPort_target hl ht
      exact ⟨_, h⟩

/-- A dial that fails does so in the handshake of one hop, behind those of the hops before. -/
theorem dial_eq_err {dest : ℕ → Str × UInt16}
    (hdest : ∀ i, splitHostPort (nextAddr hops target i) = .ok (dest i)) (hne : hops ≠ [])
    {d d' : Duplex} {e : IoError} (hrun : (dial hops target).run d = (.err e, d')) :
    ∃ i hop mid, ∃ segs ws : ℕ → List UInt8,
      hops[i]? = some hop ∧ (∀ j < i, HopHandshake hops target j (segs j) (ws j)) ∧
      d.pending = (List.range i).flatMap segs ++ mid.pending ∧
      mid.written = d.written ++ (List.range i).flatMap ws ∧
      (connect (dest i).1 (dest i).2 hop.user hop.pass).run mid = (.err e, d') := by
  rw [dial_eq_sequence hne] at hrun
  obtain ⟨before, i, after, mid, hrange, hbefore, hfail⟩ := Client.sequence_eq_err hrun
  obtain ⟨hi, rfl⟩ := eq_range_of_range_eq_append hrange
  obtain ⟨-, -, ⟨segs, ws, hhop, rfl, rfl⟩, hpending, hwritten⟩ :=
    (exact_dialHops hi.le).sound hbefore
  refine ⟨i, hops[i], mid, segs, ws, List.getElem?_eq_getElem hi,
    fun j hj => hhop j (List.mem_range.mpr hj), hpending, hwritten, ?_⟩
  have hok : (Client.ofOutcome (splitHostPort (nextAddr hops target i))).run mid =
      (.ok (dest i), mid) := by
    simp [Client.ofOutcome, hdest i]
  rw [dialHop, Client.run_bind_of_ok hok, List.getElem?_eq_getElem hi] at hfail
  exact hfail

/-- **The chain reaches the target through the hops in order.** For hops and a target
of an accepted configuration, `dial` succeeds if and only if the hops' replies stand one
after another at the front of the stream; then it has written their handshakes and
nothing else, and consumed nothing behind the last reply. When a hop fails, the stream is
as that hop's handshake left it. If the replies are those of conforming proxies, the
first was asked for the second and so on, the last for the target, and what is sent and
received from then on goes through unchanged. -/
theorem dial_spec {raw : RawArgs} {cfg : Config} {l : ListenerSpec}
    (hcfg : buildConfig raw = .ok cfg) (hne : hops ≠ []) (hhops : ∀ hop ∈ hops, hop ∈ cfg.chain)
    (hl : l ∈ cfg.listeners) (ht : target ∈ l.targets) (d : Duplex) :
    ∃ dest : ℕ → Str × UInt16,
      (∀ i < hops.length, splitHostPort (nextAddr hops target i) = .ok (dest i)) ∧
      ((∃ d', (dial hops target).run d = (.ok (), d')) ↔ ∃ segs ws : ℕ → List UInt8, ∃ rest,
        (∀ i < hops.length, HopHandshake hops target i (segs i) (ws i)) ∧
        d.pending = (List.range hops.length).flatMap segs ++ rest) ∧
      (∀ d', (dial hops target).run d = (.ok (), d') → ∃ segs ws : ℕ → List UInt8,
        (∀ i < hops.length, HopHandshake hops target i (segs i) (ws i)) ∧
        d.pending = (List.range hops.length).flatMap segs ++ d'.pending ∧
        d'.written = d.written ++ (List.range hops.length).flatMap ws) ∧
      (∀ e d', (dial hops target).run d = (.err e, d') → ∃ i hop mid, ∃ segs ws : ℕ → List UInt8,
        hops[i]? = some hop ∧ (∀ j < i, HopHandshake hops target j (segs j) (ws j)) ∧
        d.pending = (List.range i).flatMap segs ++ mid.pending ∧
        mid.written = d.written ++ (List.range i).flatMap ws ∧
        (connect (dest i).1 (dest i).2 hop.user hop.pass).run mid = (.err e, d')) ∧
      (∀ d' (choice : ℕ → Choice) (app up : List UInt8),
        (dial hops target).run d = (.ok (), d') →
        (∀ i < hops.length, ConnectReply (choice i).reply) →
        d.pending = ((List.range hops.length).flatMap fun i => (choice i).output) ++ app →
        d.written = [] →
        d'.pending = app ∧
        serveAll ((List.range hops.length).map choice) (d'.written ++ up) =
          some ((List.range hops.length).map fun i => requestFor (dest i).1 (dest i).2, up)) := by
  choose dest hdest using exists_splitHostPort_nextAddr hcfg hhops hl ht
  have hsound : ∀ d', (dial hops target).run d = (.ok (), d') → ∃ segs ws : ℕ → List UInt8,
      (∀ i < hops.length, HopHandshake hops target i (segs i) (ws i)) ∧
      d.pending = (List.range hops.length).flatMap segs ++ d'.pending ∧
      d'.written = d.written ++ (List.range hops.length).flatMap ws := by
    intro d' hrun
    obtain ⟨-, -, ⟨segs, ws, hhop, rfl, rfl⟩, hpending, hwritten⟩ := (exact_dial hne).sound hrun
    exact ⟨segs, ws, fun i hi => hhop i (List.mem_range.mpr hi), hpending, hwritten⟩
  refine ⟨dest, fun i _ => hdest i, ⟨?_, ?_⟩, hsound, fun e d' => dial_eq_err hdest hne, ?_⟩
  · rintro ⟨d', hrun⟩
    obtain ⟨segs, ws, hhop, hpending, -⟩ := hsound d' hrun
    exact ⟨segs, ws, d'.pending, hhop, hpending⟩
  · rintro ⟨segs, ws, rest, hhop, hpending⟩
    obtain ⟨d', hrun, -, -⟩ := (exact_dial hne).complete
      ⟨segs, ws, fun i hi => hhop i (List.mem_range.mp hi), rfl, rfl⟩ hpending
    exact ⟨d', hrun⟩
  · intro d' choice app up hrun hc hout hwritten
    obtain ⟨segs, ws, hhop, hpending, hw⟩ := hsound d' hrun
    rw [hw, hwritten, List.nil_append]
    exact serveAll_dialHops (fun i _ => hdest i) (fun i hi => hhop i (List.mem_range.mp hi))
      (fun i hi => hc i (List.mem_range.mp hi)) (hpending.symm.trans hout) up

/-- Two hops with an application byte behind their replies: the first selects username
and password and is asked for the second, which is asked for the target. -/
theorem dial_spec_two_hops :
    ∃ d', (dial [⟨"10.0.0.1:1080".toList, some ['u'], some ['p']⟩, ⟨"hop2:1080".toList, none, none⟩]
        "[::1]:443".toList).run
          ⟨[[5, 2, 1], [0, 5, 0, 0, 1, 0, 0, 0, 0, 0, 0, 5, 0], [5, 0, 0, 3, 0, 0, 0, 72]], []⟩ =
        (.ok (), d') ∧
      serveAll [⟨2, [5, 0, 0, 1, 0, 0, 0, 0, 0, 0]⟩, ⟨0, [5, 0, 0, 3, 0, 0, 0]⟩]
          (d'.written ++ [71]) =
        some ([requestFor "hop2".toList 1080, requestFor "::1".toList 443], [71]) := by
  let raw : RawArgs :=
    { listens := ["tcp://:8080/[::1]:443".toList]
      forwards := ["socks5://u:p@10.0.0.1:1080".toList, "socks5://hop2:1080".toList] }
  obtain ⟨dest, hdest, -, -, -, hconnects⟩ := @dial_spec
    [⟨"10.0.0.1:1080".toList, some ['u'], some ['p']⟩, ⟨"hop2:1080".toList, none, none⟩]
    "[::1]:443".toList raw _ _ rfl (List.cons_ne_nil _ _) (by decide) List.mem_cons_self
    (by decide)
    ⟨[[5, 2, 1], [0, 5, 0, 0, 1, 0, 0, 0, 0, 0, 0, 5, 0], [5, 0, 0, 3, 0, 0, 0, 72]], []⟩
  have hdest₀ : dest 0 = ("hop2".toList, 1080) := (Outcome.ok.inj (hdest 0 (by decide))).symm
  have hdest₁ : dest 1 = ("::1".toList, 443) := (Outcome.ok.inj (hdest 1 (by decide))).symm
  have hreplies : ∀ i < 2, ConnectReply (([⟨2, [5, 0, 0, 1, 0, 0, 0, 0, 0, 0]⟩,
      ⟨0, [5, 0, 0, 3, 0, 0, 0]⟩] : List Choice).getD i ⟨0, []⟩).reply := by
    intro i hi
    interval_cases i
    · exact .ipv4 0 rfl
    · exact .domain 0 0 rfl
  refine ⟨_, rfl, ?_⟩
  have hserve := (hconnects _ _ [72] [71] rfl hreplies (by decide) rfl).2
  simpa [List.range_succ, hdest₀, hdest₁] using hserve

end Gust.Chain
