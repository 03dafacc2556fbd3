import Gust.Chain
import Gust.Relay

/-!
# One connection from end to end

`handle_conn` dials and then relays over the stream the dial has returned. Through a chain
that stream has already carried the handshakes in both directions: what the relay writes
follows what was written for them, and what it reads starts where the last reply ended.

`relayed_transparent` puts the two halves together. The proxies of the chain hand on to the
target exactly what the relay has written, a prefix of what the client has sent, and the
client is given a prefix of what the target has sent, without a byte of any handshake.
-/

namespace Gust.Tcp

open Gust.Lib Gust.Chain Gust.Proxy

/-- Where `handle_conn` can be once its dial has succeeded: `d` is the new TCP connection,
`d'` what it is when the relay takes over, and `s` how far the relay is. Side `b` of the
relay is the backend, which cannot have sent anything but what is still to be read. -/
inductive Relayed (cfg : Config) (target : Str) (d d' : Duplex) (s : Relay.State) : Prop
  | direct (hchain : cfg.chain = []) (hd : d' = d)
      (hs : (Relay.transport cfg.bufSize.toNat).Reachable s)
      (hsent : (s.dir .b).sent <+: d'.pending)
  | chained (hchain : cfg.chain ≠ []) (hdial : (dial cfg.chain target).run d = (.ok (), d'))
      (hs : (Relay.transport cfg.bufSize.toNat).Reachable s)
      (hsent : (s.dir .b).sent <+: d'.pending)

variable {cfg : Config} {target : Str} {d d' : Duplex} {s : Relay.State}

theorem Relayed.reachable (h : Relayed cfg target d d' s) :
    (Relay.transport cfg.bufSize.toNat).Reachable s := by
  cases h with
  | direct hchain hd hs hsent => exact hs
  | chained hchain hdial hs hsent => exact hs

theorem Relayed.sent_prefix (h : Relayed cfg target d d' s) :
    (s.dir .b).sent <+: d'.pending := by
  cases h with
  | direct hchain hd hs hsent => exact hsent
  | chained hchain hdial hs hsent => exact hsent

/-- What the handshakes have left: the proxies have understood them, and nothing that
follows is missing on either side. -/
theorem Relayed.serveAll {dest : ℕ → Str × UInt16} {choice : ℕ → Choice} {app : List UInt8}
    (h : Relayed cfg target d d' s)
    (hdest : ∀ i, splitHostPort (nextAddr cfg.chain target i) = .ok (dest i))
    (hwritten : d.written = [])
    (hc : ∀ i < cfg.chain.length, Socks5.ConnectReply (choice i).reply)
    (hin : d.pending = ((List.range cfg.chain.length).flatMap fun i => (choice i).output) ++ app)
    (up : List UInt8) :
    d'.pending = app ∧ Proxy.serveAll ((List.range cfg.chain.length).map choice) (d'.written ++ up) =
      some ((List.range cfg.chain.length).map fun i => requestFor (dest i).1 (dest i).2, up) := by
  cases h with
  | direct hchain hd hs hsent =>
      subst hd
      rw [hchain] at hin ⊢
      exact ⟨hin, by rw [hwritten]; rfl⟩
  | chained hchain hdial hs hsent =>
      obtain ⟨-, -, ⟨segs, ws, hhop, rfl, rfl⟩, hpending, hw⟩ := (exact_dial hchain).sound hdial
      rw [hw, hwritten, List.nil_append]
      exact serveAll_dialHops (fun i _ => hdest i) hhop
        (fun i hi => hc i (List.mem_range.mp hi)) (hpending.symm.trans hin) up

/-- What holds of a connection at any moment of its relay. -/
structure Transparent (cfg : Config) (dest : ℕ → Str × UInt16) (choice : ℕ → Choice)
    (app : List UInt8) (d' : Duplex) (s : Relay.State) : Prop where
  /-- Everything written to the backend so far: each proxy reads the request meant for it, and
  what is left for the target is what the relay has delivered. -/
  upstream : Proxy.serveAll ((List.range cfg.chain.length).map choice)
      (d'.written ++ (s.dir .a).delivered) =
    some ((List.range cfg.chain.length).map fun i => requestFor (dest i).1 (dest i).2,
      (s.dir .a).delivered)
  client_prefix : (s.dir .a).delivered <+: (s.dir .a).sent
  target_prefix : (s.dir .b).delivered <+: app
  /-- A relay that ends without an error has passed on one of the two streams to its end. -/
  complete : s.result = some (.ok ()) →
    (s.dir .a).closed = true ∧ (s.dir .a).delivered = (s.dir .a).sent ∨
      (s.dir .b).closed = true ∧ (s.dir .b).delivered = (s.dir .b).sent

/-- **The tunnel is transparent.** For an accepted configuration with any number of hops, a
target of one of its listeners and conforming proxies whose replies are followed by the
target's bytes `app`: at every moment of the relay the target has received exactly a prefix
of the client's bytes and the client a prefix of `app`, whatever the segmentation, the chunks
and the interleaving. -/
theorem relayed_transparent {raw : RawArgs} {l : ListenerSpec} (choice : ℕ → Choice)
    (app : List UInt8) (hcfg : buildConfig raw = .ok cfg) (hl : l ∈ cfg.listeners)
    (ht : target ∈ l.targets) (h : Relayed cfg target d d' s) (hwritten : d.written = [])
    (hc : ∀ i < cfg.chain.length, Socks5.ConnectReply (choice i).reply)
    (hin : d.pending = ((List.range cfg.chain.length).flatMap fun i => (choice i).output) ++ app) :
    ∃ dest : ℕ → Str × UInt16,
      (∀ i < cfg.chain.length, splitHostPort (nextAddr cfg.chain target i) = .ok (dest i)) ∧
      Transparent cfg dest choice app d' s := by
  choose dest hdest using exists_splitHostPort_nextAddr hcfg (fun hop hhop => hhop) hl ht
  have hbounds := (buildConfig_eq_ok_iff.mp hcfg).bufSize_bounds
  have hinv := Relay.reachable_inv (by omega) h.reachable
  have hserve := h.serveAll hdest hwritten hc hin
  refine ⟨dest, fun i _ => hdest i, ⟨(hserve _).2, (hinv.dir .a).intact.delivered_prefix, ?_, ?_⟩⟩
  · have hsent := h.sent_prefix
    rw [(hserve []).1] at hsent
    exact (hinv.dir .b).intact.delivered_prefix.trans hsent
  · intro hresult
    obtain ⟨side, total, hpc⟩ := hinv.result hresult
    have hcomplete := (hinv.dir side).complete hpc
    cases side with
    | a => exact .inl hcomplete
    | b => exact .inr hcomplete

/-- One hop, whose reply arrives together with the first two bytes of the target; the client
has sent two bytes and the first of each side is through. -/
theorem relayed_transparent_one_hop :
    ∃ cfg, buildConfig
        { listens := ["tcp://:80/[::1]:443".toList]
          forwards := ["socks5://10.0.0.9:1080".toList], bufSizeKb := some 1 } = .ok cfg ∧
      ∃ d' s, Relayed cfg "[::1]:443".toList
          ⟨[[5, 0], [5, 0, 0, 1, 0, 0, 0, 0, 0, 0, 72, 73]], []⟩ d' s ∧
        (s.dir .a).delivered = [1] ∧
        Proxy.serveAll [⟨0, [5, 0, 0, 1, 0, 0, 0, 0, 0, 0]⟩] (d'.written ++ [1]) =
          some ([requestFor "::1".toList 443], [1]) ∧
        (s.dir .b).delivered <+: [72, 73] := by
  obtain ⟨cfg, hcfg, hsize, hchain, l, hl, ht⟩ : ∃ cfg, buildConfig
        { listens := ["tcp://:80/[::1]:443".toList]
          forwards := ["socks5://10.0.0.9:1080".toList], bufSizeKb := some 1 } = .ok cfg ∧
      cfg.bufSize.toNat = 1024 ∧ cfg.chain = [⟨"10.0.0.9:1080".toList, none, none⟩] ∧
      ∃ l ∈ cfg.listeners, "[::1]:443".toList ∈ l.targets :=
    ⟨_, rfl, rfl, rfl, _, List.mem_cons_self, by decide⟩
  obtain ⟨d', hdial, hpending⟩ : ∃ d', (dial [⟨"10.0.0.9:1080".toList, none, none⟩]
      "[::1]:443".toList).run ⟨[[5, 0], [5, 0, 0, 1, 0, 0, 0, 0, 0, 0, 72, 73]], []⟩ =
        (.ok (), d') ∧ d'.pending = [72, 73] := ⟨_, rfl, rfl⟩
  obtain ⟨s, hs, ha, hsent⟩ : ∃ s, (Relay.transport 1024).Reachable s ∧
      (s.dir .a).delivered = [1] ∧ (s.dir .b).sent = [72] := by
    set_option maxRecDepth 20000 in
    exact ⟨_, ⟨[.source .a (.send [1, 2]), .source .b (.send [72]), .copy .a (.read 2),
      .copy .b (.read 1), .copy .a (.write 1), .copy .b (.write 1)], rfl⟩, rfl, rfl⟩
  have hrelayed : Relayed cfg "[::1]:443".toList
      ⟨[[5, 0], [5, 0, 0, 1, 0, 0, 0, 0, 0, 0, 72, 73]], []⟩ d' s := by
    refine .chained (by simp [hchain]) (by rw [hchain]; exact hdial) (by rw [hsize]; exact hs) ?_
    rw [hsent, hpending]
    exact ⟨[73], rfl⟩
  obtain ⟨dest, hdest, htransparent⟩ := relayed_transparent
    (fun _ => ⟨0, [5, 0, 0, 1, 0, 0, 0, 0, 0, 0]⟩) [72, 73] hcfg hl ht hrelayed rfl
    (fun _ _ => .ipv4 0 rfl) (by rw [hchain]; rfl)
  refine ⟨cfg, hcfg, d', s, hrelayed, ha, ?_, htransparent.target_prefix⟩
  have hupstream := htransparent.upstream
  have hdest₀ : dest 0 = ("::1".toList, 443) := by
    have h₀ := hdest 0 (by simp [hchain])
    rw [hchain] at h₀
    exact (Outcome.ok.inj h₀).symm
  simpa [hchain, ha, hdest₀, List.range_succ] using hupstream

end Gust.Tcp
