import Gust.Socks5

/-!
# A conforming SOCKS5 proxy

The program is only ever a SOCKS5 client. To say what its requests achieve, this module
states the other side: the decoders of RFC 1928 and RFC 1929 for a greeting, a username
and password request and a CONNECT, and the proxy built from them. A proxy is free in
the method it selects, as long as it was offered, and in the bound address it reports;
behind its success reply it relays, so that the bytes it has not decoded are the first
bytes its destination receives.

`serve_handshake` connects the two sides: a proxy that selects `m` decodes the handshake
the client writes for `m` to exactly the host and port that were asked for.
-/

namespace Gust.Proxy

open Gust.Lib Gust.Socks5

/-- The destination of a CONNECT, as it stands on the wire. -/
inductive Dest
  | ipv4 (octets : List UInt8)
  | ipv6 (octets : List UInt8)
  | domain (name : List UInt8)
  deriving DecidableEq, Repr

structure Request where
  dest : Dest
  port : UInt16
  deriving DecidableEq, Repr

/-- What a request for `host:port` has to say. -/
def requestFor (host : Str) (port : UInt16) : Request :=
  match IpAddr.parseIpv4 host with
  | some ip => ⟨.ipv4 ip.octets, port⟩
  | none =>
      match IpAddr.parseIpv6 host with
      | some ip => ⟨.ipv6 ip.octets, port⟩
      | none => ⟨.domain (Str.asBytes host), port⟩

/-! ## Decoders -/

/-- The first `n` bytes and the rest. -/
def takeN (n : ℕ) (bs : List UInt8) : Option (List UInt8 × List UInt8) :=
  if n ≤ bs.length then some (bs.take n, bs.drop n) else none

theorem takeN_append {n : ℕ} {bs : List UInt8} (h : bs.length = n) (rest : List UInt8) :
    takeN n (bs ++ rest) = some (bs, rest) := by
  have hle : n ≤ (bs ++ rest).length := by
    rw [List.length_append]
    omega
  rw [takeN, if_pos hle, List.take_left' h, List.drop_left' h]

/-- The methods a greeting offers. -/
def decodeGreeting : List UInt8 → Option (List UInt8 × List UInt8)
  | v :: n :: bs => if v = 5 then takeN n.toNat bs else none
  | _ => none

/-- A field with its length in front. -/
def decodeField : List UInt8 → Option (List UInt8 × List UInt8)
  | n :: bs => takeN n.toNat bs
  | _ => none

/-- The username and password of an RFC 1929 request. -/
def decodeAuth : List UInt8 → Option ((List UInt8 × List UInt8) × List UInt8)
  | v :: bs =>
      if v = 1 then do
        let (user, bs) ← decodeField bs
        let (pass, bs) ← decodeField bs
        pure ((user, pass), bs)
      else none
  | _ => none

def decodeDest (atyp : UInt8) (bs : List UInt8) : Option (Dest × List UInt8) :=
  if atyp = 1 then (takeN 4 bs).map fun r => (.ipv4 r.1, r.2)
  else if atyp = 4 then (takeN 16 bs).map fun r => (.ipv6 r.1, r.2)
  else if atyp = 3 then (decodeField bs).map fun r => (.domain r.1, r.2)
  else none

def decodePort : List UInt8 → Option (UInt16 × List UInt8)
  | hi :: lo :: bs => some (UInt16.ofNat (hi.toNat * 256 + lo.toNat), bs)
  | _ => none

/-- A CONNECT request. -/
def decodeRequest : List UInt8 → Option (Request × List UInt8)
  | v :: cmd :: rsv :: atyp :: bs =>
      if v = 5 ∧ cmd = 1 ∧ rsv = 0 then do
        let (dest, bs) ← decodeDest atyp bs
        let (port, bs) ← decodePort bs
        pure (⟨dest, port⟩, bs)
      else none
  | _ => none

/-! ## The proxy -/

/-- What a conforming proxy is free to choose. -/
structure Choice where
  /-- The method it selects. -/
  method : UInt8
  /-- Its reply to the CONNECT. -/
  reply : List UInt8
  deriving DecidableEq, Repr

/-- Everything the proxy sends before it starts to relay. -/
def Choice.output (c : Choice) : List UInt8 :=
  [5, c.method] ++ (if c.method = 2 then [1, 0] else []) ++ c.reply

/-- Serve one client: the request, and the bytes left to be relayed to its destination. -/
def serve (c : Choice) (bs : List UInt8) : Option (Request × List UInt8) := do
  let (offered, bs) ← decodeGreeting bs
  if c.method ∈ offered then
    if c.method = 2 then do
      let (_, bs) ← decodeAuth bs
      decodeRequest bs
    else decodeRequest bs
  else none

/-- Proxies in a row: each one relays what it has not decoded to the next. -/
def serveAll : List Choice → List UInt8 → Option (List Request × List UInt8)
  | [], bs => some ([], bs)
  | c :: cs, bs => do
      let (r, bs) ← serve c bs
      let (rs, bs) ← serveAll cs bs
      pure (r :: rs, bs)

/-! ## The proxy understands the client -/

theorem decodeGreeting_greeting (user : Option Str) (rest : List UInt8) :
    decodeGreeting (greeting user ++ rest) = some (methods user, rest) := by
  have hlen : (UInt8.ofNat (methods user).length).toNat = (methods user).length := by
    cases user <;> rfl
  simp only [greeting, ver, List.cons_append, decodeGreeting, if_true, hlen]
  exact takeN_append rfl rest

theorem decodeField_asBytes {s : Str} (h : String.utf8Len s ≤ 255) (rest : List UInt8) :
    decodeField (UInt8.ofNat (String.utf8Len s) :: (Str.asBytes s ++ rest)) =
      some (Str.asBytes s, rest) := by
  have hlen : (UInt8.ofNat (String.utf8Len s)).toNat = String.utf8Len s := by
    rw [UInt8.toNat_ofNat']
    exact Nat.mod_eq_of_lt (by omega)
  rw [decodeField, hlen]
  exact takeN_append (Str.length_asBytes s) rest

theorem decodeAuth_authRequest {user pass : Str} (hu : String.utf8Len user ≤ 255)
    (hp : String.utf8Len pass ≤ 255) (rest : List UInt8) :
    decodeAuth (authRequest user pass ++ rest) =
      some ((Str.asBytes user, Str.asBytes pass), rest) := by
  have hauth : authRequest user pass ++ rest =
      1 :: UInt8.ofNat (String.utf8Len user) :: (Str.asBytes user ++
        UInt8.ofNat (String.utf8Len pass) :: (Str.asBytes pass ++ rest)) := by
    simp [authRequest, authVer]
  rw [hauth, decodeAuth, if_pos rfl, decodeField_asBytes hu]
  simp [decodeField_asBytes hp]

theorem decodePort_toBeBytes (port : UInt16) (rest : List UInt8) :
    decodePort (toBeBytes port ++ rest) = some (port, rest) := by
  have hport : UInt16.ofNat ((port >>> 8).toUInt8.toNat * 256 + port.toUInt8.toNat) = port := by
    apply UInt16.toNat_inj.mp
    have hlt := port.toNat_lt
    have hhi : (port >>> 8).toUInt8.toNat = port.toNat / 256 := by
      simp [Nat.shiftRight_eq_div_pow]
      omega
    have hlo : port.toUInt8.toNat = port.toNat % 256 := by simp
    rw [hhi, hlo, UInt16.toNat_ofNat']
    omega
  simp only [toBeBytes, List.cons_append, List.nil_append, decodePort, hport]

/-- The address the client encodes is decoded to the destination it stands for. -/
theorem decodeRequest_encodeAddr {host : Str} {req : List UInt8}
    (h : encodeAddr [ver, cmdConnect, 0x00] host = .ok req) (port : UInt16) (rest : List UInt8) :
    decodeRequest (req ++ toBeBytes port ++ rest) = some (requestFor host port, rest) := by
  simp only [encodeAddr] at h
  cases h4 : IpAddr.parseIpv4 host with
  | some ip =>
      rw [h4, Outcome.ok.injEq] at h
      subst h
      have htake := takeN_append ip.length_octets (toBeBytes port ++ rest)
      simp [decodeRequest, ver, cmdConnect, atypIpv4, decodeDest, htake, decodePort_toBeBytes,
        requestFor, h4]
  | none =>
      cases h6 : IpAddr.parseIpv6 host with
      | some ip =>
          simp only [h4, h6, Outcome.ok.injEq] at h
          subst h
          have htake := takeN_append ip.length_octets (toBeBytes port ++ rest)
          simp [decodeRequest, ver, cmdConnect, atypIpv6, decodeDest, htake, decodePort_toBeBytes,
            requestFor, h4, h6]
      | none =>
          simp only [h4, h6] at h
          by_cases hlen : 255 < (Str.asBytes host).length
          · rw [if_pos hlen] at h
            cases h
          · rw [if_neg hlen, Outcome.ok.injEq] at h
            subst h
            rw [Str.length_asBytes, not_lt] at hlen
            have hfield := decodeField_asBytes hlen (toBeBytes port ++ rest)
            simp [decodeRequest, ver, cmdConnect, atypDomain, decodeDest, hfield,
              decodePort_toBeBytes, requestFor, h4, h6]

/-- **A proxy decodes the handshake that the client writes for its method** to the
host and port asked for, and relays whatever follows. -/
theorem serve_handshake {host : Str} {port : UInt16} {user pass : Option Str} {c : Choice}
    {w : List UInt8} (hm : Method user pass c.method)
    (hw : handshake host port user pass c.method = .ok w) (rest : List UInt8) :
    serve c (w ++ rest) = some (requestFor host port, rest) := by
  simp only [handshake, Outcome.bind_eq_ok_iff, Outcome.pure_eq_ok, Outcome.ok.injEq] at hw
  obtain ⟨req, hreq, rfl⟩ := hw
  have hdecode := decodeRequest_encodeAddr hreq port rest
  simp only [List.append_assoc] at hdecode ⊢
  generalize hmethod : c.method = m at hm
  cases hm with
  | noAuth =>
      have hoffered : (0 : UInt8) ∈ methods user := by
        cases user <;> simp [methods, methodNoAuth]
      have hmsg : authMessage user pass 0 = [] := rfl
      simp [serve, decodeGreeting_greeting, hmethod, hoffered, hmsg, hdecode]
  | @userPass u huser hu hp =>
      subst huser
      have hoffered : (2 : UInt8) ∈ methods (some u) := by
        simp [methods, methodUserPass]
      have hmsg : authMessage (some u) pass 2 = authRequest u (pass.getD []) := rfl
      simp [serve, decodeGreeting_greeting, hmethod, hoffered, hmsg, decodeAuth_authRequest hu hp,
        hdecode]

end Gust.Proxy
