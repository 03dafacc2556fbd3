import Gust.Lib.IpAddr
import Gust.Lib.Stream

/-!
# The SOCKS5 client

`connect` negotiates a method, authenticates if the server asks for it, and issues one
CONNECT. It is a client program over any byte stream: three messages at most are
written, and each reply is read in exact pieces, the last of which depends on the
address type and, for a domain, on a length byte.

`exact_connect` gives its language. From that follow which inbound sequences are
accepted and that nothing behind the last reply is consumed (`connect_ok_iff`).
-/

namespace Gust.Socks5

open Gust.Lib

def ver : UInt8 := 0x05
def methodNoAuth : UInt8 := 0x00
def methodUserPass : UInt8 := 0x02
def methodNone : UInt8 := 0xFF
def cmdConnect : UInt8 := 0x01
def atypIpv4 : UInt8 := 0x01
def atypDomain : UInt8 := 0x03
def atypIpv6 : UInt8 := 0x04
def authVer : UInt8 := 0x01

def protoErr (msg : Str) : IoError := ⟨.invalidData, msg⟩

def replyReason (rep : UInt8) : Str :=
  match rep.toNat with
  | 1 => "general SOCKS server failure".toList
  | 2 => "connection not allowed by ruleset".toList
  | 3 => "network unreachable".toList
  | 4 => "host unreachable".toList
  | 5 => "connection refused".toList
  | 6 => "TTL expired".toList
  | 7 => "command not supported".toList
  | 8 => "address type not supported".toList
  | _ => "unknown SOCKS5 error".toList

def replyErr (rep : UInt8) : IoError :=
  ⟨.other, "SOCKS5 CONNECT failed: ".toList ++ replyReason rep ++ " (".toList ++
    Str.ofNat rep.toNat ++ [')']⟩

/-- Append the address type and the address of `host`. Literals use the numeric
types; everything else is left to the proxy to resolve. -/
def encodeAddr (buf : List UInt8) (host : Str) : Outcome IoError (List UInt8) :=
  match IpAddr.parseIpv4 host with
  | some ip => .ok (buf ++ atypIpv4 :: ip.octets)
  | none =>
      match IpAddr.parseIpv6 host with
      | some ip => .ok (buf ++ atypIpv6 :: ip.octets)
      | none =>
          let b := Str.asBytes host
          if 255 < b.length then .err (protoErr "destination hostname exceeds 255 bytes".toList)
          else .ok (buf ++ atypDomain :: UInt8.ofNat b.length :: b)

/-- The methods offered: username and password only if there is a user. -/
def methods (user : Option Str) : List UInt8 :=
  if user.isSome then [methodNoAuth, methodUserPass] else [methodNoAuth]

def greeting (user : Option Str) : List UInt8 :=
  ver :: UInt8.ofNat (methods user).length :: methods user

/-- The username and password request of RFC 1929. -/
def authRequest (user pass : Str) : List UInt8 :=
  authVer :: UInt8.ofNat (String.utf8Len user) :: Str.asBytes user ++
    UInt8.ofNat (String.utf8Len pass) :: Str.asBytes pass

/-- The status reply to `authRequest`; its version byte is not looked at. -/
def checkStatus : List UInt8 → Client Unit
  | [_, status] =>
      if status ≠ 0x00 then
        .fail ⟨.permissionDenied, "SOCKS5 username/password auth failed (status ".toList ++
          Str.ofNat status.toNat ++ [')']⟩
      else pure ()
  | _ => .panic

def userPassAuth (user pass : Str) : Client Unit :=
  if 255 < String.utf8Len user ∨ 255 < String.utf8Len pass then
    .fail (protoErr "username or password exceeds 255 bytes".toList)
  else do
    .writeAll (authRequest user pass)
    let resp ← .readExact 2
    checkStatus resp

/-- What the client does with the method the server has selected. -/
def selectMethod (user pass : Option Str) (method : UInt8) : Client Unit :=
  if method = methodNoAuth then pure ()
  else if method = methodUserPass then
    match user with
    | none =>
        .fail (protoErr "server requires username/password auth but none was configured".toList)
    | some u => userPassAuth u (pass.getD [])
  else if method = methodNone then
    .fail (protoErr "server rejected all offered auth methods".toList)
  else
    .fail (protoErr ("server selected unsupported method ".toList ++ Str.ofNat method.toNat))

def checkMethod (user pass : Option Str) : List UInt8 → Client Unit
  | [v, method] =>
      if v ≠ ver then
        .fail (protoErr ("bad SOCKS version in method reply: ".toList ++ Str.ofNat v.toNat))
      else selectMethod user pass method
  | _ => .panic

def negotiateMethod (user pass : Option Str) : Client Unit := do
  .writeAll (greeting user)
  let resp ← .readExact 2
  checkMethod user pass resp

/-- The length byte of a domain. -/
def lengthByte : List UInt8 → Client ℕ
  | [l] => pure l.toNat
  | _ => .panic

/-- The length of the bound address in a reply; a domain carries its own. -/
def replyAddrLen (atyp : UInt8) : Client ℕ :=
  if atyp = atypIpv4 then pure 4
  else if atyp = atypIpv6 then pure 16
  else if atyp = atypDomain then do
    let l ← .readExact 1
    lengthByte l
  else .fail (protoErr ("unknown ATYP in reply: ".toList ++ Str.ofNat atyp.toNat))

/-- Consume the bound address and port, which nobody uses. -/
def readBound (atyp : UInt8) : Client Unit := do
  let addrLen ← replyAddrLen atyp
  let _ ← Client.readExact (addrLen + 2)
  pure ()

def checkHead : List UInt8 → Client Unit
  | [v, rep, _, atyp] =>
      if v ≠ ver then
        .fail (protoErr ("bad SOCKS version in reply: ".toList ++ Str.ofNat v.toNat))
      else if rep ≠ 0x00 then .fail (replyErr rep)
      else readBound atyp
  | _ => .panic

def sendConnect (host : Str) (port : UInt16) : Client Unit := do
  let req ← .ofOutcome (encodeAddr [ver, cmdConnect, 0x00] host)
  .writeAll (req ++ toBeBytes port)
  let head ← .readExact 4
  checkHead head

/-- Negotiate and CONNECT to `host:port`. -/
def connect (host : Str) (port : UInt16) (user pass : Option Str) : Client Unit := do
  negotiateMethod user pass
  sendConnect host port

/-! ## The reply language -/

/-- A method the client goes along with. -/
inductive Method (user pass : Option Str) : UInt8 → Prop
  | noAuth : Method user pass 0
  | userPass {u : Str} (huser : user = some u) (hu : String.utf8Len u ≤ 255)
      (hp : String.utf8Len (pass.getD []) ≤ 255) : Method user pass 2

/-- The authentication reply that belongs to a method. -/
inductive AuthReply : UInt8 → List UInt8 → Prop
  | noAuth : AuthReply 0 []
  | userPass (v : UInt8) : AuthReply 2 [v, 0]

/-- A successful reply to CONNECT. -/
inductive ConnectReply : List UInt8 → Prop
  | ipv4 (rsv : UInt8) {bnd : List UInt8} (h : bnd.length = 6) :
      ConnectReply ([5, 0, rsv, 1] ++ bnd)
  | ipv6 (rsv : UInt8) {bnd : List UInt8} (h : bnd.length = 18) :
      ConnectReply ([5, 0, rsv, 4] ++ bnd)
  | domain (rsv len : UInt8) {bnd : List UInt8} (h : bnd.length = len.toNat + 2) :
      ConnectReply ([5, 0, rsv, 3, len] ++ bnd)

/-- The server's side of a successful handshake. -/
def Replies (user pass : Option Str) (m : UInt8) (seg : List UInt8) : Prop :=
  ∃ auth reply, Method user pass m ∧ AuthReply m auth ∧ ConnectReply reply ∧
    seg = [5, m] ++ auth ++ reply

/-- The authentication request that belongs to a method. -/
def authMessage (user pass : Option Str) (m : UInt8) : List UInt8 :=
  if m = methodUserPass then authRequest (user.getD []) (pass.getD []) else []

/-- The client's side of a successful handshake. -/
def handshake (host : Str) (port : UInt16) (user pass : Option Str) (m : UInt8) :
    Outcome IoError (List UInt8) := do
  let req ← encodeAddr [ver, cmdConnect, 0x00] host
  pure (greeting user ++ authMessage user pass m ++ (req ++ toBeBytes port))

theorem exact_checkStatus {resp : List UInt8} (h : resp.length = 2) :
    Client.Exact (checkStatus resp) (fun seg w _ => seg = [] ∧ w = [] ∧ ∃ v, resp = [v, 0]) := by
  obtain ⟨v, status, rfl⟩ := List.length_eq_two.mp h
  refine (Client.Exact.guard fun _ => Client.exact_pure ()).congr ?_
  intro seg w _
  simp only [ne_eq, not_not, and_true, List.cons.injEq]
  constructor
  · rintro ⟨rfl, rfl, rfl⟩
    exact ⟨rfl, rfl, v, rfl, rfl⟩
  · rintro ⟨rfl, rfl, _, _, rfl⟩
    exact ⟨rfl, rfl, rfl⟩

theorem exact_userPassAuth (user pass : Str) :
    Client.Exact (userPassAuth user pass) (fun seg w _ =>
      String.utf8Len user ≤ 255 ∧ String.utf8Len pass ≤ 255 ∧ w = authRequest user pass ∧
        ∃ v, seg = [v, 0]) := by
  refine (Client.Exact.guard fun _ => Client.Exact.write_bind _
    (Client.exact_read_bind 2 fun _ => exact_checkStatus)).congr ?_
  intro seg w _
  constructor
  · rintro ⟨hlen, -, ⟨resp, s₂, -, ⟨rfl, rfl, v, rfl⟩, rfl⟩, rfl⟩
    exact ⟨by omega, by omega, by simp, v, rfl⟩
  · rintro ⟨hu, hp, rfl, v, rfl⟩
    exact ⟨by omega, [], ⟨[v, 0], [], rfl, ⟨rfl, rfl, v, rfl⟩, rfl⟩, by simp⟩

/-- The method decides whether an authentication reply follows. -/
theorem exact_selectMethod (user pass : Option Str) (m : UInt8) :
    Client.Exact (selectMethod user pass m) (fun seg w _ =>
      Method user pass m ∧ AuthReply m seg ∧ w = authMessage user pass m) := by
  by_cases hno : m = methodNoAuth
  · subst hno
    refine (Client.exact_pure ()).congr ?_
    intro seg w _
    constructor
    · rintro ⟨rfl, rfl, -⟩
      exact ⟨.noAuth, .noAuth, rfl⟩
    · rintro ⟨-, hauth, rfl⟩
      cases hauth
      exact ⟨rfl, rfl, rfl⟩
  · by_cases hup : m = methodUserPass
    · subst hup
      cases user with
      | none =>
          refine (Client.exact_fail _).congr ?_
          intro seg w _
          refine ⟨False.elim, ?_⟩
          rintro ⟨hm, -, -⟩
          cases hm with
          | userPass huser _ _ => cases huser
      | some u =>
          refine (exact_userPassAuth u (pass.getD [])).congr ?_
          intro seg w _
          constructor
          · rintro ⟨hu, hp, rfl, v, rfl⟩
            exact ⟨.userPass rfl hu hp, .userPass v, rfl⟩
          · rintro ⟨hm, hauth, rfl⟩
            cases hm with
            | userPass huser hu hp =>
                cases huser
                cases hauth with
                | userPass v => exact ⟨hu, hp, rfl, v, rfl⟩
    · have hother : ∃ e, selectMethod user pass m = .fail e := by
        simp only [selectMethod]
        rw [if_neg hno, if_neg hup]
        split <;> exact ⟨_, rfl⟩
      obtain ⟨e, he⟩ := hother
      rw [he]
      refine (Client.exact_fail e).congr ?_
      intro seg w _
      refine ⟨False.elim, ?_⟩
      rintro ⟨hm, -, -⟩
      cases hm with
      | noAuth => exact hno rfl
      | userPass _ _ _ => exact hup rfl

theorem exact_negotiateMethod (user pass : Option Str) :
    Client.Exact (negotiateMethod user pass) (fun seg w _ => ∃ m auth, Method user pass m ∧
      AuthReply m auth ∧ seg = [5, m] ++ auth ∧ w = greeting user ++ authMessage user pass m) := by
  have hcheck : ∀ resp : List UInt8, resp.length = 2 → Client.Exact (checkMethod user pass resp)
      (fun seg w _ => ∃ m, resp = [5, m] ∧ Method user pass m ∧ AuthReply m seg ∧
        w = authMessage user pass m) := by
    intro resp h
    obtain ⟨v, m, rfl⟩ := List.length_eq_two.mp h
    refine (Client.Exact.guard fun _ => exact_selectMethod user pass m).congr ?_
    intro seg w _
    simp only [ne_eq, not_not, List.cons.injEq, and_true]
    constructor
    · rintro ⟨rfl, hm⟩
      exact ⟨m, ⟨rfl, rfl⟩, hm⟩
    · rintro ⟨_, ⟨rfl, rfl⟩, hm⟩
      exact ⟨rfl, hm⟩
  refine (Client.Exact.write_bind _ (Client.exact_read_bind 2 hcheck)).congr ?_
  intro seg w _
  constructor
  · rintro ⟨-, ⟨-, s₂, -, ⟨m, rfl, hm, hauth, rfl⟩, rfl⟩, rfl⟩
    exact ⟨m, s₂, hm, hauth, rfl, rfl⟩
  · rintro ⟨m, auth, hm, hauth, rfl, rfl⟩
    exact ⟨_, ⟨[5, m], auth, rfl, ⟨m, rfl, hm, hauth, rfl⟩, rfl⟩, rfl⟩

/-- The bytes that carry the length of the bound address, and that length. -/
inductive AddrLen : UInt8 → List UInt8 → ℕ → Prop
  | ipv4 : AddrLen 1 [] 4
  | ipv6 : AddrLen 4 [] 16
  | domain (l : UInt8) : AddrLen 3 [l] l.toNat

theorem exact_lengthByte {bs : List UInt8} (h : bs.length = 1) :
    Client.Exact (lengthByte bs)
      (fun seg w n => seg = [] ∧ w = [] ∧ ∃ l, bs = [l] ∧ n = l.toNat) := by
  obtain ⟨l, rfl⟩ := List.length_eq_one_iff.mp h
  refine (Client.exact_pure l.toNat).congr ?_
  simp

theorem exact_replyAddrLen (atyp : UInt8) :
    Client.Exact (replyAddrLen atyp) (fun seg w n => w = [] ∧ AddrLen atyp seg n) := by
  simp only [replyAddrLen]
  by_cases h4 : atyp = atypIpv4
  · subst h4
    refine (Client.exact_pure 4).congr ?_
    intro seg w n
    constructor
    · rintro ⟨rfl, rfl, rfl⟩
      exact ⟨rfl, .ipv4⟩
    · rintro ⟨rfl, hlen⟩
      cases hlen
      exact ⟨rfl, rfl, rfl⟩
  · rw [if_neg h4]
    by_cases h6 : atyp = atypIpv6
    · subst h6
      refine (Client.exact_pure 16).congr ?_
      intro seg w n
      constructor
      · rintro ⟨rfl, rfl, rfl⟩
        exact ⟨rfl, .ipv6⟩
      · rintro ⟨rfl, hlen⟩
        cases hlen
        exact ⟨rfl, rfl, rfl⟩
    · rw [if_neg h6]
      by_cases hd : atyp = atypDomain
      · subst hd
        refine (Client.exact_read_bind 1 fun _ => exact_lengthByte).congr ?_
        intro seg w n
        constructor
        · rintro ⟨-, -, -, ⟨rfl, rfl, l, rfl, rfl⟩, rfl⟩
          exact ⟨rfl, .domain l⟩
        · rintro ⟨rfl, hlen⟩
          cases hlen with
          | domain l => exact ⟨[l], [], rfl, ⟨rfl, rfl, l, rfl, rfl⟩, rfl⟩
      · rw [if_neg hd]
        refine (Client.exact_fail _).congr ?_
        intro seg w n
        refine ⟨False.elim, ?_⟩
        rintro ⟨-, hlen⟩
        cases hlen with
        | ipv4 => exact h4 rfl
        | ipv6 => exact h6 rfl
        | domain _ => exact hd rfl

theorem exact_readBound (atyp : UInt8) :
    Client.Exact (readBound atyp) (fun seg w _ => w = [] ∧ ∃ len n bnd, AddrLen atyp len n ∧
      bnd.length = n + 2 ∧ seg = len ++ bnd) := by
  refine ((exact_replyAddrLen atyp).bind fun n _ _ _ =>
    Client.exact_read_bind (n + 2) fun _ _ => Client.exact_pure ()).congr ?_
  intro seg w _
  constructor
  · rintro ⟨n, len, -, -, -, ⟨rfl, hlen⟩, ⟨bnd, -, hbnd, ⟨rfl, rfl, -⟩, rfl⟩, rfl, rfl⟩
    exact ⟨rfl, len, n, bnd, hlen, hbnd, by simp⟩
  · rintro ⟨rfl, len, n, bnd, hlen, hbnd, rfl⟩
    exact ⟨n, len, [], bnd, [], ⟨rfl, hlen⟩, ⟨bnd, [], hbnd, ⟨rfl, rfl, rfl⟩, by simp⟩, rfl, rfl⟩

/-- A reply is its four-byte head, followed by what its address type announces. -/
theorem connectReply_append_iff {v rep rsv atyp : UInt8} {seg : List UInt8} :
    ConnectReply ([v, rep, rsv, atyp] ++ seg) ↔ v = 5 ∧ rep = 0 ∧
      ∃ len n bnd, AddrLen atyp len n ∧ bnd.length = n + 2 ∧ seg = len ++ bnd := by
  constructor
  · intro h
    generalize hall : [v, rep, rsv, atyp] ++ seg = all at h
    cases h with
    | ipv4 rsv' hbnd =>
        simp only [List.cons_append, List.nil_append, List.cons.injEq] at hall
        obtain ⟨rfl, rfl, rfl, rfl, rfl⟩ := hall
        exact ⟨rfl, rfl, [], 4, seg, .ipv4, hbnd, rfl⟩
    | ipv6 rsv' hbnd =>
        simp only [List.cons_append, List.nil_append, List.cons.injEq] at hall
        obtain ⟨rfl, rfl, rfl, rfl, rfl⟩ := hall
        exact ⟨rfl, rfl, [], 16, seg, .ipv6, hbnd, rfl⟩
    | domain rsv' l hbnd =>
        simp only [List.cons_append, List.nil_append, List.cons.injEq] at hall
        obtain ⟨rfl, rfl, rfl, rfl, rfl⟩ := hall
        exact ⟨rfl, rfl, [l], l.toNat, _, .domain l, hbnd, rfl⟩
  · rintro ⟨rfl, rfl, len, n, bnd, hlen, hbnd, rfl⟩
    cases hlen with
    | ipv4 => exact .ipv4 rsv hbnd
    | ipv6 => exact .ipv6 rsv hbnd
    | domain l => exact .domain rsv l hbnd

theorem exact_checkHead {head : List UInt8} (h : head.length = 4) :
    Client.Exact (checkHead head) (fun seg w _ => w = [] ∧ ConnectReply (head ++ seg)) := by
  obtain ⟨v, rep, rsv, atyp, rfl⟩ : ∃ v rep rsv atyp, head = [v, rep, rsv, atyp] := by
    match head, h with
    | [v, rep, rsv, atyp], _ => exact ⟨v, rep, rsv, atyp, rfl⟩
  refine (Client.Exact.guard fun _ => Client.Exact.guard fun _ => exact_readBound atyp).congr ?_
  intro seg w _
  simp only [connectReply_append_iff, ne_eq, not_not]
  constructor
  · rintro ⟨hv, hrep, hw, hbound⟩
    exact ⟨hw, hv, hrep, hbound⟩
  · rintro ⟨hw, hv, hrep, hbound⟩
    exact ⟨hv, hrep, hw, hbound⟩

theorem ConnectReply.four_le_length {reply : List UInt8} (h : ConnectReply reply) :
    4 ≤ reply.length := by
  cases h <;> simp

theorem exact_sendConnect (host : Str) (port : UInt16) :
    Client.Exact (sendConnect host port) (fun seg w _ =>
      ∃ req, encodeAddr [ver, cmdConnect, 0x00] host = .ok req ∧ ConnectReply seg ∧
        w = req ++ toBeBytes port) := by
  refine (Client.exact_ofOutcome_bind fun req _ => Client.Exact.write_bind (req ++ toBeBytes port)
    (Client.exact_read_bind 4 fun _ => exact_checkHead)).congr ?_
  intro seg w _
  constructor
  · rintro ⟨req, hreq, -, ⟨head, s₂, -, ⟨rfl, hreply⟩, rfl⟩, rfl⟩
    exact ⟨req, hreq, hreply, by simp⟩
  · rintro ⟨req, hreq, hreply, rfl⟩
    refine ⟨req, hreq, [], ⟨seg.take 4, seg.drop 4, ?_, ⟨rfl, ?_⟩, ?_⟩, by simp⟩
    · have := hreply.four_le_length
      rw [List.length_take]
      omega
    · rwa [List.take_append_drop]
    · rw [List.take_append_drop]

/-- **The language of `connect`**: the server's replies, in order, against the
greeting, the authentication request the method calls for, and the CONNECT. -/
theorem exact_connect (host : Str) (port : UInt16) (user pass : Option Str) :
    Client.Exact (connect host port user pass) (fun seg w _ =>
      ∃ m, Replies user pass m seg ∧ handshake host port user pass m = .ok w) := by
  refine ((exact_negotiateMethod user pass).bind fun _ _ _ _ => exact_sendConnect host port).congr ?_
  intro seg w _
  constructor
  · rintro ⟨-, -, -, reply, -, ⟨m, auth, hm, hauth, rfl, rfl⟩, ⟨req, hreq, hreply, rfl⟩, rfl, rfl⟩
    exact ⟨m, ⟨auth, reply, hm, hauth, hreply, rfl⟩, by simp [handshake, hreq]⟩
  · rintro ⟨m, ⟨auth, reply, hm, hauth, hreply, rfl⟩, hw⟩
    simp only [handshake, Outcome.bind_eq_ok_iff, Outcome.pure_eq_ok, Outcome.ok.injEq] at hw
    obtain ⟨req, hreq, rfl⟩ := hw
    exact ⟨(), [5, m] ++ auth, greeting user ++ authMessage user pass m, reply,
      req ++ toBeBytes port, ⟨m, auth, hm, hauth, rfl, rfl⟩, ⟨req, hreq, hreply, rfl⟩, rfl, rfl⟩

/-- Accepting an address does not depend on what it is appended to. -/
theorem encodeAddr_append (buf : List UInt8) (host : Str) :
    encodeAddr buf host = (do let a ← encodeAddr [] host; pure (buf ++ a)) := by
  simp only [encodeAddr]
  cases IpAddr.parseIpv4 host with
  | some ip => simp
  | none =>
      cases IpAddr.parseIpv6 host with
      | some ip => simp
      | none =>
          simp only
          split <;> simp

theorem exists_handshake {host : Str} {a : List UInt8} (ha : encodeAddr [] host = .ok a)
    (port : UInt16) (user pass : Option Str) (m : UInt8) :
    ∃ w, handshake host port user pass m = .ok w := by
  refine ⟨greeting user ++ authMessage user pass m ++
    ([ver, cmdConnect, 0x00] ++ a ++ toBeBytes port), ?_⟩
  simp [handshake, encodeAddr_append [ver, cmdConnect, 0x00] host, ha]

/-- **The client accepts exactly its reply language and stops at its end.** For every
host it can encode and every segmentation of the inbound bytes, `connect` succeeds if
and only if they start with a word of the language; that word is the only one, and
what follows it is still there. -/
theorem connect_ok_iff (host : Str) (port : UInt16) (user pass : Option Str) (d : Duplex)
    (hhost : ∃ a, encodeAddr [] host = .ok a) :
    ((∃ d', (connect host port user pass).run d = (.ok (), d')) ↔
      ∃ m seg rest, Replies user pass m seg ∧ d.pending = seg ++ rest) ∧
    ∀ d', (connect host port user pass).run d = (.ok (), d') →
      ∃ m seg, Replies user pass m seg ∧ d.pending = seg ++ d'.pending ∧
        ∀ m' seg' rest', Replies user pass m' seg' → d.pending = seg' ++ rest' → seg' = seg := by
  obtain ⟨a, ha⟩ := hhost
  have hexact := exact_connect host port user pass
  refine ⟨⟨?_, ?_⟩, ?_⟩
  · rintro ⟨d', hrun⟩
    obtain ⟨seg, w, ⟨m, hreplies, -⟩, hpending, -⟩ := hexact.sound hrun
    exact ⟨m, seg, d'.pending, hreplies, hpending⟩
  · rintro ⟨m, seg, rest, hreplies, hpending⟩
    obtain ⟨w, hw⟩ := exists_handshake ha port user pass m
    obtain ⟨d', hrun, -⟩ := hexact.complete ⟨m, hreplies, hw⟩ hpending
    exact ⟨d', hrun⟩
  · intro d' hrun
    obtain ⟨seg, w, ⟨m, hreplies, hw⟩, hpending, -⟩ := hexact.sound hrun
    refine ⟨m, seg, hreplies, hpending, ?_⟩
    intro m' seg' rest' hreplies' hpending'
    obtain ⟨w', hw'⟩ := exists_handshake ha port user pass m'
    exact (hexact.unique () () ⟨m', hreplies', hw'⟩ ⟨m, hreplies, hw⟩
      (hpending'.symm.trans hpending)).1

/-- A reply cut into three segments, with application bytes in the last one. -/
theorem connect_ok_segmented :
    ∃ d', (connect "host.example".toList 443 none none).run
      ⟨[[5], [0, 5, 0], [0, 1, 0, 0, 0, 0, 0, 0, 72, 105]], []⟩ = (.ok (), d') :=
  (connect_ok_iff "host.example".toList 443 none none _ ⟨_, rfl⟩).1.mpr
    ⟨0, [5, 0, 5, 0, 0, 1, 0, 0, 0, 0, 0, 0], [72, 105],
      ⟨[], [5, 0, 0, 1, 0, 0, 0, 0, 0, 0], .noAuth, .noAuth, .ipv4 0 rfl, rfl⟩, rfl⟩

/-! ## Versions -/

/-- Where the CONNECT reply starts in what the client has consumed: behind the method reply,
and behind the status reply if the method calls for one. -/
def connectReplyAt (consumed : List UInt8) : ℕ :=
  if consumed[1]? = some methodUserPass then 4 else 2

/-- Every message that was consumed has the version of its protocol in the first byte. -/
structure VersionsRight (consumed : List UInt8) : Prop where
  method : consumed[0]? = some ver
  status : consumed[1]? = some methodUserPass → consumed[2]? = some authVer
  connect : consumed[connectReplyAt consumed]? = some ver

/-- What the replies of a successful handshake have at the places of the versions. -/
theorem Replies.versions {user pass : Option Str} {m : UInt8} {seg : List UInt8}
    (h : Replies user pass m seg) :
    seg[0]? = some ver ∧ seg[connectReplyAt seg]? = some ver ∧
      (seg[1]? = some methodUserPass → 2 < seg.length) := by
  obtain ⟨auth, reply, hm, hauth, hreply, rfl⟩ := h
  have hhead : ∃ reply', reply = ver :: reply' := by
    cases hreply <;> exact ⟨_, rfl⟩
  obtain ⟨reply, rfl⟩ := hhead
  cases hauth with
  | noAuth =>
      refine ⟨rfl, rfl, fun h => ?_⟩
      have hmethod : (0 : UInt8) = 2 := Option.some.inj h
      exact absurd hmethod (by decide)
  | userPass v => exact ⟨rfl, rfl, fun _ => by simp⟩

/-- **Which handshakes are accepted with right versions only.** In every handshake that
succeeds, the method reply and the CONNECT reply carry version 5. The version of the status
reply is right exactly if the server, having selected username and password by its second
byte, sends 1 as its third. -/
theorem versionsRight_iff {host : Str} {port : UInt16} {user pass : Option Str} {d d' : Duplex}
    (h : (connect host port user pass).run d = (.ok (), d')) :
    ∃ consumed, d.pending = consumed ++ d'.pending ∧ consumed[0]? = some ver ∧
      consumed[connectReplyAt consumed]? = some ver ∧
      (VersionsRight consumed ↔
        (d.pending[1]? = some methodUserPass → d.pending[2]? = some authVer)) := by
  obtain ⟨seg, w, ⟨m, hreplies, -⟩, hpending, -⟩ := (exact_connect host port user pass).sound h
  obtain ⟨hmethod, hconnect, hstatus⟩ := hreplies.versions
  refine ⟨seg, hpending, hmethod, hconnect, ?_⟩
  have hlen : 1 < seg.length := by
    obtain ⟨auth, reply, -, -, -, rfl⟩ := hreplies
    simp
  have hone : d.pending[1]? = seg[1]? := by rw [hpending, List.getElem?_append_left hlen]
  rw [hone]
  constructor
  · intro hversions hselected
    rw [hpending, List.getElem?_append_left (hstatus hselected)]
    exact hversions.status hselected
  · intro hthird
    refine ⟨hmethod, fun hselected => ?_, hconnect⟩
    have hversion := hthird hselected
    rwa [hpending, List.getElem?_append_left (hstatus hselected)] at hversion

/-- A conforming server that asks for the password. -/
theorem versionsRight_user_pass :
    ∃ d' consumed, (connect "host.example".toList 443 (some "u".toList) (some "p".toList)).run
        ⟨[[5, 2], [1, 0], [5, 0, 0, 1, 0, 0, 0, 0, 0, 0]], []⟩ = (.ok (), d') ∧
      consumed ++ d'.pending = [5, 2, 1, 0, 5, 0, 0, 1, 0, 0, 0, 0, 0, 0] ∧
      VersionsRight consumed := by
  obtain ⟨d', hrun⟩ : ∃ d', (connect "host.example".toList 443 (some "u".toList)
      (some "p".toList)).run ⟨[[5, 2], [1, 0], [5, 0, 0, 1, 0, 0, 0, 0, 0, 0]], []⟩ = (.ok (), d') :=
    ⟨_, rfl⟩
  obtain ⟨consumed, hpending, -, -, hiff⟩ := versionsRight_iff hrun
  exact ⟨d', consumed, hrun, hpending.symm, hiff.mpr fun _ => rfl⟩

/-- A status reply with version 5 passes for a successful authentication. -/
theorem versionsRight_wrong_status :
    ∃ d', (connect "host.example".toList 443 (some "u".toList) (some "p".toList)).run
        ⟨[[5, 2], [5, 0], [5, 0, 0, 1, 0, 0, 0, 0, 0, 0]], []⟩ = (.ok (), d') ∧
      d'.pending = [] ∧ ¬ VersionsRight [5, 2, 5, 0, 5, 0, 0, 1, 0, 0, 0, 0, 0, 0] := by
  refine ⟨_, rfl, rfl, ?_⟩
  intro hversions
  exact absurd (hversions.status rfl) (by decide)

end Gust.Socks5
