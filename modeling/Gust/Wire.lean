import Gust.Lib.Effect
import Gust.Proxy

/-!
# What the SOCKS5 client puts on the wire

`exact_connect` speaks about handshakes that succeed. Here every run counts: whatever
the server answers, and wherever the client gives up, what it has written is a greeting,
then at most one username and password request, then at most one CONNECT, each of them
complete and each decoding to what was asked for.
-/

namespace Gust.Socks5

open Gust.Lib Gust.Proxy

/-! ## The client is flat -/

theorem flat_checkStatus (resp : List UInt8) : Client.Flat (checkStatus resp) := by
  rw [checkStatus.eq_def]
  split
  · exact (Client.flat_fail _).ite (Client.flat_pure ())
  · exact Client.flat_panic

theorem flat_userPassAuth (user pass : Str) : Client.Flat (userPassAuth user pass) :=
  (Client.flat_fail _).ite ((Client.flat_writeAll _).bind fun _ =>
    (Client.flat_readExact 2).bind flat_checkStatus)

theorem flat_selectMethod (user pass : Option Str) (m : UInt8) :
    Client.Flat (selectMethod user pass m) := by
  refine (Client.flat_pure ()).ite (Client.Flat.ite ?_
    ((Client.flat_fail _).ite (Client.flat_fail _)))
  cases user with
  | none => exact Client.flat_fail _
  | some u => exact flat_userPassAuth u (pass.getD [])

theorem flat_checkMethod (user pass : Option Str) (resp : List UInt8) :
    Client.Flat (checkMethod user pass resp) := by
  rw [checkMethod.eq_def]
  split
  · exact (Client.flat_fail _).ite (flat_selectMethod user pass _)
  · exact Client.flat_panic

theorem flat_negotiateMethod (user pass : Option Str) :
    Client.Flat (negotiateMethod user pass) :=
  (Client.flat_writeAll _).bind fun _ => (Client.flat_readExact 2).bind (flat_checkMethod user pass)

theorem flat_lengthByte (bs : List UInt8) : Client.Flat (lengthByte bs) := by
  rw [lengthByte.eq_def]
  split
  · exact Client.flat_pure _
  · exact Client.flat_panic

theorem flat_replyAddrLen (atyp : UInt8) : Client.Flat (replyAddrLen atyp) :=
  (Client.flat_pure 4).ite ((Client.flat_pure 16).ite
    (((Client.flat_readExact 1).bind flat_lengthByte).ite (Client.flat_fail _)))

theorem flat_readBound (atyp : UInt8) : Client.Flat (readBound atyp) :=
  (flat_replyAddrLen atyp).bind fun _ => (Client.flat_readExact _).bind fun _ => Client.flat_pure ()

theorem flat_checkHead (head : List UInt8) : Client.Flat (checkHead head) := by
  rw [checkHead.eq_def]
  split
  · exact (Client.flat_fail _).ite ((Client.flat_fail _).ite (flat_readBound _))
  · exact Client.flat_panic

theorem flat_sendConnect (host : Str) (port : UInt16) : Client.Flat (sendConnect host port) :=
  (Client.flat_ofOutcome _).bind fun _ => (Client.flat_writeAll _).bind fun _ =>
    (Client.flat_readExact 4).bind flat_checkHead

theorem flat_connect (host : Str) (port : UInt16) (user pass : Option Str) :
    Client.Flat (connect host port user pass) :=
  (flat_negotiateMethod user pass).bind fun _ => flat_sendConnect host port

/-! ## The messages -/

theorem silent_checkStatus {resp : List UInt8} (h : resp.length = 2) :
    Client.Silent (checkStatus resp) := by
  obtain ⟨v, status, rfl⟩ := List.length_eq_two.mp h
  exact (Client.silent_fail _).ite (Client.silent_pure ())

theorem silent_lengthByte {bs : List UInt8} (h : bs.length = 1) : Client.Silent (lengthByte bs) := by
  obtain ⟨l, rfl⟩ := List.length_eq_one_iff.mp h
  exact Client.silent_pure l.toNat

theorem silent_readBound (atyp : UInt8) : Client.Silent (readBound atyp) := by
  have hlen : Client.Silent (replyAddrLen atyp) :=
    (Client.silent_pure 4).ite ((Client.silent_pure 16).ite
      ((Client.Silent.read_bind flat_lengthByte fun _ => silent_lengthByte).ite
        (Client.silent_fail _)))
  have hbound : ∀ n, Client.Silent
      (Client.readExact (n + 2) >>= fun _ => (pure () : Client Unit)) := fun n =>
    Client.Silent.read_bind (fun _ => Client.flat_pure ()) fun _ _ => Client.silent_pure ()
  exact hlen.bind hbound (flat_replyAddrLen atyp) fun _ =>
    (Client.flat_readExact _).bind fun _ => Client.flat_pure ()

theorem silent_checkHead {head : List UInt8} (h : head.length = 4) :
    Client.Silent (checkHead head) := by
  obtain ⟨v, rep, rsv, atyp, rfl⟩ : ∃ v rep rsv atyp, head = [v, rep, rsv, atyp] := by
    match head, h with
    | [v, rep, rsv, atyp], _ => exact ⟨v, rep, rsv, atyp, rfl⟩
  exact (Client.silent_fail _).ite ((Client.silent_fail _).ite (silent_readBound atyp))

/-- Credentials that do not fit their length bytes are refused before anything of the
request is written. -/
theorem effect_userPassAuth_of_lt {user pass : Str}
    (h : 255 < String.utf8Len user ∨ 255 < String.utf8Len pass) (bs : List UInt8) :
    Client.effect (userPassAuth user pass) bs =
      ⟨.err (protoErr "username or password exceeds 255 bytes".toList), [], bs⟩ := by
  rw [userPassAuth, if_pos h, Client.effect_fail]

/-- Waiting for the status reply, whoever has asked for it. -/
def awaitStatus : Client Unit := Client.readExact 2 >>= checkStatus

theorem flat_awaitStatus : Client.Flat awaitStatus :=
  (Client.flat_readExact 2).bind flat_checkStatus

theorem silent_awaitStatus : Client.Silent awaitStatus :=
  Client.Silent.read_bind flat_checkStatus fun _ => silent_checkStatus

theorem effect_userPassAuth {user pass : Str} (hu : String.utf8Len user ≤ 255)
    (hp : String.utf8Len pass ≤ 255) (bs : List UInt8) :
    Client.effect (userPassAuth user pass) bs =
      (Client.effect awaitStatus bs).after (authRequest user pass) := by
  rw [userPassAuth, if_neg (by omega)]
  exact Client.effect_write_bind flat_awaitStatus _ bs

/-- What an authentication exchange writes: nothing, or one request that fits. -/
def AuthPart (user pass : Option Str) (w : List UInt8) : Prop :=
  w = [] ∨ ∃ u, user = some u ∧ String.utf8Len u ≤ 255 ∧ String.utf8Len (pass.getD []) ≤ 255 ∧
    w = authRequest u (pass.getD [])

theorem effect_selectMethod (user pass : Option Str) (m : UInt8) (bs : List UInt8) :
    AuthPart user pass (Client.effect (selectMethod user pass m) bs).written ∧
      (Client.effect (selectMethod user pass m) bs).result ≠ .panic := by
  by_cases hno : m = methodNoAuth
  · simp [selectMethod, hno, AuthPart]
  · by_cases hup : m = methodUserPass
    · subst hup
      cases user with
      | none => simp [selectMethod, methodUserPass, methodNoAuth, AuthPart]
      | some u =>
          have hsel : selectMethod (some u) pass methodUserPass = userPassAuth u (pass.getD []) := rfl
          rw [hsel]
          by_cases hlen : 255 < String.utf8Len u ∨ 255 < String.utf8Len (pass.getD [])
          · rw [effect_userPassAuth_of_lt hlen]
            exact ⟨.inl rfl, by simp⟩
          · have hu : String.utf8Len u ≤ 255 := by omega
            have hp : String.utf8Len (pass.getD []) ≤ 255 := by omega
            rw [effect_userPassAuth hu hp]
            refine ⟨.inr ⟨u, rfl, hu, hp, ?_⟩, silent_awaitStatus.result bs⟩
            rw [Effect.after, silent_awaitStatus.written, List.append_nil]
    · have hother : ∃ e, selectMethod user pass m = .fail e := by
        simp only [selectMethod]
        rw [if_neg hno, if_neg hup]
        split <;> exact ⟨_, rfl⟩
      obtain ⟨e, he⟩ := hother
      rw [he, Client.effect_fail]
      exact ⟨.inl rfl, by simp⟩

theorem effect_negotiateMethod (user pass : Option Str) (v m : UInt8) (bs : List UInt8) :
    Client.effect (negotiateMethod user pass) (v :: m :: bs) =
      (Client.effect (checkMethod user pass [v, m]) bs).after (greeting user) := by
  have hread : Client.effect (Client.readExact 2 >>= checkMethod user pass) (v :: m :: bs) =
      Client.effect (checkMethod user pass [v, m]) bs :=
    Client.effect_read_bind (flat_checkMethod user pass) (List.length_cons : [v, m].length = 2) bs
  rw [negotiateMethod,
    Client.effect_write_bind ((Client.flat_readExact 2).bind (flat_checkMethod user pass)), hread]

theorem effect_negotiateMethod_of_lt (user pass : Option Str) {bs : List UInt8}
    (h : bs.length < 2) :
    Client.effect (negotiateMethod user pass) bs =
      ⟨.err Client.unexpectedEof, greeting user, []⟩ := by
  rw [negotiateMethod,
    Client.effect_write_bind ((Client.flat_readExact 2).bind (flat_checkMethod user pass)),
    Client.effect_read_bind_of_lt (flat_checkMethod user pass) h, Effect.after, List.append_nil]

/-- A stream is too short for a method reply or starts with one. -/
theorem short_or_cons_cons (bs : List UInt8) :
    bs.length < 2 ∨ ∃ v m rest, bs = v :: m :: rest := by
  match bs with
  | [] => exact .inl (by decide)
  | [_] => exact .inl (by simp)
  | v :: m :: rest => exact .inr ⟨v, m, rest, rfl⟩

theorem written_negotiateMethod (user pass : Option Str) (bs : List UInt8) :
    ∃ auth, AuthPart user pass auth ∧
      (Client.effect (negotiateMethod user pass) bs).written = greeting user ++ auth ∧
      (Client.effect (negotiateMethod user pass) bs).result ≠ .panic := by
  obtain hlt | ⟨v, m, rest, rfl⟩ := short_or_cons_cons bs
  · rw [effect_negotiateMethod_of_lt user pass hlt]
    exact ⟨[], .inl rfl, (List.append_nil _).symm, by simp⟩
  · rw [effect_negotiateMethod]
    by_cases hv : v = ver
    · have hcheck : checkMethod user pass [v, m] = selectMethod user pass m := by
        simp [checkMethod, hv]
      rw [hcheck]
      obtain ⟨hauth, hresult⟩ := effect_selectMethod user pass m rest
      exact ⟨_, hauth, rfl, hresult⟩
    · refine ⟨[], .inl rfl, ?_, ?_⟩
      · simp [checkMethod, hv, Effect.after]
      · simp [checkMethod, hv, Effect.after]

/-- What the second half writes: nothing, or the whole CONNECT. -/
def ConnectPart (host : Str) (port : UInt16) (w : List UInt8) : Prop :=
  w = [] ∨ ∃ req, encodeAddr [ver, cmdConnect, 0x00] host = .ok req ∧ w = req ++ toBeBytes port

theorem encodeAddr_ne_panic (buf : List UInt8) (host : Str) : encodeAddr buf host ≠ .panic := by
  rw [encodeAddr]
  split
  · simp
  · split
    · simp
    · simp only
      split <;> simp

theorem written_sendConnect (host : Str) (port : UInt16) (bs : List UInt8) :
    ConnectPart host port (Client.effect (sendConnect host port) bs).written ∧
      (Client.effect (sendConnect host port) bs).result ≠ .panic := by
  have hreply : Client.Silent (Client.readExact 4 >>= checkHead) :=
    Client.Silent.read_bind flat_checkHead fun _ => silent_checkHead
  have hflat : Client.Flat (Client.readExact 4 >>= checkHead) :=
    (Client.flat_readExact 4).bind flat_checkHead
  rw [sendConnect, Client.effect_bind (Client.flat_ofOutcome _) fun _ =>
    (Client.flat_writeAll _).bind fun _ => hflat, Client.effect_ofOutcome]
  cases hreq : encodeAddr [ver, cmdConnect, 0x00] host with
  | ok req =>
      rw [Effect.ok_andThen, Client.effect_write_bind hflat]
      refine ⟨.inr ⟨req, hreq, ?_⟩, hreply.result bs⟩
      simp [Effect.after, hreply.written]
  | err e => exact ⟨.inl rfl, by simp⟩
  | panic => exact absurd hreq (encodeAddr_ne_panic _ host)

theorem written_connect (host : Str) (port : UInt16) (user pass : Option Str) (bs : List UInt8) :
    ∃ auth conn, AuthPart user pass auth ∧ ConnectPart host port conn ∧
      (Client.effect (connect host port user pass) bs).written = greeting user ++ auth ++ conn ∧
      (Client.effect (connect host port user pass) bs).result ≠ .panic := by
  obtain ⟨auth, hauth, hw, hresult⟩ := written_negotiateMethod user pass bs
  rw [connect, Client.effect_bind (flat_negotiateMethod user pass) fun _ =>
    flat_sendConnect host port, Effect.andThen]
  split
  · obtain ⟨hconn, hne⟩ := written_sendConnect host port
      (Client.effect (negotiateMethod user pass) bs).rest
    refine ⟨auth, _, hauth, hconn, ?_, hne⟩
    rw [hw]
  · exact ⟨auth, [], hauth, .inl rfl, by rw [hw, List.append_nil], by simp⟩
  · next h => exact absurd h hresult

/-- Credentials that are too long end the handshake behind the greeting. -/
theorem effect_connect_of_long_auth {host u : Str} {port : UInt16} {pass : Option Str}
    (h : 255 < String.utf8Len u ∨ 255 < String.utf8Len (pass.getD [])) (bs : List UInt8) :
    Client.effect (connect host port (some u) pass) (5 :: 2 :: bs) =
      ⟨.err (protoErr "username or password exceeds 255 bytes".toList), greeting (some u), bs⟩ := by
  have hcheck : checkMethod (some u) pass [5, 2] = userPassAuth u (pass.getD []) := rfl
  rw [connect, Client.effect_bind (flat_negotiateMethod (some u) pass) fun _ =>
    flat_sendConnect host port, effect_negotiateMethod, hcheck, effect_userPassAuth_of_lt h,
    Effect.after_andThen, Effect.err_andThen, Effect.after, List.append_nil]

/-- A stream that has a method reply of `[5, 2]` starts with it. -/
theorem eq_cons_of_take_two {bs : List UInt8} {v m : UInt8} (h : bs.take 2 = [v, m]) :
    ∃ rest, bs = v :: m :: rest := by
  refine ⟨bs.drop 2, ?_⟩
  have hsplit := List.take_append_drop 2 bs
  rw [h] at hsplit
  exact hsplit.symm

/-! ## Requests decode to what was asked -/

/-- Complete messages, as the decoders of the other side read them: a greeting, at most
one username and password request and at most one CONNECT. -/
structure Messages (host : Str) (port : UInt16) (user pass : Option Str)
    (greet auth conn : List UInt8) : Prop where
  greet : decodeGreeting greet = some (if user.isSome then [0, 2] else [0], [])
  auth : auth = [] ∨ ∃ u, user = some u ∧
    decodeAuth auth = some ((Str.asBytes u, Str.asBytes (pass.getD [])), [])
  conn : conn = [] ∨ decodeRequest conn = some (requestFor host port, [])

theorem messages_of_parts {host : Str} {port : UInt16} {user pass : Option Str}
    {auth conn : List UInt8} (hauth : AuthPart user pass auth) (hconn : ConnectPart host port conn) :
    Messages host port user pass (greeting user) auth conn := by
  refine ⟨?_, ?_, ?_⟩
  · have hgreet := decodeGreeting_greeting user []
    rw [List.append_nil] at hgreet
    rw [hgreet]
    rfl
  · obtain rfl | ⟨u, huser, hu, hp, rfl⟩ := hauth
    · exact .inl rfl
    · have hdecode := decodeAuth_authRequest hu hp []
      rw [List.append_nil] at hdecode
      exact .inr ⟨u, huser, hdecode⟩
  · obtain rfl | ⟨req, hreq, rfl⟩ := hconn
    · exact .inl rfl
    · have hdecode := decodeRequest_encodeAddr hreq port []
      rw [List.append_nil] at hdecode
      exact .inr hdecode

/-- A domain that does not fit its length byte cannot be encoded. -/
theorem encodeAddr_of_long {host : Str} (buf : List UInt8) (h4 : IpAddr.parseIpv4 host = none)
    (h6 : IpAddr.parseIpv6 host = none) (hlen : 255 < (Str.asBytes host).length) :
    encodeAddr buf host = .err (protoErr "destination hostname exceeds 255 bytes".toList) := by
  simp only [encodeAddr, h4, h6]
  exact if_pos hlen

/-- **SOCKS5 requests decode to what was asked.** However a run of `connect` ends, what it
has written is a greeting that offers username and password exactly if there is a user, at
most one RFC 1929 request for that user and password and at most one CONNECT for that
host and port, with nothing between or behind them. What does not fit a length byte gives
an error, and nothing of its message is written. -/
theorem connect_requests_decode (host : Str) (port : UInt16) (user pass : Option Str)
    (d : Duplex) :
    ∃ r d' greet auth conn, (connect host port user pass).run d = (r, d') ∧ r ≠ .panic ∧
      d'.written = d.written ++ (greet ++ auth ++ conn) ∧
      Messages host port user pass greet auth conn ∧
      (IpAddr.parseIpv4 host = none → IpAddr.parseIpv6 host = none →
        255 < (Str.asBytes host).length → (∃ e, r = .err e) ∧ conn = []) ∧
      (∀ u, user = some u → 255 < (Str.asBytes u).length ∨
        255 < (Str.asBytes (pass.getD [])).length → d.pending.take 2 = [5, 2] →
        (∃ e, r = .err e) ∧ auth = [] ∧ conn = []) := by
  have hdoes := flat_connect host port user pass d
  obtain ⟨auth, conn, hauth, hconn, hw, hpanic⟩ := written_connect host port user pass d.pending
  rcases hrun : (connect host port user pass).run d with ⟨r, d'⟩
  have hr : r = (Client.effect (connect host port user pass) d.pending).result := by
    rw [← hdoes.result, hrun]
  have hw' : d'.written = d.written ++ (greeting user ++ auth ++ conn) := by
    rw [← hw, ← hdoes.written, hrun]
  refine ⟨r, d', greeting user, auth, conn, rfl, ?_, hw', messages_of_parts hauth hconn, ?_, ?_⟩
  · rw [hr]
    exact hpanic
  · intro h4 h6 hlen
    have hlong := encodeAddr_of_long [ver, cmdConnect, 0x00] h4 h6 hlen
    refine ⟨?_, ?_⟩
    · cases r with
      | ok _ =>
          obtain ⟨-, w, ⟨m, -, hhandshake⟩, -⟩ := (exact_connect host port user pass).sound hrun
          simp [handshake, hlong] at hhandshake
      | err e => exact ⟨e, rfl⟩
      | panic => exact absurd hr.symm hpanic
    · obtain rfl | ⟨req, hreq, -⟩ := hconn
      · rfl
      · rw [hlong] at hreq
        cases hreq
  · intro u huser hlen hmethod
    subst huser
    rw [Str.length_asBytes, Str.length_asBytes] at hlen
    obtain ⟨rest, hpending⟩ := eq_cons_of_take_two hmethod
    rw [hpending, effect_connect_of_long_auth hlen] at hw hr
    rw [List.append_assoc, List.self_eq_append_right, List.append_eq_nil_iff] at hw
    exact ⟨⟨_, hr⟩, hw⟩

end Gust.Socks5
