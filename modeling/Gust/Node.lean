import Mathlib.Data.Finmap
import Gust.Lib.Text

/-!
# Node strings

A node string has the form `scheme://[user:pass@]host:port[/target][?query]`. The
parser works by searching for one delimiter after another and slicing around what it
finds; every slice here is the panicking one, at the byte offset the search returned.
The authority ends at the first `/` or `?`, the userinfo at the last `@`, the user at
the first `:` of the userinfo, and the host at the last `:` of what remains, unless it
is bracketed.
-/

namespace Gust

open Gust.Lib

/-- A parsed node string. An empty `host` stands for all interfaces. -/
structure Node where
  scheme : Str
  user : Option Str
  pass : Option Str
  host : Str
  port : Option UInt16
  /-- The path without its surrounding slashes: for a forwarder, its destinations. -/
  target : Str
  query : Finmap (fun _ : Str => Str)
  deriving DecidableEq

namespace Node

/-- `host:port`, with the host exactly as it is. -/
def authority (n : Node) : Option Str := n.port.map fun p => n.host ++ ':' :: Str.ofNat p.toNat

/-- The address to bind: an empty host becomes `0.0.0.0`. -/
def bindString (n : Node) : Option Str :=
  n.port.map fun p =>
    if n.host.isEmpty then "0.0.0.0:".toList ++ Str.ofNat p.toNat
    else n.host ++ ':' :: Str.ofNat p.toNat

/-- The destinations, separated by commas; empty entries are dropped. -/
def targets (n : Node) : List Str :=
  ((Str.split ',' n.target).map Str.trim).filter fun s => !s.isEmpty

end Node

def parsePort (p : Str) : Outcome Str UInt16 :=
  .ofOption ("invalid port `".toList ++ p ++ ['`']) (Str.parseU16 p)

/-- Split a `host:port`. A missing port is `none`; the brackets of an IPv6 literal
are dropped. -/
def parseHostPort (hp : Str) : Outcome Str (Str × Option UInt16) :=
  if hp.isEmpty then .ok ([], none)
  else
    match Str.stripPrefix '[' hp with
    | some stripped => do
        let close ← .ofOption "unterminated IPv6 bracket".toList (Str.find (· == ']') stripped)
        let host ← Str.sliceTo stripped close
        let after ← Str.sliceFrom stripped (close + 1)
        match Str.stripPrefix ':' after with
        | some p => do
            let port ← parsePort p
            pure (host, some port)
        | none =>
            if after.isEmpty then .ok (host, none)
            else .err ("unexpected characters after IPv6 literal: `".toList ++ after ++ ['`'])
    | none =>
        match Str.rfind (· == ':') hp with
        | some c => do
            let host ← Str.sliceTo hp c
            let p ← Str.sliceFrom hp (c + 1)
            let port ← parsePort p
            pure (host, some port)
        | none => .ok (hp, none)

/-- The loop of `decode`, at byte `i`, with the bytes decoded so far. It indexes the
bytes as the source does; running out of `fuel` counts as a panic. -/
def decodeLoop (bytes : List UInt8) : (fuel i : ℕ) → List UInt8 → Outcome Str (List UInt8)
  | 0, _, _ => .panic
  | fuel + 1, i, out =>
      if i < bytes.length then do
        let b ← .expect bytes[i]?
        if b = 0x25 ∧ i + 2 < bytes.length then do
          let hi ← .expect bytes[i + 1]?
          let lo ← .expect bytes[i + 2]?
          match Str.hexDigit (Char.ofNat hi.toNat), Str.hexDigit (Char.ofNat lo.toNat) with
          | some h, some l => decodeLoop bytes fuel (i + 3) (out ++ [UInt8.ofNat (h * 16 + l)])
          | _, _ => decodeLoop bytes fuel (i + 1) (out ++ [b])
        else decodeLoop bytes fuel (i + 1) (out ++ [b])
      else .ok out

/-- Percent-decoding of userinfo; invalid escapes are passed through. -/
def decode (s : Str) : Outcome Str Str :=
  if s.contains '%' then do
    let out ← decodeLoop (Str.asBytes s) ((Str.asBytes s).length + 1) 0 []
    pure (Str.fromUtf8Lossy out)
  else .ok s

/-- Path and query of what follows the authority. -/
def splitRemainder (remainder : Str) : Outcome Str (Str × Str) :=
  match remainder.head? with
  | some '?' => do
      let query ← Str.sliceFrom remainder 1
      pure ([], query)
  | some '/' =>
      match Str.find (· == '?') remainder with
      | some q => do
          let path ← Str.slice remainder 1 q
          let query ← Str.sliceFrom remainder (q + 1)
          pure (path, query)
      | none => do
          let path ← Str.sliceFrom remainder 1
          pure (path, [])
  | _ => .ok ([], [])

/-- Userinfo and `host:port` of an authority, split at the last `@`. -/
def splitAuthority (authority : Str) : Outcome Str (Option Str × Str) :=
  match Str.rfind (· == '@') authority with
  | some i => do
      let userinfo ← Str.sliceTo authority i
      let hostport ← Str.sliceFrom authority (i + 1)
      pure (some userinfo, hostport)
  | none => .ok (none, authority)

/-- User and password, split at the first `:` and decoded. -/
def splitUserinfo : Option Str → Outcome Str (Option Str × Option Str)
  | none => .ok (none, none)
  | some ui =>
      match Str.find (· == ':') ui with
      | some c => do
          let u ← Str.sliceTo ui c
          let p ← Str.sliceFrom ui (c + 1)
          let user ← decode u
          let pass ← decode p
          pure (some user, some pass)
      | none => do
          let user ← decode ui
          pure (some user, none)

/-- Insert the pairs of a query string in order; a pair without `=` has an empty
value, and a later pair replaces an earlier one with the same key. -/
def insertPairs : List Str → Finmap (fun _ : Str => Str) →
    Outcome Str (Finmap (fun _ : Str => Str))
  | [], query => .ok query
  | pair :: pairs, query =>
      match Str.find (· == '=') pair with
      | some eq => do
          let key ← Str.sliceTo pair eq
          let value ← Str.sliceFrom pair (eq + 1)
          insertPairs pairs (query.insert key value)
      | none => insertPairs pairs (query.insert pair [])

def parseQuery (queryStr : Str) : Outcome Str (Finmap (fun _ : Str => Str)) :=
  insertPairs ((Str.split '&' queryStr).filter fun p => !p.isEmpty) ∅

/-- Everything behind `scheme://`. -/
def parseRest (s scheme rest : Str) : Outcome Str Node := do
  let authEnd := (Str.find (fun c => c == '/' || c == '?') rest).getD (String.utf8Len rest)
  let authority ← Str.sliceTo rest authEnd
  let remainder ← Str.sliceFrom rest authEnd
  let (path, queryStr) ← splitRemainder remainder
  let (userinfo, hostport) ← splitAuthority authority
  let (user, pass) ← splitUserinfo userinfo
  let (host, port) ← (parseHostPort hostport).mapErr fun e =>
    "node `".toList ++ s ++ "`: ".toList ++ e
  let query ← parseQuery queryStr
  pure ⟨scheme, user, pass, host, port, Str.trimMatches (· == '/') path, query⟩

/-- Parse a node string; the error is for the operator. -/
def parseNode (raw : Str) : Outcome Str Node :=
  let s := Str.trim raw
  if s.isEmpty then .err "empty node string".toList
  else do
    let schemeIdx ← .ofOption ("node `".toList ++ s ++
      "` is missing a scheme (expected e.g. tcp://, udp://, socks5://)".toList)
      (Str.findStr "://".toList s)
    let name ← Str.sliceTo s schemeIdx
    let scheme := Str.toAsciiLowercase name
    if scheme.isEmpty then .err ("node `".toList ++ s ++ "` has an empty scheme".toList)
    else do
      let rest ← Str.sliceFrom s (schemeIdx + 3)
      parseRest s scheme rest

end Gust
