import Mathlib.Data.Bool.AllAny
import Gust.Lib.Percent
import Gust.Netopt
import Gust.Node

/-!
# Node strings and their parts

The parser finds its delimiters one after another. Read the other way round: a string
that is put together as `scheme://userinfo@hostport` and a remainder, with each delimiter
at the place where the parser looks for it, is taken apart into those parts
(`parseNode_of_shape`). Userinfo is decoded as bytes, and the bytes are then read as UTF-8
(`decode_eq`).

`Node.render` writes a node down. For nodes whose parts leave room for the delimiters,
parsing gives the node back, in whatever order the query is written
(`parseNode_render`).
-/

namespace Gust

open Gust.Lib
open String (utf8Len)

/-! ## Percent-decoding -/

/-- The loop decodes what is left from its index on. -/
theorem decodeLoop_eq {bytes : List UInt8} {fuel i : ℕ} (out : List UInt8)
    (hi : i ≤ bytes.length) (hfuel : bytes.length - i < fuel) :
    decodeLoop bytes fuel i out = .ok (out ++ Str.percentDecode (bytes.drop i)) := by
  induction fuel generalizing i out with
  | zero => omega
  | succ fuel ih =>
      by_cases hlt : i < bytes.length
      · have hliteral : decodeLoop bytes fuel (i + 1) (out ++ [bytes[i]]) =
            .ok (out ++ bytes[i] :: Str.percentDecode (bytes.drop (i + 1))) := by
          rw [ih _ (by omega) (by omega), List.append_assoc, List.singleton_append]
        rw [decodeLoop, if_pos hlt, List.getElem?_eq_getElem hlt, Outcome.expect, Outcome.ok_bind,
          List.drop_eq_getElem_cons hlt]
        split
        · rename_i hescape
          obtain ⟨hpercent, hlo⟩ := hescape
          have hhi : i + 1 < bytes.length := by omega
          have hrest : bytes.drop (i + 1) = bytes[i + 1] :: bytes[i + 2] :: bytes.drop (i + 3) := by
            rw [List.drop_eq_getElem_cons hhi, List.drop_eq_getElem_cons hlo]
          rw [List.getElem?_eq_getElem hhi, List.getElem?_eq_getElem hlo, Outcome.expect,
            Outcome.expect, Outcome.ok_bind, Outcome.ok_bind, hrest, Str.percentDecode,
            if_pos hpercent, Str.hexByte, Str.hexByte]
          rw [hrest] at hliteral
          cases Str.hexDigit (Char.ofNat bytes[i + 1].toNat) with
          | none => exact hliteral
          | some h =>
              cases Str.hexDigit (Char.ofNat bytes[i + 2].toNat) with
              | none => exact hliteral
              | some l =>
                  simp only
                  rw [ih _ (by omega) (by omega), List.append_assoc, List.singleton_append]
        · rename_i hescape
          rw [hliteral]
          by_cases hpercent : bytes[i] = 0x25
          · have hend : ¬ i + 2 < bytes.length := fun hlo => hescape ⟨hpercent, hlo⟩
            have hshort : (bytes.drop (i + 1)).length < 2 := by
              rw [List.length_drop]
              omega
            rw [Str.percentDecode_cons_of_length_lt _ hshort]
          · rw [Str.percentDecode_cons_of_ne hpercent]
      · have hend : i = bytes.length := by omega
        rw [decodeLoop, if_neg hlt, hend, List.drop_length]
        simp [Str.percentDecode]

/-- **Userinfo is percent-decoded as bytes, which are then read as UTF-8.** Strings without
an escape are no exception. -/
theorem decode_eq (s : Str) :
    decode s = .ok (Str.fromUtf8Lossy (Str.percentDecode (Str.asBytes s))) := by
  rw [decode]
  by_cases hpercent : s.contains '%' = true
  · rw [if_pos hpercent, decodeLoop_eq [] (Nat.zero_le _) (by omega)]
    rfl
  · have hbyte : (0x25 : UInt8) ∉ Str.asBytes s := by
      intro hmem
      have hchar := Str.mem_of_mem_asBytes (by decide) hmem
      exact hpercent (List.contains_iff_mem.mpr hchar)
    rw [if_neg hpercent, Str.percentDecode_eq_self hbyte, Str.fromUtf8Lossy_asBytes]

/-! ## Taking a node string apart -/

/-- An authority: the userinfo in front, if there is any. -/
def authorityText : Option Str → Str → Str
  | none, hostport => hostport
  | some userinfo, hostport => userinfo ++ '@' :: hostport

/-- The string `s` is put together from its parts, with each delimiter at the place where
the parser looks for it. -/
structure Shape (s scheme : Str) (userinfo : Option Str) (hostport remainder : Str) : Prop where
  text : s = scheme ++ ("://".toList ++ (authorityText userinfo hostport ++ remainder))
  scheme_ne : scheme ≠ []
  scheme : ¬ "://".toList <:+: scheme
  authority : ∀ c ∈ authorityText userinfo hostport, c ≠ '/' ∧ c ≠ '?'
  hostport : '@' ∉ hostport
  remainder : ∀ c, remainder.head? = some c → c = '/' ∨ c = '?'

/-- The end of a scheme cannot be the beginning of the delimiter. -/
theorem findStr_scheme {scheme : Str} (h : ¬ "://".toList <:+: scheme) (rest : Str) :
    Str.findStr "://".toList (scheme ++ ("://".toList ++ rest)) = some (utf8Len scheme) := by
  have hlit : "://".toList = [':', '/', '/'] := rfl
  rw [hlit] at h ⊢
  refine Str.findStr_append ?_
  rintro a b rfl hb hpre
  match b, hb, hpre with
  | [c], _, hpre => simp at hpre
  | [c, d], _, hpre => simp at hpre
  | c :: d :: e :: b, _, hpre =>
      simp only [List.cons_append, List.cons_prefix_cons, List.nil_prefix, and_true] at hpre
      obtain ⟨rfl, rfl, rfl⟩ := hpre
      exact h ⟨a, b, by simp⟩

theorem splitAuthority_authorityText (userinfo : Option Str) {hostport : Str}
    (h : '@' ∉ hostport) :
    splitAuthority (authorityText userinfo hostport) = .ok (userinfo, hostport) := by
  have hat : ∀ c ∈ hostport, (c == '@') = false := by
    intro c hc
    rw [beq_eq_false_iff_ne]
    rintro rfl
    exact h hc
  cases userinfo with
  | none =>
      rw [authorityText, splitAuthority, Str.rfind_eq_none_iff.mpr hat]
  | some ui =>
      have hfind : Str.rfind (· == '@') (ui ++ '@' :: hostport) = some (utf8Len ui) :=
        Str.rfind_append_cons rfl hat
      have hsize : '@'.utf8Size = 1 := rfl
      simp only [authorityText, splitAuthority, hfind, Str.sliceTo_append, Outcome.ok_bind,
        Str.sliceFrom_append_cons ui hostport hsize, Outcome.pure_eq_ok]

/-- The parser takes a string apart into the parts it was put together from. -/
theorem parseNode_of_shape {raw scheme hostport remainder : Str} {userinfo : Option Str}
    (h : Shape (Str.trim raw) scheme userinfo hostport remainder) :
    parseNode raw = (do
      let (path, queryStr) ← splitRemainder remainder
      let (user, pass) ← splitUserinfo userinfo
      let (host, port) ← (parseHostPort hostport).mapErr fun e =>
        "node `".toList ++ Str.trim raw ++ "`: ".toList ++ e
      let query ← parseQuery queryStr
      pure ⟨Str.toAsciiLowercase scheme, user, pass, host, port,
        Str.trimMatches (· == '/') path, query⟩) := by
  have hs : (Str.trim raw).isEmpty = false := by
    rw [h.text]
    cases scheme with
    | nil => exact absurd rfl h.scheme_ne
    | cons c scheme => rfl
  have hlower : (Str.toAsciiLowercase scheme).isEmpty = false := by
    cases scheme with
    | nil => exact absurd rfl h.scheme_ne
    | cons c scheme => rfl
  have hfrom : Str.sliceFrom (Str.trim raw) (utf8Len scheme + 3) =
      (.ok (authorityText userinfo hostport ++ remainder) : Outcome Str Str) := by
    have hlen : utf8Len (scheme ++ "://".toList) = utf8Len scheme + 3 := by
      rw [String.utf8Len_append]
      rfl
    rw [h.text, ← hlen, ← List.append_assoc, Str.sliceFrom_append]
  have hto : Str.sliceTo (Str.trim raw) (utf8Len scheme) = (.ok scheme : Outcome Str Str) := by
    rw [h.text, Str.sliceTo_append]
  have hfind : Str.findStr "://".toList (Str.trim raw) = some (utf8Len scheme) := by
    rw [h.text]
    exact findStr_scheme h.scheme _
  -- the authority ends at the first slash or question mark, which starts the remainder
  have hend : (Str.find (fun c => c == '/' || c == '?')
      (authorityText userinfo hostport ++ remainder)).getD
        (utf8Len (authorityText userinfo hostport ++ remainder)) =
      utf8Len (authorityText userinfo hostport) := by
    have hauth : ∀ c ∈ authorityText userinfo hostport, (c == '/' || c == '?') = false := by
      intro c hc
      obtain ⟨hslash, hmark⟩ := h.authority c hc
      simp [hslash, hmark]
    cases hrem : remainder with
    | nil => rw [List.append_nil, Str.find_eq_none_iff.mpr hauth, Option.getD_none]
    | cons c rest =>
        have hc : (c == '/' || c == '?') = true := by
          have := h.remainder c (by rw [hrem]; rfl)
          simpa using this
        rw [Str.find_append_cons hc hauth, Option.getD_some]
  rw [parseNode]
  simp only [hs, Bool.false_eq_true, if_false, hfind, Outcome.ofOption, Outcome.ok_bind, hto, hlower,
    hfrom, parseRest, hend, Str.sliceTo_append, Str.sliceFrom_append,
    splitAuthority_authorityText userinfo h.hostport]

/-! ## Writing a node down -/

/-- A query pair in writing: with its `=`, or bare if its value is empty. -/
inductive PairText : (_ : Str) × Str → Str → Prop
  | withValue (key value : Str) : PairText ⟨key, value⟩ (key ++ '=' :: value)
  | bare (key : Str) : PairText ⟨key, []⟩ key

namespace Node

/-- User and password, percent-encoded. -/
def renderUserinfo (n : Node) : Option Str :=
  n.user.map fun user =>
    match n.pass with
    | none => Str.percentEncode user
    | some pass => Str.percentEncode user ++ ':' :: Str.percentEncode pass

def renderPort : Option UInt16 → Str
  | none => []
  | some p => ':' :: Str.ofNat p.toNat

/-- A host with a colon in it is bracketed. -/
def renderHostport (n : Node) : Str :=
  if ':' ∈ n.host then '[' :: (n.host ++ ']' :: renderPort n.port) else n.host ++ renderPort n.port

/-- The target and the query, from the texts of its pairs. -/
def renderRemainder (n : Node) (texts : List Str) : Str :=
  (if n.target = [] then [] else '/' :: n.target) ++
    (if texts = [] then [] else '?' :: ['&'].intercalate texts)

def render (n : Node) (texts : List Str) : Str :=
  n.scheme ++ ("://".toList ++ (authorityText n.renderUserinfo n.renderHostport ++
    n.renderRemainder texts))

/-- The parts of the node leave room for the delimiters. -/
structure Plain (n : Node) : Prop where
  scheme_ne : n.scheme ≠ []
  scheme_lower : ∀ c ∈ n.scheme, c.isUpper = false
  scheme_delim : ¬ "://".toList <:+: n.scheme
  scheme_head : ∀ c, n.scheme.head? = some c → Str.isWhitespace c = false
  host : ∀ c ∈ n.host, c ≠ '/' ∧ c ≠ '?' ∧ c ≠ '@' ∧ c ≠ '[' ∧ c ≠ ']'
  target : '?' ∉ n.target
  target_head : n.target.head? ≠ some '/'
  target_last : n.target.getLast? ≠ some '/'
  query : ∀ kv ∈ n.query.entries, '&' ∉ kv.1 ∧ '=' ∉ kv.1 ∧ '&' ∉ kv.2 ∧ ¬ (kv.1 = [] ∧ kv.2 = [])
  pass : n.user = none → n.pass = none

end Node

/-! ### The authority -/

theorem decode_percentEncode (s : Str) : decode (Str.percentEncode s) = .ok s := by
  rw [decode_eq, Str.percentDecode_percentEncode, Str.fromUtf8Lossy_asBytes]

/-- Encoded text is free of delimiters. -/
theorem ne_of_mem_percentEncode {s : Str} {c d : Char} (hc : c ∈ Str.percentEncode s)
    (hd : d ≠ '%' ∧ Str.isUnreserved d = false) : c ≠ d := by
  rintro rfl
  obtain rfl | hun := Str.unreserved_of_mem_percentEncode hc
  · exact hd.1 rfl
  · rw [hd.2] at hun
    cases hun

theorem splitUserinfo_renderUserinfo {n : Node} (hpass : n.user = none → n.pass = none) :
    splitUserinfo n.renderUserinfo = .ok (n.user, n.pass) := by
  have hcolon : ∀ u, ∀ c ∈ Str.percentEncode u, (c == ':') = false := by
    intro u c hc
    rw [beq_eq_false_iff_ne]
    exact ne_of_mem_percentEncode hc ⟨by decide, by decide⟩
  cases huser : n.user with
  | none => simp [Node.renderUserinfo, huser, splitUserinfo, hpass huser]
  | some user =>
      cases hp : n.pass with
      | none =>
          simp only [Node.renderUserinfo, huser, hp, Option.map_some, splitUserinfo,
            Str.find_eq_none_iff.mpr (hcolon user), decode_percentEncode, Outcome.ok_bind,
            Outcome.pure_eq_ok]
      | some pass =>
          have hfind : Str.find (· == ':') (Str.percentEncode user ++ ':' :: Str.percentEncode pass) =
              some (utf8Len (Str.percentEncode user)) := Str.find_append_cons rfl (hcolon user)
          have hsize : ':'.utf8Size = 1 := rfl
          simp only [Node.renderUserinfo, huser, hp, Option.map_some, splitUserinfo, hfind,
            Str.sliceTo_append, Str.sliceFrom_append_cons _ _ hsize, decode_percentEncode,
            Outcome.ok_bind, Outcome.pure_eq_ok]

/-- A host and a port are read as the later parsers cut them. -/
theorem parseHostPort_eq_ok {hp host : Str} {port : UInt16}
    (h : parseHostPort hp = .ok (host, some port)) :
    ∃ p, Cut hp host p ∧ Str.parseU16 p = some port := by
  unfold parseHostPort at h
  split at h
  · cases h
  cases hs : Str.stripPrefix '[' hp with
  | some stripped =>
      obtain rfl := Str.stripPrefix_eq_some_iff.mp hs
      simp only [hs, Outcome.bind_eq_ok_iff, Outcome.ofOption_eq_ok_iff] at h
      obtain ⟨close, hclose, h⟩ := h
      obtain ⟨pre, post, rfl, rfl, hpre⟩ := Str.find_delim_iff.mp hclose
      have hsize : ']'.utf8Size = 1 := rfl
      simp only [Str.sliceTo_append, Outcome.ok.injEq, exists_eq_left',
        Str.sliceFrom_append_cons _ _ hsize] at h
      split at h
      · rename_i p hp
        obtain rfl := Str.stripPrefix_eq_some_iff.mp hp
        simp only [parsePort, Outcome.bind_eq_ok_iff, Outcome.ofOption_eq_ok_iff,
          Outcome.pure_eq_ok, Outcome.ok.injEq, Prod.mk.injEq, Option.some.injEq] at h
        obtain ⟨_, hport, rfl, rfl⟩ := h
        exact ⟨p, .bracketed hpre, hport⟩
      · split at h
        · cases h
        · cases h
  | none =>
      simp only [hs] at h
      split at h
      · rename_i i hfind
        obtain ⟨pre, post, rfl, rfl, hpost⟩ := Str.rfind_delim_iff.mp hfind
        have hsize : ':'.utf8Size = 1 := rfl
        simp only [Str.sliceTo_append, Str.sliceFrom_append_cons _ _ hsize, Outcome.ok_bind,
          parsePort, Outcome.bind_eq_ok_iff, Outcome.ofOption_eq_ok_iff, Outcome.pure_eq_ok,
          Outcome.ok.injEq, Prod.mk.injEq, Option.some.injEq] at h
        obtain ⟨_, hport, rfl, rfl⟩ := h
        exact ⟨post, .plain (Str.stripPrefix_eq_none_iff.mp hs) hpost, hport⟩
      · cases h

/-- And a text that can be cut is read, also with an empty host. -/
theorem parseHostPort_of_cut {hp host p : Str} {port : UInt16} (hcut : Cut hp host p)
    (hport : Str.parseU16 p = some port) : parseHostPort hp = .ok (host, some port) := by
  have hok : parsePort p = .ok port := by
    rw [parsePort, hport]
    rfl
  cases hcut with
  | bracketed hhost =>
      have hfind : Str.find (· == ']') (host ++ ']' :: ':' :: p) = some (utf8Len host) :=
        Str.find_delim_iff.mpr ⟨host, ':' :: p, rfl, rfl, hhost⟩
      have hsize : ']'.utf8Size = 1 := rfl
      rw [parseHostPort, if_neg (by simp), Str.stripPrefix_eq_some_iff.mpr rfl]
      simp only [hfind, Outcome.ofOption, Outcome.ok_bind, Str.sliceTo_append,
        Str.sliceFrom_append_cons _ _ hsize, Str.stripPrefix, if_true, hok, Outcome.pure_eq_ok]
  | plain hhead hcolon =>
      have hfind : Str.rfind (· == ':') (host ++ ':' :: p) = some (utf8Len host) :=
        Str.rfind_delim_iff.mpr ⟨host, p, rfl, rfl, hcolon⟩
      have hsize : ':'.utf8Size = 1 := rfl
      rw [parseHostPort, if_neg (by simp), Str.stripPrefix_eq_none_iff.mpr hhead]
      simp only [hfind, Str.sliceTo_append, Str.sliceFrom_append_cons _ _ hsize, Outcome.ok_bind,
        hok, Outcome.pure_eq_ok]

/-- Without a bracket in front, a host and a printed port are cut where they were joined. -/
theorem cut_append_ofNat {host : Str} (h : host.head? ≠ some '[') (port : UInt16) :
    Cut (host ++ ':' :: Str.ofNat port.toNat) host (Str.ofNat port.toNat) := by
  refine .plain ?_ ?_
  · cases host with
    | nil => simp
    | cons c host => simpa using h
  · intro c hc
    have := Str.beq_of_mem_ofNat (d := ':') hc (by decide)
    simpa using this

theorem parseHostPort_renderHostport {n : Node}
    (hhost : ∀ c ∈ n.host, c ≠ '/' ∧ c ≠ '?' ∧ c ≠ '@' ∧ c ≠ '[' ∧ c ≠ ']') :
    parseHostPort n.renderHostport = .ok (n.host, n.port) := by
  have hclose : ∀ c ∈ n.host, c ≠ ']' := fun c hc => (hhost c hc).2.2.2.2
  have hopen : n.host.head? ≠ some '[' := by
    intro hhead
    exact (hhost '[' (List.mem_of_mem_head? hhead)).2.2.2.1 rfl
  rw [Node.renderHostport]
  cases n.port with
  | some p =>
      have hport := Str.parseU16_ofNat_toNat p
      by_cases hcolon : ':' ∈ n.host
      · rw [if_pos hcolon]
        exact parseHostPort_of_cut (.bracketed hclose) hport
      · rw [if_neg hcolon]
        exact parseHostPort_of_cut (cut_append_ofNat hopen p) hport
  | none =>
      by_cases hcolon : ':' ∈ n.host
      · have hfind : Str.find (· == ']') (n.host ++ [']']) = some (utf8Len n.host) :=
          Str.find_delim_iff.mpr ⟨n.host, [], rfl, rfl, hclose⟩
        have hsize : ']'.utf8Size = 1 := rfl
        rw [if_pos hcolon, Node.renderPort, parseHostPort, if_neg (by simp),
          Str.stripPrefix_eq_some_iff.mpr rfl]
        simp only [hfind, Outcome.ofOption, Outcome.ok_bind, Str.sliceTo_append,
          Str.sliceFrom_append_cons _ _ hsize, Str.stripPrefix, List.isEmpty_nil, if_true]
      · have hno : ∀ c ∈ n.host, (c == ':') = false := by
          intro c hc
          rw [beq_eq_false_iff_ne]
          rintro rfl
          exact hcolon hc
        rw [if_neg hcolon, Node.renderPort, List.append_nil, parseHostPort,
          Str.stripPrefix_eq_none_iff.mpr hopen, Str.rfind_eq_none_iff.mpr hno]
        by_cases hempty : n.host.isEmpty = true
        · rw [if_pos hempty, List.isEmpty_iff.mp hempty]
        · rw [if_neg hempty]

/-! ### The remainder -/

/-- `&s[1..]` behind a one-byte character. -/
theorem sliceFrom_one {c : Char} (hc : c.utf8Size = 1) (s : Str) :
    (Str.sliceFrom (c :: s) 1 : Outcome Str Str) = .ok s :=
  Str.sliceFrom_append_cons [] s hc

theorem splitRemainder_query (queryStr : Str) :
    splitRemainder ('?' :: queryStr) = .ok ([], queryStr) := by
  have hsize : '?'.utf8Size = 1 := rfl
  simp only [splitRemainder, List.head?_cons, sliceFrom_one hsize, Outcome.ok_bind,
    Outcome.pure_eq_ok]

theorem splitRemainder_path {path : Str} (h : ∀ c ∈ '/' :: path, (c == '?') = false) :
    splitRemainder ('/' :: path) = .ok (path, []) := by
  have hsize : '/'.utf8Size = 1 := rfl
  simp only [splitRemainder, List.head?_cons, Str.find_eq_none_iff.mpr h, sliceFrom_one hsize,
    Outcome.ok_bind, Outcome.pure_eq_ok]

theorem splitRemainder_path_query {path : Str} (h : ∀ c ∈ '/' :: path, (c == '?') = false)
    (queryStr : Str) :
    splitRemainder ('/' :: path ++ '?' :: queryStr) = .ok (path, queryStr) := by
  have hslash : '/'.utf8Size = 1 := rfl
  have hmark : '?'.utf8Size = 1 := rfl
  have hfind : Str.find (· == '?') ('/' :: path ++ '?' :: queryStr) =
      some (utf8Len ('/' :: path)) := Str.find_append_cons rfl h
  have hpath : Str.slice ('/' :: path ++ '?' :: queryStr) 1 (utf8Len ('/' :: path)) =
      (.ok path : Outcome Str Str) := by
    have hle : 1 ≤ utf8Len ('/' :: path) := by
      rw [String.utf8Len_cons, hslash]
      omega
    rw [Str.slice, if_pos hle, Str.sliceTo_append, Outcome.ok_bind, sliceFrom_one hslash]
  have hhead : ('/' :: path ++ '?' :: queryStr).head? = some '/' := rfl
  simp only [splitRemainder, hhead, hfind, hpath, Str.sliceFrom_append_cons _ _ hmark,
    Outcome.ok_bind, Outcome.pure_eq_ok]

theorem splitRemainder_renderRemainder {n : Node} (htarget : '?' ∉ n.target) (texts : List Str) :
    splitRemainder (n.renderRemainder texts) = .ok (n.target, ['&'].intercalate texts) := by
  have hno : ∀ c ∈ '/' :: n.target, (c == '?') = false := by
    intro c hc
    rw [beq_eq_false_iff_ne]
    rintro rfl
    rcases List.mem_cons.mp hc with h | h
    · exact absurd h (by decide)
    · exact htarget h
  rw [Node.renderRemainder]
  by_cases hempty : n.target = []
  · rw [if_pos hempty, hempty, List.nil_append]
    by_cases htexts : texts = []
    · rw [if_pos htexts, htexts]
      rfl
    · rw [if_neg htexts, splitRemainder_query]
  · rw [if_neg hempty]
    by_cases htexts : texts = []
    · rw [if_pos htexts, List.append_nil, splitRemainder_path hno, htexts]
      rfl
    · rw [if_neg htexts, splitRemainder_path_query hno]

/-- Inserting pairs with new keys adds exactly those pairs. -/
theorem entries_foldl_insert {pairs : List ((_ : Str) × Str)} {query : Finmap (fun _ : Str => Str)}
    (hnodup : pairs.NodupKeys) (hnew : ∀ kv ∈ pairs, kv.1 ∉ query) :
    (pairs.foldl (fun q kv => q.insert kv.1 kv.2) query).entries = query.entries + ↑pairs := by
  induction pairs generalizing query with
  | nil => simp
  | cons kv pairs ih =>
      rw [List.nodupKeys_cons] at hnodup
      have hkv := hnew kv List.mem_cons_self
      have hrest : ∀ kv' ∈ pairs, kv'.1 ∉ query.insert kv.1 kv.2 := by
        intro kv' hkv' hmem
        rw [Finmap.mem_insert] at hmem
        obtain heq | hmem := hmem
        · exact hnodup.1 (heq ▸ List.mem_keys_of_mem hkv')
        · exact hnew kv' (List.mem_cons_of_mem kv hkv') hmem
      rw [List.foldl_cons, ih hnodup.2 hrest, Finmap.entries_insert_of_notMem hkv]
      rw [← Multiset.cons_coe, Multiset.cons_add, Multiset.add_cons]

theorem insertPairs_texts {pairs : List ((_ : Str) × Str)} {texts : List Str}
    (htexts : List.Forall₂ PairText pairs texts) (hkeys : ∀ kv ∈ pairs, '=' ∉ kv.1)
    (query : Finmap (fun _ : Str => Str)) :
    insertPairs texts query = .ok (pairs.foldl (fun q kv => q.insert kv.1 kv.2) query) := by
  induction htexts generalizing query with
  | nil => rfl
  | @cons kv text pairs texts htext _ ih =>
      have hno : ∀ c ∈ kv.1, (c == '=') = false := by
        intro c hc
        rw [beq_eq_false_iff_ne]
        rintro rfl
        exact hkeys kv List.mem_cons_self hc
      have htail := ih (fun kv' hkv' => hkeys kv' (List.mem_cons_of_mem kv hkv'))
        (query.insert kv.1 kv.2)
      rw [List.foldl_cons, ← htail]
      cases htext with
      | withValue key value =>
          have hfind : Str.find (· == '=') (key ++ '=' :: value) = some (utf8Len key) :=
            Str.find_append_cons rfl hno
          have hsize : '='.utf8Size = 1 := rfl
          simp only [insertPairs, hfind, Str.sliceTo_append, Str.sliceFrom_append_cons _ _ hsize,
            Outcome.ok_bind]
      | bare key => simp only [insertPairs, Str.find_eq_none_iff.mpr hno]

theorem parseQuery_intercalate {query : Finmap (fun _ : Str => Str)}
    {pairs : List ((_ : Str) × Str)} {texts : List Str} (hpairs : query.entries = ↑pairs)
    (htexts : List.Forall₂ PairText pairs texts)
    (hplain : ∀ kv ∈ pairs, '&' ∉ kv.1 ∧ '=' ∉ kv.1 ∧ '&' ∉ kv.2 ∧ ¬ (kv.1 = [] ∧ kv.2 = [])) :
    parseQuery (['&'].intercalate texts) = .ok query := by
  have hnodup : pairs.NodupKeys := by
    have h := query.nodupKeys
    rwa [hpairs] at h
  have htext : ∀ text ∈ texts, '&' ∉ text ∧ text ≠ [] := by
    intro text ht
    obtain ⟨kv, hkv, htext⟩ := Outcome.exists_mem_of_forall₂ htexts ht
    obtain ⟨hkey, -, hvalue, hne⟩ := hplain kv hkv
    cases htext with
    | withValue key value => simp [hkey, hvalue]
    | bare key =>
        refine ⟨hkey, ?_⟩
        rintro rfl
        exact hne ⟨rfl, rfl⟩
  have hsplit : (Str.split '&' (['&'].intercalate texts)).filter (fun p => !p.isEmpty) = texts := by
    by_cases hnil : texts = []
    · subst hnil
      rfl
    · rw [Str.split_intercalate hnil fun t ht => (htext t ht).1, List.filter_eq_self]
      intro t ht
      simp [(htext t ht).2]
  rw [parseQuery, hsplit, insertPairs_texts htexts fun kv hkv => (hplain kv hkv).2.1]
  congr 1
  apply Finmap.ext
  rw [entries_foldl_insert hnodup (fun kv _ => Finmap.notMem_empty), hpairs]
  exact Multiset.zero_add _

/-! ### The whole string -/

theorem toAsciiLowercase_eq_self {s : Str} (h : ∀ c ∈ s, c.isUpper = false) :
    Str.toAsciiLowercase s = s := by
  have hmap : s.map Char.toLower = s.map id := by
    refine List.map_congr_left ?_
    intro c hc
    exact dif_neg (of_decide_eq_false (h c hc))
  rw [Str.toAsciiLowercase, hmap, List.map_id]

theorem mem_renderPort {port : Option UInt16} {c : Char} (hc : c ∈ Node.renderPort port) :
    c = ':' ∨ c.isDigit = true := by
  cases port with
  | none => simp [Node.renderPort] at hc
  | some p =>
      rw [Node.renderPort, List.mem_cons] at hc
      exact hc.imp_right Str.isDigit_of_mem_ofNat

/-- No delimiter of the authority occurs in a rendered host and port. -/
theorem ne_of_mem_renderHostport {n : Node} (h : n.Plain) {c : Char}
    (hc : c ∈ n.renderHostport) : c ≠ '/' ∧ c ≠ '?' ∧ c ≠ '@' := by
  have hcases : c = '[' ∨ c = ']' ∨ c ∈ n.host ∨ c ∈ Node.renderPort n.port := by
    rw [Node.renderHostport] at hc
    split at hc
    · simp only [List.mem_cons, List.mem_append] at hc
      tauto
    · rw [List.mem_append] at hc
      tauto
  obtain rfl | rfl | hhost | hc := hcases
  · decide
  · decide
  · exact ⟨(h.host c hhost).1, (h.host c hhost).2.1, (h.host c hhost).2.2.1⟩
  · obtain rfl | hdigit := mem_renderPort hc
    · decide
    · refine ⟨?_, ?_, ?_⟩ <;> rintro rfl <;> exact absurd hdigit (by decide)

/-- The encoding leaves none in the credentials either. -/
theorem ne_of_mem_renderUserinfo {n : Node} {ui : Str} (hui : n.renderUserinfo = some ui)
    {c : Char} (hc : c ∈ ui) : c ≠ '/' ∧ c ≠ '?' := by
  rw [Node.renderUserinfo, Option.map_eq_some_iff] at hui
  obtain ⟨user, -, rfl⟩ := hui
  have hcases : c = ':' ∨ ∃ u, c ∈ Str.percentEncode u := by
    split at hc
    · exact .inr ⟨user, hc⟩
    · simp only [List.mem_append, List.mem_cons] at hc
      obtain hc | rfl | hc := hc
      · exact .inr ⟨_, hc⟩
      · exact .inl rfl
      · exact .inr ⟨_, hc⟩
  obtain rfl | ⟨u, hc⟩ := hcases
  · decide
  · exact ⟨ne_of_mem_percentEncode hc ⟨by decide, by decide⟩,
      ne_of_mem_percentEncode hc ⟨by decide, by decide⟩⟩

theorem shape_render {n : Node} (h : n.Plain) (texts : List Str) :
    Shape (n.render texts) n.scheme n.renderUserinfo n.renderHostport
      (n.renderRemainder texts) := by
  have hhostport : ∀ c ∈ n.renderHostport, c ≠ '/' ∧ c ≠ '?' :=
    fun c hc => ⟨(ne_of_mem_renderHostport h hc).1, (ne_of_mem_renderHostport h hc).2.1⟩
  refine ⟨rfl, h.scheme_ne, h.scheme_delim, ?_, ?_, ?_⟩
  · intro c hc
    cases hui : n.renderUserinfo with
    | none =>
        rw [hui, authorityText] at hc
        exact hhostport c hc
    | some ui =>
        rw [hui, authorityText, List.mem_append, List.mem_cons] at hc
        obtain hc | rfl | hc := hc
        · exact ne_of_mem_renderUserinfo hui hc
        · decide
        · exact hhostport c hc
  · intro hat
    exact (ne_of_mem_renderHostport h hat).2.2 rfl
  · intro c hc
    rw [Node.renderRemainder] at hc
    split at hc
    · split at hc
      · simp at hc
      · exact .inr (Option.some.inj hc).symm
    · exact .inl (Option.some.inj hc).symm

/-- **Node strings round-trip.** A node whose parts leave room for the delimiters is parsed
back from what it is written as, whatever its user and password are, and in every order
and spelling of its query pairs. -/
theorem parseNode_render {n : Node} {pairs : List ((_ : Str) × Str)} {texts : List Str}
    (h : n.Plain) (hpairs : n.query.entries = ↑pairs) (htexts : List.Forall₂ PairText pairs texts)
    (hlast : ∀ c, (n.render texts).getLast? = some c → Str.isWhitespace c = false) :
    parseNode (n.render texts) = .ok n := by
  have htrim : Str.trim (n.render texts) = n.render texts := by
    refine Str.trimMatches_eq_self ?_ hlast
    intro c hc
    refine h.scheme_head c ?_
    rwa [Node.render, List.head?_append_of_ne_nil _ h.scheme_ne] at hc
  have hshape := shape_render h texts
  rw [← htrim] at hshape
  have hquery : parseQuery (['&'].intercalate texts) = .ok n.query := by
    refine parseQuery_intercalate hpairs htexts ?_
    intro kv hkv
    exact h.query kv (by rwa [hpairs])
  have htarget : Str.trimMatches (· == '/') n.target = n.target := by
    refine Str.trimMatches_eq_self ?_ ?_
    · intro c hc
      rw [beq_eq_false_iff_ne]
      rintro rfl
      exact h.target_head hc
    · intro c hc
      rw [beq_eq_false_iff_ne]
      rintro rfl
      exact h.target_last hc
  rw [parseNode_of_shape hshape]
  simp only [splitRemainder_renderRemainder h.target, splitUserinfo_renderUserinfo h.pass,
    parseHostPort_renderHostport h.host, hquery, Outcome.mapErr, Outcome.ok_bind, htarget,
    toAsciiLowercase_eq_self h.scheme_lower, Outcome.pure_eq_ok]

/-- A password with delimiters and a two-byte character, an IPv6 host, and a query with a
bare key. -/
theorem parseNode_render_socks5 :
    parseNode "socks5://u%40:%C3%A9%3F@[::1]:1080/x?q=1=&k".toList =
      .ok ⟨"socks5".toList, some "u@".toList, some "é?".toList, "::1".toList, some 1080, ['x'],
        ((∅ : Finmap (fun _ : Str => Str)).insert ['k'] []).insert ['q'] "1=".toList⟩ := by
  refine @parseNode_render ⟨"socks5".toList, some "u@".toList, some "é?".toList, "::1".toList,
    some 1080, ['x'], ((∅ : Finmap (fun _ : Str => Str)).insert ['k'] []).insert ['q'] "1=".toList⟩
    [⟨['q'], "1=".toList⟩, ⟨['k'], []⟩] ["q=1=".toList, "k".toList] ?_ rfl
    (.cons (.withValue _ _) (.cons (.bare _) .nil)) ?_
  · refine ⟨by decide, List.all_iff_forall_prop.mp (by decide), by decide, ?_,
      List.all_iff_forall_prop.mp (by decide), by decide, by decide, by decide, ?_, ?_⟩
    · rintro c ⟨⟩
      decide
    · have hpairs : ∀ kv ∈ [(⟨['q'], "1=".toList⟩ : (_ : Str) × Str), ⟨['k'], []⟩],
          '&' ∉ kv.1 ∧ '=' ∉ kv.1 ∧ '&' ∉ kv.2 ∧ ¬ (kv.1 = [] ∧ kv.2 = []) := by
        decide
      exact hpairs
    · rintro ⟨⟩
  · rintro c ⟨⟩
    decide

end Gust
