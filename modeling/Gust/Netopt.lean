import Gust.Lib.IpAddr
import Gust.Lib.Stream

/-!
# Dial addresses

`splitHostPort` is applied to the hop addresses and the targets of an accepted
configuration, long after they were validated. It drops the brackets of an IPv6 host
and otherwise cuts at the last colon. `dialTcp` is applied to the first of them: it asks
the resolver unless the text is a socket address already.
-/

namespace Gust

open Gust.Lib

/-- How sockets are tuned; `none` keeps the kernel's own buffer sizes. -/
structure SockOpts where
  nodelay : Bool
  rcvbuf : Option UInt64
  sndbuf : Option UInt64
  deriving DecidableEq, Repr

def badHostPort (s : Str) : IoError := ⟨.invalidInput, "invalid host:port `".toList ++ s ++ ['`']⟩

/-- Host and port text of a `host:port`, before either is looked at. The errors are
the caller's: no closing bracket, no `:port` behind it, no colon at all. -/
def cutHostPort {ε : Type} (unterminated afterBracket missing : ε) (s : Str) :
    Outcome ε (Str × Str) :=
  match Str.stripPrefix '[' s with
  | some rest => do
      let close ← .ofOption unterminated (Str.find (· == ']') rest)
      let host ← Str.sliceTo rest close
      let after ← Str.sliceFrom rest (close + 1)
      let port ← .ofOption afterBracket (Str.stripPrefix ':' after)
      pure (host, port)
  | none => do
      let c ← .ofOption missing (Str.rfind (· == ':') s)
      let host ← Str.sliceTo s c
      let port ← Str.sliceFrom s (c + 1)
      pure (host, port)

/-- Split `host:port`, for the address field of a request. -/
def splitHostPort (s : Str) : Outcome IoError (Str × UInt16) := do
  let (host, port) ← cutHostPort (badHostPort s) (badHostPort s) (badHostPort s) s
  let port ← .ofOption (badHostPort s) (Str.parseU16 port)
  if host.isEmpty then .err (badHostPort s) else pure (host, port)

/-- How a text is cut: at the brackets if it starts with one, else at its last colon. -/
inductive Cut : Str → Str → Str → Prop
  | bracketed {host port : Str} (hhost : ∀ c ∈ host, c ≠ ']') :
      Cut ('[' :: (host ++ ']' :: ':' :: port)) host port
  | plain {host port : Str} (hhead : (host ++ ':' :: port).head? ≠ some '[')
      (hport : ∀ c ∈ port, c ≠ ':') : Cut (host ++ ':' :: port) host port

theorem cutHostPort_eq_ok_iff {ε : Type} {e₁ e₂ e₃ : ε} {s host port : Str} :
    cutHostPort e₁ e₂ e₃ s = .ok (host, port) ↔ Cut s host port := by
  constructor
  · intro h
    simp only [cutHostPort] at h
    cases hs : Str.stripPrefix '[' s with
    | some rest =>
        obtain rfl := Str.stripPrefix_eq_some_iff.mp hs
        simp only [hs, Outcome.bind_eq_ok_iff, Outcome.ofOption_eq_ok_iff] at h
        obtain ⟨close, hclose, h⟩ := h
        obtain ⟨pre, post, rfl, rfl, hpre⟩ := Str.find_delim_iff.mp hclose
        simp only [Str.sliceTo_append, Outcome.ok.injEq, exists_eq_left',
          Str.sliceFrom_append_cons _ _ (show (']' : Char).utf8Size = 1 by decide)] at h
        obtain ⟨p, hp, h⟩ := h
        obtain rfl := Str.stripPrefix_eq_some_iff.mp hp
        simp only [Outcome.pure_eq_ok, Outcome.ok.injEq, Prod.mk.injEq] at h
        obtain ⟨rfl, rfl⟩ := h
        exact .bracketed hpre
    | none =>
        simp only [hs, Outcome.bind_eq_ok_iff, Outcome.ofOption_eq_ok_iff] at h
        obtain ⟨c, hcolon, h⟩ := h
        obtain ⟨pre, post, rfl, rfl, hpost⟩ := Str.rfind_delim_iff.mp hcolon
        simp only [Str.sliceTo_append, Outcome.ok.injEq, exists_eq_left',
          Str.sliceFrom_append_cons _ _ (show (':' : Char).utf8Size = 1 by decide),
          Outcome.pure_eq_ok, Prod.mk.injEq] at h
        obtain ⟨rfl, rfl⟩ := h
        exact .plain (Str.stripPrefix_eq_none_iff.mp hs) hpost
  · intro h
    cases h with
    | bracketed hhost =>
        have hfind : Str.find (· == ']') (host ++ ']' :: ':' :: port) =
            some (String.utf8Len host) :=
          Str.find_delim_iff.mpr ⟨host, ':' :: port, rfl, rfl, hhost⟩
        simp [cutHostPort, Str.stripPrefix, hfind, Outcome.ofOption,
          Str.sliceFrom_append_cons _ _ (show (']' : Char).utf8Size = 1 by decide)]
    | plain hhead hport =>
        have hrfind : Str.rfind (· == ':') (host ++ ':' :: port) = some (String.utf8Len host) :=
          Str.rfind_delim_iff.mpr ⟨host, port, rfl, rfl, hport⟩
        simp [cutHostPort, Str.stripPrefix_eq_none_iff.mpr hhead, hrfind, Outcome.ofOption,
          Str.sliceFrom_append_cons _ _ (show (':' : Char).utf8Size = 1 by decide)]

/-- A text splits when it is cut into a non-empty host and a port that parses. -/
theorem splitHostPort_eq_ok_iff {s host : Str} {port : UInt16} :
    splitHostPort s = .ok (host, port) ↔
      host ≠ [] ∧ ∃ p, Cut s host p ∧ Str.parseU16 p = some port := by
  simp only [splitHostPort, Outcome.bind_eq_ok_iff, Prod.exists, cutHostPort_eq_ok_iff,
    Outcome.ofOption_eq_ok_iff]
  constructor
  · rintro ⟨h, p, hcut, q, hq, hok⟩
    by_cases hh : h = []
    · simp [hh] at hok
    · simp [hh] at hok
      obtain ⟨rfl, rfl⟩ := hok
      exact ⟨hh, p, hcut, hq⟩
  · rintro ⟨hne, p, hcut, hp⟩
    exact ⟨host, p, hcut, port, hp, by simp [hne]⟩

/-! ## Dialing -/

/-- Try the resolved addresses in order; the last error is reported. -/
def dialEach {σ : Type} (dialOne : SocketAddr → Outcome IoError σ) (addr : Str) :
    Option IoError → List SocketAddr → Outcome IoError σ
  | lastErr, [] =>
      .err (lastErr.getD ⟨.other, "could not resolve `".toList ++ addr ++ ['`']⟩)
  | _, sa :: sas =>
      match dialOne sa with
      | .ok stream => .ok stream
      | .err e => dialEach dialOne addr (some e) sas
      | .panic => .panic

/-- Connect to an address; one that is a literal is not looked up. -/
def dialTcp {σ : Type} (lookupHost : Str → Outcome IoError (List SocketAddr))
    (dialOne : SocketAddr → Outcome IoError σ) (addr : Str) : Outcome IoError σ :=
  match SocketAddr.parse addr with
  | some sa => dialOne sa
  | none => do
      let sas ← lookupHost addr
      dialEach dialOne addr none sas

end Gust
