import Mathlib.Tactic.IntervalCases
import Gust.Lib.Text

/-!
# IP addresses: their text forms and their octets

The parser and the printer of the standard library, over `Str`. The parser reads
four decimal octets without leading zeros, or eight hexadecimal groups of at most
four digits of which one run may be abbreviated by `::` and of which the last two
may be written as an IPv4 address. The printer abbreviates the longest run of at
least two zero groups and writes an IPv4-mapped address with its dotted quad.

Nothing that uses addresses unfolds either of them. What proofs need is that the
octets have their fixed lengths and that printed addresses consist of hexadecimal
digits, dots and colons (`isAddrChar_of_mem_display`).
-/

namespace Gust.Lib

structure Ipv4Addr where
  a : UInt8
  b : UInt8
  c : UInt8
  d : UInt8
  deriving DecidableEq, Repr

/-- Eight groups of sixteen bits. -/
structure Ipv6Addr where
  segments : List UInt16
  length_segments : segments.length = 8
  deriving DecidableEq, Repr

inductive IpAddr
  | v4 (ip : Ipv4Addr)
  | v6 (ip : Ipv6Addr)
  deriving DecidableEq, Repr

def Ipv4Addr.octets (ip : Ipv4Addr) : List UInt8 := [ip.a, ip.b, ip.c, ip.d]

/-- The two bytes of a word, most significant first. -/
def toBeBytes (n : UInt16) : List UInt8 := [(n >>> 8).toUInt8, n.toUInt8]

def Ipv6Addr.octets (ip : Ipv6Addr) : List UInt8 := ip.segments.flatMap toBeBytes

@[simp] theorem Ipv4Addr.length_octets (ip : Ipv4Addr) : ip.octets.length = 4 := rfl

@[simp] theorem Ipv6Addr.length_octets (ip : Ipv6Addr) : ip.octets.length = 16 := by
  simp [octets, List.length_flatMap, toBeBytes, ip.length_segments]

namespace IpAddr

def isIpv4 : IpAddr → Bool
  | v4 _ => true
  | v6 _ => false

def isIpv6 (ip : IpAddr) : Bool := !ip.isIpv4

/-- `0.0.0.0`. -/
def unspecified4 : IpAddr := v4 ⟨0, 0, 0, 0⟩

/-- `::`. -/
def unspecified6 : IpAddr := v6 ⟨[0, 0, 0, 0, 0, 0, 0, 0], rfl⟩

/-- The wildcard address of its family. -/
def isUnspecified (ip : IpAddr) : Bool := ip == unspecified4 || ip == unspecified6

/-- The IPv4 address in an IPv4-mapped IPv6 address. -/
def toIpv4Mapped : IpAddr → Option Ipv4Addr
  | v4 _ => none
  | v6 ip =>
      match ip.segments with
      | [0, 0, 0, 0, 0, 0xFFFF, g, h] =>
          some ⟨(g >>> 8).toUInt8, g.toUInt8, (h >>> 8).toUInt8, h.toUInt8⟩
      | _ => none

/-! ## Parsing -/

/-- A parser returns its value and the characters it has left. -/
abbrev Parser (α : Type) := Str → Option (α × Str)

/-- The digits at the front of the text, at most `max`; one more is an error. -/
def readDigits (digit : Char → Option ℕ) : ℕ → Str → Option (List ℕ × Str)
  | _, [] => some ([], [])
  | max, c :: s =>
      match digit c with
      | none => some ([], c :: s)
      | some v =>
          match max with
          | 0 => none
          | max + 1 => (readDigits digit max s).map fun r => (v :: r.1, r.2)

/-- Between one and `maxDigits` digits in the given radix, with a value below
`bound`; without `zeroPrefix` a number of several digits may not start with `0`. -/
def readNumber (radix maxDigits bound : ℕ) (digit : Char → Option ℕ) (zeroPrefix : Bool) :
    Parser ℕ := fun s =>
  match readDigits digit maxDigits s with
  | none => none
  | some (ds, rest) =>
      let n := ds.foldl (fun acc v => acc * radix + v) 0
      if ds.isEmpty || bound ≤ n then none
      else if !zeroPrefix && ds.head? == some 0 && 1 < ds.length then none
      else some (n, rest)

def decDigit (c : Char) : Option ℕ := if c.isDigit then some (c.toNat - '0'.toNat) else none

/-- A value behind a separator, which the first value of a sequence does not have. -/
def readSeparator {α : Type} (sep : Char) (index : ℕ) (p : Parser α) : Parser α := fun s =>
  if index = 0 then p s
  else (Str.stripPrefix sep s).bind p

def readOctet (index : ℕ) : Parser ℕ := readSeparator '.' index (readNumber 10 3 256 decDigit false)

def readIpv4Addr : Parser Ipv4Addr := fun s => do
  let (a, s) ← readOctet 0 s
  let (b, s) ← readOctet 1 s
  let (c, s) ← readOctet 2 s
  let (d, s) ← readOctet 3 s
  pure (⟨.ofNat a, .ofNat b, .ofNat c, .ofNat d⟩, s)

/-- Up to `left` groups, of which `index` stand before; the flag tells whether the
last two were read as an IPv4 address. -/
def readGroups : (left index : ℕ) → Str → List UInt16 × Bool × Str
  | 0, _, s => ([], false, s)
  | left + 1, index, s =>
      let group :=
        match readSeparator ':' index (readNumber 16 4 65536 Str.hexDigit true) s with
        | none => ([], false, s)
        | some (g, rest) =>
            let r := readGroups left (index + 1) rest
            (.ofNat g :: r.1, r.2)
      if 0 < left then
        match readSeparator ':' index readIpv4Addr s with
        | some (ip, rest) =>
            ([ip.a.toUInt16 <<< 8 ||| ip.b.toUInt16, ip.c.toUInt16 <<< 8 ||| ip.d.toUInt16],
              true, rest)
        | none => group
      else group

/-- Eight groups, if there are that many. -/
def ofSegments (segments : List UInt16) : Option Ipv6Addr :=
  if h : segments.length = 8 then some ⟨segments, h⟩ else none

def readIpv6Addr : Parser Ipv6Addr := fun s =>
  let (head, headIpv4, s) := readGroups 8 0 s
  if head.length = 8 then (ofSegments head).map (·, s)
  else if headIpv4 then none
  else do
    let s ← Str.stripPrefix ':' s
    let s ← Str.stripPrefix ':' s
    let (tail, _, s) := readGroups (8 - (head.length + 1)) 0 s
    let zeros := List.replicate (8 - head.length - tail.length) 0
    (ofSegments (head ++ zeros ++ tail)).map (·, s)

/-- A parser that has to use up the whole text. -/
def parseWith {α : Type} (p : Parser α) (s : Str) : Option α :=
  match p s with
  | some (a, []) => some a
  | _ => none

/-- A dotted quad has at most fifteen characters. -/
def parseIpv4 (s : Str) : Option Ipv4Addr := if 15 < s.length then none else parseWith readIpv4Addr s

def parseIpv6 (s : Str) : Option Ipv6Addr := parseWith readIpv6Addr s

/-- `str::parse::<IpAddr>`. -/
def parse (s : Str) : Option IpAddr :=
  match parseIpv4 s with
  | some ip => some (v4 ip)
  | none => (parseIpv6 s).map v6

/-! ## Printing -/

/-- The pieces joined by a separator. -/
def join (sep : Char) : List Str → Str
  | [] => []
  | [s] => s
  | s :: ss => s ++ sep :: join sep ss

def displayIpv4 (ip : Ipv4Addr) : Str := join '.' (ip.octets.map fun o => Str.ofNat o.toNat)

def displayGroups (gs : List UInt16) : Str := join ':' (gs.map fun g => Nat.toDigits 16 g.toNat)

/-- Start and length of the longest run of zero groups, the first one among equals.
`start` and `len` describe the run the scan is in, `best` the best one so far. -/
def longestZeros : List UInt16 → (index start len : ℕ) → (best : ℕ × ℕ) → ℕ × ℕ
  | [], _, _, _, best => best
  | g :: gs, index, start, len, best =>
      if g = 0 then
        let start := if len = 0 then index else start
        let best := if best.2 < len + 1 then (start, len + 1) else best
        longestZeros gs (index + 1) start (len + 1) best
      else longestZeros gs (index + 1) 0 0 best

def displayIpv6 (ip : Ipv6Addr) : Str :=
  match ip.segments with
  | [0, 0, 0, 0, 0, 0xFFFF, g, h] =>
      "::ffff:".toList ++ displayIpv4 ⟨(g >>> 8).toUInt8, g.toUInt8, (h >>> 8).toUInt8, h.toUInt8⟩
  | segments =>
      let (start, len) := longestZeros segments 0 0 0 (0, 0)
      if 1 < len then
        displayGroups (segments.take start) ++ "::".toList ++ displayGroups (segments.drop (start + len))
      else displayGroups segments

/-- `impl Display for IpAddr`. -/
def display : IpAddr → Str
  | v4 ip => displayIpv4 ip
  | v6 ip => displayIpv6 ip

/-- The characters that occur in a printed address. -/
def isAddrChar (c : Char) : Bool := c.isDigit || ('a' ≤ c && c ≤ 'f') || c == '.' || c == ':'

theorem isAddrChar_of_mem_join {sep c : Char} (hsep : isAddrChar sep = true) {ss : List Str}
    (hss : ∀ s ∈ ss, ∀ d ∈ s, isAddrChar d = true) (h : c ∈ join sep ss) :
    isAddrChar c = true := by
  induction ss with
  | nil => simp [join] at h
  | cons s ss ih =>
      have hs : ∀ d ∈ s, isAddrChar d = true := hss s List.mem_cons_self
      cases ss with
      | nil => exact hs c h
      | cons t ts =>
          simp only [join, List.mem_append, List.mem_cons] at h
          rcases h with h | rfl | h
          · exact hs c h
          · exact hsep
          · exact ih (fun u hu => hss u (List.mem_cons_of_mem _ hu)) h

theorem isAddrChar_of_mem_displayIpv4 {ip : Ipv4Addr} {c : Char} (h : c ∈ displayIpv4 ip) :
    isAddrChar c = true := by
  refine isAddrChar_of_mem_join (by decide) ?_ h
  intro s hs d hd
  obtain ⟨o, -, rfl⟩ := List.mem_map.mp hs
  simp [isAddrChar, Str.isDigit_of_mem_ofNat hd]

theorem isAddrChar_digitChar {n : ℕ} (h : n < 16) : isAddrChar n.digitChar = true := by
  interval_cases n <;> decide

theorem isAddrChar_of_mem_toDigits {n : ℕ} {c : Char} (h : c ∈ Nat.toDigits 16 n) :
    isAddrChar c = true := by
  induction n using Nat.strong_induction_on with
  | _ n ih =>
      by_cases hn : n < 16
      · rw [Nat.toDigits_of_lt_base hn, List.mem_singleton] at h
        exact h ▸ isAddrChar_digitChar hn
      · rw [Nat.toDigits_of_base_le (by decide) (by omega), List.mem_append] at h
        rcases h with h | h
        · exact ih (n / 16) (by omega) h
        · rw [List.mem_singleton] at h
          exact h ▸ isAddrChar_digitChar (Nat.mod_lt n (by decide))

theorem isAddrChar_of_mem_displayGroups {gs : List UInt16} {c : Char}
    (h : c ∈ displayGroups gs) : isAddrChar c = true := by
  refine isAddrChar_of_mem_join (by decide) ?_ h
  intro s hs d hd
  obtain ⟨g, -, rfl⟩ := List.mem_map.mp hs
  exact isAddrChar_of_mem_toDigits hd

theorem isAddrChar_of_mem_displayIpv6 {ip : Ipv6Addr} {c : Char} (h : c ∈ displayIpv6 ip) :
    isAddrChar c = true := by
  unfold displayIpv6 at h
  split at h
  · have hlit : "::ffff:".toList.all isAddrChar = true := by decide
    rcases List.mem_append.mp h with h | h
    · exact List.all_eq_true.mp hlit c h
    · exact isAddrChar_of_mem_displayIpv4 h
  · have hlit : "::".toList.all isAddrChar = true := by decide
    simp only at h
    split at h
    · rcases List.mem_append.mp h with h | h
      · rcases List.mem_append.mp h with h | h
        · exact isAddrChar_of_mem_displayGroups h
        · exact List.all_eq_true.mp hlit c h
      · exact isAddrChar_of_mem_displayGroups h
    · exact isAddrChar_of_mem_displayGroups h

/-- A printed address contains no quote, no blank and no line break. -/
theorem isAddrChar_of_mem_display {ip : IpAddr} {c : Char} (h : c ∈ ip.display) :
    isAddrChar c = true := by
  cases ip with
  | v4 ip => exact isAddrChar_of_mem_displayIpv4 h
  | v6 ip => exact isAddrChar_of_mem_displayIpv6 h

end IpAddr

/-- An address with a port. The scope is that of an IPv6 address, else `0`. -/
structure SocketAddr where
  ip : IpAddr
  port : UInt16
  scope : UInt32 := 0
  deriving DecidableEq, Repr

namespace SocketAddr

open IpAddr

/-- A colon and a port, in as many digits as there are. -/
def readPort : Parser ℕ := fun s => do
  let s ← Str.stripPrefix ':' s
  readNumber 10 s.length 65536 decDigit true s

/-- A percent sign and a number; nothing stands for `0`. -/
def readScope : Parser ℕ := fun s =>
  match Str.stripPrefix '%' s with
  | some s => readNumber 10 s.length 4294967296 decDigit true s
  | none => some (0, s)

def readV4 : Parser SocketAddr := fun s => do
  let (ip, s) ← readIpv4Addr s
  let (port, s) ← readPort s
  pure (⟨.v4 ip, .ofNat port, 0⟩, s)

def readV6 : Parser SocketAddr := fun s => do
  let s ← Str.stripPrefix '[' s
  let (ip, s) ← readIpv6Addr s
  let (scope, s) ← readScope s
  let s ← Str.stripPrefix ']' s
  let (port, s) ← readPort s
  pure (⟨.v6 ip, .ofNat port, .ofNat scope⟩, s)

/-- `str::parse::<SocketAddr>`. -/
def parse (s : Str) : Option SocketAddr :=
  match parseWith readV4 s with
  | some sa => some sa
  | none => parseWith readV6 s

end SocketAddr
end Gust.Lib
