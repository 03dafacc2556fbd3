import Mathlib.Data.List.Induction
import Gust.Lib.IpAddr

/-!
# Reading printed addresses back

The parser of addresses undoes the printer: `parseIpv4_displayIpv4` and
`parseIpv6_displayIpv6`, so printing is injective in each family. For a dotted quad the
characters behind it do not matter as long as the first of them is no digit, which is what
makes `a.b.c.d:port` a socket address (`parse_ipv4_port`). A dotted quad is written in one
way only (`eq_displayIpv4_of_parseIpv4`).

For IPv6 the printer has three forms. The groups are read one by one, each attempt to read
a dotted quad in their place fails at the colon, and the abbreviated run is filled up with
as many zeros as were dropped (`take_append_zeros_append_drop`).
-/

namespace Gust.Lib.IpAddr

/-! ## Numbers -/

section Numbers

variable {digit : Char → Option ℕ} {radix : ℕ}

/-- The text behind a number does not continue it. -/
def Stops (digit : Char → Option ℕ) (rest : Str) : Prop := ∀ c, rest.head? = some c → digit c = none

theorem readDigits_append {s rest : Str} {ds : List ℕ} {max : ℕ}
    (hs : List.Forall₂ (fun c d => digit c = some d) s ds) (hmax : s.length ≤ max)
    (hrest : Stops digit rest) : readDigits digit max (s ++ rest) = some (ds, rest) := by
  induction hs generalizing max with
  | nil =>
      cases rest with
      | nil => simp [readDigits]
      | cons c rest => simp [readDigits, hrest c rfl]
  | @cons c d s ds hc _ ih =>
      cases max with
      | zero => simp at hmax
      | succ max =>
          have htail : readDigits digit max (s ++ rest) = some (ds, rest) :=
            ih (Nat.le_of_succ_le_succ hmax)
          simp [readDigits, hc, htail]

/-- The digits of a printed number, as they are read. -/
theorem exists_digits (hradix : 1 < radix) (hdigit : ∀ d < radix, digit d.digitChar = some d)
    (n : ℕ) : ∃ ds : List ℕ, List.Forall₂ (fun c d => digit c = some d) (Nat.toDigits radix n) ds ∧
      ds ≠ [] ∧ ds.foldl (fun acc v => acc * radix + v) 0 = n ∧ (ds.head? = some 0 → ds = [0]) := by
  induction n using Nat.strong_induction_on with
  | _ n ih =>
      by_cases hn : n < radix
      · refine ⟨[n], ?_, List.cons_ne_nil n [], by simp, ?_⟩
        · rw [Nat.toDigits_of_lt_base hn]
          exact .cons (hdigit n hn) .nil
        · intro h
          simpa using h
      · have hpos : 0 < n / radix := Nat.div_pos (Nat.le_of_not_lt hn) (by omega)
        obtain ⟨ds, hds, hne, hval, hzero⟩ :=
          ih (n / radix) (Nat.div_lt_self (by omega) hradix)
        refine ⟨ds ++ [n % radix], ?_, by simp, ?_, ?_⟩
        · rw [Nat.toDigits_of_base_le hradix (Nat.le_of_not_lt hn)]
          exact List.rel_append hds (.cons (hdigit _ (Nat.mod_lt n (by omega))) .nil)
        · rw [List.foldl_append, hval]
          exact Nat.div_add_mod' n radix
        · -- the quotient is not zero, so its first digit is not either
          intro hhead
          rw [List.head?_append_of_ne_nil _ hne] at hhead
          rw [hzero hhead] at hval
          simp at hval
          omega

theorem readNumber_toDigits (hradix : 1 < radix) (hdigit : ∀ d < radix, digit d.digitChar = some d)
    {n k bound : ℕ} (zeroPrefix : Bool) (hlen : (Nat.toDigits radix n).length ≤ k)
    (hbound : n < bound) {rest : Str} (hrest : Stops digit rest) :
    readNumber radix k bound digit zeroPrefix (Nat.toDigits radix n ++ rest) = some (n, rest) := by
  obtain ⟨ds, hds, hne, hval, hzero⟩ := exists_digits hradix hdigit n
  have hempty : (ds.isEmpty || decide (bound ≤ n)) = false := by
    simp [hne, hbound]
  have hlead : (!zeroPrefix && ds.head? == some 0 && decide (1 < ds.length)) = false := by
    cases hhead : (ds.head? == some 0) with
    | false => simp
    | true =>
        rw [hzero (by simpa using hhead)]
        simp
  simp only [readNumber, readDigits_append hds hlen hrest, hval, hempty, hlead,
    Bool.false_eq_true, if_false]

end Numbers

theorem decDigit_digitChar : ∀ d < 10, decDigit d.digitChar = some d := by
  intro d hd
  interval_cases d <;> rfl

theorem hexDigit_digitChar : ∀ d < 16, Str.hexDigit d.digitChar = some d := by
  intro d hd
  interval_cases d <;> rfl

/-! ## Dotted quads -/

theorem readNumber_octet (o : UInt8) {rest : Str} (hrest : Stops decDigit rest) :
    readNumber 10 3 256 decDigit false (Str.ofNat o.toNat ++ rest) = some (o.toNat, rest) := by
  have hlt : o.toNat < 256 := o.toNat_lt
  have hlen : (Nat.toDigits 10 o.toNat).length ≤ 3 :=
    (Nat.length_toDigits_le_iff (by decide) (by decide)).mpr (by omega)
  exact readNumber_toDigits (by decide) decDigit_digitChar false hlen hlt hrest

theorem stops_nil {digit : Char → Option ℕ} : Stops digit [] := by
  intro c hc
  cases hc

theorem stops_cons {digit : Char → Option ℕ} {c : Char} (hc : digit c = none) (s : Str) :
    Stops digit (c :: s) := by
  intro d hd
  rw [List.head?_cons, Option.some.injEq] at hd
  exact hd ▸ hc

theorem readOctet_succ (i : ℕ) (o : UInt8) {rest : Str} (hrest : Stops decDigit rest) :
    readOctet (i + 1) ('.' :: (Str.ofNat o.toNat ++ rest)) = some (o.toNat, rest) := by
  simp only [readOctet, readSeparator, Nat.succ_ne_zero, if_false]
  exact readNumber_octet o hrest

theorem readIpv4Addr_displayIpv4 (ip : Ipv4Addr) {rest : Str} (hrest : Stops decDigit rest) :
    readIpv4Addr (displayIpv4 ip ++ rest) = some (ip, rest) := by
  have htext : displayIpv4 ip ++ rest = Str.ofNat ip.a.toNat ++ '.' :: (Str.ofNat ip.b.toNat ++
      '.' :: (Str.ofNat ip.c.toNat ++ '.' :: (Str.ofNat ip.d.toNat ++ rest))) := by
    simp [displayIpv4, Ipv4Addr.octets, join]
  have hdot : ∀ s, Stops decDigit ('.' :: s) := stops_cons rfl
  have hzero : ∀ s, readOctet 0 s = readNumber 10 3 256 decDigit false s := fun _ => rfl
  simp only [htext, readIpv4Addr, hzero, readNumber_octet ip.a (hdot _), Option.bind_eq_bind,
    Option.bind_some, readOctet_succ _ _ (hdot _), readOctet_succ _ _ hrest, UInt8.ofNat_toNat,
    Option.pure_def]

theorem length_displayIpv4 (ip : Ipv4Addr) : (displayIpv4 ip).length ≤ 15 := by
  have hlen : ∀ o : UInt8, (Str.ofNat o.toNat).length ≤ 3 := by
    intro o
    have hlt : o.toNat < 256 := o.toNat_lt
    exact (Nat.length_toDigits_le_iff (by decide) (by decide)).mpr (by omega)
  have ha := hlen ip.a
  have hb := hlen ip.b
  have hc := hlen ip.c
  have hd := hlen ip.d
  simp only [displayIpv4, Ipv4Addr.octets, List.map_cons, List.map_nil, join, List.length_append,
    List.length_cons]
  omega

theorem colon_notMem_displayIpv4 (ip : Ipv4Addr) : ':' ∉ displayIpv4 ip := by
  have hdigits : ∀ n, ':' ∉ Str.ofNat n :=
    fun n hn => absurd (Str.isDigit_of_mem_ofNat hn) (by decide)
  simp [displayIpv4, Ipv4Addr.octets, join, hdigits]

/-- A printed dotted quad is read back. -/
theorem parseIpv4_displayIpv4 (ip : Ipv4Addr) : parseIpv4 (displayIpv4 ip) = some ip := by
  have hread : readIpv4Addr (displayIpv4 ip ++ []) = some (ip, []) :=
    readIpv4Addr_displayIpv4 ip stops_nil
  rw [List.append_nil] at hread
  have hlen : ¬ 15 < (displayIpv4 ip).length := Nat.not_lt.mpr (length_displayIpv4 ip)
  rw [parseIpv4, if_neg hlen, parseWith, hread]

/-! ## Dotted quads have one spelling -/

/-- What a number parser takes off the front are digits. -/
theorem readDigits_eq_some {digit : Char → Option ℕ} {max : ℕ} {s rest : Str} {ds : List ℕ}
    (h : readDigits digit max s = some (ds, rest)) :
    ∃ pre, s = pre ++ rest ∧ List.Forall₂ (fun c d => digit c = some d) pre ds := by
  induction s generalizing max ds with
  | nil =>
      simp only [readDigits, Option.some.injEq, Prod.mk.injEq] at h
      exact ⟨[], h.2, h.1 ▸ .nil⟩
  | cons c s ih =>
      cases hc : digit c with
      | none =>
          simp only [readDigits, hc, Option.some.injEq, Prod.mk.injEq] at h
          exact ⟨[], h.2, h.1 ▸ .nil⟩
      | some v =>
          cases max with
          | zero => simp [readDigits, hc] at h
          | succ max =>
              simp only [readDigits, hc, Option.map_eq_some_iff, Prod.mk.injEq] at h
              obtain ⟨⟨ds, rest⟩, htail, rfl, rfl⟩ := h
              obtain ⟨pre, rfl, hpre⟩ := ih htail
              exact ⟨c :: pre, rfl, .cons hc hpre⟩

theorem readNumber_eq_some {radix k bound n : ℕ} {digit : Char → Option ℕ} {zeroPrefix : Bool}
    {s rest : Str} (h : readNumber radix k bound digit zeroPrefix s = some (n, rest)) :
    ∃ ds, ds ≠ [] ∧ readDigits digit k s = some (ds, rest) ∧
      ds.foldl (fun acc v => acc * radix + v) 0 = n ∧ n < bound ∧
      (zeroPrefix = false → ds.head? = some 0 → ds.length ≤ 1) := by
  simp only [readNumber] at h
  split at h
  · cases h
  · rename_i ds rest' hread
    split at h
    · cases h
    · rename_i hds
      split at h
      · cases h
      · rename_i hzero
        simp only [Option.some.injEq, Prod.mk.injEq] at h
        obtain ⟨hval, rfl⟩ := h
        simp only [Bool.or_eq_true, List.isEmpty_iff, decide_eq_true_eq, not_or, hval] at hds
        refine ⟨ds, hds.1, hread, hval, Nat.not_le.mp hds.2, ?_⟩
        rintro rfl hhead
        simpa [hhead] using hzero

theorem decDigit_eq_some {c : Char} {d : ℕ} (h : decDigit c = some d) :
    d < 10 ∧ c = d.digitChar := by
  simp only [decDigit, Option.ite_none_right_eq_some, Option.some.injEq, Char.isDigit,
    Bool.and_eq_true, decide_eq_true_eq] at h
  obtain ⟨⟨hlow, hhigh⟩, rfl⟩ := h
  have hlow' : 48 ≤ c.toNat := hlow
  have hhigh' : c.toNat ≤ 57 := hhigh
  rw [← Char.ofNat_toNat c]
  generalize c.toNat = n at hlow' hhigh'
  interval_cases n <;> decide

/-- Digits without a leading zero are the digits of their value. -/
theorem toDigits_foldl {ds : List ℕ} (hne : ds ≠ []) (hlt : ∀ d ∈ ds, d < 10)
    (hzero : ds.head? = some 0 → ds.length ≤ 1) :
    Nat.toDigits 10 (ds.foldl (fun acc v => acc * 10 + v) 0) = ds.map Nat.digitChar ∧
      (1 < ds.length → 0 < ds.foldl (fun acc v => acc * 10 + v) 0) := by
  induction ds using List.reverseRecOn with
  | nil => exact absurd rfl hne
  | append_singleton ds d ih =>
      rw [List.forall_mem_append, List.forall_mem_singleton] at hlt
      rw [List.foldl_append, List.foldl_cons, List.foldl_nil, List.map_append]
      cases ds with
      | nil => simp [Nat.toDigits_of_lt_base hlt.2]
      | cons d₀ ds =>
          have hhead : d₀ ≠ 0 := by
            rintro rfl
            simpa using hzero rfl
          obtain ⟨htext, hpos⟩ := ih (List.cons_ne_nil d₀ ds) hlt.1 fun h =>
            absurd (by simpa using h) hhead
          have hval : 0 < (d₀ :: ds).foldl (fun acc v => acc * 10 + v) 0 := by
            cases ds with
            | nil => simpa using Nat.pos_of_ne_zero hhead
            | cons d₁ ds => exact hpos (by simp)
          refine ⟨?_, fun _ => by omega⟩
          rw [← htext, Nat.mul_comm, ← Nat.toDigits_append_toDigits (by decide) hval hlt.2,
            Nat.toDigits_of_lt_base hlt.2]
          rfl

/-- An octet is read from its own digits only. -/
theorem readNumber_octet_eq_some {n : ℕ} {s rest : Str}
    (h : readNumber 10 3 256 decDigit false s = some (n, rest)) :
    s = Str.ofNat (UInt8.ofNat n).toNat ++ rest := by
  obtain ⟨ds, hne, hdigits, hval, hbound, hzero⟩ := readNumber_eq_some h
  obtain ⟨pre, rfl, hpre⟩ := readDigits_eq_some hdigits
  have htext : pre = ds.map Nat.digitChar ∧ ∀ d ∈ ds, d < 10 := by
    clear hdigits h hval hzero hne
    induction hpre with
    | nil => simp
    | cons hc _ ih =>
        obtain ⟨hlt, rfl⟩ := decDigit_eq_some hc
        exact ⟨by simp [← ih.1], List.forall_mem_cons.mpr ⟨hlt, ih.2⟩⟩
  have hn : (UInt8.ofNat n).toNat = n := UInt8.toNat_ofNat_of_lt hbound
  rw [hn, Str.ofNat, ← hval, (toDigits_foldl hne htext.2 (hzero rfl)).1, ← htext.1]

theorem readOctet_succ_eq_some {i n : ℕ} {s rest : Str}
    (h : readOctet (i + 1) s = some (n, rest)) :
    s = '.' :: (Str.ofNat (UInt8.ofNat n).toNat ++ rest) := by
  simp only [readOctet, readSeparator, Nat.succ_ne_zero, if_false, Option.bind_eq_some_iff] at h
  obtain ⟨post, hstrip, hnumber⟩ := h
  rw [Str.stripPrefix_eq_some_iff.mp hstrip, readNumber_octet_eq_some hnumber]

/-- What is read as a dotted quad starts with the quad as it is printed. -/
theorem readIpv4Addr_eq_some {s rest : Str} {ip : Ipv4Addr} (h : readIpv4Addr s = some (ip, rest)) :
    s = displayIpv4 ip ++ rest := by
  simp only [readIpv4Addr, Option.bind_eq_bind, Option.bind_eq_some_iff, Prod.exists,
    Option.pure_def, Option.some.injEq, Prod.mk.injEq] at h
  obtain ⟨a, s₁, ha, b, s₂, hb, c, s₃, hc, d, s₄, hd, rfl, rfl⟩ := h
  rw [readNumber_octet_eq_some ha, readOctet_succ_eq_some hb, readOctet_succ_eq_some hc,
    readOctet_succ_eq_some hd]
  simp [displayIpv4, Ipv4Addr.octets, join]

/-- **A dotted quad has one spelling.** -/
theorem eq_displayIpv4_of_parseIpv4 {s : Str} {ip : Ipv4Addr} (h : parseIpv4 s = some ip) :
    s = displayIpv4 ip := by
  simp only [parseIpv4, Option.ite_none_left_eq_some, parseWith] at h
  obtain ⟨-, h⟩ := h
  split at h
  · rename_i a hread
    obtain rfl := Option.some.inj h
    simpa using readIpv4Addr_eq_some hread
  · cases h

/-! ## Groups -/

/-- The text is over, or a colon comes next. -/
def AtColon (rest : Str) : Prop := rest = [] ∨ ∃ t, rest = ':' :: t

theorem AtColon.stops {digit : Char → Option ℕ} (hcolon : digit ':' = none) {rest : Str}
    (h : AtColon rest) : Stops digit rest := by
  obtain rfl | ⟨t, rfl⟩ := h
  · exact stops_nil
  · exact stops_cons hcolon t

/-- A group is not taken for the start of a dotted quad. -/
theorem readIpv4Addr_eq_none {group rest : Str} (hgroup : '.' ∉ group) (hrest : AtColon rest) :
    readIpv4Addr (group ++ rest) = none := by
  rw [Option.eq_none_iff_forall_ne_some]
  rintro ⟨ip, rest'⟩ h
  obtain ⟨post, hsplit⟩ : ∃ post, group ++ rest = Str.ofNat ip.a.toNat ++ '.' :: post :=
    ⟨_, (readIpv4Addr_eq_some h).trans (by simp [displayIpv4, Ipv4Addr.octets, join]; rfl)⟩
  have hdot : '.' ∈ rest := by
    have hmem : '.' ∈ group ++ rest := by
      rw [hsplit]
      exact List.mem_append_right _ List.mem_cons_self
    exact (List.mem_append.mp hmem).resolve_left hgroup
  obtain rfl | ⟨t, rfl⟩ := hrest
  · cases hdot
  -- the colon stands before the dot, among what has to be digits
  obtain ⟨a, ha, hrest⟩ | ⟨a, ha, hdots⟩ := List.append_eq_append_iff.mp hsplit
  · cases a with
    | nil => cases hrest
    | cons c a =>
        obtain ⟨rfl, -⟩ := List.cons.inj hrest
        have hcolon : ':' ∈ Str.ofNat ip.a.toNat := by
          rw [ha]
          simp
        exact absurd (Str.isDigit_of_mem_ofNat hcolon) (by decide)
  · cases a with
    | nil => cases hdots
    | cons c a =>
        obtain ⟨rfl, -⟩ := List.cons.inj hdots
        exact hgroup (by rw [ha]; simp)

theorem dot_notMem_toDigits (n : ℕ) : '.' ∉ Nat.toDigits 16 n := by
  intro h
  obtain ⟨ds, hds, -⟩ := exists_digits (by decide) hexDigit_digitChar n
  obtain ⟨d, -, hd⟩ := Outcome.exists_mem_of_forall₂ hds.flip h
  cases hd

/-- Printed groups behind the first, each with its colon. -/
def moreGroups (gs : List UInt16) : Str := gs.flatMap fun g => ':' :: Nat.toDigits 16 g.toNat

theorem displayGroups_cons (g : UInt16) (gs : List UInt16) :
    displayGroups (g :: gs) = Nat.toDigits 16 g.toNat ++ moreGroups gs := by
  induction gs generalizing g with
  | nil => simp [displayGroups, join, moreGroups]
  | cons h gs ih =>
      have hcons : displayGroups (g :: h :: gs) =
          Nat.toDigits 16 g.toNat ++ ':' :: displayGroups (h :: gs) := rfl
      rw [hcons, ih]
      rfl

/-- The text behind the groups: its end, or the abbreviation. -/
def AtAbbreviation (rest : Str) : Prop := rest = [] ∨ ∃ t, rest = ':' :: ':' :: t

theorem atColon_moreGroups (gs : List UInt16) {rest : Str} (hrest : AtAbbreviation rest) :
    AtColon (moreGroups gs ++ rest) := by
  cases gs with
  | nil =>
      obtain rfl | ⟨t, rfl⟩ := hrest
      · exact .inl rfl
      · exact .inr ⟨_, rfl⟩
  | cons g gs => exact .inr ⟨_, rfl⟩

theorem readNumber_group (g : UInt16) {rest : Str} (hrest : AtColon rest) :
    readNumber 16 4 65536 Str.hexDigit true (Nat.toDigits 16 g.toNat ++ rest) =
      some (g.toNat, rest) := by
  have hlt : g.toNat < 65536 := g.toNat_lt
  have hlen : (Nat.toDigits 16 g.toNat).length ≤ 4 :=
    (Nat.length_toDigits_le_iff (by decide) (by decide)).mpr (by omega)
  exact readNumber_toDigits (by decide) hexDigit_digitChar true hlen hlt (hrest.stops rfl)

theorem readNumber_atColon {rest : Str} (hrest : AtColon rest) :
    readNumber 16 4 65536 Str.hexDigit true rest = none := by
  rw [Option.eq_none_iff_forall_ne_some]
  rintro ⟨n, rest'⟩ h
  obtain ⟨ds, hne, hdigits, -⟩ := readNumber_eq_some h
  have hstops : Stops Str.hexDigit rest := hrest.stops rfl
  have hnone : readDigits Str.hexDigit 4 ([] ++ rest) = some ([], rest) :=
    readDigits_append .nil (Nat.zero_le 4) hstops
  rw [List.nil_append, hdigits, Option.some.injEq, Prod.mk.injEq] at hnone
  exact hne hnone.1

/-- No group is read at the end or at the abbreviation. -/
theorem readGroups_stop (left index : ℕ) {rest : Str} (hrest : AtAbbreviation rest) :
    readGroups left index rest = ([], false, rest) := by
  cases left with
  | zero => rfl
  | succ left =>
      have hcolon : AtColon rest := by
        obtain rfl | ⟨t, rfl⟩ := hrest
        · exact .inl rfl
        · exact .inr ⟨_, rfl⟩
      have hnone : ∀ {α : Type} (p : Parser α), (∀ t, AtColon t → p t = none) →
          readSeparator ':' index p rest = none := by
        intro α p hp
        rw [readSeparator]
        split
        · exact hp rest hcolon
        · obtain rfl | ⟨t, rfl⟩ := hrest
          · rfl
          · exact hp _ (.inr ⟨t, rfl⟩)
      have hgroup := hnone _ fun t ht => readNumber_atColon ht
      have hipv4 := hnone readIpv4Addr fun t ht =>
        readIpv4Addr_eq_none (List.not_mem_nil (a := '.')) ht
      simp only [readGroups, hgroup, hipv4, ite_self]

theorem readGroups_moreGroups {gs : List UInt16} {left : ℕ} (hlen : gs.length ≤ left) (index : ℕ)
    {rest : Str} (hrest : AtAbbreviation rest) :
    readGroups left (index + 1) (moreGroups gs ++ rest) = (gs, false, rest) := by
  induction gs generalizing left index with
  | nil => exact readGroups_stop left (index + 1) hrest
  | cons g gs ih =>
      cases left with
      | zero => simp at hlen
      | succ left =>
          have htext : moreGroups (g :: gs) ++ rest =
              ':' :: (Nat.toDigits 16 g.toNat ++ (moreGroups gs ++ rest)) := by
            simp [moreGroups]
          have hcolon := atColon_moreGroups gs hrest
          have hstrip : ∀ s, Str.stripPrefix ':' (':' :: s) = some s := fun s => rfl
          simp only [htext, readGroups, readSeparator, Nat.succ_ne_zero, if_false, hstrip,
            Option.bind_some, readNumber_group g hcolon,
            readIpv4Addr_eq_none (dot_notMem_toDigits _) hcolon,
            ih (Nat.le_of_succ_le_succ hlen) (index + 1), ite_self, UInt16.ofNat_toNat]

theorem readGroups_displayGroups {gs : List UInt16} {left : ℕ} (hlen : gs.length ≤ left)
    {rest : Str} (hrest : AtAbbreviation rest) :
    readGroups left 0 (displayGroups gs ++ rest) = (gs, false, rest) := by
  cases gs with
  | nil => exact readGroups_stop left 0 hrest
  | cons g gs =>
      cases left with
      | zero => simp at hlen
      | succ left =>
          have hcolon := atColon_moreGroups gs hrest
          rw [displayGroups_cons, List.append_assoc]
          simp only [readGroups, readSeparator, if_true, readNumber_group g hcolon,
            readIpv4Addr_eq_none (dot_notMem_toDigits _) hcolon,
            readGroups_moreGroups (Nat.le_of_succ_le_succ hlen) 0 hrest, ite_self,
            UInt16.ofNat_toNat]

theorem readGroups_displayGroups_end {gs : List UInt16} {left : ℕ} (hlen : gs.length ≤ left) :
    readGroups left 0 (displayGroups gs) = (gs, false, []) := by
  have hread : readGroups left 0 (displayGroups gs ++ []) = (gs, false, []) :=
    readGroups_displayGroups hlen (.inl rfl)
  rwa [List.append_nil] at hread

/-! ## The abbreviated run -/

/-- A run of zeros in a list of groups. -/
def ZeroRun (segments : List UInt16) (start len : ℕ) : Prop :=
  start + len ≤ segments.length ∧ ∀ i, start ≤ i → i < start + len → segments[i]? = some 0

theorem take_append_zeros_append_drop {segments : List UInt16} {start len : ℕ}
    (h : ZeroRun segments start len) :
    segments.take start ++ List.replicate len 0 ++ segments.drop (start + len) = segments := by
  obtain ⟨hle, hzero⟩ := h
  have hrun : (segments.drop start).take len = List.replicate len 0 := by
    refine List.eq_replicate_iff.mpr ⟨?_, ?_⟩
    · rw [List.length_take, List.length_drop]
      omega
    · intro g hg
      obtain ⟨i, hi, rfl⟩ := List.mem_iff_getElem.mp hg
      rw [List.length_take, List.length_drop] at hi
      have hat := hzero (start + i) (Nat.le_add_right start i) (by omega)
      rw [List.getElem_take, List.getElem_drop]
      exact Option.some.inj ((List.getElem?_eq_getElem _).symm.trans hat)
  rw [← hrun, List.append_assoc, ← List.drop_drop, List.take_append_drop, List.take_append_drop]

/-- The scan keeps a run of zeros that ends where it stands, and a best run. -/
theorem zeroRun_longestZeros {pre gs : List UInt16} {start len : ℕ} {best : ℕ × ℕ}
    (hrun : len ≠ 0 → start + len = pre.length ∧ ZeroRun (pre ++ gs) start len)
    (hbest : ZeroRun (pre ++ gs) best.1 best.2) :
    ZeroRun (pre ++ gs) (longestZeros gs pre.length start len best).1
      (longestZeros gs pre.length start len best).2 := by
  induction gs generalizing pre start len best with
  | nil => exact hbest
  | cons g gs ih =>
      have happ : pre ++ g :: gs = (pre ++ [g]) ++ gs := by simp
      have hlen : (pre ++ [g]).length = pre.length + 1 := by simp
      rw [happ] at hrun hbest ⊢
      by_cases hg : g = 0
      · subst hg
        have hnext : ZeroRun (pre ++ [0] ++ gs) (if len = 0 then pre.length else start) (len + 1) ∧
            (if len = 0 then pre.length else start) + (len + 1) = pre.length + 1 := by
          have hhere : (pre ++ [0] ++ gs)[pre.length]? = some 0 := by simp
          have hfits : pre.length + 1 ≤ (pre ++ [0] ++ gs).length := by
            simp only [List.length_append, List.length_singleton]
            omega
          split
          · rename_i hzero
            subst hzero
            refine ⟨⟨hfits, ?_⟩, rfl⟩
            intro i hlo hhi
            obtain rfl : i = pre.length := by omega
            exact hhere
          · rename_i hne
            obtain ⟨hend, -, hall⟩ := hrun hne
            refine ⟨⟨by omega, ?_⟩, by omega⟩
            intro i hlo hhi
            by_cases hlast : i = pre.length
            · rw [hlast]
              exact hhere
            · exact hall i hlo (by omega)
        have hbest' : ZeroRun (pre ++ [0] ++ gs)
            (if best.2 < len + 1 then (if len = 0 then pre.length else start, len + 1) else best).1
            (if best.2 < len + 1 then (if len = 0 then pre.length else start, len + 1) else best).2 := by
          split
          · exact hnext.1
          · exact hbest
        have hends : _ = (pre ++ [0]).length := hnext.2.trans hlen.symm
        have hrest := ih (fun _ => ⟨hends, hnext.1⟩) hbest'
        rw [hlen] at hrest
        simp only [longestZeros, if_true]
        exact hrest
      · have hnone : (0 : ℕ) ≠ 0 → 0 + 0 = (pre ++ [g]).length ∧ ZeroRun (pre ++ [g] ++ gs) 0 0 :=
          fun h => absurd rfl h
        have hrest := ih hnone hbest
        rw [hlen] at hrest
        simp only [longestZeros, hg, if_false]
        exact hrest

theorem zeroRun_longestZeros_all (gs : List UInt16) :
    ZeroRun gs (longestZeros gs 0 0 0 (0, 0)).1 (longestZeros gs 0 0 0 (0, 0)).2 := by
  have hempty : ZeroRun ([] ++ gs) 0 0 := by
    refine ⟨Nat.zero_le _, ?_⟩
    intro i _ hi
    simp at hi
  have hnone : (0 : ℕ) ≠ 0 → 0 + 0 = ([] : List UInt16).length ∧ ZeroRun ([] ++ gs) 0 0 :=
    fun h => absurd rfl h
  exact zeroRun_longestZeros hnone hempty

/-! ## The three forms of an IPv6 address -/

theorem or_bytes (g : UInt16) :
    ((g >>> 8).toUInt8.toUInt16 <<< 8 ||| g.toUInt8.toUInt16) = g := by
  apply UInt16.toNat_inj.mp
  have hlt := g.toNat_lt
  have hhi : (g >>> 8).toUInt8.toUInt16.toNat = g.toNat / 256 := by
    simp [Nat.shiftRight_eq_div_pow]
    omega
  have hlo : g.toUInt8.toUInt16.toNat = g.toNat % 256 := by simp
  have hshift : ((g >>> 8).toUInt8.toUInt16 <<< 8).toNat = (g.toNat / 256) <<< 8 := by
    rw [UInt16.toNat_shiftLeft, hhi, Nat.shiftLeft_eq]
    have height : (8 : UInt16).toNat % 16 = 8 := rfl
    rw [height, Nat.shiftLeft_eq]
    omega
  rw [UInt16.toNat_or, hshift, hlo, ← Nat.shiftLeft_add_eq_or_of_lt (by omega), Nat.shiftLeft_eq]
  omega

/-- What is read at an abbreviation. -/
theorem readIpv6Addr_abbreviated {ip : Ipv6Addr} {head tail : List UInt16} {text tailText : Str}
    {ipv4 : Bool} {zeros : ℕ} (hhead : readGroups 8 0 text = (head, false, "::".toList ++ tailText))
    (hshort : head.length ≠ 8)
    (htail : readGroups (8 - (head.length + 1)) 0 tailText = (tail, ipv4, []))
    (hzeros : 8 - head.length - tail.length = zeros)
    (hsegments : head ++ List.replicate zeros 0 ++ tail = ip.segments) :
    readIpv6Addr text = some (ip, []) := by
  have hcolons : "::".toList ++ tailText = ':' :: ':' :: tailText := rfl
  have hstrip : ∀ s, Str.stripPrefix ':' (':' :: s) = some s := fun s => rfl
  simp only [readIpv6Addr, hhead, hshort, if_false, Bool.false_eq_true, hcolons, hstrip,
    Option.bind_eq_bind, Option.bind_some, htail, hzeros, hsegments, ofSegments,
    ip.length_segments, dite_true, Option.map_some]

theorem readIpv6Addr_mapped {ip : Ipv6Addr} {g h : UInt16}
    (hip : ip.segments = [0, 0, 0, 0, 0, 0xFFFF, g, h]) :
    readIpv6Addr ("::ffff:".toList ++
      displayIpv4 ⟨(g >>> 8).toUInt8, g.toUInt8, (h >>> 8).toUInt8, h.toUInt8⟩) = some (ip, []) := by
  generalize hquad : displayIpv4 ⟨(g >>> 8).toUInt8, g.toUInt8, (h >>> 8).toUInt8, h.toUInt8⟩ = quad
  have hread : readIpv4Addr quad =
      some (⟨(g >>> 8).toUInt8, g.toUInt8, (h >>> 8).toUInt8, h.toUInt8⟩, []) := by
    have hread := readIpv4Addr_displayIpv4
      ⟨(g >>> 8).toUInt8, g.toUInt8, (h >>> 8).toUInt8, h.toUInt8⟩ stops_nil
    rwa [List.append_nil, hquad] at hread
  have hlast : readGroups 6 1 (':' :: quad) = ([g, h], true, []) := by
    have hstrip : readSeparator ':' 1 readIpv4Addr (':' :: quad) = readIpv4Addr quad := rfl
    rw [readGroups, if_pos (by decide), hstrip, hread]
    simp only [or_bytes]
  have htail : readGroups 7 0 ("ffff".toList ++ ':' :: quad) = ([0xFFFF, g, h], true, []) := by
    have hcolon : AtColon (':' :: quad) := .inr ⟨quad, rfl⟩
    have hdigits : Nat.toDigits 16 (0xFFFF : UInt16).toNat = "ffff".toList := by decide
    have hnumber : readSeparator ':' 0 (readNumber 16 4 65536 Str.hexDigit true)
        ("ffff".toList ++ ':' :: quad) = some ((0xFFFF : UInt16).toNat, ':' :: quad) := by
      rw [← hdigits]
      exact readNumber_group 0xFFFF hcolon
    have hnone : readSeparator ':' 0 readIpv4Addr ("ffff".toList ++ ':' :: quad) = none :=
      readIpv4Addr_eq_none (by decide) hcolon
    rw [readGroups, if_pos (by decide), hnone]
    simp only [hnumber, Nat.zero_add, hlast, UInt16.ofNat_toNat]
  have hhead : ∀ s, readGroups 8 0 ("::".toList ++ s) = ([], false, "::".toList ++ s) :=
    fun s => readGroups_stop 8 0 (.inr ⟨s, rfl⟩)
  exact readIpv6Addr_abbreviated (hhead _) (by decide) htail rfl hip.symm

theorem readIpv6Addr_displayIpv6 (ip : Ipv6Addr) :
    readIpv6Addr (displayIpv6 ip) = some (ip, []) := by
  unfold displayIpv6
  split
  · rename_i g h hip
    exact readIpv6Addr_mapped hip
  · have hrun := zeroRun_longestZeros_all ip.segments
    generalize longestZeros ip.segments 0 0 0 (0, 0) = best at hrun
    obtain ⟨start, len⟩ := best
    have hfits : start + len ≤ 8 := by
      rw [← ip.length_segments]
      exact hrun.1
    simp only
    split
    · rename_i hlong
      have hstart : (ip.segments.take start).length = start := by
        rw [List.length_take, ip.length_segments]
        omega
      have hdrop : (ip.segments.drop (start + len)).length = 8 - (start + len) := by
        rw [List.length_drop, ip.length_segments]
      rw [List.append_assoc]
      exact readIpv6Addr_abbreviated (readGroups_displayGroups (by omega) (.inr ⟨_, rfl⟩))
        (by omega) (readGroups_displayGroups_end (by omega)) (by omega)
        (take_append_zeros_append_drop hrun)
    · have hread := readGroups_displayGroups_end (le_of_eq ip.length_segments)
      simp only [readIpv6Addr, hread, ip.length_segments, if_true, ofSegments, dite_true,
        Option.map_some]

/-- A printed IPv6 address is read back. -/
theorem parseIpv6_displayIpv6 (ip : Ipv6Addr) : parseIpv6 (displayIpv6 ip) = some ip := by
  rw [parseIpv6, parseWith, readIpv6Addr_displayIpv6]

/-! ## Addresses with a port -/

/-- A number parser does not look behind the first character that is no digit. -/
theorem readDigits_append_cons {digit : Char → Option ℕ} {c : Char} (hc : digit c = none)
    {max : ℕ} {s rest : Str} {ds : List ℕ} (h : readDigits digit max s = some (ds, rest)) (t : Str) :
    readDigits digit max (s ++ c :: t) = some (ds, rest ++ c :: t) := by
  induction s generalizing max ds with
  | nil =>
      simp only [readDigits, Option.some.injEq, Prod.mk.injEq] at h
      obtain ⟨rfl, rfl⟩ := h
      simp [readDigits, hc]
  | cons d s ih =>
      cases hd : digit d with
      | none =>
          simp only [readDigits, hd, Option.some.injEq, Prod.mk.injEq] at h
          obtain ⟨rfl, rfl⟩ := h
          simp [readDigits, hd]
      | some v =>
          cases max with
          | zero => simp [readDigits, hd] at h
          | succ max =>
              simp only [readDigits, hd, Option.map_eq_some_iff, Prod.mk.injEq] at h
              obtain ⟨⟨ds, rest⟩, htail, rfl, rfl⟩ := h
              simp [readDigits, hd, ih htail]

theorem readNumber_append_cons {digit : Char → Option ℕ} {c : Char} (hc : digit c = none)
    {radix k bound n : ℕ} {zeroPrefix : Bool} {s rest : Str}
    (h : readNumber radix k bound digit zeroPrefix s = some (n, rest)) (t : Str) :
    readNumber radix k bound digit zeroPrefix (s ++ c :: t) = some (n, rest ++ c :: t) := by
  obtain ⟨ds, -, hdigits, -⟩ := readNumber_eq_some h
  simp only [readNumber, hdigits] at h
  simp only [readNumber, readDigits_append_cons hc hdigits]
  split at h
  · cases h
  · rename_i hds
    rw [if_neg hds]
    split at h
    · cases h
    · rename_i hzero
      rw [if_neg hzero]
      cases h
      rfl

theorem readOctet_append_colon {i n : ℕ} {s rest : Str} (h : readOctet i s = some (n, rest))
    (t : Str) : readOctet i (s ++ ':' :: t) = some (n, rest ++ ':' :: t) := by
  simp only [readOctet, readSeparator] at h ⊢
  split at h
  · rename_i hi
    rw [if_pos hi]
    exact readNumber_append_cons rfl h t
  · rename_i hi
    rw [if_neg hi]
    obtain ⟨s', hstrip, hnumber⟩ := Option.bind_eq_some_iff.mp h
    obtain rfl := Str.stripPrefix_eq_some_iff.mp hstrip
    exact readNumber_append_cons rfl hnumber t

/-- A colon behind a dotted quad is left alone. -/
theorem readIpv4Addr_append_colon {s : Str} {ip : Ipv4Addr} {rest : Str}
    (h : readIpv4Addr s = some (ip, rest)) (t : Str) :
    readIpv4Addr (s ++ ':' :: t) = some (ip, rest ++ ':' :: t) := by
  simp only [readIpv4Addr, Option.bind_eq_bind, Option.bind_eq_some_iff, Prod.exists,
    Option.pure_def, Option.some.injEq, Prod.mk.injEq] at h ⊢
  obtain ⟨a, s₁, ha, b, s₂, hb, c, s₃, hc, d, s₄, hd, rfl, rfl⟩ := h
  exact ⟨a, _, readOctet_append_colon ha t, b, _, readOctet_append_colon hb t, c, _,
    readOctet_append_colon hc t, d, _, readOctet_append_colon hd t, rfl, rfl⟩

theorem readPort_ofNat (port : UInt16) :
    SocketAddr.readPort (':' :: Str.ofNat port.toNat) = some (port.toNat, []) := by
  have hlt : port.toNat < 65536 := port.toNat_lt
  have hnumber := readNumber_toDigits (by decide) decDigit_digitChar true
    (le_refl (Nat.toDigits 10 port.toNat).length) hlt stops_nil
  rw [List.append_nil] at hnumber
  exact hnumber

/-- An IPv4 address, a colon and a port are a socket address. -/
theorem parse_ipv4_port {host : Str} {ip : Ipv4Addr} (h : parseIpv4 host = some ip)
    (port : UInt16) :
    SocketAddr.parse (host ++ ':' :: Str.ofNat port.toNat) = some ⟨.v4 ip, port, 0⟩ := by
  have hread : readIpv4Addr host = some (ip, []) := by
    simp only [parseIpv4, parseWith] at h
    split at h
    · cases h
    · split at h
      · cases h
        assumption
      · cases h
  have hv4 : SocketAddr.readV4 (host ++ ':' :: Str.ofNat port.toNat) =
      some (⟨.v4 ip, port, 0⟩, []) := by
    simp only [SocketAddr.readV4, readIpv4Addr_append_colon hread, List.nil_append,
      Option.bind_eq_bind, Option.bind_some, readPort_ofNat, Option.pure_def, UInt16.ofNat_toNat]
  rw [SocketAddr.parse, parseWith, hv4]

/-- A socket address with an IPv6 address starts with a bracket. -/
theorem head?_of_parse_v6 {s : Str} {ip : Ipv6Addr} {sa : SocketAddr}
    (h : SocketAddr.parse s = some sa) (hip : sa.ip = .v6 ip) : s.head? = some '[' := by
  rw [SocketAddr.parse] at h
  split at h
  · rename_i sa' hv4
    cases h
    simp only [parseWith] at hv4
    split at hv4
    · rename_i sa' hread
      cases hv4
      simp only [SocketAddr.readV4, Option.bind_eq_bind, Option.bind_eq_some_iff, Prod.exists,
        Option.pure_def, Option.some.injEq, Prod.mk.injEq] at hread
      obtain ⟨ip4, s₁, -, port, s₂, -, rfl, -⟩ := hread
      cases hip
    · cases hv4
  · simp only [parseWith] at h
    split at h
    · rename_i sa' hread
      simp only [SocketAddr.readV6, Option.bind_eq_bind, Option.bind_eq_some_iff] at hread
      obtain ⟨s₁, hstrip, -⟩ := hread
      rw [Str.stripPrefix_eq_some_iff.mp hstrip]
      rfl
    · cases h

theorem head?_of_parseIpv6 {s : Str} {ip : Ipv6Addr} (h : parseIpv6 s = some ip) :
    s.head? ≠ some '[' := by
  intro hhead
  obtain ⟨c, s, rfl⟩ := List.exists_cons_of_ne_nil (l := s) (by rintro rfl; cases hhead)
  obtain rfl : c = '[' := by simpa using hhead
  have hgroups : readGroups 8 0 ('[' :: s) = ([], false, '[' :: s) := rfl
  simp only [parseIpv6, parseWith, readIpv6Addr, hgroups] at h
  cases h

end Gust.Lib.IpAddr
