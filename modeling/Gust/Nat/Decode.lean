import Gust.Lib.IpText
import Gust.Nat.Rules

/-!
# Reading a ruleset back

A decoder of the text that `build_ruleset` emits. It takes the text line by line: the line
that opens a table, the `prerouting` chain with its rules, the `postrouting` chain, and the
line that closes the table. Within the line of a rule the port ends at a blank, the comment
at a quote, and the destination at the end of the line.

A comment without a quote and a newline can therefore not reach out of its place, and the
decoder gives back exactly the rules that went in (`decode_buildRuleset`). So the text
determines the rules of each family, and nothing else (`ruleset_lossless`).
-/

namespace Gust.Nat

open Gust.Lib

/-! ## The decoder -/

/-- A rule of the `postrouting` chain. -/
inductive PostRule
  /-- Masquerade the connections that were rewritten, and no others. -/
  | masqueradeDnat
  deriving DecidableEq, Repr

/-- A table, as it is read. -/
structure Decoded where
  family : Family
  prerouting : List NatRule
  postrouting : List PostRule
  deriving DecidableEq, Repr

/-! The lines that are the same in every table. -/

def preroutingLine : Str := "    chain prerouting \x7b".toList

def dstnatLine : Str := "        type nat hook prerouting priority dstnat; policy accept;".toList

def postroutingLine : Str := "    chain postrouting \x7b".toList

def srcnatLine : Str := "        type nat hook postrouting priority srcnat; policy accept;".toList

def masqueradeLine : Str := "        ct status dnat counter masquerade fully-random".toList

def chainEnd : Str := "    \x7d".toList

def tableEnd : Str := "\x7d".toList

def readProto (s : Str) : Option (Protocol × Str) :=
  match Str.stripStr "tcp".toList s with
  | some rest => some (.tcp, rest)
  | none => (Str.stripStr "udp".toList s).map fun rest => (.udp, rest)

/-- An address and a port; the brackets say which kind of address. -/
def readDest (s : Str) : Option (IpAddr × UInt16) :=
  match Str.stripPrefix '[' s with
  | some rest => do
      let (host, rest) := Str.upTo ']' rest
      let ip ← IpAddr.parseIpv6 host
      let rest ← Str.stripStr "]:".toList rest
      let port ← Str.parseU16 rest
      return (.v6 ip, port)
  | none => do
      let (host, rest) := Str.upTo ':' s
      let ip ← IpAddr.parseIpv4 host
      let rest ← Str.stripPrefix ':' rest
      let port ← Str.parseU16 rest
      return (.v4 ip, port)

def readRule (line : Str) : Option NatRule := do
  let rest ← Str.stripStr "        ".toList line
  let (proto, rest) ← readProto rest
  let rest ← Str.stripStr " dport ".toList rest
  let (digits, rest) := Str.upTo ' ' rest
  let dport ← Str.parseU16 digits
  let rest ← Str.stripStr " counter comment \"".toList rest
  let (comment, rest) := Str.upTo '"' rest
  let rest ← Str.stripStr "\" dnat to ".toList rest
  let (destIp, destPort) ← readDest rest
  return ⟨proto, dport, destIp, destPort, comment⟩

def readPostRule (line : Str) : Option PostRule :=
  if line = masqueradeLine then some .masqueradeDnat else none

section Chains

variable {ρ : Type}

/-- The rules up to the line that closes the chain. -/
def readRules (read : Str → Option ρ) : List Str → Option (List ρ × List Str)
  | [] => none
  | l :: ls =>
      match read l with
      | some r => (readRules read ls).map fun (rs, rest) => (r :: rs, rest)
      | none => if l = chainEnd then some ([], ls) else none

/-- A chain with the given first two lines. -/
def readChain (opening hook : Str) (read : Str → Option ρ) :
    List Str → Option (List ρ × List Str)
  | l :: l' :: ls => if l = opening ∧ l' = hook then readRules read ls else none
  | _ => none

end Chains

def readFamily (line : Str) : Option Family :=
  if line = "table ip gust \x7b".toList then some .ip
  else if line = "table ip6 gust \x7b".toList then some .ip6
  else none

def readTable : List Str → Option (Decoded × List Str)
  | [] => none
  | l :: ls => do
      let family ← readFamily l
      let (prerouting, ls) ← readChain preroutingLine dstnatLine readRule ls
      let (postrouting, ls) ← readChain postroutingLine srcnatLine readPostRule ls
      match ls with
      | l :: ls => if l = tableEnd then some (⟨family, prerouting, postrouting⟩, ls) else none
      | [] => none

/-- Tables up to the end of the text; each has at least one line. -/
def readTables : ℕ → List Str → Option (List Decoded)
  | _, [] => some []
  | 0, _ :: _ => none
  | n + 1, l :: ls => do
      let (t, rest) ← readTable (l :: ls)
      let ts ← readTables n rest
      return t :: ts

def decode (text : Str) : Option (List Decoded) := do
  let ls ← Str.lines text
  readTables ls.length ls

/-! ## One rule -/

theorem readProto_protoStr (p : Protocol) (rest : Str) :
    readProto (protoStr p ++ rest) = some (p, rest) := by
  cases p with
  | tcp =>
      have hstrip : Str.stripStr "tcp".toList (protoStr .tcp ++ rest) = some rest :=
        Str.stripStr_append "tcp".toList rest
      rw [readProto, hstrip]
  | udp =>
      have hstrip : Str.stripStr "udp".toList (protoStr .udp ++ rest) = some rest :=
        Str.stripStr_append "udp".toList rest
      have hnone : Str.stripStr "tcp".toList (protoStr .udp ++ rest) = none := rfl
      rw [readProto, hnone, hstrip, Option.map_some]

theorem readDest_formatDest (ip : IpAddr) (port : UInt16) :
    readDest (formatDest ip port) = some (ip, port) := by
  cases ip with
  | v4 ip =>
      have hbracket : '[' ∉ formatDest (.v4 ip) port := by
        intro h
        simp only [formatDest, List.mem_append, List.mem_cons] at h
        rcases h with h | h | h
        · exact absurd (IpAddr.isAddrChar_of_mem_display h) (by decide)
        · exact absurd h (by decide)
        · exact absurd (Str.isDigit_of_mem_ofNat h) (by decide)
      have hnone : Str.stripPrefix '[' (formatDest (.v4 ip) port) = none :=
        Str.stripPrefix_eq_none_iff.mpr fun h => hbracket (List.mem_of_head? h)
      have hstrip : ∀ s, Str.stripPrefix ':' (':' :: s) = some s := fun s => rfl
      rw [readDest, hnone]
      simp only [formatDest, IpAddr.display, Str.upTo_append (IpAddr.colon_notMem_displayIpv4 ip),
        IpAddr.parseIpv4_displayIpv4, hstrip, Str.parseU16_ofNat_toNat, Option.bind_eq_bind,
        Option.bind_some, Option.pure_def]
  | v6 ip =>
      have hbracket : ']' ∉ IpAddr.displayIpv6 ip :=
        fun h => absurd (IpAddr.isAddrChar_of_mem_displayIpv6 h) (by decide)
      have htext : formatDest (.v6 ip) port = '[' :: (IpAddr.displayIpv6 ip ++
          ']' :: ':' :: Str.ofNat port.toNat) := by
        simp [formatDest, IpAddr.display]
      have hopen : ∀ s, Str.stripPrefix '[' ('[' :: s) = some s := fun s => rfl
      have hclose : ∀ s, Str.stripStr "]:".toList (']' :: ':' :: s) = some s := fun s => rfl
      rw [readDest, htext, hopen]
      simp only [Str.upTo_append hbracket, IpAddr.parseIpv6_displayIpv6, hclose,
        Str.parseU16_ofNat_toNat, Option.bind_eq_bind, Option.bind_some, Option.pure_def]

/-- The line of a rule, without its newline. -/
def ruleText (r : NatRule) : Str :=
  "        ".toList ++ (protoStr r.proto ++ (" dport ".toList ++ (Str.ofNat r.dport.toNat ++
    (" counter comment \"".toList ++ (r.comment ++ ("\" dnat to ".toList ++
      formatDest r.destIp r.destPort))))))

theorem ruleLine_eq (r : NatRule) : ruleLine r = ruleText r ++ ['\n'] := by
  unfold ruleLine ruleText
  simp only [List.append_assoc]

/-- **A rule is read back from its line**, if its comment ends where the quotes end. -/
theorem readRule_ruleText {r : NatRule} (h : '"' ∉ r.comment) : readRule (ruleText r) = some r := by
  have hblank : ' ' ∉ Str.ofNat r.dport.toNat :=
    fun hn => absurd (Str.isDigit_of_mem_ofNat hn) (by decide)
  have hport : ∀ s, Str.upTo ' ' (Str.ofNat r.dport.toNat ++ (" counter comment \"".toList ++ s)) =
      (Str.ofNat r.dport.toNat, " counter comment \"".toList ++ s) :=
    fun s => Str.upTo_append hblank _
  have hcomment : ∀ s, Str.upTo '"' (r.comment ++ ("\" dnat to ".toList ++ s)) =
      (r.comment, "\" dnat to ".toList ++ s) :=
    fun s => Str.upTo_append h _
  unfold readRule ruleText
  simp only [Str.stripStr_append, readProto_protoStr, hport, hcomment, Str.parseU16_ofNat_toNat,
    readDest_formatDest, Option.bind_eq_bind, Option.bind_some, Option.pure_def]

/-! ## The lines of a table -/

def postRuleText : PostRule → Str
  | .masqueradeDnat => masqueradeLine

def familyText (f : Family) : Str := "table ".toList ++ f.asStr ++ " gust \x7b".toList

def tableLines (t : Decoded) : List Str :=
  familyText t.family :: preroutingLine :: dstnatLine ::
    (t.prerouting.map ruleText ++ chainEnd :: postroutingLine :: srcnatLine ::
      (t.postrouting.map postRuleText ++ [chainEnd, tableEnd]))

section

variable {ρ : Type} {read : Str → Option ρ} {text : ρ → Str} {rs : List ρ}

theorem readRules_map (hread : ∀ r ∈ rs, read (text r) = some r)
    (hclose : read chainEnd = none) (ls : List Str) :
    readRules read (rs.map text ++ chainEnd :: ls) = some (rs, ls) := by
  induction rs with
  | nil => rw [List.map_nil, List.nil_append, readRules, hclose, if_pos rfl]
  | cons r rs ih =>
      have htail := ih fun r' hr' => hread r' (List.mem_cons_of_mem r hr')
      simp only [List.map_cons, List.cons_append, readRules, hread r List.mem_cons_self, htail,
        Option.map_some]

end

theorem readFamily_familyText (f : Family) : readFamily (familyText f) = some f := by
  cases f <;> decide

theorem readTable_tableLines {t : Decoded} (h : ∀ r ∈ t.prerouting, '"' ∉ r.comment)
    (ls : List Str) : readTable (tableLines t ++ ls) = some (t, ls) := by
  have hpre : ∀ rest, readRules readRule (t.prerouting.map ruleText ++ chainEnd :: rest) =
      some (t.prerouting, rest) :=
    readRules_map (fun r hr => readRule_ruleText (h r hr)) rfl
  have hclose : chainEnd ≠ masqueradeLine := by
    unfold chainEnd masqueradeLine
    simp
  have hpost : ∀ rest, readRules readPostRule
      (t.postrouting.map postRuleText ++ chainEnd :: rest) = some (t.postrouting, rest) :=
    readRules_map (fun r _ => by cases r; exact if_pos rfl) (if_neg hclose)
  simp only [tableLines, List.cons_append, List.append_assoc, readTable, readFamily_familyText,
    readChain, and_self, if_true, hpre, hpost, Option.bind_eq_bind, Option.bind_some,
    List.nil_append]

theorem readTables_flatMap {ts : List Decoded} (h : ∀ t ∈ ts, ∀ r ∈ t.prerouting, '"' ∉ r.comment)
    {n : ℕ} (hn : ts.length ≤ n) : readTables n (ts.flatMap tableLines) = some ts := by
  induction ts generalizing n with
  | nil =>
      cases n <;> rfl
  | cons t ts ih =>
      obtain ⟨n, rfl⟩ : ∃ m, n = m + 1 := Nat.exists_eq_add_one.mpr (Nat.zero_lt_of_lt hn)
      have hread := readTable_tableLines (h t List.mem_cons_self) (ts.flatMap tableLines)
      have htail := ih (fun u hu => h u (List.mem_cons_of_mem t hu)) (Nat.le_of_succ_le_succ hn)
      have hlines : ∃ l ls, tableLines t ++ ts.flatMap tableLines = l :: ls := ⟨_, _, rfl⟩
      obtain ⟨l, ls, hlines⟩ := hlines
      rw [hlines] at hread
      simp only [List.flatMap_cons, hlines, readTables, hread, htail, Option.bind_eq_bind,
        Option.bind_some, Option.pure_def]

/-! ## The emitted text -/

/-- The table of one family, if there are rules for it. -/
def tableOf (rules : List NatRule) (f : Family) : Option Decoded :=
  if (rulesOf rules f).isEmpty then none else some ⟨f, rulesOf rules f, [.masqueradeDnat]⟩

/-- What a list of rules is to be read as. -/
def describe (rules : List NatRule) : List Decoded :=
  (tableOf rules .ip).toList ++ (tableOf rules .ip6).toList

theorem tableHead_eq_unlines (f : Family) :
    tableHead f.asStr = Str.unlines [familyText f, preroutingLine, dstnatLine] := by
  have hopen : familyText f ++ ['\n'] =
      "table ".toList ++ f.asStr ++ ' ' :: tableName ++ " \x7b\n".toList := by
    have hlit : " gust \x7b".toList ++ ['\n'] = ' ' :: tableName ++ " \x7b\n".toList := by decide
    unfold familyText
    simp only [List.append_assoc, hlit]
  have hchain : preroutingLine ++ ['\n'] = "    chain prerouting \x7b\n".toList := by
    unfold preroutingLine
    simp
  have hhook : dstnatLine ++ ['\n'] =
      "        type nat hook prerouting priority dstnat; policy accept;\n".toList := by
    unfold dstnatLine
    simp
  unfold tableHead
  rw [Str.unlines, List.flatMap_cons, List.flatMap_cons, List.flatMap_cons, List.flatMap_nil,
    List.append_nil, hopen, hchain, hhook]
  simp only [List.append_assoc]

theorem tableFoot_eq_unlines : tableFoot = Str.unlines [chainEnd, postroutingLine, srcnatLine,
    masqueradeLine, chainEnd, tableEnd] := by
  have hclose : chainEnd ++ ['\n'] = "    \x7d\n".toList := by
    unfold chainEnd
    simp
  have hchain : postroutingLine ++ ['\n'] = "    chain postrouting \x7b\n".toList := by
    unfold postroutingLine
    simp
  have hhook : srcnatLine ++ ['\n'] =
      "        type nat hook postrouting priority srcnat; policy accept;\n".toList := by
    unfold srcnatLine
    simp
  have hrule : masqueradeLine ++ ['\n'] =
      "        ct status dnat counter masquerade fully-random\n".toList := by
    unfold masqueradeLine
    simp
  have hend : tableEnd ++ ['\n'] = "\x7d\n".toList := by
    unfold tableEnd
    simp
  unfold tableFoot
  rw [Str.unlines, List.flatMap_cons, List.flatMap_cons, List.flatMap_cons, List.flatMap_cons,
    List.flatMap_cons, List.flatMap_cons, List.flatMap_nil, List.append_nil, hclose, hchain, hhook,
    hrule, hend]
  simp only [List.append_assoc]

theorem buildTable_eq_unlines (f : Family) (rules : List NatRule) :
    buildTable f.asStr rules = Str.unlines (tableLines ⟨f, rules, [.masqueradeDnat]⟩) := by
  have hrules : rules.flatMap ruleLine = Str.unlines (rules.map ruleText) := by
    rw [Str.unlines, List.flatMap_map]
    exact List.flatMap_congr fun r _ => ruleLine_eq r
  rw [buildTable, tableHead_eq_unlines, tableFoot_eq_unlines, hrules, ← Str.unlines_append,
    ← Str.unlines_append]
  simp only [tableLines, List.map_cons, List.map_nil, List.cons_append, List.nil_append,
    postRuleText]

theorem buildRuleset_eq_unlines (rules : List NatRule) :
    buildRuleset rules = Str.unlines ((describe rules).flatMap tableLines) := by
  have htable : ∀ f, (if (rulesOf rules f).isEmpty then []
      else buildTable f.asStr (rulesOf rules f)) =
        Str.unlines ((tableOf rules f).toList.flatMap tableLines) := by
    intro f
    rw [tableOf]
    split
    · rfl
    · rw [buildTable_eq_unlines, Option.toList_some, List.flatMap_singleton]
  rw [buildRuleset, htable .ip, htable .ip6, ← Str.unlines_append, ← List.flatMap_append, describe]

/-- No comment contains a quote or a newline. -/
def PlainComments (rules : List NatRule) : Prop := ∀ r ∈ rules, '"' ∉ r.comment ∧ '\n' ∉ r.comment

theorem newline_notMem_ruleText {r : NatRule} (h : '\n' ∉ r.comment) : '\n' ∉ ruleText r := by
  have hdigits : ∀ n, '\n' ∉ Str.ofNat n :=
    fun n hn => absurd (Str.isDigit_of_mem_ofNat hn) (by decide)
  have hdisplay : ∀ ip : IpAddr, '\n' ∉ ip.display :=
    fun ip hn => absurd (IpAddr.isAddrChar_of_mem_display hn) (by decide)
  have hproto : '\n' ∉ protoStr r.proto := by
    cases r.proto <;> decide
  have hdest : '\n' ∉ formatDest r.destIp r.destPort := by
    cases hip : r.destIp with
    | v4 ip => simp [formatDest, hdigits, hdisplay]
    | v6 ip => simp [formatDest, hdigits, hdisplay]
  have hlit : '\n' ∉ "        ".toList ∧ '\n' ∉ " dport ".toList ∧
      '\n' ∉ " counter comment \"".toList ∧ '\n' ∉ "\" dnat to ".toList := by decide
  unfold ruleText
  simp only [List.mem_append, hlit, hproto, hdigits, h, hdest, or_self, not_false_eq_true]

theorem newline_notMem_tableLines {t : Decoded} (h : ∀ r ∈ t.prerouting, '\n' ∉ r.comment) :
    ∀ l ∈ tableLines t, '\n' ∉ l := by
  have hfamily : '\n' ∉ familyText t.family := by
    unfold familyText
    cases t.family <;> simp [Family.asStr]
  have hfixed : '\n' ∉ preroutingLine ∧ '\n' ∉ dstnatLine ∧ '\n' ∉ postroutingLine ∧
      '\n' ∉ srcnatLine ∧ '\n' ∉ chainEnd ∧ '\n' ∉ tableEnd := by
    unfold preroutingLine dstnatLine postroutingLine srcnatLine chainEnd tableEnd
    simp
  have hpost : ∀ r, '\n' ∉ postRuleText r := by
    intro r
    cases r
    unfold postRuleText masqueradeLine
    simp
  have hpre : ∀ l ∈ t.prerouting.map ruleText, '\n' ∉ l := by
    intro l hl
    obtain ⟨r, hr, rfl⟩ := List.mem_map.mp hl
    exact newline_notMem_ruleText (h r hr)
  have hpost' : ∀ l ∈ t.postrouting.map postRuleText, '\n' ∉ l := by
    intro l hl
    obtain ⟨r, -, rfl⟩ := List.mem_map.mp hl
    exact hpost r
  obtain ⟨hprerouting, hdstnat, hpostrouting, hsrcnat, hchainEnd, htableEnd⟩ := hfixed
  simp only [tableLines, List.forall_mem_cons, List.forall_mem_append]
  exact ⟨hfamily, hprerouting, hdstnat, hpre, hchainEnd, hpostrouting, hsrcnat, hpost', hchainEnd,
    htableEnd, nofun⟩

/-- The tables, one by one. -/
theorem mem_describe {rules : List NatRule} {t : Decoded} : t ∈ describe rules ↔
    rulesOf rules t.family ≠ [] ∧ t.prerouting = rulesOf rules t.family ∧
      t.postrouting = [.masqueradeDnat] := by
  have htable : ∀ f, t ∈ (tableOf rules f).toList ↔ rulesOf rules f ≠ [] ∧
      t = ⟨f, rulesOf rules f, [.masqueradeDnat]⟩ := by
    intro f
    rw [tableOf]
    split
    · rename_i hempty
      simp [List.isEmpty_iff.mp hempty]
    · rename_i hempty
      simp [mt List.isEmpty_iff.mpr hempty]
  obtain ⟨f, pre, post⟩ := t
  rw [describe, List.mem_append, htable, htable]
  cases f <;> simp

theorem length_le_flatMap (ts : List Decoded) : ts.length ≤ (ts.flatMap tableLines).length := by
  rw [List.length_flatMap, ← List.length_map (f := fun t => (tableLines t).length)]
  refine List.length_le_sum_of_one_le _ ?_
  intro n hn
  obtain ⟨t, -, rfl⟩ := List.mem_map.mp hn
  simp [tableLines]

/-- **Decoding gives back what was described.** -/
theorem decode_buildRuleset {rules : List NatRule} (h : PlainComments rules) :
    decode (buildRuleset rules) = some (describe rules) := by
  have hrules : ∀ t ∈ describe rules, ∀ r ∈ t.prerouting, '"' ∉ r.comment ∧ '\n' ∉ r.comment := by
    intro t ht r hr
    rw [(mem_describe.mp ht).2.1, rulesOf_eq_filter] at hr
    exact h r (List.mem_filter.mp hr).1
  have hlines : ∀ l ∈ (describe rules).flatMap tableLines, '\n' ∉ l := by
    intro l hl
    obtain ⟨t, ht, hl⟩ := List.mem_flatMap.mp hl
    exact newline_notMem_tableLines (fun r hr => (hrules t ht r hr).2) l hl
  rw [decode, buildRuleset_eq_unlines, Str.lines_unlines hlines]
  exact readTables_flatMap (fun t ht r hr => (hrules t ht r hr).1) (length_le_flatMap _)

theorem rulesOf_eq_flatMap_describe (rules : List NatRule) (f : Family) :
    rulesOf rules f = ((describe rules).filter fun t => t.family == f).flatMap
      Decoded.prerouting := by
  have htable : ∀ g, ((tableOf rules g).toList.filter fun t => t.family == f).flatMap
      Decoded.prerouting = if g = f then rulesOf rules g else [] := by
    intro g
    rw [tableOf]
    split
    · rename_i hempty
      simp [List.isEmpty_iff.mp hempty]
    · by_cases hgf : g = f <;> simp [hgf]
  rw [describe, List.filter_append, List.flatMap_append, htable, htable]
  cases f <;> simp

/-- The families of the tables, in order. -/
theorem family_describe (rules : List NatRule) :
    ((describe rules).map Decoded.family).Sublist [.ip, .ip6] := by
  have htable : ∀ f, ((tableOf rules f).toList.map Decoded.family).Sublist [f] := by
    intro f
    rw [tableOf]
    split <;> simp
  rw [describe, List.map_append]
  exact (htable .ip).append (htable .ip6)

theorem mem_family_describe {rules : List NatRule} {f : Family} :
    f ∈ (describe rules).map Decoded.family ↔ ∃ r ∈ rules, familyOf r.destIp = f := by
  have hne : rulesOf rules f ≠ [] ↔ ∃ r ∈ rules, familyOf r.destIp = f := by
    simp [rulesOf_eq_filter]
  rw [List.mem_map, ← hne]
  constructor
  · rintro ⟨t, ht, rfl⟩
    exact (mem_describe.mp ht).1
  · intro hrules
    exact ⟨⟨f, rulesOf rules f, [.masqueradeDnat]⟩, mem_describe.mpr ⟨hrules, rfl, rfl⟩, rfl⟩

/-- The text determines the rules of each family. -/
theorem buildRuleset_inj {rules rules' : List NatRule} (h : PlainComments rules)
    (h' : PlainComments rules') : buildRuleset rules = buildRuleset rules' ↔
      rulesOf rules .ip = rulesOf rules' .ip ∧ rulesOf rules .ip6 = rulesOf rules' .ip6 := by
  constructor
  · intro htext
    have hdescribe : describe rules = describe rules' := by
      apply Option.some.inj
      rw [← decode_buildRuleset h, htext, decode_buildRuleset h']
    have hrules : ∀ f, rulesOf rules f = rulesOf rules' f := by
      intro f
      rw [rulesOf_eq_flatMap_describe, hdescribe, ← rulesOf_eq_flatMap_describe]
    exact ⟨hrules .ip, hrules .ip6⟩
  · rintro ⟨hip, hip6⟩
    rw [buildRuleset, buildRuleset, hip, hip6]

theorem plainComments_buildRules {lookup : Lookup} {cfg : Config} {rules : List NatRule}
    (h : buildRules lookup cfg = .ok rules) : PlainComments rules := by
  intro r hr
  obtain ⟨i, l, -, t, host, port, ip, -, -, -, rfl⟩ := exists_listener_of_rule h hr
  constructor
  · intro hquote
    exact absurd (isCommentChar_of_mem_comment hquote) (by decide)
  · intro hnewline
    exact absurd (isCommentChar_of_mem_comment hnewline) (by decide)

/-- **The text loses nothing and lets nothing in.** Whatever the rules, as long as no
comment contains a quote or a newline: the text is read back as a table for each family
that a rule has, with exactly the rules of that family in their order, and one rule that
masquerades what was rewritten. So two lists of rules give the same text if and only if
they agree on each family. The rules of every configuration have such comments. -/
theorem ruleset_lossless :
    (∀ rules, PlainComments rules → ∃ tables, decode (buildRuleset rules) = some tables ∧
      (tables.map Decoded.family).Sublist [.ip, .ip6] ∧
      (∀ f, f ∈ tables.map Decoded.family ↔ ∃ r ∈ rules, familyOf r.destIp = f) ∧
      ∀ t ∈ tables, t.prerouting = rules.filter (fun r => familyOf r.destIp == t.family) ∧
        t.postrouting = [.masqueradeDnat]) ∧
    (∀ rules rules', PlainComments rules → PlainComments rules' →
      (buildRuleset rules = buildRuleset rules' ↔
        rulesOf rules .ip = rulesOf rules' .ip ∧ rulesOf rules .ip6 = rulesOf rules' .ip6)) ∧
    ∀ lookup cfg rules, buildRules lookup cfg = .ok rules → PlainComments rules := by
  refine ⟨?_, fun rules rules' h h' => buildRuleset_inj h h',
    fun lookup cfg rules h => plainComments_buildRules h⟩
  intro rules h
  refine ⟨describe rules, decode_buildRuleset h, family_describe rules,
    fun f => mem_family_describe, ?_⟩
  intro t ht
  obtain ⟨-, hpre, hpost⟩ := mem_describe.mp ht
  rw [← rulesOf_eq_filter]
  exact ⟨hpre, hpost⟩

/-- A comment that looks like the rest of a rule, and a rule of the other family. -/
theorem ruleset_lossless_injection :
    ∃ tables, decode (buildRuleset
        [⟨.tcp, 80, .v4 ⟨10, 0, 0, 1⟩, 8080, " dnat to 9.9.9.9:53 \x7d".toList⟩,
          ⟨.udp, 53, .v6 ⟨[0x2001, 0xDB8, 0, 0, 0, 0, 0, 1], rfl⟩, 53, []⟩]) = some tables ∧
      (.ip ∈ tables.map Decoded.family ∧ .ip6 ∈ tables.map Decoded.family) ∧
      ∀ t ∈ tables, t.prerouting.length = 1 ∧ t.postrouting = [.masqueradeDnat] := by
  have hplain : PlainComments
      [⟨.tcp, 80, .v4 ⟨10, 0, 0, 1⟩, 8080, " dnat to 9.9.9.9:53 \x7d".toList⟩,
        ⟨.udp, 53, .v6 ⟨[0x2001, 0xDB8, 0, 0, 0, 0, 0, 1], rfl⟩, 53, []⟩] := by
    unfold PlainComments
    decide
  obtain ⟨tables, hdecode, -, hfamily, htables⟩ := ruleset_lossless.1 _ hplain
  refine ⟨tables, hdecode, ⟨(hfamily .ip).mpr (by decide), (hfamily .ip6).mpr (by decide)⟩, ?_⟩
  intro t ht
  obtain ⟨hpre, hpost⟩ := htables t ht
  refine ⟨?_, hpost⟩
  rw [hpre]
  cases t.family <;> rfl

end Gust.Nat
