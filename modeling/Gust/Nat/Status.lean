import Mathlib.Data.UInt
import Gust.Lib.Json
import Gust.Nat.Forwarding

/-!
# NAT status

The counters of NAT mode live in the kernel. A dump or a heartbeat asks `nft` for a listing of
the table in JSON and picks out, for every rule with one of the program's comments, the
comment and the first counter.

The listing comes from `nft` and its reading from a JSON library; both are parameters here.
About `nft`, `Lists` says what its manual does: an absent table is an error, and of a present
one the rules are listed, each with its comment and its counter, among items of other kinds.

Rules are installed in one table per family, but only the table of family `ip` is ever
listed. `status_covers_iff` says for which rules that is enough. What is listed is read
without loss (`parseCounters_listing`).
-/

namespace Gust.Nat

open Gust.Lib

/-! ## Reading a listing -/

/-- A single rule's counter, identified by the comment attached to it. -/
structure CounterStat where
  comment : Str
  packets : UInt64
  bytes : UInt64
  deriving DecidableEq, Repr

/-- What all comments of the program begin with. -/
def commentMark : Str := "gust:".toList

/-- The loop over the expressions of a rule, up to its `break`. -/
def firstCounter (comment : Str) : List Json → Option CounterStat
  | [] => none
  | e :: exprs =>
      match e.get "counter" with
      | some counter =>
          some ⟨comment, ((counter.get "packets").bind Json.asU64).getD 0,
            ((counter.get "bytes").bind Json.asU64).getD 0⟩
      | none => firstCounter comment exprs

/-- A rule's comment; one that is missing or not a string counts as empty. -/
def commentOf (rule : Json) : Str := ((rule.get "comment").bind Json.asStr).getD []

/-- One turn of the loop over the items: what it pushes, if it does not `continue`. -/
def parseItem (item : Json) : Option CounterStat :=
  match item.get "rule" with
  | none => none
  | some rule =>
      if commentMark.isPrefixOf (commentOf rule) then
        match (rule.get "expr").bind Json.asArray with
        | none => none
        | some exprs => firstCounter (commentOf rule) exprs
      else none

/-- The counters of a listing; `fromStr` is the JSON parser. -/
def parseCounters (fromStr : Str → Option Json) (json : Str) : List CounterStat :=
  match fromStr json with
  | none => []
  | some root =>
      match (root.get "nftables").bind Json.asArray with
      | none => []
      | some items => items.filterMap parseItem

/-! ## Asking for it -/

/-- Outcome of an `nft` invocation. -/
structure NftOutcome where
  success : Bool
  stdout : Str
  stderr : Str
  deriving DecidableEq, Repr

/-- The arguments that list one of the tables as JSON. -/
def listArgs (f : Family) : List Str :=
  ["-j".toList, "list".toList, "table".toList, f.asStr, tableName]

/-- The listing of the `ip` table, or `none` if the table is absent or `nft` is unavailable. -/
def listJson (runNft : List Str → Outcome IoError NftOutcome) : Option Str :=
  match runNft (listArgs .ip) with
  | .ok out => if out.success then some out.stdout else none
  | _ => none

section

variable (fromStr : Str → Option Json) (runNft : List Str → Outcome IoError NftOutcome)

/-- What both reports start from. -/
def natStatus : Option (List CounterStat) := (listJson runNft).map (parseCounters fromStr)

def statLine (s : CounterStat) : Str :=
  s.comment ++ " packets=".toList ++ Str.ofNat s.packets.toNat ++ " bytes=".toList ++
    Str.ofNat s.bytes.toNat

/-- The lines logged on a signal. -/
def dumpStatus : List Str :=
  match natStatus fromStr runNft with
  | some stats => ("--- NAT status (".toList ++ Str.ofNat stats.length ++ " tunnels) ---".toList) ::
      stats.map statLine
  | none => ["NAT status unavailable (table missing or nft error)".toList]

/-- The line logged once per interval; the sums are those of a release build. -/
def heartbeatLine : Str :=
  match natStatus fromStr runNft with
  | some stats => "heartbeat(nat): tunnels=".toList ++ Str.ofNat stats.length ++
      " packets=".toList ++ Str.ofNat (stats.map CounterStat.packets).sum.toNat ++
      " bytes=".toList ++ Str.ofNat (stats.map CounterStat.bytes).sum.toNat
  | none => "heartbeat(nat): table missing".toList

end

/-! ## What a listing shows -/

/-- The values of a counter. -/
structure Counts where
  packets : UInt64
  bytes : UInt64
  deriving DecidableEq, Repr

/-- A rule of a table, as far as a listing shows it. -/
structure Entry where
  comment : Option Str
  counts : Counts
  deriving DecidableEq, Repr

/-- Exactly one of the expressions is a counter, and it has these values. -/
inductive ShowsCounter (c : Counts) : List Json → Prop
  | here {e obj : Json} {exprs : List Json} (hcounter : e.get "counter" = some obj)
      (hpackets : obj.get "packets" = some (.number (.posInt c.packets)))
      (hbytes : obj.get "bytes" = some (.number (.posInt c.bytes)))
      (hrest : ∀ e' ∈ exprs, e'.get "counter" = none) : ShowsCounter c (e :: exprs)
  | there {e : Json} {exprs : List Json} (hcounter : e.get "counter" = none)
      (hrest : ShowsCounter c exprs) : ShowsCounter c (e :: exprs)

/-- The item shows the rule, with its comment and its counter. -/
def ShowsRule (entry : Entry) (item : Json) : Prop :=
  ∃ rule exprs, item.get "rule" = some rule ∧
    rule.get "comment" = entry.comment.map .string ∧
    rule.get "expr" = some (.array exprs) ∧ ShowsCounter entry.counts exprs

/-- The item is a rule with one of the program's comments. -/
def IsMarked (item : Json) : Prop :=
  ∃ rule, item.get "rule" = some rule ∧ commentMark.isPrefixOf (commentOf rule) = true

/-- The items show the rules in order, among others that carry no mark. -/
inductive Listing : List Entry → List Json → Prop
  | nil : Listing [] []
  | rule {entry : Entry} {item : Json} {entries : List Entry} {items : List Json}
      (hitem : ShowsRule entry item) (hrest : Listing entries items) :
      Listing (entry :: entries) (item :: items)
  | other {item : Json} {entries : List Entry} {items : List Json} (hitem : ¬ IsMarked item)
      (hrest : Listing entries items) : Listing entries (item :: items)

/-- The counter of a marked rule, as it should be reported. -/
def Entry.stat (entry : Entry) : Option CounterStat :=
  match entry.comment with
  | some comment =>
      if commentMark.isPrefixOf comment then
        some ⟨comment, entry.counts.packets, entry.counts.bytes⟩
      else none
  | none => none

theorem firstCounter_of_showsCounter {c : Counts} {exprs : List Json} (h : ShowsCounter c exprs)
    (comment : Str) : firstCounter comment exprs = some ⟨comment, c.packets, c.bytes⟩ := by
  induction h with
  | here hcounter hpackets hbytes hrest =>
      simp only [firstCounter, hcounter, hpackets, hbytes, Option.bind_some, Json.asU64_posInt,
        Option.getD_some]
  | there hcounter hrest ih =>
      simp only [firstCounter, hcounter]
      exact ih

/-- Only the rule item itself decides what is pushed for it. -/
theorem parseItem_of_showsRule {entry : Entry} {item : Json} (h : ShowsRule entry item) :
    parseItem item = entry.stat := by
  obtain ⟨rule, exprs, hrule, hcomment, hexprs, hcounter⟩ := h
  simp only [parseItem, hrule, commentOf, hcomment, hexprs, Entry.stat, Option.bind_some,
    Json.asArray_array, firstCounter_of_showsCounter hcounter]
  cases entry.comment with
  | none => rfl
  | some comment => rfl

theorem parseItem_of_not_isMarked {item : Json} (h : ¬ IsMarked item) : parseItem item = none := by
  rw [parseItem]
  split
  · rfl
  · rename_i rule hrule
    rw [if_neg fun hmark => h ⟨rule, hrule, hmark⟩]

theorem filterMap_parseItem {entries : List Entry} {items : List Json}
    (h : Listing entries items) : items.filterMap parseItem = entries.filterMap Entry.stat := by
  induction h with
  | nil => rfl
  | rule hitem hrest ih => rw [List.filterMap_cons, List.filterMap_cons, ih,
      parseItem_of_showsRule hitem]
  | other hitem hrest ih => rw [List.filterMap_cons, parseItem_of_not_isMarked hitem, ih]

/-! ## Tables and their listings -/

/-- A table of the program, with its counters. -/
structure GustTable where
  dnat : List (NatRule × Counts)
  masquerade : Counts

def GustTable.rules (t : GustTable) : List NatRule := t.dnat.map Prod.fst

/-- The rules of both chains. Only those of `prerouting` have a comment. -/
def GustTable.entries (t : GustTable) : List Entry :=
  t.dnat.map (fun rule => ⟨some rule.1.comment, rule.2⟩) ++ [⟨none, t.masquerade⟩]

/-- How `nft -j list table` answers for these tables: it fails for one that is absent, and
otherwise lists every rule with its comment and counter. -/
structure Lists (fromStr : Str → Option Json) (runNft : List Str → Outcome IoError NftOutcome)
    (tables : Family → Option GustTable) : Prop where
  absent : ∀ f out, tables f = none → runNft (listArgs f) = .ok out → out.success = false
  present : ∀ f t, tables f = some t → ∃ out root items entries,
    runNft (listArgs f) = .ok out ∧ out.success = true ∧ fromStr out.stdout = some root ∧
      root.get "nftables" = some (.array items) ∧ Listing entries items ∧
      entries.Perm t.entries

/-- The tables that `build_ruleset` writes down for the rules. -/
def declared (rules : List NatRule) (f : Family) : Option (List NatRule) :=
  if (rulesOf rules f).isEmpty then none else some (rulesOf rules f)

/-- All rewriting rules of the tables, with their counters. -/
def installed (tables : Family → Option GustTable) : List (NatRule × Counts) :=
  ((tables .ip).map GustTable.dnat).getD [] ++ ((tables .ip6).map GustTable.dnat).getD []

/-- What the report has to say about a rule. -/
def ruleStat (rule : NatRule × Counts) : CounterStat :=
  ⟨rule.1.comment, rule.2.packets, rule.2.bytes⟩

/-- The status is available and has one entry per rule, and no other. -/
def ReportsAll (tables : Family → Option GustTable) (status : Option (List CounterStat)) : Prop :=
  ∃ stats, status = some stats ∧ stats.Perm ((installed tables).map ruleStat)

/-- Every rule of the tables has one of the program's comments. -/
def Marked (rules : List NatRule) : Prop :=
  ∀ r ∈ rules, commentMark.isPrefixOf r.comment = true

theorem marked_of_buildRules {lookup : Lookup} {cfg : Config} {rules : List NatRule}
    (h : buildRules lookup cfg = .ok rules) : Marked rules := by
  intro r hr
  obtain ⟨i, l, -, t, host, port, ip, -, -, -, rfl⟩ := exists_listener_of_rule h hr
  rw [List.isPrefixOf_iff_prefix]
  simp only [natRule, List.append_assoc]
  exact List.prefix_append _ _

/-- The masquerade rule has no comment, so it is not reported. -/
theorem filterMap_stat_entries {t : GustTable} (h : Marked t.rules) :
    t.entries.filterMap Entry.stat = t.dnat.map ruleStat := by
  rw [GustTable.entries, List.filterMap_append, List.filterMap_map]
  have hdnat : t.dnat.filterMap (Entry.stat ∘ fun rule => ⟨some rule.1.comment, rule.2⟩) =
      t.dnat.filterMap (some ∘ ruleStat) := by
    refine List.filterMap_congr fun rule hrule => ?_
    exact if_pos (h rule.1 (List.mem_map_of_mem hrule))
  rw [hdnat, List.filterMap_eq_map]
  exact List.append_nil _

section

variable {fromStr : Str → Option Json} {runNft : List Str → Outcome IoError NftOutcome}
variable {tables : Family → Option GustTable}

theorem natStatus_of_absent (h : Lists fromStr runNft tables) (hip : tables .ip = none) :
    natStatus fromStr runNft = none := by
  rw [natStatus, listJson]
  split
  · rename_i out hout
    rw [h.absent .ip out hip hout]
    rfl
  · rfl

/-- The status is that of the `ip` table, whatever the other table holds. -/
theorem natStatus_of_present (h : Lists fromStr runNft tables) {t : GustTable}
    (hip : tables .ip = some t) (hmarked : Marked t.rules) :
    ∃ stats, natStatus fromStr runNft = some stats ∧ stats.Perm (t.dnat.map ruleStat) := by
  obtain ⟨out, root, items, entries, hout, hsuccess, hroot, hitems, hlisting, hperm⟩ :=
    h.present .ip t hip
  refine ⟨items.filterMap parseItem, ?_, ?_⟩
  · simp only [natStatus, listJson, hout, hsuccess, if_true, Option.map_some, parseCounters, hroot,
      hitems, Option.bind_some, Json.asArray_array]
  · rw [filterMap_parseItem hlisting, ← filterMap_stat_entries hmarked]
    exact hperm.filterMap _

/-- So the status covers the rules exactly if there is a table of family `ip` and it holds
them all. -/
theorem reportsAll_natStatus_iff (h : Lists fromStr runNft tables)
    (hmarked : ∀ t, tables .ip = some t → Marked t.rules) :
    ReportsAll tables (natStatus fromStr runNft) ↔
      tables .ip ≠ none ∧ ((tables .ip6).map GustTable.dnat).getD [] = [] := by
  cases hip : tables .ip with
  | none =>
      rw [natStatus_of_absent h hip]
      simp [ReportsAll]
  | some t =>
      obtain ⟨stats, hstats, hperm⟩ := natStatus_of_present h hip (hmarked t hip)
      have hinstalled : installed tables =
          t.dnat ++ ((tables .ip6).map GustTable.dnat).getD [] := by
        rw [installed, hip]
        rfl
      rw [ReportsAll, hinstalled]
      constructor
      · rintro ⟨stats', hstats', hperm'⟩
        refine ⟨Option.some_ne_none t, ?_⟩
        rw [hstats, Option.some.injEq] at hstats'
        subst hstats'
        -- the counters of the other table would be missing
        have hlength := (hperm.symm.trans hperm').length_eq
        simp only [List.length_map, List.length_append] at hlength
        exact List.length_eq_zero_iff.mp (by omega)
      · rintro ⟨-, hip6⟩
        rw [hip6, List.append_nil]
        exact ⟨stats, hstats, hperm⟩

end

theorem perm_rulesOf (rules : List NatRule) :
    (rulesOf rules .ip ++ rulesOf rules .ip6).Perm rules := by
  simp only [rulesOf, IpAddr.isIpv6]
  exact List.filter_append_perm (fun r => r.destIp.isIpv4) rules

theorem map_rules_getD {tables : Family → Option GustTable} {rules : List NatRule} {f : Family}
    (h : (tables f).map GustTable.rules = declared rules f) :
    (((tables f).map GustTable.dnat).getD []).map Prod.fst = rulesOf rules f := by
  rw [declared] at h
  cases ht : tables f with
  | none =>
      simp only [ht, Option.map_none] at h
      split at h
      · rename_i hempty
        exact (List.isEmpty_iff.mp hempty).symm
      · cases h
  | some t =>
      simp only [ht, Option.map_some] at h
      split at h
      · cases h
      · exact Option.some.inj h

/-- **The status covers every tunnel if and only if every destination is an IPv4 address.**
The tables are those of a ruleset that `nft` took over after the startup cleanup, with any
counters since then. -/
theorem status_covers_iff {φ : Type} {lookup : Lookup} {cfg : Config} {rules : List NatRule}
    (hrules : buildRules lookup cfg = .ok rules) (hne : rules ≠ [])
    {nft : Nft (List NatRule) φ}
    (hnft : ∀ f, nft.describe (buildRuleset rules) f = declared rules f)
    (k : Kernel (List NatRule) φ) {tables : Family → Option GustTable}
    (htables : ∀ f, (tables f).map GustTable.rules =
      (apply nft (buildRuleset rules) (deleteTables k)).gust f)
    {fromStr : Str → Option Json} {runNft : List Str → Outcome IoError NftOutcome}
    (hlist : Lists fromStr runNft tables) :
    ((installed tables).map Prod.fst).Perm rules ∧
      (ReportsAll tables (natStatus fromStr runNft) ↔ ∀ r ∈ rules, r.destIp.isIpv4 = true) := by
  have hdeclared : ∀ f, (tables f).map GustTable.rules = declared rules f := by
    intro f
    rw [htables, gust_apply_of_none (gust_deleteTables k f), hnft]
  have hmarked : ∀ t, tables .ip = some t → Marked t.rules := by
    intro t ht r hr
    have hrulesOf := map_rules_getD (hdeclared .ip)
    simp only [ht, Option.map_some, Option.getD_some] at hrulesOf
    rw [GustTable.rules, hrulesOf, rulesOf_eq_filter] at hr
    exact marked_of_buildRules hrules r (List.mem_filter.mp hr).1
  refine ⟨?_, ?_⟩
  · rw [installed, List.map_append, map_rules_getD (hdeclared .ip), map_rules_getD (hdeclared .ip6)]
    exact perm_rulesOf rules
  · have hip6 : ((tables .ip6).map GustTable.dnat).getD [] = [] ↔ rulesOf rules .ip6 = [] := by
      rw [← map_rules_getD (hdeclared .ip6), List.map_eq_nil_iff]
    rw [reportsAll_natStatus_iff hlist hmarked, hip6, rulesOf_ip6_eq_nil_iff]
    refine and_iff_right_of_imp fun hall hnone => hne ?_
    -- without IPv6 rules, an absent `ip` table means that there are no rules at all
    have hip := map_rules_getD (hdeclared .ip)
    rw [hnone] at hip
    have hperm := perm_rulesOf rules
    rw [rulesOf_ip6_eq_nil_iff.mpr hall, ← hip] at hperm
    exact hperm.symm.eq_nil

/-! ## Two listings -/

/-- `nft` as it reads the ruleset of these rules. -/
def nftOf (rules : List NatRule) : Nft (List NatRule) Unit where
  describe _ := declared rules
  extend old new := old ++ new
  touch _ x := x

/-- An `nft` that lists one table. -/
def listsOnly (f : Family) (json : Str) (args : List Str) : Outcome IoError NftOutcome :=
  if args = listArgs f then .ok ⟨true, json, []⟩
  else .ok ⟨false, [], "Error: No such file or directory".toList⟩

def jsonNat (n : UInt64) : Json := .number (.posInt n)

/-- The listing of a table with one tunnel from port 8080 to port 443 of an address. -/
def listingText (f : Family) (addr : Str) : Str :=
  "\x7b\"nftables\":[\x7b\"table\":\x7b\"family\":\"".toList ++ f.asStr ++
    "\",\"name\":\"gust\",\"handle\":1\x7d\x7d,\x7b\"rule\":\x7b\"family\":\"".toList ++ f.asStr ++
    "\",\"table\":\"gust\",\"chain\":\"prerouting\",\"handle\":4,".toList ++
    "\"comment\":\"gust:tcp:8080->".toList ++ addr ++ ":443\",\"expr\":[".toList ++
    "\x7b\"match\":\x7b\"op\":\"==\",\"left\":\x7b\"payload\":".toList ++
    "\x7b\"protocol\":\"tcp\",\"field\":\"dport\"\x7d\x7d,\"right\":8080\x7d\x7d,".toList ++
    "\x7b\"counter\":\x7b\"packets\":10,\"bytes\":840\x7d\x7d,".toList ++
    "\x7b\"dnat\":\x7b\"addr\":\"".toList ++ addr ++ "\",\"port\":443\x7d\x7d]\x7d\x7d,".toList ++
    "\x7b\"rule\":\x7b\"family\":\"".toList ++ f.asStr ++
    "\",\"table\":\"gust\",\"chain\":\"postrouting\",\"handle\":5,\"expr\":[".toList ++
    "\x7b\"match\":\x7b\"op\":\"in\",\"left\":\x7b\"ct\":".toList ++
    "\x7b\"key\":\"status\"\x7d\x7d,\"right\":\"dnat\"\x7d\x7d,".toList ++
    "\x7b\"counter\":\x7b\"packets\":7,\"bytes\":560\x7d\x7d,".toList ++
    "\x7b\"masquerade\":\x7b\"flags\":\"fully-random\"\x7d\x7d]\x7d\x7d]\x7d".toList

def matchExpr (op : String) (left right : Json) : Json :=
  .object [("match", .object [("op", .string op.toList), ("left", left), ("right", right)])]

def counterExpr (c : Counts) : Json :=
  .object [("counter", .object [("packets", jsonNat c.packets), ("bytes", jsonNat c.bytes)])]

def ruleItem (f : Family) (chain : String) (handle : UInt64) (comment : Option Str)
    (exprs : List Json) : Json :=
  .object [("rule", .object ([("family", .string f.asStr), ("table", .string tableName),
    ("chain", .string chain.toList), ("handle", jsonNat handle)] ++
      (comment.map fun c => ("comment", .string c)).toList ++ [("expr", .array exprs)]))]

def listingItems (f : Family) (addr : Str) : List Json :=
  [.object [("table", .object [("family", .string f.asStr), ("name", .string tableName),
      ("handle", jsonNat 1)])],
    ruleItem f "prerouting" 4
      (some ("gust:tcp:8080->".toList ++ addr ++ ":443".toList))
      [matchExpr "==" (.object [("payload", .object [("protocol", .string "tcp".toList),
          ("field", .string "dport".toList)])]) (jsonNat 8080),
        counterExpr ⟨10, 840⟩,
        .object [("dnat", .object [("addr", .string addr), ("port", jsonNat 443)])]],
    ruleItem f "postrouting" 5 none
      [matchExpr "in" (.object [("ct", .object [("key", .string "status".toList)])])
          (.string "dnat".toList),
        counterExpr ⟨7, 560⟩,
        .object [("masquerade", .object [("flags", .string "fully-random".toList)])]]]

/-- The parser, on this listing. -/
def readListing (f : Family) (addr : Str) (s : Str) : Option Json :=
  if s = listingText f addr then some (.object [("nftables", .array (listingItems f addr))])
  else none

/-- The table that is listed. -/
def listedTable (r : NatRule) : GustTable := ⟨[(r, ⟨10, 840⟩)], ⟨7, 560⟩⟩

def listedTables (f : Family) (r : NatRule) (g : Family) : Option GustTable :=
  if g = f then some (listedTable r) else none

theorem showsCounter_counterExpr (c : Counts) {op : String} {left right e : Json}
    (h : e.get "counter" = none) : ShowsCounter c [matchExpr op left right, counterExpr c, e] := by
  refine .there ?_ (.here rfl ?_ ?_ (List.forall_mem_singleton.mpr h))
  · simp [matchExpr, List.lookup_cons]
  · simp [jsonNat]
  · simp [jsonNat, List.lookup_cons]

theorem showsRule_ruleItem (f : Family) (chain : String) (handle : UInt64) {entry : Entry}
    {exprs : List Json} (h : ShowsCounter entry.counts exprs) :
    ShowsRule entry (ruleItem f chain handle entry.comment exprs) := by
  refine ⟨_, exprs, rfl, ?_, ?_, h⟩
  · cases entry.comment <;> simp [List.lookup_cons]
  · cases entry.comment <;> simp [List.lookup_cons]

theorem listing_listingItems (f : Family) {r : NatRule} {addr : Str}
    (h : r.comment = "gust:tcp:8080->".toList ++ addr ++ ":443".toList) :
    Listing (listedTable r).entries (listingItems f addr) := by
  rw [listingItems, ← h]
  refine .other ?_ (.rule (showsRule_ruleItem f _ 4 (showsCounter_counterExpr ⟨10, 840⟩ ?_))
    (.rule (showsRule_ruleItem f _ 5 (showsCounter_counterExpr ⟨7, 560⟩ ?_)) .nil))
  · rintro ⟨rule, hrule, -⟩
    simp [List.lookup_cons] at hrule
  · simp [List.lookup_cons]
  · simp [List.lookup_cons]

theorem lists_listedTables (f : Family) {r : NatRule} {addr : Str}
    (h : r.comment = "gust:tcp:8080->".toList ++ addr ++ ":443".toList) :
    Lists (readListing f addr) (listsOnly f (listingText f addr)) (listedTables f r) := by
  constructor
  · intro g out habsent hout
    have hne : listArgs g ≠ listArgs f := by
      intro hargs
      have hg : g = f := by
        cases f <;> cases g <;> first | rfl | simp [listArgs, Family.asStr] at hargs
      rw [listedTables, if_pos hg] at habsent
      cases habsent
    rw [listsOnly, if_neg hne, Outcome.ok.injEq] at hout
    rw [← hout]
  · intro g t hpresent
    rw [listedTables] at hpresent
    split at hpresent
    · rename_i hg
      obtain rfl := Option.some.inj hpresent
      subst hg
      exact ⟨_, _, _, _, if_pos rfl, rfl, if_pos rfl, rfl, listing_listingItems g h, .refl _⟩
    · cases hpresent

/-- The listed table is the one that is declared for its rule. -/
theorem rules_listedTables (r : NatRule) (k : Kernel (List NatRule) Unit) (f : Family) :
    (listedTables (familyOf r.destIp) r f).map GustTable.rules =
      (apply (nftOf [r]) (buildRuleset [r]) (deleteTables k)).gust f := by
  rw [gust_apply_of_none (gust_deleteTables k f)]
  simp only [listedTables, nftOf, declared, rulesOf_eq_filter, List.filter_cons, List.filter_nil,
    eq_comm (a := f)]
  by_cases hf : familyOf r.destIp = f
  · simp [hf, listedTable, GustTable.rules]
  · simp [hf]

/-- The tunnel of the README's NAT example is reported. -/
theorem status_covers_ip :
    ∃ cfg r, buildConfig { listens := ["tcp://:8080/1.2.3.4:443".toList], nat := true } = .ok cfg ∧
      buildRules (fun _ _ => .ok []) cfg = .ok [r] ∧
      ReportsAll (listedTables .ip r) (natStatus (readListing .ip "1.2.3.4".toList)
        (listsOnly .ip (listingText .ip "1.2.3.4".toList))) := by
  obtain ⟨cfg, r, hcfg, hrules, hcomment, hfamily, hipv4⟩ : ∃ cfg r, buildConfig
      { listens := ["tcp://:8080/1.2.3.4:443".toList], nat := true } = .ok cfg ∧
      buildRules (fun _ _ => .ok []) cfg = .ok [r] ∧
      r.comment = "gust:tcp:8080->".toList ++ "1.2.3.4".toList ++ ":443".toList ∧
      familyOf r.destIp = .ip ∧ r.destIp.isIpv4 = true := ⟨_, _, rfl, rfl, by decide, rfl, rfl⟩
  refine ⟨cfg, r, hcfg, hrules, ?_⟩
  have hdeclared := rules_listedTables r ⟨true, false, fun _ => none, ()⟩
  rw [hfamily] at hdeclared
  have hcovers := status_covers_iff hrules (List.cons_ne_nil _ _) (fun f => rfl) _ hdeclared
    (lists_listedTables .ip hcomment)
  exact hcovers.2.mpr (List.forall_mem_singleton.mpr hipv4)

/-- A tunnel to an IPv6 address is installed, listed by `nft`, and reported as missing. -/
theorem status_unavailable_ip6 :
    ∃ cfg r, buildConfig { listens := ["tcp://:8080/[2001:db8::1]:443".toList], nat := true } =
        .ok cfg ∧
      buildRules (fun _ _ => .ok []) cfg = .ok [r] ∧
      (∀ f, (nftOf [r]).describe (buildRuleset [r]) f = declared [r] f) ∧
      (∀ f, (listedTables .ip6 r f).map GustTable.rules = (apply (nftOf [r]) (buildRuleset [r])
        (deleteTables ⟨true, false, fun _ => none, ()⟩)).gust f) ∧
      Lists (readListing .ip6 "2001:db8::1".toList)
        (listsOnly .ip6 (listingText .ip6 "2001:db8::1".toList)) (listedTables .ip6 r) ∧
      ¬ ReportsAll (listedTables .ip6 r) (natStatus (readListing .ip6 "2001:db8::1".toList)
        (listsOnly .ip6 (listingText .ip6 "2001:db8::1".toList))) := by
  obtain ⟨cfg, r, hcfg, hrules, hcomment, hfamily⟩ : ∃ cfg r, buildConfig
      { listens := ["tcp://:8080/[2001:db8::1]:443".toList], nat := true } = .ok cfg ∧
      buildRules (fun _ _ => .ok []) cfg = .ok [r] ∧
      r.comment = "gust:tcp:8080->".toList ++ "2001:db8::1".toList ++ ":443".toList ∧
      familyOf r.destIp = .ip6 := ⟨_, _, rfl, rfl, by decide +kernel, rfl⟩
  have hdeclared := rules_listedTables r ⟨true, false, fun _ => none, ()⟩
  rw [hfamily] at hdeclared
  have hlists := lists_listedTables .ip6 hcomment
  refine ⟨cfg, r, hcfg, hrules, fun f => rfl, hdeclared, hlists, ?_⟩
  rintro ⟨stats, hstats, -⟩
  rw [natStatus_of_absent hlists (if_neg (by decide))] at hstats
  cases hstats

/-! ## Every counter once -/

/-- The rule of a counter, as a listing shows it. -/
def CounterStat.entry (s : CounterStat) : Entry := ⟨some s.comment, ⟨s.packets, s.bytes⟩⟩

theorem filterMap_stat_entry {stats : List CounterStat}
    (h : ∀ s ∈ stats, commentMark.isPrefixOf s.comment = true) :
    (stats.map CounterStat.entry).filterMap Entry.stat = stats := by
  rw [List.filterMap_map]
  have hstat : stats.filterMap (Entry.stat ∘ CounterStat.entry) = stats.filterMap some := by
    refine List.filterMap_congr fun s hs => ?_
    exact if_pos (h s hs)
  rw [hstat, List.filterMap_some]

/-- **A listing loses no counter, repeats none and attributes none to another rule.** The
rules of the counters may stand among any items that carry no mark, counters or not, and each
counter among any other expressions of its rule. -/
theorem parseCounters_listing {stats : List CounterStat}
    (hmarked : ∀ s ∈ stats, commentMark.isPrefixOf s.comment = true) {items : List Json}
    (hlisting : Listing (stats.map CounterStat.entry) items) {root : Json}
    (hitems : root.get "nftables" = some (.array items)) {fromStr : Str → Option Json} {json : Str}
    (hparse : fromStr json = some root) : parseCounters fromStr json = stats := by
  have hread : parseCounters fromStr json = items.filterMap parseItem := by
    simp only [parseCounters, hparse, hitems, Option.bind_some, Json.asArray_array]
  rw [hread, filterMap_parseItem hlisting]
  exact filterMap_stat_entry hmarked

/-- A listing of two tunnels with a rule of somebody else's between them. -/
def sharedText : Str :=
  "\x7b\"nftables\":[\x7b\"metainfo\":\x7b\"version\":\"1.0.9\"\x7d\x7d,".toList ++
    "\x7b\"rule\":\x7b\"comment\":\"gust:tcp:8080->1.2.3.4:443\",\"expr\":[".toList ++
    "\x7b\"counter\":\x7b\"packets\":10,\"bytes\":840\x7d\x7d,".toList ++
    "\x7b\"dnat\":\x7b\"addr\":\"1.2.3.4\",\"port\":443\x7d\x7d]\x7d\x7d,".toList ++
    "\x7b\"rule\":\x7b\"comment\":\"ssh\",\"expr\":[".toList ++
    "\x7b\"counter\":\x7b\"packets\":7,\"bytes\":560\x7d\x7d]\x7d\x7d,".toList ++
    "\x7b\"rule\":\x7b\"comment\":\"gust:udp:53->1.2.3.4:53\",\"expr\":[".toList ++
    "\x7b\"dnat\":\x7b\"addr\":\"1.2.3.4\",\"port\":53\x7d\x7d,".toList ++
    "\x7b\"counter\":\x7b\"packets\":3,\"bytes\":120\x7d\x7d]\x7d\x7d]\x7d".toList

def dnatExpr (port : UInt64) : Json :=
  .object [("dnat", .object [("addr", .string "1.2.3.4".toList), ("port", jsonNat port)])]

def commentedRule (comment : Str) (exprs : List Json) : Json :=
  .object [("rule", .object [("comment", .string comment), ("expr", .array exprs)])]

def sharedItems : List Json :=
  [.object [("metainfo", .object [("version", .string "1.0.9".toList)])],
    commentedRule "gust:tcp:8080->1.2.3.4:443".toList [counterExpr ⟨10, 840⟩, dnatExpr 443],
    commentedRule "ssh".toList [counterExpr ⟨7, 560⟩],
    commentedRule "gust:udp:53->1.2.3.4:53".toList [dnatExpr 53, counterExpr ⟨3, 120⟩]]

/-- The parser, on this listing. -/
def readShared (s : Str) : Option Json :=
  if s = sharedText then some (.object [("nftables", .array sharedItems)]) else none

theorem showsRule_commentedRule {s : CounterStat} {exprs : List Json}
    (h : ShowsCounter ⟨s.packets, s.bytes⟩ exprs) :
    ShowsRule s.entry (commentedRule s.comment exprs) :=
  ⟨_, exprs, rfl, rfl, rfl, h⟩

theorem counterExpr_here (c : Counts) {exprs : List Json}
    (h : ∀ e ∈ exprs, e.get "counter" = none) : ShowsCounter c (counterExpr c :: exprs) :=
  .here rfl rfl rfl h

theorem parseCounters_shared :
    parseCounters readShared sharedText =
      [⟨"gust:tcp:8080->1.2.3.4:443".toList, 10, 840⟩,
        ⟨"gust:udp:53->1.2.3.4:53".toList, 3, 120⟩] := by
  have hdnat : ∀ port, (dnatExpr port).get "counter" = none := fun port => rfl
  refine parseCounters_listing (by decide) ?_ rfl (if_pos rfl)
  refine .other ?_ (.rule (showsRule_commentedRule ?_) (.other ?_
    (.rule (showsRule_commentedRule ?_) .nil)))
  · rintro ⟨rule, hrule, -⟩
    cases hrule
  · exact counterExpr_here ⟨10, 840⟩ (List.forall_mem_singleton.mpr (hdnat 443))
  · rintro ⟨rule, hrule, hmark⟩
    cases hrule
    revert hmark
    decide
  · exact .there (hdnat 53) (counterExpr_here ⟨3, 120⟩ (by simp))

end Gust.Nat
