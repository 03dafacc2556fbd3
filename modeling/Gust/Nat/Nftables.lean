import Gust.Config
import Gust.Lib.IpAddr

/-!
# The nftables ruleset and the `nft` calls

The program owns one table per address family, `table ip gust` and `table ip6 gust`.
The first half of this module is the text it generates for them; the second half is the
part of the kernel that its `nft` and sysctl calls change.

What a ruleset text means to `nft` is not decided here: `Nft` is any reading of texts as
tables, together with any way in which a declaration extends a table that is already
there, and any effect of a text on foreign tables. Everything else about the calls is
documented behaviour: `nft -f -` is one transaction, deleting an absent table changes
nothing, and a call that fails has changed nothing.
-/

namespace Gust.Nat

open Gust.Lib

/-- The table name in both families. -/
def tableName : Str := "gust".toList

/-- One DNAT rule: `<proto> dport <dport>` is rewritten to `<dest>`. -/
structure NatRule where
  proto : Protocol
  dport : UInt16
  destIp : IpAddr
  destPort : UInt16
  comment : Str
  deriving DecidableEq, Repr

def protoStr : Protocol → Str
  | .tcp => "tcp".toList
  | .udp => "udp".toList

def formatDest (ip : IpAddr) (port : UInt16) : Str :=
  match ip with
  | .v4 _ => ip.display ++ ':' :: Str.ofNat port.toNat
  | .v6 _ => '[' :: ip.display ++ "]:".toList ++ Str.ofNat port.toNat

/-- The line of one rule in the `prerouting` chain. -/
def ruleLine (r : NatRule) : Str :=
  "        ".toList ++ protoStr r.proto ++ " dport ".toList ++ Str.ofNat r.dport.toNat ++
    " counter comment \"".toList ++ r.comment ++ "\" dnat to ".toList ++
    formatDest r.destIp r.destPort ++ ['\n']

/-- The table up to the rules of its `prerouting` chain. -/
def tableHead (family : Str) : Str :=
  "table ".toList ++ family ++ ' ' :: tableName ++ " \x7b\n".toList ++
    "    chain prerouting \x7b\n".toList ++
    "        type nat hook prerouting priority dstnat; policy accept;\n".toList

/-- The rest of the table: a chain that masquerades what was rewritten, so that replies
come back this way. -/
def tableFoot : Str :=
  "    \x7d\n".toList ++
    "    chain postrouting \x7b\n".toList ++
    "        type nat hook postrouting priority srcnat; policy accept;\n".toList ++
    "        ct status dnat counter masquerade fully-random\n".toList ++
    "    \x7d\n".toList ++
    "\x7d\n".toList

/-- The text of one table. -/
def buildTable (family : Str) (rules : List NatRule) : Str :=
  tableHead family ++ rules.flatMap ruleLine ++ tableFoot

/-- The address families a table can belong to. -/
inductive Family
  | ip
  | ip6
  deriving DecidableEq, Repr

def Family.asStr : Family → Str
  | .ip => "ip".toList
  | .ip6 => "ip6".toList

/-- The family of an address. -/
def familyOf (ip : IpAddr) : Family := if ip.isIpv4 then .ip else .ip6

/-- The rules of one family, in the order of the command line. -/
def rulesOf (rules : List NatRule) (f : Family) : List NatRule :=
  match f with
  | .ip => rules.filter fun r => r.destIp.isIpv4
  | .ip6 => rules.filter fun r => r.destIp.isIpv6

/-- The text of all tables; a family without rules gets none. -/
def buildRuleset (rules : List NatRule) : Str :=
  (if (rulesOf rules .ip).isEmpty then [] else buildTable Family.ip.asStr (rulesOf rules .ip)) ++
    (if (rulesOf rules .ip6).isEmpty then []
      else buildTable Family.ip6.asStr (rulesOf rules .ip6))

theorem rulesOf_eq_filter (rules : List NatRule) (f : Family) :
    rulesOf rules f = rules.filter fun r => familyOf r.destIp == f := by
  cases f
  · refine List.filter_congr fun r _ => ?_
    cases r.destIp <;> rfl
  · refine List.filter_congr fun r _ => ?_
    cases r.destIp <;> rfl

/-! ## The kernel behind the calls -/

/-- How `nft` reads a ruleset. -/
structure Nft (τ φ : Type) where
  /-- The table a text declares in a family, if any. -/
  describe : Str → Family → Option τ
  /-- An existing table, extended by a declaration of the same name. -/
  extend : τ → τ → τ
  /-- What a text does to all other tables. -/
  touch : Str → φ → φ

/-- The two forwarding switches, the program's tables, and all others. -/
structure Kernel (τ φ : Type) where
  ipForward : Bool
  ip6Forward : Bool
  gust : Family → Option τ
  foreign : φ

variable {τ φ : Type}

/-- A declared table is created, or extends the one that is there. -/
def Nft.declare (nft : Nft τ φ) (old new : Option τ) : Option τ :=
  match old, new with
  | none, new => new
  | old, none => old
  | some old, some new => some (nft.extend old new)

/-- A committed `nft -f -`. -/
def apply (nft : Nft τ φ) (ruleset : Str) (k : Kernel τ φ) : Kernel τ φ :=
  { k with
    gust := fun f => nft.declare (k.gust f) (nft.describe ruleset f)
    foreign := nft.touch ruleset k.foreign }

/-- `nft delete table <family> gust`. -/
def deleteTable (f : Family) (k : Kernel τ φ) : Kernel τ φ :=
  { k with gust := fun g => if g = f then none else k.gust g }

def writeIpForward (v : Bool) (k : Kernel τ φ) : Kernel τ φ := { k with ipForward := v }

/-- Both families, as on startup and on shutdown. -/
def deleteTables (k : Kernel τ φ) : Kernel τ φ := deleteTable .ip6 (deleteTable .ip k)

/-- `delete_table`, which only reports that `nft` has failed. -/
def tryDelete (failed : Bool) (f : Family) (k : Kernel τ φ) : Kernel τ φ :=
  if failed then k else deleteTable f k

/-- Both calls, each of which may fail. -/
def tryDeletes (failed : Family → Bool) (k : Kernel τ φ) : Kernel τ φ :=
  tryDelete (failed .ip6) .ip6 (tryDelete (failed .ip) .ip k)

@[simp] theorem gust_deleteTables (k : Kernel τ φ) (f : Family) :
    (deleteTables k).gust f = none := by
  cases f <;> simp [deleteTables, deleteTable]

theorem gust_tryDelete (failed : Bool) (f g : Family) (k : Kernel τ φ) :
    (tryDelete failed f k).gust g =
      if g = f then (if failed then k.gust g else none) else k.gust g := by
  cases failed <;> simp [tryDelete, deleteTable]

/-- A family is gone, or its call has failed and it is as before. -/
theorem gust_tryDeletes (failed : Family → Bool) (k : Kernel τ φ) (f : Family) :
    (tryDeletes failed k).gust f = if failed f then k.gust f else none := by
  cases f <;> simp [tryDeletes, gust_tryDelete]

theorem tryDeletes_eq_deleteTables (k : Kernel τ φ) :
    tryDeletes (fun _ => false) k = deleteTables k := rfl

@[simp] theorem ipForward_tryDelete (failed : Bool) (f : Family) (k : Kernel τ φ) :
    (tryDelete failed f k).ipForward = k.ipForward := by
  cases failed <;> rfl

@[simp] theorem ip6Forward_tryDelete (failed : Bool) (f : Family) (k : Kernel τ φ) :
    (tryDelete failed f k).ip6Forward = k.ip6Forward := by
  cases failed <;> rfl

@[simp] theorem foreign_tryDelete (failed : Bool) (f : Family) (k : Kernel τ φ) :
    (tryDelete failed f k).foreign = k.foreign := by
  cases failed <;> rfl

@[simp] theorem ipForward_tryDeletes (failed : Family → Bool) (k : Kernel τ φ) :
    (tryDeletes failed k).ipForward = k.ipForward := by
  simp [tryDeletes]

@[simp] theorem ip6Forward_tryDeletes (failed : Family → Bool) (k : Kernel τ φ) :
    (tryDeletes failed k).ip6Forward = k.ip6Forward := by
  simp [tryDeletes]

@[simp] theorem foreign_tryDeletes (failed : Family → Bool) (k : Kernel τ φ) :
    (tryDeletes failed k).foreign = k.foreign := by
  simp [tryDeletes]

theorem gust_apply_of_none {nft : Nft τ φ} {ruleset : Str} {k : Kernel τ φ} {f : Family}
    (h : k.gust f = none) : (apply nft ruleset k).gust f = nft.describe ruleset f := by
  simp [apply, Nft.declare, h]

end Gust.Nat
