import Mathlib.Data.Bool.AllAny
import Mathlib.Data.List.Induction
import Gust.Lib.Text

/-!
# The argument scanner

`parseArgs` turns the arguments into raw flag values, before any of them is looked at. An
argument is a flag with one or more dashes in front; its value stands behind a `=`, or for
the flags that require one it is the next argument, whatever that looks like. Machine
integers have the width of the target, where `usize` has 64 bits.

The scanner carries its position across arguments of unknown meaning, so a value that
looks like a flag must not be mistaken for one. `parseArgs_spelled` says that it never is:
the result depends on the flags and their values alone, not on how they are spelled or in
which order different flags come.
-/

namespace Gust

open Gust.Lib

/-- Unvalidated flag values; the scanner starts from the defaults. -/
structure RawArgs where
  listens : List Str := []
  forwards : List Str := []
  mark : Option Int64 := none
  nat : Bool := false
  setIpForward : Bool := false
  natCleanup : Bool := false
  bufSizeKb : Option UInt64 := none
  heartbeatSecs : Option UInt64 := none
  workerThreads : Option UInt64 := none
  nodelay : Option Bool := none
  soRcvbuf : Option UInt64 := none
  soSndbuf : Option UInt64 := none
  debug : Bool := false
  help : Bool := false
  version : Bool := false
  deriving DecidableEq, Repr

/-- The outcome of a scan. -/
inductive ParseOutcome
  | run (raw : RawArgs)
  | help
  | version
  deriving DecidableEq, Repr

/-! ## Flags -/

/-- The flags that require a value. -/
inductive ValueFlag
  | L
  | F
  | M
  | bufSizeKb
  | heartbeatSecs
  | workerThreads
  | soRcvbuf
  | soSndbuf
  deriving DecidableEq, Repr

/-- The flags that may stand alone. -/
inductive BoolFlag
  | nodelay
  | nat
  | setIpForward
  | natCleanup
  | debug
  deriving DecidableEq, Repr

inductive Flag
  | value (f : ValueFlag)
  | bool (f : BoolFlag)
  | help
  | version
  deriving DecidableEq, Repr

def ValueFlag.name : ValueFlag → Str
  | .L => "L".toList
  | .F => "F".toList
  | .M => "M".toList
  | .bufSizeKb => "buf-size-kb".toList
  | .heartbeatSecs => "heartbeat-secs".toList
  | .workerThreads => "worker-threads".toList
  | .soRcvbuf => "so-rcvbuf".toList
  | .soSndbuf => "so-sndbuf".toList

def BoolFlag.names : BoolFlag → List Str
  | .nodelay => ["nodelay".toList]
  | .nat => ["nat".toList]
  | .setIpForward => ["set-ip-forward".toList]
  | .natCleanup => ["nat-cleanup".toList]
  | .debug => ["D".toList, "debug".toList]

/-- The arms of the scanner, by name. -/
def flagTable : List (Str × Flag) :=
  [("L".toList, .value .L), ("F".toList, .value .F), ("M".toList, .value .M),
    ("buf-size-kb".toList, .value .bufSizeKb), ("heartbeat-secs".toList, .value .heartbeatSecs),
    ("worker-threads".toList, .value .workerThreads), ("so-rcvbuf".toList, .value .soRcvbuf),
    ("so-sndbuf".toList, .value .soSndbuf), ("nodelay".toList, .bool .nodelay),
    ("nat".toList, .bool .nat), ("set-ip-forward".toList, .bool .setIpForward),
    ("nat-cleanup".toList, .bool .natCleanup), ("D".toList, .bool .debug),
    ("debug".toList, .bool .debug), ("h".toList, .help), ("help".toList, .help),
    ("V".toList, .version), ("version".toList, .version)]

/-! ## Values -/

/-- The words for a boolean, in any case. -/
def boolWord (v : Str) : Option Bool :=
  let w := Str.toAsciiLowercase v
  if w = "true".toList ∨ w = "1".toList ∨ w = "yes".toList ∨ w = "on".toList then some true
  else if w = "false".toList ∨ w = "0".toList ∨ w = "no".toList ∨ w = "off".toList then some false
  else none

/-- A bare flag is `true`. -/
def parseBool (name : Str) : Option Str → Outcome Str Bool
  | none => .ok true
  | some v => .ofOption ("--".toList ++ name ++ " expects a boolean (got `".toList ++ v ++ "`)".toList)
      (boolWord v)

/-- The number behind a flag, or the error that names the flag and what it expects. -/
def parseNumber {α : Type} (parse : Str → Option α) (flag expects v : Str) : Outcome Str α :=
  .ofOption (flag ++ " expects ".toList ++ expects ++ " (got `".toList ++ v ++ "`)".toList) (parse v)

/-- Store the value of a flag that requires one. -/
def setValue (raw : RawArgs) (v : Str) : ValueFlag → Outcome Str RawArgs
  | .L => .ok { raw with listens := raw.listens ++ [v] }
  | .F => .ok { raw with forwards := raw.forwards ++ [v] }
  | .M => do
      let m ← parseNumber Str.parseI64 "-M".toList "an integer".toList v
      pure { raw with mark := some m }
  | .bufSizeKb => do
      let n ← parseNumber Str.parseU64 "--buf-size-kb".toList "an integer".toList v
      pure { raw with bufSizeKb := some n }
  | .heartbeatSecs => do
      let n ← parseNumber Str.parseU64 "--heartbeat-secs".toList "an integer".toList v
      pure { raw with heartbeatSecs := some n }
  | .workerThreads => do
      let n ← parseNumber Str.parseU64 "--worker-threads".toList "an integer".toList v
      pure { raw with workerThreads := some n }
  | .soRcvbuf => do
      let n ← parseNumber Str.parseU64 "--so-rcvbuf".toList "bytes".toList v
      pure { raw with soRcvbuf := some n }
  | .soSndbuf => do
      let n ← parseNumber Str.parseU64 "--so-sndbuf".toList "bytes".toList v
      pure { raw with soSndbuf := some n }

/-- Store a boolean. -/
def setBool (raw : RawArgs) (b : Bool) : BoolFlag → RawArgs
  | .nodelay => { raw with nodelay := some b }
  | .nat => { raw with nat := b }
  | .setIpForward => { raw with setIpForward := b }
  | .natCleanup => { raw with natCleanup := b }
  | .debug => { raw with debug := b }

/-! ## The scan -/

/-- The name of a flag and its inline value, split at the first `=`. -/
def splitInline (body : Str) : Outcome Str (Str × Option Str) :=
  match Str.find (· == '=') body with
  | some eq => do
      let name ← Str.sliceTo body eq
      let value ← Str.sliceFrom body (eq + 1)
      pure (name, some value)
  | none => .ok (body, none)

/-- What the scan ends with; nothing sets `help` or `version`. -/
def finish (raw : RawArgs) : ParseOutcome :=
  if raw.help then .help else if raw.version then .version else .run raw

/-- What an argument says before its value is looked at. -/
inductive Token
  | endOfFlags
  | value (f : ValueFlag) (name : Str) (inline : Option Str)
  | bool (f : BoolFlag) (name : Str) (inline : Option Str)
  | help
  | version
  deriving DecidableEq, Repr

def Flag.token (name : Str) (inline : Option Str) : Flag → Token
  | .value f => .value f name inline
  | .bool f => .bool f name inline
  | .help => .help
  | .version => .version

def positional (arg : Str) : Str := "unexpected positional argument: `".toList ++ arg ++ ['`']

/-- The flag an argument names, with its inline value. All leading dashes are stripped. -/
def readFlag (arg : Str) : Outcome Str Token :=
  if arg.head? ≠ some '-' ∨ arg = "-".toList then .err (positional arg)
  else if arg = "--".toList then .ok .endOfFlags
  else do
    let (name, inline) ← splitInline (arg.dropWhile (· == '-'))
    match flagTable.lookup name with
    | some flag => .ok (flag.token name inline)
    | none => .err ("unknown flag: `-".toList ++ name ++ ['`'])

/-- The loop over the arguments; a value that is not inline is the next argument. -/
def scan (noMoreFlags : Bool) (raw : RawArgs) : List Str → Outcome Str ParseOutcome
  | [] => .ok (finish raw)
  | arg :: args =>
      if noMoreFlags then .err (positional arg)
      else
        match readFlag arg with
        | .err e => .err e
        | .panic => .panic
        | .ok .endOfFlags => scan true raw args
        | .ok (.value f _ (some v)) => do
            let raw ← setValue raw v f
            scan false raw args
        | .ok (.value f name none) =>
            match args with
            | [] => .err ("flag `-".toList ++ name ++ "` requires a value".toList)
            | v :: args => do
                let raw ← setValue raw v f
                scan false raw args
        | .ok (.bool f name inline) => do
            let b ← parseBool name inline
            scan false (setBool raw b f) args
        | .ok .help => .ok .help
        | .ok .version => .ok .version

/-- Scan the arguments behind the program name. -/
def parseArgs (args : List Str) : Outcome Str ParseOutcome := scan false {} args

/-! ## Occurrences and their spellings -/

/-- A flag on the command line with what belongs to it. -/
inductive Occurrence
  | value (f : ValueFlag) (v : Str)
  | bool (f : BoolFlag) (inline : Option Str)
  deriving DecidableEq, Repr

/-- One dash or two. -/
def Dashes (d : Str) : Prop := d = ['-'] ∨ d = ['-', '-']

/-- Nothing but dashes, and at least one: what the scanner strips from an argument. -/
def DashRun (d : Str) : Prop := d ≠ [] ∧ ∀ c ∈ d, c = '-'

/-- The ways to write an occurrence down behind the dashes that `D` allows. -/
inductive SpelledBehind (D : Str → Prop) : Occurrence → List Str → Prop
  | inline {d : Str} (f : ValueFlag) (v : Str) (hd : D d) :
      SpelledBehind D (.value f v) [d ++ (f.name ++ '=' :: v)]
  | separate {d : Str} (f : ValueFlag) (v : Str) (hd : D d) :
      SpelledBehind D (.value f v) [d ++ f.name, v]
  | bare {d name : Str} (f : BoolFlag) (hd : D d) (hname : name ∈ f.names) :
      SpelledBehind D (.bool f none) [d ++ name]
  | boolInline {d name : Str} (f : BoolFlag) (v : Str) (hd : D d) (hname : name ∈ f.names) :
      SpelledBehind D (.bool f (some v)) [d ++ (name ++ '=' :: v)]

/-- The ways to write an occurrence down. -/
abbrev Spelled : Occurrence → List Str → Prop := SpelledBehind Dashes

/-- The boolean that a bare flag or an inline value stands for. -/
def boolValue : Option Str → Option Bool
  | none => some true
  | some v => boolWord v

/-- The value can be parsed for its flag. -/
def Occurrence.Parsable : Occurrence → Prop
  | .value .L _ => True
  | .value .F _ => True
  | .value .M v => (Str.parseI64 v).isSome = true
  | .value _ v => (Str.parseU64 v).isSome = true
  | .bool _ inline => (boolValue inline).isSome = true

/-- The values given to a flag, in order. -/
def valuesOf (f : ValueFlag) (occs : List Occurrence) : List Str :=
  occs.filterMap fun
    | .value g v => if g = f then some v else none
    | .bool _ _ => none

/-- What is given to a boolean flag, in order. -/
def boolsOf (f : BoolFlag) (occs : List Occurrence) : List (Option Str) :=
  occs.filterMap fun
    | .value _ _ => none
    | .bool g inline => if g = f then some inline else none

/-- The number in the last value of a flag. -/
def lastU64 (f : ValueFlag) (occs : List Occurrence) : Option UInt64 :=
  (valuesOf f occs).getLast?.bind Str.parseU64

/-- The last boolean of a flag. -/
def lastBool (f : BoolFlag) (occs : List Occurrence) : Option Bool :=
  (boolsOf f occs).getLast?.bind boolValue

/-- The raw values that a list of occurrences stands for: all listeners and hops, and the
last value of everything else. -/
def rawOf (occs : List Occurrence) : RawArgs where
  listens := valuesOf .L occs
  forwards := valuesOf .F occs
  mark := (valuesOf .M occs).getLast?.bind Str.parseI64
  nat := (lastBool .nat occs).getD false
  setIpForward := (lastBool .setIpForward occs).getD false
  natCleanup := (lastBool .natCleanup occs).getD false
  bufSizeKb := lastU64 .bufSizeKb occs
  heartbeatSecs := lastU64 .heartbeatSecs occs
  workerThreads := lastU64 .workerThreads occs
  nodelay := lastBool .nodelay occs
  soRcvbuf := lastU64 .soRcvbuf occs
  soSndbuf := lastU64 .soSndbuf occs
  debug := (lastBool .debug occs).getD false

/-! ## One occurrence -/

/-- What the scanner stores for an occurrence that can be parsed. -/
def Occurrence.store (raw : RawArgs) : Occurrence → RawArgs
  | .value .L v => { raw with listens := raw.listens ++ [v] }
  | .value .F v => { raw with forwards := raw.forwards ++ [v] }
  | .value .M v => { raw with mark := Str.parseI64 v }
  | .value .bufSizeKb v => { raw with bufSizeKb := Str.parseU64 v }
  | .value .heartbeatSecs v => { raw with heartbeatSecs := Str.parseU64 v }
  | .value .workerThreads v => { raw with workerThreads := Str.parseU64 v }
  | .value .soRcvbuf v => { raw with soRcvbuf := Str.parseU64 v }
  | .value .soSndbuf v => { raw with soSndbuf := Str.parseU64 v }
  | .bool .nodelay inline => { raw with nodelay := boolValue inline }
  | .bool .nat inline => { raw with nat := (boolValue inline).getD false }
  | .bool .setIpForward inline => { raw with setIpForward := (boolValue inline).getD false }
  | .bool .natCleanup inline => { raw with natCleanup := (boolValue inline).getD false }
  | .bool .debug inline => { raw with debug := (boolValue inline).getD false }

theorem setValue_of_parsable {f : ValueFlag} {v : Str} (raw : RawArgs)
    (h : (Occurrence.value f v).Parsable) :
    setValue raw v f = .ok ((Occurrence.value f v).store raw) := by
  cases f
  case L => rfl
  case F => rfl
  all_goals
    obtain ⟨n, hn⟩ := Option.isSome_iff_exists.mp h
    simp only [setValue, parseNumber, hn, Outcome.ofOption, Outcome.ok_bind, Outcome.pure_eq_ok,
      Occurrence.store]

theorem setValue_of_not_parsable {f : ValueFlag} {v : Str} (raw : RawArgs)
    (h : ¬ (Occurrence.value f v).Parsable) : ∃ e, setValue raw v f = .err e := by
  cases f
  case L => exact absurd trivial h
  case F => exact absurd trivial h
  all_goals
    replace h := Option.not_isSome_iff_eq_none.mp h
    simp only [setValue, parseNumber, h, Outcome.ofOption, Outcome.err_bind]
    exact ⟨_, rfl⟩

theorem parseBool_eq (name : Str) (inline : Option Str) :
    ∃ e, parseBool name inline = .ofOption e (boolValue inline) := by
  cases inline with
  | none => exact ⟨[], rfl⟩
  | some v => exact ⟨_, rfl⟩

/-- A name that the table has: it is not empty, starts with no dash and contains no `=`. -/
def PlainName (name : Str) : Prop :=
  name ≠ [] ∧ name.head? ≠ some '-' ∧ ∀ c ∈ name, (c == '=') = false

theorem ValueFlag.lookup_name (f : ValueFlag) :
    flagTable.lookup f.name = some (.value f) ∧ PlainName f.name := by
  cases f <;> exact ⟨rfl, by decide, by decide, List.all_iff_forall_prop.mp (by decide)⟩

theorem BoolFlag.lookup_names (f : BoolFlag) :
    ∀ name ∈ f.names, flagTable.lookup name = some (.bool f) ∧ PlainName name := by
  cases f
  case debug =>
    intro name hname
    rw [BoolFlag.names, List.mem_cons, List.mem_singleton] at hname
    obtain rfl | rfl := hname <;>
      exact ⟨rfl, by decide, by decide, List.all_iff_forall_prop.mp (by decide)⟩
  all_goals
    intro name hname
    obtain rfl := List.mem_singleton.mp hname
    exact ⟨rfl, by decide, by decide, List.all_iff_forall_prop.mp (by decide)⟩

theorem Dashes.dashRun {d : Str} (h : Dashes d) : DashRun d := by
  obtain rfl | rfl := h <;> simp [DashRun]

theorem SpelledBehind.mono {D E : Str → Prop} {o : Occurrence} {text : List Str}
    (h : SpelledBehind D o text) (hDE : ∀ d, D d → E d) : SpelledBehind E o text := by
  cases h with
  | inline f v hd => exact .inline f v (hDE _ hd)
  | separate f v hd => exact .separate f v (hDE _ hd)
  | bare f hd hname => exact .bare f (hDE _ hd) hname
  | boolInline f v hd hname => exact .boolInline f v (hDE _ hd) hname

/-- Only the dashes are stripped from what starts with none itself. -/
theorem DashRun.dropWhile_append {d body : Str} (hd : DashRun d) (hhead : body.head? ≠ some '-') :
    (d ++ body).dropWhile (· == '-') = body := by
  rw [List.dropWhile_append_of_pos fun c hc => beq_iff_eq.mpr (hd.2 c hc)]
  cases body with
  | nil => rfl
  | cons c body =>
      have hc : c ≠ '-' := fun h => hhead (by rw [h]; rfl)
      simp [hc]

/-- A flag behind dashes is neither positional nor the end of the flags, and nothing but
the dashes is stripped from it. -/
theorem dashes_append {d body : Str} (hd : DashRun d) (hne : body ≠ [])
    (hhead : body.head? ≠ some '-') :
    (d ++ body).head? = some '-' ∧ d ++ body ≠ "-".toList ∧ d ++ body ≠ "--".toList ∧
      (d ++ body).dropWhile (· == '-') = body := by
  have hdrop := hd.dropWhile_append hhead
  refine ⟨?_, ?_, ?_, hdrop⟩
  · obtain ⟨c, d, rfl⟩ := List.exists_cons_of_ne_nil hd.1
    rw [hd.2 c List.mem_cons_self]
    rfl
  · intro h
    rw [h] at hdrop
    exact hne hdrop.symm
  · intro h
    rw [h] at hdrop
    exact hne hdrop.symm

theorem splitInline_name {name : Str} (h : ∀ c ∈ name, (c == '=') = false) :
    splitInline name = .ok (name, none) := by
  rw [splitInline, Str.find_eq_none_iff.mpr h]

theorem splitInline_inline {name : Str} (h : ∀ c ∈ name, (c == '=') = false) (v : Str) :
    splitInline (name ++ '=' :: v) = .ok (name, some v) := by
  have hfind : Str.find (· == '=') (name ++ '=' :: v) = some (String.utf8Len name) :=
    Str.find_append_cons rfl h
  have hsize : '='.utf8Size = 1 := rfl
  simp only [splitInline, hfind, Str.sliceTo_append, Str.sliceFrom_append_cons _ _ hsize,
    Outcome.ok_bind, Outcome.pure_eq_ok]

/-- The head of a name is not lost when something follows it. -/
theorem PlainName.append {name : Str} (h : PlainName name) (t : Str) :
    name ++ t ≠ [] ∧ (name ++ t).head? ≠ some '-' := by
  obtain ⟨hne, hhead, -⟩ := h
  refine ⟨fun hnil => hne (List.append_eq_nil_iff.mp hnil).1, ?_⟩
  rwa [List.head?_append_of_ne_nil _ hne]

/-- The flag is what stands behind the dashes and before the `=`. -/
theorem readFlag_eq {d body name : Str} {inline : Option Str} {flag : Flag} (hd : DashRun d)
    (hne : body ≠ []) (hhead : body.head? ≠ some '-')
    (hsplit : splitInline body = .ok (name, inline)) (hlookup : flagTable.lookup name = some flag) :
    readFlag (d ++ body) = .ok (flag.token name inline) := by
  obtain ⟨hdash, hone, htwo, hdrop⟩ := dashes_append hd hne hhead
  have hflag : ¬ ((d ++ body).head? ≠ some '-' ∨ d ++ body = "-".toList) := by
    rintro (h | h)
    · exact h hdash
    · exact hone h
  rw [readFlag, if_neg hflag, if_neg htwo, hdrop, hsplit, Outcome.ok_bind]
  simp only [hlookup]

theorem readFlag_name {d name : Str} {flag : Flag} (hd : DashRun d) (hplain : PlainName name)
    (hlookup : flagTable.lookup name = some flag) :
    readFlag (d ++ name) = .ok (flag.token name none) :=
  readFlag_eq hd hplain.1 hplain.2.1 (splitInline_name hplain.2.2) hlookup

theorem readFlag_inline {d name : Str} {flag : Flag} (hd : DashRun d) (hplain : PlainName name)
    (hlookup : flagTable.lookup name = some flag) (v : Str) :
    readFlag (d ++ (name ++ '=' :: v)) = .ok (flag.token name (some v)) := by
  obtain ⟨hne, hhead⟩ := hplain.append ('=' :: v)
  exact readFlag_eq hd hne hhead (splitInline_inline hplain.2.2 v) hlookup

/-- Storing the value of a flag and going on. -/
theorem setValue_scan (f : ValueFlag) (v : Str) (raw : RawArgs) (args : List Str) :
    ((Occurrence.value f v).Parsable → (setValue raw v f >>= fun raw => scan false raw args) =
        scan false ((Occurrence.value f v).store raw) args) ∧
      (¬ (Occurrence.value f v).Parsable →
        ∃ e, (setValue raw v f >>= fun raw => scan false raw args) = .err e) := by
  refine ⟨?_, ?_⟩
  · intro h
    rw [setValue_of_parsable raw h, Outcome.ok_bind]
  · intro h
    obtain ⟨e, he⟩ := setValue_of_not_parsable raw h
    exact ⟨e, by rw [he, Outcome.err_bind]⟩

theorem setBool_scan (f : BoolFlag) (inline : Option Str) (name : Str) (raw : RawArgs)
    (args : List Str) :
    ((Occurrence.bool f inline).Parsable →
        (parseBool name inline >>= fun b => scan false (setBool raw b f) args) =
          scan false ((Occurrence.bool f inline).store raw) args) ∧
      (¬ (Occurrence.bool f inline).Parsable →
        ∃ e, (parseBool name inline >>= fun b => scan false (setBool raw b f) args) = .err e) := by
  obtain ⟨e, he⟩ := parseBool_eq name inline
  rw [he]
  refine ⟨?_, ?_⟩
  · intro h
    obtain ⟨b, hb⟩ := Option.isSome_iff_exists.mp h
    have hstore : setBool raw b f = (Occurrence.bool f inline).store raw := by
      cases f <;> simp [setBool, Occurrence.store, hb]
    rw [hb, Outcome.ofOption, Outcome.ok_bind, hstore]
  · intro h
    rw [Option.not_isSome_iff_eq_none.mp h, Outcome.ofOption, Outcome.err_bind]
    exact ⟨e, rfl⟩

/-- What the scanner does with an occurrence, however it is spelled. -/
theorem scan_spelledBehind {o : Occurrence} {text : List Str} (h : SpelledBehind DashRun o text)
    (raw : RawArgs) (args : List Str) :
    (o.Parsable → scan false raw (text ++ args) = scan false (o.store raw) args) ∧
      (¬ o.Parsable → ∃ e, scan false raw (text ++ args) = .err e) := by
  cases h with
  | inline f v hd =>
      obtain ⟨hlookup, hplain⟩ := f.lookup_name
      have hread := readFlag_inline hd hplain hlookup v
      rw [List.singleton_append, scan, hread]
      exact setValue_scan f v raw args
  | separate f v hd =>
      obtain ⟨hlookup, hplain⟩ := f.lookup_name
      have hread := readFlag_name hd hplain hlookup
      rw [List.cons_append, List.singleton_append, scan, hread]
      exact setValue_scan f v raw args
  | @bare d name f hd hname =>
      obtain ⟨hlookup, hplain⟩ := f.lookup_names name hname
      have hread := readFlag_name hd hplain hlookup
      rw [List.singleton_append, scan, hread]
      exact setBool_scan f none name raw args
  | @boolInline d name f v hd hname =>
      obtain ⟨hlookup, hplain⟩ := f.lookup_names name hname
      have hread := readFlag_inline hd hplain hlookup v
      rw [List.singleton_append, scan, hread]
      exact setBool_scan f (some v) name raw args

/-! ## The whole command line -/

theorem scan_spelled_all {occs : List Occurrence} {texts : List (List Str)}
    (h : List.Forall₂ Spelled occs texts) (raw : RawArgs) :
    ((∀ o ∈ occs, o.Parsable) →
        scan false raw texts.flatten = .ok (finish (occs.foldl Occurrence.store raw))) ∧
      ((∃ o ∈ occs, ¬ o.Parsable) → ∃ e, scan false raw texts.flatten = .err e) := by
  induction h generalizing raw with
  | nil => simp [scan]
  | @cons o text occs texts ho _ ih =>
      have hbehind := ho.mono fun _ => Dashes.dashRun
      obtain ⟨hok, herr⟩ := scan_spelledBehind hbehind raw texts.flatten
      rw [List.flatten_cons, List.foldl_cons]
      refine ⟨?_, ?_⟩
      · intro hall
        rw [hok (hall o List.mem_cons_self)]
        exact (ih _).1 fun p hp => hall p (List.mem_cons_of_mem o hp)
      · rintro ⟨p, hp, hbad⟩
        by_cases ho : o.Parsable
        · rw [hok ho]
          rcases List.mem_cons.mp hp with rfl | hp
          · exact absurd ho hbad
          · exact (ih _).2 ⟨p, hp, hbad⟩
        · exact herr ho

/-- The last value of a flag is the one that was stored last. -/
theorem rawOf_append (occs : List Occurrence) (o : Occurrence) :
    rawOf (occs ++ [o]) = o.store (rawOf occs) := by
  cases o with
  | value f v =>
      cases f <;> simp [rawOf, Occurrence.store, valuesOf, boolsOf, lastU64, lastBool]
  | bool f inline =>
      cases f <;> simp [rawOf, Occurrence.store, valuesOf, boolsOf, lastU64, lastBool]

theorem foldl_store (occs : List Occurrence) : occs.foldl Occurrence.store {} = rawOf occs := by
  induction occs using List.reverseRecOn with
  | nil => rfl
  | append_singleton occs o ih => rw [List.foldl_append, ih, rawOf_append, List.foldl_cons,
      List.foldl_nil]

theorem mem_valuesOf_iff {f : ValueFlag} {v : Str} {occs : List Occurrence} :
    v ∈ valuesOf f occs ↔ .value f v ∈ occs := by
  rw [valuesOf, List.mem_filterMap]
  constructor
  · rintro ⟨o, ho, hv⟩
    cases o with
    | value g w =>
        simp only [Option.ite_none_right_eq_some, Option.some.injEq] at hv
        obtain ⟨rfl, rfl⟩ := hv
        exact ho
    | bool g inline => cases hv
  · intro ho
    exact ⟨_, ho, by simp⟩

theorem mem_boolsOf_iff {f : BoolFlag} {inline : Option Str} {occs : List Occurrence} :
    inline ∈ boolsOf f occs ↔ .bool f inline ∈ occs := by
  rw [boolsOf, List.mem_filterMap]
  constructor
  · rintro ⟨o, ho, hv⟩
    cases o with
    | value g w => cases hv
    | bool g inline' =>
        simp only [Option.ite_none_right_eq_some, Option.some.injEq] at hv
        obtain ⟨rfl, rfl⟩ := hv
        exact ho
  · intro ho
    exact ⟨_, ho, by simp⟩

/-- Occurrences with the same values, flag by flag, stand or fall together. -/
theorem parsable_of_same_values {occs occs' : List Occurrence}
    (hvalues : ∀ f, valuesOf f occs' = valuesOf f occs) (hbools : ∀ f, boolsOf f occs' = boolsOf f occs)
    (h : ∀ o ∈ occs, o.Parsable) : ∀ o ∈ occs', o.Parsable := by
  intro o ho
  cases o with
  | value f v =>
      rw [← mem_valuesOf_iff, hvalues, mem_valuesOf_iff] at ho
      exact h _ ho
  | bool f inline =>
      rw [← mem_boolsOf_iff, hbools, mem_boolsOf_iff] at ho
      exact h _ ho

/-- A scan that is no error returns what the occurrences stand for. -/
theorem parseArgs_eq_ok_run_iff {occs : List Occurrence} {texts : List (List Str)}
    (h : List.Forall₂ Spelled occs texts) {raw : RawArgs} :
    parseArgs texts.flatten = .ok (.run raw) ↔ (∀ o ∈ occs, o.Parsable) ∧ raw = rawOf occs := by
  obtain ⟨hok, herr⟩ := scan_spelled_all h {}
  rw [foldl_store] at hok
  by_cases hall : ∀ o ∈ occs, o.Parsable
  · have hrun : parseArgs texts.flatten = .ok (.run (rawOf occs)) := hok hall
    rw [hrun, Outcome.ok.injEq, ParseOutcome.run.injEq]
    constructor
    · intro heq
      exact ⟨hall, heq.symm⟩
    · rintro ⟨-, rfl⟩
      rfl
  · refine ⟨fun hrun => ?_, fun hrun => absurd hrun.1 hall⟩
    simp only [not_forall, exists_prop] at hall
    obtain ⟨e, he⟩ := herr hall
    have herr' : parseArgs texts.flatten = .err e := he
    rw [herr'] at hrun
    cases hrun

/-- **Scanning is independent of spelling and of the order of different flags.** Whatever
the values contain, the arguments are an error exactly if some value cannot be parsed for
its flag, and otherwise the scan returns what the occurrences stand for. So two command
lines whose flags have the same values, flag by flag, give the same result. -/
theorem parseArgs_spelled {occs : List Occurrence} {texts : List (List Str)}
    (h : List.Forall₂ Spelled occs texts) :
    ((∃ e, parseArgs texts.flatten = .err e) ↔ ∃ o ∈ occs, ¬ o.Parsable) ∧
      ((∀ o ∈ occs, o.Parsable) → parseArgs texts.flatten = .ok (.run (rawOf occs))) ∧
      ∀ {occs' : List Occurrence} {texts' : List (List Str)}, List.Forall₂ Spelled occs' texts' →
        (∀ f, valuesOf f occs' = valuesOf f occs) → (∀ f, boolsOf f occs' = boolsOf f occs) →
        ∀ raw, parseArgs texts'.flatten = .ok (.run raw) ↔
          parseArgs texts.flatten = .ok (.run raw) := by
  have hrun : (∀ o ∈ occs, o.Parsable) → parseArgs texts.flatten = .ok (.run (rawOf occs)) :=
    fun hall => (parseArgs_eq_ok_run_iff h).mpr ⟨hall, rfl⟩
  refine ⟨⟨?_, (scan_spelled_all h {}).2⟩, hrun, ?_⟩
  · rintro ⟨e, he⟩
    by_contra hall
    simp only [not_exists, not_and, not_not] at hall
    rw [hrun hall] at he
    cases he
  · intro occs' texts' h' hvalues hbools raw
    have hraw : rawOf occs' = rawOf occs := by
      simp only [rawOf, lastU64, lastBool, hvalues, hbools]
    rw [parseArgs_eq_ok_run_iff h, parseArgs_eq_ok_run_iff h', hraw]
    refine and_congr_left fun _ => ⟨?_, ?_⟩
    · exact parsable_of_same_values (fun f => (hvalues f).symm) fun f => (hbools f).symm
    · exact parsable_of_same_values hvalues hbools

/-- Values that look like flags, in two spellings and two orders. -/
theorem parseArgs_spelled_values_like_flags :
    parseArgs ["-L".toList, "--nat".toList, "--M=-7".toList, "-D".toList, "--L==".toList,
        "-debug=OFF".toList] =
      .ok (.run { listens := ["--nat".toList, "=".toList], mark := some (-7), debug := false }) ∧
    parseArgs ["--debug".toList, "-L=--nat".toList, "--D=off".toList, "--L".toList, "=".toList,
        "-M".toList, "-7".toList] =
      .ok (.run { listens := ["--nat".toList, "=".toList], mark := some (-7), debug := false }) := by
  have one : Dashes ['-'] := .inl rfl
  have two : Dashes ['-', '-'] := .inr rfl
  have h : List.Forall₂ Spelled
      [.value .L "--nat".toList, .value .M "-7".toList, .bool .debug none, .value .L "=".toList,
        .bool .debug (some "OFF".toList)]
      [["-L".toList, "--nat".toList], ["--M=-7".toList], ["-D".toList], ["--L==".toList],
        ["-debug=OFF".toList]] :=
    .cons (.separate .L _ one) (.cons (.inline .M _ two)
      (.cons (.bare .debug one (List.mem_cons_self)) (.cons (.inline .L _ two)
        (.cons (.boolInline .debug _ one (List.mem_cons_of_mem _ List.mem_cons_self))
          .nil))))
  have h' : List.Forall₂ Spelled
      [.bool .debug none, .value .L "--nat".toList, .bool .debug (some "off".toList),
        .value .L "=".toList, .value .M "-7".toList]
      [["--debug".toList], ["-L=--nat".toList], ["--D=off".toList], ["--L".toList, "=".toList],
        ["-M".toList, "-7".toList]] :=
    .cons (.bare .debug two (List.mem_cons_of_mem _ List.mem_cons_self))
      (.cons (.inline .L _ one) (.cons (.boolInline .debug _ two List.mem_cons_self)
        (.cons (.separate .L _ two) (.cons (.separate .M _ one) .nil))))
  refine ⟨?_, ?_⟩
  · refine (parseArgs_spelled h).2.1 ?_
    simp only [List.mem_cons, List.not_mem_nil, or_false, forall_eq_or_imp, forall_eq]
    exact ⟨trivial, by rfl, by rfl, trivial, by rfl⟩
  · refine (parseArgs_spelled h').2.1 ?_
    simp only [List.mem_cons, List.not_mem_nil, or_false, forall_eq_or_imp, forall_eq]
    exact ⟨by rfl, trivial, by rfl, trivial, by rfl⟩

end Gust
