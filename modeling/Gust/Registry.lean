import Mathlib.Algebra.Order.BigOperators.Group.List
import Gust.Forward.Gauge
import Gust.Lib.Relaxed

/-!
# What the heartbeat and the status dump report

`Registry` is the counters of all listeners, in the order of the configuration. The heartbeat
and the SIGUSR1 task read them without any lock, one counter after the other and with relaxed
loads, while the listeners go on. So a line is not a snapshot: `active` may even be above
`accepted` in it. What it is good for is `heartbeat_lines_ordered` and `dump_totals_ordered`:
the counts that only grow never go down from one report to the next, and none is above the
truth.
-/

namespace Gust.Registry

open Gust.Lib

variable {n : ℕ}

/-! ## The shared counters -/

/-- All listeners of a process, with all their tasks. -/
abbrev State (n : ℕ) := Fin n → Listener

def machine (targets : Fin n → List Str) : Machine (State n) (Fin n × Listener.Act) where
  init j := (Listener.machine (targets j)).init
  step s a := ((Listener.machine (targets a.1)).step (s a.1) a.2).map (Function.update s a.1)

inductive Field
  | accepted
  | active
  | restarts
  | errors
  | lastError
  deriving DecidableEq, Repr

abbrev Field.Val : Field → Type
  | accepted => UInt64
  | active => UInt64
  | restarts => UInt64
  | errors => UInt64
  | lastError => Option Str

/-- A field of the counters of one listener. -/
abbrev Loc (n : ℕ) := Fin n × Field

abbrev Val (l : Loc n) : Type := l.2.Val

def value (l : Loc n) (s : State n) : Val l :=
  match l with
  | (j, .accepted) => (s j).stats.accepted
  | (j, .active) => (s j).stats.active
  | (j, .restarts) => (s j).stats.restarts
  | (j, .errors) => (s j).stats.errors
  | (j, .lastError) => (s j).stats.lastError

abbrev Report (n : ℕ) := Loads (Val : Loc n → Type)

def accepted (j : Fin n) : Report n UInt64 := Loads.get (V := Val) (j, .accepted)
def active (j : Fin n) : Report n UInt64 := Loads.get (V := Val) (j, .active)
def restarts (j : Fin n) : Report n UInt64 := Loads.get (V := Val) (j, .restarts)
def errors (j : Fin n) : Report n UInt64 := Loads.get (V := Val) (j, .errors)

/-- The lock around it makes the value no older than it would be without. -/
def lastError (j : Fin n) : Report n (Option Str) := Loads.get (V := Val) (j, .lastError)

/-! ## The reports -/

/-- `iter().map(..).sum()`. -/
def sum (counter : Fin n → Report n UInt64) : Report n UInt64 :=
  (List.finRange n).foldlM (fun total j => do return total + (← counter j)) 0

/-- The numbers of a heartbeat line. -/
structure Totals where
  accepted : UInt64
  active : UInt64
  restarts : UInt64
  deriving DecidableEq, Repr

def totals : Report n Totals := do
  let active ← sum active
  let accepted ← sum accepted
  let restarts ← sum restarts
  return ⟨accepted, active, restarts⟩

def Totals.line (n : ℕ) (t : Totals) : Str :=
  "heartbeat: listeners=".toList ++ Str.ofNat n ++ " accepted=".toList ++
    Str.ofNat t.accepted.toNat ++ " active=".toList ++ Str.ofNat t.active.toNat ++
    " restarts=".toList ++ Str.ofNat t.restarts.toNat

def heartbeatLine : Report n Str := do
  return (← totals).line n

/-- The numbers of the line for one listener. -/
structure Summary where
  accepted : UInt64
  active : UInt64
  restarts : UInt64
  errors : UInt64
  lastError : Option Str
  deriving DecidableEq, Repr

def summary (j : Fin n) : Report n Summary := do
  let lastError ← lastError j
  let accepted ← accepted j
  let active ← active j
  let restarts ← restarts j
  let errors ← errors j
  return ⟨accepted, active, restarts, errors, lastError⟩

def Summary.line (name : Str) (s : Summary) : Str :=
  name ++ " accepted=".toList ++ Str.ofNat s.accepted.toNat ++ " active=".toList ++
    Str.ofNat s.active.toNat ++ " restarts=".toList ++ Str.ofNat s.restarts.toNat ++
    " errors=".toList ++ Str.ofNat s.errors.toNat ++
    match s.lastError with
    | some e => ", last_error=\"".toList ++ e ++ "\"".toList
    | none => []

/-- What a status dump has found, and its totals so far. -/
structure Dump where
  summaries : List Summary
  totalAccepted : UInt64
  totalActive : UInt64
  deriving DecidableEq, Repr

/-- One turn of the loop over the listeners. -/
def dumpListener (d : Dump) (j : Fin n) : Report n Dump := do
  let active ← active j
  let accepted ← accepted j
  let s ← summary j
  return ⟨d.summaries ++ [s], d.totalAccepted + accepted, d.totalActive + active⟩

def collect : Report n Dump := (List.finRange n).foldlM dumpListener ⟨[], 0, 0⟩

def Dump.lines (names : Fin n → Str) (d : Dump) : List Str :=
  ("--- status dump (".toList ++ Str.ofNat n ++ " listeners) ---".toList) ::
    List.zipWith Summary.line (List.ofFn names) d.summaries ++
    ["totals: accepted=".toList ++ Str.ofNat d.totalAccepted.toNat ++ " active=".toList ++
      Str.ofNat d.totalActive.toNat]

def dump (names : Fin n → Str) : Report n (List Str) := do
  return (← collect).lines names

/-- The listeners of a process, next to a task that reports on them. -/
abbrev Watched (n : ℕ) (α : Type) := Observed (State n) (Val : Loc n → Type) α

abbrev Act (n : ℕ) := ObservedAct (Fin n × Listener.Act)

def heartbeat (targets : Fin n → List Str) : Machine (Watched n Str) (Act n) :=
  observed (machine targets) value heartbeatLine

/-- The lines that the heartbeat writes. -/
def heartbeatLines (targets : Fin n → List Str) (acts : List (Act n)) : List Str :=
  (heartbeat targets).outputs Observed.out (heartbeat targets).init acts

/-- The task that answers SIGUSR1. -/
def statusDump (targets : Fin n → List Str) (names : Fin n → Str) :
    Machine (Watched n (List Str)) (Act n) :=
  observed (machine targets) value (dump names)

/-- The dumps, each as its lines. -/
def statusDumps (targets : Fin n → List Str) (names : Fin n → Str)
    (acts : List (Act n)) : List (List Str) :=
  (statusDump targets names).outputs Observed.out (statusDump targets names).init acts

/-! ## What has really happened -/

/-- The steps of one listener. -/
def actsOf (own : List (Fin n × Listener.Act)) (j : Fin n) : List Listener.Act :=
  own.filterMap fun a => if a.1 = j then some a.2 else none

/-- The operations on the counters of one listener. -/
def ops (targets : Fin n → List Str) (own : List (Fin n × Listener.Act)) (j : Fin n) :
    List StatsOp :=
  Listener.opsOf (targets j) (actsOf own j)

/-- How often an operation was made, on all listeners together. -/
def count (targets : Fin n → List Str) (own : List (Fin n × Listener.Act)) (op : StatsOp) : ℕ :=
  ((List.finRange n).map fun j => (ops targets own j).count op).sum

variable {targets : Fin n → List Str} {own : List (Fin n × Listener.Act)} {s : State n}

/-- In the process, each listener is a listener. -/
theorem listener_run (h : (machine targets).run (machine targets).init own = some s) (j : Fin n) :
    (Listener.machine (targets j)).run (Listener.machine (targets j)).init (actsOf own j) =
      some (s j) := by
  refine Machine.run_simulation (N := Listener.machine (targets j)) (fun s : State n => s j) _ ?_ h
  rintro s ⟨i, a⟩ t hstep
  obtain ⟨l, hl, rfl⟩ := Option.map_eq_some_iff.mp hstep
  by_cases hij : i = j
  · subst hij
    simpa using Machine.run_singleton hl
  · simp [hij, Machine.run, Function.update_of_ne (Ne.symm hij)]

theorem run_take (h : (machine targets).run (machine targets).init own = some s) (t : ℕ) :
    ∃ r, (machine targets).run (machine targets).init (own.take t) = some r := by
  rw [← List.take_append_drop t own] at h
  obtain ⟨r, hr, -⟩ := Machine.run_append_iff.mp h
  exact ⟨r, hr⟩

/-- The operations at one time are the first of those at a later time. -/
theorem ops_isPrefix (h : (machine targets).run (machine targets).init own = some s) {t t' : ℕ}
    (ht : t ≤ t') (j : Fin n) : ops targets (own.take t) j <+: ops targets (own.take t') j := by
  obtain ⟨r, hr⟩ := run_take h t
  obtain ⟨rest, hrest⟩ := List.take_prefix_take_left (l := own) ht
  have happend : actsOf (own.take t ++ rest) j = actsOf (own.take t) j ++ actsOf rest j :=
    List.filterMap_append
  rw [← hrest, ops, ops, happend, Listener.opsOf, Listener.opsOf,
    Machine.outputs_append (listener_run hr j)]
  exact List.prefix_append _ _

theorem count_ops_mono (h : (machine targets).run (machine targets).init own = some s) {t t' : ℕ}
    (ht : t ≤ t') (j : Fin n) (op : StatsOp) :
    (ops targets (own.take t) j).count op ≤ (ops targets (own.take t') j).count op :=
  (ops_isPrefix h ht j).sublist.count_le op

theorem count_ops_le (h : (machine targets).run (machine targets).init own = some s) (t : ℕ)
    (j : Fin n) (op : StatsOp) :
    (ops targets (own.take t) j).count op ≤ (ops targets own j).count op := by
  have hle := count_ops_mono h (Nat.le_max_left t own.length) j op
  rwa [List.take_of_length_le (Nat.le_max_right _ _)] at hle

/-- The counter of the restarts is right, up to its width. -/
theorem restarts_eq {ts : List Str} {as : List Listener.Act} {l : Listener}
    (h : (Listener.machine ts).run (Listener.machine ts).init as = some l) :
    l.stats.restarts = UInt64.ofNat ((Listener.opsOf ts as).count .restart) := by
  refine Machine.run_outputs_invariant
    (I := fun (ops : List StatsOp) (l : Listener) =>
      l.stats.restarts = UInt64.ofNat (ops.count .restart)) rfl ?_ h
  intro ops l a l' hl hstep
  obtain ⟨⟨op, runs⟩, hact, rfl⟩ := Option.map_eq_some_iff.mp hstep
  have hop : l.op ts a = op := by simp [Listener.op, hact]
  rw [hop]
  cases op with
  | none => simpa using hl
  | some op => cases op <;> simp [ListenerStats.apply, hl]

/-! ## Loads and the truth -/

/-- What a load of `counter` returns: the value `c j t` of some time `t`, not before the time of
the last load. -/
def Reads (hs : List (State n)) (counter : Fin n → Report n UInt64) (field : Field)
    (c : Fin n → ℕ → ℕ) : Prop :=
  ∀ {j : Fin n} {w : Loc n → ℕ} {v : UInt64} {w' : Loc n → ℕ},
    Completes value hs (counter j) w v w' → ∃ t, w (j, field) ≤ t ∧ v = UInt64.ofNat (c j t) ∧
      w' = Function.update w (j, field) t

section Reads

variable {hs : List (State n)} {counter : Fin n → Report n UInt64} {field : Field}
  {c : Fin n → ℕ → ℕ} {w w' : Loc n → ℕ}

/-- A sum of counters is the sum of what was last seen of each. -/
theorem completes_foldlM (hcounter : Reads hs counter field c) {js : List (Fin n)} (hjs : js.Nodup)
    {total v : UInt64} (h : Completes value hs
      (js.foldlM (fun total j => do return total + (← counter j)) total) w v w') :
    v = total + UInt64.ofNat ((js.map fun j => c j (w' (j, field))).sum) ∧
      ∀ l : Loc n, l.2 ≠ field ∨ l.1 ∉ js → w' l = w l := by
  induction js generalizing total w with
  | nil =>
      obtain ⟨rfl, rfl⟩ := h
      exact ⟨by simp, fun _ _ => rfl⟩
  | cons j js ih =>
      obtain ⟨hj, hjs⟩ := List.nodup_cons.mp hjs
      rw [List.foldlM_cons, completes_bind] at h
      obtain ⟨total', u, hone, hrest⟩ := h
      obtain ⟨x, u', hx, rfl, rfl⟩ := completes_bind.mp hone
      obtain ⟨t, -, rfl, rfl⟩ := hcounter hx
      obtain ⟨hv, hframe⟩ := ih hjs hrest
      have hat : w' (j, field) = t := by
        rw [hframe (j, field) (.inr hj), Function.update_self]
      refine ⟨?_, fun l hl => ?_⟩
      · rw [hv, List.map_cons, List.sum_cons, hat, UInt64.ofNat_add, UInt64.add_assoc]
      · have hne : l ≠ (j, field) := by
          rintro rfl
          simp at hl
        rw [hframe l (hl.imp_right fun h hmem => h (List.mem_cons_of_mem j hmem)),
          Function.update_of_ne hne]

theorem completes_sum (hcounter : Reads hs counter field c) {v : UInt64}
    (h : Completes value hs (sum counter) w v w') :
    v = UInt64.ofNat (((List.finRange n).map fun j => c j (w' (j, field))).sum) ∧
      ∀ l : Loc n, l.2 ≠ field → w' l = w l := by
  obtain ⟨hv, hframe⟩ := completes_foldlM hcounter (List.nodup_finRange n) h
  exact ⟨by simpa using hv, fun l hl => hframe l (.inl hl)⟩

end Reads

/-- What the totals of one line are, by the times of its loads. -/
theorem completes_totals {hs : List (State n)} {cActive cAccepted cRestarts : Fin n → ℕ → ℕ}
    (hactive : Reads hs active .active cActive) (haccepted : Reads hs accepted .accepted cAccepted)
    (hrestarts : Reads hs restarts .restarts cRestarts) {w w' : Loc n → ℕ} {t : Totals}
    (h : Completes value hs totals w t w') :
    t.accepted =
        UInt64.ofNat (((List.finRange n).map fun j => cAccepted j (w' (j, .accepted))).sum) ∧
      t.active = UInt64.ofNat (((List.finRange n).map fun j => cActive j (w' (j, .active))).sum) ∧
      t.restarts =
        UInt64.ofNat (((List.finRange n).map fun j => cRestarts j (w' (j, .restarts))).sum) := by
  obtain ⟨x, u, hx, h⟩ := completes_bind.mp h
  obtain ⟨y, u', hy, h⟩ := completes_bind.mp h
  obtain ⟨z, u'', hz, rfl, rfl⟩ := completes_bind.mp h
  obtain ⟨rfl, -⟩ := completes_sum hactive hx
  obtain ⟨rfl, hframe⟩ := completes_sum haccepted hy
  obtain ⟨rfl, hframe'⟩ := completes_sum hrestarts hz
  refine ⟨?_, ?_, rfl⟩
  · simp [hframe']
  · simp [hframe, hframe']

/-- What one turn of a dump has found of its listener: the total gets what was first seen of the
accepts, and the summary what was seen last. -/
theorem completes_dumpListener {hs : List (State n)} {cActive cAccepted : Fin n → ℕ → ℕ}
    (hactive : Reads hs active .active cActive) (haccepted : Reads hs accepted .accepted cAccepted)
    {w w' : Loc n → ℕ} {d d' : Dump} {j : Fin n}
    (h : Completes value hs (dumpListener d j) w d' w') :
    (∀ l : Loc n, l.1 ≠ j → w' l = w l) ∧
      ∃ s t u, w (j, .accepted) ≤ t ∧ t ≤ w' (j, .accepted) ∧
        s.accepted = UInt64.ofNat (cAccepted j (w' (j, .accepted))) ∧
        d' = ⟨d.summaries ++ [s], d.totalAccepted + UInt64.ofNat (cAccepted j t),
          d.totalActive + UInt64.ofNat (cActive j u)⟩ := by
  obtain ⟨x, w₁, hx, h⟩ := completes_bind.mp h
  obtain ⟨y, w₂, hy, h⟩ := completes_bind.mp h
  obtain ⟨s, w₃, hs, rfl, rfl⟩ := completes_bind.mp h
  obtain ⟨e, u₁, he, hs⟩ := completes_bind.mp hs
  obtain ⟨a, u₂, ha, hs⟩ := completes_bind.mp hs
  obtain ⟨b, u₃, hb, hs⟩ := completes_bind.mp hs
  obtain ⟨c, u₄, hc, hs⟩ := completes_bind.mp hs
  obtain ⟨f, u₅, hf, rfl, rfl⟩ := completes_bind.mp hs
  obtain ⟨te, -, hte, -, -, rfl⟩ := completes_get.mp he
  obtain ⟨tc, -, htc, -, -, rfl⟩ := completes_get.mp hc
  obtain ⟨tf, -, htf, -, -, rfl⟩ := completes_get.mp hf
  obtain ⟨tx, htx, rfl, rfl⟩ := hactive hx
  obtain ⟨ty, hty, rfl, rfl⟩ := haccepted hy
  obtain ⟨ta, hta, rfl, rfl⟩ := haccepted ha
  obtain ⟨tb, htb, rfl, rfl⟩ := hactive hb
  refine ⟨?_, _, ty, tx, ?_, ?_, ?_, rfl⟩
  · intro l hl
    have hne : ∀ field, l ≠ (j, field) := by
      rintro field rfl
      exact hl rfl
    simp [hne]
  · simpa using hty
  · simpa using hta
  · simp

/-- What a whole dump has found: for each listener two times, and in between the one by which
the total counts it. -/
structure Found (cActive cAccepted : Fin n → ℕ → ℕ) (js : List (Fin n)) (w : Loc n → ℕ)
    (d d' : Dump) (w' : Loc n → ℕ) (time time' : Fin n → ℕ) (rows : List Summary) : Prop where
  summaries : d'.summaries = d.summaries ++ rows
  rows : rows.map Summary.accepted =
    js.map fun j => UInt64.ofNat (cAccepted j (w' (j, .accepted)))
  totalAccepted : d'.totalAccepted =
    d.totalAccepted + UInt64.ofNat ((js.map fun j => cAccepted j (time j)).sum)
  totalActive : d'.totalActive =
    d.totalActive + UInt64.ofNat ((js.map fun j => cActive j (time' j)).sum)
  between : ∀ j ∈ js, w (j, .accepted) ≤ time j ∧ time j ≤ w' (j, .accepted)
  frame : ∀ l : Loc n, l.1 ∉ js → w' l = w l

theorem completes_collect {hs : List (State n)} {cActive cAccepted : Fin n → ℕ → ℕ}
    (hactive : Reads hs active .active cActive) (haccepted : Reads hs accepted .accepted cAccepted)
    {js : List (Fin n)} (hjs : js.Nodup) {w w' : Loc n → ℕ} {d d' : Dump}
    (h : Completes value hs (js.foldlM dumpListener d) w d' w') :
    ∃ time time' rows, Found cActive cAccepted js w d d' w' time time' rows := by
  induction js generalizing d w with
  | nil =>
      obtain ⟨rfl, rfl⟩ := h
      exact ⟨fun _ => 0, fun _ => 0, [], by simp, rfl, by simp, by simp, by simp, fun _ _ => rfl⟩
  | cons j js ih =>
      obtain ⟨hj, hjs⟩ := List.nodup_cons.mp hjs
      rw [List.foldlM_cons, completes_bind] at h
      obtain ⟨d₁, w₁, hone, hrest⟩ := h
      obtain ⟨hframe, s, t, u, ht, ht', hs, rfl⟩ :=
        completes_dumpListener hactive haccepted hone
      obtain ⟨time, time', rows, hfound⟩ := ih hjs hrest
      have hlast : w' (j, .accepted) = w₁ (j, .accepted) := hfound.frame (j, .accepted) hj
      have hother : ∀ (f : Fin n → ℕ) (v : ℕ) (c : Fin n → ℕ → ℕ),
          (js.map fun i => c i (Function.update f j v i)) = js.map fun i => c i (f i) := by
        intro f v c
        refine List.map_congr_left fun i hi => ?_
        rw [Function.update_of_ne (ne_of_mem_of_not_mem hi hj)]
      refine ⟨Function.update time j t, Function.update time' j u, s :: rows,
        ?_, ?_, ?_, ?_, ?_, ?_⟩
      · rw [hfound.summaries, List.append_assoc]
        rfl
      · rw [List.map_cons, List.map_cons, hfound.rows, hlast, hs]
      · rw [List.map_cons, List.sum_cons, Function.update_self, hother, hfound.totalAccepted,
          UInt64.ofNat_add, UInt64.add_assoc]
      · rw [List.map_cons, List.sum_cons, Function.update_self, hother, hfound.totalActive,
          UInt64.ofNat_add, UInt64.add_assoc]
      · intro i hi
        rcases List.mem_cons.mp hi with rfl | hi
        · rw [Function.update_self, hlast]
          exact ⟨ht, ht'⟩
        · have hne : i ≠ j := ne_of_mem_of_not_mem hi hj
          rw [Function.update_of_ne hne, ← hframe (i, .accepted) hne]
          exact hfound.between i hi
      · intro l hl
        obtain ⟨hlj, hljs⟩ := List.ne_and_not_mem_of_not_mem_cons hl
        rw [hfound.frame l hljs, hframe l hlj]

/-- How often an operation was made, for each listener by its own time. -/
def countAt (targets : Fin n → List Str) (own : List (Fin n × Listener.Act)) (op : StatsOp)
    (time : Fin n → ℕ) : ℕ :=
  ((List.finRange n).map fun j => (ops targets (own.take (time j)) j).count op).sum

theorem countAt_mono (h : (machine targets).run (machine targets).init own = some s) (op : StatsOp)
    {time time' : Fin n → ℕ} (hle : ∀ j, time j ≤ time' j) :
    countAt targets own op time ≤ countAt targets own op time' :=
  List.sum_le_sum fun j _ => count_ops_mono h (hle j) j op

theorem countAt_le (h : (machine targets).run (machine targets).init own = some s) (op : StatsOp)
    (time : Fin n → ℕ) : countAt targets own op time ≤ count targets own op :=
  List.sum_le_sum fun j _ => count_ops_le h (time j) j op

section History

variable {hs : List (State n)}
  (hhistory : ∀ t x, hs[t]? = some x →
    (machine targets).run (machine targets).init (own.take t) = some x)

include hhistory

theorem reads_accepted :
    Reads hs accepted .accepted fun j t => (ops targets (own.take t) j).count .accept := by
  intro j w v w' h
  obtain ⟨t, x, ht, hx, rfl, rfl⟩ := completes_get.mp h
  exact ⟨t, ht, (Listener.inv_run (listener_run (hhistory t x hx) j)).counts.accepted, rfl⟩

theorem reads_active : Reads hs active .active fun j t =>
    (ops targets (own.take t) j).count .guard - (ops targets (own.take t) j).count .unguard := by
  intro j w v w' h
  obtain ⟨t, x, ht, hx, rfl, rfl⟩ := completes_get.mp h
  have hinv := Listener.inv_run (listener_run (hhistory t x hx) j)
  have hmade : (x j).guards = (ops targets (own.take t) j).count .guard -
      (ops targets (own.take t) j).count .unguard := Nat.eq_sub_of_add_eq hinv.made
  have hactive := hinv.counts.active
  rw [hmade] at hactive
  exact ⟨t, ht, hactive, rfl⟩

theorem reads_restarts :
    Reads hs restarts .restarts fun j t => (ops targets (own.take t) j).count .restart := by
  intro j w v w' h
  obtain ⟨t, x, ht, hx, rfl, rfl⟩ := completes_get.mp h
  exact ⟨t, ht, restarts_eq (listener_run (hhistory t x hx) j), rfl⟩

end History

/-- There are never more guards than accepts. -/
theorem guards_le (h : (machine targets).run (machine targets).init own = some s) (t : ℕ)
    (j : Fin n) :
    (ops targets (own.take t) j).count .guard - (ops targets (own.take t) j).count .unguard ≤
      (ops targets (own.take t) j).count .accept := by
  obtain ⟨r, hr⟩ := run_take h t
  have haccepted := (Listener.inv_run (listener_run hr j)).accepted
  rw [ops]
  omega

theorem active_le (h : (machine targets).run (machine targets).init own = some s)
    (time : Fin n → ℕ) : ((List.finRange n).map fun j =>
      (ops targets (own.take (time j)) j).count .guard -
        (ops targets (own.take (time j)) j).count .unguard).sum ≤ count targets own .accept :=
  (List.sum_le_sum fun j _ => guards_le h (time j) j).trans (countAt_le h .accept time)

/-- **Heartbeat lines are in order.** However the listeners and the heartbeat interleave and
however old the values are that its loads see: the accepts and the restarts never go down
from one line to a later one, and no number of a line is above the true one. -/
theorem heartbeat_lines_ordered (targets : Fin n → List Str) {acts : List (Act n)}
    {s : Watched n Str} (h : (heartbeat targets).run (heartbeat targets).init acts = some s)
    (haccepts : count targets (ownActs acts) .accept < 2 ^ 64)
    (hrestarts : count targets (ownActs acts) .restart < 2 ^ 64) :
    ∃ ts : List Totals, heartbeatLines targets acts = ts.map (Totals.line n) ∧
      ts.Pairwise (fun a b => a.accepted ≤ b.accepted ∧ a.restarts ≤ b.restarts) ∧
      ∀ t ∈ ts, t.accepted.toNat ≤ count targets (ownActs acts) .accept ∧
        t.active.toNat ≤ count targets (ownActs acts) .accept ∧
        t.restarts.toNat ≤ count targets (ownActs acts) .restart := by
  obtain ⟨hrun, -, hhistory⟩ := history_of_run h
  obtain ⟨w, hemits⟩ := emits_of_run h
  obtain ⟨ts, hts, hemits⟩ := hemits.of_map
  have htotals : ∀ w t w', Completes value s.history totals w t w' →
      t.accepted.toNat = countAt targets (ownActs acts) .accept (fun j => w' (j, .accepted)) ∧
      t.active.toNat ≤ count targets (ownActs acts) .accept ∧
      t.restarts.toNat = countAt targets (ownActs acts) .restart fun j => w' (j, .restarts) := by
    intro w t w' ht
    obtain ⟨haccepted, hactive, hrestarted⟩ := completes_totals (reads_active hhistory)
      (reads_accepted hhistory) (reads_restarts hhistory) ht
    have hle := active_le hrun fun j => w' (j, .active)
    refine ⟨?_, ?_, ?_⟩
    · rw [haccepted]
      exact UInt64.toNat_ofNat_of_lt' ((countAt_le hrun _ _).trans_lt haccepts)
    · rw [hactive, UInt64.toNat_ofNat_of_lt' (hle.trans_lt haccepts)]
      exact hle
    · rw [hrestarted]
      exact UInt64.toNat_ofNat_of_lt' ((countAt_le hrun _ _).trans_lt hrestarts)
  have haccepted := hemits.pairwise
    (fun w => countAt targets (ownActs acts) .accept fun j => w (j, .accepted))
    (fun t => t.accepted.toNat) (fun t => t.accepted.toNat) (by
      intro w t w' ht
      have hle := countAt_mono hrun .accept fun j => ht.le (j, .accepted)
      rw [(htotals w t w' ht).1]
      exact ⟨hle, le_rfl, hle⟩)
  have hrestarted := hemits.pairwise
    (fun w => countAt targets (ownActs acts) .restart fun j => w (j, .restarts))
    (fun t => t.restarts.toNat) (fun t => t.restarts.toNat) (by
      intro w t w' ht
      have hle := countAt_mono hrun .restart fun j => ht.le (j, .restarts)
      rw [(htotals w t w' ht).2.2]
      exact ⟨hle, le_rfl, hle⟩)
  refine ⟨ts, hts, ?_, fun t ht => ⟨?_, ?_, ?_⟩⟩
  · refine (haccepted.1.and hrestarted.1).imp fun h => ?_
    simpa only [UInt64.le_iff_toNat_le] using h
  · exact (haccepted.2 t ht).trans (countAt_le hrun _ _)
  · exact hemits.forall_mem (fun w t w' ht => (htotals w t w' ht).2.1) t ht
  · exact (hrestarted.2 t ht).trans (countAt_le hrun _ _)

/-- One listener. -/
def single : Fin 1 → List Str := fun _ => ["9.9.9.9:80".toList]

/-- A connection is accepted while the line is put together, and one load is late: in the first
of two lines, more is active than accepted. -/
theorem heartbeat_lines_ordered_stale :
    ∃ acts s, (heartbeat single).run (heartbeat single).init acts = some s ∧
      ∃ ts : List Totals,
        heartbeatLines single acts = ts.map (Totals.line 1) ∧
        ts.map (Totals.line 1) =
          ["heartbeat: listeners=1 accepted=0 active=1 restarts=0".toList,
            "heartbeat: listeners=1 accepted=1 active=1 restarts=0".toList] ∧
        ts.Pairwise fun a b => a.accepted ≤ b.accepted ∧ a.restarts ≤ b.restarts := by
  obtain ⟨acts, s, hrun, hout, haccepts, hrestarts⟩ : ∃ acts s,
      (heartbeat single).run (heartbeat single).init acts = some s ∧
      heartbeatLines single acts =
        ["heartbeat: listeners=1 accepted=0 active=1 restarts=0".toList,
          "heartbeat: listeners=1 accepted=1 active=1 restarts=0".toList] ∧
      count single (ownActs acts) .accept < 2 ^ 64 ∧
      count single (ownActs acts) .restart < 2 ^ 64 :=
    ⟨[.step (0, .start .tcp),
      .step (0, .run 0 (.tcp (.serve (.accept ⟨.v4 ⟨10, 0, 0, 1⟩, 4000, 0⟩)))),
      .step (0, .run 0 (.tcp (.serve .dispatch))), .step (0, .run 0 (.tcp (.conn 0 .accept))),
      .step (0, .run 0 (.tcp (.conn 0 .guard))), .load 5, .load 3, .load 0, .emit, .load 5,
      .load 4, .load 1, .emit], _, rfl, by decide, by decide, by decide⟩
  obtain ⟨ts, hts, hordered, -⟩ := heartbeat_lines_ordered _ hrun haccepts hrestarts
  exact ⟨acts, s, hrun, ts, hts, hts ▸ hout, hordered⟩

/-- The accepts of all lines of a dump together. -/
def Dump.column (d : Dump) : ℕ := (d.summaries.map fun s => s.accepted.toNat).sum

/-- The accepts in the line of one listener. -/
def Dump.acceptedOf (d : Dump) (j : Fin n) : ℕ :=
  ((d.summaries.map fun s => s.accepted.toNat)[j.val]?).getD 0

/-- What one dump says, by the times of its loads. -/
theorem collect_spec {hs : List (State n)}
    (hrun : (machine targets).run (machine targets).init own = some s)
    (hhistory : ∀ t x, hs[t]? = some x →
      (machine targets).run (machine targets).init (own.take t) = some x)
    (haccepts : count targets own .accept < 2 ^ 64) {w w' : Loc n → ℕ} {d : Dump}
    (h : Completes value hs collect w d w') :
    (d.summaries.map fun s => s.accepted.toNat) = (List.finRange n).map (fun j =>
        (ops targets (own.take (w' (j, .accepted))) j).count .accept) ∧
      countAt targets own .accept (fun j => w (j, .accepted)) ≤ d.totalAccepted.toNat ∧
      d.totalAccepted.toNat ≤ d.column ∧
      d.totalActive.toNat ≤ count targets own .accept := by
  obtain ⟨time, time', rows, hfound⟩ := completes_collect (reads_active hhistory)
    (reads_accepted hhistory) (List.nodup_finRange n) h
  have hbetween : ∀ j, w (j, .accepted) ≤ time j ∧ time j ≤ w' (j, .accepted) :=
    fun j => hfound.between j (List.mem_finRange j)
  have hcolumn : (d.summaries.map fun s => s.accepted.toNat) = (List.finRange n).map fun j =>
      (ops targets (own.take (w' (j, .accepted))) j).count .accept := by
    have hmap : (d.summaries.map fun s => s.accepted.toNat) =
        (rows.map Summary.accepted).map UInt64.toNat := by
      rw [hfound.summaries, List.nil_append, List.map_map]
      rfl
    rw [hmap, hfound.rows, List.map_map]
    refine List.map_congr_left fun j hj => UInt64.toNat_ofNat_of_lt' ?_
    refine lt_of_le_of_lt ?_ haccepts
    exact (count_ops_le hrun _ j .accept).trans
      (List.single_le_sum (fun _ _ => Nat.zero_le _) _ (List.mem_map_of_mem hj))
  have htotal : d.totalAccepted.toNat = countAt targets own .accept time := by
    have heq := hfound.totalAccepted
    rw [UInt64.zero_add] at heq
    rw [heq]
    exact UInt64.toNat_ofNat_of_lt' ((countAt_le hrun .accept time).trans_lt haccepts)
  refine ⟨hcolumn, ?_, ?_, ?_⟩
  · rw [htotal]
    exact countAt_mono hrun .accept fun j => (hbetween j).1
  · rw [htotal, Dump.column, hcolumn]
    exact countAt_mono hrun .accept fun j => (hbetween j).2
  · have hle := active_le hrun time'
    have heq := hfound.totalActive
    rw [UInt64.zero_add] at heq
    rw [heq, UInt64.toNat_ofNat_of_lt' (hle.trans_lt haccepts)]
    exact hle

/-- **Status dumps are in order.** However the listeners and the dumps interleave and however
old the values are that the loads see: the accepts of a listener never go down from one dump
to a later one, the total of a dump is at most what its lines add up to and at least what the
lines of every earlier dump add up to, and nothing is above the true number of accepts. -/
theorem dump_totals_ordered (targets : Fin n → List Str) (names : Fin n → Str)
    {acts : List (Act n)} {s : Watched n (List Str)}
    (h : (statusDump targets names).run (statusDump targets names).init acts = some s)
    (haccepts : count targets (ownActs acts) .accept < 2 ^ 64) :
    ∃ ds : List Dump, statusDumps targets names acts = ds.map (Dump.lines names) ∧
      ds.Pairwise (fun a b => a.column ≤ b.totalAccepted.toNat ∧
        ∀ j : Fin n, a.acceptedOf j ≤ b.acceptedOf j) ∧
      ∀ d ∈ ds, d.summaries.length = n ∧ d.totalAccepted.toNat ≤ d.column ∧
        d.column ≤ count targets (ownActs acts) .accept ∧
        d.totalActive.toNat ≤ count targets (ownActs acts) .accept := by
  obtain ⟨hrun, -, hhistory⟩ := history_of_run h
  obtain ⟨w, hemits⟩ := emits_of_run h
  obtain ⟨ds, hds, hemits⟩ := hemits.of_map
  have hspec := fun w d w' (hd : Completes value s.history collect w d w') =>
    collect_spec hrun hhistory haccepts hd
  have htotals := hemits.pairwise
    (fun w => countAt targets (ownActs acts) .accept fun j => w (j, .accepted))
    (fun d => d.totalAccepted.toNat) Dump.column (by
      intro w d w' hd
      obtain ⟨hcolumn, hlo, -, -⟩ := hspec w d w' hd
      refine ⟨hlo, ?_, countAt_mono hrun .accept fun j => hd.le (j, .accepted)⟩
      rw [Dump.column, hcolumn]
      exact le_rfl)
  have hcolumns := hemits.pairwise
    (fun w (j : Fin n) =>
      (ops targets ((ownActs acts).take (w (j, .accepted))) j).count .accept)
    Dump.acceptedOf Dump.acceptedOf (by
      intro w d w' hd
      have hat : d.acceptedOf = fun j =>
          (ops targets ((ownActs acts).take (w' (j, .accepted))) j).count .accept := by
        funext j
        simp [Dump.acceptedOf, (hspec w d w' hd).1]
      rw [hat]
      have hle := fun j => count_ops_mono hrun (hd.le (j, .accepted)) j .accept
      exact ⟨hle, le_rfl, hle⟩)
  refine ⟨ds, hds, ?_, fun d hd => ⟨?_, ?_, ?_, ?_⟩⟩
  · exact (htotals.1.and hcolumns.1).imp fun h => ⟨h.1, h.2⟩
  · refine hemits.forall_mem (P := fun d => d.summaries.length = n) (fun w d w' hd => ?_) d hd
    simpa using congrArg List.length (hspec w d w' hd).1
  · exact hemits.forall_mem (fun w d w' hd => (hspec w d w' hd).2.2.1) d hd
  · exact (htotals.2 d hd).trans (countAt_le hrun _ _)
  · exact hemits.forall_mem (fun w d w' hd => (hspec w d w' hd).2.2.2) d hd

/-- A connection is accepted while the dump goes on: its line counts it, the total does not. -/
theorem dump_totals_ordered_between :
    ∃ acts s, (statusDump single fun _ => "web".toList).run
        (statusDump single fun _ => "web".toList).init acts = some s ∧
      ∃ ds : List Dump, statusDumps single (fun _ => "web".toList) acts =
          ds.map (Dump.lines fun _ : Fin 1 => "web".toList) ∧
        ds.map (Dump.lines fun _ : Fin 1 => "web".toList) =
          [["--- status dump (1 listeners) ---".toList,
            "web accepted=1 active=1 restarts=0 errors=0".toList,
            "totals: accepted=0 active=0".toList]] ∧
        ∀ d ∈ ds, d.totalAccepted.toNat ≤ d.column := by
  obtain ⟨acts, s, hrun, hout, haccepts⟩ : ∃ acts s,
      (statusDump single fun _ => "web".toList).run
        (statusDump single fun _ => "web".toList).init acts = some s ∧
      statusDumps single (fun _ => "web".toList) acts =
        [["--- status dump (1 listeners) ---".toList,
          "web accepted=1 active=1 restarts=0 errors=0".toList,
          "totals: accepted=0 active=0".toList]] ∧
      count single (ownActs acts) .accept < 2 ^ 64 :=
    ⟨[.step (0, .start .tcp),
      .step (0, .run 0 (.tcp (.serve (.accept ⟨.v4 ⟨10, 0, 0, 1⟩, 4000, 0⟩)))),
      .step (0, .run 0 (.tcp (.serve .dispatch))), .load 3, .load 3,
      .step (0, .run 0 (.tcp (.conn 0 .accept))), .step (0, .run 0 (.tcp (.conn 0 .guard))),
      .load 0, .load 4, .load 5, .load 2, .load 1, .emit], _, rfl, by decide, by decide⟩
  obtain ⟨ds, hds, -, hdumps⟩ := dump_totals_ordered _ _ hrun haccepts
  exact ⟨acts, s, hrun, ds, hds, hds ▸ hout, fun d hd => (hdumps d hd).2.1⟩

end Gust.Registry
