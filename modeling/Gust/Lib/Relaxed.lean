import Gust.Lib.Machine
import Mathlib.Data.Nat.Basic
import Mathlib.Order.Basic

/-!
# Relaxed loads

A task reads shared locations, again and again, while other tasks change them. The other
tasks are a machine; every change of theirs is one of its steps, so each location has one
order of values. A relaxed load returns some value that the location has had, though not one
older than the task has seen there before. Between two locations nothing is promised: a task
may see a late value of one and an early value of the other.

## Main definitions

* `Loads V α` — a program that loads locations and returns an `α`.
* `observed M loc program` — the machine `M`, next to a task that runs the program in a loop.
* `Completes loc hs p w a w'` — the program returns `a` over the history `hs`; `w` and `w'` say
  how far the task has seen each location, before and after.

`emits_of_run` turns every run into a sequence of such completions over one history. What is
proved of one completion so holds of everything that the task ever returns, and
`Emits.pairwise` compares what it returns at different times.
-/

namespace Gust.Lib

/-- A program that loads shared locations one after the other. -/
inductive Loads {ι : Type} (V : ι → Type) (α : Type)
  | done (a : α)
  | load (i : ι) (k : V i → Loads V α)

namespace Loads

variable {ι : Type} {V : ι → Type} {α β : Type}

def bind : Loads V α → (α → Loads V β) → Loads V β
  | done a, f => f a
  | load i k, f => load i fun v => (k v).bind f

instance : Monad (Loads V) where
  pure := done
  bind := bind

/-- Load one location. -/
def get (i : ι) : Loads V (V i) := load i done

end Loads

/-- A machine and the task that observes it. -/
structure Observed (σ : Type) {ι : Type} (V : ι → Type) (α : Type) where
  now : σ
  /-- Every state so far, the oldest first. -/
  history : List σ
  /-- The last state that the task has seen a location in. -/
  view : ι → ℕ
  /-- What is left of the program. -/
  rest : Loads V α

inductive ObservedAct (A : Type)
  | step (a : A)
  /-- The next load, which sees the location as it was at the time `t`. -/
  | load (t : ℕ)
  /-- The program is over, and starts again. -/
  | emit

/-- The step of the machine, if it is one. -/
def ObservedAct.own {A : Type} : ObservedAct A → Option A
  | step a => some a
  | load _ => none
  | emit => none

variable {σ A ι : Type} {V : ι → Type} {α β : Type}

namespace Observed

/-- What the task returns. -/
def out (s : Observed σ V α) : ObservedAct A → Option α
  | .emit =>
      match s.rest with
      | .done a => some a
      | .load _ _ => none
  | _ => none

variable [DecidableEq ι]

def step (M : Machine σ A) (loc : (i : ι) → σ → V i) (program : Loads V α) (s : Observed σ V α) :
    ObservedAct A → Option (Observed σ V α)
  | .step a => (M.step s.now a).map fun x => { s with now := x, history := s.history ++ [x] }
  | .load t =>
      match s.rest with
      | .load i k =>
          if s.view i ≤ t then
            (s.history[t]?).map fun x =>
              { s with view := Function.update s.view i t, rest := k (loc i x) }
          else none
      | .done _ => none
  | .emit =>
      match s.rest with
      | .done _ => some { s with rest := program }
      | .load _ _ => none

end Observed

section

variable [DecidableEq ι]

/-- The machine, next to a task that runs the program in a loop. -/
def observed (M : Machine σ A) (loc : (i : ι) → σ → V i) (program : Loads V α) :
    Machine (Observed σ V α) (ObservedAct A) where
  init := ⟨M.init, [M.init], fun _ => 0, program⟩
  step := Observed.step M loc program

/-! ## One run of the program -/

/-- The program returns `b`, over the history `hs`. -/
def Completes (loc : (i : ι) → σ → V i) (hs : List σ) :
    Loads V α → (ι → ℕ) → α → (ι → ℕ) → Prop
  | .done a, w, b, w' => b = a ∧ w' = w
  | .load i k, w, b, w' => ∃ t x, w i ≤ t ∧ hs[t]? = some x ∧
      Completes loc hs (k (loc i x)) (Function.update w i t) b w'

variable {loc : (i : ι) → σ → V i} {hs hs' : List σ} {w w' : ι → ℕ} {a : α} {b : β}

theorem completes_get {i : ι} {v : V i} : Completes loc hs (Loads.get i) w v w' ↔
    ∃ t x, w i ≤ t ∧ hs[t]? = some x ∧ v = loc i x ∧ w' = Function.update w i t := Iff.rfl

theorem completes_bind {p : Loads V α} {f : α → Loads V β} :
    Completes loc hs (p >>= f) w b w' ↔
      ∃ a u, Completes loc hs p w a u ∧ Completes loc hs (f a) u b w' := by
  induction p generalizing w with
  | done a =>
      constructor
      · intro h
        exact ⟨a, w, ⟨rfl, rfl⟩, h⟩
      · rintro ⟨a', u, ⟨rfl, rfl⟩, h⟩
        exact h
  | load i k ih =>
      constructor
      · rintro ⟨t, x, ht, hx, h⟩
        obtain ⟨a, u, hk, hf⟩ := ih _ |>.mp h
        exact ⟨a, u, ⟨t, x, ht, hx, hk⟩, hf⟩
      · rintro ⟨a, u, ⟨t, x, ht, hx, hk⟩, hf⟩
        exact ⟨t, x, ht, hx, (ih _).mpr ⟨a, u, hk, hf⟩⟩

theorem getElem?_of_isPrefix {t : ℕ} {x : σ} (hpre : hs <+: hs') (hx : hs[t]? = some x) :
    hs'[t]? = some x := by
  obtain ⟨rest, rfl⟩ := hpre
  rw [List.getElem?_append_left (List.getElem?_eq_some_iff.mp hx).1, hx]

/-- A longer history has all that the shorter one has. -/
theorem Completes.mono {p : Loads V α} (hpre : hs <+: hs') (h : Completes loc hs p w a w') :
    Completes loc hs' p w a w' := by
  induction p generalizing w with
  | done a' => exact h
  | load i k ih =>
      obtain ⟨t, x, ht, hx, h⟩ := h
      exact ⟨t, x, ht, getElem?_of_isPrefix hpre hx, ih _ h⟩

/-- A task does not forget what it has seen. -/
theorem Completes.le {p : Loads V α} (h : Completes loc hs p w a w') : w ≤ w' := by
  induction p generalizing w with
  | done a' => exact h.2.ge
  | load i k ih =>
      obtain ⟨t, x, ht, -, h⟩ := h
      exact (le_update_self_iff.mpr ht).trans (ih _ h)

/-! ## The loop -/

/-- The task has run the program so often, with these results. -/
inductive Emits (loc : (i : ι) → σ → V i) (hs : List σ) (program : Loads V α) :
    List α → (ι → ℕ) → Prop
  | nil : Emits loc hs program [] fun _ => 0
  | snoc {as : List α} {a : α} {w w' : ι → ℕ} (h : Emits loc hs program as w)
      (ha : Completes loc hs program w a w') : Emits loc hs program (as ++ [a]) w'

variable {program : Loads V α} {as : List α}

theorem Emits.mono (hpre : hs <+: hs') (h : Emits loc hs program as w) :
    Emits loc hs' program as w := by
  induction h with
  | nil => exact .nil
  | snoc h ha ih => exact ih.snoc (ha.mono hpre)

/-- **What is returned at different times.** If each result lies between a measure of what
was seen before and of what was seen after, the results are in order. -/
theorem Emits.pairwise {P : Type} [Preorder P] (S : (ι → ℕ) → P) (lo hi : α → P)
    (hprogram : ∀ w a w', Completes loc hs program w a w' → S w ≤ lo a ∧ hi a ≤ S w' ∧ S w ≤ S w')
    (h : Emits loc hs program as w) :
    as.Pairwise (fun a b => hi a ≤ lo b) ∧ ∀ a ∈ as, hi a ≤ S w := by
  induction h with
  | nil => exact ⟨.nil, by simp⟩
  | @snoc as a w w' h ha ih =>
      obtain ⟨hlo, hhi, hle⟩ := hprogram w a w' ha
      refine ⟨?_, ?_⟩
      · rw [List.pairwise_append]
        refine ⟨ih.1, List.pairwise_singleton _ a, fun b hb c hc => ?_⟩
        obtain rfl := List.mem_singleton.mp hc
        exact (ih.2 b hb).trans hlo
      · intro b hb
        rcases List.mem_append.mp hb with hb | hb
        · exact (ih.2 b hb).trans hle
        · obtain rfl := List.mem_singleton.mp hb
          exact hhi

/-- What holds of every completion holds of all results. -/
theorem Emits.forall_mem {P : α → Prop}
    (hprogram : ∀ w a w', Completes loc hs program w a w' → P a)
    (h : Emits loc hs program as w) : ∀ a ∈ as, P a := by
  induction h with
  | nil => simp
  | snoc h ha ih => exact List.forall_mem_append.mpr ⟨ih, by simpa using hprogram _ _ _ ha⟩

/-- The results of a program that only goes on to compute with its result. -/
theorem Emits.of_map {f : α → β} {bs : List β}
    (h : Emits loc hs (program >>= fun a => pure (f a)) bs w) :
    ∃ as, bs = as.map f ∧ Emits loc hs program as w := by
  induction h with
  | nil => exact ⟨[], rfl, .nil⟩
  | snoc h ha ih =>
      obtain ⟨as, rfl, has⟩ := ih
      obtain ⟨a, u, ha, rfl, rfl⟩ := completes_bind.mp ha
      exact ⟨as ++ [a], by simp, has.snoc ha⟩

/-! ## Every run -/

variable {M : Machine σ A} {s t : Observed σ V α} {acts : List (ObservedAct A)}

/-- The steps of the machine alone. -/
def ownActs (acts : List (ObservedAct A)) : List A := acts.filterMap ObservedAct.own

/-- **Every run is a sequence of completions**, over the history of the machine. -/
theorem emits_of_run
    (h : (observed M loc program).run (observed M loc program).init acts = some s) :
    ∃ w, Emits loc s.history program
      ((observed M loc program).outputs Observed.out (observed M loc program).init acts) w := by
  -- whatever completes what is left of the program completes the program
  suffices hrun : ∃ w, Emits loc s.history program
      ((observed M loc program).outputs Observed.out (observed M loc program).init acts) w ∧
      ∀ hs', s.history <+: hs' → ∀ a w', Completes loc hs' s.rest s.view a w' →
        Completes loc hs' program w a w' by
    obtain ⟨w, hw, -⟩ := hrun
    exact ⟨w, hw⟩
  refine Machine.run_outputs_invariant
    (I := fun as s => ∃ w, Emits loc s.history program as w ∧ ∀ hs', s.history <+: hs' →
      ∀ a w', Completes loc hs' s.rest s.view a w' → Completes loc hs' program w a w')
    ⟨fun _ => 0, .nil, fun hs' _ a w' h => h⟩ ?_ h
  rintro as s a t ⟨w, hw, hrest⟩ hstep
  cases a with
  | step a =>
      obtain ⟨x, -, rfl⟩ := Option.map_eq_some_iff.mp hstep
      have hpre : s.history <+: s.history ++ [x] := List.prefix_append _ _
      simp only [Observed.out, Option.toList_none, List.append_nil]
      exact ⟨w, hw.mono hpre, fun hs' hhs' => hrest hs' (hpre.trans hhs')⟩
  | load t =>
      simp only [observed, Observed.step] at hstep
      split at hstep
      · rename_i i k hload
        simp only [Option.ite_none_right_eq_some, Option.map_eq_some_iff] at hstep
        obtain ⟨hle, x, hx, rfl⟩ := hstep
        simp only [Observed.out, Option.toList_none, List.append_nil]
        refine ⟨w, hw, fun hs' hhs' a w' ha => hrest hs' hhs' a w' ?_⟩
        rw [hload]
        exact ⟨t, x, hle, getElem?_of_isPrefix hhs' hx, ha⟩
      · cases hstep
  | emit =>
      simp only [observed, Observed.step] at hstep
      split at hstep
      · rename_i a hdone
        cases hstep
        simp only [Observed.out, hdone, Option.toList_some]
        refine ⟨s.view, hw.snoc (hrest _ (List.prefix_refl _) a s.view ?_), fun _ _ _ _ h => h⟩
        rw [hdone]
        exact ⟨rfl, rfl⟩
      · cases hstep

/-- The history is the run of the machine. -/
theorem history_of_run
    (h : (observed M loc program).run (observed M loc program).init acts = some s) :
    M.run M.init (ownActs acts) = some s.now ∧ s.history.length = (ownActs acts).length + 1 ∧
      ∀ t x, s.history[t]? = some x → M.run M.init ((ownActs acts).take t) = some x := by
  refine Machine.run_trace_invariant (M := observed M loc program)
    (I := fun acts s => M.run M.init (ownActs acts) = some s.now ∧
      s.history.length = (ownActs acts).length + 1 ∧
      ∀ t x, s.history[t]? = some x → M.run M.init ((ownActs acts).take t) = some x)
    ⟨rfl, rfl, ?_⟩ ?_ h
  · intro t x hx
    obtain ⟨ht, rfl⟩ := List.getElem?_eq_some_iff.mp hx
    simp [ownActs, observed, Machine.run]
  rintro acts s a t ⟨hnow, hlength, hhistory⟩ hstep
  cases a with
  | step a =>
      obtain ⟨x, hx, rfl⟩ := Option.map_eq_some_iff.mp hstep
      have hown : ownActs (acts ++ [.step a]) = ownActs acts ++ [a] := by
        simp [ownActs, ObservedAct.own]
      have hrun : M.run M.init (ownActs acts ++ [a]) = some x :=
        Machine.run_append_iff.mpr ⟨s.now, hnow, Machine.run_singleton hx⟩
      rw [hown]
      refine ⟨hrun, by simp [hlength], fun t y hy => ?_⟩
      by_cases ht : t < s.history.length
      · rw [List.take_append_of_le_length (by omega)]
        exact hhistory t y (by rwa [List.getElem?_append_left ht] at hy)
      · have hlt := (List.getElem?_eq_some_iff.mp hy).1
        have hlt' : t < s.history.length + 1 := by simpa using hlt
        obtain rfl : t = s.history.length := by omega
        rw [List.getElem?_concat_length, Option.some.injEq] at hy
        rw [← hy, List.take_of_length_le (by simp [hlength])]
        exact hrun
  | load t' =>
      have hown : ownActs (acts ++ [.load t']) = ownActs acts := by simp [ownActs, ObservedAct.own]
      simp only [observed, Observed.step] at hstep
      split at hstep
      · simp only [Option.ite_none_right_eq_some, Option.map_eq_some_iff] at hstep
        obtain ⟨-, x, -, rfl⟩ := hstep
        rw [hown]
        exact ⟨hnow, hlength, hhistory⟩
      · cases hstep
  | emit =>
      have hown : ownActs (acts ++ [.emit]) = ownActs acts := by simp [ownActs, ObservedAct.own]
      simp only [observed, Observed.step] at hstep
      split at hstep
      · cases hstep
        rw [hown]
        exact ⟨hnow, hlength, hhistory⟩
      · cases hstep

end
end Gust.Lib
