import Mathlib.Algebra.GroupWithZero.Nat
import Mathlib.Data.List.Basic
import Mathlib.Data.List.Induction

/-!
# Labelled machines and their runs

A `Machine` is a start state together with an executable, partial step function.
The label of a step names the process that moves and fixes every choice the
environment makes there, so `none` means "not enabled" and nothing else. A run is
a list of labels; interleavings of concurrent processes are exactly the lists.

Every safety argument over a whole run goes through one rule: `run_invariant` carries a
predicate that each step preserves from the start of a run to its end. With the start
state in the predicate it also states facts of the form "once true, it stays true".

## Main definitions

* `Machine.run s as` — perform the labels `as` in order from `s`.
* `Machine.Reachable s` — some run from the start state arrives in `s`.
* `Machine.outputs out s as` — what the steps of a run put out.
* `Machine.Meets C s as` — every step of the run meets a condition on its label and the
  state before it.
-/

namespace Gust.Lib

universe u v w x

/-- A start state and a partial step function, indexed by the label of the step. -/
structure Machine (σ : Type u) (α : Type v) where
  /-- The state every run starts from. -/
  init : σ
  /-- The state after performing a label, or `none` when it is not enabled. -/
  step : σ → α → Option σ

namespace Machine

variable {σ : Type u} {α : Type v} (M : Machine σ α)

/-- Perform the labels in order; `none` as soon as one of them is not enabled. -/
def run : σ → List α → Option σ
  | s, [] => some s
  | s, a :: as => (M.step s a).bind fun t => run t as

/-- Some run from the start state arrives in `s`. -/
def Reachable (s : σ) : Prop := ∃ as, M.run M.init as = some s

variable {M}

theorem run_cons_iff {s t : σ} {a : α} {as : List α} :
    M.run s (a :: as) = some t ↔ ∃ r, M.step s a = some r ∧ M.run r as = some t := by
  simp [run, Option.bind_eq_some_iff]

theorem run_singleton {s t : σ} {a : α} (h : M.step s a = some t) : M.run s [a] = some t :=
  run_cons_iff.mpr ⟨t, h, rfl⟩

/-- **Induction along a run.** A predicate that every step preserves holds at the
end of a run whenever it holds at its start. -/
theorem run_invariant {I : σ → Prop}
    (hstep : ∀ s a t, I s → M.step s a = some t → I t) {s t : σ} {as : List α}
    (h : M.run s as = some t) (hs : I s) : I t := by
  induction as generalizing s with
  | nil => simpa [← Option.some.inj h] using hs
  | cons a as ih =>
      obtain ⟨r, hr, ht⟩ := run_cons_iff.mp h
      exact ih ht (hstep s a r hs hr)

/-- A predicate that holds at the start and is preserved by every step holds in
every reachable state. -/
theorem Reachable.invariant {I : σ → Prop} (hinit : I M.init)
    (hstep : ∀ s a t, I s → M.step s a = some t → I t) {s : σ} (h : M.Reachable s) : I s := by
  obtain ⟨as, has⟩ := h
  exact run_invariant hstep has hinit

theorem run_append_iff {s t : σ} {as bs : List α} :
    M.run s (as ++ bs) = some t ↔ ∃ r, M.run s as = some r ∧ M.run r bs = some t := by
  induction as generalizing s with
  | nil => simp [run]
  | cons a as ih =>
      rw [List.cons_append, run_cons_iff]
      constructor
      · rintro ⟨r, hr, h⟩
        obtain ⟨r', hr', ht⟩ := ih.mp h
        exact ⟨r', run_cons_iff.mpr ⟨r, hr, hr'⟩, ht⟩
      · rintro ⟨r', hr', ht⟩
        obtain ⟨r, hr, h⟩ := run_cons_iff.mp hr'
        exact ⟨r, hr, ih.mpr ⟨r', h, ht⟩⟩

theorem Reachable.step {s t : σ} {a : α} (h : M.Reachable s) (hstep : M.step s a = some t) :
    M.Reachable t := by
  obtain ⟨as, has⟩ := h
  exact ⟨as ++ [a], run_append_iff.mpr ⟨s, has, run_cons_iff.mpr ⟨t, hstep, rfl⟩⟩⟩

/-- **Induction along a run, with its labels.** A relation between the labels so far and
the state reached, kept by every step. -/
theorem run_trace_invariant {I : List α → σ → Prop} {s t : σ} {as : List α} (hs : I [] s)
    (hstep : ∀ as s a t, I as s → M.step s a = some t → I (as ++ [a]) t)
    (h : M.run s as = some t) : I as t := by
  induction as using List.reverseRecOn generalizing t with
  | nil => simpa [← Option.some.inj h] using hs
  | append_singleton as a ih =>
      obtain ⟨r, hr, ht⟩ := run_append_iff.mp h
      obtain ⟨t', hstep', ht'⟩ := run_cons_iff.mp ht
      obtain rfl := Option.some.inj ht'
      exact hstep as r a _ (ih hr) hstep'

/-- **Paying from a potential.** If every step with a label in `P` lowers a potential by at
least its cost, a whole run of such steps costs no more than the potential falls. -/
theorem run_potential_of_forall {I : σ → Prop} {P : α → Prop} (φ : σ → ℕ) {cost : α → ℕ}
    (hI : ∀ s a t, P a → I s → M.step s a = some t → I t)
    (hstep : ∀ s a t, P a → I s → M.step s a = some t → φ t + cost a ≤ φ s) {s t : σ}
    {as : List α} (h : M.run s as = some t) (has : ∀ a ∈ as, P a) (hs : I s) :
    I t ∧ φ t + (as.map cost).sum ≤ φ s := by
  induction as generalizing s with
  | nil =>
      obtain rfl := Option.some.inj h
      exact ⟨hs, by simp⟩
  | cons a as ih =>
      obtain ⟨r, hr, ht⟩ := run_cons_iff.mp h
      obtain ⟨ha, has⟩ := List.forall_mem_cons.mp has
      obtain ⟨hend, hrest⟩ := ih ht has (hI s a r ha hs hr)
      have hone := hstep s a r ha hs hr
      refine ⟨hend, ?_⟩
      rw [List.map_cons, List.sum_cons]
      omega

/-- The same where every step pays. -/
theorem run_potential {I : σ → Prop} (φ : σ → ℕ) {cost : α → ℕ}
    (hI : ∀ s a t, I s → M.step s a = some t → I t)
    (hstep : ∀ s a t, I s → M.step s a = some t → φ t + cost a ≤ φ s) {s t : σ} {as : List α}
    (h : M.run s as = some t) (hs : I s) : φ t + (as.map cost).sum ≤ φ s :=
  (run_potential_of_forall (P := fun _ => True) φ (fun s a t _ => hI s a t)
    (fun s a t _ => hstep s a t) h (fun _ _ => trivial) hs).2

/-- **Simulation.** Where every step of one machine is, seen through `f`, a step of another
or no step at all, every run is one of the other machine. -/
theorem run_simulation {ρ : Type w} {β : Type x} {N : Machine ρ β} (f : σ → ρ)
    (label : α → Option β)
    (hstep : ∀ s a t, M.step s a = some t → N.run (f s) (label a).toList = some (f t)) {s t : σ}
    {as : List α} (h : M.run s as = some t) : N.run (f s) (as.filterMap label) = some (f t) := by
  induction as generalizing s with
  | nil =>
      obtain rfl := Option.some.inj h
      rfl
  | cons a as ih =>
      obtain ⟨r, hr, ht⟩ := run_cons_iff.mp h
      have hone := hstep s a r hr
      have hcons : (a :: as).filterMap label = (label a).toList ++ as.filterMap label := by
        rw [List.filterMap_cons]
        cases label a <;> rfl
      rw [hcons]
      exact run_append_iff.mpr ⟨f r, hone, ih ht⟩

/-! ### What a run puts out

A step may put something out, depending on its label and the state it is taken in. -/

section Outputs

variable {β : Type w}

variable (M) in
/-- What the steps of a run put out, in order. -/
def outputs (out : σ → α → Option β) : σ → List α → List β
  | _, [] => []
  | s, a :: as => (out s a).toList ++ ((M.step s a).map fun t => outputs out t as).getD []

theorem outputs_append {out : σ → α → Option β} {s t : σ} {as bs : List α}
    (h : M.run s as = some t) :
    M.outputs out s (as ++ bs) = M.outputs out s as ++ M.outputs out t bs := by
  induction as generalizing s with
  | nil =>
      obtain rfl := Option.some.inj h
      rfl
  | cons a as ih =>
      obtain ⟨r, hr, ht⟩ := run_cons_iff.mp h
      simp only [List.cons_append, outputs, hr, Option.map_some, Option.getD_some, ih ht,
        List.append_assoc]

/-- **Induction along a run, with what it has put out.** -/
theorem run_outputs_invariant {out : σ → α → Option β} {I : List β → σ → Prop} {s t : σ}
    {as : List α} (hs : I [] s)
    (hstep : ∀ outs s a t, I outs s → M.step s a = some t → I (outs ++ (out s a).toList) t)
    (h : M.run s as = some t) : I (M.outputs out s as) t := by
  induction as using List.reverseRecOn generalizing t with
  | nil => exact Option.some.inj h ▸ hs
  | append_singleton as a ih =>
      obtain ⟨r, hr, ht⟩ := run_append_iff.mp h
      obtain ⟨t', hstep', ht'⟩ := run_cons_iff.mp ht
      obtain rfl := Option.some.inj ht'
      have hone : M.outputs out r [a] = (out r a).toList := by
        simp [outputs, hstep']
      rw [outputs_append hr, hone]
      exact hstep _ r a _ (ih hr) hstep'

end Outputs

/-! ### Runs under a condition

A step may be safe only under a condition on the state it is taken in. A run meets the
condition if all its steps do. -/

variable (M) in
/-- Every step of the run is taken in a state that meets `C` for its label. -/
def Meets (C : σ → α → Prop) : σ → List α → Prop
  | _, [] => True
  | s, a :: as => C s a ∧ ∀ t, M.step s a = some t → Meets C t as

theorem Meets.cons {C : σ → α → Prop} {s t : σ} {a : α} {as : List α} (hC : C s a)
    (hstep : M.step s a = some t) (h : M.Meets C t as) : M.Meets C s (a :: as) := by
  refine ⟨hC, fun r hr => ?_⟩
  rw [hstep, Option.some.injEq] at hr
  exact hr ▸ h

/-- **Induction along a run that meets a condition.** Each step need only preserve the
predicate where the condition holds. -/
theorem Meets.invariant {C : σ → α → Prop} {I : σ → Prop} {as : List α}
    (hstep : ∀ s, ∀ a ∈ as, ∀ t, I s → C s a → M.step s a = some t → I t) {s t : σ}
    (hC : M.Meets C s as) (h : M.run s as = some t) (hs : I s) : I t := by
  induction as generalizing s with
  | nil => simpa [← Option.some.inj h] using hs
  | cons a as ih =>
      obtain ⟨r, hr, ht⟩ := run_cons_iff.mp h
      refine ih (fun s b hb => hstep s b (List.mem_cons_of_mem a hb)) (hC.2 r hr) ht ?_
      exact hstep s a List.mem_cons_self r hs hC.1 hr

end Machine

/-! ## Processes in a list

A system of many processes keeps them in a list, and a step replaces one of them. -/

section Processes

variable {α : Type u} {β : Type v} {xs : List α} {i j : ℕ} {x y : α}

theorem getElem?_set_cases (h : (xs.set i x)[j]? = some y) :
    j = i ∧ y = x ∨ j ≠ i ∧ xs[j]? = some y := by
  by_cases hij : j = i
  · subst hij
    obtain ⟨hlt, hget⟩ := List.getElem?_eq_some_iff.mp h
    rw [List.getElem_set_self] at hget
    exact .inl ⟨rfl, hget.symm⟩
  · rw [List.getElem?_set_ne (Ne.symm hij)] at h
    exact .inr ⟨hij, h⟩

theorem getElem?_set_of_getElem? (hx : xs[i]? = some x) (y : α) :
    (xs.set i y)[i]? = some y := by
  obtain ⟨hi, -⟩ := List.getElem?_eq_some_iff.mp hx
  simp [hi]

/-- How a replacement changes a sum over the processes. -/
theorem sum_map_set_add {f : α → ℕ} (hx : xs[i]? = some x) (y : α) :
    ((xs.set i y).map f).sum + f x = (xs.map f).sum + f y := by
  induction xs generalizing i with
  | nil => simp at hx
  | cons z zs ih =>
      cases i with
      | zero =>
          simp only [List.getElem?_cons_zero, Option.some.injEq] at hx
          subst hx
          simp only [List.set_cons_zero, List.map_cons, List.sum_cons]
          omega
      | succ i =>
          simp only [List.getElem?_cons_succ] at hx
          have hi := ih hx
          simp only [List.set_cons_succ, List.map_cons, List.sum_cons]
          omega

theorem countP_eq_sum_map (p : α → Bool) (xs : List α) :
    xs.countP p = (xs.map fun x => if p x then 1 else 0).sum := by
  induction xs with
  | nil => rfl
  | cons x xs ih =>
      rw [List.countP_cons, ih, List.map_cons, List.sum_cons, Nat.add_comm]

/-- How a replacement changes the number of processes in some condition. -/
theorem countP_set_add {p : α → Bool} (hx : xs[i]? = some x) (y : α) :
    (xs.set i y).countP p + (if p x then 1 else 0) = xs.countP p + (if p y then 1 else 0) := by
  rw [countP_eq_sum_map, countP_eq_sum_map]
  exact sum_map_set_add hx y

/-- What a replacement does not change of its process, it does not change of the list. -/
theorem map_set_of_eq {f : α → β} (hx : xs[i]? = some x) (hf : f y = f x) :
    (xs.set i y).map f = xs.map f := by
  refine List.ext_getElem? fun j => ?_
  rw [List.map_set, hf]
  by_cases hij : i = j
  · subst hij
    have hfx : (xs.map f)[i]? = some (f x) := by rw [List.getElem?_map, hx, Option.map_some]
    rw [getElem?_set_of_getElem? hfx, hfx]
  · rw [List.getElem?_set_ne hij]

/-- What only one process has, the list has of it alone. -/
theorem flatMap_eq_of_unique {f : α → List β} (hx : xs[i]? = some x)
    (h : ∀ j y, xs[j]? = some y → j ≠ i → f y = []) : xs.flatMap f = f x := by
  induction xs generalizing i with
  | nil => simp at hx
  | cons z zs ih =>
      cases i with
      | zero =>
          simp only [List.getElem?_cons_zero, Option.some.injEq] at hx
          subst hx
          have hzs : zs.flatMap f = [] := by
            refine List.flatMap_eq_nil_iff.mpr fun y hy => ?_
            obtain ⟨j, hj⟩ := List.mem_iff_getElem?.mp hy
            exact h (j + 1) y hj (Nat.succ_ne_zero j)
          rw [List.flatMap_cons, hzs, List.append_nil]
      | succ i =>
          rw [List.getElem?_cons_succ] at hx
          have hz : f z = [] := h 0 z rfl (Nat.succ_ne_zero i).symm
          rw [List.flatMap_cons, hz, List.nil_append]
          exact ih hx fun j y hj hne => h (j + 1) y hj (by omega)

theorem flatMap_set_of_eq {f : α → List β} (hx : xs[i]? = some x) (hf : f y = f x) :
    (xs.set i y).flatMap f = xs.flatMap f := by
  rw [List.flatMap_def, List.flatMap_def, map_set_of_eq hx hf]

end Processes
end Gust.Lib
