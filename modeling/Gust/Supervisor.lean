import Gust.Lib.Machine
import Gust.Lib.Stream
import Gust.Runtime

/-!
# The supervisor of one listener

`supervise` calls `serve`, waits for the task it has spawned, and calls it again after a
failure, with a growing pause in between. It looks for the shutdown in three places:
before every call, while it waits for the task, and after a failure and in the pause.

The serve loop is a parameter here. A `Service` is anything that binds, then loops around
a `select!` between the shutdown and its own work, and never leaves that loop by itself.
The system is the supervisor, every task it has spawned, and everybody else who holds the
same `Shutdown`: they subscribe, drop their receivers and trigger as they like. `select!`
chooses freely here, which includes the runs of a biased one.
-/

namespace Gust.Supervisor

open Gust.Lib

def backoffInitial : ℕ := 100
def backoffMax : ℕ := 5000
def backoffHealthy : ℕ := 10000

/-- A serve loop, after its socket is bound. -/
structure Service where
  State : Type
  Act : Type
  /-- The address to bind, as text. -/
  bind : Str
  init : State
  step : State → Act → Option State
  /-- At the `select!` that heads the loop. -/
  atSelect : State → Bool

/-- What joining a task reports. -/
inductive JoinResult
  | ok
  | err (e : IoError)
  | panicked
  | cancelled
  deriving DecidableEq, Repr

/-- Where a call of `serve` is. -/
inductive Serve (S : Service)
  | binding
  | running (s : S.State) (arm : Arm)
  | done (r : JoinResult)

/-- A spawned call of `serve`, and what its handle knows. -/
structure Task (S : Service) where
  serve : Serve S
  aborted : Bool
  joined : Bool

inductive ServeAct (S : Service)
  | bind (fault : Option IoError)
  | work (a : S.Act)
  | poll
  | panic
  /-- The runtime carries out an abort. -/
  | reap

namespace Serve

variable {S : Service}

/-- The future is dropped where it is. -/
def drop (w : Shutdown) : Serve S → Shutdown
  | running _ arm => arm.drop w
  | _ => w

def isDone : Serve S → Bool
  | done _ => true
  | _ => false

/-- An arm of the `select!` lives as long as the loop stays there. -/
def work (w : Shutdown) (s s' : S.State) (arm : Arm) : Shutdown × Serve S :=
  if S.atSelect s && S.atSelect s' then (w, running s' arm) else (arm.drop w, running s' none)

end Serve

variable {S : Service}

/-- One step of a spawned task. -/
def serveStep (w : Shutdown) (t : Task S) : ServeAct S → Option (Shutdown × Serve S)
  | .bind fault =>
      match t.serve, fault with
      | .binding, none => some (w, .running S.init none)
      | .binding, some e =>
          some (w, .done (.err ⟨e.kind, "bind ".toList ++ S.bind ++ " failed: ".toList ++ e.msg⟩))
      | _, _ => none
  | .work a =>
      match t.serve with
      | .running s arm => (S.step s a).map fun s' => Serve.work w s s' arm
      | _ => none
  | .poll =>
      match t.serve with
      | .running s arm =>
          if S.atSelect s then
            (arm.poll w).map fun r => (r.1, if r.2 = .returned then .done .ok else .running s r.2)
          else none
      | _ => none
  | .panic => if t.serve.isDone then none else some (t.serve.drop w, .done .panicked)
  | .reap =>
      if t.aborted = true ∧ t.serve.isDone = false then some (t.serve.drop w, .done .cancelled)
      else none

/-- Where `supervise` is. -/
inductive Pc
  | checking
  | spawning
  | selecting (i : ℕ) (arm : Arm)
  | handling (r : JoinResult)
  | rechecking
  | backingOff (arm : Arm)
  | returned
  deriving DecidableEq, Repr

structure State (S : Service) where
  watch : Shutdown
  /-- The receivers of everybody else. -/
  others : ℕ
  pc : Pc
  /-- All tasks spawned so far. -/
  tasks : List (Task S)
  /-- The supervisor has seen the value `true`. -/
  observed : Bool
  backoff : ℕ
  restarts : ℕ
  lastError : Option Str

inductive Act (S : Service)
  | trigger
  | subscribe
  | unsubscribe
  | check
  | spawn
  | poll
  | join
  | handle
  | recheck (elapsed : ℕ)
  | wake
  | serve (i : ℕ) (a : ServeAct S)

/-- The supervisor has seen the shutdown and is done. -/
def State.observe (s : State S) : State S := { s with pc := .returned, observed := true }

/-- `handle.abort()`. -/
def abort (tasks : List (Task S)) (i : ℕ) : List (Task S) :=
  tasks.modify i fun t => { t with aborted := true }

def pollStep (s : State S) : Option (State S) :=
  match s.pc with
  | .selecting i arm =>
      (arm.poll s.watch).map fun r =>
        if r.2 = .returned then { s with watch := r.1, tasks := abort s.tasks i }.observe
        else { s with watch := r.1, pc := .selecting i r.2 }
  | .backingOff arm =>
      (arm.poll s.watch).map fun r =>
        if r.2 = .returned then { s with watch := r.1 }.observe
        else { s with watch := r.1, pc := .backingOff r.2 }
  | _ => none

def joinStep (s : State S) : Option (State S) :=
  match s.pc with
  | .selecting i arm =>
      match s.tasks[i]? with
      | some ⟨.done r, aborted, _⟩ =>
          some { s with
            watch := arm.drop s.watch
            tasks := s.tasks.set i ⟨.done r, aborted, true⟩
            pc := .handling r }
      | _ => none
  | _ => none

def handleStep (s : State S) : Option (State S) :=
  match s.pc with
  | .handling .ok => some { s with pc := .returned }
  | .handling (.err e) => some { s with pc := .rechecking, lastError := e.msg }
  | .handling .panicked => some { s with pc := .rechecking, lastError := "panic".toList }
  | .handling .cancelled => some { s with pc := .returned }
  | _ => none

/-- A listener that was healthy for a while starts over with the shortest pause. -/
def backoffAfter (backoff elapsed : ℕ) : ℕ :=
  if backoffHealthy ≤ elapsed then backoffInitial else backoff

def step (s : State S) : Act S → Option (State S)
  | .trigger => some { s with watch := s.watch.trigger }
  | .subscribe => some { s with watch := s.watch.subscribe.1, others := s.others + 1 }
  | .unsubscribe =>
      if 0 < s.others then some { s with watch := s.watch.dropReceiver, others := s.others - 1 }
      else none
  | .check =>
      if s.pc = .checking then
        if s.watch.isTriggered then some s.observe else some { s with pc := .spawning }
      else none
  | .spawn =>
      if s.pc = .spawning then
        some { s with
          tasks := s.tasks ++ [⟨.binding, false, false⟩]
          pc := .selecting s.tasks.length none }
      else none
  | .poll => pollStep s
  | .join => joinStep s
  | .handle => handleStep s
  | .recheck elapsed =>
      if s.pc = .rechecking then
        if s.watch.isTriggered then some s.observe
        else
          some { s with
            pc := .backingOff none
            backoff := backoffAfter s.backoff elapsed
            restarts := s.restarts + 1 }
      else none
  | .wake =>
      match s.pc with
      | .backingOff arm =>
          some { s with
            watch := arm.drop s.watch
            pc := .checking
            backoff := min (s.backoff * 2) backoffMax }
      | _ => none
  | .serve i a =>
      (s.tasks[i]?).bind fun t => (serveStep s.watch t a).map fun r =>
        { s with watch := r.1, tasks := s.tasks.set i { t with serve := r.2 } }

def machine (S : Service) : Machine (State S) (Act S) where
  init :=
    { watch := Shutdown.new, others := 0, pc := .checking, tasks := [], observed := false
      backoff := backoffInitial, restarts := 0, lastError := none }
  step := step

/-! ## What each step does to the shutdown value and to the tasks -/

variable {s s' : State S}

@[simp] theorem Serve.value_drop (w : Shutdown) (f : Serve S) : (f.drop w).value = w.value := by
  cases f with
  | running s arm => exact Arm.value_drop w arm
  | binding => rfl
  | done r => rfl

theorem Serve.value_work (w : Shutdown) (x x' : S.State) (arm : Arm) :
    (Serve.work w x x' arm).1.value = w.value ∧
      ∃ arm', (Serve.work w x x' arm).2 = .running x' arm' := by
  simp only [Serve.work]
  split
  · exact ⟨rfl, arm, rfl⟩
  · exact ⟨Arm.value_drop w arm, none, rfl⟩

/-- A task leaves the value alone, returns `Ok` only when it is `true`, and ends as
cancelled only when it was aborted. -/
theorem serveStep_spec {w w' : Shutdown} {t : Task S} {a : ServeAct S} {f : Serve S}
    (h : serveStep w t a = some (w', f)) :
    w'.value = w.value ∧ (f = .done .ok → w.value = true) ∧
      (f = .done .cancelled → t.aborted = true) := by
  cases a with
  | bind fault =>
      simp only [serveStep] at h
      split at h
      · cases h
        exact ⟨rfl, nofun, nofun⟩
      · cases h
        exact ⟨rfl, nofun, nofun⟩
      · cases h
  | work a =>
      simp only [serveStep] at h
      split at h
      · rename_i x arm hserve
        obtain ⟨x', -, heq⟩ := Option.map_eq_some_iff.mp h
        obtain ⟨hvalue, arm', hrunning⟩ := Serve.value_work w x x' arm
        rw [heq] at hvalue hrunning
        dsimp only at hvalue hrunning
        rw [hrunning]
        exact ⟨hvalue, nofun, nofun⟩
      · cases h
  | poll =>
      simp only [serveStep] at h
      split at h
      · rename_i x arm hserve
        split at h
        · obtain ⟨⟨w₁, c⟩, hpoll, heq⟩ := Option.map_eq_some_iff.mp h
          rw [Prod.mk.injEq] at heq
          obtain ⟨rfl, rfl⟩ := heq
          refine ⟨Arm.value_poll hpoll, fun hok => ?_, ?_⟩
          · by_cases hc : c = .returned
            · rw [hc] at hpoll
              exact Arm.value_of_poll_returned hpoll
            · simp [hc] at hok
          · split <;> exact nofun
        · cases h
      · cases h
  | panic =>
      simp only [serveStep] at h
      split at h
      · cases h
      · cases h
        exact ⟨Serve.value_drop w t.serve, nofun, nofun⟩
  | reap =>
      simp only [serveStep, Option.ite_none_right_eq_some, Option.some.injEq, Prod.mk.injEq] at h
      obtain ⟨⟨haborted, -⟩, rfl, rfl⟩ := h
      exact ⟨Serve.value_drop w t.serve, nofun, fun _ => haborted⟩

/-- Which tasks may still have to be joined. -/
def JoinedOk (s : State S) : Prop :=
  match s.pc with
  | .selecting i _ => ∀ (j : ℕ) t, s.tasks[j]? = some t → t.joined = false → j = i
  | .returned => ∃ i, ∀ (j : ℕ) t, s.tasks[j]? = some t → t.joined = false → j = i
  | _ => ∀ t ∈ s.tasks, t.joined = true

structure Inv (s : State S) : Prop where
  returned : s.pc = .returned → s.watch.value = true
  observed : s.observed = true → s.pc = .returned
  ok : ∀ t ∈ s.tasks, t.serve = .done .ok → s.watch.value = true
  cancelled : ∀ t ∈ s.tasks, t.serve = .done .cancelled → t.aborted = true
  aborted : ∀ t ∈ s.tasks, t.aborted = true → s.pc = .returned
  handling : ∀ r, s.pc = .handling r → r ≠ .cancelled ∧ (r = .ok → s.watch.value = true)
  joined : JoinedOk s

theorem inv_init : Inv (machine S).init := by
  refine ⟨nofun, nofun, ?_, ?_, ?_, nofun, ?_⟩
  · simp [machine]
  · simp [machine]
  · simp [machine]
  · exact fun t ht => absurd ht (List.not_mem_nil)

/-- While the supervisor waits for a task, every other one has been joined. -/
theorem Inv.eq_of_unjoined (hs : Inv s) {i : ℕ} {arm : Arm} (hpc : s.pc = .selecting i arm) :
    ∀ (j : ℕ) t, s.tasks[j]? = some t → t.joined = false → j = i := by
  have hok := hs.joined
  rwa [JoinedOk, hpc] at hok

/-- Anywhere but in the wait for a task and at the end, every task has been joined. -/
theorem Inv.all_joined (hs : Inv s) (hselecting : ∀ i arm, s.pc ≠ .selecting i arm)
    (hreturned : s.pc ≠ .returned) : ∀ t ∈ s.tasks, t.joined = true := by
  have hok := hs.joined
  rw [JoinedOk] at hok
  split at hok
  · rename_i i arm hpc
    exact absurd hpc (hselecting i arm)
  · rename_i hpc
    exact absurd hpc hreturned
  · exact hok

/-- Whatever happens to the channel, a `true` in it stays. -/
theorem Inv.setWatch (hs : Inv s) {w : Shutdown} (hw : s.watch.value = true → w.value = true)
    (others : ℕ) : Inv { s with watch := w, others := others } where
  returned hpc := hw (hs.returned hpc)
  observed := hs.observed
  ok t ht hok := hw (hs.ok t ht hok)
  cancelled := hs.cancelled
  aborted := hs.aborted
  handling r hpc := ⟨(hs.handling r hpc).1, fun hr => hw ((hs.handling r hpc).2 hr)⟩
  joined := hs.joined

/-- The supervisor goes on. -/
theorem Inv.goto (hs : Inv s) (hold : s.pc ≠ .returned) (pc : Pc) {w : Shutdown}
    (hw : w.value = s.watch.value) (hhandling : ∀ r, pc ≠ .handling r)
    (hreturned : pc = .returned → s.watch.value = true) (backoff restarts : ℕ)
    (lastError : Option Str) (hjoined : JoinedOk { s with pc := pc }) :
    Inv { s with watch := w, pc := pc, backoff := backoff, restarts := restarts,
                 lastError := lastError } where
  returned hpc := hw.trans (hreturned hpc)
  observed hobs := absurd (hs.observed hobs) hold
  ok t ht hok := hw.trans (hs.ok t ht hok)
  cancelled := hs.cancelled
  aborted t ht habort := absurd (hs.aborted t ht habort) hold
  handling r hpc := absurd hpc (hhandling r)
  joined := hjoined

theorem exists_of_forall_joined (h : ∀ t ∈ s.tasks, t.joined = true) :
    ∃ i, ∀ (j : ℕ) t, s.tasks[j]? = some t → t.joined = false → j = i := by
  refine ⟨0, fun j t ht hjoined => ?_⟩
  rw [h t (List.mem_of_getElem? ht)] at hjoined
  cases hjoined

/-- The supervisor has seen the shutdown. -/
theorem Inv.observe (hs : Inv s) (hv : s.watch.value = true)
    (hjoined : ∃ i, ∀ (j : ℕ) t, s.tasks[j]? = some t → t.joined = false → j = i) :
    Inv s.observe where
  returned _ := hv
  observed _ := rfl
  ok t ht hok := hs.ok t ht hok
  cancelled := hs.cancelled
  aborted _ _ _ := rfl
  handling := nofun
  joined := hjoined

theorem Inv.spawn (hs : Inv s) (hpc : s.pc = .spawning) :
    Inv { s with
      tasks := s.tasks ++ [⟨.binding, false, false⟩]
      pc := .selecting s.tasks.length none } := by
  have hjoined := hs.all_joined (by simp [hpc]) (by simp [hpc])
  have hnew : ∀ t ∈ s.tasks ++ [⟨.binding, false, false⟩],
      t ∈ s.tasks ∨ t = ⟨.binding, false, false⟩ :=
    fun t ht => (List.mem_append.mp ht).imp id List.mem_singleton.mp
  refine ⟨nofun, ?_, ?_, ?_, ?_, nofun, ?_⟩
  · intro hobs
    have := hs.observed hobs
    rw [hpc] at this
    cases this
  · intro t ht hok
    rcases hnew t ht with ht | rfl
    · exact hs.ok t ht hok
    · cases hok
  · intro t ht hcancelled
    rcases hnew t ht with ht | rfl
    · exact hs.cancelled t ht hcancelled
    · cases hcancelled
  · intro t ht habort
    rcases hnew t ht with ht | rfl
    · have := hs.aborted t ht habort
      rw [hpc] at this
      cases this
    · cases habort
  · intro j t ht hfalse
    by_cases hj : j < s.tasks.length
    · rw [List.getElem?_append_left hj] at ht
      rw [hjoined t (List.mem_of_getElem? ht)] at hfalse
      cases hfalse
    · have hlt := (List.getElem?_eq_some_iff.mp ht).1
      rw [List.length_append, List.length_singleton] at hlt
      omega

theorem Inv.join (hs : Inv s) {i : ℕ} {arm : Arm} {r : JoinResult} {aborted joined : Bool}
    (hpc : s.pc = .selecting i arm) (ht : s.tasks[i]? = some ⟨.done r, aborted, joined⟩) :
    Inv { s with
      watch := arm.drop s.watch
      tasks := s.tasks.set i ⟨.done r, aborted, true⟩
      pc := .handling r } := by
  have hold : s.pc ≠ .returned := by simp [hpc]
  have hmem := List.mem_of_getElem? ht
  have hset : ∀ t ∈ s.tasks.set i ⟨.done r, aborted, true⟩, ∃ t' ∈ s.tasks,
      t'.serve = t.serve ∧ t'.aborted = t.aborted := by
    intro t hmem'
    rcases List.mem_or_eq_of_mem_set hmem' with hmem' | rfl
    · exact ⟨t, hmem', rfl, rfl⟩
    · exact ⟨_, hmem, rfl, rfl⟩
  refine ⟨nofun, fun hobs => absurd (hs.observed hobs) hold, ?_, ?_, ?_, ?_, ?_⟩
  · intro t hmem' hok
    obtain ⟨t', ht', hserve, -⟩ := hset t hmem'
    exact (Arm.value_drop _ arm).trans (hs.ok t' ht' (hserve.trans hok))
  · intro t hmem' hcancelled
    obtain ⟨t', ht', hserve, haborted⟩ := hset t hmem'
    exact haborted ▸ hs.cancelled t' ht' (hserve.trans hcancelled)
  · intro t hmem' habort
    obtain ⟨t', ht', -, haborted⟩ := hset t hmem'
    exact absurd (hs.aborted t' ht' (haborted.trans habort)) hold
  · rintro r' hr
    cases hr
    refine ⟨?_, fun hok => (Arm.value_drop _ arm).trans (hs.ok _ hmem (by rw [hok]))⟩
    rintro rfl
    exact hold (hs.aborted _ hmem (hs.cancelled _ hmem rfl))
  · intro t hmem'
    obtain ⟨j, hj⟩ := List.mem_iff_getElem?.mp hmem'
    obtain ⟨-, rfl⟩ | ⟨hij, hj⟩ := getElem?_set_cases hj
    · rfl
    · by_contra hjoined
      exact hij (hs.eq_of_unjoined hpc j t hj (Bool.eq_false_iff.mpr hjoined))

/-- A step of a task. -/
theorem Inv.serve (hs : Inv s) {i : ℕ} {t : Task S} {a : ServeAct S} {w : Shutdown} {f : Serve S}
    (ht : s.tasks[i]? = some t) (h : serveStep s.watch t a = some (w, f)) :
    Inv { s with watch := w, tasks := s.tasks.set i { t with serve := f } } := by
  obtain ⟨hvalue, hok, hcancelled⟩ := serveStep_spec h
  have hmem := List.mem_of_getElem? ht
  refine ⟨fun hpc => hvalue.trans (hs.returned hpc), hs.observed, ?_, ?_, ?_, ?_, ?_⟩
  · intro u hu huok
    rcases List.mem_or_eq_of_mem_set hu with hu | rfl
    · exact hvalue.trans (hs.ok u hu huok)
    · exact hvalue.trans (hok huok)
  · intro u hu hucancelled
    rcases List.mem_or_eq_of_mem_set hu with hu | rfl
    · exact hs.cancelled u hu hucancelled
    · exact hcancelled hucancelled
  · intro u hu hubort
    rcases List.mem_or_eq_of_mem_set hu with hu | rfl
    · exact hs.aborted u hu hubort
    · exact hs.aborted t hmem hubort
  · intro r hpc
    exact ⟨(hs.handling r hpc).1, fun hr => hvalue.trans ((hs.handling r hpc).2 hr)⟩
  · -- which tasks are joined does not change
    have hget : ∀ (j : ℕ) u, (s.tasks.set i { t with serve := f })[j]? = some u →
        ∃ u', s.tasks[j]? = some u' ∧ u'.joined = u.joined := by
      intro j u hu
      obtain ⟨rfl, rfl⟩ | ⟨-, hu⟩ := getElem?_set_cases hu
      · exact ⟨t, ht, rfl⟩
      · exact ⟨u, hu, rfl⟩
    have hall : (∀ u ∈ s.tasks, u.joined = true) →
        ∀ u ∈ s.tasks.set i { t with serve := f }, u.joined = true := by
      intro hjoined u hu
      obtain ⟨j, hj⟩ := List.mem_iff_getElem?.mp hu
      obtain ⟨u', hu', heq⟩ := hget j u hj
      exact heq ▸ hjoined u' (List.mem_of_getElem? hu')
    have hone : ∀ k, (∀ (j : ℕ) u, s.tasks[j]? = some u → u.joined = false → j = k) →
        ∀ (j : ℕ) u, (s.tasks.set i { t with serve := f })[j]? = some u → u.joined = false →
          j = k := by
      intro k hjoined j u hu hfalse
      obtain ⟨u', hu', heq⟩ := hget j u hu
      exact hjoined j u' hu' (heq.trans hfalse)
    have hjoined := hs.joined
    simp only [JoinedOk] at hjoined ⊢
    cases hpc : s.pc with
    | selecting k arm =>
        rw [hpc] at hjoined
        exact hone k hjoined
    | returned =>
        rw [hpc] at hjoined
        obtain ⟨k, hk⟩ := hjoined
        exact ⟨k, hone k hk⟩
    | _ =>
        rw [hpc] at hjoined
        exact hall hjoined

theorem getElem?_abort {tasks : List (Task S)} {i j : ℕ} {t : Task S}
    (h : (abort tasks i)[j]? = some t) : ∃ t', tasks[j]? = some t' ∧ t'.serve = t.serve ∧
      t'.joined = t.joined ∧ (t'.aborted = true → t.aborted = true) := by
  rw [abort, List.getElem?_modify] at h
  obtain ⟨t', ht', rfl⟩ := Option.map_eq_some_iff.mp h
  refine ⟨t', ht', ?_⟩
  split
  · exact ⟨rfl, rfl, fun _ => rfl⟩
  · exact ⟨rfl, rfl, id⟩

theorem Inv.poll (hs : Inv s) (h : pollStep s = some s') : Inv s' := by
  simp only [pollStep] at h
  split at h
  · rename_i i arm hpc
    obtain ⟨⟨w, c⟩, hpoll, rfl⟩ := Option.map_eq_some_iff.mp h
    have hw := Arm.value_poll hpoll
    have hone := hs.eq_of_unjoined hpc
    by_cases hc : c = .returned
    · subst hc
      have hv : w.value = true := hw.trans (Arm.value_of_poll_returned hpoll)
      have hmem : ∀ t ∈ abort s.tasks i, ∃ t' ∈ s.tasks, t'.serve = t.serve ∧
          (t'.aborted = true → t.aborted = true) := by
        intro t ht
        obtain ⟨j, hj⟩ := List.mem_iff_getElem?.mp ht
        obtain ⟨t', ht', hserve, -, haborted⟩ := getElem?_abort hj
        exact ⟨t', List.mem_of_getElem? ht', hserve, haborted⟩
      simp only [if_true]
      refine ⟨fun _ => hv, fun _ => rfl, fun _ _ _ => hv, ?_, fun _ _ _ => rfl, nofun, i, ?_⟩
      · intro t ht hcancelled
        obtain ⟨t', ht', hserve, haborted⟩ := hmem t ht
        exact haborted (hs.cancelled t' ht' (hserve.trans hcancelled))
      · intro j t ht hfalse
        obtain ⟨t', ht', -, hjoined, -⟩ := getElem?_abort ht
        exact hone j t' ht' (hjoined.trans hfalse)
    · simp only [if_neg hc]
      exact hs.goto (by simp [hpc]) (.selecting i c) hw nofun nofun _ _ _ hone
  · rename_i arm hpc
    obtain ⟨⟨w, c⟩, hpoll, rfl⟩ := Option.map_eq_some_iff.mp h
    have hw := Arm.value_poll hpoll
    have hall := hs.all_joined (by simp [hpc]) (by simp [hpc])
    by_cases hc : c = .returned
    · subst hc
      have hv : w.value = true := hw.trans (Arm.value_of_poll_returned hpoll)
      simp only [if_true]
      exact (hs.setWatch (fun _ => hv) s.others).observe hv (exists_of_forall_joined hall)
    · simp only [if_neg hc]
      exact hs.goto (by simp [hpc]) (.backingOff c) hw nofun nofun _ _ _ hall
  · cases h

theorem Inv.handle (hs : Inv s) (h : handleStep s = some s') : Inv s' := by
  simp only [handleStep] at h
  split at h
  · rename_i hpc
    cases h
    have hall := hs.all_joined (by simp [hpc]) (by simp [hpc])
    exact hs.goto (by simp [hpc]) .returned rfl nofun (fun _ => (hs.handling _ hpc).2 rfl) _ _ _
      (exists_of_forall_joined hall)
  · rename_i e hpc
    cases h
    exact hs.goto (by simp [hpc]) .rechecking rfl nofun nofun _ _ _
      (hs.all_joined (by simp [hpc]) (by simp [hpc]))
  · rename_i hpc
    cases h
    exact hs.goto (by simp [hpc]) .rechecking rfl nofun nofun _ _ _
      (hs.all_joined (by simp [hpc]) (by simp [hpc]))
  · rename_i hpc
    exact absurd rfl (hs.handling _ hpc).1
  · cases h

theorem inv_step (s : State S) (a : Act S) (s' : State S) (hs : Inv s) (h : step s a = some s') :
    Inv s' := by
  cases a with
  | trigger =>
      cases h
      exact hs.setWatch Shutdown.value_trigger_of_value s.others
  | subscribe =>
      cases h
      exact hs.setWatch (w := s.watch.subscribe.1) (fun hv => hv) _
  | unsubscribe =>
      simp only [step, Option.ite_none_right_eq_some, Option.some.injEq] at h
      obtain ⟨-, rfl⟩ := h
      exact hs.setWatch (w := s.watch.dropReceiver) (fun hv => hv) _
  | check =>
      simp only [step, Option.ite_none_right_eq_some] at h
      obtain ⟨hpc, h⟩ := h
      have hall := hs.all_joined (by simp [hpc]) (by simp [hpc])
      split at h
      · rename_i hv
        cases h
        exact hs.observe hv (exists_of_forall_joined hall)
      · cases h
        exact hs.goto (by simp [hpc]) .spawning rfl nofun nofun _ _ _ hall
  | spawn =>
      simp only [step, Option.ite_none_right_eq_some, Option.some.injEq] at h
      obtain ⟨hpc, rfl⟩ := h
      exact hs.spawn hpc
  | poll => exact hs.poll h
  | join =>
      simp only [step, joinStep] at h
      split at h
      · rename_i i arm hpc
        split at h
        · rename_i r aborted joined ht
          cases h
          exact hs.join hpc ht
        · cases h
      · cases h
  | handle => exact hs.handle h
  | recheck elapsed =>
      simp only [step, Option.ite_none_right_eq_some] at h
      obtain ⟨hpc, h⟩ := h
      have hall := hs.all_joined (by simp [hpc]) (by simp [hpc])
      split at h
      · rename_i hv
        cases h
        exact hs.observe hv (exists_of_forall_joined hall)
      · cases h
        exact hs.goto (by simp [hpc]) (.backingOff none) rfl nofun nofun _ _ _ hall
  | wake =>
      simp only [step] at h
      split at h
      · rename_i arm hpc
        cases h
        exact hs.goto (by simp [hpc]) .checking (Arm.value_drop _ arm) nofun nofun _ _ _
          (hs.all_joined (by simp [hpc]) (by simp [hpc]))
      · cases h
  | serve i a =>
      obtain ⟨t, ht, h⟩ := Option.bind_eq_some_iff.mp h
      obtain ⟨⟨w, f⟩, hserve, rfl⟩ := Option.map_eq_some_iff.mp h
      exact hs.serve ht hserve

theorem inv (h : (machine S).Reachable s) : Inv s := h.invariant inv_init inv_step

/-- After the supervisor has returned, no step spawns a task. -/
theorem length_tasks_step {a : Act S} (hpc : s.pc = .returned) (h : step s a = some s') :
    s'.pc = .returned ∧ s'.tasks.length = s.tasks.length := by
  cases a with
  | trigger =>
      cases h
      exact ⟨hpc, rfl⟩
  | subscribe =>
      cases h
      exact ⟨hpc, rfl⟩
  | unsubscribe =>
      simp only [step, Option.ite_none_right_eq_some, Option.some.injEq] at h
      obtain ⟨-, rfl⟩ := h
      exact ⟨hpc, rfl⟩
  | serve i a =>
      obtain ⟨t, ht, h⟩ := Option.bind_eq_some_iff.mp h
      obtain ⟨⟨w, f⟩, -, rfl⟩ := Option.map_eq_some_iff.mp h
      exact ⟨hpc, List.length_set⟩
  | _ => simp [step, pollStep, joinStep, handleStep, hpc] at h

theorem length_tasks_run {as : List (Act S)} (hpc : s.pc = .returned)
    (h : (machine S).run s as = some s') : s'.tasks.length = s.tasks.length := by
  have hrun := Machine.run_invariant
    (I := fun t : State S => t.pc = .returned ∧ t.tasks.length = s.tasks.length)
    (fun r a t hr hstep => ?_) h ⟨hpc, rfl⟩
  · exact hrun.2
  · obtain ⟨hpc', hlen⟩ := length_tasks_step hr.1 hstep
    exact ⟨hpc', hlen.trans hr.2⟩

/-- What holds of the supervisor in a state: it has returned, and a task has returned
`Ok`, only if the value is `true`; at most one task is not joined, and a further one is
spawned only when all are; and once it has seen `true`, it never calls `serve` again. -/
structure NeverAbandoned (s : State S) : Prop where
  returned : s.pc = .returned → s.watch.value = true
  ok : ∀ t ∈ s.tasks, t.serve = .done .ok → s.watch.value = true
  unjoined : ∀ (i j : ℕ) t u, s.tasks[i]? = some t → s.tasks[j]? = some u → t.joined = false →
    u.joined = false → i = j
  spawn : ∀ s', step s .spawn = some s' → ∀ t ∈ s.tasks, t.joined = true
  observed : s.observed = true → ∀ as s', (machine S).run s as = some s' →
    s'.tasks.length = s.tasks.length

theorem neverAbandoned (h : (machine S).Reachable s) : NeverAbandoned s := by
  have hinv := inv h
  refine ⟨hinv.returned, hinv.ok, ?_, ?_,
    fun hobs as s' hrun => length_tasks_run (hinv.observed hobs) hrun⟩
  · have hone : ∃ k, ∀ (j : ℕ) t, s.tasks[j]? = some t → t.joined = false → j = k := by
      by_cases hreturned : s.pc = .returned
      · have hok := hinv.joined
        rwa [JoinedOk, hreturned] at hok
      · by_cases hselecting : ∃ i arm, s.pc = .selecting i arm
        · obtain ⟨i, arm, hpc⟩ := hselecting
          exact ⟨i, hinv.eq_of_unjoined hpc⟩
        · rw [not_exists] at hselecting
          exact exists_of_forall_joined
            (hinv.all_joined (fun i arm hpc => hselecting i ⟨arm, hpc⟩) hreturned)
    obtain ⟨k, hk⟩ := hone
    intro i j t u ht hu htfalse hufalse
    exact (hk i t ht htfalse).trans (hk j u hu hufalse).symm
  · intro s' hspawn
    simp only [step, Option.ite_none_right_eq_some] at hspawn
    obtain ⟨hpc, -⟩ := hspawn
    exact hinv.all_joined (by simp [hpc]) (by simp [hpc])

end Gust.Supervisor
