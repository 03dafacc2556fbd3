import Gust.Supervisor

/-!
# The pauses between restarts

After a failure the supervisor sleeps, and the pause doubles from failure to failure. The
reset after a healthy run comes before the pause and the doubling behind it, so the pause
counts the failures since the last healthy run, that one included; the failure of a healthy
run itself is followed by the shortest pause.

The supervisor passes through four phases: before a call of `serve`, in it, in the pause,
and at its end. `phase_step` says all that a step can do to them and to the numbers;
the schedule of every run follows from it (`backoff_schedule`).
-/

namespace Gust.Supervisor

open Gust.Lib

variable {S : Service} {s s' : State S}

/-- What the pauses of a run depend on. -/
inductive Phase
  /-- No call of `serve` is pending. -/
  | idle
  /-- From the call of `serve` to the end of its failure. -/
  | calling
  | pausing
  | ended
  deriving DecidableEq, Repr

def Pc.phase : Pc → Phase
  | .checking | .spawning => .idle
  | .selecting _ _ | .handling _ | .rechecking => .calling
  | .backingOff _ => .pausing
  | .returned => .ended

/-- The run that has failed took `elapsed`, and the supervisor pauses: the run's duration
and the pause. -/
def pauses (s : State S) : Act S → Option (ℕ × ℕ)
  | .recheck elapsed =>
      if s.pc = .rechecking ∧ s.watch.isTriggered = false then
        some (elapsed, backoffAfter s.backoff elapsed)
      else none
  | _ => none

/-- What a step does to the phase, the pause, the counter of restarts and the number of
calls. -/
inductive PhaseStep (s s' : State S) : Option (ℕ × ℕ) → Prop
  /-- Nothing happens to them, or the supervisor returns. -/
  | stay (hphase : s'.pc.phase = s.pc.phase ∨ s'.pc.phase = .ended)
      (hbackoff : s'.backoff = s.backoff) (hrestarts : s'.restarts = s.restarts)
      (htasks : s'.tasks.length = s.tasks.length) : PhaseStep s s' none
  | call (hphase : s.pc.phase = .idle) (hphase' : s'.pc.phase = .calling)
      (hbackoff : s'.backoff = s.backoff) (hrestarts : s'.restarts = s.restarts)
      (htasks : s'.tasks.length = s.tasks.length + 1) : PhaseStep s s' none
  | pause (elapsed : ℕ) (hphase : s.pc.phase = .calling) (hphase' : s'.pc.phase = .pausing)
      (hbackoff : s'.backoff = backoffAfter s.backoff elapsed)
      (hrestarts : s'.restarts = s.restarts + 1) (htasks : s'.tasks.length = s.tasks.length) :
      PhaseStep s s' (some (elapsed, s'.backoff))
  | wake (hphase : s.pc.phase = .pausing) (hphase' : s'.pc.phase = .idle)
      (hbackoff : s'.backoff = min (s.backoff * 2) backoffMax) (hrestarts : s'.restarts = s.restarts)
      (htasks : s'.tasks.length = s.tasks.length) : PhaseStep s s' none

theorem length_abort (tasks : List (Task S)) (i : ℕ) : (abort tasks i).length = tasks.length := by
  simp [abort]

theorem phase_poll (h : pollStep s = some s') : PhaseStep s s' none := by
  unfold pollStep at h
  split at h
  · rename_i i arm hpc
    obtain ⟨r, -, rfl⟩ := Option.map_eq_some_iff.mp h
    split
    · exact .stay (.inr rfl) rfl rfl (length_abort s.tasks i)
    · exact .stay (.inl (by simp [Pc.phase, hpc])) rfl rfl rfl
  · rename_i arm hpc
    obtain ⟨r, -, rfl⟩ := Option.map_eq_some_iff.mp h
    split
    · exact .stay (.inr rfl) rfl rfl rfl
    · exact .stay (.inl (by simp [Pc.phase, hpc])) rfl rfl rfl
  · cases h

theorem phase_join (h : joinStep s = some s') : PhaseStep s s' none := by
  unfold joinStep at h
  split at h
  · rename_i i arm hpc
    split at h
    · cases h
      exact .stay (.inl (by simp [Pc.phase, hpc])) rfl rfl (by simp)
    · cases h
  · cases h

theorem phase_handle (h : handleStep s = some s') : PhaseStep s s' none := by
  unfold handleStep at h
  split at h
  · cases h
    exact .stay (.inr rfl) rfl rfl rfl
  · rename_i e hpc
    cases h
    exact .stay (.inl (by simp [Pc.phase, hpc])) rfl rfl rfl
  · rename_i hpc
    cases h
    exact .stay (.inl (by simp [Pc.phase, hpc])) rfl rfl rfl
  · cases h
    exact .stay (.inr rfl) rfl rfl rfl
  · cases h

theorem phase_step {a : Act S} (h : step s a = some s') : PhaseStep s s' (pauses s a) := by
  cases a with
  | trigger =>
      cases h
      exact .stay (.inl rfl) rfl rfl rfl
  | subscribe =>
      cases h
      exact .stay (.inl rfl) rfl rfl rfl
  | unsubscribe =>
      simp only [step, Option.ite_none_right_eq_some, Option.some.injEq] at h
      obtain ⟨-, rfl⟩ := h
      exact .stay (.inl rfl) rfl rfl rfl
  | check =>
      simp only [step, Option.ite_none_right_eq_some] at h
      obtain ⟨hpc, h⟩ := h
      split at h
      · cases h
        exact .stay (.inr rfl) rfl rfl rfl
      · cases h
        exact .stay (.inl (by simp [Pc.phase, hpc])) rfl rfl rfl
  | spawn =>
      simp only [step, Option.ite_none_right_eq_some, Option.some.injEq] at h
      obtain ⟨hpc, rfl⟩ := h
      exact .call (by simp [Pc.phase, hpc]) rfl rfl rfl (by simp)
  | poll => exact phase_poll h
  | join => exact phase_join h
  | handle => exact phase_handle h
  | recheck elapsed =>
      simp only [step, Option.ite_none_right_eq_some] at h
      obtain ⟨hpc, h⟩ := h
      cases htriggered : s.watch.isTriggered with
      | true =>
          simp only [htriggered, if_true, Option.some.injEq] at h
          subst h
          simp only [pauses, htriggered, Bool.true_eq_false, and_false, if_false]
          exact .stay (.inr rfl) rfl rfl rfl
      | false =>
          simp only [htriggered, Bool.false_eq_true, if_false, Option.some.injEq] at h
          subst h
          simp only [pauses, hpc, htriggered, and_self, if_true]
          exact .pause elapsed (by simp [Pc.phase, hpc]) rfl rfl rfl rfl
  | wake =>
      simp only [step] at h
      split at h
      · rename_i arm hpc
        cases h
        exact .wake (by simp [Pc.phase, hpc]) rfl rfl rfl rfl
      · cases h
  | serve i a =>
      simp only [step, Option.bind_eq_some_iff, Option.map_eq_some_iff] at h
      obtain ⟨t, -, r, -, rfl⟩ := h
      exact .stay (.inl rfl) rfl rfl (by simp)

/-! ## The schedule -/

/-- How many of the failures so far, with the durations of their runs, count for the next
pause: those since the last healthy run, that one included, or all of them. -/
def failuresSince (durations : List ℕ) : ℕ :=
  match durations.reverse.findIdx? fun d => backoffHealthy ≤ d with
  | some i => i + 1
  | none => durations.length

/-- The pause after a failure: `durations` are those of the runs before, `d` that of the run
that has failed. -/
def pauseAfter (durations : List ℕ) (d : ℕ) : ℕ :=
  min (backoffInitial * 2 ^ if backoffHealthy ≤ d then 0 else failuresSince durations) backoffMax

/-- The largest duration the clock can represent, in milliseconds. -/
def durationMax : ℕ := (2 ^ 64 - 1) * 1000 + 999

theorem failuresSince_append (durations : List ℕ) (d : ℕ) :
    failuresSince (durations ++ [d]) =
      (if backoffHealthy ≤ d then 0 else failuresSince durations) + 1 := by
  rw [failuresSince, List.reverse_append, List.reverse_singleton, List.singleton_append,
    List.findIdx?_cons]
  by_cases hd : backoffHealthy ≤ d
  · simp [hd]
  · simp only [hd, decide_false, Bool.false_eq_true, if_false, failuresSince]
    cases durations.reverse.findIdx? fun d => decide (backoffHealthy ≤ d) with
    | none => simp
    | some i => simp

/-- Doubling a pause counts one more failure. -/
theorem min_pauseAfter_mul_two (durations : List ℕ) (d : ℕ) :
    min (pauseAfter durations d * 2) backoffMax =
      min (backoffInitial * 2 ^ failuresSince (durations ++ [d])) backoffMax := by
  rw [failuresSince_append, pauseAfter, Nat.pow_succ, ← Nat.mul_assoc]
  omega

theorem pauseAfter_bounds (durations : List ℕ) (d : ℕ) :
    backoffInitial ≤ pauseAfter durations d ∧ pauseAfter durations d ≤ backoffMax := by
  have hpow := Nat.two_pow_pos (if backoffHealthy ≤ d then 0 else failuresSince durations)
  refine ⟨?_, Nat.min_le_right _ _⟩
  refine le_min (Nat.le_mul_of_pos_right _ hpow) ?_
  decide

/-- How the state of the supervisor belongs to the pauses so far, given with the durations
of the runs before them. -/
structure Scheduled (outs : List (ℕ × ℕ)) (s : State S) : Prop where
  pauses : ∀ (n : ℕ) d p, outs[n]? = some (d, p) → p = pauseAfter ((outs.take n).map Prod.fst) d
  restarts : s.restarts = outs.length
  calls : s.tasks.length ≤ outs.length + 1
  idle : s.pc.phase = .idle → s.tasks.length ≤ outs.length
  backoff : s.pc.phase = .idle ∨ s.pc.phase = .calling →
    s.backoff = min (backoffInitial * 2 ^ failuresSince (outs.map Prod.fst)) backoffMax
  pausing : s.pc.phase = .pausing → s.tasks.length ≤ outs.length ∧
    ∃ before d, outs = before ++ [(d, s.backoff)]
  backoff_le : s.backoff ≤ backoffMax

theorem scheduled_init : Scheduled [] (machine S).init where
  pauses := by simp
  restarts := rfl
  calls := Nat.zero_le _
  idle _ := le_rfl
  backoff _ := rfl
  pausing := nofun
  backoff_le := show backoffInitial ≤ backoffMax by decide

variable {outs : List (ℕ × ℕ)}

theorem Scheduled.stay (hs : Scheduled outs s)
    (hphase : s'.pc.phase = s.pc.phase ∨ s'.pc.phase = .ended) (hbackoff : s'.backoff = s.backoff)
    (hrestarts : s'.restarts = s.restarts) (htasks : s'.tasks.length = s.tasks.length) :
    Scheduled outs s' := by
  have hsame : ∀ {p}, s'.pc.phase = p → p ≠ .ended → s.pc.phase = p := by
    intro p hp hne
    obtain hphase | hphase := hphase
    · rw [← hphase, hp]
    · exact absurd (hp.symm.trans hphase) hne
  refine ⟨hs.pauses, hrestarts.trans hs.restarts, htasks ▸ hs.calls, ?_, ?_, ?_, ?_⟩
  · intro hidle
    rw [htasks]
    exact hs.idle (hsame hidle (by decide))
  · rintro (hidle | hcalling)
    · rw [hbackoff]
      exact hs.backoff (.inl (hsame hidle (by decide)))
    · rw [hbackoff]
      exact hs.backoff (.inr (hsame hcalling (by decide)))
  · intro hpausing
    rw [htasks, hbackoff]
    exact hs.pausing (hsame hpausing (by decide))
  · rw [hbackoff]
    exact hs.backoff_le

theorem Scheduled.call (hs : Scheduled outs s) (hphase : s.pc.phase = .idle)
    (hphase' : s'.pc.phase = .calling) (hbackoff : s'.backoff = s.backoff)
    (hrestarts : s'.restarts = s.restarts) (htasks : s'.tasks.length = s.tasks.length + 1) :
    Scheduled outs s' := by
  have hidle := hs.idle hphase
  refine ⟨hs.pauses, hrestarts.trans hs.restarts, by omega, ?_, ?_, ?_, ?_⟩
  · intro hidle'
    rw [hphase'] at hidle'
    cases hidle'
  · intro _
    rw [hbackoff]
    exact hs.backoff (.inl hphase)
  · intro hpausing
    rw [hphase'] at hpausing
    cases hpausing
  · rw [hbackoff]
    exact hs.backoff_le

/-- The pause after one more failure is as scheduled. -/
theorem Scheduled.pauses_append (hs : Scheduled outs s) {elapsed backoff : ℕ}
    (hpause : backoff = pauseAfter (outs.map Prod.fst) elapsed) (n d p : ℕ)
    (hn : (outs ++ [(elapsed, backoff)])[n]? = some (d, p)) :
    p = pauseAfter (((outs ++ [(elapsed, backoff)]).take n).map Prod.fst) d := by
  by_cases hlast : n < outs.length
  · rw [List.getElem?_append_left hlast] at hn
    rw [List.take_append_of_le_length (Nat.le_of_lt hlast)]
    exact hs.pauses n d p hn
  · obtain rfl : n = outs.length := by
      have hlt := (List.getElem?_eq_some_iff.mp hn).1
      rw [List.length_append, List.length_singleton] at hlt
      omega
    rw [List.getElem?_concat_length, Option.some.injEq, Prod.mk.injEq] at hn
    obtain ⟨rfl, rfl⟩ := hn
    rw [List.take_left, hpause]

theorem Scheduled.pause (hs : Scheduled outs s) (elapsed : ℕ) (hphase : s.pc.phase = .calling)
    (hphase' : s'.pc.phase = .pausing) (hbackoff : s'.backoff = backoffAfter s.backoff elapsed)
    (hrestarts : s'.restarts = s.restarts + 1) (htasks : s'.tasks.length = s.tasks.length) :
    Scheduled (outs ++ [(elapsed, s'.backoff)]) s' := by
  have hcalls := hs.calls
  have hpause : s'.backoff = pauseAfter (outs.map Prod.fst) elapsed := by
    rw [hbackoff, hs.backoff (.inr hphase), backoffAfter, pauseAfter]
    split
    · decide
    · rfl
  have hlen : (outs ++ [(elapsed, s'.backoff)]).length = outs.length + 1 := by simp
  refine ⟨hs.pauses_append hpause, ?_, by omega, ?_, ?_, ?_, ?_⟩
  · rw [hlen, hrestarts, hs.restarts]
  · intro hidle
    rw [hphase'] at hidle
    cases hidle
  · rintro (hidle | hcalling)
    · rw [hphase'] at hidle
      cases hidle
    · rw [hphase'] at hcalling
      cases hcalling
  · intro _
    exact ⟨by omega, outs, elapsed, rfl⟩
  · rw [hpause]
    exact (pauseAfter_bounds _ _).2

theorem Scheduled.wake (hs : Scheduled outs s) (hphase : s.pc.phase = .pausing)
    (hphase' : s'.pc.phase = .idle) (hbackoff : s'.backoff = min (s.backoff * 2) backoffMax)
    (hrestarts : s'.restarts = s.restarts) (htasks : s'.tasks.length = s.tasks.length) :
    Scheduled outs s' := by
  obtain ⟨hcalls, before, d, houts⟩ := hs.pausing hphase
  refine ⟨hs.pauses, hrestarts.trans hs.restarts, by omega, fun _ => by omega, ?_, ?_, ?_⟩
  · intro _
    have hget : outs[before.length]? = some (d, s.backoff) := by
      rw [houts, List.getElem?_concat_length]
    have hlast := hs.pauses before.length d s.backoff hget
    rw [houts, List.take_left] at hlast
    rw [hbackoff, hlast, min_pauseAfter_mul_two, houts, List.map_append, List.map_singleton]
  · intro hpausing
    rw [hphase'] at hpausing
    cases hpausing
  · rw [hbackoff]
    exact Nat.min_le_right _ _

theorem scheduled_step {a : Act S} (hs : Scheduled outs s) (h : step s a = some s') :
    Scheduled (outs ++ (Supervisor.pauses s a).toList) s' := by
  have hstep := phase_step h
  generalize Supervisor.pauses s a = out at hstep
  cases hstep with
  | stay hphase hbackoff hrestarts htasks =>
      rw [Option.toList_none, List.append_nil]
      exact hs.stay hphase hbackoff hrestarts htasks
  | call hphase hphase' hbackoff hrestarts htasks =>
      rw [Option.toList_none, List.append_nil]
      exact hs.call hphase hphase' hbackoff hrestarts htasks
  | pause elapsed hphase hphase' hbackoff hrestarts htasks =>
      exact hs.pause elapsed hphase hphase' hbackoff hrestarts htasks
  | wake hphase hphase' hbackoff hrestarts htasks =>
      rw [Option.toList_none, List.append_nil]
      exact hs.wake hphase hphase' hbackoff hrestarts htasks

/-- What the supervisor does between restarts, in a run that ends in `s`. -/
structure BackoffSchedule (outs : List (ℕ × ℕ)) (s : State S) : Prop where
  /-- The pause after the `n`-th failure, from the durations of the runs up to it. -/
  pauses : ∀ (n : ℕ) d p, outs[n]? = some (d, p) →
    p = pauseAfter ((outs.take n).map Prod.fst) d ∧ backoffInitial ≤ p ∧ p ≤ backoffMax
  /-- The pause that is being slept is the last one. -/
  sleeping : ∀ arm, s.pc = .backingOff arm → ∃ d, outs.getLast? = some (d, s.backoff)
  /-- Doubling it does not overflow. -/
  doubling : s.backoff * 2 ≤ durationMax
  restarts : s.restarts = outs.length
  calls : s.tasks.length ≤ s.restarts + 1

/-- **The schedule of the pauses**, in every run: whatever the runs of `serve` end with and
however long they take, and with a shutdown at any point. -/
theorem backoff_schedule {as : List (Act S)}
    (h : (machine S).run (machine S).init as = some s) :
    BackoffSchedule ((machine S).outputs Supervisor.pauses (machine S).init as) s := by
  have hs := Machine.run_outputs_invariant (I := Scheduled) scheduled_init
    (fun _ _ _ _ hs h => scheduled_step hs h) h
  refine ⟨?_, ?_, ?_, hs.restarts, ?_⟩
  · intro n d p hn
    have hp := hs.pauses n d p hn
    rw [hp]
    exact ⟨rfl, pauseAfter_bounds _ _⟩
  · intro arm hpc
    obtain ⟨-, before, d, houts⟩ := hs.pausing (by rw [hpc]; rfl)
    exact ⟨d, by rw [houts, List.getLast?_concat]⟩
  · have hle := hs.backoff_le
    have hmax : backoffMax * 2 ≤ durationMax := by decide
    omega
  · rw [hs.restarts]
    exact hs.calls

/-- Two short runs, a healthy one and two short ones again, and the shutdown during the last
call. -/
theorem backoff_schedule_reset :
    ∃ (as : List (Act ⟨Unit, Unit, [], (), fun _ _ => none, fun _ => true⟩)) (s : State _),
      (machine _).run (machine _).init as = some s ∧ s.pc = .returned ∧
      (machine _).outputs Supervisor.pauses (machine _).init as =
        [(5, 100), (5, 200), (10000, 100), (9999, 200), (5, 400)] ∧
      s.tasks.length ≤ s.restarts + 1 := by
  obtain ⟨as, s, hrun, hpc, houts⟩ :
      ∃ (as : List (Act ⟨Unit, Unit, [], (), fun _ _ => none, fun _ => true⟩)) (s : State _),
        (machine _).run (machine _).init as = some s ∧ s.pc = .returned ∧
        (machine _).outputs Supervisor.pauses (machine _).init as =
          [(5, 100), (5, 200), (10000, 100), (9999, 200), (5, 400)] :=
    ⟨[.check, .spawn, .serve 0 (.bind (some ⟨.other, []⟩)), .join, .handle, .recheck 5, .wake,
      .check, .spawn, .serve 1 .panic, .join, .handle, .recheck 5, .wake,
      .check, .spawn, .serve 2 .panic, .join, .handle, .recheck 10000, .wake,
      .check, .spawn, .serve 3 .panic, .join, .handle, .recheck 9999, .wake,
      .check, .spawn, .serve 4 .panic, .join, .handle, .recheck 5, .wake,
      .check, .spawn, .poll, .trigger, .poll], _, rfl, rfl, rfl⟩
  exact ⟨as, s, hrun, hpc, houts, (backoff_schedule hrun).calls⟩

end Gust.Supervisor
