import Gust.Lib.Text

/-!
# Programs that call the kernel

A program opens descriptors, makes calls on them, waits on them for a limited time and
closes them. The kernel is arbitrary: an `Env` answers each call as it likes, depending on
everything that has happened before, so a statement about every `Env` covers every pattern
of failures. What has happened is a log of events, in which a call stands with its outcome,
accepted or refused; a descriptor is the number of the `open` that made it, so that it names
one socket for ever.

Values that own a descriptor close it when they go out of scope. `owning` is a block that
hands its descriptor on when it succeeds and closes it otherwise, `closing` one that closes
it in any case.

## Main definitions

* `Prog`, `Prog.openFd`, `Prog.call`, `Prog.await`, `Prog.owning`, `Prog.closing` — programs.
* `Prog.Leaves p keeps` — after `p` exactly the descriptors it hands on are open in addition
  to those that were.
* `Prog.Takes p n` — `p` waits for at most `n`.
* `Prog.Preserves I p` — `p` keeps a predicate on the log.
* `Prog.Guarded P base log` — behind `base`, the log has no call without the accepted calls
  that have to come before it.
* `Outcome.Agrees x y` — two results that differ at most in the value they hand on.
-/

namespace Gust.Lib

/-- One thing that happened to a descriptor. -/
inductive SysEvent (C : Type)
  | opened (fd : ℕ)
  | call (fd : ℕ) (c : C) (ok : Bool)
  | closed (fd : ℕ)
  deriving DecidableEq, Repr

namespace SysEvent

variable {C : Type}

def fd : SysEvent C → ℕ
  | opened fd => fd
  | call fd _ _ => fd
  | closed fd => fd

def isOpened : SysEvent C → Bool
  | opened _ => true
  | _ => false

end SysEvent

/-- What has happened so far. -/
structure World (C : Type) where
  log : List (SysEvent C)
  clock : ℕ

section Log

variable {C : Type}

/-- The next descriptor. -/
def fresh (log : List (SysEvent C)) : ℕ := log.countP SysEvent.isOpened

/-- Every descriptor in the log was opened. -/
def Named (log : List (SysEvent C)) : Prop := ∀ e ∈ log, e.fd < fresh log

def FdOpen (log : List (SysEvent C)) (fd : ℕ) : Prop := .opened fd ∈ log ∧ .closed fd ∉ log

/-- The calls on one descriptor that were accepted, in order. -/
def acceptedOf (fd : ℕ) (log : List (SysEvent C)) : List C :=
  log.filterMap fun e =>
    match e with
    | .call fd' c ok => if ok && fd' == fd then some c else none
    | _ => none

variable {log : List (SysEvent C)} {fd fd' : ℕ} {c : C} {ok : Bool}

theorem FdOpen.lt_fresh (hlog : Named log) (h : FdOpen log fd) : fd < fresh log := hlog _ h.1

theorem acceptedOf_append (fd : ℕ) (log log' : List (SysEvent C)) :
    acceptedOf fd (log ++ log') = acceptedOf fd log ++ acceptedOf fd log' :=
  List.filterMap_append

/-- Nothing was done to a descriptor that is not there yet. -/
theorem acceptedOf_of_fresh (hlog : Named log) (h : fresh log ≤ fd) : acceptedOf fd log = [] := by
  rw [acceptedOf, List.filterMap_eq_nil_iff]
  intro e he
  have hlt := hlog e he
  cases e with
  | call fd' c ok =>
      simp only [SysEvent.fd] at hlt
      have hne : fd' ≠ fd := by omega
      simp [hne]
  | opened fd' => rfl
  | closed fd' => rfl

theorem Named.opened (hlog : Named log) : Named (log ++ [.opened (fresh log)]) := by
  intro e he
  have hfresh : fresh (log ++ [.opened (fresh log)]) = fresh log + 1 := by
    simp [fresh, SysEvent.isOpened]
  rw [hfresh]
  rcases List.mem_append.mp he with he | he
  · exact Nat.lt_succ_of_lt (hlog e he)
  · rw [List.mem_singleton.mp he]
    exact Nat.lt_succ_self _

/-- An event on a descriptor that was opened. -/
theorem Named.snoc (hlog : Named log) {e : SysEvent C} (he : e.isOpened = false)
    (hfd : e.fd < fresh log) : Named (log ++ [e]) := by
  intro e' he'
  have hfresh : fresh (log ++ [e]) = fresh log := by simp [fresh, he]
  rw [hfresh]
  rcases List.mem_append.mp he' with he' | he'
  · exact hlog e' he'
  · rw [List.mem_singleton.mp he']
    exact hfd

theorem fdOpen_opened (hlog : Named log) :
    FdOpen (log ++ [.opened (fresh log)]) fd ↔ FdOpen log fd ∨ fd = fresh log := by
  simp only [FdOpen, List.mem_append, List.mem_singleton, SysEvent.opened.injEq, reduceCtorEq,
    or_false]
  constructor
  · rintro ⟨hopen | rfl, hclosed⟩
    · exact .inl ⟨hopen, hclosed⟩
    · exact .inr rfl
  · rintro (⟨hopen, hclosed⟩ | rfl)
    · exact ⟨.inl hopen, hclosed⟩
    · exact ⟨.inr rfl, fun hclosed => Nat.lt_irrefl _ (hlog _ hclosed)⟩

theorem fdOpen_call : FdOpen (log ++ [.call fd' c ok]) fd ↔ FdOpen log fd := by
  simp [FdOpen]

theorem fdOpen_closed : FdOpen (log ++ [.closed fd']) fd ↔ FdOpen log fd ∧ fd ≠ fd' := by
  simp only [FdOpen, List.mem_append, List.mem_singleton, SysEvent.closed.injEq, reduceCtorEq,
    or_false, not_or, and_assoc]

end Log

/-- How the kernel answers, given what has happened. -/
structure Env (C ε : Type) where
  /-- Why a descriptor cannot be opened. -/
  opens : List (SysEvent C) → Option ε
  /-- Why a call fails. -/
  call : List (SysEvent C) → ℕ → C → Option ε
  /-- How long a call lets the program wait; `none` is for ever. -/
  delay : List (SysEvent C) → ℕ → C → Option ℕ

/-- A program that calls the kernel. -/
structure Prog (C ε α : Type) where
  run : Env C ε → World C → Outcome ε α × World C

namespace Prog

variable {C ε α β : Type}

def pure (a : α) : Prog C ε α := ⟨fun _ w => (.ok a, w)⟩

def bind (p : Prog C ε α) (f : α → Prog C ε β) : Prog C ε β :=
  ⟨fun env w =>
    match p.run env w with
    | (.ok a, w') => (f a).run env w'
    | (.err e, w') => (.err e, w')
    | (.panic, w') => (.panic, w')⟩

instance : Monad (Prog C ε) where
  pure := pure
  bind := bind

def ofOutcome (x : Outcome ε α) : Prog C ε α := ⟨fun _ w => (x, w)⟩

/-- A failed call is an error. -/
def answer : Option ε → Outcome ε Unit
  | none => .ok ()
  | some e => .err e

def openFd : Prog C ε ℕ :=
  ⟨fun env w =>
    match env.opens w.log with
    | some e => (.err e, w)
    | none => (.ok (fresh w.log), { w with log := w.log ++ [.opened (fresh w.log)] })⟩

/-- A call that returns at once. -/
def call (fd : ℕ) (c : C) : Prog C ε Unit :=
  ⟨fun env w =>
    (answer (env.call w.log fd c),
      { w with log := w.log ++ [.call fd c (env.call w.log fd c).isNone] })⟩

/-- A call that is given up after `limit`. -/
def await (fd : ℕ) (c : C) (limit : ℕ) (timedOut : ε) : Prog C ε Unit :=
  ⟨fun env w =>
    match env.delay w.log fd c with
    | some t =>
        if t ≤ limit then
          (answer (env.call w.log fd c),
            ⟨w.log ++ [.call fd c (env.call w.log fd c).isNone], w.clock + t⟩)
        else (.err timedOut, ⟨w.log ++ [.call fd c false], w.clock + limit⟩)
    | none => (.err timedOut, ⟨w.log ++ [.call fd c false], w.clock + limit⟩)⟩

/-- One call after the other, up to the first that fails. -/
def callAll (fd : ℕ) : List C → Prog C ε Unit
  | [] => pure ()
  | c :: cs => call fd c >>= fun _ => callAll fd cs

/-- Hand the descriptor on if the block succeeds, else close it. -/
def owning (fd : ℕ) (p : Prog C ε Unit) : Prog C ε ℕ :=
  ⟨fun env w =>
    match p.run env w with
    | (.ok _, w') => (.ok fd, w')
    | (.err e, w') => (.err e, { w' with log := w'.log ++ [.closed fd] })
    | (.panic, w') => (.panic, { w' with log := w'.log ++ [.closed fd] })⟩

/-- Close the descriptor at the end of the block. -/
def closing (fd : ℕ) (p : Prog C ε α) : Prog C ε α :=
  ⟨fun env w =>
    ((p.run env w).1, { (p.run env w).2 with log := (p.run env w).2.log ++ [.closed fd] })⟩

/-- Go on with the handler when the program fails. -/
def catching (p : Prog C ε α) (handler : ε → Prog C ε α) : Prog C ε α :=
  ⟨fun env w =>
    match p.run env w with
    | (.ok a, w') => (.ok a, w')
    | (.err e, w') => (handler e).run env w'
    | (.panic, w') => (.panic, w')⟩

def mapErr (f : ε → ε) (p : Prog C ε α) : Prog C ε α :=
  ⟨fun env w => ((p.run env w).1.mapErr f, (p.run env w).2)⟩

theorem run_bind (p : Prog C ε α) (f : α → Prog C ε β) (env : Env C ε) (w : World C) :
    (p >>= f).run env w =
      match p.run env w with
      | (.ok a, w') => (f a).run env w'
      | (.err e, w') => (.err e, w')
      | (.panic, w') => (.panic, w') := rfl

/-! ## Which descriptors are left open -/

/-- What a result hands on. -/
def kept (keeps : α → List ℕ) : Outcome ε α → List ℕ
  | .ok a => keeps a
  | .err _ => []
  | .panic => []

/-- From `w` to `w'`, exactly the descriptors in `fds` are opened and not closed again. -/
structure Opens (w w' : World C) (fds : List ℕ) : Prop where
  named : Named w'.log
  mono : fresh w.log ≤ fresh w'.log
  fdOpen : ∀ fd, FdOpen w'.log fd ↔ FdOpen w.log fd ∨ fd ∈ fds
  new : ∀ fd ∈ fds, fresh w.log ≤ fd

/-- After the program exactly the descriptors it hands on are open in addition to those
that were. -/
def Leaves (p : Prog C ε α) (keeps : α → List ℕ) : Prop :=
  ∀ env w, Named w.log → Opens w (p.run env w).2 (kept keeps (p.run env w).1)

/-- A program that uses some descriptors and leaves everything as it was. -/
def Inert (used : List ℕ) (p : Prog C ε α) : Prop :=
  ∀ env w, Named w.log → (∀ fd ∈ used, fd < fresh w.log) → Opens w (p.run env w).2 []

variable {p : Prog C ε α} {f : α → Prog C ε β} {keeps : α → List ℕ} {w w' w'' : World C}
  {fd : ℕ} {fds used : List ℕ}

theorem Opens.refl (hw : Named w.log) : Opens w w [] where
  named := hw
  mono := le_rfl
  fdOpen := by simp
  new := by simp

theorem Opens.trans (h : Opens w w' []) (h' : Opens w' w'' fds) : Opens w w'' fds where
  named := h'.named
  mono := h.mono.trans h'.mono
  fdOpen x := by
    rw [h'.fdOpen x, h.fdOpen x]
    simp
  new x hx := h.mono.trans (h'.new x hx)

/-- A descriptor that was opened is closed again. -/
theorem Opens.close (h : Opens w w' [fd]) (hw : Named w.log) :
    Opens w { w' with log := w'.log ++ [.closed fd] } [] := by
  have hopen : FdOpen w'.log fd := (h.fdOpen fd).mpr (.inr (by simp))
  have hfresh : fresh (w'.log ++ [.closed fd]) = fresh w'.log := by
    simp [fresh, SysEvent.isOpened]
  refine ⟨h.named.snoc rfl (hopen.lt_fresh h.named), hfresh.symm ▸ h.mono, fun x => ?_, by simp⟩
  have hnew := h.new fd (by simp)
  rw [fdOpen_closed, h.fdOpen x]
  simp only [List.mem_singleton, List.not_mem_nil, or_false]
  constructor
  · rintro ⟨hx | hx, hne⟩
    · exact hx
    · exact absurd hx hne
  · intro hx
    refine ⟨.inl hx, ?_⟩
    rintro rfl
    exact absurd (hx.lt_fresh hw) (by omega)

theorem opens_call (hw : Named w.log) (hfd : fd < fresh w.log) (c : C) (ok : Bool) (clock : ℕ) :
    Opens w ⟨w.log ++ [.call fd c ok], clock⟩ [] where
  named := hw.snoc rfl hfd
  mono := by simp [fresh, SysEvent.isOpened]
  fdOpen x := by simp [fdOpen_call]
  new := by simp

theorem inert_pure (a : α) : Inert used (Pure.pure a : Prog C ε α) :=
  fun _ _ hw _ => Opens.refl hw

theorem inert_ofOutcome (x : Outcome ε α) : Inert used (ofOutcome x : Prog C ε α) :=
  fun _ _ hw _ => Opens.refl hw

theorem inert_call (hfd : fd ∈ used) (c : C) : Inert used (call fd c : Prog C ε Unit) :=
  fun _ w hw hused => opens_call hw (hused fd hfd) c _ w.clock

theorem inert_await (hfd : fd ∈ used) (c : C) (limit : ℕ) (timedOut : ε) :
    Inert used (await fd c limit timedOut : Prog C ε Unit) := by
  intro env w hw hused
  simp only [await]
  split
  · split
    · exact opens_call hw (hused fd hfd) c _ _
    · exact opens_call hw (hused fd hfd) c _ _
  · exact opens_call hw (hused fd hfd) c _ _

theorem Inert.bind (hp : Inert used p) (hf : ∀ a, Inert used (f a)) : Inert used (p >>= f) := by
  intro env w hw hused
  have h := hp env w hw hused
  rw [run_bind]
  rcases hrun : p.run env w with ⟨_ | _ | _, w'⟩
  · rw [hrun] at h
    exact h.trans (hf _ env w' h.named fun fd hfd => lt_of_lt_of_le (hused fd hfd) h.mono)
  · rw [hrun] at h
    exact h
  · rw [hrun] at h
    exact h

theorem inert_callAll (hfd : fd ∈ used) (cs : List C) :
    Inert used (callAll fd cs : Prog C ε Unit) := by
  induction cs with
  | nil => exact inert_pure ()
  | cons c cs ih => exact (inert_call hfd c).bind fun _ => ih

theorem leaves_openFd : Leaves (openFd : Prog C ε ℕ) fun fd => [fd] := by
  intro env w hw
  simp only [openFd]
  split
  · exact Opens.refl hw
  · refine ⟨hw.opened, by simp [fresh, SysEvent.isOpened], fun x => ?_, by simp [kept]⟩
    simp [fdOpen_opened hw, kept]

/-- **A block that owns its descriptor** hands it on or closes it. -/
theorem Leaves.owning {q : Prog C ε ℕ} {body : ℕ → Prog C ε Unit}
    (hq : Leaves q fun fd => [fd]) (hbody : ∀ fd, Inert [fd] (body fd)) :
    Leaves (q >>= fun fd => owning fd (body fd)) fun fd => [fd] := by
  intro env w hw
  have h := hq env w hw
  rw [run_bind]
  rcases hrun : q.run env w with ⟨fd | _ | _, w₁⟩
  · rw [hrun] at h
    have hopen : FdOpen w₁.log fd := (h.fdOpen fd).mpr (.inr (by simp [kept]))
    have hb := hbody fd env w₁ h.named (by simpa using hopen.lt_fresh h.named)
    simp only [Prog.owning]
    have hafter : Opens w ((body fd).run env w₁).2 [fd] := by
      refine ⟨hb.named, h.mono.trans hb.mono, fun x => ?_, h.new⟩
      rw [hb.fdOpen x, h.fdOpen x]
      simp [kept]
    rcases hrun' : (body fd).run env w₁ with ⟨_ | _ | _, w₂⟩
    · rw [hrun'] at hafter
      exact hafter
    · rw [hrun'] at hafter
      exact hafter.close hw
    · rw [hrun'] at hafter
      exact hafter.close hw
  · rw [hrun] at h
    exact h
  · rw [hrun] at h
    exact h

/-- **A block whose descriptor goes out of scope** leaves nothing. -/
theorem Leaves.closing {q : Prog C ε ℕ} {body : ℕ → Prog C ε α}
    (hq : Leaves q fun fd => [fd]) (hbody : ∀ fd, Inert (fd :: used) (body fd)) :
    Inert used (q >>= fun fd => closing fd (body fd)) := by
  intro env w hw hused
  have h := hq env w hw
  rw [run_bind]
  rcases hrun : q.run env w with ⟨fd | _ | _, w₁⟩
  · rw [hrun] at h
    have hopen : FdOpen w₁.log fd := (h.fdOpen fd).mpr (.inr (by simp [kept]))
    have hlt : ∀ x ∈ fd :: used, x < fresh w₁.log := by
      intro x hx
      rcases List.mem_cons.mp hx with rfl | hx
      · exact hopen.lt_fresh h.named
      · exact lt_of_lt_of_le (hused x hx) h.mono
    have hb := hbody fd env w₁ h.named hlt
    have hafter : Opens w ((body fd).run env w₁).2 [fd] := by
      refine ⟨hb.named, h.mono.trans hb.mono, fun x => ?_, h.new⟩
      rw [hb.fdOpen x, h.fdOpen x]
      simp [kept]
    exact hafter.close hw
  · rw [hrun] at h
    exact h
  · rw [hrun] at h
    exact h

/-- Of the descriptors that were open, only the block's own is closed. -/
theorem Inert.fdOpen_closing (hp : Inert [fd] p) {env : Env C ε} (hw : Named w.log)
    (hfd : FdOpen w.log fd) (x : ℕ) :
    FdOpen ((Prog.closing fd p).run env w).2.log x ↔ FdOpen w.log x ∧ x ≠ fd := by
  have h := hp env w hw (by simpa using hfd.lt_fresh hw)
  simp only [Prog.closing]
  rw [fdOpen_closed, h.fdOpen x]
  simp

theorem Leaves.catching {handler : ε → Prog C ε α} (hp : Leaves p keeps)
    (hhandler : ∀ e, Leaves (handler e) keeps) : Leaves (catching p handler) keeps := by
  intro env w hw
  have h := hp env w hw
  simp only [Prog.catching]
  rcases hrun : p.run env w with ⟨a | e | _, w'⟩
  · rw [hrun] at h
    exact h
  · rw [hrun] at h
    exact Opens.trans h (hhandler e env w' h.named)
  · rw [hrun] at h
    exact h

theorem leaves_ofOutcome (x : Outcome ε α) (hx : kept keeps x = []) :
    Leaves (ofOutcome x : Prog C ε α) keeps := by
  intro env w hw
  simp only [ofOutcome, hx]
  exact Opens.refl hw

/-- A computation that makes no call may come first. -/
theorem Leaves.ofOutcome_bind {γ : Type} {g : γ → Prog C ε α} (x : Outcome ε γ)
    (hg : ∀ c, Leaves (g c) keeps) : Leaves (ofOutcome x >>= g) keeps := by
  intro env w hw
  rw [run_bind]
  cases x with
  | ok c => exact hg c env w hw
  | err e => exact Opens.refl hw
  | panic => exact Opens.refl hw

theorem Leaves.mapErr (g : ε → ε) (hp : Leaves p keeps) : Leaves (mapErr g p) keeps := by
  intro env w hw
  have h := hp env w hw
  have hkept : kept keeps ((p.run env w).1.mapErr g) = kept keeps (p.run env w).1 := by
    cases (p.run env w).1 <;> rfl
  simp only [Prog.mapErr, hkept]
  exact h

/-! ## How long a program waits -/

/-- The program waits for at most `n`. -/
def Takes (p : Prog C ε α) (n : ℕ) : Prop :=
  ∀ env w, (p.run env w).2.clock ≤ w.clock + n

theorem Takes.mono {m n : ℕ} (hp : Takes p m) (hmn : m ≤ n) : Takes p n :=
  fun env w => (hp env w).trans (Nat.add_le_add_left hmn _)

theorem takes_pure (a : α) : Takes (Pure.pure a : Prog C ε α) 0 := fun _ _ => le_rfl

theorem takes_ofOutcome (x : Outcome ε α) : Takes (ofOutcome x : Prog C ε α) 0 := fun _ _ => le_rfl

theorem takes_call (fd : ℕ) (c : C) : Takes (call fd c : Prog C ε Unit) 0 := fun _ _ => le_rfl

theorem takes_openFd : Takes (openFd : Prog C ε ℕ) 0 := by
  intro env w
  simp only [openFd]
  split <;> exact le_rfl

theorem takes_await (fd : ℕ) (c : C) (limit : ℕ) (timedOut : ε) :
    Takes (await fd c limit timedOut : Prog C ε Unit) limit := by
  intro env w
  simp only [await]
  split
  · split
    · rename_i t hdelay hle
      exact Nat.add_le_add_left hle _
    · exact le_rfl
  · exact le_rfl

theorem Takes.bind {m n : ℕ} (hp : Takes p m) (hf : ∀ a, Takes (f a) n) :
    Takes (p >>= f) (m + n) := by
  intro env w
  have h := hp env w
  rw [run_bind]
  rcases hrun : p.run env w with ⟨a | _ | _, w'⟩
  · rw [hrun] at h
    have h' := hf a env w'
    simp only at h h' ⊢
    omega
  · rw [hrun] at h
    simp only at h ⊢
    omega
  · rw [hrun] at h
    simp only at h ⊢
    omega

theorem Takes.catching {m n : ℕ} {handler : ε → Prog C ε α} (hp : Takes p m)
    (hhandler : ∀ e, Takes (handler e) n) : Takes (catching p handler) (m + n) := by
  intro env w
  have h := hp env w
  simp only [Prog.catching]
  rcases hrun : p.run env w with ⟨a | e | _, w'⟩
  · rw [hrun] at h
    simp only at h ⊢
    omega
  · rw [hrun] at h
    have h' := hhandler e env w'
    simp only at h h' ⊢
    omega
  · rw [hrun] at h
    simp only at h ⊢
    omega

theorem takes_callAll (fd : ℕ) (cs : List C) : Takes (callAll fd cs : Prog C ε Unit) 0 := by
  induction cs with
  | nil => exact takes_pure ()
  | cons c cs ih => exact (takes_call fd c).bind fun _ => ih

theorem Takes.owning {n : ℕ} {q : Prog C ε Unit} (hq : Takes q n) (fd : ℕ) :
    Takes (owning fd q) n := by
  intro env w
  have h := hq env w
  simp only [Prog.owning]
  rcases hrun : q.run env w with ⟨_ | _ | _, w'⟩
  · rwa [hrun] at h
  · rwa [hrun] at h
  · rwa [hrun] at h

/-! ## What was done to a descriptor before a call -/

/-- The log goes on from `base`, and every call in what is new meets a condition on the calls
that were accepted on its descriptor before. -/
def Guarded (P : List C → C → Prop) (base log : List (SysEvent C)) : Prop :=
  ∃ new, log = base ++ new ∧ ∀ pre fd c ok post, new = pre ++ .call fd c ok :: post →
    P (acceptedOf fd (base ++ pre)) c

/-- The program keeps a predicate on logs. -/
def Preserves (I : List (SysEvent C) → Prop) (p : Prog C ε α) : Prop :=
  ∀ env w, Named w.log → I w.log → I (p.run env w).2.log

/-- The same for a block that opens nothing and so need not know which descriptors are new. -/
def Holds (I : List (SysEvent C) → Prop) (p : Prog C ε α) : Prop :=
  ∀ env w, I w.log → I (p.run env w).2.log

variable {P : List C → C → Prop} {base log : List (SysEvent C)} {I : List (SysEvent C) → Prop}

theorem guarded_refl (log : List (SysEvent C)) : Guarded P log log := by
  refine ⟨[], (List.append_nil log).symm, ?_⟩
  intro pre fd c ok post h
  simp at h

/-- One more event keeps the condition, if it meets it itself. -/
theorem Guarded.snoc_of {e : SysEvent C} (h : Guarded P base log)
    (he : ∀ fd c ok, e = .call fd c ok → P (acceptedOf fd log) c) :
    Guarded P base (log ++ [e]) := by
  obtain ⟨new, rfl, hnew⟩ := h
  refine ⟨new ++ [e], List.append_assoc base new [e], ?_⟩
  intro pre fd c ok post heq
  rcases List.eq_nil_or_concat post with rfl | ⟨post, e', rfl⟩
  · obtain ⟨rfl, hlast⟩ := List.append_inj_left' heq rfl, List.append_inj_right' heq rfl
    exact he fd c ok (List.cons.inj hlast).1
  · rw [List.concat_eq_append, ← List.cons_append, ← List.append_assoc] at heq
    exact hnew pre fd c ok post (List.append_inj_left' heq rfl)

theorem Guarded.snoc_call {c : C} {ok : Bool} (h : Guarded P base log)
    (hc : P (acceptedOf fd log) c) : Guarded P base (log ++ [.call fd c ok]) := by
  refine h.snoc_of ?_
  rintro fd' c' ok' heq
  cases heq
  exact hc

theorem Guarded.snoc {e : SysEvent C} (h : Guarded P base log) (he : ∀ fd c ok, e ≠ .call fd c ok) :
    Guarded P base (log ++ [e]) :=
  h.snoc_of fun fd c ok heq => absurd heq (he fd c ok)

theorem acceptedOf_snoc_call (fd : ℕ) (c : C) :
    acceptedOf fd (log ++ [.call fd c true]) = acceptedOf fd log ++ [c] := by
  simp [acceptedOf]

/-- Calls that need nothing before them. If they all succeed, they were all accepted. -/
theorem callAll_guarded (fd : ℕ) {cs : List C} (hcs : ∀ c ∈ cs, ∀ before, P before c)
    (env : Env C ε) (h : Guarded P base w.log) :
    Guarded P base ((callAll fd cs).run env w).2.log ∧
      (((callAll fd cs).run env w).1 = .ok () →
        acceptedOf fd ((callAll fd cs).run env w).2.log = acceptedOf fd w.log ++ cs) := by
  induction cs generalizing w with
  | nil => exact ⟨h, fun _ => (List.append_nil _).symm⟩
  | cons c cs ih =>
      have hstep : ∀ ok, Guarded P base (w.log ++ [.call fd c ok]) :=
        fun ok => h.snoc_call (hcs c List.mem_cons_self _)
      simp only [callAll, run_bind, call]
      cases env.call w.log fd c with
      | some e => exact ⟨hstep _, fun hok => by cases hok⟩
      | none =>
          obtain ⟨hlog, hcalls⟩ := ih (w := { w with log := w.log ++ [.call fd c true] })
            (fun c' hc' => hcs c' (List.mem_cons_of_mem c hc')) (hstep true)
          refine ⟨hlog, fun hok => (hcalls hok).trans ?_⟩
          rw [acceptedOf_snoc_call, List.append_assoc]
          rfl

theorem holds_ofOutcome (x : Outcome ε α) : Holds I (ofOutcome x : Prog C ε α) := fun _ _ h => h

theorem holds_pure (a : α) : Holds I (Pure.pure a : Prog C ε α) := fun _ _ h => h

theorem holds_call {c : C} (hc : ∀ before, P before c) :
    Holds (Guarded P base) (call fd c : Prog C ε Unit) :=
  fun _ _ h => h.snoc_call (hc _)

theorem holds_await {c : C} (hc : ∀ before, P before c) (limit : ℕ) (timedOut : ε) :
    Holds (Guarded P base) (await fd c limit timedOut : Prog C ε Unit) := by
  intro env w h
  simp only [await]
  split
  · split
    · exact h.snoc_call (hc _)
    · exact h.snoc_call (hc _)
  · exact h.snoc_call (hc _)

theorem Holds.bind (hp : Holds I p) (hf : ∀ a, Holds I (f a)) : Holds I (p >>= f) := by
  intro env w hI
  have h := hp env w hI
  rw [run_bind]
  rcases hrun : p.run env w with ⟨a | _ | _, w'⟩
  · rw [hrun] at h
    exact hf a env w' h
  · rw [hrun] at h
    exact h
  · rw [hrun] at h
    exact h

theorem Holds.owning {q : Prog C ε Unit} (hq : Holds (Guarded P base) q) :
    Holds (Guarded P base) (owning fd q) := by
  intro env w hI
  have h := hq env w hI
  simp only [Prog.owning]
  rcases hrun : q.run env w with ⟨_ | _ | _, w'⟩
  · rw [hrun] at h
    exact h
  · rw [hrun] at h
    exact h.snoc (by simp)
  · rw [hrun] at h
    exact h.snoc (by simp)

theorem Holds.preserves (hp : Holds I p) : Preserves I p := fun env w _ h => hp env w h

theorem Preserves.bind (hp : Preserves I p) (hf : ∀ a, Holds I (f a)) : Preserves I (p >>= f) := by
  intro env w hw hI
  have h := hp env w hw hI
  rw [run_bind]
  rcases hrun : p.run env w with ⟨a | _ | _, w'⟩
  · rw [hrun] at h
    exact hf a env w' h
  · rw [hrun] at h
    exact h
  · rw [hrun] at h
    exact h

theorem Preserves.ofOutcome_bind {γ : Type} {g : γ → Prog C ε α} (x : Outcome ε γ)
    (hg : ∀ c, Preserves I (g c)) : Preserves I (ofOutcome x >>= g) := by
  intro env w hw hI
  rw [run_bind]
  cases x with
  | ok c => exact hg c env w hw hI
  | err e => exact hI
  | panic => exact hI

/-- **Preparing a descriptor.** On a new descriptor the calls `cs` are made first, none of
which needs anything before it, and then, if all were accepted, a call that needs them. -/
theorem preserves_prepare {cs : List C} {c : C} {rest : ℕ → Prog C ε Unit}
    (hcs : ∀ c ∈ cs, ∀ before, P before c) (hc : P cs c)
    (hrest : ∀ fd, Holds (Guarded P base) (rest fd)) :
    Preserves (Guarded P base) (openFd >>= fun fd =>
      owning fd (callAll fd cs >>= fun _ => call fd c >>= fun _ => rest fd)) := by
  intro env w hw hI
  rw [run_bind]
  simp only [openFd]
  cases env.opens w.log with
  | some e => exact hI
  | none =>
      have hopen : Guarded P base (w.log ++ [.opened (fresh w.log)]) := hI.snoc (by simp)
      have hnew : acceptedOf (fresh w.log) (w.log ++ [.opened (fresh w.log)]) = [] := by
        rw [acceptedOf_append, acceptedOf_of_fresh hw le_rfl]
        rfl
      obtain ⟨hlog, hcalls⟩ := callAll_guarded (fresh w.log)
        (w := { w with log := w.log ++ [.opened (fresh w.log)] }) hcs env hopen
      rw [hnew, List.nil_append] at hcalls
      have hbody : Guarded P base ((callAll (fresh w.log) cs >>= fun _ => call (fresh w.log) c >>=
          fun _ => rest (fresh w.log)).run env
            { w with log := w.log ++ [.opened (fresh w.log)] }).2.log := by
        rw [run_bind]
        rcases hrun : (callAll (fresh w.log) cs).run env
          { w with log := w.log ++ [.opened (fresh w.log)] } with ⟨a | _ | _, w'⟩
        · rw [hrun] at hlog hcalls
          have hcall : Holds (Guarded P base) (rest (fresh w.log)) := hrest _
          have hsnoc : ∀ ok, Guarded P base (w'.log ++ [.call (fresh w.log) c ok]) :=
            fun ok => hlog.snoc_call (by rw [hcalls rfl]; exact hc)
          simp only [run_bind, call]
          cases env.call w'.log (fresh w.log) c with
          | some e => exact hsnoc _
          | none => exact hcall env _ (hsnoc _)
        · rw [hrun] at hlog
          exact hlog
        · rw [hrun] at hlog
          exact hlog
      simp only [Prog.owning]
      split
      · rename_i hrun
        rw [hrun] at hbody
        exact hbody
      · rename_i hrun
        rw [hrun] at hbody
        exact hbody.snoc (by simp)
      · rename_i hrun
        rw [hrun] at hbody
        exact hbody.snoc (by simp)

theorem Preserves.catching {handler : ε → Prog C ε α} (hp : Preserves I p)
    (hnamed : ∀ env w, Named w.log → Named (p.run env w).2.log)
    (hhandler : ∀ e, Preserves I (handler e)) : Preserves I (catching p handler) := by
  intro env w hw hI
  have h := hp env w hw hI
  have hn := hnamed env w hw
  simp only [Prog.catching]
  rcases hrun : p.run env w with ⟨a | e | _, w'⟩
  · rw [hrun] at h
    exact h
  · rw [hrun] at h hn
    exact hhandler e env w' hn h
  · rw [hrun] at h
    exact h

/-! ## What a program reports

A program hands on descriptors, and which ones depends on all that has happened. A model of
the same code without the kernel hands on something else; the two agree if they succeed
together and fail with the same error. -/

end Prog

/-- The results differ at most in the value they hand on. -/
inductive Outcome.Agrees {ε α β : Type} : Outcome ε α → Outcome ε β → Prop
  | ok (a : α) (b : β) : Agrees (.ok a) (.ok b)
  | err (e : ε) : Agrees (.err e) (.err e)
  | panic : Agrees .panic .panic

namespace Prog

variable {C ε α β γ δ : Type} {p : Prog C ε α} {f : α → Prog C ε γ} {x : Outcome ε β}
  {env : Env C ε} {w : World C}

theorem agrees_refl (x : Outcome ε α) : x.Agrees x := by
  cases x with
  | ok a => exact .ok a a
  | err e => exact .err e
  | panic => exact .panic

/-- Where the first programs agree, the rest has to after their success. -/
theorem agrees_bind {g : β → Outcome ε δ} (hp : (p.run env w).1.Agrees x)
    (hf : ∀ a w' b, x = .ok b → ((f a).run env w').1.Agrees (g b)) :
    ((p >>= f).run env w).1.Agrees (x >>= g) := by
  rw [run_bind]
  rcases hrun : p.run env w with ⟨y, w'⟩
  rw [hrun] at hp
  cases hp with
  | ok a b => exact hf a w' b rfl
  | err e => exact .err e
  | panic => exact .panic

theorem agrees_ofOutcome_bind {y : Outcome ε α} {g : α → Outcome ε δ}
    (hf : ∀ a, ((f a).run env w).1.Agrees (g a)) :
    ((ofOutcome y >>= f).run env w).1.Agrees (y >>= g) := by
  cases y with
  | ok a => exact hf a
  | err e => exact .err e
  | panic => exact .panic

/-- A call that is always accepted makes no difference. -/
theorem agrees_call_bind {fd : ℕ} {c : C} {q : Prog C ε α}
    (h : ∀ log, env.call log fd c = none) (hq : ∀ w, (q.run env w).1.Agrees x) (w : World C) :
    ((call fd c >>= fun _ => q).run env w).1.Agrees x := by
  rw [run_bind]
  simp only [call, h, answer]
  exact hq _

theorem agrees_callAll_bind {fd : ℕ} {cs : List C} {q : Prog C ε α}
    (h : ∀ c ∈ cs, ∀ log, env.call log fd c = none) (hq : ∀ w, (q.run env w).1.Agrees x)
    (w : World C) : ((callAll fd cs >>= fun _ => q).run env w).1.Agrees x := by
  induction cs generalizing w with
  | nil => exact hq w
  | cons c cs ih =>
      have hrest := ih fun c' hc' => h c' (List.mem_cons_of_mem c hc')
      have hassoc : (callAll fd (c :: cs) >>= fun _ => q).run env w =
          (call fd c >>= fun _ => callAll fd cs >>= fun _ => q).run env w := by
        rw [callAll, run_bind, run_bind, run_bind]
        rcases (call fd c : Prog C ε Unit).run env w with ⟨_ | _ | _, w'⟩ <;> rfl
      rw [hassoc]
      exact agrees_call_bind (h c List.mem_cons_self) hrest w

/-- A call that is answered in time. -/
theorem fst_run_await {fd limit t : ℕ} {c : C} (hdelay : env.delay w.log fd c = some t)
    (ht : t ≤ limit) (timedOut : ε) :
    ((await fd c limit timedOut : Prog C ε Unit).run env w).1 = answer (env.call w.log fd c) := by
  simp only [await, hdelay, if_pos ht]

theorem agrees_await_bind {fd limit : ℕ} {c : C} {timedOut : ε} {q : Prog C ε α}
    (h : ∀ log, env.call log fd c = none)
    (hdelay : ∀ log, ∃ t ≤ limit, env.delay log fd c = some t)
    (hq : ∀ w, (q.run env w).1.Agrees x) (w : World C) :
    ((await fd c limit timedOut >>= fun _ => q).run env w).1.Agrees x := by
  obtain ⟨t, ht, hdelay⟩ := hdelay w.log
  rw [run_bind]
  simp only [await, hdelay, if_pos ht, h, answer]
  exact hq _

theorem agrees_owning (fd : ℕ) {q : Prog C ε Unit} (hq : (q.run env w).1.Agrees x) :
    ((owning fd q).run env w).1.Agrees x := by
  simp only [owning]
  rcases hrun : q.run env w with ⟨y, w'⟩
  rw [hrun] at hq
  cases hq with
  | ok a b => exact .ok fd b
  | err e => exact .err e
  | panic => exact .panic

theorem agrees_catching {handler : ε → Prog C ε α} {g : ε → Outcome ε β}
    (hp : (p.run env w).1.Agrees x)
    (hhandler : ∀ e w', ((handler e).run env w').1.Agrees (g e)) :
    ((catching p handler).run env w).1.Agrees
      (match x with
      | .ok b => .ok b
      | .err e => g e
      | .panic => .panic) := by
  simp only [catching]
  rcases hrun : p.run env w with ⟨y, w'⟩
  rw [hrun] at hp
  cases hp with
  | ok a b => exact .ok a b
  | err e => exact hhandler e w'
  | panic => exact .panic

end Prog
end Gust.Lib
