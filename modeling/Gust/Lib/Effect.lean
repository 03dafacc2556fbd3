import Gust.Lib.Stream

/-!
# The effect of a client program

The language of a program (`Client.Exact`) describes its successful runs. What a program
writes also matters when it fails, and two runs have to be compared whatever their
results are. The *effect* of a run is its result together with the bytes it has written
and the bytes it has left, and `Client.effect p` gives it as a function of the inbound
bytes. A program is *flat* if that function describes its runs on every stream: how the
inbound bytes are segmented, and what was written earlier, makes no difference. The
primitives are flat and `>>=` keeps flatness, so the effect of a protocol is computed
along its program.

## Main definitions

* `Effect`, `Effect.andThen` — what a run does, and what two runs in a row do.
* `Client.effect`, `Client.Flat` — the effect of a program, and that it has one.
-/

namespace Gust.Lib

/-- What a run does to its stream. -/
@[ext]
structure Effect (α : Type) where
  result : Outcome IoError α
  /-- The bytes it has added to the outbound half. -/
  written : List UInt8
  /-- The inbound bytes it has left. -/
  rest : List UInt8
  deriving DecidableEq, Repr

namespace Effect

variable {α β : Type}

/-- Continue with `f` on the bytes left, if the first run has succeeded. -/
def andThen (x : Effect α) (f : α → List UInt8 → Effect β) : Effect β :=
  match x.result with
  | .ok a => ⟨(f a x.rest).result, x.written ++ (f a x.rest).written, (f a x.rest).rest⟩
  | .err e => ⟨.err e, x.written, x.rest⟩
  | .panic => ⟨.panic, x.written, x.rest⟩

@[simp] theorem ok_andThen (a : α) (w bs : List UInt8) (f : α → List UInt8 → Effect β) :
    andThen ⟨.ok a, w, bs⟩ f = ⟨(f a bs).result, w ++ (f a bs).written, (f a bs).rest⟩ := rfl

@[simp] theorem err_andThen (e : IoError) (w bs : List UInt8) (f : α → List UInt8 → Effect β) :
    andThen ⟨.err e, w, bs⟩ f = ⟨.err e, w, bs⟩ := rfl

@[simp] theorem panic_andThen (w bs : List UInt8) (f : α → List UInt8 → Effect β) :
    andThen ⟨.panic, w, bs⟩ f = ⟨.panic, w, bs⟩ := rfl

/-- The effect `x`, with `w` written before it. -/
def after (w : List UInt8) (x : Effect α) : Effect α := ⟨x.result, w ++ x.written, x.rest⟩

theorem after_after (v w : List UInt8) (x : Effect α) : after v (after w x) = after (v ++ w) x := by
  simp [after]

theorem after_andThen (w : List UInt8) (x : Effect α) (f : α → List UInt8 → Effect β) :
    (after w x).andThen f = after w (x.andThen f) := by
  obtain ⟨result, written, rest⟩ := x
  cases result with
  | ok a => simp [after]
  | err e => rfl
  | panic => rfl

end Effect

namespace Client

variable {α β : Type}

/-- The effect of `p` on the inbound bytes `bs`. -/
def effect (p : Client α) (bs : List UInt8) : Effect α :=
  ⟨(p.run ⟨[bs], []⟩).1, (p.run ⟨[bs], []⟩).2.written, (p.run ⟨[bs], []⟩).2.pending⟩

/-- The run of `p` on `d` has the effect `x`. -/
structure Does (p : Client α) (d : Duplex) (x : Effect α) : Prop where
  result : (p.run d).1 = x.result
  written : (p.run d).2.written = d.written ++ x.written
  pending : (p.run d).2.pending = x.rest

/-- Runs depend on the inbound bytes only. -/
def Flat (p : Client α) : Prop := ∀ d, Does p d (effect p d.pending)

theorem effect_eq_of_does {p : Client α} {t : List UInt8 → Effect α}
    (h : ∀ d, Does p d (t d.pending)) : effect p = t := by
  funext bs
  have hd := h ⟨[bs], []⟩
  have hbs : (⟨[bs], []⟩ : Duplex).pending = bs := by simp [Duplex.pending]
  rw [hbs] at hd
  ext1
  · exact hd.result
  · exact hd.written
  · exact hd.pending

theorem flat_of_does {p : Client α} {t : List UInt8 → Effect α}
    (h : ∀ d, Does p d (t d.pending)) : Flat p := by
  intro d
  rw [effect_eq_of_does h]
  exact h d

/-! ## The primitives -/

theorem does_ofOutcome (x : Outcome IoError α) (d : Duplex) :
    Does (ofOutcome x) d ⟨x, [], d.pending⟩ := by
  refine ⟨rfl, ?_, rfl⟩
  rw [List.append_nil]
  rfl

theorem does_writeAll (bs : List UInt8) (d : Duplex) :
    Does (writeAll bs) d ⟨.ok (), bs, d.pending⟩ := ⟨rfl, rfl, rfl⟩

/-- A read either finds its bytes at the front of the stream or drains it. -/
theorem takeBytes_eq_none {n : ℕ} {segs rest : List (List UInt8)}
    (h : takeBytes n segs = (none, rest)) : segs.flatten.length < n ∧ rest = [] := by
  induction segs generalizing n rest with
  | nil =>
      cases n with
      | zero => simp [takeBytes] at h
      | succ n =>
          simp only [takeBytes, Prod.mk.injEq, true_and] at h
          exact ⟨Nat.succ_pos n, h.symm⟩
  | cons seg segs ih =>
      cases n with
      | zero => simp [takeBytes] at h
      | succ n =>
          by_cases hle : n + 1 ≤ seg.length
          · simp [takeBytes, hle] at h
          · simp only [takeBytes, hle, if_false] at h
            rcases hr : takeBytes (n + 1 - seg.length) segs with ⟨_ | cs, rest'⟩
            · simp only [hr, Prod.mk.injEq, true_and] at h
              subst h
              obtain ⟨hlen, hnil⟩ := ih hr
              refine ⟨?_, hnil⟩
              rw [List.flatten_cons, List.length_append]
              omega
            · simp [hr] at h

theorem does_readExact (n : ℕ) (d : Duplex) :
    Does (readExact n) d (if n ≤ d.pending.length then ⟨.ok (d.pending.take n), [], d.pending.drop n⟩
      else ⟨.err unexpectedEof, [], []⟩) := by
  rcases hr : takeBytes n d.inbound with ⟨_ | bs, rest⟩
  · obtain ⟨hlen, rfl⟩ := takeBytes_eq_none hr
    have hshort : ¬ n ≤ d.pending.length := by
      rw [Duplex.pending]
      omega
    rw [if_neg hshort]
    refine ⟨?_, ?_, ?_⟩
    · simp [readExact, hr]
    · simp [readExact, hr]
    · simp [readExact, hr, Duplex.pending]
  · obtain ⟨hlen, hflat⟩ := takeBytes_eq_some hr
    have hpending : d.pending = bs ++ rest.flatten := hflat
    have hlong : n ≤ d.pending.length := by
      rw [hpending, List.length_append]
      omega
    rw [if_pos hlong, hpending, List.take_left' hlen, List.drop_left' hlen]
    refine ⟨?_, ?_, ?_⟩
    · simp [readExact, hr]
    · simp [readExact, hr]
    · simp [readExact, hr, Duplex.pending]

theorem Does.bind {p : Client α} {f : α → Client β} {d : Duplex} {x : Effect α}
    {u : α → List UInt8 → Effect β} (hp : Does p d x)
    (hf : ∀ a d', Does (f a) d' (u a d'.pending)) : Does (p >>= f) d (x.andThen u) := by
  obtain ⟨result, written, rest⟩ := x
  obtain ⟨hres, hw, hrest⟩ := hp
  rcases hrun : p.run d with ⟨a | e | _, d'⟩
  · rw [hrun] at hres hw hrest
    obtain rfl : Outcome.ok a = result := hres
    have hnext := hf a d'
    rw [hrest] at hnext
    refine ⟨?_, ?_, ?_⟩
    · rw [run_bind_of_ok hrun, hnext.result]
      rfl
    · rw [run_bind_of_ok hrun, hnext.written, hw, List.append_assoc]
      rfl
    · rw [run_bind_of_ok hrun, hnext.pending]
      rfl
  · rw [hrun] at hres hw hrest
    obtain rfl : Outcome.err e = result := hres
    refine ⟨?_, ?_, ?_⟩ <;> rw [run_bind_of_err hrun]
    · rfl
    · exact hw
    · exact hrest
  · rw [hrun] at hres hw hrest
    obtain rfl : Outcome.panic = result := hres
    refine ⟨?_, ?_, ?_⟩ <;> rw [run_bind, hrun]
    · rfl
    · exact hw
    · exact hrest

/-! ## Effects are computed along the program -/

theorem flat_ofOutcome (x : Outcome IoError α) : Flat (ofOutcome x) :=
  flat_of_does (does_ofOutcome x)

theorem flat_pure (a : α) : Flat (Pure.pure a : Client α) := flat_ofOutcome (.ok a)

theorem flat_fail (e : IoError) : Flat (fail e : Client α) := flat_ofOutcome (.err e)

theorem flat_panic : Flat (panic : Client α) := flat_ofOutcome .panic

theorem flat_writeAll (bs : List UInt8) : Flat (writeAll bs) := flat_of_does (does_writeAll bs)

theorem flat_readExact (n : ℕ) : Flat (readExact n) :=
  flat_of_does (t := fun bs => if n ≤ bs.length then ⟨.ok (bs.take n), [], bs.drop n⟩
    else ⟨.err unexpectedEof, [], []⟩) (does_readExact n)

theorem Flat.bind {p : Client α} {f : α → Client β} (hp : Flat p) (hf : ∀ a, Flat (f a)) :
    Flat (p >>= f) :=
  flat_of_does (t := fun bs => (effect p bs).andThen fun a => effect (f a)) fun d =>
    (hp d).bind hf

theorem Flat.ite {c : Prop} [Decidable c] {p q : Client α} (hp : Flat p) (hq : Flat q) :
    Flat (if c then p else q) := by
  split
  · exact hp
  · exact hq

@[simp] theorem effect_ofOutcome (x : Outcome IoError α) (bs : List UInt8) :
    effect (ofOutcome x) bs = ⟨x, [], bs⟩ := by
  rw [effect_eq_of_does (does_ofOutcome x)]

@[simp] theorem effect_pure (a : α) (bs : List UInt8) :
    effect (Pure.pure a : Client α) bs = ⟨.ok a, [], bs⟩ := effect_ofOutcome (.ok a) bs

@[simp] theorem effect_fail (e : IoError) (bs : List UInt8) :
    effect (fail e : Client α) bs = ⟨.err e, [], bs⟩ := effect_ofOutcome (.err e) bs

@[simp] theorem effect_writeAll (ws bs : List UInt8) :
    effect (writeAll ws) bs = ⟨.ok (), ws, bs⟩ := by
  rw [effect_eq_of_does (does_writeAll ws)]

theorem effect_readExact (n : ℕ) (bs : List UInt8) :
    effect (readExact n) bs = if n ≤ bs.length then ⟨.ok (bs.take n), [], bs.drop n⟩
      else ⟨.err unexpectedEof, [], []⟩ := by
  rw [effect_eq_of_does (t := fun bs => if n ≤ bs.length then ⟨.ok (bs.take n), [], bs.drop n⟩
    else ⟨.err unexpectedEof, [], []⟩) (does_readExact n)]

theorem effect_bind {p : Client α} {f : α → Client β} (hp : Flat p) (hf : ∀ a, Flat (f a))
    (bs : List UInt8) : effect (p >>= f) bs = (effect p bs).andThen fun a => effect (f a) := by
  rw [effect_eq_of_does (t := fun bs => (effect p bs).andThen fun a => effect (f a)) fun d =>
    (hp d).bind hf]

theorem effect_write_bind {q : Client β} (hq : Flat q) (ws bs : List UInt8) :
    effect (writeAll ws >>= fun _ => q) bs = (effect q bs).after ws := by
  rw [effect_bind (flat_writeAll ws) fun _ => hq, effect_writeAll, Effect.ok_andThen, Effect.after]

theorem effect_read_bind {f : List UInt8 → Client β} (hf : ∀ bs, Flat (f bs)) {n : ℕ}
    {seg : List UInt8} (hlen : seg.length = n) (bs : List UInt8) :
    effect (readExact n >>= f) (seg ++ bs) = effect (f seg) bs := by
  have hle : n ≤ (seg ++ bs).length := by
    rw [List.length_append]
    omega
  rw [effect_bind (flat_readExact n) hf, effect_readExact, if_pos hle, List.take_left' hlen,
    List.drop_left' hlen]
  simp

theorem effect_read_bind_of_lt {f : List UInt8 → Client β} (hf : ∀ bs, Flat (f bs)) {n : ℕ}
    {bs : List UInt8} (hlt : bs.length < n) :
    effect (readExact n >>= f) bs = ⟨.err unexpectedEof, [], []⟩ := by
  rw [effect_bind (flat_readExact n) hf, effect_readExact, if_neg (by omega)]
  simp

/-- A sequence of flat programs is flat. -/
theorem flat_sequence {ps : List (Client Unit)} (h : ∀ p ∈ ps, Flat p) : Flat (sequence ps) := by
  induction ps with
  | nil => exact flat_pure ()
  | cons p ps ih =>
      have htail := ih fun q hq => h q (List.mem_cons_of_mem p hq)
      exact (h p List.mem_cons_self).bind fun _ => htail

/-! ## Silent programs -/

/-- A program that only reads, and does not index out of range. -/
structure Silent (p : Client α) : Prop where
  written : ∀ bs, (effect p bs).written = []
  result : ∀ bs, (effect p bs).result ≠ .panic

theorem silent_pure (a : α) : Silent (Pure.pure a : Client α) := by
  refine ⟨?_, ?_⟩ <;> intro bs <;> simp

theorem silent_fail (e : IoError) : Silent (fail e : Client α) := by
  refine ⟨?_, ?_⟩ <;> intro bs <;> simp

theorem Silent.ite {c : Prop} [Decidable c] {p q : Client α} (hp : Silent p) (hq : Silent q) :
    Silent (if c then p else q) := by
  split
  · exact hp
  · exact hq

theorem Silent.read_bind {f : List UInt8 → Client β} {n : ℕ} (hflat : ∀ bs, Flat (f bs))
    (hf : ∀ seg : List UInt8, seg.length = n → Silent (f seg)) : Silent (readExact n >>= f) := by
  have hcases : ∀ bs : List UInt8, effect (readExact n >>= f) bs = ⟨.err unexpectedEof, [], []⟩ ∨
      ∃ seg rest, seg.length = n ∧ effect (readExact n >>= f) bs = effect (f seg) rest := by
    intro bs
    rcases lt_or_ge bs.length n with hlt | hle
    · exact .inl (effect_read_bind_of_lt hflat hlt)
    · have hlen : (bs.take n).length = n := by
        rw [List.length_take]
        omega
      have heff := effect_read_bind hflat hlen (bs.drop n)
      rw [List.take_append_drop] at heff
      exact .inr ⟨bs.take n, bs.drop n, hlen, heff⟩
  refine ⟨?_, ?_⟩
  · intro bs
    obtain heff | ⟨seg, rest, hlen, heff⟩ := hcases bs
    · rw [heff]
    · rw [heff, (hf seg hlen).written]
  · intro bs
    obtain heff | ⟨seg, rest, hlen, heff⟩ := hcases bs
    · rw [heff]
      exact nofun
    · rw [heff]
      exact (hf seg hlen).result rest

theorem Silent.bind {p : Client α} {f : α → Client β} (hp : Silent p) (hf : ∀ a, Silent (f a))
    (hflatp : Flat p) (hflat : ∀ a, Flat (f a)) : Silent (p >>= f) := by
  refine ⟨?_, ?_⟩
  · intro bs
    have hw := hp.written bs
    rw [effect_bind hflatp hflat, Effect.andThen]
    split <;> simp [hw, (hf _).written]
  · intro bs
    have hresult := hp.result bs
    rw [effect_bind hflatp hflat, Effect.andThen]
    split
    · exact (hf _).result _
    · exact nofun
    · next h => exact absurd h hresult

end Client
end Gust.Lib
