import Gust.Lib.Text

/-!
# Client programs over a byte stream

A `Client` program talks to a peer over one duplex stream: it writes whole messages
and reads exact numbers of bytes. The inbound half is a list of segments, in the
sizes in which they arrive; a read takes bytes from the front segment and comes
back for more until it has enough. The end of the list is the end of the stream.

What a program does on success is its *language*: which inbound bytes it consumes,
which bytes it has written by then, and what it returns. `Client.Exact p L` says
that `L` is the language of `p`, in both directions and for every segmentation. It
composes along `>>=`, so the language of a protocol is read off its program.

## Main definitions

* `Duplex` — the inbound segments still to come and the bytes written so far.
* `Client`, `Client.writeAll`, `Client.readExact`, `Client.fail` — the programs.
* `Client.Exact p L` — `L` is the language of `p`.
* `Client.sequence` — run programs one after another.
-/

namespace Gust.Lib

inductive ErrorKind
  | notFound
  | invalidInput
  | invalidData
  | permissionDenied
  | unexpectedEof
  | writeZero
  | timedOut
  | other
  deriving DecidableEq, Repr

/-- An I/O error with its operator-facing text. -/
structure IoError where
  kind : ErrorKind
  msg : Str
  deriving DecidableEq, Repr

/-- A stream as one of its ends sees it. -/
structure Duplex where
  /-- The segments that will still arrive, in order. -/
  inbound : List (List UInt8)
  /-- Everything written so far. -/
  written : List UInt8
  deriving DecidableEq, Repr

/-- The inbound bytes, whatever their segmentation. -/
def Duplex.pending (d : Duplex) : List UInt8 := d.inbound.flatten

/-- A program over a duplex stream. -/
structure Client (α : Type) where
  run : Duplex → Outcome IoError α × Duplex

namespace Client

variable {α β : Type}

def pure (a : α) : Client α := ⟨fun d => (.ok a, d)⟩

/-- An error, or a panic, ends the program where it is. -/
def bind (p : Client α) (f : α → Client β) : Client β :=
  ⟨fun d =>
    match p.run d with
    | (.ok a, d') => (f a).run d'
    | (.err e, d') => (.err e, d')
    | (.panic, d') => (.panic, d')⟩

instance : Monad Client where
  pure := pure
  bind := bind

def fail (e : IoError) : Client α := ⟨fun d => (.err e, d)⟩

/-- A computation that does not touch the stream. -/
def ofOutcome (x : Outcome IoError α) : Client α := ⟨fun d => (x, d)⟩

/-- Indexing out of range; no program here reaches it. -/
def panic : Client α := ofOutcome .panic

def writeAll (bs : List UInt8) : Client Unit :=
  ⟨fun d => (.ok (), { d with written := d.written ++ bs })⟩

/-- Take `n` bytes off the segments, reading at most one segment at a time. -/
def takeBytes : ℕ → List (List UInt8) → Option (List UInt8) × List (List UInt8)
  | 0, segs => (some [], segs)
  | _ + 1, [] => (none, [])
  | n + 1, seg :: segs =>
      if n + 1 ≤ seg.length then (some (seg.take (n + 1)), seg.drop (n + 1) :: segs)
      else
        match takeBytes (n + 1 - seg.length) segs with
        | (some bs, rest) => (some (seg ++ bs), rest)
        | (none, rest) => (none, rest)

/-- The error of a stream that ends too early. -/
def unexpectedEof : IoError := ⟨.unexpectedEof, "early eof".toList⟩

def readExact (n : ℕ) : Client (List UInt8) :=
  ⟨fun d =>
    match takeBytes n d.inbound with
    | (some bs, rest) => (.ok bs, { d with inbound := rest })
    | (none, rest) => (.err unexpectedEof, { d with inbound := rest })⟩

@[simp] theorem run_pure (a : α) (d : Duplex) : (Pure.pure a : Client α).run d = (.ok a, d) := rfl

theorem run_bind (p : Client α) (f : α → Client β) (d : Duplex) :
    (p >>= f).run d =
      match p.run d with
      | (.ok a, d') => (f a).run d'
      | (.err e, d') => (.err e, d')
      | (.panic, d') => (.panic, d') := rfl

theorem run_bind_of_ok {p : Client α} {f : α → Client β} {d d' : Duplex} {a : α}
    (h : p.run d = (.ok a, d')) : (p >>= f).run d = (f a).run d' := by simp [run_bind, h]

theorem run_bind_of_err {p : Client α} {f : α → Client β} {d d' : Duplex} {e : IoError}
    (h : p.run d = (.err e, d')) : (p >>= f).run d = (.err e, d') := by simp [run_bind, h]

theorem run_bind_eq_ok_iff {p : Client α} {f : α → Client β} {d d'' : Duplex} {b : β} :
    (p >>= f).run d = (.ok b, d'') ↔
      ∃ a d', p.run d = (.ok a, d') ∧ (f a).run d' = (.ok b, d'') := by
  rw [run_bind]
  rcases p.run d with ⟨a | e | _, d'⟩ <;> simp

/-! ## Reading does not depend on the segmentation -/

theorem takeBytes_eq_some {n : ℕ} {segs rest : List (List UInt8)} {bs : List UInt8}
    (h : takeBytes n segs = (some bs, rest)) :
    bs.length = n ∧ segs.flatten = bs ++ rest.flatten := by
  induction segs generalizing n bs rest with
  | nil =>
      cases n with
      | zero =>
          simp only [takeBytes, Prod.mk.injEq, Option.some.injEq] at h
          simp [← h.1, ← h.2]
      | succ n => simp [takeBytes] at h
  | cons seg segs ih =>
      cases n with
      | zero =>
          simp only [takeBytes, Prod.mk.injEq, Option.some.injEq] at h
          simp [← h.1, ← h.2]
      | succ n =>
          by_cases hle : n + 1 ≤ seg.length
          · simp only [takeBytes, hle, if_true, Prod.mk.injEq, Option.some.injEq] at h
            obtain ⟨rfl, rfl⟩ := h
            simp [hle, ← List.append_assoc]
          · simp only [takeBytes, hle, if_false] at h
            rcases hr : takeBytes (n + 1 - seg.length) segs with ⟨_ | cs, rest'⟩
            · simp [hr] at h
            · simp only [hr, Prod.mk.injEq, Option.some.injEq] at h
              obtain ⟨rfl, rfl⟩ := h
              obtain ⟨hlen, hflat⟩ := ih hr
              refine ⟨?_, ?_⟩
              · rw [List.length_append, hlen]
                omega
              · rw [List.flatten_cons, hflat, List.append_assoc]

theorem takeBytes_of_flatten {n : ℕ} {segs : List (List UInt8)} {bs rest : List UInt8}
    (hlen : bs.length = n) (hflat : segs.flatten = bs ++ rest) :
    ∃ segs', takeBytes n segs = (some bs, segs') ∧ segs'.flatten = rest := by
  induction segs generalizing n bs with
  | nil =>
      simp only [List.flatten_nil, List.nil_eq, List.append_eq_nil_iff] at hflat
      obtain ⟨rfl, rfl⟩ := hflat
      obtain rfl : n = 0 := by simpa using hlen.symm
      exact ⟨[], rfl, rfl⟩
  | cons seg segs ih =>
      cases n with
      | zero =>
          obtain rfl : bs = [] := List.length_eq_zero_iff.mp hlen
          exact ⟨seg :: segs, rfl, by simpa using hflat⟩
      | succ n =>
          rw [List.flatten_cons] at hflat
          by_cases hle : n + 1 ≤ seg.length
          · have htake : seg.take (n + 1) = bs := by
              have h := congrArg (List.take (n + 1)) hflat
              rwa [List.take_append_of_le_length hle, List.take_left' hlen] at h
            have hdrop : seg.drop (n + 1) ++ segs.flatten = rest := by
              have h := congrArg (List.drop (n + 1)) hflat
              rwa [List.drop_append_of_le_length hle, List.drop_left' hlen] at h
            exact ⟨seg.drop (n + 1) :: segs, by simp [takeBytes, hle, htake], by simpa using hdrop⟩
          · -- the segment is used up and the rest of `bs` comes from the later ones
            have hpre : seg <+: bs := by
              refine List.prefix_of_prefix_length_le ⟨segs.flatten, rfl⟩ ⟨rest, hflat.symm⟩ ?_
              omega
            obtain ⟨cs, rfl⟩ := hpre
            rw [List.append_assoc, List.append_cancel_left_eq] at hflat
            rw [List.length_append] at hlen
            obtain ⟨segs', htake, hrest⟩ := ih (n := n + 1 - seg.length) (by omega) hflat
            exact ⟨segs', by simp [takeBytes, hle, htake], hrest⟩

/-! ## Languages -/

/-- The language of `p`: what it consumes, writes and returns when it succeeds. -/
structure Exact (p : Client α) (L : List UInt8 → List UInt8 → α → Prop) : Prop where
  /-- A successful run follows the language and leaves everything else alone. -/
  sound : ∀ {d d' a}, p.run d = (.ok a, d') →
    ∃ seg w, L seg w a ∧ d.pending = seg ++ d'.pending ∧ d'.written = d.written ++ w
  /-- A stream that starts with a word of the language makes the program succeed. -/
  complete : ∀ {seg w a}, L seg w a → ∀ {d rest}, d.pending = seg ++ rest →
    ∃ d', p.run d = (.ok a, d') ∧ d'.pending = rest ∧ d'.written = d.written ++ w

theorem Exact.congr {p : Client α} {L M : List UInt8 → List UInt8 → α → Prop} (h : Exact p L)
    (hLM : ∀ seg w a, L seg w a ↔ M seg w a) : Exact p M := by
  have heq : L = M := by
    funext seg w a
    exact propext (hLM seg w a)
  rwa [← heq]

theorem exact_pure (a : α) :
    Exact (Pure.pure a : Client α) (fun seg w b => seg = [] ∧ w = [] ∧ b = a) := by
  refine ⟨?_, ?_⟩
  · intro d d' b h
    rw [run_pure, Prod.mk.injEq, Outcome.ok.injEq] at h
    exact ⟨[], [], ⟨rfl, rfl, h.1.symm⟩, by simp [h.2], by simp [h.2]⟩
  · rintro seg w b ⟨rfl, rfl, rfl⟩ d rest hd
    exact ⟨d, rfl, by simpa using hd, by simp⟩

theorem exact_fail (e : IoError) : Exact (fail e : Client α) (fun _ _ _ => False) := by
  refine ⟨?_, ?_⟩
  · intro d d' a h
    simp [fail] at h
  · intro seg w a h
    exact h.elim

theorem exact_writeAll (bs : List UInt8) :
    Exact (writeAll bs) (fun seg w _ => seg = [] ∧ w = bs) := by
  refine ⟨?_, ?_⟩
  · intro d d' a h
    simp only [writeAll, Prod.mk.injEq] at h
    obtain ⟨-, rfl⟩ := h
    exact ⟨[], bs, ⟨rfl, rfl⟩, rfl, rfl⟩
  · rintro seg w a ⟨rfl, rfl⟩ d rest hd
    exact ⟨{ d with written := d.written ++ w }, rfl, hd, rfl⟩

theorem exact_readExact (n : ℕ) :
    Exact (readExact n) (fun seg w bs => seg = bs ∧ bs.length = n ∧ w = []) := by
  refine ⟨?_, ?_⟩
  · intro d d' bs h
    rcases hr : takeBytes n d.inbound with ⟨_ | cs, rest⟩
    · simp [readExact, hr] at h
    · simp only [readExact, hr, Prod.mk.injEq, Outcome.ok.injEq] at h
      obtain ⟨rfl, rfl⟩ := h
      obtain ⟨hlen, hflat⟩ := takeBytes_eq_some hr
      exact ⟨cs, [], ⟨rfl, hlen, rfl⟩, hflat, by simp⟩
  · rintro seg w bs ⟨rfl, hlen, rfl⟩ d rest hd
    obtain ⟨segs', htake, hrest⟩ := takeBytes_of_flatten hlen hd
    exact ⟨{ d with inbound := segs' }, by simp [readExact, htake], hrest, by simp⟩

/-- The language of a sequence is the concatenation of the two languages. The second
program matters only for results that the first can return. -/
theorem Exact.bind {p : Client α} {f : α → Client β} {L : List UInt8 → List UInt8 → α → Prop}
    {M : α → List UInt8 → List UInt8 → β → Prop} (hp : Exact p L)
    (hf : ∀ a s w, L s w a → Exact (f a) (M a)) :
    Exact (p >>= f) (fun seg w b => ∃ a s₁ w₁ s₂ w₂, L s₁ w₁ a ∧ M a s₂ w₂ b ∧
      seg = s₁ ++ s₂ ∧ w = w₁ ++ w₂) := by
  refine ⟨?_, ?_⟩
  · intro d d'' b h
    obtain ⟨a, d', h₁, h₂⟩ := run_bind_eq_ok_iff.mp h
    obtain ⟨s₁, w₁, hL, hd, hw⟩ := hp.sound h₁
    obtain ⟨s₂, w₂, hM, hd', hw'⟩ := (hf a s₁ w₁ hL).sound h₂
    refine ⟨s₁ ++ s₂, w₁ ++ w₂, ⟨a, s₁, w₁, s₂, w₂, hL, hM, rfl, rfl⟩, ?_, ?_⟩
    · rw [hd, hd', List.append_assoc]
    · rw [hw', hw, List.append_assoc]
  · rintro seg w b ⟨a, s₁, w₁, s₂, w₂, hL, hM, rfl, rfl⟩ d rest hd
    rw [List.append_assoc] at hd
    obtain ⟨d', h₁, hd', hw⟩ := hp.complete hL hd
    obtain ⟨d'', h₂, hd'', hw'⟩ := (hf a s₁ w₁ hL).complete hM hd'
    refine ⟨d'', ?_, hd'', ?_⟩
    · rw [run_bind_of_ok h₁, h₂]
    · rw [hw', hw, List.append_assoc]

theorem Exact.write_bind {q : Client β} {M : List UInt8 → List UInt8 → β → Prop}
    (bs : List UInt8) (hq : Exact q M) :
    Exact (writeAll bs >>= fun _ => q) (fun seg w b => ∃ w₂, M seg w₂ b ∧ w = bs ++ w₂) := by
  refine ((exact_writeAll bs).bind fun _ _ _ _ => hq).congr ?_
  intro seg w b
  constructor
  · rintro ⟨-, s₁, w₁, s₂, w₂, ⟨rfl, rfl⟩, hM, rfl, rfl⟩
    exact ⟨w₂, hM, rfl⟩
  · rintro ⟨w₂, hM, rfl⟩
    exact ⟨(), [], bs, seg, w₂, ⟨rfl, rfl⟩, hM, rfl, rfl⟩

theorem exact_read_bind {f : List UInt8 → Client β}
    {M : List UInt8 → List UInt8 → List UInt8 → β → Prop} (n : ℕ)
    (hf : ∀ bs, bs.length = n → Exact (f bs) (M bs)) :
    Exact (readExact n >>= f) (fun seg w b => ∃ bs s₂, bs.length = n ∧ M bs s₂ w b ∧
      seg = bs ++ s₂) := by
  refine ((exact_readExact n).bind fun bs _ _ h => hf bs h.2.1).congr ?_
  intro seg w b
  constructor
  · rintro ⟨bs, s₁, w₁, s₂, w₂, ⟨rfl, hlen, rfl⟩, hM, rfl, rfl⟩
    exact ⟨s₁, s₂, hlen, hM, rfl⟩
  · rintro ⟨bs, s₂, hlen, hM, rfl⟩
    exact ⟨bs, bs, [], s₂, w, ⟨rfl, hlen, rfl⟩, hM, rfl, rfl⟩

theorem exact_ofOutcome_bind {x : Outcome IoError α} {f : α → Client β}
    {M : α → List UInt8 → List UInt8 → β → Prop} (hf : ∀ a, x = .ok a → Exact (f a) (M a)) :
    Exact (ofOutcome x >>= f) (fun seg w b => ∃ a, x = .ok a ∧ M a seg w b) := by
  refine ⟨?_, ?_⟩
  · intro d d'' b h
    obtain ⟨a, d', h₁, h₂⟩ := run_bind_eq_ok_iff.mp h
    simp only [ofOutcome, Prod.mk.injEq] at h₁
    obtain ⟨hx, rfl⟩ := h₁
    obtain ⟨seg, w, hM, hd, hw⟩ := (hf a hx).sound h₂
    exact ⟨seg, w, ⟨a, hx, hM⟩, hd, hw⟩
  · rintro seg w b ⟨a, hx, hM⟩ d rest hd
    obtain ⟨d', h₂, hd', hw⟩ := (hf a hx).complete hM hd
    have h₁ : (ofOutcome x).run d = (.ok a, d) := by simp [ofOutcome, hx]
    exact ⟨d', by rw [run_bind_of_ok h₁, h₂], hd', hw⟩

/-- A check that fails the program excludes the words for which it fails. -/
theorem Exact.guard {c : Prop} [Decidable c] {e : IoError} {q : Client α}
    {M : List UInt8 → List UInt8 → α → Prop} (hq : ¬ c → Exact q M) :
    Exact (if c then fail e else q) (fun seg w a => ¬ c ∧ M seg w a) := by
  by_cases hc : c
  · simpa [hc] using exact_fail e
  · simpa [hc] using hq hc

/-- A program is deterministic, so two words of its language at the front of one
stream are the same word. -/
theorem Exact.unique {p : Client α} {L : List UInt8 → List UInt8 → α → Prop} (hp : Exact p L)
    {s₁ s₂ w₁ w₂ r₁ r₂ : List UInt8} (a₁ a₂ : α) (h₁ : L s₁ w₁ a₁) (h₂ : L s₂ w₂ a₂)
    (h : s₁ ++ r₁ = s₂ ++ r₂) : s₁ = s₂ ∧ w₁ = w₂ ∧ a₁ = a₂ := by
  let d : Duplex := ⟨[s₁ ++ r₁], []⟩
  have hd₁ : d.pending = s₁ ++ r₁ := by simp [d, Duplex.pending]
  have hd₂ : d.pending = s₂ ++ r₂ := hd₁.trans h
  obtain ⟨d₁, hrun₁, hrest₁, hw₁⟩ := hp.complete h₁ hd₁
  obtain ⟨d₂, hrun₂, hrest₂, hw₂⟩ := hp.complete h₂ hd₂
  rw [hrun₁, Prod.mk.injEq, Outcome.ok.injEq] at hrun₂
  obtain ⟨rfl, rfl⟩ := hrun₂
  have hrest : r₁ = r₂ := hrest₁.symm.trans hrest₂
  subst hrest
  exact ⟨List.append_cancel_right h, by simpa using hw₁.symm.trans hw₂, rfl⟩

/-! ## Sequences of programs -/

/-- Run the programs in order; the first error ends the sequence. -/
def sequence : List (Client Unit) → Client Unit
  | [] => Pure.pure ()
  | p :: ps => do
      p
      sequence ps

theorem bind_assoc {γ : Type} (p : Client α) (f : α → Client β) (g : β → Client γ) :
    p >>= f >>= g = p >>= fun a => f a >>= g := by
  have hrun : ∀ d, (p >>= f >>= g).run d = (p >>= fun a => f a >>= g).run d := by
    intro d
    rw [run_bind, run_bind, run_bind]
    rcases p.run d with ⟨a | e | _, d'⟩
    · exact (run_bind (f a) g d').symm
    · rfl
    · rfl
  exact congrArg Client.mk (funext hrun)

theorem sequence_append (ps qs : List (Client Unit)) :
    sequence (ps ++ qs) = sequence ps >>= fun _ => sequence qs := by
  induction ps with
  | nil => rfl
  | cons p ps ih =>
      rw [List.cons_append, sequence, sequence, bind_assoc, ih]

variable {ι : Type} {f : ι → Client Unit}

/-- The language of a sequence: one word of each language, in order. -/
theorem exact_sequence [DecidableEq ι] {L : ι → List UInt8 → List UInt8 → Prop} {is : List ι}
    (hnodup : is.Nodup) (hf : ∀ i ∈ is, Exact (f i) (fun seg w _ => L i seg w)) :
    Exact (sequence (is.map f)) (fun seg w _ => ∃ segs ws : ι → List UInt8,
      (∀ i ∈ is, L i (segs i) (ws i)) ∧ seg = is.flatMap segs ∧ w = is.flatMap ws) := by
  induction is with
  | nil =>
      refine (exact_pure ()).congr ?_
      intro seg w _
      constructor
      · rintro ⟨rfl, rfl, -⟩
        exact ⟨fun _ => [], fun _ => [], by simp, rfl, rfl⟩
      · rintro ⟨_, _, -, rfl, rfl⟩
        exact ⟨rfl, rfl, rfl⟩
  | cons i is ih =>
      obtain ⟨hi, hnodup⟩ := List.nodup_cons.mp hnodup
      have htail := ih hnodup fun j hj => hf j (List.mem_cons_of_mem i hj)
      refine ((hf i List.mem_cons_self).bind fun _ _ _ _ => htail).congr ?_
      intro seg w _
      constructor
      · rintro ⟨-, s₁, w₁, -, -, hL, ⟨segs, ws, hLs, rfl, rfl⟩, rfl, rfl⟩
        -- the index `i` does not come back, so its word can be chosen freely
        have hupdate : ∀ (g : ι → List UInt8) (x : List UInt8),
            is.flatMap (Function.update g i x) = is.flatMap g := by
          intro g x
          refine List.flatMap_congr fun j hj => ?_
          rw [Function.update_of_ne]
          rintro rfl
          exact hi hj
        refine ⟨Function.update segs i s₁, Function.update ws i w₁, ?_, ?_, ?_⟩
        · rintro j (_ | ⟨_, hj⟩)
          · simpa using hL
          · have hne : j ≠ i := by
              rintro rfl
              exact hi hj
            simpa [hne] using hLs j hj
        · simp [hupdate]
        · simp [hupdate]
      · rintro ⟨segs, ws, hLs, rfl, rfl⟩
        exact ⟨(), segs i, ws i, is.flatMap segs, is.flatMap ws, hLs i List.mem_cons_self,
          ⟨segs, ws, fun j hj => hLs j (List.mem_cons_of_mem i hj), rfl, rfl⟩, rfl, rfl⟩

/-- An error of a sequence is the error of one of its programs, reached after all
the earlier ones have succeeded; the later ones have not run. -/
theorem sequence_eq_err {is : List ι} {d d' : Duplex} {e : IoError}
    (h : (sequence (is.map f)).run d = (.err e, d')) :
    ∃ before i after m, is = before ++ i :: after ∧
      (sequence (before.map f)).run d = (.ok (), m) ∧ (f i).run m = (.err e, d') := by
  induction is generalizing d with
  | nil => simp [sequence] at h
  | cons i is ih =>
      rw [List.map_cons, sequence] at h
      rcases hi : (f i).run d with ⟨⟨⟩ | e' | _, m⟩
      · rw [run_bind_of_ok hi] at h
        obtain ⟨before, j, after, m', rfl, hbefore, hj⟩ := ih h
        refine ⟨i :: before, j, after, m', rfl, ?_, hj⟩
        rw [List.map_cons, sequence, run_bind_of_ok hi, hbefore]
      · rw [run_bind_of_err hi] at h
        exact ⟨[], i, is, d, rfl, rfl, hi.trans h⟩
      · simp [run_bind, hi] at h

end Client
end Gust.Lib
