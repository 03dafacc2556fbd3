import Gust.Config
import Gust.Lib.Buffer
import Gust.Lib.Machine
import Gust.Lib.Stream

/-!
# The userspace relay

`transport` runs two copy loops, one for each direction between the streams `a` and `b`,
and returns as soon as the first of them finishes; the other one is dropped where it
stands, possibly in the middle of a write. A direction is the stream one side sends, the
locals of its `copyOne` and what the other side has been given. A label is one send of a
side, one read or one write of a copy loop, in every chunk size the socket may choose, or
an error of one of these; interleavings of both directions are the runs.

`Direction.Inv` says where the bytes of a direction are at each point of its loop, and
`Inv` adds to it that the transport returns only what a finished direction returned.
-/

namespace Gust.Relay

open Gust.Lib

abbrev Bytes := List UInt8

/-- Where a copy loop is. -/
inductive Pc
  | reading
  /-- In `write_all(&buf[..n])`, of which `off` bytes have been written. -/
  | writing (n off : ℕ)
  | finished (r : Outcome IoError UInt64)
  deriving DecidableEq, Repr

/-- One direction of a relayed connection. -/
structure Direction where
  /-- Everything the source has sent so far. -/
  sent : Bytes
  /-- The source has sent its end of stream. -/
  closed : Bool
  /-- How much of it the copy loop has read. -/
  taken : ℕ
  buf : Bytes
  total : UInt64
  pc : Pc
  /-- Everything the destination has been given. -/
  delivered : Bytes
  deriving DecidableEq, Repr

/-- What has been sent and not been read yet. -/
def Direction.unread (d : Direction) : Bytes := d.sent.drop d.taken

/-- What the current `write_all` has still to write. -/
def Direction.unwritten (d : Direction) (n off : ℕ) : Bytes := (d.buf.take n).drop off

def Direction.start (bufSize : ℕ) : Direction :=
  ⟨[], false, 0, List.replicate bufSize 0, 0, .reading, []⟩

/-- A step of the peer at the source. -/
inductive SourceAct
  | send (bs : Bytes)
  | close
  deriving DecidableEq, Repr

/-- A step of a copy loop, with the number of bytes the socket takes or gives. -/
inductive CopyAct
  | read (n : ℕ)
  | readError (e : IoError)
  | write (n : ℕ)
  | writeError (e : IoError)
  deriving DecidableEq, Repr

/-- The error of a `write_all` whose socket takes nothing. -/
def writeZero : IoError := ⟨.writeZero, "write zero".toList⟩

/-- After the end of its stream a source sends nothing. -/
def sourceStep (d : Direction) : SourceAct → Option Direction
  | .send bs => if d.closed then none else some { d with sent := d.sent ++ bs }
  | .close => some { d with closed := true }

/-- `n` is a result of reading into the buffer: some of the bytes that are there, or
nothing at the end of the stream or when the buffer has no room. -/
def Direction.MayRead (d : Direction) (n : ℕ) : Prop :=
  n ≤ d.unread.length ∧ n ≤ d.buf.length ∧
    (n = 0 → d.buf.length = 0 ∨ d.unread = [] ∧ d.closed = true)

instance (d : Direction) (n : ℕ) : Decidable (d.MayRead n) :=
  inferInstanceAs (Decidable (_ ∧ _ ∧ _))

/-- One step of `copy_one`. -/
def copyOne (d : Direction) : CopyAct → Option Direction
  | .read n =>
      match d.pc with
      | .reading =>
          if d.MayRead n then
            if n = 0 then some { d with pc := .finished (.ok d.total) }
            else some { d with
              taken := d.taken + n
              buf := fill d.buf (d.unread.take n)
              pc := .writing n 0 }
          else none
      | _ => none
  | .readError e =>
      match d.pc with
      | .reading => some { d with pc := .finished (.err e) }
      | _ => none
  | .write k =>
      match d.pc with
      | .writing n off =>
          if k ≤ (d.unwritten n off).length then
            if k = 0 then some { d with pc := .finished (.err writeZero) }
            else if off + k < n then some { d with
              delivered := d.delivered ++ (d.unwritten n off).take k
              pc := .writing n (off + k) }
            else some { d with
              delivered := d.delivered ++ (d.unwritten n off).take k
              total := d.total + .ofNat n
              pc := .reading }
          else none
      | _ => none
  | .writeError e =>
      match d.pc with
      | .writing _ _ => some { d with pc := .finished (.err e) }
      | _ => none

/-- The side a direction reads from. -/
inductive Side
  | a
  | b
  deriving DecidableEq, Repr

structure State where
  dir : Side → Direction
  /-- What `transport` has returned. -/
  result : Option (Outcome IoError Unit)

inductive Act
  | source (side : Side) (a : SourceAct)
  | copy (side : Side) (a : CopyAct)
  deriving DecidableEq, Repr

/-- The `select!`: it returns with the first direction that finishes. -/
def select (d : Direction) : Option (Outcome IoError Unit) :=
  match d.pc with
  | .finished r => some (r >>= fun _ => pure ())
  | _ => none

/-- Both peers go on after the transport has returned; the copy loops do not. -/
def step (s : State) : Act → Option State
  | .source side a =>
      (sourceStep (s.dir side) a).map fun d => { s with dir := Function.update s.dir side d }
  | .copy side a =>
      match s.result with
      | some _ => none
      | none => (copyOne (s.dir side) a).map fun d => ⟨Function.update s.dir side d, select d⟩

/-- `transport(a, b, buf_size)`. -/
def transport (bufSize : ℕ) : Machine State Act where
  init := ⟨fun _ => .start bufSize, none⟩
  step := step

/-! ## What a copy loop can do -/

inductive CopyStep (d : Direction) : Direction → Prop
  | eof (hpc : d.pc = .reading) (hread : d.MayRead 0) :
      CopyStep d { d with pc := .finished (.ok d.total) }
  | read {n : ℕ} (hpc : d.pc = .reading) (hread : d.MayRead n) (hn : n ≠ 0) :
      CopyStep d { d with
        taken := d.taken + n
        buf := fill d.buf (d.unread.take n)
        pc := .writing n 0 }
  | writePart {n off k : ℕ} (hpc : d.pc = .writing n off) (hlt : off + k < n) :
      CopyStep d { d with
        delivered := d.delivered ++ (d.unwritten n off).take k
        pc := .writing n (off + k) }
  | writeRest {n off k : ℕ} (hpc : d.pc = .writing n off)
      (hk : k ≤ (d.unwritten n off).length) (hge : n ≤ off + k) :
      CopyStep d { d with
        delivered := d.delivered ++ (d.unwritten n off).take k
        total := d.total + .ofNat n
        pc := .reading }
  | fail (e : IoError) : CopyStep d { d with pc := .finished (.err e) }

theorem copyOne_cases {d d' : Direction} {a : CopyAct} (h : copyOne d a = some d') :
    CopyStep d d' := by
  cases a with
  | read n =>
      cases hpc : d.pc with
      | reading =>
          by_cases hread : d.MayRead n
          · by_cases hn : n = 0
            · subst hn
              simp only [copyOne, hpc, hread, if_true, Option.some.injEq] at h
              exact h ▸ .eof hpc hread
            · simp only [copyOne, hpc, hread, hn, if_true, if_false, Option.some.injEq] at h
              exact h ▸ .read hpc hread hn
          · simp [copyOne, hpc, hread] at h
      | writing n' off => simp [copyOne, hpc] at h
      | finished r => simp [copyOne, hpc] at h
  | readError e =>
      cases hpc : d.pc with
      | reading =>
          simp only [copyOne, hpc, Option.some.injEq] at h
          exact h ▸ .fail e
      | writing n off => simp [copyOne, hpc] at h
      | finished r => simp [copyOne, hpc] at h
  | write k =>
      cases hpc : d.pc with
      | reading => simp [copyOne, hpc] at h
      | writing n off =>
          by_cases hk : k ≤ (d.unwritten n off).length
          · by_cases hzero : k = 0
            · simp only [copyOne, hpc, hzero, if_true, Nat.zero_le, Option.some.injEq] at h
              exact h ▸ .fail writeZero
            · by_cases hlt : off + k < n
              · simp only [copyOne, hpc, hk, hzero, hlt, if_true, if_false, Option.some.injEq] at h
                exact h ▸ .writePart hpc hlt
              · simp only [copyOne, hpc, hk, hzero, hlt, if_true, if_false, Option.some.injEq] at h
                exact h ▸ .writeRest hpc hk (Nat.le_of_not_lt hlt)
          · simp [copyOne, hpc, hk] at h
      | finished r => simp [copyOne, hpc] at h
  | writeError e =>
      cases hpc : d.pc with
      | reading => simp [copyOne, hpc] at h
      | writing n off =>
          simp only [copyOne, hpc, Option.some.injEq] at h
          exact h ▸ .fail e
      | finished r => simp [copyOne, hpc] at h

/-! ## Where the bytes are -/

/-- What a copy loop holds at each of its points. Only a direction that has failed may
hold bytes it will not write any more. -/
def Direction.Holds (d : Direction) (held : Bytes) : Pc → Prop
  | .reading => held = [] ∧ d.total = .ofNat d.delivered.length
  | .writing n off => held = d.unwritten n off ∧ off < n ∧ n ≤ d.buf.length ∧
      d.total + .ofNat off = .ofNat d.delivered.length
  | .finished (.ok total) => held = [] ∧ d.unread = [] ∧ d.closed = true ∧
      total = .ofNat d.delivered.length
  | .finished (.err _) => True
  | .finished .panic => False

structure Direction.Inv (bufSize : ℕ) (d : Direction) : Prop where
  buf : d.buf.length = bufSize
  transit : ∃ held, InTransit d.sent d.taken d.delivered held ∧ held.length ≤ bufSize ∧
    d.Holds held d.pc

namespace Direction

variable {bufSize : ℕ} {d d' : Direction}

theorem inv_start (bufSize : ℕ) : (start bufSize).Inv bufSize :=
  ⟨List.length_replicate, [], InTransit.start, Nat.zero_le _, rfl, rfl⟩

theorem length_unwritten {n : ℕ} (off : ℕ) (hn : n ≤ d.buf.length) :
    (d.unwritten n off).length = n - off := by
  rw [unwritten, List.length_drop, List.length_take, Nat.min_eq_left hn]

/-- What a peer sends is behind everything the loop has read. -/
theorem Inv.sourceStep {a : SourceAct} (hd : d.Inv bufSize) (h : sourceStep d a = some d') :
    d'.Inv bufSize := by
  obtain ⟨hbuf, held, htransit, hlen, hholds⟩ := hd
  cases a with
  | send bs =>
      by_cases hclosed : d.closed
      · simp [Relay.sourceStep, hclosed] at h
      · rw [Relay.sourceStep, if_neg hclosed, Option.some.injEq] at h
        subst h
        refine ⟨hbuf, held, htransit.send bs, hlen, ?_⟩
        cases hpc : d.pc with
        | reading => simpa [Holds, hpc] using hholds
        | writing n off => simpa [Holds, hpc, unwritten] using hholds
        | finished r =>
            -- a direction that has ended well is closed, and its source sends nothing
            rcases r with total | e | _
            · rw [hpc] at hholds
              exact absurd hholds.2.2.1 hclosed
            · trivial
            · rw [hpc] at hholds
              exact hholds.elim
  | close =>
      simp only [Relay.sourceStep, Option.some.injEq] at h
      subst h
      refine ⟨hbuf, held, htransit, hlen, ?_⟩
      cases hpc : d.pc with
      | reading => simpa [Holds, hpc] using hholds
      | writing n off => simpa [Holds, hpc, unwritten] using hholds
      | finished r =>
          rcases r with total | e | _
          · rw [hpc] at hholds
            exact ⟨hholds.1, hholds.2.1, rfl, hholds.2.2.2⟩
          · trivial
          · rw [hpc] at hholds
            exact hholds.elim

/-- **One step of a copy loop** loses, repeats and changes nothing. The buffer has room,
so that reading nothing means the end of the stream. -/
theorem Inv.copyStep (hsize : 0 < bufSize) (hd : d.Inv bufSize) (h : CopyStep d d') :
    d'.Inv bufSize := by
  obtain ⟨hbuf, held, htransit, hlen, hholds⟩ := hd
  cases h with
  | eof hpc hread =>
      rw [hpc] at hholds
      obtain ⟨hleft, hclosed⟩ : d.unread = [] ∧ d.closed = true := by
        refine (hread.2.2 rfl).resolve_left ?_
        omega
      exact ⟨hbuf, held, htransit, hlen, hholds.1, hleft, hclosed, hholds.2⟩
  | @read n hpc hread hn =>
      rw [hpc] at hholds
      obtain ⟨rfl, htotal⟩ := hholds
      obtain ⟨hunread, hroom, -⟩ := hread
      have hchunk : (d.unread.take n).length = n := by
        rw [List.length_take, Nat.min_eq_left hunread]
      have hfilled : filled d.buf (d.unread.take n) = n := by
        rw [filled_of_le (hchunk.trans_le hroom), hchunk]
      have hheld : (fill d.buf (d.unread.take n)).take n = d.unread.take n := by
        have htake := take_filled_fill d.buf (d.unread.take n)
        rwa [hfilled, List.take_of_length_le (hchunk.trans_le hroom)] at htake
      refine ⟨(length_fill _ _).trans hbuf, d.unread.take n, htransit.take hunread, ?_, ?_, ?_, ?_,
        ?_⟩
      · omega
      · exact hheld.symm
      · exact Nat.pos_of_ne_zero hn
      · exact hroom.trans_eq (length_fill _ _).symm
      · simpa using htotal
  | @writePart n off k hpc hlt =>
      rw [hpc] at hholds
      obtain ⟨rfl, hoff, hn, htotal⟩ := hholds
      have hlength := length_unwritten off hn
      refine ⟨hbuf, (d.unwritten n off).drop k, htransit.deliver k, ?_, ?_, hlt, hn, ?_⟩
      · rw [List.length_drop]
        omega
      · exact List.drop_drop
      · rw [List.length_append, List.length_take, hlength, Nat.min_eq_left (by omega),
          UInt64.ofNat_add, UInt64.ofNat_add, ← htotal, UInt64.add_assoc]
  | @writeRest n off k hpc hk hge =>
      rw [hpc] at hholds
      obtain ⟨rfl, hoff, hn, htotal⟩ := hholds
      have hlength := length_unwritten off hn
      have hkeq : off + k = n := by omega
      refine ⟨hbuf, [], ?_, Nat.zero_le _, rfl, ?_⟩
      · have hnext := htransit.deliver k
        rwa [List.drop_of_length_le (by omega)] at hnext
      · rw [List.length_append, List.length_take, Nat.min_eq_left hk, UInt64.ofNat_add, ← htotal,
          UInt64.add_assoc, ← UInt64.ofNat_add, hkeq]
  | fail e => exact ⟨hbuf, held, htransit, hlen, trivial⟩

end Direction

/-! ## The transport -/

/-- The bytes of one direction are delivered in order, whatever happens to its loop. -/
structure Intact (bufSize : ℕ) (d : Direction) : Prop where
  /-- No byte is lost, repeated, reordered or changed. -/
  delivered_prefix : d.delivered <+: d.sent
  delivered_le : d.delivered.length ≤ d.taken
  /-- At most one buffer has been read and not delivered. -/
  taken_le : d.taken ≤ d.delivered.length + bufSize

/-- The whole stream up to its end has been delivered. -/
def Direction.Complete (d : Direction) : Prop := d.closed = true ∧ d.delivered = d.sent

theorem Direction.Inv.intact {bufSize : ℕ} {d : Direction} (h : d.Inv bufSize) :
    Intact bufSize d := by
  obtain ⟨-, held, htransit, hlen, -⟩ := h
  have htaken := htransit.taken_eq
  exact ⟨htransit.delivered_prefix, by omega, by omega⟩

theorem Direction.Inv.complete {bufSize : ℕ} {d : Direction} {total : UInt64} (h : d.Inv bufSize)
    (hpc : d.pc = .finished (.ok total)) : d.Complete := by
  obtain ⟨-, held, htransit, -, hholds⟩ := h
  rw [hpc] at hholds
  obtain ⟨rfl, hleft, hclosed, -⟩ := hholds
  exact ⟨hclosed, htransit.delivered_eq hleft⟩

/-- The transport returns what some direction has returned. -/
structure Inv (bufSize : ℕ) (s : State) : Prop where
  dir : ∀ side, (s.dir side).Inv bufSize
  result : s.result = some (.ok ()) → ∃ side total, (s.dir side).pc = .finished (.ok total)

theorem inv_init (bufSize : ℕ) : Inv bufSize (transport bufSize).init :=
  ⟨fun _ => Direction.inv_start bufSize, fun h => by cases h⟩

theorem inv_update {bufSize : ℕ} {dir : Side → Direction} {d : Direction} {side : Side}
    (hdir : ∀ side, (dir side).Inv bufSize) (hd : d.Inv bufSize) (side' : Side) :
    (Function.update dir side d side').Inv bufSize := by
  by_cases hside : side' = side
  · subst hside
    rwa [Function.update_self]
  · rw [Function.update_of_ne hside]
    exact hdir side'

theorem select_eq_ok {d : Direction} (h : select d = some (.ok ())) :
    ∃ total, d.pc = .finished (.ok total) := by
  cases hpc : d.pc with
  | reading => simp [select, hpc] at h
  | writing n off => simp [select, hpc] at h
  | finished r =>
      rcases r with total | e | _
      · exact ⟨total, rfl⟩
      · rw [select, hpc] at h
        cases h
      · rw [select, hpc] at h
        cases h

theorem sourceStep_pc {d d' : Direction} {a : SourceAct} (h : sourceStep d a = some d') :
    d'.pc = d.pc := by
  cases a with
  | send bs =>
      by_cases hclosed : d.closed
      · simp [sourceStep, hclosed] at h
      · rw [sourceStep, if_neg hclosed, Option.some.injEq] at h
        rw [← h]
  | close =>
      simp only [sourceStep, Option.some.injEq] at h
      rw [← h]

theorem Inv.step {bufSize : ℕ} (hsize : 0 < bufSize) (s : State) (a : Act) (t : State)
    (hs : Inv bufSize s) (h : step s a = some t) : Inv bufSize t := by
  cases a with
  | source side a =>
      simp only [Relay.step, Option.map_eq_some_iff] at h
      obtain ⟨d, hstep, rfl⟩ := h
      refine ⟨inv_update hs.dir ((hs.dir side).sourceStep hstep), ?_⟩
      intro hresult
      obtain ⟨side', total, hpc⟩ := hs.result hresult
      refine ⟨side', total, ?_⟩
      by_cases hside : side' = side
      · subst hside
        simpa [sourceStep_pc hstep] using hpc
      · simpa [hside] using hpc
  | copy side a =>
      cases hres : s.result with
      | some r => simp [Relay.step, hres] at h
      | none =>
          simp only [Relay.step, hres, Option.map_eq_some_iff] at h
          obtain ⟨d, hstep, rfl⟩ := h
          refine ⟨inv_update hs.dir ((hs.dir side).copyStep hsize (copyOne_cases hstep)), ?_⟩
          intro hresult
          obtain ⟨total, hpc⟩ := select_eq_ok hresult
          exact ⟨side, total, by simpa using hpc⟩

theorem reachable_inv {bufSize : ℕ} (hsize : 0 < bufSize) {s : State}
    (h : (transport bufSize).Reachable s) : Inv bufSize s :=
  h.invariant (inv_init bufSize) (Inv.step hsize)

/-- **Relay integrity.** With the buffer of an accepted configuration, whatever the
chunks, the partial writes, the errors and the interleaving of the two directions, each
side has been given a prefix of what the other has sent, at most one buffer per direction
is under way, and a transport that returns without an error has delivered one of the two
streams up to its end. -/
theorem transport_intact {raw : RawArgs} {cfg : Config} (hcfg : buildConfig raw = .ok cfg)
    {s : State} (h : (transport cfg.bufSize.toNat).Reachable s) :
    (∀ side, Intact cfg.bufSize.toNat (s.dir side)) ∧
      (s.result = some (.ok ()) → ∃ side, (s.dir side).Complete) := by
  have hbounds := (buildConfig_eq_ok_iff.mp hcfg).bufSize_bounds
  have hinv := reachable_inv (by omega) h
  refine ⟨fun side => (hinv.dir side).intact, ?_⟩
  intro hresult
  obtain ⟨side, total, hpc⟩ := hinv.result hresult
  exact ⟨side, (hinv.dir side).complete hpc⟩

/-- Side `a` sends three bytes and closes while the other direction has written one of its
two: the transport returns, and the second byte of `b` is never delivered. -/
theorem transport_intact_cancelled :
    ∃ cfg s, buildConfig { listens := ["tcp://:80/1.2.3.4:80".toList], bufSizeKb := some 1 } =
        .ok cfg ∧ (transport cfg.bufSize.toNat).Reachable s ∧ s.result = some (.ok ()) ∧
      (s.dir .a).delivered = [1, 2, 3] ∧ (s.dir .b).delivered = [9] ∧
      (s.dir .b).sent = [9, 8] ∧ ∃ side, (s.dir side).Complete := by
  obtain ⟨cfg, hcfg, hsize⟩ : ∃ cfg,
      buildConfig { listens := ["tcp://:80/1.2.3.4:80".toList], bufSizeKb := some 1 } = .ok cfg ∧
      cfg.bufSize.toNat = 1024 := ⟨_, rfl, rfl⟩
  obtain ⟨s, hreach, hresult, ha, hb, hsent⟩ : ∃ s, (transport 1024).Reachable s ∧
      s.result = some (.ok ()) ∧ (s.dir .a).delivered = [1, 2, 3] ∧ (s.dir .b).delivered = [9] ∧
      (s.dir .b).sent = [9, 8] := by
    set_option maxRecDepth 20000 in
    exact ⟨_, ⟨[.source .a (.send [1, 2, 3]), .source .b (.send [9, 8]), .copy .a (.read 3),
      .copy .b (.read 2), .copy .a (.write 1), .copy .b (.write 1), .copy .a (.write 2),
      .source .a .close, .copy .a (.read 0)], rfl⟩, rfl, rfl, rfl, rfl⟩
  rw [← hsize] at hreach
  exact ⟨cfg, s, hcfg, hreach, hresult, ha, hb, hsent, (transport_intact hcfg hreach).2 hresult⟩

end Gust.Relay
