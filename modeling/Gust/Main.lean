import Gust.Argv
import Gust.Config

/-!
# From the command line to the runtime

`main` scans the arguments, builds the configuration and sizes the runtime. This is as
far as a number on the command line travels: it is parsed as a 64-bit integer, checked or
not, stored in a field of some other width, and for the blocking pool multiplied once more.

`numbersExact_iff` says for which command lines nothing is lost on the way. Only two
numbers can be: a mark of `2 ^ 32` or more loses its high bits, and doubling `2 ^ 63` worker
threads or more overflows. All other ranges are validated.
-/

namespace Gust

open Gust.Lib

/-- What `main` asks of the runtime builder when `--worker-threads` is given. -/
structure Threads where
  workerThreads : UInt64
  maxBlockingThreads : UInt64
  deriving DecidableEq, Repr

/-- The product wraps, as it does in a release build. -/
def threads (n : UInt64) : Threads := ⟨n, max (n * 2) 2⟩

/-- What the process goes on with. -/
inductive Launch
  | help
  | version
  | natCleanup
  | run (cfg : Config) (threads : Option Threads)
  deriving DecidableEq, Repr

/-- `main`, up to the start of the runtime; an error is printed and ends the process. -/
def main (args : List Str) : Outcome Str Launch := do
  match ← parseArgs args with
  | .help => pure .help
  | .version => pure .version
  | .run raw =>
      if raw.natCleanup then pure .natCleanup
      else do
        let cfg ← buildConfig raw
        pure (.run cfg (cfg.workerThreads.map threads))

/-! ## Numbers -/

/-- The last value given to a flag. -/
def lastValue (f : ValueFlag) (occs : List Occurrence) : Option Str := (valuesOf f occs).getLast?

/-- The product of two machine integers is the product of the numbers. -/
def MulFits (a b : UInt64) : Prop := a.toNat * b.toNat < 2 ^ 64

instance (a b : UInt64) : Decidable (MulFits a b) :=
  inferInstanceAs (Decidable (a.toNat * b.toNat < 2 ^ 64))

/-- Every number that is given takes effect as it is written, and no product on the way to
the runtime overflows. -/
structure NumbersExact (occs : List Occurrence) (raw : RawArgs) (cfg : Config) : Prop where
  mark : ∀ v, lastValue .M occs = some v →
    ∃ m, cfg.mark = some m ∧ Str.integer v = some (m.toNat : ℤ)
  bufSize : ∀ v, lastValue .bufSizeKb occs = some v →
    ∃ kb : ℕ, Str.integer v = some (kb : ℤ) ∧ cfg.bufSize.toNat = 1024 * kb
  heartbeat : ∀ v, lastValue .heartbeatSecs occs = some v →
    Str.integer v = some (cfg.heartbeat.toNat : ℤ)
  workerThreads : ∀ v, lastValue .workerThreads occs = some v →
    ∃ n, cfg.workerThreads = some n ∧ Str.integer v = some (n.toNat : ℤ)
  rcvbuf : ∀ v, lastValue .soRcvbuf occs = some v →
    ∃ n, cfg.sock.rcvbuf = some n ∧ Str.integer v = some (n.toNat : ℤ)
  sndbuf : ∀ v, lastValue .soSndbuf occs = some v →
    ∃ n, cfg.sock.sndbuf = some n ∧ Str.integer v = some (n.toNat : ℤ)
  bufKb_fits : MulFits (raw.bufSizeKb.getD 32) 1024
  threads_fit : ∀ n, cfg.workerThreads = some n →
    MulFits n 2 ∧ (threads n).maxBlockingThreads.toNat = max (2 * n.toNat) 2

/-- The mark that is written fits into 32 bits. -/
def MarkFits (occs : List Occurrence) : Prop :=
  ∀ v m, lastValue .M occs = some v → Str.integer v = some m → m < 2 ^ 32

/-- Twice the number of worker threads that is written fits into 64 bits. -/
def ThreadsFit (occs : List Occurrence) : Prop :=
  ∀ v n, lastValue .workerThreads occs = some v → Str.integer v = some n → n < 2 ^ 63

theorem value_mem_of_lastValue {f : ValueFlag} {occs : List Occurrence} {v : Str}
    (h : lastValue f occs = some v) : .value f v ∈ occs :=
  mem_valuesOf_iff.mp (List.mem_of_getLast? h)

/-- An unsigned number arrives in the raw values as it is written. -/
theorem lastU64_of_lastValue {f : ValueFlag} {occs : List Occurrence} {v : Str}
    (hall : ∀ o ∈ occs, o.Parsable)
    (hU64 : (Occurrence.value f v).Parsable → (Str.parseU64 v).isSome = true)
    (h : lastValue f occs = some v) :
    ∃ n, lastU64 f occs = some n ∧ Str.integer v = some (n.toNat : ℤ) := by
  obtain ⟨n, hn⟩ := Option.isSome_iff_exists.mp (hU64 (hall _ (value_mem_of_lastValue h)))
  refine ⟨n, ?_, Str.integer_of_parseU64 hn⟩
  rw [lastU64, ← lastValue, h, Option.bind_some, hn]

theorem mark_of_lastValue {occs : List Occurrence} {v : Str} (hall : ∀ o ∈ occs, o.Parsable)
    (h : lastValue .M occs = some v) :
    ∃ m, (rawOf occs).mark = some m ∧ Str.integer v = some m.toInt := by
  obtain ⟨m, hm⟩ := Option.isSome_iff_exists.mp (hall _ (value_mem_of_lastValue h))
  refine ⟨m, ?_, Str.integer_of_parseI64 hm⟩
  change (lastValue .M occs).bind Str.parseI64 = some m
  rw [h, Option.bind_some, hm]

/-- A mark that is not negative is stored, less its high bits. -/
theorem checkMark_eq_ok {raw : RawArgs} {mark : Option UInt32} {m : Int64}
    (h : checkMark raw = .ok mark) (hm : raw.mark = some m) :
    0 ≤ m.toInt ∧ mark = some (UInt32.ofNat m.toInt.toNat) := by
  simp only [checkMark, hm] at h
  split at h
  · cases h
  · rename_i hneg
    cases h
    have hzero : (0 : Int64).toInt = 0 := rfl
    rw [Int64.lt_iff_toInt_lt, hzero] at hneg
    exact ⟨by omega, rfl⟩

/-- The low 32 bits of a mark are the mark if it has no others. -/
theorem toNat_ofNat_mark_iff {m : ℤ} (h : 0 ≤ m) :
    m = ((UInt32.ofNat m.toNat).toNat : ℤ) ↔ m < 2 ^ 32 := by
  rw [UInt32.toNat_ofNat']
  omega

theorem maxBlockingThreads_of_fits {n : UInt64} (h : MulFits n 2) :
    (threads n).maxBlockingThreads.toNat = max (2 * n.toNat) 2 := by
  have htwo : (2 : UInt64).toNat = 2 := rfl
  rw [MulFits, htwo] at h
  have hmul : (n * 2).toNat = 2 * n.toNat := by
    rw [UInt64.toNat_mul, htwo, Nat.mod_eq_of_lt h, Nat.mul_comm]
  have hmax : (threads n).maxBlockingThreads = if n * 2 ≤ 2 then 2 else n * 2 := rfl
  rw [hmax]
  split
  · rename_i hle
    have hle' : (n * 2).toNat ≤ 2 := hle
    rw [htwo]
    omega
  · rename_i hlt
    have hlt' : ¬ (n * 2).toNat ≤ 2 := hlt
    omega

section

variable {occs : List Occurrence} {cfg : Config}

theorem Accepted.mark_exact_iff (h : Accepted (rawOf occs) cfg) (hall : ∀ o ∈ occs, o.Parsable) :
    (∀ v, lastValue .M occs = some v →
      ∃ m, cfg.mark = some m ∧ Str.integer v = some (m.toNat : ℤ)) ↔ MarkFits occs := by
  refine forall_congr' fun v => ?_
  by_cases hv : lastValue .M occs = some v
  · obtain ⟨m, hm, hint⟩ := mark_of_lastValue hall hv
    obtain ⟨hnonneg, hmark⟩ := checkMark_eq_ok h.mark hm
    simp only [hv, hmark, hint, Option.some.injEq, forall_const, exists_eq_left', forall_eq']
    exact toNat_ofNat_mark_iff hnonneg
  · simp [hv]

theorem Accepted.threads_fit_iff (h : Accepted (rawOf occs) cfg)
    (hall : ∀ o ∈ occs, o.Parsable) :
    (∀ n, cfg.workerThreads = some n →
      MulFits n 2 ∧ (threads n).maxBlockingThreads.toNat = max (2 * n.toNat) 2) ↔
      ThreadsFit occs := by
  have hworkers : cfg.workerThreads = lastU64 .workerThreads occs := h.workerThreads
  rw [hworkers]
  constructor
  · intro hfits v n hv hn
    obtain ⟨k, hk, hint⟩ := lastU64_of_lastValue hall id hv
    have hmul : k.toNat * 2 < 2 ^ 64 := (hfits k hk).1
    rw [hint, Option.some.injEq] at hn
    omega
  · intro hfit n hn
    obtain ⟨v, hv, hparse⟩ := Option.bind_eq_some_iff.mp hn
    have hlt := hfit v _ hv (Str.integer_of_parseU64 hparse)
    have hmul : n.toNat * 2 < 2 ^ 64 := by omega
    exact ⟨hmul, maxBlockingThreads_of_fits hmul⟩

/-- The buffer size is checked before it is multiplied. -/
theorem Accepted.bufKb_fits {raw : RawArgs} (h : Accepted raw cfg) :
    MulFits (raw.bufSizeKb.getD 32) 1024 ∧
      cfg.bufSize.toNat = 1024 * (raw.bufSizeKb.getD 32).toNat := by
  obtain ⟨kb, hkb, hbuf⟩ := h.bufSize
  obtain rfl : raw.bufSizeKb.getD 32 = kb := by
    simp only [checkBufKb] at hkb
    split at hkb
    · cases hkb
      rfl
    · cases hkb
  have hle : (raw.bufSizeKb.getD 32).toNat ≤ 1024 := (checkBufKb_eq_ok hkb).2
  have hfits : (raw.bufSizeKb.getD 32).toNat * 1024 < 2 ^ 64 := by omega
  refine ⟨hfits, ?_⟩
  have hmul : (raw.bufSizeKb.getD 32 * 1024).toNat = (raw.bufSizeKb.getD 32).toNat * 1024 % 2 ^ 64 :=
    UInt64.toNat_mul _ _
  rw [hbuf, hmul, Nat.mod_eq_of_lt hfits, Nat.mul_comm]

end

/-- **Numbers are rejected or take effect exactly, up to two ranges.** For every accepted
command line, in every reading of it, each number takes effect as it is written and no
product overflows exactly if the last mark is below `2 ^ 32` and the last number of worker
threads is below `2 ^ 63`. -/
theorem numbersExact_iff {args : List Str} {raw : RawArgs} {cfg : Config}
    (hargs : parseArgs args = .ok (.run raw)) (hcfg : buildConfig raw = .ok cfg) :
    (∃ occs, Reads DashRun occs args) ∧
      ∀ occs, Reads DashRun occs args →
        (NumbersExact occs raw cfg ↔ MarkFits occs ∧ ThreadsFit occs) := by
  obtain ⟨hexists, hread⟩ := parseArgs_eq_ok_run hargs
  refine ⟨hexists, ?_⟩
  intro occs hreads
  obtain ⟨hall, rfl⟩ := hread hreads
  have h := buildConfig_eq_ok_iff.mp hcfg
  rw [← h.mark_exact_iff hall, ← h.threads_fit_iff hall]
  constructor
  · intro hexact
    exact ⟨hexact.mark, hexact.threads_fit⟩
  · rintro ⟨hmark, hthreads⟩
    obtain ⟨hfits, hbuf⟩ := h.bufKb_fits
    refine ⟨hmark, ?_, ?_, ?_, ?_, ?_, hfits, hthreads⟩
    · intro v hv
      obtain ⟨kb, hkb, hint⟩ := lastU64_of_lastValue hall id hv
      refine ⟨kb.toNat, hint, ?_⟩
      have hraw : (rawOf occs).bufSizeKb.getD 32 = kb := by
        change (lastU64 .bufSizeKb occs).getD 32 = kb
        rw [hkb, Option.getD_some]
      rw [hbuf, hraw]
    · intro v hv
      obtain ⟨n, hn, hint⟩ := lastU64_of_lastValue hall id hv
      have hheartbeat : cfg.heartbeat = (lastU64 .heartbeatSecs occs).getD 60 := h.heartbeat
      rw [hheartbeat, hn, Option.getD_some, hint]
    · intro v hv
      obtain ⟨n, hn, hint⟩ := lastU64_of_lastValue hall id hv
      exact ⟨n, h.workerThreads.trans hn, hint⟩
    · intro v hv
      obtain ⟨n, hn, hint⟩ := lastU64_of_lastValue hall id hv
      exact ⟨n, by rw [h.sock]; exact hn, hint⟩
    · intro v hv
      obtain ⟨n, hn, hint⟩ := lastU64_of_lastValue hall id hv
      exact ⟨n, by rw [h.sock]; exact hn, hint⟩

theorem markFits_iff {occs : List Occurrence} {v : Str} {m : ℤ} (hv : lastValue .M occs = some v)
    (hm : Str.integer v = some m) : MarkFits occs ↔ m < 2 ^ 32 := by
  constructor
  · intro h
    exact h v m hv hm
  · intro hlt v' m' hv' hm'
    rw [hv, Option.some.injEq] at hv'
    subst hv'
    rw [hm, Option.some.injEq] at hm'
    exact hm' ▸ hlt

theorem threadsFit_iff {occs : List Occurrence} {v : Str} {n : ℤ}
    (hv : lastValue .workerThreads occs = some v) (hn : Str.integer v = some n) :
    ThreadsFit occs ↔ n < 2 ^ 63 := by
  constructor
  · intro h
    exact h v n hv hn
  · intro hlt v' n' hv' hn'
    rw [hv, Option.some.injEq] at hv'
    subst hv'
    rw [hn, Option.some.injEq] at hn'
    exact hn' ▸ hlt

theorem dashRun_two : DashRun ['-', '-'] := by simp [DashRun]

/-- The largest mark and the most threads that are safe. -/
theorem numbersExact_largest :
    ∃ occs cfg, Reads DashRun occs ["--L=tcp://:80/a:80".toList, "--M=4294967295".toList,
        "--worker-threads=9223372036854775807".toList] ∧
      main ["--L=tcp://:80/a:80".toList, "--M=4294967295".toList,
        "--worker-threads=9223372036854775807".toList] =
          .ok (.run cfg (some ⟨9223372036854775807, 18446744073709551614⟩)) ∧
      NumbersExact occs (rawOf occs) cfg := by
  have hreads : Reads DashRun
      [.value .L "tcp://:80/a:80".toList, .value .M "4294967295".toList,
        .value .workerThreads "9223372036854775807".toList]
      ["--L=tcp://:80/a:80".toList, "--M=4294967295".toList,
        "--worker-threads=9223372036854775807".toList] :=
    .cons (.inline .L _ dashRun_two) (.cons (.inline .M _ dashRun_two)
      (.cons (.inline .workerThreads _ dashRun_two) .nil))
  have hmark : Str.integer "4294967295".toList = some 4294967295 := rfl
  have hthreads : Str.integer "9223372036854775807".toList = some 9223372036854775807 := rfl
  refine ⟨_, _, hreads, rfl, ((numbersExact_iff rfl rfl).2 _ hreads).mpr ⟨?_, ?_⟩⟩
  · exact (markFits_iff rfl hmark).mpr (by decide)
  · exact (threadsFit_iff rfl hthreads).mpr (by decide)

/-- A mark of `2 ^ 32` is stored as `0`, and for `2 ^ 63` worker threads the blocking pool is
sized as for one. -/
theorem numbersExact_too_large :
    (∃ occs cfg, Reads DashRun occs ["--L=tcp://:80/a:80".toList, "--M=4294967296".toList] ∧
      parseArgs ["--L=tcp://:80/a:80".toList, "--M=4294967296".toList] = .ok (.run (rawOf occs)) ∧
      buildConfig (rawOf occs) = .ok cfg ∧ cfg.mark = some 0 ∧
      ¬ NumbersExact occs (rawOf occs) cfg) ∧
    ∃ occs cfg, Reads DashRun occs
        ["--L=tcp://:80/a:80".toList, "--worker-threads=9223372036854775808".toList] ∧
      main ["--L=tcp://:80/a:80".toList, "--worker-threads=9223372036854775808".toList] =
        .ok (.run cfg (some ⟨9223372036854775808, 2⟩)) ∧
      ¬ NumbersExact occs (rawOf occs) cfg := by
  refine ⟨?_, ?_⟩
  · have hreads : Reads DashRun [.value .L "tcp://:80/a:80".toList, .value .M "4294967296".toList]
        ["--L=tcp://:80/a:80".toList, "--M=4294967296".toList] :=
      .cons (.inline .L _ dashRun_two) (.cons (.inline .M _ dashRun_two) .nil)
    refine ⟨_, _, hreads, rfl, rfl, rfl, ?_⟩
    intro hexact
    obtain ⟨m, hm, hint⟩ := hexact.mark "4294967296".toList rfl
    cases hm
    cases hint
  · have hreads : Reads DashRun
        [.value .L "tcp://:80/a:80".toList, .value .workerThreads "9223372036854775808".toList]
        ["--L=tcp://:80/a:80".toList, "--worker-threads=9223372036854775808".toList] :=
      .cons (.inline .L _ dashRun_two) (.cons (.inline .workerThreads _ dashRun_two) .nil)
    refine ⟨_, _, hreads, rfl, ?_⟩
    intro hexact
    have hfits := (hexact.threads_fit 9223372036854775808 rfl).1
    exact absurd hfits (by decide)

end Gust
