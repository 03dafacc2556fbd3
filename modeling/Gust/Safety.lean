import Gust.Config
import Gust.Lib.Safe
import Gust.NodeText

/-!
# Start-up cannot panic

What `main` does with its arguments before the runtime starts is mostly slicing, at offsets
that a search returned. The strings are cut out of others (dashes or a bracket stripped,
blanks trimmed, everything up to the scheme dropped), and the arguments are arbitrary Unicode
text.

Every slice is of the string that was searched, and the delimiters are ASCII, so both sides
of them are boundaries. One lemma per function says that it is safe on every input, and
`startup_safe` assembles them. The scanner is also written down with its index into the
arguments (`scanAt`), which is safe because it is the same function.
-/

namespace Gust

open Gust.Lib
open Gust.Lib.Outcome
open String (utf8Len)

/-! ## The scanner -/

theorem safe_splitInline (body : Str) : (splitInline body).Safe := by
  unfold splitInline
  split
  · rename_i eq hfind
    exact Str.safe_around (Str.isBoundary_around_of_find rfl hfind) fun name value => safe_ok _
  · exact safe_ok _

theorem safe_readFlag (arg : Str) : (readFlag arg).Safe := by
  unfold readFlag
  split
  · exact safe_err _
  split
  · exact safe_ok _
  refine (safe_splitInline _).bind ?_
  rintro ⟨name, inline⟩ -
  cases hflag : flagTable.lookup name with
  | some flag => simp only [hflag, safe_ok]
  | none => simp only [hflag, safe_err]

theorem safe_setValue (raw : RawArgs) (v : Str) (f : ValueFlag) : (setValue raw v f).Safe := by
  cases f with
  | L => exact safe_ok _
  | F => exact safe_ok _
  | M => exact (safe_ofOption _ _).bind fun m _ => safe_ok _
  | bufSizeKb => exact (safe_ofOption _ _).bind fun n _ => safe_ok _
  | heartbeatSecs => exact (safe_ofOption _ _).bind fun n _ => safe_ok _
  | workerThreads => exact (safe_ofOption _ _).bind fun n _ => safe_ok _
  | soRcvbuf => exact (safe_ofOption _ _).bind fun n _ => safe_ok _
  | soSndbuf => exact (safe_ofOption _ _).bind fun n _ => safe_ok _

theorem safe_parseBool (name : Str) (inline : Option Str) : (parseBool name inline).Safe := by
  cases inline with
  | none => exact safe_ok true
  | some v => exact safe_ofOption _ _

theorem safe_scan (noMoreFlags : Bool) (raw : RawArgs) (args : List Str) :
    (scan noMoreFlags raw args).Safe := by
  fun_induction scan noMoreFlags raw args with
  | case1 | case10 | case11 => exact safe_ok _
  | case2 | case3 | case7 => exact safe_err _
  | case4 noMoreFlags raw arg args _ hread => exact absurd hread (safe_readFlag arg)
  | case5 noMoreFlags raw arg args _ _ ih => exact ih
  | case6 noMoreFlags raw arg args _ f name v _ ih =>
      exact (safe_setValue raw v f).bind fun raw' _ => ih raw'
  | case8 noMoreFlags raw arg _ f name _ v args ih =>
      exact (safe_setValue raw v f).bind fun raw' _ => ih raw'
  | case9 noMoreFlags raw arg args _ f name inline _ ih =>
      exact (safe_parseBool name inline).bind fun b _ => ih b

theorem safe_parseArgs (args : List Str) : (parseArgs args).Safe := safe_scan false {} args

/-- The value of a flag: inline, or the argument at the index, which then moves on. -/
def takeValue (args : List Str) (i : ℕ) (name : Str) : Option Str → Outcome Str (Str × ℕ)
  | some v => .ok (v, i)
  | none =>
      if i < args.length then do
        let v ← .expect args[i]?
        pure (v, i + 1)
      else .err ("flag `-".toList ++ name ++ "` requires a value".toList)

/-- The scan as the source writes it, with an index into the arguments. Indexing may
panic, and so does a loop that is still going on without `fuel`. -/
def scanAt (args : List Str) : (fuel i : ℕ) → Bool → RawArgs → Outcome Str ParseOutcome
  | 0, _, _, _ => .panic
  | fuel + 1, i, noMoreFlags, raw =>
      if i < args.length then do
        let arg ← .expect args[i]?
        if noMoreFlags then .err (positional arg)
        else do
          match ← readFlag arg with
          | .endOfFlags => scanAt args fuel (i + 1) true raw
          | .value f name inline => do
              let (v, i) ← takeValue args (i + 1) name inline
              let raw ← setValue raw v f
              scanAt args fuel i false raw
          | .bool f name inline => do
              let b ← parseBool name inline
              scanAt args fuel (i + 1) false (setBool raw b f)
          | .help => .ok .help
          | .version => .ok .version
      else .ok (finish raw)

/-- The index stays in range and every turn moves it on: the loop is the recursion over the
arguments from the index on. -/
theorem scanAt_eq {args : List Str} {fuel i : ℕ} (hfuel : args.length - i < fuel)
    (noMoreFlags : Bool) (raw : RawArgs) :
    scanAt args fuel i noMoreFlags raw = scan noMoreFlags raw (args.drop i) := by
  induction fuel generalizing i noMoreFlags raw with
  | zero => omega
  | succ fuel ih =>
      by_cases hi : i < args.length
      · have hnext : args.length - (i + 1) < fuel := by omega
        rw [scanAt, if_pos hi, List.drop_eq_getElem_cons hi, List.getElem?_eq_getElem hi, scan]
        simp only [Outcome.expect, ok_bind]
        generalize args[i] = arg
        split
        · rfl
        cases readFlag arg with
        | err e => rfl
        | panic => rfl
        | ok token =>
            cases token with
            | endOfFlags => exact ih hnext true raw
            | help => rfl
            | version => rfl
            | bool f name inline =>
                simp only [ok_bind, ih hnext]
            | value f name inline =>
                cases inline with
                | some v => simp only [ok_bind, takeValue, ih hnext]
                | none =>
                    by_cases hv : i + 1 < args.length
                    · have hrest : args.length - (i + 1 + 1) < fuel := by omega
                      rw [List.drop_eq_getElem_cons hv]
                      simp only [ok_bind, takeValue, if_pos hv, List.getElem?_eq_getElem hv,
                        Outcome.expect, pure_eq_ok, ih hrest]
                    · rw [List.drop_eq_nil_of_le (Nat.le_of_not_lt hv)]
                      simp only [ok_bind, takeValue, if_neg hv, err_bind]
      · rw [scanAt, if_neg hi, List.drop_eq_nil_of_le (Nat.le_of_not_lt hi), scan]

/-! ## Node strings -/

theorem safe_parseHostPort (hp : Str) : (parseHostPort hp).Safe := by
  unfold parseHostPort
  split
  · exact safe_ok _
  split
  · rename_i stripped _
    refine (safe_ofOption _ _).bind fun close hclose => ?_
    rw [ofOption_eq_ok_iff] at hclose
    refine Str.safe_around (Str.isBoundary_around_of_find rfl hclose) fun host after => ?_
    split
    · exact (safe_ofOption _ _).bind fun port _ => safe_ok _
    · split
      · exact safe_ok _
      · exact safe_err _
  · split
    · rename_i c hcolon
      refine Str.safe_around (Str.isBoundary_around_of_rfind rfl hcolon) fun host p => ?_
      exact (safe_ofOption _ _).bind fun port _ => safe_ok _
    · exact safe_ok _

/-- The indices of the loop are in range and every turn moves on, or else the decoded text
would not be there. -/
theorem safe_decode (s : Str) : (decode s).Safe := by
  rw [decode_eq]
  exact safe_ok _

theorem safe_splitRemainder (remainder : Str) : (splitRemainder remainder).Safe := by
  unfold splitRemainder
  split
  · rename_i hhead
    refine (Str.safe_sliceFrom_iff.mpr (Str.isBoundary_one rfl hhead)).bind ?_
    exact fun query _ => safe_ok _
  · rename_i hhead
    have hone := Str.isBoundary_one rfl hhead
    split
    · rename_i q hq
      obtain ⟨hbefore, hbehind⟩ := Str.isBoundary_around_of_find rfl hq
      -- the slash is not what was found, so the path does not end before it starts
      have hpos : 0 < q := Str.pos_of_find hhead rfl hq
      refine (Str.safe_slice hone hbefore hpos).bind fun path _ => ?_
      exact (Str.safe_sliceFrom_iff.mpr hbehind).bind fun query _ => safe_ok _
    · exact (Str.safe_sliceFrom_iff.mpr hone).bind fun path _ => safe_ok _
  · exact safe_ok _

theorem safe_splitAuthority (authority : Str) : (splitAuthority authority).Safe := by
  unfold splitAuthority
  split
  · rename_i i hat
    exact Str.safe_around (Str.isBoundary_around_of_rfind rfl hat) fun _ _ => safe_ok _
  · exact safe_ok _

theorem safe_splitUserinfo (userinfo : Option Str) : (splitUserinfo userinfo).Safe := by
  unfold splitUserinfo
  split
  · exact safe_ok _
  · split
    · rename_i ui _ c hcolon
      refine Str.safe_around (Str.isBoundary_around_of_find rfl hcolon) fun u p => ?_
      refine (safe_decode u).bind fun user _ => ?_
      exact (safe_decode p).bind fun pass _ => safe_ok _
    · exact (safe_decode _).bind fun user _ => safe_ok _

theorem safe_insertPairs (pairs : List Str) (query : Finmap fun _ : Str => Str) :
    (insertPairs pairs query).Safe := by
  induction pairs generalizing query with
  | nil => exact safe_ok _
  | cons pair pairs ih =>
      rw [insertPairs]
      split
      · rename_i eq hfind
        exact Str.safe_around (Str.isBoundary_around_of_find rfl hfind) fun key value => ih _
      · exact ih _

theorem safe_parseRest (s scheme rest : Str) : (parseRest s scheme rest).Safe := by
  have hend : Str.IsBoundary rest
      ((Str.find (fun c => c == '/' || c == '?') rest).getD (utf8Len rest)) := by
    cases hfind : Str.find (fun c => c == '/' || c == '?') rest with
    | none => exact Str.isBoundary_utf8Len rest
    | some i => exact Str.isBoundary_of_find hfind
  rw [parseRest]
  refine (Str.safe_sliceTo_iff.mpr hend).bind fun authority _ => ?_
  refine (Str.safe_sliceFrom_iff.mpr hend).bind fun remainder _ => ?_
  refine (safe_splitRemainder remainder).bind ?_
  rintro ⟨path, queryStr⟩ -
  refine (safe_splitAuthority authority).bind ?_
  rintro ⟨userinfo, hostport⟩ -
  refine (safe_splitUserinfo userinfo).bind ?_
  rintro ⟨user, pass⟩ -
  refine (safe_mapErr_iff.mpr (safe_parseHostPort hostport)).bind ?_
  rintro ⟨host, port⟩ -
  exact (safe_insertPairs _ _).bind fun query _ => safe_ok _

theorem safe_parseNode (raw : Str) : (parseNode raw).Safe := by
  rw [parseNode]
  split
  · exact safe_err _
  refine (safe_ofOption _ _).bind fun schemeIdx hfind => ?_
  obtain ⟨hbefore, hbehind⟩ :=
    Str.isBoundary_of_findStr (by decide) (ofOption_eq_ok_iff.mp hfind)
  refine (Str.safe_sliceTo_iff.mpr hbefore).bind fun name _ => ?_
  dsimp only
  split
  · exact safe_err _
  · exact (Str.safe_sliceFrom_iff.mpr hbehind).bind fun rest _ => safe_parseRest _ _ rest

/-! ## The configuration -/

theorem safe_cutHostPort {ε : Type} (e₁ e₂ e₃ : ε) (s : Str) : (cutHostPort e₁ e₂ e₃ s).Safe := by
  unfold cutHostPort
  split
  · refine (safe_ofOption _ _).bind fun close hclose => ?_
    rw [ofOption_eq_ok_iff] at hclose
    refine Str.safe_around (Str.isBoundary_around_of_find rfl hclose) fun host after => ?_
    exact (safe_ofOption _ _).bind fun port _ => safe_ok _
  · refine (safe_ofOption _ _).bind fun c hcolon => ?_
    rw [ofOption_eq_ok_iff] at hcolon
    exact Str.safe_around (Str.isBoundary_around_of_rfind rfl hcolon) fun _ _ => safe_ok _

theorem safe_validateHostport (s : Str) : (validateHostport s).Safe := by
  refine (safe_cutHostPort _ _ _ s).bind ?_
  rintro ⟨host, port⟩ -
  dsimp only
  split
  · exact safe_err _
  · exact (safe_ofOption _ _).bind fun _ _ => safe_ok _

theorem safe_parseScheme (ls scheme : Str) : (parseScheme ls scheme).Safe := by
  unfold parseScheme
  split
  · exact safe_ok _
  · split
    · exact safe_ok _
    · exact safe_err _

/-- There is a bind address only if there is a port, so the port that is then expected
is there. -/
theorem safe_buildListener (ls : Str) : (buildListener ls).Safe := by
  refine (safe_parseNode ls).bind fun node _ => ?_
  refine (safe_parseScheme ls node.scheme).bind fun proto _ => ?_
  refine (safe_ofOption _ _).bind fun bind hbind => ?_
  have hport : node.port.isSome = true := by
    obtain ⟨port, hport, -⟩ := Option.map_eq_some_iff.mp (ofOption_eq_ok_iff.mp hbind)
    rw [hport]
    rfl
  refine (safe_expect_iff.mpr hport).bind fun port _ => ?_
  dsimp only
  split
  · exact safe_err _
  · refine (safe_forAll (fun t => ?_) _).bind fun _ _ => safe_ok _
    exact safe_mapErr_iff.mpr (safe_validateHostport t)

theorem safe_buildHop (fwd : Str) : (buildHop fwd).Safe := by
  refine (safe_parseNode fwd).bind fun node _ => ?_
  split
  · exact safe_err _
  · refine (safe_ofOption _ _).bind fun addr _ => ?_
    exact (safe_mapErr_iff.mpr (safe_validateHostport addr)).bind fun _ _ => safe_ok _

theorem safe_crossCheck (listeners : List ListenerSpec) (chain : List ChainHop) (mode : Mode) :
    (crossCheck listeners chain mode).Safe := by
  unfold crossCheck
  split
  · exact safe_err _
  split
  · exact safe_err _
  split
  · exact safe_err _
  · exact safe_ok _

theorem safe_checkBufKb (raw : RawArgs) : (checkBufKb raw).Safe := by
  unfold checkBufKb
  dsimp only
  split
  · exact safe_ok _
  · exact safe_err _

theorem safe_checkMark (raw : RawArgs) : (checkMark raw).Safe := by
  unfold checkMark
  split
  · exact safe_ok _
  split
  · exact safe_err _
  · exact safe_ok _

theorem safe_checkWorkerThreads (raw : RawArgs) : (checkWorkerThreads raw).Safe := by
  unfold checkWorkerThreads
  split
  · exact safe_err _
  · exact safe_ok _

theorem safe_buildConfig (raw : RawArgs) : (buildConfig raw).Safe := by
  unfold buildConfig
  split
  · exact safe_err _
  refine (safe_collect safe_buildListener raw.listens).bind fun listeners _ => ?_
  refine (safe_collect safe_buildHop raw.forwards).bind fun chain _ => ?_
  refine (safe_crossCheck listeners chain _).bind fun _ _ => ?_
  refine (safe_checkBufKb raw).bind fun bufKb _ => ?_
  refine (safe_checkMark raw).bind fun mark _ => ?_
  exact (safe_checkWorkerThreads raw).bind fun _ _ => safe_ok _

/-- A debug build panics on overflow; the size of a buffer was checked before it is
multiplied. -/
theorem mul_lt_of_checkBufKb {raw : RawArgs} {kb : UInt64} (h : checkBufKb raw = .ok kb) :
    kb.toNat * 1024 < 2 ^ 64 := by
  have hle := UInt64.le_iff_toNat_le.mp (Accepted.checkBufKb_eq_ok h).2
  have hmax : (1024 : UInt64).toNat = 1024 := rfl
  omega

/-- **Start-up parsing cannot panic**, whatever the arguments are. Every slice is taken at a
boundary of its string, `decode` ends and indexes in range, and so does the loop over the
arguments; the port is there when it is expected, and the only product does not overflow. -/
theorem startup_safe (args : List Str) :
    (parseArgs args).Safe ∧ (scanAt args (args.length + 1) 0 false {}).Safe ∧
      (∀ raw, (buildConfig raw).Safe) ∧
      ∀ raw kb, checkBufKb raw = .ok kb → kb.toNat * 1024 < 2 ^ 64 := by
  refine ⟨safe_parseArgs args, ?_, safe_buildConfig, fun raw kb => mul_lt_of_checkBufKb⟩
  rw [scanAt_eq (by omega)]
  exact safe_scan false {} args

end Gust
