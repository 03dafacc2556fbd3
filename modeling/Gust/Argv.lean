import Mathlib.Data.List.TakeWhile
import Gust.Cli

/-!
# What the scanner accepts

`parseArgs_spelled` starts from a command line that is spelled as documented. Here the
scan is inverted: whatever list of arguments it accepts is a sequence of occurrences, each
behind some dashes, with a lone `--` at the end or none (`scan_eq_ok_run`), and the raw
values are those of the occurrences.

The documentation promises one dash or two. The scanner strips every leading dash, so the
accepted lists that are not spelled as documented are those with three dashes in front of
a flag (`documented_iff`).
-/

namespace Gust

open Gust.Lib

/-- The arguments are these occurrences, one behind the other, with or without a `--` at
the end. -/
def Reads (D : Str → Prop) (occs : List Occurrence) (args : List Str) : Prop :=
  ∃ texts, List.Forall₂ (SpelledBehind D) occs texts ∧
    (args = texts.flatten ∨ args = texts.flatten ++ ["--".toList])

namespace Reads

variable {D : Str → Prop} {o : Occurrence} {occs : List Occurrence} {args text : List Str}

theorem nil : Reads D [] [] := ⟨[], .nil, .inl rfl⟩

theorem endOfFlags : Reads D [] ["--".toList] := ⟨[], .nil, .inr rfl⟩

theorem cons (ho : SpelledBehind D o text) (h : Reads D occs args) :
    Reads D (o :: occs) (text ++ args) := by
  obtain ⟨texts, hspelled, rfl | rfl⟩ := h
  · exact ⟨text :: texts, .cons ho hspelled, .inl rfl⟩
  · refine ⟨text :: texts, .cons ho hspelled, .inr ?_⟩
    rw [List.flatten_cons, List.append_assoc]

/-- Induction along the command line. -/
theorem rec_on {P : List Occurrence → List Str → Prop} (h : Reads D occs args) (hnil : P [] [])
    (hend : P [] ["--".toList])
    (hcons : ∀ {o text occs args}, SpelledBehind D o text → Reads D occs args → P occs args →
      P (o :: occs) (text ++ args)) : P occs args := by
  obtain ⟨texts, hspelled, hargs⟩ := h
  induction hspelled generalizing args with
  | nil =>
      rcases hargs with rfl | rfl
      · exact hnil
      · exact hend
  | @cons o text occs texts ho hspelled ih =>
      rcases hargs with rfl | rfl
      · exact hcons ho ⟨texts, hspelled, .inl rfl⟩ (ih (.inl rfl))
      · rw [List.flatten_cons, List.append_assoc]
        exact hcons ho ⟨texts, hspelled, .inr rfl⟩ (ih (.inr rfl))

end Reads

/-! ## One argument -/

/-- Every name in the table is the name of its flag. -/
theorem flagTable_names : ∀ p ∈ flagTable,
    (∀ f, p.2 = .value f → p.1 = f.name) ∧ ∀ f, p.2 = .bool f → p.1 ∈ f.names := by
  have hall : flagTable.all (fun p =>
      match p.2 with
      | .value f => p.1 == f.name
      | .bool f => f.names.contains p.1
      | _ => true) = true := by decide
  intro p hp
  have h := List.all_eq_true.mp hall p hp
  refine ⟨?_, ?_⟩
  · intro f hf
    simpa [hf] using h
  · intro f hf
    simpa [hf] using h

theorem mem_flagTable_of_lookup {name : Str} {flag : Flag} (h : flagTable.lookup name = some flag) :
    (name, flag) ∈ flagTable := by
  obtain ⟨l₁, l₂, heq, -⟩ := List.lookup_eq_some_iff.mp h
  rw [heq]
  exact List.mem_append_right l₁ List.mem_cons_self

/-- What follows the name of a flag inside its argument. -/
def inlineText : Option Str → Str
  | none => []
  | some v => '=' :: v

theorem splitInline_eq_ok {body name : Str} {inline : Option Str}
    (h : splitInline body = .ok (name, inline)) : body = name ++ inlineText inline := by
  unfold splitInline at h
  split at h
  · rename_i i hfind
    obtain ⟨pre, post, rfl, rfl, -⟩ := Str.find_delim_iff.mp hfind
    have hsize : '='.utf8Size = 1 := rfl
    rw [Str.sliceTo_append, Str.sliceFrom_append_cons _ _ hsize, Outcome.ok_bind, Outcome.ok_bind,
      Outcome.pure_eq_ok, Outcome.ok.injEq, Prod.mk.injEq] at h
    obtain ⟨rfl, rfl⟩ := h
    rfl
  · rw [Outcome.ok.injEq, Prod.mk.injEq] at h
    obtain ⟨rfl, rfl⟩ := h
    exact (List.append_nil body).symm

/-- An argument that the scanner takes for a flag has dashes, a name from the table and
perhaps a value. -/
theorem readFlag_eq_ok {arg : Str} {token : Token} (h : readFlag arg = .ok token) :
    (arg = "--".toList ∧ token = .endOfFlags) ∨
      ∃ d name inline flag, DashRun d ∧ arg = d ++ (name ++ inlineText inline) ∧
        (name, flag) ∈ flagTable ∧ token = flag.token name inline := by
  unfold readFlag at h
  by_cases hpos : arg.head? ≠ some '-' ∨ arg = "-".toList
  · rw [if_pos hpos] at h
    cases h
  rw [if_neg hpos] at h
  by_cases hend : arg = "--".toList
  · rw [if_pos hend, Outcome.ok.injEq] at h
    exact .inl ⟨hend, h.symm⟩
  rw [if_neg hend, Outcome.bind_eq_ok_iff] at h
  obtain ⟨⟨name, inline⟩, hsplit, h⟩ := h
  have hrun : DashRun (arg.takeWhile (· == '-')) := by
    refine ⟨?_, ?_⟩
    · have hhead : arg.head? = some '-' := by_contra fun hne => hpos (.inl hne)
      obtain ⟨c, arg, rfl⟩ := List.exists_cons_of_ne_nil (l := arg) (by rintro rfl; cases hhead)
      obtain rfl : c = '-' := by simpa using hhead
      simp
    · intro c hc
      simpa using List.mem_takeWhile_imp hc
  have harg : arg = arg.takeWhile (· == '-') ++ (name ++ inlineText inline) := by
    rw [← splitInline_eq_ok hsplit, List.takeWhile_append_dropWhile]
  simp only at h
  cases hlookup : flagTable.lookup name with
  | none =>
      rw [hlookup] at h
      cases h
  | some flag =>
      rw [hlookup, Outcome.ok.injEq] at h
      exact .inr ⟨_, name, inline, flag, hrun, harg, mem_flagTable_of_lookup hlookup, h.symm⟩

/-! ## The scan, inverted -/

theorem setValue_eq_ok {raw raw' : RawArgs} {f : ValueFlag} {v : Str}
    (h : setValue raw v f = .ok raw') :
    (Occurrence.value f v).Parsable ∧ raw' = (Occurrence.value f v).store raw := by
  by_cases hv : (Occurrence.value f v).Parsable
  · rw [setValue_of_parsable raw hv, Outcome.ok.injEq] at h
    exact ⟨hv, h.symm⟩
  · obtain ⟨e, he⟩ := setValue_of_not_parsable raw hv
    rw [he] at h
    cases h

theorem parseBool_eq_ok {name : Str} {inline : Option Str} {b : Bool}
    (h : parseBool name inline = .ok b) : boolValue inline = some b := by
  obtain ⟨e, he⟩ := parseBool_eq name inline
  rwa [he, Outcome.ofOption_eq_ok_iff] at h

theorem setBool_eq_store {inline : Option Str} {b : Bool} (h : boolValue inline = some b)
    (raw : RawArgs) (f : BoolFlag) : setBool raw b f = (Occurrence.bool f inline).store raw := by
  cases f <;> simp [setBool, Occurrence.store, h]

theorem finish_eq_run {raw raw' : RawArgs} (h : finish raw = .run raw') : raw' = raw := by
  unfold finish at h
  split at h
  · cases h
  · split at h
    · cases h
    · cases h
      rfl

/-- Behind a `--` nothing is accepted. -/
theorem scan_true_eq_ok_run {raw raw' : RawArgs} {args : List Str}
    (h : scan true raw args = .ok (.run raw')) : args = [] ∧ raw' = raw := by
  cases args with
  | nil =>
      rw [scan, Outcome.ok.injEq] at h
      exact ⟨rfl, finish_eq_run h⟩
  | cons arg args =>
      simp only [scan, if_true, reduceCtorEq] at h

/-- An accepted scan reads one occurrence and goes on behind it, or ends with a `--`. -/
theorem scan_cons_eq_ok_run {arg : Str} {args : List Str} {raw raw' : RawArgs}
    (h : scan false raw (arg :: args) = .ok (.run raw')) :
    (arg = "--".toList ∧ args = [] ∧ raw' = raw) ∨
      ∃ o text rest, SpelledBehind DashRun o text ∧ o.Parsable ∧ arg :: args = text ++ rest ∧
        scan false (o.store raw) rest = .ok (.run raw') := by
  simp only [scan, Bool.false_eq_true, if_false] at h
  cases hread : readFlag arg with
  | err e => simp only [hread, reduceCtorEq] at h
  | panic => simp only [hread, reduceCtorEq] at h
  | ok token =>
      rw [hread] at h
      obtain ⟨rfl, rfl⟩ | ⟨d, name, inline, flag, hd, rfl, hmem, rfl⟩ := readFlag_eq_ok hread
      · obtain ⟨rfl, rfl⟩ := scan_true_eq_ok_run h
        exact .inl ⟨rfl, rfl, rfl⟩
      refine .inr ?_
      obtain ⟨hvalue, hbool⟩ := flagTable_names _ hmem
      cases flag with
      | help => cases h
      | version => cases h
      | bool f =>
          replace hbool := hbool f rfl
          simp only [Flag.token, Outcome.bind_eq_ok_iff] at h
          obtain ⟨b, hb, h⟩ := h
          replace hb := parseBool_eq_ok hb
          rw [setBool_eq_store hb] at h
          have hparsable : (Occurrence.bool f inline).Parsable :=
            Option.isSome_iff_exists.mpr ⟨b, hb⟩
          cases inline with
          | none =>
              rw [inlineText, List.append_nil]
              exact ⟨_, _, args, .bare f hd hbool, hparsable, rfl, h⟩
          | some v => exact ⟨_, _, args, .boolInline f v hd hbool, hparsable, rfl, h⟩
      | value f =>
          obtain rfl := hvalue f rfl
          cases inline with
          | some v =>
              simp only [Flag.token, Outcome.bind_eq_ok_iff] at h
              obtain ⟨raw₁, hset, h⟩ := h
              obtain ⟨hparsable, rfl⟩ := setValue_eq_ok hset
              exact ⟨_, _, args, .inline f v hd, hparsable, rfl, h⟩
          | none =>
              cases args with
              | nil => cases h
              | cons v args =>
                  simp only [Flag.token, Outcome.bind_eq_ok_iff] at h
                  obtain ⟨raw₁, hset, h⟩ := h
                  obtain ⟨hparsable, rfl⟩ := setValue_eq_ok hset
                  rw [inlineText, List.append_nil]
                  exact ⟨_, _, args, .separate f v hd, hparsable, rfl, h⟩

theorem SpelledBehind.length_pos {D : Str → Prop} {o : Occurrence} {text : List Str}
    (h : SpelledBehind D o text) : 0 < text.length := by
  cases h <;> simp

/-- What the scanner accepts is a sequence of occurrences, and it stores them in turn. -/
theorem scan_eq_ok_run {args : List Str} {raw raw' : RawArgs}
    (h : scan false raw args = .ok (.run raw')) :
    ∃ occs, Reads DashRun occs args ∧ (∀ o ∈ occs, o.Parsable) ∧
      raw' = occs.foldl Occurrence.store raw := by
  -- by the length of the rest, as a value may take an argument of its own
  induction hn : args.length using Nat.strong_induction_on generalizing args raw with
  | _ n ih =>
      cases args with
      | nil =>
          rw [scan, Outcome.ok.injEq] at h
          exact ⟨[], .nil, by simp, finish_eq_run h⟩
      | cons arg args =>
          obtain ⟨rfl, rfl, rfl⟩ | ⟨o, text, rest, ho, hparsable, hargs, hrest⟩ :=
            scan_cons_eq_ok_run h
          · exact ⟨[], .endOfFlags, by simp, rfl⟩
          have hlt : rest.length < n := by
            have hpos := ho.length_pos
            rw [hargs, List.length_append] at hn
            omega
          obtain ⟨occs, hreads, hall, rfl⟩ := ih rest.length hlt hrest rfl
          rw [hargs]
          exact ⟨o :: occs, .cons ho hreads, List.forall_mem_cons.mpr ⟨hparsable, hall⟩, rfl⟩

/-- Any reading of an accepted command line gives the raw values. -/
theorem scan_of_reads {occs : List Occurrence} {args : List Str} (h : Reads DashRun occs args)
    {raw raw' : RawArgs} (hscan : scan false raw args = .ok (.run raw')) :
    (∀ o ∈ occs, o.Parsable) ∧ raw' = occs.foldl Occurrence.store raw := by
  refine h.rec_on (P := fun occs args => ∀ {raw}, scan false raw args = .ok (.run raw') →
    (∀ o ∈ occs, o.Parsable) ∧ raw' = occs.foldl Occurrence.store raw) ?_ ?_ ?_ hscan
  · intro raw hscan
    rw [scan, Outcome.ok.injEq] at hscan
    exact ⟨by simp, finish_eq_run hscan⟩
  · intro raw hscan
    obtain ⟨-, rfl⟩ := scan_true_eq_ok_run hscan
    exact ⟨by simp, rfl⟩
  · intro o text occs args ho _ ih raw hscan
    obtain ⟨hok, herr⟩ := scan_spelledBehind ho raw args
    by_cases hparsable : o.Parsable
    · rw [hok hparsable] at hscan
      obtain ⟨hall, hraw⟩ := ih hscan
      exact ⟨List.forall_mem_cons.mpr ⟨hparsable, hall⟩, hraw⟩
    · obtain ⟨e, he⟩ := herr hparsable
      rw [he] at hscan
      cases hscan

/-- An accepted command line can be read, and every reading gives its raw values. -/
theorem parseArgs_eq_ok_run {args : List Str} {raw : RawArgs}
    (h : parseArgs args = .ok (.run raw)) :
    (∃ occs, Reads DashRun occs args) ∧
      ∀ {occs}, Reads DashRun occs args → (∀ o ∈ occs, o.Parsable) ∧ raw = rawOf occs := by
  refine ⟨?_, ?_⟩
  · obtain ⟨occs, hreads, -⟩ := scan_eq_ok_run h
    exact ⟨occs, hreads⟩
  · intro occs hreads
    rw [← foldl_store]
    exact scan_of_reads hreads h

/-! ## Three dashes -/

/-- The flags that require a value. -/
def valueFlags : List ValueFlag :=
  [.L, .F, .M, .bufSizeKb, .heartbeatSecs, .workerThreads, .soRcvbuf, .soSndbuf]

/-- The argument is the bare name of a flag that requires a value, so that the next one is
the value. -/
def takesNext (arg : Str) : Bool :=
  valueFlags.any fun f => arg.dropWhile (· == '-') == f.name

/-- The arguments that stand where a flag is expected. -/
def flagArgs : List Str → List Str
  | [] => []
  | arg :: args =>
      arg :: if takesNext arg then
        match args with
        | [] => []
        | _ :: args => flagArgs args
      else flagArgs args

theorem flagArgs_cons {arg : Str} (h : takesNext arg = false) (args : List Str) :
    flagArgs (arg :: args) = arg :: flagArgs args := by
  cases args <;> simp [flagArgs, h]

theorem mem_valueFlags (f : ValueFlag) : f ∈ valueFlags := by
  cases f <;> decide

theorem takesNext_append {d body : Str} (hd : DashRun d) (hhead : body.head? ≠ some '-') :
    takesNext (d ++ body) = true ↔ ∃ f : ValueFlag, body = f.name := by
  simp only [takesNext, hd.dropWhile_append hhead, List.any_eq_true, beq_iff_eq]
  constructor
  · rintro ⟨f, -, hf⟩
    exact ⟨f, hf⟩
  · rintro ⟨f, hf⟩
    exact ⟨f, mem_valueFlags f, hf⟩

/-- A text with a `=` in it is not the name of a flag. -/
theorem ValueFlag.append_inline_ne (name v : Str) (f : ValueFlag) : name ++ '=' :: v ≠ f.name := by
  intro h
  have hfree := f.lookup_name.2.2.2 '=' (by rw [← h]; simp)
  cases hfree

theorem BoolFlag.name_ne {g : BoolFlag} {name : Str} (h : name ∈ g.names) (f : ValueFlag) :
    name ≠ f.name := by
  rintro rfl
  have hlookup := (g.lookup_names _ h).1
  rw [f.lookup_name.1] at hlookup
  cases hlookup

theorem takesNext_inline {d name : Str} (hd : DashRun d) (hplain : PlainName name) (v : Str) :
    takesNext (d ++ (name ++ '=' :: v)) = false := by
  rw [Bool.eq_false_iff, Ne, takesNext_append hd (hplain.append _).2]
  rintro ⟨f, hf⟩
  exact f.append_inline_ne name v hf

/-- Of an occurrence only the first argument stands where a flag is expected. It is dashes
and something that starts with none. -/
theorem SpelledBehind.flagArgs_append {D : Str → Prop} {o : Occurrence} {text : List Str}
    (h : SpelledBehind D o text) (hD : ∀ d, D d → DashRun d) :
    ∃ d body, D d ∧ body.head? ≠ some '-' ∧
      (∀ E : Str → Prop, E d → SpelledBehind E o text) ∧
      ∀ args, flagArgs (text ++ args) = (d ++ body) :: flagArgs args := by
  cases h with
  | @inline d f v hd =>
      have hplain := f.lookup_name.2
      refine ⟨d, f.name ++ '=' :: v, hd, (hplain.append _).2, fun E hE => .inline f v hE, ?_⟩
      intro args
      rw [List.singleton_append, flagArgs_cons (takesNext_inline (hD d hd) hplain v)]
  | @separate d f v hd =>
      have hplain := f.lookup_name.2
      refine ⟨d, f.name, hd, hplain.2.1, fun E hE => .separate f v hE, ?_⟩
      intro args
      have htakes : takesNext (d ++ f.name) = true :=
        (takesNext_append (hD d hd) hplain.2.1).mpr ⟨f, rfl⟩
      rw [List.cons_append, List.singleton_append, flagArgs, if_pos htakes]
  | @bare d name f hd hname =>
      have hplain := (f.lookup_names name hname).2
      refine ⟨d, name, hd, hplain.2.1, fun E hE => .bare f hE hname, ?_⟩
      intro args
      have htakes : takesNext (d ++ name) = false := by
        rw [Bool.eq_false_iff, Ne, takesNext_append (hD d hd) hplain.2.1]
        rintro ⟨g, hg⟩
        exact BoolFlag.name_ne hname g hg
      rw [List.singleton_append, flagArgs_cons htakes]
  | @boolInline d name f v hd hname =>
      have hplain := (f.lookup_names name hname).2
      refine ⟨d, name ++ '=' :: v, hd, (hplain.append _).2, fun E hE => .boolInline f v hE hname, ?_⟩
      intro args
      rw [List.singleton_append, flagArgs_cons (takesNext_inline (hD d hd) hplain v)]

/-- A run of dashes is one dash or two unless there are three. -/
theorem dashes_iff {d body : Str} (hd : DashRun d) (hhead : body.head? ≠ some '-') :
    Dashes d ↔ ¬ "---".toList <+: d ++ body := by
  have hthree : "---".toList = ['-', '-', '-'] := rfl
  have hrep : d = List.replicate d.length '-' := List.eq_replicate_iff.mpr ⟨rfl, hd.2⟩
  have hpos : 0 < d.length := List.length_pos_iff.mpr hd.1
  rw [hthree]
  constructor
  · rintro (rfl | rfl) ⟨t, ht⟩
    · simp only [List.cons_append, List.nil_append, List.cons.injEq, true_and] at ht
      exact hhead (by rw [← ht]; rfl)
    · simp only [List.cons_append, List.nil_append, List.cons.injEq, true_and] at ht
      exact hhead (by rw [← ht]; rfl)
  · intro hno
    by_contra hdashes
    have hlen : 3 ≤ d.length := by
      by_contra hlt
      obtain hone | htwo : d.length = 1 ∨ d.length = 2 := by omega
      · exact hdashes (.inl (by rw [hrep, hone]; rfl))
      · exact hdashes (.inr (by rw [hrep, htwo]; rfl))
    obtain ⟨k, hk⟩ := Nat.exists_eq_add_of_le hlen
    refine hno ⟨List.replicate k '-' ++ body, ?_⟩
    have hsplit : d = ['-', '-', '-'] ++ List.replicate k '-' := by
      rw [hrep, hk, List.replicate_add]
      rfl
    rw [hsplit, List.append_assoc]

/-- A reading has at most two dashes before each flag if no flag has three. -/
theorem Reads.dashes {occs : List Occurrence} {args : List Str} (h : Reads DashRun occs args)
    (hno : ∀ arg ∈ flagArgs args, ¬ "---".toList <+: arg) : Reads Dashes occs args := by
  refine h.rec_on (P := fun occs args => (∀ arg ∈ flagArgs args, ¬ "---".toList <+: arg) →
    Reads Dashes occs args) (fun _ => .nil) (fun _ => .endOfFlags) ?_ hno
  intro o text occs args ho _ ih hno
  obtain ⟨d, body, hd, hhead, hrespell, hflags⟩ := ho.flagArgs_append fun _ => id
  rw [hflags, List.forall_mem_cons] at hno
  exact .cons (hrespell _ ((dashes_iff hd hhead).mpr hno.1)) (ih hno.2)

theorem Reads.no_three_dashes {occs : List Occurrence} {args : List Str}
    (h : Reads Dashes occs args) : ∀ arg ∈ flagArgs args, ¬ "---".toList <+: arg := by
  refine h.rec_on (P := fun _ args => ∀ arg ∈ flagArgs args, ¬ "---".toList <+: arg) ?_ ?_ ?_
  · simp [flagArgs]
  · decide
  · intro o text occs args ho _ ih
    obtain ⟨d, body, hd, hhead, -, hflags⟩ := ho.flagArgs_append fun _ => Dashes.dashRun
    rw [hflags, List.forall_mem_cons]
    exact ⟨(dashes_iff hd.dashRun hhead).mp hd, ih⟩

/-- The command line is a sequence of occurrences in the documented forms, apart from a
lone `--` at the end, with values that can be parsed, and `raw` is what they stand for. -/
def Documented (args : List Str) (raw : RawArgs) : Prop :=
  ∃ occs texts, List.Forall₂ Spelled occs texts ∧
    (args = texts.flatten ∨ args = texts.flatten ++ ["--".toList]) ∧
    (∀ o ∈ occs, o.Parsable) ∧ raw = rawOf occs

/-- **What is accepted is documented, up to the number of dashes.** An accepted command
line consists of documented forms, and of nothing else, exactly if no argument that stands
where a flag is expected starts with three dashes. -/
theorem documented_iff {args : List Str} {raw : RawArgs} (h : parseArgs args = .ok (.run raw)) :
    Documented args raw ↔ ∀ arg ∈ flagArgs args, ¬ "---".toList <+: arg := by
  obtain ⟨⟨occs, hreads⟩, hraw⟩ := parseArgs_eq_ok_run h
  constructor
  · rintro ⟨occs, texts, hspelled, hargs, -⟩
    exact Reads.no_three_dashes ⟨texts, hspelled, hargs⟩
  · intro hno
    obtain ⟨texts, hspelled, hargs⟩ := hreads.dashes hno
    exact ⟨occs, texts, hspelled, hargs, hraw hreads⟩

/-- Dashes inside a value are the value's own. -/
theorem documented_dashed_value :
    Documented ["-L".toList, "---nat".toList, "--nat=on".toList, "--".toList]
      { listens := ["---nat".toList], nat := true } := by
  have hrun : parseArgs ["-L".toList, "---nat".toList, "--nat=on".toList, "--".toList] =
      .ok (.run { listens := ["---nat".toList], nat := true }) := rfl
  exact (documented_iff hrun).mpr (by decide)

/-- `---nat` is taken for `--nat`. -/
theorem not_documented_three_dashes :
    parseArgs ["---nat".toList] = .ok (.run { nat := true }) ∧
      ¬ Documented ["---nat".toList] { nat := true } := by
  have hrun : parseArgs ["---nat".toList] = .ok (.run { nat := true }) := rfl
  refine ⟨hrun, ?_⟩
  rintro ⟨occs, texts, hspelled, hargs, -⟩
  have hno := Reads.no_three_dashes ⟨texts, hspelled, hargs⟩
  exact hno "---nat".toList (by decide) (by decide)

end Gust
