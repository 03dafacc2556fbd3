import Gust.Nat.Rules

/-!
# The grammar of nft input

The part of nft's documented syntax that a generated ruleset has to follow: a rule is a
sequence of match and statement phrases, and a comment can only be its last element. The
grammar is generous about phrases: any run of words is taken for one, except that
`counter` has only its own two arguments and `comment` never belongs to a phrase. The
results are about this grammar; how an `nft` reads a text is not part of the model here.

A generated rule puts its comment between `counter` and `dnat`, so no generated ruleset
is derivable: `not_derivable_buildRuleset`.
-/

namespace Gust.Nat

open Gust.Lib

/-! ## Tokens -/

inductive Token
  | word (s : Str)
  | quoted (s : Str)
  | lbrace
  | rbrace
  | semi
  | newline
  deriving DecidableEq, Repr

/-- What the scanner is in the middle of. -/
inductive Scan
  | blank
  | word (acc : Str)
  | quoted (acc : Str)
  deriving DecidableEq, Repr

/-- The word that ends before a separator. -/
def Scan.flush : Scan → List Token
  | .word acc => [.word acc]
  | _ => []

/-- The token of a separator, if it is one of its own. -/
def punctuation (c : Char) : List Token :=
  if c = '\x7b' then [.lbrace]
  else if c = '\x7d' then [.rbrace]
  else if c = ';' then [.semi]
  else if c = '\n' then [.newline]
  else []

def isSeparator (c : Char) : Bool := c == ' ' || c == '\t' || !(punctuation c).isEmpty

/-- One character: the scanner's new state and the tokens that are complete. -/
def scanChar (s : Scan) (c : Char) : Scan × List Token :=
  match s with
  | .quoted acc => if c = '"' then (.blank, [.quoted acc]) else (.quoted (acc ++ [c]), [])
  | s =>
      if isSeparator c then (.blank, s.flush ++ punctuation c)
      else if c = '"' then (.quoted [], s.flush)
      else
        match s with
        | .word acc => (.word (acc ++ [c]), [])
        | _ => (.word [c], [])

def scan (s : Scan) : Str → Scan × List Token
  | [] => (s, [])
  | c :: cs =>
      let (s', ts) := scanChar s c
      let (s'', ts') := scan s' cs
      (s'', ts ++ ts')

/-- The tokens of a text; a string has to be closed. -/
def tokens (text : Str) : Option (List Token) :=
  match scan .blank text with
  | (.quoted _, _) => none
  | (s, ts) => some (ts ++ s.flush)

/-! ## Grammar -/

def kw (s : String) : Token := .word s.toList

/-- `counter`, with its optional arguments. -/
inductive Counter : List Token → Prop
  | plain : Counter [kw "counter"]
  | packets (n : Str) : Counter [kw "counter", kw "packets", .word n]
  | bytes (n : Str) : Counter [kw "counter", kw "bytes", .word n]
  | both (m n : Str) : Counter [kw "counter", kw "packets", .word m, kw "bytes", .word n]

/-- A match or a statement. -/
inductive Phrase : List Token → Prop
  | counter {ts : List Token} (h : Counter ts) : Phrase ts
  | words (ws : List Str) (hne : ws ≠ [])
      (h : ∀ w ∈ ws, w ≠ "counter".toList ∧ w ≠ "comment".toList) : Phrase (ws.map .word)

inductive Comment : List Token → Prop
  | absent : Comment []
  | present (s : Str) : Comment [kw "comment", .quoted s]

/-- The phrases of a rule, and its comment. -/
inductive Rule : List Token → Prop
  | mk {phrases : List (List Token)} {comment : List Token} (hne : phrases ≠ [])
      (hphrases : ∀ p ∈ phrases, Phrase p) (hcomment : Comment comment) :
      Rule (phrases.flatten ++ comment)

/-- `type nat hook <hook> priority <priority>; policy <policy>;`. -/
def hookDecl (hook priority policy : Str) : List Token :=
  [kw "type", kw "nat", kw "hook", .word hook, kw "priority", .word priority, .semi,
    kw "policy", .word policy, .semi]

/-- A chain: its hook declaration, followed by rules, one per line. -/
inductive Chain : List Token → Prop
  | mk (name hook priority policy : Str) {rules : List (List Token)}
      (hrules : ∀ r ∈ rules, Rule r) :
      Chain ([kw "chain", .word name, .lbrace, .newline] ++ hookDecl hook priority policy ++
        [.newline] ++ (rules.map fun r => r ++ [.newline]).flatten ++ [.rbrace, .newline])

inductive Table : List Token → Prop
  | mk (family name : Str) {chains : List (List Token)} (hchains : ∀ c ∈ chains, Chain c) :
      Table ([kw "table", .word family, .word name, .lbrace, .newline] ++ chains.flatten ++
        [.rbrace, .newline])

/-- The text is a sequence of table blocks. -/
def Derivable (text : Str) : Prop :=
  ∃ tables : List (List Token), (∀ t ∈ tables, Table t) ∧ tokens text = some tables.flatten

/-! ## A string is the end of its line -/

def Token.isQuoted : Token → Bool
  | .quoted _ => true
  | _ => false

/-- Every string is followed by a newline. -/
structure Closed (ts : List Token) : Prop where
  chain : ts.IsChain fun a b => a.isQuoted = true → b = .newline
  last : ∀ t ∈ ts.getLast?, t.isQuoted = false

theorem closed_of_not_isQuoted {ts : List Token} (h : ∀ t ∈ ts, t.isQuoted = false) :
    Closed ts := by
  refine ⟨?_, fun t ht => h t (List.mem_of_getLast? ht)⟩
  induction ts with
  | nil => exact .nil
  | cons t ts ih =>
      rw [List.isChain_cons]
      refine ⟨?_, ih fun u hu => h u (List.mem_cons_of_mem t hu)⟩
      intro u _ ht
      rw [h t List.mem_cons_self] at ht
      cases ht

theorem Closed.append {as bs : List Token} (ha : Closed as) (hb : Closed bs) :
    Closed (as ++ bs) := by
  refine ⟨?_, ?_⟩
  · rw [List.isChain_append]
    refine ⟨ha.chain, hb.chain, ?_⟩
    intro a hlast b _ hquoted
    rw [ha.last a hlast] at hquoted
    cases hquoted
  · intro t ht
    rw [List.getLast?_append] at ht
    cases hbs : bs.getLast? with
    | none => exact ha.last t (by simpa [hbs] using ht)
    | some b => exact hb.last t (by simpa [hbs] using ht)

theorem closed_flatten {tss : List (List Token)} (h : ∀ ts ∈ tss, Closed ts) :
    Closed tss.flatten := by
  induction tss with
  | nil => exact closed_of_not_isQuoted (by simp)
  | cons ts tss ih =>
      rw [List.flatten_cons]
      exact (h ts List.mem_cons_self).append (ih fun us hus => h us (List.mem_cons_of_mem ts hus))

/-- The grammar accepts a rule whose comment comes last. -/
example : Derivable ("table ip gust \x7b\n chain prerouting \x7b\n".toList ++
    " type nat hook prerouting priority dstnat; policy accept;\n".toList ++
    " tcp dport 8080 counter dnat to 1.2.3.4:443 comment \"gust\"\n \x7d\n\x7d\n".toList) := by
  have hrule : Rule ([[kw "tcp", kw "dport", kw "8080"], [kw "counter"],
      [kw "dnat", kw "to", kw "1.2.3.4:443"]].flatten ++ [kw "comment", .quoted "gust".toList]) := by
    refine .mk (by simp) ?_ (.present _)
    simp only [List.mem_cons, List.not_mem_nil, or_false, forall_eq_or_imp, forall_eq]
    exact ⟨.words ["tcp".toList, "dport".toList, "8080".toList] (by simp) (by decide),
      .counter .plain,
      .words ["dnat".toList, "to".toList, "1.2.3.4:443".toList] (by simp) (by decide)⟩
  have hchain := Chain.mk "prerouting".toList "prerouting".toList "dstnat".toList "accept".toList
    (List.forall_mem_singleton.mpr hrule)
  have htable := Table.mk "ip".toList "gust".toList (List.forall_mem_singleton.mpr hchain)
  exact ⟨_, List.forall_mem_singleton.mpr htable, by decide +kernel⟩

theorem Phrase.not_isQuoted {ts : List Token} (h : Phrase ts) : ∀ t ∈ ts, t.isQuoted = false := by
  cases h with
  | counter h => cases h <;> simp [kw, Token.isQuoted]
  | words ws hne h =>
      intro t ht
      obtain ⟨w, -, rfl⟩ := List.mem_map.mp ht
      rfl

theorem Rule.closed {ts : List Token} (h : Rule ts) : Closed (ts ++ [.newline]) := by
  obtain ⟨-, hphrases, hcomment⟩ := h
  rename_i phrases comment
  have hclosed : Closed phrases.flatten :=
    closed_flatten fun p hp => closed_of_not_isQuoted (hphrases p hp).not_isQuoted
  rw [List.append_assoc]
  refine hclosed.append ?_
  cases hcomment with
  | absent => exact closed_of_not_isQuoted (by simp [Token.isQuoted])
  | present s => exact ⟨by simp [kw, Token.isQuoted], by simp [Token.isQuoted]⟩

theorem Chain.closed {ts : List Token} (h : Chain ts) : Closed ts := by
  obtain ⟨name, hook, priority, policy, hrules⟩ := h
  refine ((closed_of_not_isQuoted ?_).append (closed_flatten ?_)).append
    (closed_of_not_isQuoted ?_)
  · simp [kw, hookDecl, Token.isQuoted]
  · intro line hline
    obtain ⟨r, hr, rfl⟩ := List.mem_map.mp hline
    exact (hrules r hr).closed
  · simp [Token.isQuoted]

theorem Table.closed {ts : List Token} (h : Table ts) : Closed ts := by
  obtain ⟨family, name, hchains⟩ := h
  refine ((closed_of_not_isQuoted ?_).append
    (closed_flatten fun c hc => (hchains c hc).closed)).append (closed_of_not_isQuoted ?_)
  · simp [kw, Token.isQuoted]
  · simp [Token.isQuoted]

/-! ## Scanning a generated table -/

theorem scan_append (s : Scan) (as bs : Str) :
    scan s (as ++ bs) = ((scan (scan s as).1 bs).1, (scan s as).2 ++ (scan (scan s as).1 bs).2) := by
  induction as generalizing s with
  | nil => simp [scan]
  | cons c as ih => simp [scan, ih]

/-- A string is scanned up to its closing quote. -/
theorem scan_quoted {cs : Str} (h : '"' ∉ cs) (acc : Str) :
    scan (.quoted acc) cs = (.quoted (acc ++ cs), []) := by
  induction cs generalizing acc with
  | nil => simp [scan]
  | cons c cs ih =>
      rw [List.mem_cons, not_or] at h
      simp [scan, scanChar, Ne.symm h.1, ih h.2]

/-- A character that only ever continues a word. -/
def isWordChar (c : Char) : Bool := !isSeparator c && c != '"'

theorem scan_word {cs : Str} (h : ∀ c ∈ cs, isWordChar c = true) (acc : Str) :
    scan (.word acc) cs = (.word (acc ++ cs), []) := by
  induction cs generalizing acc with
  | nil => simp [scan]
  | cons c cs ih =>
      have hc := h c List.mem_cons_self
      simp only [isWordChar, Bool.and_eq_true, Bool.not_eq_true', bne_iff_ne] at hc
      simp [scan, scanChar, hc.1, hc.2, ih fun d hd => h d (List.mem_cons_of_mem c hd)]

theorem isWordChar_of_isDigit {c : Char} (h : c.isDigit = true) : isWordChar c = true := by
  have hne : ∀ d : Char, d.isDigit = false → c ≠ d := by
    rintro d hd rfl
    rw [h] at hd
    cases hd
  simp [isWordChar, isSeparator, punctuation, hne ' ' rfl, hne '\t' rfl, hne '\x7b' rfl,
    hne '\x7d' rfl, hne ';' rfl, hne '\n' rfl, hne '"' rfl]

/-- A number behind a blank is a word in progress. -/
theorem scan_blank_ofNat (n : ℕ) : scan .blank (Str.ofNat n) = (.word (Str.ofNat n), []) := by
  have hword : ∀ c ∈ Str.ofNat n, isWordChar c = true :=
    fun c hc => isWordChar_of_isDigit (Str.isDigit_of_mem_ofNat hc)
  cases hdigits : Str.ofNat n with
  | nil => exact absurd hdigits Nat.toDigits_ne_nil
  | cons c cs =>
      rw [hdigits] at hword
      have hc := hword c List.mem_cons_self
      simp only [isWordChar, Bool.and_eq_true, Bool.not_eq_true', bne_iff_ne] at hc
      have hcs := scan_word (fun d hd => hword d (List.mem_cons_of_mem c hd)) [c]
      simp [scan, scanChar, hc.1, hc.2, hcs]

theorem scan_word_cons_blank (w cs : Str) :
    scan (.word w) (' ' :: cs) = ((scan .blank cs).1, .word w :: (scan .blank cs).2) := rfl

theorem scan_quoted_cons_quote (acc cs : Str) :
    scan (.quoted acc) ('"' :: cs) = ((scan .blank cs).1, .quoted acc :: (scan .blank cs).2) := rfl

/-- The text of a table up to the port of its first rule. -/
def firstRuleHead (f : Family) (proto : Protocol) : Str :=
  tableHead f.asStr ++ "        ".toList ++ protoStr proto ++ " dport ".toList

theorem scan_firstRuleHead (f : Family) (proto : Protocol) :
    (scan .blank (firstRuleHead f proto)).1 = .blank := by
  cases f <;> cases proto <;> rfl

theorem buildTable_eq (f : Family) (r : NatRule) (rs : List NatRule) :
    buildTable f.asStr (r :: rs) = firstRuleHead f r.proto ++ (Str.ofNat r.dport.toNat ++
      (" counter comment \"".toList ++ (r.comment ++ ("\" dnat to ".toList ++
        (formatDest r.destIp r.destPort ++ (['\n'] ++ (rs.flatMap ruleLine ++ tableFoot))))))) := by
  have hline : ruleLine r = "        ".toList ++ protoStr r.proto ++ " dport ".toList ++
      Str.ofNat r.dport.toNat ++ " counter comment \"".toList ++ r.comment ++
      "\" dnat to ".toList ++ formatDest r.destIp r.destPort ++ ['\n'] := by
    unfold ruleLine
    with_reducible rfl
  simp only [buildTable, firstRuleHead]
  rw [List.flatMap_cons, hline]
  -- only the grouping differs; the literals would be evaluated otherwise
  generalize "        ".toList = indent, " dport ".toList = dport,
    " counter comment \"".toList = comment, "\" dnat to ".toList = dnat,
    Str.ofNat r.dport.toNat = port
  simp only [List.append_assoc]

/-- The comment of the first rule is followed by `dnat`. -/
theorem scan_buildTable {r : NatRule} (h : '"' ∉ r.comment) (f : Family) (rs : List NatRule)
    (rest : Str) : ∃ pre post, (scan .blank (buildTable f.asStr (r :: rs) ++ rest)).2 =
      pre ++ .quoted r.comment :: kw "dnat" :: post := by
  have hcomment : ∀ w, scan (.word w) " counter comment \"".toList =
      (.quoted [], [.word w, kw "counter", kw "comment"]) := by
    intro w
    have hblank : scan .blank "counter comment \"".toList =
        (.quoted [], [kw "counter", kw "comment"]) := by decide
    have hcons : " counter comment \"".toList = ' ' :: "counter comment \"".toList := by decide
    rw [hcons, scan_word_cons_blank, hblank]
  have hdnat : ∀ acc, scan (.quoted acc) "\" dnat to ".toList =
      (.blank, [.quoted acc, kw "dnat", kw "to"]) := by
    intro acc
    have hblank : scan .blank " dnat to ".toList = (.blank, [kw "dnat", kw "to"]) := by decide
    have hcons : "\" dnat to ".toList = '"' :: " dnat to ".toList := by decide
    rw [hcons, scan_quoted_cons_quote, hblank]
  rw [buildTable_eq]
  simp only [List.append_assoc, scan_append, scan_firstRuleHead, scan_blank_ofNat, hcomment,
    scan_quoted h, hdnat, List.nil_append]
  have hregroup : ∀ (as bs : List Token) (w : Token), as ++ ([w, kw "counter", kw "comment"] ++
      ([.quoted r.comment, kw "dnat", kw "to"] ++ bs)) =
      (as ++ [w, kw "counter", kw "comment"]) ++ .quoted r.comment :: kw "dnat" ::
        kw "to" :: bs := by
    simp
  exact ⟨_, _, hregroup _ _ _⟩

/-- A quoted string that is followed by a word is not closed. -/
theorem not_closed_quoted_word {pre post : List Token} {s : Str} {w : String} :
    ¬ Closed (pre ++ .quoted s :: kw w :: post) := by
  intro h
  have hchain := h.chain
  rw [List.isChain_append, List.isChain_cons_cons] at hchain
  have hnewline := hchain.2.1.1 rfl
  simp [kw] at hnewline

theorem not_derivable_of_scan {text : Str} {pre post : List Token} {s : Str} {w : String}
    (h : (scan .blank text).2 = pre ++ .quoted s :: kw w :: post) : ¬ Derivable text := by
  rintro ⟨tables, htables, htokens⟩
  have hclosed := closed_flatten fun t ht => (htables t ht).closed
  obtain ⟨post', hflatten⟩ : ∃ post', tables.flatten = pre ++ .quoted s :: kw w :: post' := by
    simp only [tokens] at htokens
    split at htokens
    · cases htokens
    · rename_i hscan
      rw [Option.some.injEq] at htokens
      simp only [hscan] at h
      exact ⟨_, by rw [← htokens, h]; simp; rfl⟩
  rw [hflatten] at hclosed
  exact not_closed_quoted_word hclosed

/-- Some table is written, and its first rule already breaks the grammar. -/
theorem not_derivable_of_comments {rules : List NatRule} (hne : rules ≠ [])
    (hcomment : ∀ r ∈ rules, '"' ∉ r.comment) : ¬ Derivable (buildRuleset rules) := by
  have hmem : ∀ f r rs, rulesOf rules f = r :: rs → '"' ∉ r.comment := by
    intro f r rs hrules
    rw [rulesOf_eq_filter] at hrules
    have hr : r ∈ rules.filter fun r => familyOf r.destIp == f := hrules ▸ List.mem_cons_self
    exact hcomment r (List.mem_filter.mp hr).1
  simp only [buildRuleset]
  cases h4 : rulesOf rules .ip with
  | cons r rs =>
      rw [List.isEmpty_cons, if_neg Bool.false_ne_true]
      obtain ⟨pre, post, hscan⟩ := scan_buildTable (hmem .ip r rs h4) .ip rs
        (if (rulesOf rules .ip6).isEmpty then []
          else buildTable Family.ip6.asStr (rulesOf rules .ip6))
      exact not_derivable_of_scan hscan
  | nil =>
      cases h6 : rulesOf rules .ip6 with
      | cons r rs =>
          rw [List.isEmpty_cons, if_neg Bool.false_ne_true, List.isEmpty_nil, if_pos rfl,
            List.nil_append]
          obtain ⟨pre, post, hscan⟩ := scan_buildTable (hmem .ip6 r rs h6) .ip6 rs []
          rw [List.append_nil] at hscan
          exact not_derivable_of_scan hscan
      | nil =>
          obtain ⟨r, hr⟩ := List.exists_mem_of_ne_nil rules hne
          have hmem : r ∈ rulesOf rules (familyOf r.destIp) := by
            rw [rulesOf_eq_filter]
            exact List.mem_filter.mpr ⟨hr, by simp⟩
          cases hf : familyOf r.destIp with
          | ip => simp [hf, h4] at hmem
          | ip6 => simp [hf, h6] at hmem

/-- **No generated ruleset is derivable**, whatever the configuration. -/
theorem not_derivable_buildRuleset (lookup : Lookup) (cfg : Config) {rules : List NatRule}
    (h : buildRules lookup cfg = .ok rules) (hne : rules ≠ []) :
    ¬ Derivable (buildRuleset rules) := by
  refine not_derivable_of_comments hne ?_
  intro r hr
  obtain ⟨i, l, -, t, host, port, ip, -, -, -, rfl⟩ := exists_listener_of_rule h hr
  intro hquote
  exact absurd (isCommentChar_of_mem_comment hquote) (by decide)

/-- A UDP listener with an IPv6 target. -/
theorem not_derivable_udp_ip6 :
    ∃ cfg rules, buildConfig { listens := ["udp://:5353/[2001:db8::1]:53".toList], nat := true } =
        .ok cfg ∧ buildRules (fun _ _ => .ok []) cfg = .ok rules ∧
      ¬ Derivable (buildRuleset rules) := by
  obtain ⟨cfg, rules, hcfg, hrules, hne⟩ : ∃ cfg rules, buildConfig
      { listens := ["udp://:5353/[2001:db8::1]:53".toList], nat := true } = .ok cfg ∧
      buildRules (fun _ _ => .ok []) cfg = .ok rules ∧ rules ≠ [] :=
    ⟨_, _, rfl, rfl, List.cons_ne_nil _ _⟩
  exact ⟨cfg, rules, hcfg, hrules, not_derivable_buildRuleset _ cfg hrules hne⟩

/-- The ruleset of the README's example line is not derivable. -/
theorem not_derivable_tcp_ip :
    ∃ cfg rules, buildConfig { listens := ["tcp://:8080/1.2.3.4:443".toList], nat := true } =
        .ok cfg ∧ buildRules (fun _ _ => .ok []) cfg = .ok rules ∧ rules ≠ [] ∧
      ¬ Derivable (buildRuleset rules) :=
  ⟨_, _, rfl, rfl, List.cons_ne_nil _ _,
    not_derivable_of_comments (List.cons_ne_nil _ _) (by decide)⟩

end Gust.Nat
