import CrowCore.RoutingTrieBuild
import CrowCore.RoutingTrieSearch

set_option autoImplicit false

/-!
# `find` against the rule patterns

`Takes` and `Matches` say what a rule url means, without a trie: a literal
stands for itself, a parameter takes a run of the url. `find` returns the least
index of the rules that match the whole url, and that rule's values.
-/
namespace CrowCore.RoutingTrieCorrect
open RoutingTrie RoutingTrieSearch RoutingTrieBuild

variable {D : Type}

/-- `strto*` accepts the run at the front of the text: the code admits the first
character, and the parser stops after the run without `ERANGE`. -/
structure Accepts {α : Type} (starts : Char → Bool) (strto : Text → StrtoResult α)
    (run rest : Text) (value : α) : Prop where
  first : ∃ c cs, run = c :: cs ∧ starts c
  in_range : (strto (run ++ rest)).erange = false
  stops : (strto (run ++ rest)).eptr = run.length
  value_eq : (strto (run ++ rest)).value = value

/-- A parameter takes `run` from the url and leaves `rest`. -/
inductive Takes (P : NumberParsers D) : ParamType → Text → Text → Value D → Prop where
  | int {run rest : Text} {v : Int64}
      (h : Accepts (fun c => isDigit c || c == '+' || c == '-') P.strtoll run rest v) :
      Takes P .int run rest (.int v)
  | uint {run rest : Text} {v : UInt64}
      (h : Accepts (fun c => isDigit c || c == '+') P.strtoull run rest v) :
      Takes P .uint run rest (.uint v)
  | double {run rest : Text} {v : D}
      (h : Accepts (fun c => isDigit c || c == '+' || c == '-' || c == '.') P.strtod run rest v) :
      Takes P .double run rest (.double v)
  | string {run rest : Text} (hne : run ≠ []) (hrun : ∀ c ∈ run, c ≠ '/')
      (hrest : ∀ c ∈ rest.head?, c = '/') : Takes P .string run rest (.string run)
  | path {run : Text} (hne : run ≠ []) : Takes P .path run [] (.string run)

inductive Matches (P : NumberParsers D) : List Token → Text → List (Value D) → Prop where
  | nil : Matches P [] [] []
  | lit {c : Char} {toks : List Token} {url : Text} {values : List (Value D)}
      (h : Matches P toks url values) : Matches P (.lit c :: toks) (c :: url) values
  | param {p : ParamType} {toks : List Token} {run rest : Text} {v : Value D}
      {values : List (Value D)} (htakes : Takes P p run rest v) (h : Matches P toks rest values) :
      Matches P (.param p :: toks) (run ++ rest) (v :: values)

def RuleCaptures (P : NumberParsers D) (rule reqUrl : Text) (values : List (Value D)) : Prop :=
  ∃ toks, Pattern rule toks ∧ Matches P toks reqUrl values

def RuleMatches (P : NumberParsers D) (rule reqUrl : Text) : Prop :=
  ∃ values, RuleCaptures P rule reqUrl values

theorem parseNumber_iff {α : Type} {starts : Char → Bool} {strto : Text → StrtoResult α}
    {value : α → Value D} (hle : ∀ url, (strto url).eptr ≤ url.length) {url : Text} {v : Value D}
    {n : ℕ} : parseNumber starts strto value url = some (v, n) ↔
      ∃ run rest a, url = run ++ rest ∧ run.length = n ∧ v = value a ∧
        Accepts starts strto run rest a := by
  constructor
  · intro h
    obtain ⟨⟨c, cs, hurl, hc⟩, hrange, hne, rfl, rfl⟩ := parseNumber_some h
    obtain ⟨k, hk⟩ := Nat.exists_eq_succ_of_ne_zero hne
    refine ⟨url.take (strto url).eptr, url.drop (strto url).eptr, _,
      (List.take_append_drop _ _).symm, by simp [hle url], rfl, ?_, ?_, ?_, ?_⟩
    · exact ⟨c, cs.take k, by rw [hk, hurl, List.take_succ_cons], hc⟩
    · rwa [List.take_append_drop]
    · rw [List.take_append_drop, List.length_take, Nat.min_eq_left (hle url)]
    · rw [List.take_append_drop]
  · rintro ⟨run, rest, a, rfl, rfl, rfl, ⟨c, cs, hrun, hc⟩, hrange, hstop, rfl⟩
    have hne : (strto (run ++ rest)).eptr ≠ 0 := by rw [hstop, hrun]; simp
    have hurl : run ++ rest = c :: (cs ++ rest) := by rw [hrun, List.cons_append]
    rw [← hstop]
    generalize run ++ rest = url at *
    subst hurl
    simp [parseNumber, hc, hrange, hne]

theorem takeWhile_run {run rest : Text} (hrun : ∀ c ∈ run, c ≠ '/')
    (hrest : ∀ c ∈ rest.head?, c = '/') : (run ++ rest).takeWhile (· ≠ '/') = run := by
  rw [List.takeWhile_append_of_pos (by simpa using hrun)]
  cases rest with
  | nil => simp
  | cons c rest =>
    obtain rfl : c = '/' := hrest c rfl
    simp

theorem capture_iff {P : NumberParsers D} {p : ParamType} {url : Text} {v : Value D} {n : ℕ} :
    capture P p url = some (v, n) ↔
      ∃ run rest, url = run ++ rest ∧ run.length = n ∧ Takes P p run rest v := by
  cases p with
  | int =>
    refine (parseNumber_iff P.strtoll_le).trans ⟨?_, ?_⟩
    · rintro ⟨run, rest, a, hurl, hn, rfl, h⟩
      exact ⟨run, rest, hurl, hn, .int h⟩
    · rintro ⟨run, rest, hurl, hn, h⟩
      cases h with
      | int h => exact ⟨run, rest, _, hurl, hn, rfl, h⟩
  | uint =>
    refine (parseNumber_iff P.strtoull_le).trans ⟨?_, ?_⟩
    · rintro ⟨run, rest, a, hurl, hn, rfl, h⟩
      exact ⟨run, rest, hurl, hn, .uint h⟩
    · rintro ⟨run, rest, hurl, hn, h⟩
      cases h with
      | uint h => exact ⟨run, rest, _, hurl, hn, rfl, h⟩
  | double =>
    refine (parseNumber_iff P.strtod_le).trans ⟨?_, ?_⟩
    · rintro ⟨run, rest, a, hurl, hn, rfl, h⟩
      exact ⟨run, rest, hurl, hn, .double h⟩
    · rintro ⟨run, rest, hurl, hn, h⟩
      cases h with
      | double h => exact ⟨run, rest, _, hurl, hn, rfl, h⟩
  | string =>
    simp only [capture, parseString]
    constructor
    · intro h
      split_ifs at h with hne
      simp only [Option.some.injEq, Prod.mk.injEq] at h
      obtain ⟨rfl, rfl⟩ := h
      have htake : url.take (url.takeWhile (· ≠ '/')).length = url.takeWhile (· ≠ '/') :=
        (List.prefix_iff_eq_take.1 (List.takeWhile_prefix _)).symm
      refine ⟨url.takeWhile (· ≠ '/'), url.dropWhile (· ≠ '/'),
        (List.takeWhile_append_dropWhile ..).symm, rfl, ?_⟩
      rw [htake]
      refine .string (fun h0 => hne (by rw [h0]; rfl)) ?_ ?_
      · intro c hc
        simpa using List.mem_takeWhile_imp hc
      · intro c hc
        have := List.head?_dropWhile_not (fun c : Char => decide (c ≠ '/')) url
        rw [Option.mem_def.1 hc] at this
        simpa using this
    · rintro ⟨run, rest, rfl, rfl, h⟩
      cases h with
      | string hne hrun hrest =>
        rw [takeWhile_run hrun hrest, if_pos (by simpa using hne), List.take_left]
  | path =>
    simp only [capture, parsePath]
    constructor
    · intro h
      split_ifs at h with hne
      simp only [Option.some.injEq, Prod.mk.injEq] at h
      obtain ⟨rfl, rfl⟩ := h
      refine ⟨url, [], (List.append_nil url).symm, rfl, ?_⟩
      rw [List.take_length]
      exact .path (fun h0 => hne (by simp [h0]))
    · rintro ⟨run, rest, rfl, rfl, h⟩
      cases h with
      | path hne => simp [hne]

theorem Takes.run_ne_nil {P : NumberParsers D} {p : ParamType} {run rest : Text} {v : Value D}
    (h : Takes P p run rest v) : run ≠ [] := by
  have hpos := capture_pos (capture_iff.2 ⟨run, rest, rfl, rfl, h⟩)
  exact List.length_pos_iff.1 hpos

theorem mem_matchesFrom (P : NumberParsers D) {t : Trie} (h : Grown t) (url : Text) (i r : ℕ)
    (values : List (Value D)) : (r, values) ∈ matchesFrom P t url (t.node i) ↔
      r ≠ 0 ∧ ∃ toks j, follow t i toks = some j ∧ (t.node j).ruleIndex = r ∧
        Matches P toks url values := by
  induction hl : url.length using Nat.strong_induction_on generalizing url i values with
  | _ len ih =>
    subst hl
    by_cases hurl : url = []
    · subst hurl
      rw [matchesFrom_nil]
      constructor
      · intro hm
        split_ifs at hm with h0
        · cases hm
        · obtain ⟨rfl, rfl⟩ := Prod.mk.inj (List.mem_singleton.1 hm)
          exact ⟨h0, [], i, rfl, rfl, .nil⟩
      · rintro ⟨hr, toks, j, hf, hj, hmatch⟩
        generalize hnil : ([] : Text) = url at hmatch
        cases hmatch with
        | nil =>
          obtain rfl := Option.some.inj hf
          rw [if_neg (hj ▸ hr), hj]
          exact List.mem_singleton.2 rfl
        | lit => cases hnil
        | param htakes =>
          exact (htakes.run_ne_nil (List.append_eq_nil_iff.1 hnil.symm).1).elim
    rw [matchesFrom_of_ne P t _ hurl, List.mem_append, List.mem_flatMap, List.mem_flatMap]
    constructor
    · rintro (⟨p, -, hm⟩ | ⟨kv, hkv, hm⟩)
      · unfold paramMatches at hm
        split_ifs at hm with hchild
        · split at hm
          · rename_i v n hcapture
            obtain ⟨⟨r', values'⟩, hm', heq⟩ := List.mem_map.1 hm
            obtain ⟨rfl, rfl⟩ := Prod.mk.inj heq
            obtain ⟨hr, toks, j, hf, hj, hmatch⟩ :=
              (ih _ (drop_shorter hurl (capture_pos hcapture)) _ _ _ rfl).1 hm'
            obtain ⟨run, rest, rfl, rfl, htakes⟩ := capture_iff.1 hcapture
            rw [List.drop_left] at hmatch
            refine ⟨hr, .param p :: toks, j, ?_, hj, .param htakes hmatch⟩
            rw [follow, child?, if_neg hchild]
            exact hf
          · cases hm
        · cases hm
      · unfold literalMatches at hm
        split_ifs at hm with hpre
        · obtain ⟨hr, toks, j, hf, hj, hmatch⟩ :=
            (ih _ (drop_shorter hurl (List.length_pos_iff.2 kv.1.property)) _ _ _ rfl).1 hm
          obtain ⟨c, hc⟩ := h.keys_single i kv hkv
          obtain ⟨rest, rfl⟩ := List.isPrefixOf_iff_prefix.1 hpre
          rw [List.drop_left] at hmatch
          refine ⟨hr, .lit c :: toks, j, ?_, hj, ?_⟩
          · have hchild : child? t i (.lit c) = some kv.2 := by
              rw [child?, ← hc]
              exact (lookup_eq_some (h.keys_nodup i)).2 hkv
            rw [follow, hchild]
            exact hf
          · rw [hc]
            exact .lit hmatch
        · cases hm
    · rintro ⟨hr, toks, j, hf, hj, hmatch⟩
      cases hmatch with
      | nil => exact (hurl rfl).elim
      | @lit c toks rest _ hmatch =>
        right
        obtain ⟨k, hk, hf⟩ := Option.bind_eq_some_iff.1 hf
        refine ⟨(.single c, k), (lookup_eq_some (h.keys_nodup i)).1 hk, ?_⟩
        rw [literalMatches, if_pos (by simp [Fragment.single])]
        exact (ih _ (drop_shorter hurl Nat.one_pos) rest k _ rfl).2 ⟨hr, toks, j, hf, hj, hmatch⟩
      | @param p toks run rest v values htakes hmatch =>
        left
        obtain ⟨k, hk, hf⟩ := Option.bind_eq_some_iff.1 hf
        rw [child?] at hk
        split_ifs at hk with hchild
        obtain rfl := Option.some.inj hk
        have hcapture := capture_iff.2 ⟨run, rest, rfl, rfl, htakes⟩
        refine ⟨p, by cases p <;> simp [ParamType.all], ?_⟩
        rw [paramMatches, if_pos hchild, hcapture]
        dsimp only
        rw [List.drop_left]
        refine List.mem_map.2 ⟨(r, values), ?_, rfl⟩
        have hlt : rest.length < (run ++ rest).length := by
          have := List.length_pos_iff.2 htakes.run_ne_nil
          rw [List.length_append]
          omega
        exact (ih _ hlt rest _ _ rfl).2 ⟨hr, toks, j, hf, hj, hmatch⟩

theorem mem_matches_rules (P : NumberParsers D) {t : Trie} {rules : List (Text × ℕ)}
    (h : Represents t rules) (url : Text) (r : ℕ) (values : List (Value D)) :
    (r, values) ∈ matchesFrom P t url (t.node 0) ↔
      r ≠ 0 ∧ ∃ rule, (rule, r) ∈ rules ∧ RuleCaptures P rule url values := by
  rw [mem_matchesFrom P h.grown]
  constructor
  · rintro ⟨hr, toks, j, hf, hj, hmatch⟩
    obtain ⟨rule, hmem, hpat⟩ := (h.rule_iff toks r hr).1 ⟨j, hf, hj⟩
    exact ⟨hr, rule, hmem, toks, hpat, hmatch⟩
  · rintro ⟨hr, rule, hmem, toks, hpat, hmatch⟩
    obtain ⟨j, hf, hj⟩ := (h.rule_iff toks r hr).2 ⟨rule, hmem, hpat⟩
    exact ⟨hr, toks, j, hf, hj, hmatch⟩

def intValue? : Value D → Option Int64
  | .int v => some v
  | _ => none

def uintValue? : Value D → Option UInt64
  | .uint v => some v
  | _ => none

def doubleValue? : Value D → Option D
  | .double v => some v
  | _ => none

def stringValue? : Value D → Option Text
  | .string v => some v
  | _ => none

/-- The captured values sorted by type, each type in the order of the url. -/
def paramsOf (values : List (Value D)) : RoutingParams D where
  intParams := values.filterMap intValue?
  uintParams := values.filterMap uintValue?
  doubleParams := values.filterMap doubleValue?
  stringParams := values.filterMap stringValue?

theorem pushAll_eq (params : RoutingParams D) (values : List (Value D)) :
    params.pushAll values =
      ⟨params.intParams ++ (paramsOf values).intParams,
        params.uintParams ++ (paramsOf values).uintParams,
        params.doubleParams ++ (paramsOf values).doubleParams,
        params.stringParams ++ (paramsOf values).stringParams⟩ := by
  induction values generalizing params with
  | nil => simp [paramsOf]
  | cons v values ih =>
    rw [RoutingParams.pushAll_cons, ih]
    cases v <;> simp [RoutingParams.push, paramsOf, List.filterMap_cons, intValue?, uintValue?,
      doubleValue?, stringValue?]

theorem pushAll_empty (values : List (Value D)) :
    ({} : RoutingParams D).pushAll values = paramsOf values := by
  simp [pushAll_eq]

structure FindsRule (P : NumberParsers D) (rules : List (Text × ℕ)) (reqUrl : Text)
    (found : ℕ × RoutingParams D) : Prop where
  none_matches : found.1 = 0 → ∀ rule ∈ rules, rule.2 ≠ 0 → ¬ RuleMatches P rule.1 reqUrl
  least : found.1 ≠ 0 → ∀ rule ∈ rules, rule.2 ≠ 0 → RuleMatches P rule.1 reqUrl →
    found.1 ≤ rule.2
  captured : found.1 ≠ 0 → ∃ rule values, (rule, found.1) ∈ rules ∧
    RuleCaptures P rule reqUrl values ∧ found.2 = paramsOf values

theorem finds_of_represents (P : NumberParsers D) {t : Trie} {rules : List (Text × ℕ)}
    (h : Represents t rules) (reqUrl : Text) : FindsRule P rules reqUrl (t.find P reqUrl) := by
  have hmem := mem_matches_rules P h reqUrl
  rcases find_cases P t reqUrl with ⟨h0, hnil⟩ | ⟨hne, m, hm, hfind, hle⟩
  · refine ⟨fun _ => ?_, fun hne => (hne h0).elim, fun hne => (hne h0).elim⟩
    rintro ⟨rule, r⟩ hrule hr ⟨values, hcap⟩
    have := (hmem r values).2 ⟨hr, rule, hrule, hcap⟩
    rw [hnil] at this
    cases this
  · refine ⟨fun h0 => (hne h0).elim, fun _ => ?_, fun _ => ?_⟩
    · rintro ⟨rule, r⟩ hrule hr ⟨values, hcap⟩
      rw [hfind]
      exact hle (r, values) ((hmem r values).2 ⟨hr, rule, hrule, hcap⟩)
    · obtain ⟨-, rule, hrule, hcap⟩ := (hmem m.1 m.2).1 hm
      rw [hfind]
      exact ⟨rule, m.2, hrule, hcap, pushAll_empty m.2⟩

/-- `find` on a trie built by `add` returns the least index of the rules that
match the url, with the values of a rule of that index. -/
theorem find_least_matching_rule (P : NumberParsers D) {t : Trie} {rules : List (Text × ℕ)}
    (h : Trie.fresh.addAll rules = some t) (reqUrl : Text) :
    FindsRule P rules reqUrl (t.find P reqUrl) :=
  finds_of_represents P (represents_addAll represents_fresh h) reqUrl

/-- Parsers that read unsigned decimal numbers as the C functions do, for short
ones; `double` is left out. -/
def decimalParsers : NumberParsers Unit where
  strtoll url :=
    let digits := url.takeWhile isDigit
    ⟨Int64.ofNat (digits.foldl (fun n c => 10 * n + (c.toNat - '0'.toNat)) 0), digits.length, false⟩
  strtoull url :=
    let digits := url.takeWhile isDigit
    ⟨UInt64.ofNat (digits.foldl (fun n c => 10 * n + (c.toNat - '0'.toNat)) 0), digits.length,
      false⟩
  strtod _ := ⟨(), 0, false⟩
  strtoll_le _ := (List.takeWhile_prefix _).length_le
  strtoull_le _ := (List.takeWhile_prefix _).length_le
  strtod_le _ := Nat.zero_le _

theorem find_least_matching_rule_sample : ∃ t, Trie.fresh.addAll sampleRules = some t ∧
    FindsRule decimalParsers sampleRules ['/', 'a', 'b', '/', '1', '2']
      (t.find decimalParsers ['/', 'a', 'b', '/', '1', '2']) :=
  ⟨_, rfl, find_least_matching_rule decimalParsers rfl _⟩

end CrowCore.RoutingTrieCorrect
