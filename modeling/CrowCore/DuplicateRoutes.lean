import CrowCore.AddTermination

set_option autoImplicit false

/-!
# Routes that are there already

A call of `add` walks the path of its url and throws only at the end. If a rule is
there, so was the whole path, and the call has made no node.
-/
namespace CrowCore.DuplicateRoutes
open RoutingTrie RoutingTrieBuild AddTermination

/-- A call that has returned, with the exception if it threw. -/
structure Call where
  url : Text
  ruleIndex : ℕ
  result : Except String Unit

/-- Calls on a new trie, each on what the one before it left, and the trie in the end. -/
inductive Calls : List Call → Trie → Prop where
  | nil : Calls [] Trie.fresh
  | snoc {calls : List Call} {call : Call} {t t' : Trie} (h : Calls calls t)
      (hadd : AddReturns t call.url call.ruleIndex (t', call.result)) : Calls (calls ++ [call]) t'

/-- Urls that read as the same tokens: the tags of one type are the same token. -/
def SameTokens (url url' : Text) : Prop := ∃ toks, Pattern url toks ∧ Pattern url' toks

def registered (calls : List Call) : List (Text × ℕ) :=
  (calls.filter fun call => call.result.toBool).map fun call => (call.url, call.ruleIndex)

variable {t t' : Trie} {url : Text} {toks : List Token} {ruleIndex : ℕ}
  {result : Except String Unit}

theorem toBool_eq (result : Except String Unit) : result.toBool = true ↔ result = .ok () := by
  cases result with
  | error e => simp [Except.toBool]
  | ok u => simp [Except.toBool]

theorem mem_registered {calls : List Call} {r : ℕ} : (url, r) ∈ registered calls ↔
    ∃ call ∈ calls, call.result = .ok () ∧ call.url = url ∧ call.ruleIndex = r := by
  simp only [registered, List.mem_map, List.mem_filter, toBool_eq, Prod.mk.injEq, and_assoc]

theorem registered_ne_zero {calls : List Call} (hindexes : ∀ call ∈ calls, call.ruleIndex ≠ 0) :
    ∀ rule ∈ registered calls, rule.2 ≠ 0 := by
  rintro ⟨url, r⟩ hmem
  obtain ⟨call, hcall, -, -, rfl⟩ := mem_registered.1 hmem
  exact hindexes call hcall

theorem descendAll_of_follow {idx j : ℕ} (hf : follow t idx toks = some j) :
    descendAll t idx toks = (t, j) := by
  induction toks generalizing idx with
  | nil =>
    obtain rfl := Option.some.inj hf
    rfl
  | cons tok toks ih =>
    obtain ⟨k, hk, hf⟩ := Option.bind_eq_some_iff.1 hf
    rw [descendAll, descend_some hk]
    exact ih hf

theorem add_tokens (hadd : t.add url ruleIndex = some (t', result)) : ∃ toks, Pattern url toks ∧
    (((descendAll t 0 toks).1.node (descendAll t 0 toks).2).ruleIndex ≠ 0 ∧
        t' = (descendAll t 0 toks).1 ∧ result ≠ .ok () ∨
      ((descendAll t 0 toks).1.node (descendAll t 0 toks).2).ruleIndex = 0 ∧ result = .ok ()) := by
  unfold Trie.add at hadd
  cases hloop : Trie.addLoop (url.length + 1) t 0 url with
  | none =>
    rw [hloop] at hadd
    cases hadd
  | some r =>
    obtain ⟨toks, htoks⟩ := pattern_of_addLoop hloop
    refine ⟨toks, htoks, ?_⟩
    rw [addLoop_pattern htoks t 0 _ (Nat.lt_succ_self _)] at hadd
    dsimp only at hadd
    by_cases hrule : ((descendAll t 0 toks).1.node (descendAll t 0 toks).2).ruleIndex = 0
    · rw [if_neg (not_not.2 hrule)] at hadd
      exact .inr ⟨hrule, (Prod.mk.inj (Option.some.inj hadd)).2.symm⟩
    · rw [if_pos hrule] at hadd
      obtain ⟨rfl, rfl⟩ := Prod.mk.inj (Option.some.inj hadd)
      exact .inl ⟨hrule, rfl, nofun⟩

theorem exists_rule_iff (h : Grown t) (toks : List Token) :
    ((descendAll t 0 toks).1.node (descendAll t 0 toks).2).ruleIndex ≠ 0 ↔
      ∃ r, r ≠ 0 ∧ RuleAt t toks r := by
  obtain ⟨hg, hf, hrules⟩ := descendAll_spec h [] rfl toks
  rw [List.nil_append] at hf
  constructor
  · intro hne
    exact ⟨_, hne, (hrules toks _ hne).1 ⟨_, hf, rfl⟩⟩
  · rintro ⟨r, hr, hrule⟩
    obtain ⟨j, hj, hrj⟩ := (hrules toks r hr).2 hrule
    rw [Option.some.inj (hf.symm.trans hj), hrj]
    exact hr

theorem add_throws_iff {rules : List (Text × ℕ)} (h : Represents t rules)
    (hrules : ∀ rule ∈ rules, rule.2 ≠ 0) (hadd : t.add url ruleIndex = some (t', result)) :
    (result ≠ .ok () ↔ ∃ rule ∈ rules, SameTokens rule.1 url) ∧ (result ≠ .ok () → t' = t) := by
  obtain ⟨toks, htoks, hcases⟩ := add_tokens hadd
  have hduplicate : (∃ rule ∈ rules, SameTokens rule.1 url) ↔ ∃ r, r ≠ 0 ∧ RuleAt t toks r := by
    constructor
    · rintro ⟨⟨url', r⟩, hmem, toks', hurl', hurl⟩
      rw [pattern_unique hurl htoks] at hurl'
      have hr := hrules _ hmem
      exact ⟨r, hr, (h.rule_iff toks r hr).2 ⟨url', hmem, hurl'⟩⟩
    · rintro ⟨r, hr, hrule⟩
      obtain ⟨url', hmem, hurl'⟩ := (h.rule_iff toks r hr).1 hrule
      exact ⟨(url', r), hmem, toks, hurl', htoks⟩
  rw [hduplicate, ← exists_rule_iff h.grown]
  rcases hcases with ⟨hne, rfl, hthrows⟩ | ⟨hzero, hreturns⟩
  · refine ⟨iff_of_true hthrows hne, fun _ => ?_⟩
    obtain ⟨r, -, j, hj, -⟩ := (exists_rule_iff h.grown toks).1 hne
    rw [descendAll_of_follow hj]
  · exact ⟨iff_of_false (not_not.2 hreturns) (not_not.2 hzero), fun hthrows =>
      absurd hreturns hthrows⟩

theorem represents_calls {calls : List Call} (h : Calls calls t)
    (hindexes : ∀ call ∈ calls, call.ruleIndex ≠ 0) : Represents t (registered calls) := by
  induction h with
  | nil => exact represents_fresh
  | @snoc calls call t t' h hadd ih =>
    have hbefore : ∀ c ∈ calls, c.ruleIndex ≠ 0 :=
      fun c hc => hindexes c (List.mem_append_left _ hc)
    have hold := ih hbefore
    have hadd := add_of_returns hadd
    have hsnoc : registered (calls ++ [call]) =
        registered calls ++ if call.result.toBool then [(call.url, call.ruleIndex)] else [] := by
      cases hresult : call.result.toBool <;> simp [registered, hresult]
    rw [hsnoc]
    by_cases hthrows : call.result = .ok ()
    · rw [hthrows] at hadd
      rw [if_pos ((toBool_eq _).2 hthrows)]
      exact represents_add hold hadd
    · rw [if_neg (mt (toBool_eq _).1 hthrows), List.append_nil,
        (add_throws_iff hold (registered_ne_zero hbefore) hadd).2 hthrows]
      exact hold

/-- After any calls with rule indices that are not 0 a call throws exactly if one of
them has registered a url with the same tokens, and then it leaves the trie as it was. -/
theorem duplicates_detected {calls : List Call} (h : Calls calls t)
    (hindexes : ∀ call ∈ calls, call.ruleIndex ≠ 0)
    (hadd : AddReturns t url ruleIndex (t', result)) :
    (result ≠ .ok () ↔ ∃ call ∈ calls, call.result = .ok () ∧ SameTokens call.url url) ∧
      (result ≠ .ok () → t' = t) := by
  obtain ⟨hiff, hsame⟩ := add_throws_iff (represents_calls h hindexes)
    (registered_ne_zero hindexes) (add_of_returns hadd)
  refine ⟨hiff.trans ?_, hsame⟩
  constructor
  · rintro ⟨⟨url', r⟩, hmem, hsame⟩
    obtain ⟨call, hcall, hok, rfl, -⟩ := mem_registered.1 hmem
    exact ⟨call, hcall, hok, hsame⟩
  · rintro ⟨call, hcall, hok, hsame⟩
    exact ⟨(call.url, call.ruleIndex), mem_registered.2 ⟨call, hcall, hok, rfl, rfl⟩, hsame⟩

def sampleUrl : Text := ['/', '<', 's', 't', 'r', '>']

def sampleUrl' : Text := ['/', '<', 's', 't', 'r', 'i', 'n', 'g', '>']

def sampleTrie : Trie :=
  (addEnd sampleUrl 1 ((addTurn sampleUrl)^[2] { i := 0, idx := 0, trie := Trie.fresh })).1

theorem duplicates_detected_sample : ∃ result, Calls [⟨sampleUrl, 1, .ok ()⟩] sampleTrie ∧
    AddReturns sampleTrie sampleUrl' 2 (sampleTrie, result) ∧ result ≠ .ok () := by
  have hcalls : Calls [⟨sampleUrl, 1, .ok ()⟩] sampleTrie :=
    .snoc .nil ⟨2, by decide, by decide, rfl⟩
  obtain ⟨t', result, hadd⟩ : ∃ t' result, AddReturns sampleTrie sampleUrl' 2 (t', result) :=
    ⟨_, _, 2, by decide, by decide, rfl⟩
  have h := duplicates_detected hcalls (by decide) hadd
  have hstring : (.string, ['<', 's', 't', 'r', 'i', 'n', 'g', '>']) ∈ Trie.paramTraits := by decide
  have hstr : (.string, ['<', 's', 't', 'r', '>']) ∈ Trie.paramTraits := by decide
  have hthrows : result ≠ .ok () := h.1.2 ⟨_, List.mem_singleton_self _, rfl, _,
    .lit (by decide) (.param hstr .nil), .lit (by decide) (.param hstring .nil)⟩
  rw [h.2 hthrows] at hadd
  exact ⟨result, hcalls, hadd, hthrows⟩

end CrowCore.DuplicateRoutes
