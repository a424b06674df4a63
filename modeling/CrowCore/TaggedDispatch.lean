import CrowCore.Routing

set_option autoImplicit false

/-!
# Dispatch to tagged rules

The tag of the url decides the argument types of a tagged rule at compile time,
the walk of the trie what the vectors of `RoutingParams` hold. Both follow the
parameters of the url from left to right.
-/
namespace CrowCore.TaggedDispatch
open RoutingTrie RoutingTrieBuild RoutingTrieCorrect ParameterTags Routing

variable {D : Type}

theorem pattern_append {url url' : Text} {toks toks' : List Token} (h : Pattern url toks)
    (h' : Pattern url' toks') : Pattern (url ++ url') (toks ++ toks') := by
  induction h with
  | nil => exact h'
  | lit hc _ ih => exact .lit hc ih
  | param hx _ ih =>
    rw [List.append_assoc]
    exact .param hx ih

theorem pattern_entryUrl {rule entry : Text} (h : EntryUrl rule entry) {toks toks' : List Token}
    (hrule : Pattern rule toks) (hentry : Pattern entry toks') :
    toks = toks' ∨ toks = toks' ++ [.lit '/'] := by
  cases h with
  | rule => exact .inl (pattern_unique hrule hentry)
  | directory h =>
    right
    have hlast : rule.getLast? = some '/' := by
      simp only [directoryCase, Bool.and_eq_true, beq_iff_eq] at h
      exact h.2
    have hcut : rule.dropLast ++ ['/'] = rule := List.dropLast_append_getLast? '/' hlast
    apply pattern_unique hrule
    rw [← hcut]
    exact pattern_append hentry (.lit (by decide) .nil)

/-- `TaggedRule<Args...>::handle`: what it passes on to the handler. -/
def handle (args : List ArgType) (params : RoutingParams D) : List (Option (Value D)) :=
  handlerArguments args params

/-- No access of the call is out of range, and the handler of a rule without
stray '>' gets the values of the rule's parameters, in order. -/
structure PassesParameters (P : NumberParsers D) (rule : Text) (toks : List Token) (url : Text)
    (passed : List (Option (Value D))) : Prop where
  in_range : none ∉ passed
  passed_eq : Token.lit '>' ∉ toks → ∃ entry values, EntryUrl rule entry ∧
    RuleCaptures P entry url values ∧ values.map argType = (paramTypes toks).map paramArgType ∧
      passed = values.map some

/-- A rule made by `newRuleTagged` with the tag of its own url is handled with
the parameters of that url, whatever request was routed to it. -/
theorem tagged_rule_passes_parameters (P : NumberParsers D) {allRules : List BaseRule}
    {router : Router} (hval : (Router.validate { allRules }).Returns router) {url : Text}
    {index place : ℕ} {params : RoutingParams D}
    (hfind : router.findRouteByIndex P url index = .ok ⟨some place, params⟩)
    {rule new : BaseRule} {args : List ArgType} (hplace : allRules[place]? = some rule)
    (hnew : newRuleTagged (getParameterTag rule.rule) rule.rule = some new)
    (hkind : rule.kind = new.kind) (hargs : rule.kind = .tagged args) {toks : List Token}
    (hpattern : Pattern rule.rule toks) (hcount : (paramTypes toks).length ≤ 24) :
    PassesParameters P rule.rule toks url (handle args params) := by
  obtain ⟨rule', entry, values, hplace', -, hentry, hcap, rfl⟩ :=
    findRouteByIndex_spec P hval hfind
  obtain rfl : rule = rule' := Option.some.inj (hplace.symm.trans hplace')
  have hargs' : args = if Token.lit '>' ∈ toks then [] else (paramTypes toks).map paramArgType := by
    rw [newRuleTagged, arguments_getParameterTag hpattern hcount, Option.map_some] at hnew
    rw [hkind, ← Option.some.inj hnew] at hargs
    exact (RuleKind.tagged.inj hargs).symm
  have htypes : values.map argType = (paramTypes toks).map paramArgType := by
    obtain ⟨toks', htoks', hmatch⟩ := hcap
    rw [argType_of_matches hmatch]
    rcases pattern_entryUrl hentry hpattern htoks' with rfl | rfl
    · rfl
    · rw [paramTypes_append, paramTypes, paramTypes, List.append_nil]
  by_cases hstray : Token.lit '>' ∈ toks
  · rw [if_pos hstray] at hargs'
    subst hargs'
    exact ⟨by simp [handle, handlerArguments, call], fun h => (h hstray).elim⟩
  · rw [if_neg hstray] at hargs'
    have hpassed : handle args (paramsOf values) = values.map some := by
      rw [handle, hargs', ← htypes, handlerArguments_values]
    exact ⟨by simp [hpassed], fun _ => ⟨entry, values, hentry, hcap, htypes, hpassed⟩⟩

def sampleUrl : Text := ['/', '<', 's', 't', 'r', '>', '/', '<', 'u', 'i', 'n', 't', '>', '/']

def sampleRule : BaseRule :=
  { rule := sampleUrl, kind := .tagged [.string, .uint64], hasHandler := true }

theorem tagged_rule_passes_parameters_sample : ∃ router params,
    (Router.validate { allRules := [sampleRule] }).Returns router ∧
    router.findRouteByIndex decimalParsers ['/', 'a', '/', '7'] HttpVerb.get.toIndex =
      .ok ⟨some 0, params⟩ ∧
    PassesParameters decimalParsers sampleUrl
      [.lit '/', .param .string, .lit '/', .param .uint, .lit '/'] ['/', 'a', '/', '7']
      (handle [.string, .uint64] params) := by
  have hpattern : Pattern sampleUrl
      [.lit '/', .param .string, .lit '/', .param .uint, .lit '/'] :=
    .lit (by decide) (.param (x := (.string, ['<', 's', 't', 'r', '>'])) (by decide)
      (.lit (by decide) (.param (x := (.uint, ['<', 'u', 'i', 'n', 't', '>'])) (by decide)
        (.lit (by decide) .nil))))
  have hnew : newRuleTagged (getParameterTag sampleUrl) sampleUrl =
      some { sampleRule with hasHandler := false } := by
    rw [newRuleTagged, arguments_getParameterTag hpattern (by decide)]
    rfl
  have hval : ∃ router, (Router.validate { allRules := [sampleRule] }).Returns router ∧
      router.findRouteByIndex decimalParsers ['/', 'a', '/', '7'] HttpVerb.get.toIndex =
        .ok ⟨some 0, ⟨[], [7], [], [['a']]⟩⟩ := ⟨_, rfl, by decide +kernel⟩
  obtain ⟨router, hval, hfind⟩ := hval
  exact ⟨router, _, hval, hfind, tagged_rule_passes_parameters decimalParsers hval hfind rfl hnew
    rfl rfl hpattern (by decide)⟩

end CrowCore.TaggedDispatch
