import CrowCore.RequestHandling

set_option autoImplicit false

/-!
# Upgrades

`handleUpgrade` looks the path up by itself and checks what it finds. In a
validated router none of its checks fails, and it takes the rule of `findRoute`.
-/
namespace CrowCore.UpgradeHandling
open RoutingTrie RoutingTrieBuild RoutingTrieCorrect RoutingTrieOptimize Routing RequestHandling

/-- The status is set to 404 for the first two, after no rule and after a rule of
another method. -/
inductive Upgrade where
  | not_found
  | method_mismatch
  | handleUpgrade (rule : ℕ)
deriving DecidableEq, Repr

section Upgrade
variable {D : Type} (P : NumberParsers D) (router : Router)

/-- Place 0 of the rules is the null pointer, which is not to be followed. -/
def getMethods (rule : Option ℕ) : Except String (ℕ × ℕ) :=
  match rule with
  | none => .error "null rule"
  | some place =>
    match router.allRules[place]? with
    | none => .error "dangling rule"
    | some baseRule => .ok (place, baseRule.methodsBitfield)

def handleUpgrade (req : Request) : Except String Upgrade :=
  match httpVerbFromBoost req.method with
  | none => return .not_found
  | some verb =>
    match router.perMethods[verb.toIndex]? with
    | none => return .not_found
    | some perMethod =>
      let ruleIndex := (perMethod.trie.find P req.encodedPath).1
      if ruleIndex = 0 then return .not_found
      else
        match perMethod.rules[ruleIndex]? with
        | none => .error "Trie internal structure corrupted!"
        | some rule => do
          let (place, methods) ← getMethods router rule
          if methods &&& 1 <<< verb.toIndex = 0 then return .method_mismatch
          else return .handleUpgrade place

end Upgrade

structure Intact {D : Type} (P : NumberParsers D) (allRules : List BaseRule) (index : ℕ)
    (perMethod : PerMethod) (url : Text) : Prop where
  lt_size : (perMethod.trie.find P url).1 < perMethod.rules.length
  has_bit : (perMethod.trie.find P url).1 ≠ 0 → ∃ place rule,
    perMethod.rules[(perMethod.trie.find P url).1]? = some (some place) ∧
      allRules[place]? = some rule ∧ rule.methodsBitfield.testBit index

variable {D : Type} {P : NumberParsers D} {allRules : List BaseRule} {router : Router}

theorem allRules_validate (hval : (Router.validate { allRules }).Returns router) :
    router.allRules = allRules := by
  obtain ⟨pms, -, hval⟩ := Outcome.returns_bind.1 hval
  obtain ⟨pms', -, hval⟩ := Outcome.returns_bind.1 hval
  rw [← Outcome.returns_pure.1 hval]

theorem intact_validate (P : NumberParsers D) (hval : (Router.validate { allRules }).Returns router)
    {index : ℕ} {perMethod : PerMethod} (hindex : router.perMethods[index]? = some perMethod)
    (url : Text) : Intact P allRules index perMethod url := by
  obtain ⟨pm, entries, hs, -, hrules, hsame⟩ := (perMethods_validate hval).2 index perMethod hindex
  have hfind := find_sameRoutes hsame P url
  have hcaptured := (finds_of_represents P hs.represents url).captured
  have hplace : (pm.trie.find P url).1 ≠ 0 → ∃ place rule,
      pm.rules[(pm.trie.find P url).1]? = some (some place) ∧
        allRules[place]? = some rule ∧ rule.methodsBitfield.testBit index := by
    intro hne
    obtain ⟨entry, values, hmem, -, -⟩ := hcaptured hne
    obtain ⟨-, place, rule, hplace, hrule, hbit, -⟩ := hs.entry entry _ hmem
    exact ⟨place, rule, hplace, hrule, hbit⟩
  constructor
  · rw [hfind, hrules]
    by_cases h0 : (pm.trie.find P url).1 = 0
    · rw [h0]
      exact (List.getElem?_eq_some_iff.1 hs.no_rule).1
    · obtain ⟨place, -, hplace, -⟩ := hplace h0
      exact (List.getElem?_eq_some_iff.1 hplace).1
  · rw [hfind, hrules]
    exact hplace

theorem findRouteByIndex_returns (P : NumberParsers D)
    (hval : (Router.validate { allRules }).Returns router) (url : Text) (index : ℕ) :
    ∃ route, router.findRouteByIndex P url index = .ok route := by
  unfold Router.findRouteByIndex
  cases hindex : router.perMethods[index]? with
  | none => exact ⟨_, rfl⟩
  | some perMethod =>
    dsimp only
    rw [List.getElem?_eq_getElem (intact_validate P hval hindex url).lt_size]
    dsimp only
    split_ifs
    · exact ⟨_, rfl⟩
    · exact ⟨_, rfl⟩

theorem handleUpgrade_of_none {req : Request} (hverb : httpVerbFromBoost req.method = none) :
    handleUpgrade P router req = .ok .not_found ∧ findRoute P router req = .ok {} := by
  constructor
  · rw [handleUpgrade, hverb]
    rfl
  · rw [findRoute, hverb]
    rfl

theorem handleUpgrade_eq (hval : (Router.validate { allRules }).Returns router) {req : Request}
    {verb : HttpVerb} (hverb : httpVerbFromBoost req.method = some verb) {route : FindRoute D}
    (hroute : router.findRouteByIndex P req.encodedPath verb.toIndex = .ok route) :
    handleUpgrade P router req = .ok (route.rule.elim .not_found .handleUpgrade) := by
  obtain ⟨perMethod, hindex⟩ : ∃ pm, router.perMethods[verb.toIndex]? = some pm := by
    refine ⟨_, List.getElem?_eq_getElem ?_⟩
    rw [(perMethods_validate hval).1]
    exact Nat.lt_succ_of_le ((toIndex_le verb).trans (by decide))
  obtain ⟨hlt, hbit⟩ := intact_validate P hval hindex req.encodedPath
  unfold Router.findRouteByIndex at hroute
  unfold handleUpgrade
  simp only [hindex, hverb] at hroute ⊢
  by_cases h0 : (perMethod.trie.find P req.encodedPath).1 = 0
  · rw [if_pos h0]
    rw [List.getElem?_eq_getElem hlt] at hroute
    simp only [ne_eq, h0, not_true_eq_false, if_false, Except.ok.injEq] at hroute
    rw [← hroute]
    rfl
  · obtain ⟨place, rule, hplace, hrule, htest⟩ := hbit h0
    have hmethods : rule.methodsBitfield &&& 1 <<< verb.toIndex ≠ 0 := by
      intro hzero
      have hbit := congrArg (fun n => n.testBit verb.toIndex) hzero
      simp [Nat.testBit_and, htest, Nat.one_shiftLeft, Nat.testBit_two_pow_self] at hbit
    rw [if_neg h0, hplace]
    rw [hplace] at hroute
    simp only [ne_eq, h0, not_false_eq_true, if_true, Except.ok.injEq] at hroute
    rw [← hroute]
    simp [getMethods, allRules_validate hval, hrule, hmethods, bind, Except.bind, pure, Except.pure]

/-- In a validated router every lookup ends at a rule of its method, and an upgrade
takes the rule that `findRoute` selects. -/
theorem handleUpgrade_agrees (P : NumberParsers D) {allRules : List BaseRule} {router : Router}
    (hval : (Router.validate { allRules }).Returns router) :
    router.perMethods.length = methodNotAllowedIndex + 1 ∧
      (∀ index perMethod, router.perMethods[index]? = some perMethod →
        ∀ url, Intact P allRules index perMethod url) ∧
      (∀ index url, ∃ route, router.findRouteByIndex P url index = .ok route) ∧
      ∀ req : Request, ∃ foundRoute, findRoute P router req = .ok foundRoute ∧
        handleUpgrade P router req =
          .ok (foundRoute.route.rule.elim .not_found .handleUpgrade) := by
  refine ⟨(perMethods_validate hval).1, fun index perMethod hindex url =>
    intact_validate P hval hindex url, fun index url => ?_, fun req => ?_⟩
  · exact findRouteByIndex_returns P hval url index
  cases hverb : httpVerbFromBoost req.method with
  | none =>
    obtain ⟨hupgrade, hfind⟩ : handleUpgrade P router req = .ok .not_found ∧
        findRoute P router req = .ok {} := handleUpgrade_of_none hverb
    exact ⟨_, hfind, hupgrade⟩
  | some verb =>
    have hlookup := fun v : HttpVerb => findRouteByIndex_isSome P hval req.encodedPath
      ((toIndex_le v).trans (by decide : maxVerbIndex ≤ methodNotAllowedIndex))
    choose route hroute _ using hlookup
    have hloop := findRouteLoop_spec hroute verb verbs [] {}
    have hfind : findRoute P router req = .ok
        ⟨allowHeader ([] ++ verbs.filter fun v => (route v).rule.isSome),
          if verb ∈ verbs ∧ (route verb).rule.isSome then route verb else {}⟩ := by
      rw [findRoute, hverb]
      exact hloop
    refine ⟨_, hfind, ?_⟩
    rw [handleUpgrade_eq hval hverb (hroute verb)]
    by_cases hsome : (route verb).rule.isSome
    · simp [mem_verbs, hsome]
    · have hnone : (route verb).rule = none := by simpa using hsome
      simp [mem_verbs, hnone]

/-- An upgrade to the rule of the examples, and to a path without a rule. -/
theorem handleUpgrade_agrees_sample : ∃ router,
    (Router.validate { allRules := sampleRules }).Returns router ∧
      (∀ index perMethod, router.perMethods[index]? = some perMethod →
        ∀ url, Intact decimalParsers sampleRules index perMethod url) ∧
      handleUpgrade decimalParsers router sessionRequest = .ok (.handleUpgrade 0) ∧
      handleUpgrade decimalParsers router sampleRequest = .ok .not_found := by
  obtain ⟨router, hval, hfound, hnone⟩ : ∃ router,
      (Router.validate { allRules := sampleRules }).Returns router ∧
        handleUpgrade decimalParsers router sessionRequest = .ok (.handleUpgrade 0) ∧
        handleUpgrade decimalParsers router sampleRequest = .ok .not_found :=
    ⟨_, rfl, by decide +kernel, by decide +kernel⟩
  obtain ⟨-, hintact, -, -⟩ := handleUpgrade_agrees decimalParsers hval
  exact ⟨router, hval, hintact, hfound, hnone⟩

end CrowCore.UpgradeHandling
