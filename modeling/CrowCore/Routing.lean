import CrowCore.RoutingTrieOptimize
import CrowCore.ParameterTags

set_option autoImplicit false

/-!
# The router

Rules are collected in `allRules`. `validate` enters each of them into the trie
of every method in its bitfield, a rule that ends in '/' also without it, and
then optimises the tries.
-/
namespace CrowCore.Routing
open RoutingTrie RoutingTrieBuild RoutingTrieCorrect RoutingTrieOptimize ParameterTags

/-- `none` for a call that does not return, an error for one that throws. -/
abbrev Outcome (α : Type) := ExceptT String Option α

def Outcome.Returns {α : Type} (x : Outcome α) (a : α) : Prop := x.run = some (.ok a)

theorem Outcome.returns_bind {α β : Type} {x : Outcome α} {f : α → Outcome β} {b : β} :
    Outcome.Returns (x >>= f) b ↔ ∃ a, x.Returns a ∧ (f a).Returns b := by
  obtain h | ⟨e, h⟩ | ⟨a, h⟩ :
      x.run = none ∨ (∃ e, x.run = some (.error e)) ∨ ∃ a, x.run = some (.ok a) := by
    rcases x.run with _ | _ | a
    · exact .inl rfl
    · exact .inr (.inl ⟨_, rfl⟩)
    · exact .inr (.inr ⟨a, rfl⟩)
  all_goals simp [Outcome.Returns, ExceptT.run_bind, h]

@[simp] theorem Outcome.returns_pure {α : Type} {a b : α} :
    Outcome.Returns (pure a) b ↔ a = b := by
  simp [Outcome.Returns]

inductive HttpVerb where
  | delete
  | get
  | head
  | options
  | patch
  | post
  | put
deriving DecidableEq, Repr

def HttpVerb.toIndex : HttpVerb → ℕ
  | .delete => 0
  | .get => 1
  | .head => 2
  | .options => 3
  | .patch => 4
  | .post => 5
  | .put => 6

def maxVerbIndex : ℕ := 6
def notFoundIndex : ℕ := maxVerbIndex + 1
def methodNotAllowedIndex : ℕ := notFoundIndex + 1

inductive RuleKind where
  | dynamic
  | tagged (args : List ArgType)
deriving DecidableEq, Repr

structure BaseRule where
  rule : Text
  kind : RuleKind
  methodsBitfield : ℕ := 1 <<< HttpVerb.get.toIndex
  nameStr : Text := []
  hasHandler : Bool := false

/-- `newRuleDynamic` and `newRuleTagged` make these, the second one only where
`Arguments<N>` exists. -/
def newRuleDynamic (rule : Text) : BaseRule := { rule, kind := .dynamic }

def newRuleTagged (tag : ℕ) (rule : Text) : Option BaseRule :=
  (arguments tag).map fun args => { rule, kind := .tagged args }

def BaseRule.validate (rule : BaseRule) : Outcome Unit :=
  if rule.hasHandler then return ()
  else throw (String.ofList rule.nameStr ++ (if rule.nameStr.isEmpty then "" else ": ") ++
    "no handler for url " ++ String.ofList rule.rule)

/-- Rules are referred to by their place in `allRules`; place 0 of the vector
stands for no rule. -/
structure PerMethod where
  rules : List (Option ℕ) := [none]
  trie : Trie := Trie.fresh

structure Router where
  allRules : List BaseRule := []
  perMethods : List PerMethod := List.replicate (methodNotAllowedIndex + 1) {}

def addToTrie (trie : Trie) (url : Text) (ruleIndex : ℕ) : Outcome Trie :=
  match trie.add url ruleIndex with
  | none => ExceptT.mk none
  | some (_, .error e) => throw e
  | some (trie, .ok ()) => return trie

/-- The directory case: a request to '/about' matches the rule '/about/'. -/
def directoryCase (rule : Text) : Bool := rule.length > 2 && rule.getLast? == some '/'

def PerMethod.addRule (perMethod : PerMethod) (rule : Text) (place : ℕ) : Outcome PerMethod := do
  let rules := perMethod.rules ++ [some place]
  let trie ← addToTrie perMethod.trie rule (rules.length - 1)
  if directoryCase rule then
    let trie ← addToTrie trie rule.dropLast (rules.length - 1)
    return { rules, trie }
  else return { rules, trie }

/-- The loop of `internalAddRuleObject`, from this method on. -/
def internalAddRuleObject (rule : BaseRule) (place : ℕ) :
    ℕ → List PerMethod → Outcome (List PerMethod)
  | _, [] => return []
  | method, perMethod :: perMethods => do
    let perMethod ← (if rule.methodsBitfield.testBit method then perMethod.addRule rule.rule place
      else pure perMethod)
    let perMethods ← internalAddRuleObject rule place (method + 1) perMethods
    return perMethod :: perMethods

def validateRules : ℕ → List BaseRule → List PerMethod → Outcome (List PerMethod)
  | _, [], perMethods => return perMethods
  | place, rule :: rules, perMethods => do
    rule.validate
    let perMethods ← internalAddRuleObject rule place 0 perMethods
    validateRules (place + 1) rules perMethods

def optimizeTries : List PerMethod → Outcome (List PerMethod)
  | [] => return []
  | perMethod :: perMethods => do
    let trie ← ExceptT.lift perMethod.trie.optimize
    let perMethods ← optimizeTries perMethods
    return { perMethod with trie } :: perMethods

def Router.validate (router : Router) : Outcome Router := do
  let perMethods ← validateRules 0 router.allRules router.perMethods
  let perMethods ← optimizeTries perMethods
  return { router with perMethods }

/-- A route without a rule is one that was not found. -/
structure FindRoute (D : Type) where
  rule : Option ℕ := none
  params : RoutingParams D := {}
deriving DecidableEq

def Router.findRouteByIndex {D : Type} (P : NumberParsers D) (router : Router) (url : Text)
    (index : ℕ) : Except String (FindRoute D) :=
  match router.perMethods[index]? with
  | none => .ok {}
  | some perMethod =>
    let found := perMethod.trie.find P url
    match perMethod.rules[found.1]? with
    | none => .error "Trie internal structure corrupted!"
    | some rule =>
      if found.1 ≠ 0 then .ok { rule := rule, params := found.2 } else .ok {}

/-- The urls under which a rule is entered. -/
inductive EntryUrl (rule : Text) : Text → Prop where
  | rule : EntryUrl rule rule
  | directory (h : directoryCase rule) : EntryUrl rule rule.dropLast

/-- The trie of a method holds these entries, each for a rule of that method. -/
structure Serves (allRules : List BaseRule) (method : ℕ) (perMethod : PerMethod)
    (entries : List (Text × ℕ)) : Prop where
  represents : Represents perMethod.trie entries
  no_rule : perMethod.rules[0]? = some none
  entry : ∀ url k, (url, k) ∈ entries → k ≠ 0 ∧ ∃ place rule,
    perMethod.rules[k]? = some (some place) ∧ allRules[place]? = some rule ∧
      rule.methodsBitfield.testBit method ∧ EntryUrl rule.rule url

theorem returns_addToTrie {trie trie' : Trie} {url : Text} {k : ℕ}
    (h : (addToTrie trie url k).Returns trie') : trie.add url k = some (trie', .ok ()) := by
  unfold addToTrie at h
  split at h
  · simp [Outcome.Returns] at h
  · simp [Outcome.Returns] at h
  · rename_i u hadd
    rw [hadd, Outcome.returns_pure.1 h]

theorem serves_init (allRules : List BaseRule) (method : ℕ) : Serves allRules method {} [] :=
  ⟨represents_fresh, rfl, by simp⟩

theorem serves_addToTrie {allRules : List BaseRule} {method place : ℕ} {trie trie' : Trie}
    {rules : List (Option ℕ)} {entries : List (Text × ℕ)} {rule : BaseRule} {url : Text}
    (h : Serves allRules method ⟨rules, trie⟩ entries) (hlast : rules.getLast? = some (some place))
    (hplace : allRules[place]? = some rule) (hbit : rule.methodsBitfield.testBit method)
    (hurl : EntryUrl rule.rule url) (hadd : (addToTrie trie url (rules.length - 1)).Returns trie') :
    Serves allRules method ⟨rules, trie'⟩ (entries ++ [(url, rules.length - 1)]) := by
  refine ⟨represents_add h.represents (returns_addToTrie hadd), h.no_rule, ?_⟩
  intro u k hmem
  rcases List.mem_append.1 hmem with hmem | hmem
  · exact h.entry u k hmem
  · obtain ⟨rfl, rfl⟩ := Prod.mk.inj (List.mem_singleton.1 hmem)
    rw [List.getLast?_eq_getElem?] at hlast
    refine ⟨?_, place, rule, hlast, hplace, hbit, hurl⟩
    intro h0
    rw [h0, h.no_rule] at hlast
    cases hlast

/-- The rules of the method among these are entered under all their urls. -/
def Enters (rules : List BaseRule) (method : ℕ) (entries : List (Text × ℕ)) : Prop :=
  ∀ rule ∈ rules, rule.methodsBitfield.testBit method → ∀ url, EntryUrl rule.rule url →
    ∃ k, (url, k) ∈ entries

theorem serves_addRule {allRules : List BaseRule} {method place : ℕ}
    {perMethod perMethod' : PerMethod} {entries : List (Text × ℕ)} {rule : BaseRule}
    (h : Serves allRules method perMethod entries)
    (hplace : allRules[place]? = some rule) (hbit : rule.methodsBitfield.testBit method)
    (hadd : (perMethod.addRule rule.rule place).Returns perMethod') :
    ∃ entries', Serves allRules method perMethod' entries' ∧ entries ⊆ entries' ∧
      ∀ url, EntryUrl rule.rule url → ∃ k, (url, k) ∈ entries' := by
  have hpush :
      Serves allRules method ⟨perMethod.rules ++ [some place], perMethod.trie⟩ entries := by
    refine ⟨h.represents, ?_, ?_⟩
    · rw [List.getElem?_append_left (List.getElem?_eq_some_iff.1 h.no_rule).1, h.no_rule]
    · intro u k hmem
      obtain ⟨hk, place', rule', hrule, hrest⟩ := h.entry u k hmem
      refine ⟨hk, place', rule', ?_, hrest⟩
      rw [List.getElem?_append_left (List.getElem?_eq_some_iff.1 hrule).1, hrule]
  have hlast : (perMethod.rules ++ [some place]).getLast? = some (some place) := by simp
  obtain ⟨trie, htrie, hadd⟩ := Outcome.returns_bind.1 hadd
  have hs := serves_addToTrie hpush hlast hplace hbit .rule htrie
  split_ifs at hadd with hdir
  · obtain ⟨trie', htrie', hadd⟩ := Outcome.returns_bind.1 hadd
    rw [← Outcome.returns_pure.1 hadd]
    refine ⟨_, serves_addToTrie hs hlast hplace hbit (.directory hdir) htrie', by simp, ?_⟩
    intro url hurl
    cases hurl with
    | rule => exact ⟨_, by simp; exact .inr (.inl rfl)⟩
    | directory => exact ⟨_, by simp; exact .inr (.inr rfl)⟩
  · rw [← Outcome.returns_pure.1 hadd]
    refine ⟨_, hs, by simp, ?_⟩
    intro url hurl
    cases hurl with
    | rule => exact ⟨_, by simp; exact .inr rfl⟩
    | directory hdir' => exact (hdir hdir').elim

/-- Every method from this one on serves its rules and has those that were entered. -/
def AllEnter (allRules entered : List BaseRule) (method : ℕ) (perMethods : List PerMethod) : Prop :=
  ∀ i perMethod, perMethods[i]? = some perMethod →
    ∃ entries, Serves allRules (method + i) perMethod entries ∧
      Enters entered (method + i) entries

theorem enters_append {entered : List BaseRule} {rule : BaseRule} {method : ℕ}
    {entries entries' : List (Text × ℕ)} (h : Enters entered method entries)
    (hsub : entries ⊆ entries') (hrule : rule.methodsBitfield.testBit method →
      ∀ url, EntryUrl rule.rule url → ∃ k, (url, k) ∈ entries') :
    Enters (entered ++ [rule]) method entries' := by
  intro r hr hbit url hurl
  rcases List.mem_append.1 hr with hr | hr
  · obtain ⟨k, hk⟩ := h r hr hbit url hurl
    exact ⟨k, hsub hk⟩
  · obtain rfl := List.mem_singleton.1 hr
    exact hrule hbit url hurl

/-- The loop over the methods: what holds of a method before a rule is entered or passed
over, and what holds after it. -/
theorem forall_internalAddRuleObject {I I' : ℕ → PerMethod → Prop} {rule : BaseRule} {place : ℕ}
    (hskip : ∀ m pm, ¬ rule.methodsBitfield.testBit m → I m pm → I' m pm)
    (henter : ∀ m pm pm', rule.methodsBitfield.testBit m → I m pm →
      (pm.addRule rule.rule place).Returns pm' → I' m pm')
    {method : ℕ} {perMethods perMethods' : List PerMethod}
    (h : ∀ i pm, perMethods[i]? = some pm → I (method + i) pm)
    (hadd : (internalAddRuleObject rule place method perMethods).Returns perMethods') :
    ∀ i pm, perMethods'[i]? = some pm → I' (method + i) pm := by
  induction perMethods generalizing method perMethods' with
  | nil =>
    rw [← Outcome.returns_pure.1 hadd]
    intro i pm hi
    simp at hi
  | cons perMethod perMethods ih =>
    rw [internalAddRuleObject] at hadd
    obtain ⟨pm', hpm, hadd⟩ := Outcome.returns_bind.1 hadd
    obtain ⟨pms, hpms, hadd⟩ := Outcome.returns_bind.1 hadd
    rw [← Outcome.returns_pure.1 hadd]
    have hhead : I method perMethod := h 0 perMethod rfl
    intro i pm hi
    cases i with
    | zero =>
      rw [← Option.some.inj hi]
      split_ifs at hpm with hbit
      · exact henter method perMethod pm' hbit hhead hpm
      · rw [← Outcome.returns_pure.1 hpm]
        exact hskip method perMethod hbit hhead
    | succ i =>
      rw [Nat.add_comm i, ← Nat.add_assoc]
      refine ih (fun i pm hi => ?_) hpms i pm hi
      rw [Nat.add_assoc, Nat.add_comm 1]
      exact h (i + 1) pm hi

theorem forall_validateRules {I : List BaseRule → ℕ → PerMethod → Prop} {allRules : List BaseRule}
    (hskip : ∀ entered rule m pm, ¬ rule.methodsBitfield.testBit m → I entered m pm →
      I (entered ++ [rule]) m pm)
    (henter : ∀ entered (rule : BaseRule) place m pm pm', allRules[place]? = some rule →
      rule.methodsBitfield.testBit m → I entered m pm →
      (pm.addRule rule.rule place).Returns pm' → I (entered ++ [rule]) m pm')
    {entered rules : List BaseRule} {place : ℕ} {perMethods perMethods' : List PerMethod}
    (hrules : allRules.drop place = rules)
    (h : ∀ i pm, perMethods[i]? = some pm → I entered (0 + i) pm)
    (hval : (validateRules place rules perMethods).Returns perMethods') :
    ∀ i pm, perMethods'[i]? = some pm → I (entered ++ rules) (0 + i) pm := by
  induction rules generalizing place entered perMethods with
  | nil =>
    rw [← Outcome.returns_pure.1 hval, List.append_nil]
    exact h
  | cons rule rules ih =>
    have hplace : allRules[place]? = some rule := by
      rw [← List.head?_drop, hrules]
      rfl
    obtain ⟨_, -, hval⟩ := Outcome.returns_bind.1 hval
    obtain ⟨pms, hpms, hval⟩ := Outcome.returns_bind.1 hval
    rw [List.append_cons]
    refine ih ?_ ?_ hval
    · rw [← List.drop_drop, hrules]
      rfl
    · exact forall_internalAddRuleObject (hskip entered rule)
        (fun m pm pm' => henter entered rule place m pm pm' hplace) h hpms

theorem allEnter_validateRules {allRules entered : List BaseRule} {rules : List BaseRule}
    {place : ℕ} {perMethods perMethods' : List PerMethod} (hrules : allRules.drop place = rules)
    (h : AllEnter allRules entered 0 perMethods)
    (hval : (validateRules place rules perMethods).Returns perMethods') :
    AllEnter allRules (entered ++ rules) 0 perMethods' := by
  refine forall_validateRules
    (I := fun entered m pm => ∃ entries, Serves allRules m pm entries ∧ Enters entered m entries)
    ?_ ?_ hrules h hval
  · rintro entered rule m pm hbit ⟨entries, hs, henters⟩
    exact ⟨entries, hs, enters_append henters (List.Subset.refl _) fun hb => (hbit hb).elim⟩
  · rintro entered rule place m pm pm' hplace hbit ⟨entries, hs, henters⟩ hadd
    obtain ⟨entries', hs', hsub, hnew⟩ := serves_addRule hs hplace hbit hadd
    exact ⟨entries', hs', enters_append henters hsub fun _ => hnew⟩

theorem getElem?_optimizeTries {perMethods perMethods' : List PerMethod}
    (hopt : (optimizeTries perMethods).Returns perMethods') {i : ℕ} {perMethod' : PerMethod}
    (hi : perMethods'[i]? = some perMethod') : ∃ perMethod, perMethods[i]? = some perMethod ∧
      perMethod'.rules = perMethod.rules ∧ perMethod.trie.optimize = some perMethod'.trie := by
  induction perMethods generalizing perMethods' i with
  | nil =>
    rw [← Outcome.returns_pure.1 hopt] at hi
    simp at hi
  | cons pm pms ih =>
    obtain ⟨trie, htrie, hopt⟩ := Outcome.returns_bind.1 hopt
    obtain ⟨pms', hpms, hopt⟩ := Outcome.returns_bind.1 hopt
    rw [← Outcome.returns_pure.1 hopt] at hi
    cases i with
    | zero =>
      obtain rfl := Option.some.inj hi
      refine ⟨pm, rfl, rfl, ?_⟩
      rcases hres : pm.trie.optimize with _ | t
      · simp [Outcome.Returns, hres] at htrie
      · simpa [Outcome.Returns, hres] using htrie
    | succ i => exact ih hpms hi

theorem length_internalAddRuleObject {rule : BaseRule} {place method : ℕ}
    {perMethods perMethods' : List PerMethod}
    (hadd : (internalAddRuleObject rule place method perMethods).Returns perMethods') :
    perMethods'.length = perMethods.length := by
  induction perMethods generalizing method perMethods' with
  | nil => rw [← Outcome.returns_pure.1 hadd]
  | cons perMethod perMethods ih =>
    rw [internalAddRuleObject] at hadd
    obtain ⟨pm, -, hadd⟩ := Outcome.returns_bind.1 hadd
    obtain ⟨pms, hpms, hadd⟩ := Outcome.returns_bind.1 hadd
    rw [← Outcome.returns_pure.1 hadd, List.length_cons, ih hpms, List.length_cons]

theorem length_validateRules {rules : List BaseRule} {place : ℕ}
    {perMethods perMethods' : List PerMethod}
    (hval : (validateRules place rules perMethods).Returns perMethods') :
    perMethods'.length = perMethods.length := by
  induction rules generalizing place perMethods with
  | nil => rw [← Outcome.returns_pure.1 hval]
  | cons rule rules ih =>
    obtain ⟨_, -, hval⟩ := Outcome.returns_bind.1 hval
    obtain ⟨pms, hpms, hval⟩ := Outcome.returns_bind.1 hval
    rw [ih hval, length_internalAddRuleObject hpms]

theorem length_optimizeTries {perMethods perMethods' : List PerMethod}
    (hopt : (optimizeTries perMethods).Returns perMethods') :
    perMethods'.length = perMethods.length := by
  induction perMethods generalizing perMethods' with
  | nil => rw [← Outcome.returns_pure.1 hopt]
  | cons pm pms ih =>
    obtain ⟨trie, -, hopt⟩ := Outcome.returns_bind.1 hopt
    obtain ⟨pms', hpms, hopt⟩ := Outcome.returns_bind.1 hopt
    rw [← Outcome.returns_pure.1 hopt, List.length_cons, ih hpms, List.length_cons]

theorem entered_validate {allRules : List BaseRule} {router : Router}
    (hval : (Router.validate { allRules }).Returns router) : ∃ perMethods,
      (validateRules 0 allRules (Router.perMethods { allRules })).Returns perMethods ∧
      (optimizeTries perMethods).Returns router.perMethods ∧
      perMethods.length = methodNotAllowedIndex + 1 ∧ AllEnter allRules allRules 0 perMethods := by
  obtain ⟨pms, hpms, hval⟩ := Outcome.returns_bind.1 hval
  obtain ⟨pms', hopt, hval⟩ := Outcome.returns_bind.1 hval
  obtain rfl := Outcome.returns_pure.1 hval
  have hinit : AllEnter allRules [] 0 (List.replicate (methodNotAllowedIndex + 1) {}) := by
    intro i pm hi
    obtain rfl := List.eq_of_mem_replicate (List.mem_of_getElem? hi)
    exact ⟨[], serves_init allRules _, by simp [Enters]⟩
  refine ⟨pms, hpms, hopt, ?_, allEnter_validateRules rfl hinit hpms⟩
  rw [length_validateRules hpms, List.length_replicate]

theorem perMethods_validate {allRules : List BaseRule} {router : Router}
    (hval : (Router.validate { allRules }).Returns router) :
    router.perMethods.length = methodNotAllowedIndex + 1 ∧
      ∀ index perMethod', router.perMethods[index]? = some perMethod' →
        ∃ perMethod entries, Serves allRules index perMethod entries ∧
          Enters allRules index entries ∧ perMethod'.rules = perMethod.rules ∧
          SameRoutes perMethod.trie perMethod'.trie := by
  obtain ⟨pms, -, hopt, hlen, henter⟩ := entered_validate hval
  refine ⟨(length_optimizeTries hopt).trans hlen, fun index pm' hindex => ?_⟩
  obtain ⟨pm, hpm, hrules, htrie⟩ := getElem?_optimizeTries hopt hindex
  obtain ⟨entries, hs, hall⟩ := henter index pm hpm
  rw [Nat.zero_add] at hs hall
  exact ⟨pm, entries, hs, hall, hrules,
    sameRoutes_optimize (shaped_of_grown hs.represents.grown) htrie⟩

theorem findRouteByIndex_spec {D : Type} (P : NumberParsers D) {allRules : List BaseRule}
    {router : Router} (hval : (Router.validate { allRules }).Returns router) {url : Text}
    {index place : ℕ} {params : RoutingParams D}
    (hfind : router.findRouteByIndex P url index = .ok ⟨some place, params⟩) :
    ∃ rule entry values, allRules[place]? = some rule ∧ rule.methodsBitfield.testBit index ∧
      EntryUrl rule.rule entry ∧ RuleCaptures P entry url values ∧ params = paramsOf values := by
  unfold Router.findRouteByIndex at hfind
  split at hfind
  · cases hfind
  · rename_i pm' hindex
    obtain ⟨pm, entries, hs, -, hrules, hsame⟩ := (perMethods_validate hval).2 index pm' hindex
    simp only [find_sameRoutes hsame P url, hrules] at hfind
    split at hfind
    · cases hfind
    · rename_i found hfound
      split_ifs at hfind with hne
      swap
      · cases hfind
      obtain ⟨rfl, rfl⟩ := FindRoute.mk.inj (Except.ok.inj hfind)
      obtain ⟨entry, values, hmem, hcap, hparams⟩ :=
        (finds_of_represents P hs.represents url).captured hne
      obtain ⟨-, place', rule, hplace', hrule, hbit, hentry⟩ := hs.entry entry _ hmem
      rw [hfound] at hplace'
      obtain rfl := Option.some.inj (Option.some.inj hplace')
      exact ⟨rule, entry, values, hrule, hbit, hentry, hcap, hparams⟩

end CrowCore.Routing
