import CrowCore.RouteEntries
import CrowCore.RouteListing

set_option autoImplicit false

/-!
# Listings before and after `validate`

A router lists the same rules before and after its tries have been optimised exactly
if keys end at the parent wherever a rule lies beyond it.
-/
namespace CrowCore.ListingAgreement
open RoutingTrie RoutingTrieBuild RoutingTrieOptimize RoutingTrieJoin Routing RouteEntries
open RouteListing

theorem boundary_of_stays {S : Text → Prop} {s : Text} (hs : S s) : Boundary S s := by
  have hreach : ∀ d b, Boundary S b → b <+: s → s.length - b.length = d → Boundary S s := by
    intro d
    induction d using Nat.strong_induction_on with
    | _ d ih =>
      intro b hb hbs hd
      by_cases hlt : b.length < s.length
      · have hne : (ends S b).Nonempty := ⟨s.length, s, hs, hbs, rfl, hlt⟩
        have hleast : IsLeast (ends S b) (sInf (ends S b)) :=
          ⟨Nat.sInf_mem hne, fun n hn => Nat.sInf_le hn⟩
        obtain ⟨_, _, _, _, hgt⟩ := hleast.1
        have hle := hleast.2 ⟨s, hs, hbs, rfl, hlt⟩
        have hlen : (s.take (sInf (ends S b))).length = sInf (ends S b) := by
          rw [List.length_take]
          omega
        exact ih _ (by omega) _ (hb.next hleast hs hbs hlt) (List.take_prefix _ _) rfl
      · rw [hbs.eq_of_length_le (by omega)] at hb
        exact hb
  exact hreach _ [] .nil (List.nil_prefix) rfl

/-- The url under which a rule is listed: in the directory case the one without the slash. -/
def shownUrl (rule : Text) : Text := if directoryCase rule then rule.dropLast else rule

theorem entryUrl_shownUrl (rule : Text) : EntryUrl rule (shownUrl rule) := by
  unfold shownUrl
  split_ifs with h
  · exact .directory h
  · exact .rule

theorem entryUrl_cases {rule url : Text} (h : EntryUrl rule url) :
    url = shownUrl rule ∨ url = shownUrl rule ++ ['/'] := by
  unfold shownUrl
  split_ifs with hdir
  · cases h with
    | directory => exact .inl rfl
    | rule =>
      right
      simp only [directoryCase, Bool.and_eq_true, beq_iff_eq] at hdir
      exact (List.dropLast_append_getLast? '/' hdir.2).symm
  · cases h with
    | directory hdir' => exact (hdir hdir').elim
    | rule => exact .inl rfl

theorem eq_shownUrl {rule url : Text} (h : EntryUrl rule url) (hslash : url.getLast? ≠ some '/') :
    url = shownUrl rule := by
  rcases entryUrl_cases h with heq | heq
  · exact heq
  · rw [heq, List.getLast?_concat] at hslash
    exact absurd rfl hslash

/-- In every method that has rules beyond the parent, keys end at the parent; and rules
whose last slash is not dropped have that slash as a key of its own. -/
def ListedAlike (allRules : List BaseRule) (parent : Text) : Prop :=
  ∀ method ≤ methodNotAllowedIndex, ∀ rule ∈ allRules, rule.methodsBitfield.testBit method →
    '<' ∉ shownUrl rule.rule → parent <+: shownUrl rule.rule → parent ≠ shownUrl rule.rule →
      if (shownUrl rule.rule).getLast? = some '/' then
        Boundary (LiteralText allRules method) parent →
          Boundary (LiteralText allRules method) (shownUrl rule.rule).dropLast
      else Boundary (LiteralText allRules method) parent

structure Optimised (allRules : List BaseRule) (method : ℕ) (perMethod perMethod' : PerMethod)
    (entries : List (Text × ℕ)) : Prop where
  serves : Serves allRules method perMethod entries
  enters : Enters allRules method entries
  tended : Tended allRules method perMethod
  rules_eq : perMethod'.rules = perMethod.rules
  optimize : perMethod.trie.optimize = some perMethod'.trie

section Method
variable {allRules : List BaseRule} {method : ℕ} {perMethod perMethod' : PerMethod}
  {entries : List (Text × ℕ)}

theorem Optimised.grown (h : Optimised allRules method perMethod perMethod' entries) :
    Grown perMethod.trie := h.serves.represents.grown

theorem Optimised.staysAt (h : Optimised allRules method perMethod perMethod' entries) :
    StaysAt perMethod.trie (LiteralText allRules method) :=
  staysAt_literalText h.serves h.enters h.tended

theorem Optimised.ruleIndex (h : Optimised allRules method perMethod perMethod' entries) (j : ℕ) :
    (perMethod'.trie.node j).ruleIndex = (perMethod.trie.node j).ruleIndex :=
  (sameRoutes_optimize (shaped_of_grown h.grown) h.optimize).ruleIndex_eq j

/-- The rule at a node is a rule of the method, under the url that leads to the node. -/
structure RuleOfNode (allRules : List BaseRule) (method : ℕ) (perMethod : PerMethod) (s : Text)
    (j place : ℕ) (rule : BaseRule) : Prop where
  ruleOf : perMethod.rules[(perMethod.trie.node j).ruleIndex]? = some (some place)
  place : allRules[place]? = some rule
  bit : rule.methodsBitfield.testBit method
  url : EntryUrl rule.rule s
  literal : '<' ∉ s

theorem Optimised.rule (h : Optimised allRules method perMethod perMethod' entries) {s : Text}
    {j : ℕ} (hj : (perMethod.trie.node j).ruleIndex ≠ 0)
    (hf : follow perMethod.trie 0 (literal s) = some j) :
    ∃ place rule, RuleOfNode allRules method perMethod s j place rule := by
  obtain ⟨url, hmem, hpattern⟩ := (h.serves.represents.rule_iff _ _ hj).1 ⟨j, hf, rfl⟩
  obtain rfl := pattern_literal hpattern
  obtain ⟨-, place, rule, hrule, hplace, hbit, hurl⟩ := h.serves.entry url _ hmem
  exact ⟨place, rule, hrule, hplace, hbit, hurl, not_mem_of_pattern hpattern⟩

theorem RuleOfNode.literalText {s : Text} {j place : ℕ} {rule : BaseRule}
    (h : RuleOfNode allRules method perMethod s j place rule) {url : Text}
    (hurl : EntryUrl rule.rule url) (hlit : '<' ∉ url) : LiteralText allRules method url := by
  refine ⟨rule, List.mem_of_getElem? h.place, h.bit, url, hurl, ?_⟩
  rw [literalPart_eq (pattern_of_literal hlit), literalTokens_literal]

theorem RuleOfNode.boundary_dropLast {s : Text} {j place : ℕ} {rule : BaseRule}
    (h : RuleOfNode allRules method perMethod s j place rule) (hne : s ≠ shownUrl rule.rule) :
    s.getLast? = some '/' ∧ Boundary (LiteralText allRules method) s.dropLast := by
  have hs := (entryUrl_cases h.url).resolve_left hne
  have hlit := h.literal
  rw [hs] at hlit ⊢
  rw [List.getLast?_concat, List.dropLast_concat]
  refine ⟨rfl, boundary_of_stays (h.literalText (entryUrl_shownUrl rule.rule) fun hmem => ?_)⟩
  exact hlit (List.mem_append_left _ hmem)

theorem Optimised.listed_iff (h : Optimised allRules method perMethod perMethod' entries)
    {p : Text} {j : ℕ} : Listed perMethod.trie p 0 j ↔ (perMethod.trie.node j).ruleIndex ≠ 0 ∧
      ∃ s, follow perMethod.trie 0 (literal s) = some j ∧ p <+: s ∧ p ≠ s ∧
        s.getLast? ≠ some '/' := by
  have hprefix : ∀ s q j, follow perMethod.trie 0 (literal s) = some j → q <+: s →
      At perMethod.trie q := by
    rintro _ q j hf ⟨rest, rfl⟩
    rw [literal_append, follow_append] at hf
    obtain ⟨i, hi, -⟩ := Option.bind_eq_some_iff.1 hf
    exact ⟨i, (keyPath_self h.grown).2 hi⟩
  rw [listed_iff_text (leveled_self h.grown 0)]
  refine and_congr_right fun _ => exists_congr fun s => ?_
  rw [keyPath_self h.grown]
  constructor
  · rintro ⟨hf, -, hpre, hne, hslash⟩
    exact ⟨hf, hpre, hne, fun hlast => hslash ⟨hlast, hprefix s _ j hf s.dropLast_prefix⟩⟩
  · rintro ⟨hf, hpre, hne, hlast⟩
    exact ⟨hf, hprefix s p j hf hpre, hpre, hne, fun hslash => hlast hslash.1⟩

theorem Optimised.listed_iff' (h : Optimised allRules method perMethod perMethod' entries)
    {p : Text} {j : ℕ} : Listed perMethod'.trie p 0 j ↔ (perMethod.trie.node j).ruleIndex ≠ 0 ∧
      ∃ s, follow perMethod.trie 0 (literal s) = some j ∧ p <+: s ∧ p ≠ s ∧
        Boundary (LiteralText allRules method) p ∧
          ¬ (s.getLast? = some '/' ∧ Boundary (LiteralText allRules method) s.dropLast) := by
  have hat := keyPath_iff_boundary h.grown h.optimize h.staysAt
  have hleveled := leveled_optimize h.grown h.optimize
  rw [listed_iff_text hleveled, h.ruleIndex]
  refine and_congr_right fun hrule => exists_congr fun s => ?_
  rw [At, hat, At, hat]
  constructor
  · rintro ⟨hpath, hp, hpre, hne, hslash⟩
    exact ⟨hleveled.follow hpath, hpre, hne, hp, hslash⟩
  · rintro ⟨hf, hpre, hne, hp, hslash⟩
    refine ⟨?_, hp, hpre, hne, hslash⟩
    have hs : LiteralText allRules method s :=
      h.staysAt.of_stays s j hf (isSimpleNode_eq_false.2 (.inl hrule))
    obtain ⟨k, hk⟩ := (hat s).2 (boundary_of_stays hs)
    have hkj := (hleveled.follow hk).symm.trans hf
    rwa [Option.some.inj hkj] at hk

end Method

theorem count_map_le {α β : Type} [DecidableEq β] {l l' : List α} {f : α → β} {b : β}
    (hl : l.Nodup) (hsub : ∀ x ∈ l, f x = b → x ∈ l') :
    (l.map f).count b ≤ (l'.map f).count b := by
  rw [List.count_eq_countP, List.count_eq_countP, List.countP_map, List.countP_map,
    List.countP_eq_length_filter, List.countP_eq_length_filter]
  refine ((hl.filter _).subperm fun x hx => ?_).length_le
  rw [List.mem_filter] at hx ⊢
  exact ⟨hsub x hx.1 (by simpa using hx.2), hx.2⟩

theorem count_map_lt {α β : Type} [DecidableEq β] {l l' : List α} {f : α → β} {b : β} {x : α}
    (hl : l.Nodup) (hsub : ∀ x ∈ l, f x = b → x ∈ l') (hx : x ∈ l') (hxb : f x = b)
    (hxl : x ∉ l) : (l.map f).count b < (l'.map f).count b := by
  have hle : ((x :: l).map f).count b ≤ (l'.map f).count b := by
    refine count_map_le (List.nodup_cons.2 ⟨hxl, hl⟩) fun y hy hyb => ?_
    rcases List.mem_cons.1 hy with rfl | hy
    · exact hx
    · exact hsub y hy hyb
  rw [List.map_cons, hxb, List.count_cons_self] at hle
  omega

theorem not_perm_of_count {α : Type} [DecidableEq α] (a : α) {n i : ℕ} {f g : ℕ → List α}
    (hle : ∀ k < n, (f k).count a ≤ (g k).count a) (hi : i < n)
    (hlt : (f i).count a < (g i).count a) :
    ¬ ((List.range n).flatMap f).Perm ((List.range n).flatMap g) := by
  intro hperm
  have hcount := hperm.count_eq a
  rw [List.count_flatMap, List.count_flatMap] at hcount
  refine absurd hcount (ne_of_lt (List.sum_lt_sum _ _ (fun k hk => ?_) ⟨i, ?_, hlt⟩))
  · exact hle k (List.mem_range.1 hk)
  · exact List.mem_range.2 hi

def placeAt (rules : List (Option ℕ)) (index : ℕ) : ℕ := (rules[index]?.join).getD 0

def placesOf (perMethod : PerMethod) (nodes : List ℕ) : List ℕ :=
  nodes.map fun j => placeAt perMethod.rules (perMethod.trie.node j).ruleIndex

theorem mapM_ruleOf {rules : List (Option ℕ)} {indexes : List ℕ}
    (h : ∀ index ∈ indexes, ∃ place, rules[index]? = some (some place)) :
    Outcome.Returns (indexes.mapM (ruleOf rules)) (indexes.map (placeAt rules)) := by
  induction indexes with
  | nil => rfl
  | cons index indexes ih =>
    obtain ⟨place, hplace⟩ := h index List.mem_cons_self
    have hrest := ih fun x hx => h x (List.mem_cons_of_mem index hx)
    rw [List.mapM_cons, List.map_cons]
    refine Outcome.returns_bind.2 ⟨place, by simp [ruleOf, hplace], ?_⟩
    refine Outcome.returns_bind.2 ⟨_, hrest, ?_⟩
    simp [placeAt, hplace]

theorem methodRoutes_returns {t₀ : Trie} {perMethod : PerMethod} (hw : Within t₀ perMethod.trie)
    (hg : Grown t₀) (hleveled : Leveled t₀ perMethod.trie 0) (parent : Text)
    (hrules : ∀ j, Listed perMethod.trie parent 0 j → ∃ place,
      perMethod.rules[(perMethod.trie.node j).ruleIndex]? = some (some place)) :
    ∃ nodes : List ℕ, nodes.Nodup ∧ (∀ j, j ∈ nodes ↔ Listed perMethod.trie parent 0 j) ∧
      (methodRoutes parent perMethod).Returns (placesOf perMethod nodes) := by
  obtain ⟨nodes, hnodup, hmem, hfind⟩ := findRouteIndexes_lists hw hg hleveled parent
  refine ⟨nodes, hnodup, hmem, ?_⟩
  refine Outcome.returns_bind.2 ⟨_, by rw [hfind]; rfl, ?_⟩
  have hplaces : ∀ index ∈ nodes.map fun j => (perMethod.trie.node j).ruleIndex,
      ∃ place, perMethod.rules[index]? = some (some place) := by
    intro index hindex
    obtain ⟨j, hj, rfl⟩ := List.mem_map.1 hindex
    exact hrules j ((hmem j).1 hj)
  have hmap := mapM_ruleOf hplaces
  rwa [List.map_map] at hmap

structure Listing (allRules : List BaseRule) (parent : Text) (method : ℕ)
    (perMethod perMethod' : PerMethod) (nodes nodes' : List ℕ) : Prop where
  optimised : ∃ entries, Optimised allRules method perMethod perMethod' entries
  nodup : nodes.Nodup
  nodup' : nodes'.Nodup
  mem : ∀ j, j ∈ nodes ↔ Listed perMethod.trie parent 0 j
  mem' : ∀ j, j ∈ nodes' ↔ Listed perMethod'.trie parent 0 j
  returns : (methodRoutes parent perMethod).Returns (placesOf perMethod nodes)
  returns' : (methodRoutes parent perMethod').Returns (placesOf perMethod nodes')

theorem listing_exists {allRules : List BaseRule} {method : ℕ} {perMethod perMethod' : PerMethod}
    {entries : List (Text × ℕ)} (h : Optimised allRules method perMethod perMethod' entries)
    (parent : Text) : ∃ nodes nodes',
      Listing allRules parent method perMethod perMethod' nodes nodes' := by
  have hrule : ∀ s j, (perMethod.trie.node j).ruleIndex ≠ 0 →
      follow perMethod.trie 0 (literal s) = some j → ∃ place,
        perMethod.rules[(perMethod.trie.node j).ruleIndex]? = some (some place) := by
    intro s j hj hf
    obtain ⟨place, rule, hr⟩ := h.rule hj hf
    exact ⟨place, hr.ruleOf⟩
  obtain ⟨nodes, hnodup, hmem, hreturns⟩ := methodRoutes_returns (within_self h.grown) h.grown
    (leveled_self h.grown 0) parent fun j hj => by
      obtain ⟨hj, s, hf, -⟩ := h.listed_iff.1 hj
      exact hrule s j hj hf
  obtain ⟨nodes', hnodup', hmem', hreturns'⟩ := methodRoutes_returns
    (optimize_joined h.grown h.optimize).1 h.grown (leveled_optimize h.grown h.optimize) parent
    fun j hj => by
      obtain ⟨hj, s, hf, -⟩ := h.listed_iff'.1 hj
      rw [h.ruleIndex, h.rules_eq]
      exact hrule s j hj hf
  simp only [placesOf, h.ruleIndex, h.rules_eq] at hreturns'
  exact ⟨nodes, nodes', ⟨entries, h⟩, hnodup, hnodup', hmem, hmem', hreturns, hreturns'⟩

section Agreement
variable {allRules : List BaseRule} {parent : Text} {method : ℕ}
  {perMethod perMethod' : PerMethod} {nodes nodes' : List ℕ}

theorem Listing.mem_iff (h : Listing allRules parent method perMethod perMethod' nodes nodes')
    (hmethod : method ≤ methodNotAllowedIndex) (halike : ListedAlike allRules parent) (j : ℕ) :
    j ∈ nodes' ↔ j ∈ nodes := by
  obtain ⟨entries, hopt⟩ := h.optimised
  rw [h.mem, h.mem', hopt.listed_iff, hopt.listed_iff']
  refine and_congr_right fun hrule => exists_congr fun s => and_congr_right fun hf =>
    and_congr_right fun hpre => and_congr_right fun hne => ?_
  obtain ⟨place, rule, hr⟩ := hopt.rule hrule hf
  have hmem := List.mem_of_getElem? hr.place
  by_cases hshown : s = shownUrl rule.rule
  · have hlit := hr.literal
    rw [hshown] at hlit hpre hne ⊢
    have hcond := halike method hmethod rule hmem hr.bit hlit hpre hne
    by_cases hlast : (shownUrl rule.rule).getLast? = some '/'
    · rw [if_pos hlast] at hcond
      exact iff_of_false (fun hp => hp.2 ⟨hlast, hcond hp.1⟩) fun hnot => hnot hlast
    · rw [if_neg hlast] at hcond
      exact iff_of_true ⟨hcond, fun hslash => hlast hslash.1⟩ hlast
  · have hslash := hr.boundary_dropLast hshown
    exact iff_of_false (fun hp => hp.2 hslash) fun hnot => hnot hslash.1

theorem Listing.rule_of_place
    (h : Listing allRules parent method perMethod perMethod' nodes nodes') {j : ℕ} {s : Text}
    (hj : (perMethod.trie.node j).ruleIndex ≠ 0)
    (hf : follow perMethod.trie 0 (literal s) = some j) : ∃ rule, RuleOfNode allRules method
      perMethod s j (placeAt perMethod.rules (perMethod.trie.node j).ruleIndex) rule := by
  obtain ⟨entries, hopt⟩ := h.optimised
  obtain ⟨place, rule, hr⟩ := hopt.rule hj hf
  refine ⟨rule, ?_⟩
  rw [placeAt, hr.ruleOf]
  exact hr

theorem Listing.node_of_rule
    (h : Listing allRules parent method perMethod perMethod' nodes nodes') {rule : BaseRule}
    (hrule : rule ∈ allRules) (hbit : rule.methodsBitfield.testBit method)
    (hlit : '<' ∉ shownUrl rule.rule) : ∃ j, (perMethod.trie.node j).ruleIndex ≠ 0 ∧
      follow perMethod.trie 0 (literal (shownUrl rule.rule)) = some j := by
  obtain ⟨entries, hopt⟩ := h.optimised
  obtain ⟨k, hk⟩ := hopt.enters rule hrule hbit _ (entryUrl_shownUrl rule.rule)
  have hne := (hopt.serves.entry _ k hk).1
  obtain ⟨j, hf, hj⟩ := (hopt.serves.represents.rule_iff _ k hne).2
    ⟨_, hk, pattern_of_literal hlit⟩
  exact ⟨j, hj.symm ▸ hne, hf⟩

theorem Listing.mem_of_mem (h : Listing allRules parent method perMethod perMethod' nodes nodes')
    {place : ℕ} {rule : BaseRule} (hplace : allRules[place]? = some rule)
    (hlast : (shownUrl rule.rule).getLast? ≠ some '/') {j : ℕ} (hj : j ∈ nodes')
    (hjp : placeAt perMethod.rules (perMethod.trie.node j).ruleIndex = place) : j ∈ nodes := by
  obtain ⟨entries, hopt⟩ := h.optimised
  obtain ⟨hne, s, hf, hpre, hps, -, hslash⟩ := hopt.listed_iff'.1 ((h.mem' j).1 hj)
  obtain ⟨rule', hr⟩ := h.rule_of_place hne hf
  rw [hjp] at hr
  have hsame : rule' = rule := Option.some.inj (hr.place.symm.trans hplace)
  rw [hsame] at hr
  rw [h.mem, hopt.listed_iff]
  refine ⟨hne, s, hf, hpre, hps, ?_⟩
  by_cases hshown : s = shownUrl rule.rule
  · rw [hshown]
    exact hlast
  · exact absurd (hr.boundary_dropLast hshown) hslash

theorem Listing.not_mem_of_slash
    (h : Listing allRules parent method perMethod perMethod' nodes nodes') {place : ℕ}
    {rule : BaseRule} (hplace : allRules[place]? = some rule)
    (hlast : (shownUrl rule.rule).getLast? = some '/') {j : ℕ} (hj : j ∈ nodes) :
    placeAt perMethod.rules (perMethod.trie.node j).ruleIndex ≠ place := by
  intro hjp
  obtain ⟨entries, hopt⟩ := h.optimised
  obtain ⟨hne, s, hf, -, -, hslash⟩ := hopt.listed_iff.1 ((h.mem j).1 hj)
  obtain ⟨rule', hr⟩ := h.rule_of_place hne hf
  rw [hjp] at hr
  have hsame : rule' = rule := Option.some.inj (hr.place.symm.trans hplace)
  rw [hsame] at hr
  have hshown := eq_shownUrl hr.url hslash
  rw [hshown] at hslash
  exact hslash hlast

end Agreement

theorem getRoutesLoop_returns {parent : Text} {perMethods : List PerMethod} {f : ℕ → List ℕ}
    (h : ∀ i pm, perMethods[i]? = some pm → (methodRoutes parent pm).Returns (f i)) :
    (getRoutesLoop parent perMethods).Returns ((List.range perMethods.length).flatMap f) := by
  induction perMethods generalizing f with
  | nil => rfl
  | cons pm perMethods ih =>
    have hrest := ih fun i pm hi => h (i + 1) pm hi
    refine Outcome.returns_bind.2 ⟨f 0, h 0 pm rfl, Outcome.returns_bind.2 ⟨_, hrest, ?_⟩⟩
    rw [List.length_cons, List.range_succ_eq_map, List.flatMap_cons, List.flatMap_map]
    exact Outcome.returns_pure.2 rfl

theorem optimised_validate {allRules : List BaseRule} {router : Router}
    (hval : (Router.validate { allRules }).Returns router) : ∃ perMethods,
      (validateRules 0 allRules (Router.perMethods { allRules })).Returns perMethods ∧
      perMethods.length = methodNotAllowedIndex + 1 ∧
      router.perMethods.length = methodNotAllowedIndex + 1 ∧
      ∀ i perMethod', router.perMethods[i]? = some perMethod' → ∃ perMethod entries,
        perMethods[i]? = some perMethod ∧ Optimised allRules i perMethod perMethod' entries := by
  obtain ⟨pms, hpms, hopt, hlen, henter⟩ := entered_validate hval
  have hinit : ∀ i pm, (List.replicate (methodNotAllowedIndex + 1) ({} : PerMethod))[i]? =
      some pm → Tended [] (0 + i) pm := by
    intro i pm hi
    obtain rfl := List.eq_of_mem_replicate (List.mem_of_getElem? hi)
    exact ⟨⟨[], planted_fresh, by simp⟩, Nat.one_pos, by simp⟩
  have htended := tended_validateRules hinit hpms
  refine ⟨pms, hpms, hlen, (length_optimizeTries hopt).trans hlen, fun i pm' hi => ?_⟩
  obtain ⟨pm, hpm, hrules, htrie⟩ := getElem?_optimizeTries hopt hi
  obtain ⟨entries, hs, hall⟩ := henter i pm hpm
  have ht := htended i pm hpm
  rw [Nat.zero_add] at hs hall ht
  exact ⟨pm, entries, hpm, hs, hall, ht, hrules, htrie⟩

section Family
variable {allRules : List BaseRule} {parent : Text} {pm pm' : ℕ → PerMethod}
  {nodes nodes' : ℕ → List ℕ}

theorem perm_of_alike (h : ∀ i < methodNotAllowedIndex + 1,
    Listing allRules parent i (pm i) (pm' i) (nodes i) (nodes' i))
    (halike : ListedAlike allRules parent) :
    ((List.range (methodNotAllowedIndex + 1)).flatMap fun i => placesOf (pm i) (nodes' i)).Perm
      ((List.range (methodNotAllowedIndex + 1)).flatMap fun i => placesOf (pm i) (nodes i)) := by
  refine List.Perm.flatMap_left _ fun i hi => ?_
  have hi := List.mem_range.1 hi
  have hnodes := (List.perm_ext_iff_of_nodup (h i hi).nodup' (h i hi).nodup).2
    fun j => (h i hi).mem_iff (Nat.le_of_lt_succ hi) halike j
  exact hnodes.map _

theorem not_perm_of_slash (h : ∀ i < methodNotAllowedIndex + 1,
    Listing allRules parent i (pm i) (pm' i) (nodes i) (nodes' i)) {method j place : ℕ}
    {rule : BaseRule} (hmethod : method < methodNotAllowedIndex + 1)
    (hplace : allRules[place]? = some rule) (hlast : (shownUrl rule.rule).getLast? = some '/')
    (hj : j ∈ nodes' method)
    (hjp : placeAt (pm method).rules ((pm method).trie.node j).ruleIndex = place) :
    ¬ ((List.range (methodNotAllowedIndex + 1)).flatMap fun i => placesOf (pm i) (nodes' i)).Perm
      ((List.range (methodNotAllowedIndex + 1)).flatMap fun i => placesOf (pm i) (nodes i)) := by
  have hnone : ∀ k < methodNotAllowedIndex + 1, ∀ x ∈ nodes k,
      placeAt (pm k).rules ((pm k).trie.node x).ruleIndex ≠ place :=
    fun k hk x hx => (h k hk).not_mem_of_slash hplace hlast hx
  intro hperm
  refine not_perm_of_count place (fun k hk => ?_) hmethod ?_ hperm.symm
  · exact count_map_le (h k hk).nodup fun x hx hxp => absurd hxp (hnone k hk x hx)
  · refine count_map_lt (h method hmethod).nodup (fun x hx hxp => ?_) hj hjp fun hx => ?_
    · exact absurd hxp (hnone method hmethod x hx)
    · exact hnone method hmethod j hx hjp

theorem not_perm_of_lost (h : ∀ i < methodNotAllowedIndex + 1,
    Listing allRules parent i (pm i) (pm' i) (nodes i) (nodes' i)) {method j place : ℕ}
    {rule : BaseRule} (hmethod : method < methodNotAllowedIndex + 1)
    (hplace : allRules[place]? = some rule) (hlast : (shownUrl rule.rule).getLast? ≠ some '/')
    (hj : j ∈ nodes method) (hj' : j ∉ nodes' method)
    (hjp : placeAt (pm method).rules ((pm method).trie.node j).ruleIndex = place) :
    ¬ ((List.range (methodNotAllowedIndex + 1)).flatMap fun i => placesOf (pm i) (nodes' i)).Perm
      ((List.range (methodNotAllowedIndex + 1)).flatMap fun i => placesOf (pm i) (nodes i)) := by
  have hmem : ∀ k < methodNotAllowedIndex + 1, ∀ x ∈ nodes' k,
      placeAt (pm k).rules ((pm k).trie.node x).ruleIndex = place → x ∈ nodes k :=
    fun k hk x hx hxp => (h k hk).mem_of_mem hplace hlast hx hxp
  refine not_perm_of_count place (fun k hk => ?_) hmethod ?_
  · exact count_map_le (h k hk).nodup' (hmem k hk)
  · exact count_map_lt (h method hmethod).nodup' (hmem method hmethod) hj hjp hj'

theorem alike_of_perm (h : ∀ i < methodNotAllowedIndex + 1,
    Listing allRules parent i (pm i) (pm' i) (nodes i) (nodes' i))
    (hperm : ((List.range (methodNotAllowedIndex + 1)).flatMap fun i =>
      placesOf (pm i) (nodes' i)).Perm
        ((List.range (methodNotAllowedIndex + 1)).flatMap fun i => placesOf (pm i) (nodes i))) :
    ListedAlike allRules parent := by
  intro method hmethod rule hrule hbit hlit hpre hne
  have hlt : method < methodNotAllowedIndex + 1 := Nat.lt_succ_of_le hmethod
  have hm := h method hlt
  obtain ⟨entries, hopt⟩ := hm.optimised
  obtain ⟨j, hj, hf⟩ := hm.node_of_rule hrule hbit hlit
  -- the rule at the node, of which the method would list more or less than before
  obtain ⟨rule', hr⟩ := hm.rule_of_place hj hf
  split_ifs with hlast
  · intro hp
    by_contra hboundary
    have hshown : shownUrl rule.rule = shownUrl rule'.rule := by
      by_contra hshown
      exact hboundary (hr.boundary_dropLast hshown).2
    have hj' : j ∈ nodes' method := by
      rw [hm.mem', hopt.listed_iff']
      exact ⟨hj, _, hf, hpre, hne, hp, fun hslash => hboundary hslash.2⟩
    exact not_perm_of_slash h hlt hr.place (hshown ▸ hlast) hj' rfl hperm
  · by_contra hboundary
    have hshown := eq_shownUrl hr.url hlast
    have hj' : j ∈ nodes method := by
      rw [hm.mem, hopt.listed_iff]
      exact ⟨hj, _, hf, hpre, hne, hlast⟩
    refine not_perm_of_lost h hlt hr.place (hshown ▸ hlast) hj' (fun hx => ?_) rfl hperm
    obtain ⟨-, s, -, -, -, hp, -⟩ := hopt.listed_iff'.1 ((hm.mem' j).1 hx)
    exact hboundary hp

end Family

/-- The listing of a validated router has the same rules as the one before its tries are
optimised, exactly under the condition. -/
theorem getRoutes_perm_iff {allRules : List BaseRule} {router : Router}
    (hval : (Router.validate { allRules }).Returns router) (parent : Text) :
    ∃ perMethods listed listed',
      (validateRules 0 allRules (Router.perMethods { allRules })).Returns perMethods ∧
      (getRoutes { allRules, perMethods } parent).Returns listed ∧
      (getRoutes router parent).Returns listed' ∧
      (listed'.Perm listed ↔ ListedAlike allRules parent) := by
  obtain ⟨perMethods, hpms, hlen, hlen', hopt⟩ := optimised_validate hval
  have hlisting : ∀ i, ∃ pm pm' nodes nodes', i < methodNotAllowedIndex + 1 →
      perMethods[i]? = some pm ∧ router.perMethods[i]? = some pm' ∧
        Listing allRules parent i pm pm' nodes nodes' := by
    intro i
    by_cases hi : i < methodNotAllowedIndex + 1
    · have hi' := List.getElem?_eq_getElem (hlen' ▸ hi)
      obtain ⟨pm, entries, hpm, hoptimised⟩ := hopt i _ hi'
      obtain ⟨nodes, nodes', hnodes⟩ := listing_exists hoptimised parent
      exact ⟨pm, _, nodes, nodes', fun _ => ⟨hpm, hi', hnodes⟩⟩
    · exact ⟨{}, {}, [], [], fun hlt => absurd hlt hi⟩
  choose pm pm' nodes nodes' hlisting using hlisting
  have hreturns : ∀ i perMethod, perMethods[i]? = some perMethod →
      (methodRoutes parent perMethod).Returns (placesOf (pm i) (nodes i)) := by
    intro i perMethod hi
    obtain ⟨hpm, -, hnodes⟩ := hlisting i (hlen ▸ (List.getElem?_eq_some_iff.1 hi).1)
    rw [Option.some.inj (hi.symm.trans hpm)]
    exact hnodes.returns
  have hreturns' : ∀ i perMethod, router.perMethods[i]? = some perMethod →
      (methodRoutes parent perMethod).Returns (placesOf (pm i) (nodes' i)) := by
    intro i perMethod hi
    obtain ⟨-, hpm', hnodes⟩ := hlisting i (hlen' ▸ (List.getElem?_eq_some_iff.1 hi).1)
    rw [Option.some.inj (hi.symm.trans hpm')]
    exact hnodes.returns'
  have hlisted := getRoutesLoop_returns hreturns
  have hlisted' := getRoutesLoop_returns hreturns'
  rw [hlen] at hlisted
  rw [hlen'] at hlisted'
  have hall := fun i hi => (hlisting i hi).2.2
  exact ⟨perMethods, _, _, hpms, hlisted, hlisted', alike_of_perm hall, perm_of_alike hall⟩

def exampleRules : List BaseRule :=
  [{ rule := ['/', 'a', 'b'], kind := .dynamic, hasHandler := true }]

theorem getRoutes_perm_iff_example : ∃ router perMethods listed listed' below below',
    (Router.validate { allRules := exampleRules }).Returns router ∧
    (validateRules 0 exampleRules (Router.perMethods { allRules := exampleRules })).Returns
      perMethods ∧
    (getRoutes { allRules := exampleRules, perMethods } []).Returns listed ∧
    (getRoutes router []).Returns listed' ∧
    (listed'.Perm listed ↔ ListedAlike exampleRules []) ∧
    (getRoutes { allRules := exampleRules, perMethods } ['/', 'a', 'b']).Returns below ∧
    (getRoutes router ['/', 'a', 'b']).Returns below' ∧
    (below'.Perm below ↔ ListedAlike exampleRules ['/', 'a', 'b']) := by
  obtain ⟨router, hval⟩ : ∃ router,
      (Router.validate { allRules := exampleRules }).Returns router := ⟨_, rfl⟩
  obtain ⟨perMethods, listed, listed', hpms, hlisted, hlisted', hiff⟩ := getRoutes_perm_iff hval []
  obtain ⟨perMethods', below, below', hpms', hbelow, hbelow', hiff'⟩ :=
    getRoutes_perm_iff hval ['/', 'a', 'b']
  obtain rfl : perMethods = perMethods' :=
    Except.ok.inj (Option.some.inj (hpms.symm.trans hpms'))
  exact ⟨router, perMethods, listed, listed', below, below', hval, hpms, hlisted, hlisted', hiff,
    hbelow, hbelow', hiff'⟩

/-- Under the parent "/" the rule is listed before its trie is optimised, and not after:
the only key is "/ab" then. -/
theorem parent_inside_key : ∃ router perMethods listed listed',
    (Router.validate { allRules := exampleRules }).Returns router ∧
    (validateRules 0 exampleRules (Router.perMethods { allRules := exampleRules })).Returns
      perMethods ∧
    (getRoutes { allRules := exampleRules, perMethods } ['/']).Returns listed ∧
    (getRoutes router ['/']).Returns listed' ∧ listed = [0] ∧ listed' = [] ∧
    ¬ listed'.Perm listed :=
  ⟨_, _, _, _, rfl, rfl, rfl, rfl, rfl, rfl, by decide⟩

end CrowCore.ListingAgreement
