import CrowCore.LeastEntry
import CrowCore.RoutingTrie

set_option autoImplicit false

/-!
# What `find` searches for

`matchesFrom` lists every rule below a node that matches the rest of the url,
with the values its parameters take, in the order of the backtracking search.
`find` keeps the first entry with the least rule index and gives the shared
`RoutingParams` back unchanged.
-/
namespace CrowCore.RoutingTrieSearch
open RoutingTrie LeastEntry

variable {D : Type}

def matchesFrom (P : NumberParsers D) (t : Trie) (reqUrl : Text) (node : Node) :
    List (ℕ × List (Value D)) :=
  if _hurl : reqUrl = [] then
    if node.ruleIndex = 0 then [] else [(node.ruleIndex, [])]
  else
    (ParamType.all.flatMap fun p =>
      if node.paramChildrens p ≠ 0 then
        match _hcapture : capture P p reqUrl with
        | some (value, n) =>
          (matchesFrom P t (reqUrl.drop n) (t.node (node.paramChildrens p))).map
            (Prod.map id (value :: ·))
        | none => []
      else []) ++
    node.children.flatMap fun kv =>
      if kv.1.val.isPrefixOf reqUrl then
        matchesFrom P t (reqUrl.drop kv.1.val.length) (t.node kv.2)
      else []
termination_by reqUrl.length
decreasing_by
  · have hn := capture_pos _hcapture
    have hl := List.length_pos_iff.2 _hurl
    simp only [List.length_drop]
    omega
  · have hk := List.length_pos_iff.2 kv.1.property
    have hl := List.length_pos_iff.2 _hurl
    simp only [List.length_drop]
    omega

def paramMatches (P : NumberParsers D) (t : Trie) (reqUrl : Text) (node : Node) (p : ParamType) :
    List (ℕ × List (Value D)) :=
  if node.paramChildrens p ≠ 0 then
    match capture P p reqUrl with
    | some (value, n) =>
      (matchesFrom P t (reqUrl.drop n) (t.node (node.paramChildrens p))).map
        (Prod.map id (value :: ·))
    | none => []
  else []

def literalMatches (P : NumberParsers D) (t : Trie) (reqUrl : Text) (kv : Fragment × ℕ) :
    List (ℕ × List (Value D)) :=
  if kv.1.val.isPrefixOf reqUrl then
    matchesFrom P t (reqUrl.drop kv.1.val.length) (t.node kv.2)
  else []

theorem matchesFrom_nil (P : NumberParsers D) (t : Trie) (node : Node) :
    matchesFrom P t [] node = if node.ruleIndex = 0 then [] else [(node.ruleIndex, [])] := by
  rw [matchesFrom, dif_pos rfl]

theorem matchesFrom_of_ne (P : NumberParsers D) (t : Trie) {reqUrl : Text} (node : Node)
    (h : reqUrl ≠ []) : matchesFrom P t reqUrl node =
      ParamType.all.flatMap (paramMatches P t reqUrl node) ++
        node.children.flatMap (literalMatches P t reqUrl) := by
  rw [matchesFrom, dif_neg h]
  congr 1
  · apply List.flatMap_congr
    intro p _
    unfold paramMatches
    split_ifs
    · split <;> simp_all
    · rfl

theorem drop_shorter {url : Text} {n : ℕ} (h : url ≠ []) (hn : 0 < n) :
    (url.drop n).length < url.length := by
  have hl := List.length_pos_iff.2 h
  rw [List.length_drop]
  omega

theorem matchesFrom_index_ne_zero (P : NumberParsers D) (t : Trie) (reqUrl : Text) (node : Node) :
    ∀ m ∈ matchesFrom P t reqUrl node, m.1 ≠ 0 := by
  induction hl : reqUrl.length using Nat.strong_induction_on generalizing reqUrl node with
  | _ len ih =>
    subst hl
    by_cases h : reqUrl = []
    · subst h
      rw [matchesFrom_nil]
      split_ifs with h0 <;> simp [h0]
    · rw [matchesFrom_of_ne P t node h]
      intro m hm
      rcases List.mem_append.1 hm with hm | hm
      · obtain ⟨p, -, hm⟩ := List.mem_flatMap.1 hm
        unfold paramMatches at hm
        split_ifs at hm
        · split at hm
          · rename_i value n hcapture
            obtain ⟨m', hm', rfl⟩ := List.mem_map.1 hm
            exact ih _ (drop_shorter h (capture_pos hcapture)) _ _ rfl m' hm'
          · simp at hm
        · simp at hm
      · obtain ⟨kv, -, hm⟩ := List.mem_flatMap.1 hm
        unfold literalMatches at hm
        split_ifs at hm
        · exact ih _ (drop_shorter h (List.length_pos_iff.2 kv.1.property)) _ _ rfl m hm
        · simp at hm

def toResult : Option (ℕ × RoutingParams D) → ℕ × RoutingParams D
  | none => (0, {})
  | some found => found

def ofResult (ret : ℕ × RoutingParams D) : Option (ℕ × RoutingParams D) :=
  if ret.1 = 0 then none else some ret

theorem ofResult_toResult {o : Option (ℕ × RoutingParams D)} (h : ∀ x ∈ o, x.1 ≠ 0) :
    ofResult (toResult o) = o := by
  rcases o with _ | x
  · rfl
  · exact if_neg (h x rfl)

/-- The locals of `find` after the entry `o` is the best so far. -/
def stateOf (params : RoutingParams D) (o : Option (ℕ × RoutingParams D)) : FindState D :=
  ⟨(toResult o).1, (toResult o).2, params⟩

theorem updateFound_stateOf (params : RoutingParams D) (o : Option (ℕ × RoutingParams D))
    (ho : ∀ x ∈ o, x.1 ≠ 0) (ret : ℕ × RoutingParams D) :
    (stateOf params o).updateFound ret = stateOf params (better o (ofResult ret)) := by
  unfold FindState.updateFound ofResult
  by_cases hret : ret.1 = 0
  · simp [hret]
  rcases o with _ | x
  · simp [hret, stateOf, toResult]
  · have hx : x.1 ≠ 0 := ho x rfl
    by_cases hlt : ret.1 < x.1 <;> simp [hret, hx, hlt, stateOf, toResult, better]

/-- A match as `find` returns it, its values pushed onto the shared parameters. -/
def withParams (params : RoutingParams D) : ℕ × List (Value D) → ℕ × RoutingParams D :=
  Prod.map id params.pushAll

def bestMatch (P : NumberParsers D) (t : Trie) (reqUrl : Text) (node : Node)
    (params : RoutingParams D) : Option (ℕ × RoutingParams D) :=
  leastEntry ((matchesFrom P t reqUrl node).map (withParams params))

theorem bestMatch_ne_zero (P : NumberParsers D) (t : Trie) (reqUrl : Text) (node : Node)
    (params : RoutingParams D) : ∀ x ∈ bestMatch P t reqUrl node params, x.1 ≠ 0 := by
  intro x hx
  obtain ⟨m, hm, rfl⟩ := List.mem_map.1 (leastEntry_spec hx).1
  exact matchesFrom_index_ne_zero P t reqUrl node m hm

theorem map_withParams_push (params : RoutingParams D) (value : Value D)
    (ms : List (ℕ × List (Value D))) :
    (ms.map (Prod.map id (value :: ·))).map (withParams params) =
      ms.map (withParams (params.push value)) := by
  rw [List.map_map]
  apply List.map_congr_left
  intro m _
  rfl

/-- What `find` promises its caller: the shared parameters are restored, and the
result is the best match, except that a used-up url may come with parameters
beside index 0. -/
def FindsBest (P : NumberParsers D) (t : Trie) (reqUrl : Text) (node : Node) : Prop :=
  ∀ params, (findFrom P t reqUrl node params).2 = params ∧
    ofResult (findFrom P t reqUrl node params).1 = bestMatch P t reqUrl node params ∧
    (reqUrl ≠ [] → (findFrom P t reqUrl node params).1 =
      toResult (bestMatch P t reqUrl node params))

def paramStep (P : NumberParsers D) (t : Trie) (reqUrl : Text) (node : Node)
    (s : FindState D) (p : ParamType) : FindState D :=
  if node.paramChildrens p ≠ 0 then
    match capture P p reqUrl with
    | some (value, n) =>
      let ret := findFrom P t (reqUrl.drop n) (t.node (node.paramChildrens p))
        (s.params.push value)
      { s.updateFound ret.1 with params := ret.2.pop p }
    | none => s
  else s

def literalStep (P : NumberParsers D) (t : Trie) (reqUrl : Text) (s : FindState D)
    (kv : Fragment × ℕ) : FindState D :=
  if kv.1.val.isPrefixOf reqUrl then
    let ret := findFrom P t (reqUrl.drop kv.1.val.length) (t.node kv.2) s.params
    { s.updateFound ret.1 with params := ret.2 }
  else s

theorem findFrom_nil (P : NumberParsers D) (t : Trie) (node : Node) (params : RoutingParams D) :
    findFrom P t [] node params = ((node.ruleIndex, params), params) := by
  rw [findFrom, dif_pos rfl]

theorem findFrom_of_ne (P : NumberParsers D) (t : Trie) {reqUrl : Text} (node : Node)
    (params : RoutingParams D) (h : reqUrl ≠ []) :
    findFrom P t reqUrl node params =
      let s := node.children.foldl (literalStep P t reqUrl)
        (ParamType.all.foldl (paramStep P t reqUrl node) (stateOf params none))
      ((s.found, s.matchParams), s.params) := by
  have hstep : (fun (s : FindState D) (p : ParamType) =>
      if node.paramChildrens p ≠ 0 then
        match _hcapture : capture P p reqUrl with
        | some (value, n) =>
          let ret := findFrom P t (reqUrl.drop n) (t.node (node.paramChildrens p))
            (s.params.push value)
          { s.updateFound ret.1 with params := ret.2.pop p }
        | none => s
      else s) = paramStep P t reqUrl node := by
    funext s p
    unfold paramStep
    split_ifs
    · split <;> simp_all
    · rfl
  rw [findFrom, dif_neg h, ← hstep]
  rfl

theorem paramStep_spec (P : NumberParsers D) (t : Trie) {reqUrl : Text} (node : Node)
    (h : reqUrl ≠ []) (ih : ∀ url node, url.length < reqUrl.length → FindsBest P t url node)
    (params : RoutingParams D) (o : Option (ℕ × RoutingParams D)) (ho : ∀ x ∈ o, x.1 ≠ 0)
    (p : ParamType) : paramStep P t reqUrl node (stateOf params o) p =
      stateOf params (better o
        (leastEntry ((paramMatches P t reqUrl node p).map (withParams params)))) := by
  unfold paramStep paramMatches
  split_ifs
  · cases hcapture : capture P p reqUrl with
    | none => simp
    | some vn =>
      obtain ⟨value, n⟩ := vn
      obtain ⟨hrest, hbest, -⟩ := ih (reqUrl.drop n) (t.node (node.paramChildrens p))
        (drop_shorter h (capture_pos hcapture)) (params.push value)
      dsimp only
      rw [map_withParams_push]
      change ({ (stateOf params o).updateFound _ with
        params := (findFrom P t _ _ (params.push value)).2.pop p } : FindState D) = _
      rw [hrest, push_pop hcapture, updateFound_stateOf params o ho]
      change stateOf params (better o (ofResult (findFrom P t _ _ (params.push value)).1)) = _
      rw [hbest]
      rfl
  · simp

theorem literalStep_spec (P : NumberParsers D) (t : Trie) {reqUrl : Text}
    (h : reqUrl ≠ []) (ih : ∀ url node, url.length < reqUrl.length → FindsBest P t url node)
    (params : RoutingParams D) (o : Option (ℕ × RoutingParams D)) (ho : ∀ x ∈ o, x.1 ≠ 0)
    (kv : Fragment × ℕ) : literalStep P t reqUrl (stateOf params o) kv =
      stateOf params (better o
        (leastEntry ((literalMatches P t reqUrl kv).map (withParams params)))) := by
  unfold literalStep literalMatches
  split_ifs
  · obtain ⟨hrest, hbest, -⟩ := ih (reqUrl.drop kv.1.val.length) (t.node kv.2)
      (drop_shorter h (List.length_pos_iff.2 kv.1.property)) params
    change ({ (stateOf params o).updateFound _ with
      params := (findFrom P t _ _ params).2 } : FindState D) = _
    rw [hrest, updateFound_stateOf params o ho]
    change stateOf params (better o (ofResult (findFrom P t _ _ params).1)) = _
    rw [hbest]
    rfl
  · simp

theorem findFrom_spec (P : NumberParsers D) (t : Trie) (reqUrl : Text) (node : Node) :
    FindsBest P t reqUrl node := by
  induction hl : reqUrl.length using Nat.strong_induction_on generalizing reqUrl node with
  | _ len ih =>
    subst hl
    intro params
    by_cases h : reqUrl = []
    · subst h
      rw [findFrom_nil, bestMatch, matchesFrom_nil]
      refine ⟨rfl, ?_, fun h => (h rfl).elim⟩
      by_cases h0 : node.ruleIndex = 0 <;> simp [h0, ofResult, withParams]
    have ih : ∀ url node, url.length < reqUrl.length → FindsBest P t url node :=
      fun url node hlt => ih _ hlt url node rfl
    have hne : ∀ m ∈ matchesFrom P t reqUrl node, m.1 ≠ 0 :=
      matchesFrom_index_ne_zero P t reqUrl node
    rw [matchesFrom_of_ne P t node h] at hne
    -- both loops are best-so-far searches over the entries of their part
    have hparams : ParamType.all.foldl (paramStep P t reqUrl node) (stateOf params none) =
        stateOf params (better none (leastEntry (ParamType.all.flatMap fun p =>
          (paramMatches P t reqUrl node p).map (withParams params)))) := by
      apply foldl_leastEntry (fun x => x.1 ≠ 0) (stateOf params)
      · intro p hp x hx
        obtain ⟨m, hm, rfl⟩ := List.mem_map.1 hx
        exact hne m (List.mem_append_left _ (List.mem_flatMap.2 ⟨p, hp, hm⟩))
      · exact fun p _ o ho => paramStep_spec P t node h ih params o ho p
      · simp
    have hchildren := foldl_leastEntry (fun x => x.1 ≠ 0) (stateOf params)
      (literalStep P t reqUrl)
      (fun kv => (literalMatches P t reqUrl kv).map (withParams params)) node.children
      (by
        intro kv hkv x hx
        obtain ⟨m, hm, rfl⟩ := List.mem_map.1 hx
        exact hne m (List.mem_append_right _ (List.mem_flatMap.2 ⟨kv, hkv, hm⟩)))
      (fun kv _ o ho => literalStep_spec P t h ih params o ho kv)
      (leastEntry (ParamType.all.flatMap fun p =>
        (paramMatches P t reqUrl node p).map (withParams params)))
      (by
        intro x hx
        obtain ⟨p, hp, hx⟩ := List.mem_flatMap.1 (leastEntry_spec hx).1
        obtain ⟨m, hm, rfl⟩ := List.mem_map.1 hx
        exact hne m (List.mem_append_left _ (List.mem_flatMap.2 ⟨p, hp, hm⟩)))
    have hbest : bestMatch P t reqUrl node params = better
        (leastEntry (ParamType.all.flatMap fun p =>
          (paramMatches P t reqUrl node p).map (withParams params)))
        (leastEntry (node.children.flatMap fun kv =>
          (literalMatches P t reqUrl kv).map (withParams params))) := by
      rw [bestMatch, matchesFrom_of_ne P t node h, List.map_append, leastEntry_append,
        List.map_flatMap, List.map_flatMap]
    have hfind : findFrom P t reqUrl node params =
        (toResult (bestMatch P t reqUrl node params), params) := by
      rw [findFrom_of_ne P t node params h, hparams, better_none_left]
      dsimp only
      rw [hchildren, ← hbest]
      rfl
    rw [hfind]
    exact ⟨rfl, ofResult_toResult (bestMatch_ne_zero P t reqUrl node params), fun _ => rfl⟩

/-- `find` is decided by the matches below the head and, for the empty url, by
the head's rule index. -/
theorem find_eq (P : NumberParsers D) (t : Trie) (reqUrl : Text) :
    t.find P reqUrl = if reqUrl = [] then ((t.node 0).ruleIndex, {})
      else toResult (bestMatch P t reqUrl (t.node 0) {}) := by
  unfold Trie.find
  split_ifs with h
  · rw [h, findFrom_nil]
  · exact (findFrom_spec P t reqUrl (t.node 0) {}).2.2 h

theorem find_cases (P : NumberParsers D) (t : Trie) (reqUrl : Text) :
    ((t.find P reqUrl).1 = 0 ∧ matchesFrom P t reqUrl (t.node 0) = []) ∨
      ((t.find P reqUrl).1 ≠ 0 ∧ ∃ m ∈ matchesFrom P t reqUrl (t.node 0),
        t.find P reqUrl = (m.1, ({} : RoutingParams D).pushAll m.2) ∧
        ∀ m' ∈ matchesFrom P t reqUrl (t.node 0), m.1 ≤ m'.1) := by
  rw [find_eq]
  split_ifs with h
  · subst h
    rw [matchesFrom_nil]
    by_cases h0 : (t.node 0).ruleIndex = 0 <;> simp [h0]
  · unfold bestMatch withParams
    rw [leastEntry_map]
    cases hbest : leastEntry (matchesFrom P t reqUrl (t.node 0)) with
    | none => exact .inl ⟨rfl, leastEntry_eq_none.1 hbest⟩
    | some m =>
      obtain ⟨hm, hle⟩ := leastEntry_spec hbest
      exact .inr ⟨matchesFrom_index_ne_zero P t reqUrl _ m hm, m, hm, rfl, hle⟩

end CrowCore.RoutingTrieSearch
