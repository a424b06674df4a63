import CrowCore.Routing
import CrowCore.RoutingTrieJoin

set_option autoImplicit false

/-!
# Listing the routes under a parent

`findRouteIndexes` compares the parent with whole keys, and `optimizeNode` makes
longer keys out of shorter ones. What is listed depends on where the keys end.
-/
namespace CrowCore.RouteListing
open RoutingTrie RoutingTrieBuild RoutingTrieOptimize RoutingTrieJoin Routing

/-- The loop over the children, on the part of the url from `pos` on; `find` is the
recursive call. -/
def visitChild (t : Trie) (find : Text → ℕ → List ℕ → Option (List ℕ)) (reqUrl : Text)
    (routeIndexes : List ℕ) (kv : Fragment × ℕ) : Option (List ℕ) :=
  let fragment := kv.1.val
  let child := t.node kv.2
  if reqUrl = [] then
    find [] kv.2 (if child.ruleIndex ≠ 0 ∧ fragment ≠ ['/'] then routeIndexes ++ [child.ruleIndex]
      else routeIndexes)
  else if fragment.isPrefixOf reqUrl then find (reqUrl.drop fragment.length) kv.2 routeIndexes
  else some routeIndexes

/-- The fuel bounds the depth of the recursion. -/
def findRouteIndexesFrom (t : Trie) : ℕ → Text → ℕ → List ℕ → Option (List ℕ)
  | 0, _, _, _ => none
  | fuel + 1, reqUrl, idx, routeIndexes =>
    (t.node idx).children.foldlM (visitChild t (findRouteIndexesFrom t fuel) reqUrl) routeIndexes

/-- A call from the head; no path is longer than the vector of nodes. -/
def findRouteIndexes (t : Trie) (reqUrl : Text) : Option (List ℕ) :=
  findRouteIndexesFrom t (t.nodes.length + 1) reqUrl 0 []

/-- `rules[index]->rule`; place 0 is the null pointer, which is not to be followed. -/
def ruleOf (rules : List (Option ℕ)) (index : ℕ) : Outcome ℕ :=
  match rules[index]? with
  | some (some place) => return place
  | some none => throw "null rule"
  | none => throw "dangling rule"

def methodRoutes (parent : Text) (perMethod : PerMethod) : Outcome (List ℕ) := do
  let x ← ExceptT.lift (findRouteIndexes perMethod.trie parent)
  x.mapM (ruleOf perMethod.rules)

def getRoutesLoop (parent : Text) : List PerMethod → Outcome (List ℕ)
  | [] => return []
  | perMethod :: perMethods => do
    let routes ← methodRoutes parent perMethod
    let ret ← getRoutesLoop parent perMethods
    return routes ++ ret

def getRoutes (router : Router) (parent : Text) : Outcome (List ℕ) :=
  getRoutesLoop parent router.perMethods

/-- A node is listed below the end of the parent, unless its last key is a slash. -/
inductive Listed (t : Trie) : Text → ℕ → ℕ → Prop where
  | here {i : ℕ} {kv : Fragment × ℕ} (hkv : kv ∈ (t.node i).children)
      (hrule : (t.node kv.2).ruleIndex ≠ 0) (hslash : kv.1.val ≠ ['/']) : Listed t [] i kv.2
  | deeper {i j : ℕ} {kv : Fragment × ℕ} (hkv : kv ∈ (t.node i).children)
      (h : Listed t [] kv.2 j) : Listed t [] i j
  | walk {i j : ℕ} {kv : Fragment × ℕ} {reqUrl : Text} (hkv : kv ∈ (t.node i).children)
      (h : Listed t reqUrl kv.2 j) : Listed t (kv.1.val ++ reqUrl) i j

/-- The nodes that a child contributes. -/
def ListedVia (t : Trie) (reqUrl : Text) (kv : Fragment × ℕ) (j : ℕ) : Prop :=
  if reqUrl = [] then
    ((t.node kv.2).ruleIndex ≠ 0 ∧ kv.1.val ≠ ['/'] ∧ j = kv.2) ∨ Listed t [] kv.2 j
  else kv.1.val <+: reqUrl ∧ Listed t (reqUrl.drop kv.1.val.length) kv.2 j

theorem listed_iff {t : Trie} {reqUrl : Text} {i j : ℕ} :
    Listed t reqUrl i j ↔ ∃ kv ∈ (t.node i).children, ListedVia t reqUrl kv j := by
  constructor
  · intro h
    cases h with
    | @here _ kv hkv hrule hslash => exact ⟨kv, hkv, .inl ⟨hrule, hslash, rfl⟩⟩
    | @deeper _ _ kv hkv h => exact ⟨kv, hkv, .inr h⟩
    | @walk _ _ kv reqUrl hkv h =>
      refine ⟨kv, hkv, ?_⟩
      rw [ListedVia, if_neg (by simp [kv.1.property])]
      exact ⟨List.prefix_append _ _, by rwa [List.drop_left]⟩
  · rintro ⟨kv, hkv, h⟩
    unfold ListedVia at h
    split_ifs at h with hurl
    · rw [hurl]
      rcases h with ⟨hrule, hslash, rfl⟩ | h
      · exact .here hkv hrule hslash
      · exact .deeper hkv h
    · obtain ⟨⟨rest, rfl⟩, h⟩ := h
      rw [List.drop_left] at h
      exact .walk hkv h

variable {t₀ t : Trie}

theorem listed_below (hw : Within t₀ t) {reqUrl : Text} {i j : ℕ} (h : Listed t reqUrl i j) :
    Below t₀ i j := by
  induction h with
  | here hkv => exact hw.children _ _ hkv
  | deeper hkv _ ih => exact (hw.children _ _ hkv).trans ih
  | walk hkv _ ih => exact (hw.children _ _ hkv).trans ih

theorem below_of_listedVia (hw : Within t₀ t) {reqUrl : Text} {kv : Fragment × ℕ} {j : ℕ}
    (hvia : ListedVia t reqUrl kv j) : Below t₀ kv.2 j := by
  unfold ListedVia at hvia
  split_ifs at hvia
  · rcases hvia with ⟨-, -, rfl⟩ | hlisted
    · exact .refl t₀ kv.2
    · exact listed_below hw hlisted
  · exact listed_below hw hvia.2

theorem listed_lt (hw : Within t₀ t) (h : Grown t₀) {reqUrl : Text} {i j : ℕ}
    (hlisted : Listed t reqUrl i j) : i < j := by
  obtain ⟨kv, hkv, hvia⟩ := listed_iff.1 hlisted
  have hlt := (hw.shaped.children_gt i kv hkv).1
  obtain ⟨toks, htoks⟩ := below_of_listedVia hw hvia
  have hle := (follow_le h htoks).1
  omega

/-- The call lists each of these nodes once. -/
def Lists (t : Trie) (fuel : ℕ) (reqUrl : Text) (i : ℕ) : Prop := ∃ nodes : List ℕ,
  nodes.Nodup ∧ (∀ j, j ∈ nodes ↔ Listed t reqUrl i j) ∧ ∀ routeIndexes,
    findRouteIndexesFrom t fuel reqUrl i routeIndexes =
      some (routeIndexes ++ nodes.map fun j => (t.node j).ruleIndex)

theorem lists_child (hw : Within t₀ t) (h : Grown t₀) {fuel : ℕ} {kv : Fragment × ℕ}
    (ih : ∀ reqUrl, Lists t fuel reqUrl kv.2) (reqUrl : Text) : ∃ nodes : List ℕ,
      nodes.Nodup ∧ (∀ j, j ∈ nodes ↔ ListedVia t reqUrl kv j) ∧ ∀ routeIndexes,
        visitChild t (findRouteIndexesFrom t fuel) reqUrl routeIndexes kv =
          some (routeIndexes ++ nodes.map fun j => (t.node j).ruleIndex) := by
  unfold visitChild ListedVia
  dsimp only
  by_cases hurl : reqUrl = []
  · obtain ⟨nodes, hnodup, hmem, hrun⟩ := ih []
    have hnot : kv.2 ∉ nodes := by
      intro hkv
      exact Nat.lt_irrefl _ (listed_lt hw h ((hmem kv.2).1 hkv))
    simp only [if_pos hurl]
    by_cases hrule : (t.node kv.2).ruleIndex ≠ 0 ∧ kv.1.val ≠ ['/']
    · refine ⟨kv.2 :: nodes, List.nodup_cons.2 ⟨hnot, hnodup⟩, fun j => ?_, fun routeIndexes => ?_⟩
      · rw [List.mem_cons, hmem]
        simp [hrule]
      · rw [if_pos hrule, hrun, List.map_cons, List.append_assoc]
        rfl
    · refine ⟨nodes, hnodup, fun j => ?_, fun routeIndexes => ?_⟩
      · rw [hmem, ← and_assoc]
        simp [hrule]
      · rw [if_neg hrule, hrun]
  · simp only [if_neg hurl]
    by_cases hpre : kv.1.val <+: reqUrl
    · obtain ⟨nodes, hnodup, hmem, hrun⟩ := ih (reqUrl.drop kv.1.val.length)
      refine ⟨nodes, hnodup, fun j => ?_, fun routeIndexes => ?_⟩
      · rw [hmem, and_iff_right hpre]
      · rw [if_pos (List.isPrefixOf_iff_prefix.2 hpre), hrun]
    · refine ⟨[], List.nodup_nil, fun j => ?_, fun routeIndexes => ?_⟩
      · simp [hpre]
      · rw [if_neg (by rwa [List.isPrefixOf_iff_prefix])]
        simp

theorem lists_children (hw : Within t₀ t) (h : Grown t₀) {fuel : ℕ} (reqUrl : Text)
    {children : ChildMap}
    (hapart : children.Pairwise fun kv kv' => ∀ j, Below t₀ kv.2 j → ¬ Below t₀ kv'.2 j)
    (ih : ∀ kv ∈ children, ∀ reqUrl, Lists t fuel reqUrl kv.2) : ∃ nodes : List ℕ,
      nodes.Nodup ∧ (∀ j, j ∈ nodes ↔ ∃ kv ∈ children, ListedVia t reqUrl kv j) ∧
        ∀ routeIndexes,
          children.foldlM (visitChild t (findRouteIndexesFrom t fuel) reqUrl) routeIndexes =
            some (routeIndexes ++ nodes.map fun j => (t.node j).ruleIndex) := by
  induction children with
  | nil => exact ⟨[], List.nodup_nil, fun j => by simp, fun routeIndexes => by simp⟩
  | cons kv children ihc =>
    obtain ⟨hkv, hapart⟩ := List.pairwise_cons.1 hapart
    obtain ⟨nodes, hnodup, hmem, hrun⟩ := lists_child hw h (ih kv List.mem_cons_self) reqUrl
    obtain ⟨nodes', hnodup', hmem', hrun'⟩ :=
      ihc hapart fun x hx => ih x (List.mem_cons_of_mem kv hx)
    refine ⟨nodes ++ nodes', ?_, fun j => ?_, fun routeIndexes => ?_⟩
    · refine List.nodup_append.2 ⟨hnodup, hnodup', ?_⟩
      rintro j hj _ hj' rfl
      obtain ⟨kv', hkv', hvia'⟩ := (hmem' j).1 hj'
      exact hkv kv' hkv' j (below_of_listedVia hw ((hmem j).1 hj)) (below_of_listedVia hw hvia')
    · rw [List.mem_append, hmem, hmem']
      simp
    · rw [List.foldlM_cons, hrun]
      simp only [bind, Option.bind_some]
      rw [hrun', List.map_append, List.append_assoc]

theorem lists_from (hw : Within t₀ t) (h : Grown t₀) {fuel i : ℕ} (hleveled : Leveled t₀ t i)
    (hfuel : t.nodes.length - i < fuel) (reqUrl : Text) : Lists t fuel reqUrl i := by
  induction fuel generalizing i reqUrl with
  | zero => cases hfuel
  | succ fuel ih =>
    obtain ⟨n, hlevel⟩ := hleveled _ _ (.nil i)
    obtain ⟨nodes, hnodup, hmem, hrun⟩ := lists_children hw h reqUrl
      (hlevel.apart h hw.shaped) fun kv hkv reqUrl => by
        have hgt := hw.shaped.children_gt i kv hkv
        exact ih (hleveled.child hkv) (by omega) reqUrl
    exact ⟨nodes, hnodup, fun j => (hmem j).trans listed_iff.symm, hrun⟩

theorem findRouteIndexes_lists (hw : Within t₀ t) (h : Grown t₀) (hleveled : Leveled t₀ t 0)
    (reqUrl : Text) : ∃ nodes : List ℕ, nodes.Nodup ∧ (∀ j, j ∈ nodes ↔ Listed t reqUrl 0 j) ∧
      findRouteIndexes t reqUrl = some (nodes.map fun j => (t.node j).ruleIndex) := by
  obtain ⟨nodes, hnodup, hmem, hrun⟩ :=
    lists_from hw h hleveled (Nat.lt_succ_of_le (Nat.sub_le _ _)) reqUrl
  exact ⟨nodes, hnodup, hmem, hrun []⟩

theorem listed_iff_path {p : Text} {i j : ℕ} : Listed t p i j ↔ (t.node j).ruleIndex ≠ 0 ∧
    ∃ m s k kv, KeyPath t i p m ∧ KeyPath t m s k ∧ kv ∈ (t.node k).children ∧ kv.2 = j ∧
      kv.1.val ≠ ['/'] := by
  constructor
  · intro h
    induction h with
    | @here i kv hkv hrule hslash =>
      exact ⟨hrule, i, [], i, kv, .nil i, .nil i, hkv, rfl, hslash⟩
    | @deeper i j kv hkv _ ih =>
      obtain ⟨hrule, m, s, k, kv', hm, hs, hrest⟩ := ih
      exact ⟨hrule, i, _, k, kv', .nil i, .cons hkv (hm.trans hs), hrest⟩
    | @walk i j kv reqUrl hkv _ ih =>
      obtain ⟨hrule, m, s, k, kv', hm, hrest⟩ := ih
      exact ⟨hrule, m, s, k, kv', .cons hkv hm, hrest⟩
  · rintro ⟨hrule, m, s, k, kv, hm, hs, hkv, rfl, hslash⟩
    induction hm with
    | nil =>
      induction hs with
      | nil => exact .here hkv hrule hslash
      | cons hkv' _ ih => exact .deeper hkv' (ih hkv)
    | cons hkv' _ ih => exact .walk hkv' (ih hs)

def At (t : Trie) (s : Text) : Prop := ∃ i, KeyPath t 0 s i

/-- Listed are the rules beyond the parent, if a key ends at the parent; and of those
that end in a slash only the ones whose slash is not a key of its own. -/
theorem listed_iff_text (hleveled : Leveled t₀ t 0) {p : Text} {j : ℕ} :
    Listed t p 0 j ↔ (t.node j).ruleIndex ≠ 0 ∧ ∃ s, KeyPath t 0 s j ∧ At t p ∧ p <+: s ∧
      p ≠ s ∧ ¬ (s.getLast? = some '/' ∧ At t s.dropLast) := by
  rw [listed_iff_path]
  refine and_congr_right fun _ => ?_
  constructor
  · rintro ⟨m, s, k, kv, hm, hs, hkv, rfl, hslash⟩
    have hk := hm.trans hs
    refine ⟨p ++ s ++ kv.1.val, hk.snoc hkv, ⟨m, hm⟩, ?_, ?_, ?_⟩
    · rw [List.append_assoc]
      exact List.prefix_append _ _
    · simp [kv.1.property]
    · rintro ⟨hlast, q, hq⟩
      obtain ⟨key, c, hkey⟩ := (List.eq_nil_or_concat' kv.1.val).resolve_left kv.1.property
      rw [hkey, ← List.append_assoc, List.getLast?_concat, Option.some.injEq] at hlast
      rw [hkey, ← List.append_assoc, List.dropLast_concat] at hq
      obtain ⟨s', hs', hpath⟩ := hleveled.split hk hq (List.prefix_append _ _)
      obtain rfl := List.append_cancel_left hs'
      cases hpath with
      | nil => exact hslash (by rw [hkey, hlast, List.nil_append])
      | @cons _ _ kv' s' hkv' _ =>
        obtain ⟨n, hlevel⟩ := hleveled _ _ hk
        have hlen := ((hlevel.children kv).1 hkv).1
        have hlen' := ((hlevel.children kv').1 hkv').1
        rw [hkey] at hlen
        simp only [List.length_append, List.length_singleton] at hlen
        omega
  · rintro ⟨s, hs, ⟨m, hm⟩, hpre, hne, hslash⟩
    obtain ⟨s', rfl, hs'⟩ := hleveled.split hm hs hpre
    rcases hs'.last with ⟨rfl, -⟩ | ⟨s'', k, kv, hk, hkv, rfl, rfl⟩
    · exact absurd (List.append_nil p).symm hne
    · refine ⟨m, s'', k, kv, hm, hk, hkv, rfl, fun hkey => hslash ?_⟩
      rw [hkey, ← List.append_assoc, List.getLast?_concat, List.dropLast_concat]
      exact ⟨rfl, k, hm.trans hk⟩

end CrowCore.RouteListing
