import CrowCore.PrefixFreeKeys
import CrowCore.RoutingTrieBuild
import CrowCore.RoutingTrieSearch

set_option autoImplicit false

/-!
# Optimising the trie

`optimizeNode` only ever joins a node's children with their own. As no key of a
node is a prefix of another one, at most one literal child fits a url, before
the step and after it, and the matches below every node stay the same.
-/
namespace CrowCore.RoutingTrieOptimize
open RoutingTrie RoutingTrieSearch RoutingTrieBuild PrefixFreeKeys

def keys (m : ChildMap) : List Text := m.map fun kv => kv.1.val

structure Shaped (t : Trie) : Prop where
  keys_prefixFree : ∀ i, PrefixFree (keys (t.node i).children)
  children_gt : ∀ i, ∀ kv ∈ (t.node i).children, i < kv.2 ∧ kv.2 < t.nodes.length
  params_gt : ∀ i p, (t.node i).paramChildrens p ≠ 0 →
    i < (t.node i).paramChildrens p ∧ (t.node i).paramChildrens p < t.nodes.length

theorem shaped_of_grown {t : Trie} (h : Grown t) : Shaped t := by
  refine ⟨?_, ?_, ?_⟩
  · intro i
    apply prefixFree_of_length (n := 1)
    · have := (h.keys_nodup i).map Subtype.val_injective
      rwa [List.map_map] at this
    · intro k hk
      obtain ⟨kv, hkv, rfl⟩ := List.mem_map.1 hk
      obtain ⟨c, hc⟩ := h.keys_single i kv hkv
      rw [hc]
      rfl
  · intro i kv hkv
    obtain ⟨c, hc⟩ := h.keys_single i kv hkv
    apply h.child_gt i (.lit c)
    rw [child?, ← hc]
    exact (lookup_eq_some (h.keys_nodup i)).2 hkv
  · intro i p hp
    exact h.child_gt i (.param p) _ (if_neg hp)

def mergedEntries (t : Trie) (children : ChildMap) : ChildMap :=
  children.flatMap fun kv =>
    (t.node kv.2).children.map fun childKv => (kv.1.append childKv.1, childKv.2)

theorem mergedChildren_eq (t : Trie) (children : ChildMap) :
    mergedChildren t children =
      (mergedEntries t children).foldl (fun (merged : ChildMap) kv => merged.set kv.1 kv.2) [] := by
  unfold mergedChildren mergedEntries
  generalize ([] : ChildMap) = merged
  induction children generalizing merged with
  | nil => rfl
  | cons kv children ih =>
    rw [List.foldl_cons, List.flatMap_cons, List.foldl_append, ih, List.foldl_map]

theorem foldl_set_perm (entries merged : ChildMap)
    (h : ((merged ++ entries).map Prod.fst).Nodup) :
    (entries.foldl (fun (merged : ChildMap) kv => merged.set kv.1 kv.2) merged).Perm
      (merged ++ entries) := by
  induction entries generalizing merged with
  | nil => simp
  | cons kv entries ih =>
    have hperm : (merged.set kv.1 kv.2).Perm (kv :: merged) := by
      apply set_perm
      rw [List.map_append, List.nodup_append] at h
      intro hmem
      exact h.2.2 kv.1 hmem kv.1 (by simp) rfl
    have hall : (merged.set kv.1 kv.2 ++ entries).Perm (merged ++ kv :: entries) :=
      (hperm.append_right entries).trans List.perm_middle.symm
    rw [List.foldl_cons]
    exact (ih _ ((hall.map Prod.fst).nodup_iff.2 h)).trans hall

theorem keys_mergedEntries (t : Trie) (children : ChildMap) :
    keys (mergedEntries t children) =
      children.flatMap fun kv => (keys (t.node kv.2).children).map (kv.1.val ++ ·) := by
  unfold keys mergedEntries
  rw [List.map_flatMap]
  congr 1
  funext kv
  rw [List.map_map, List.map_map]
  rfl

theorem prefixFree_mergedEntries {t : Trie} (h : Shaped t) (i : ℕ) :
    PrefixFree (keys (mergedEntries t (t.node i).children)) := by
  rw [keys_mergedEntries]
  exact prefixFree_flatMap (fun kv : Fragment × ℕ => kv.1.val) (h.keys_prefixFree i)
    fun kv _ => h.keys_prefixFree kv.2

theorem mergedChildren_perm {t : Trie} (h : Shaped t) (i : ℕ) :
    (mergedChildren t (t.node i).children).Perm (mergedEntries t (t.node i).children) := by
  rw [mergedChildren_eq]
  apply foldl_set_perm
  have hn := (prefixFree_mergedEntries h i).nodup
  rw [List.nil_append]
  have hkeys : keys (mergedEntries t (t.node i).children) =
      ((mergedEntries t (t.node i).children).map Prod.fst).map Subtype.val := by
    rw [List.map_map]
    rfl
  rw [hkeys] at hn
  exact hn.of_map _

def merge (t : Trie) (i : ℕ) : Trie :=
  t.modify i fun n => { n with children := mergedChildren t (t.node i).children }

theorem node_merge (t : Trie) {i : ℕ} (hi : i < t.nodes.length) (j : ℕ) :
    (merge t i).node j = { t.node j with
      children := if j = i then mergedChildren t (t.node i).children
        else (t.node j).children } := by
  by_cases h : j = i
  · subst h
    rw [merge, node_modify_self t hi, if_pos rfl]
  · rw [merge, node_modify_ne t h, if_neg h]

@[simp] theorem length_merge (t : Trie) (i : ℕ) :
    (merge t i).nodes.length = t.nodes.length := by
  rw [merge, length_modify]

theorem mem_mergedEntries {t : Trie} {children : ChildMap} {x : Fragment × ℕ}
    (hx : x ∈ mergedEntries t children) :
    ∃ kv ∈ children, ∃ childKv ∈ (t.node kv.2).children,
      x = (kv.1.append childKv.1, childKv.2) := by
  obtain ⟨kv, hkv, hx⟩ := List.mem_flatMap.1 hx
  obtain ⟨childKv, hc, rfl⟩ := List.mem_map.1 hx
  exact ⟨kv, hkv, childKv, hc, rfl⟩

theorem shaped_merge {t : Trie} (h : Shaped t) {i : ℕ} (hi : i < t.nodes.length) :
    Shaped (merge t i) := by
  have hperm := mergedChildren_perm h i
  refine ⟨?_, ?_, ?_⟩
  · intro j
    rw [node_merge t hi]
    dsimp only
    split_ifs
    · exact (prefixFree_mergedEntries h i).perm (hperm.symm.map _)
    · exact h.keys_prefixFree j
  · intro j kv hkv
    rw [node_merge t hi] at hkv
    rw [length_merge]
    dsimp only at hkv
    split_ifs at hkv with hji
    · obtain ⟨kv', hkv', c, hc, rfl⟩ := mem_mergedEntries (hperm.mem_iff.1 hkv)
      have h₁ := h.children_gt i kv' hkv'
      have h₂ := h.children_gt kv'.2 c hc
      dsimp only
      omega
    · exact h.children_gt j kv hkv
  · intro j p hp
    rw [node_merge t hi] at hp ⊢
    rw [length_merge]
    exact h.params_gt j p hp

section Matches
variable {D : Type} (P : NumberParsers D)

theorem isPrefixOf_append (a b url : Text) :
    (a ++ b).isPrefixOf url = (a.isPrefixOf url && b.isPrefixOf (url.drop a.length)) := by
  induction a generalizing url with
  | nil => simp
  | cons c a ih =>
    cases url with
    | nil => simp
    | cons d url =>
      rw [List.cons_append, List.isPrefixOf, List.isPrefixOf, ih, Bool.and_assoc]
      rfl

theorem literalMatches_nil (t : Trie) (kv : Fragment × ℕ) : literalMatches P t [] kv = [] := by
  rw [literalMatches, if_neg]
  intro hp
  exact kv.1.property (List.prefix_nil.1 (List.isPrefixOf_iff_prefix.1 hp))

theorem matchesFrom_simple (t : Trie) {node : Node} (h : node.isSimpleNode = true) (url : Text) :
    matchesFrom P t url node = node.children.flatMap (literalMatches P t url) := by
  simp only [Node.isSimpleNode, Bool.and_eq_true, beq_iff_eq, List.all_eq_true] at h
  by_cases hurl : url = []
  · subst hurl
    rw [matchesFrom_nil, if_pos h.1, eq_comm, List.flatMap_eq_nil_iff]
    exact fun kv _ => literalMatches_nil P t kv
  · have hparams : ParamType.all.flatMap (paramMatches P t url node) = [] := by
      rw [List.flatMap_eq_nil_iff]
      intro p hp
      rw [paramMatches, if_neg (not_not.2 (h.2 p hp))]
    rw [matchesFrom_of_ne P t node hurl, hparams, List.nil_append]

theorem literalMatches_append (t : Trie) (url : Text) (a b : Fragment) (j : ℕ) :
    literalMatches P t url (a.append b, j) =
      if a.val.isPrefixOf url then literalMatches P t (url.drop a.val.length) (b, j) else [] := by
  have happ : (a.append b).val = a.val ++ b.val := rfl
  simp only [literalMatches, happ, isPrefixOf_append, Bool.and_eq_true, List.length_append,
    ← List.drop_drop]
  by_cases ha : a.val.isPrefixOf url = true <;> simp [ha]

theorem literal_merge {t : Trie} (h : Shaped t) (i : ℕ)
    (hsimple : ∀ kv ∈ (t.node i).children, (t.node kv.2).isSimpleNode = true) (url : Text) :
    (mergedChildren t (t.node i).children).flatMap (literalMatches P t url) =
      (t.node i).children.flatMap (literalMatches P t url) := by
  have hperm := flatMap_perm (fun kv : Fragment × ℕ => kv.1.val)
    ((prefixFree_mergedEntries h i).perm ((mergedChildren_perm h i).symm.map _))
    (mergedChildren_perm h i) url
    (fun kv => matchesFrom P t (url.drop kv.1.val.length) (t.node kv.2))
  have hentries : (mergedEntries t (t.node i).children).flatMap (literalMatches P t url) =
      (t.node i).children.flatMap (literalMatches P t url) := by
    rw [mergedEntries, List.flatMap_assoc]
    apply List.flatMap_congr
    intro kv hkv
    rw [List.flatMap_map]
    simp only [literalMatches_append]
    rw [literalMatches, matchesFrom_simple P t (hsimple kv hkv)]
    split_ifs
    · rfl
    · simp
  exact hperm.trans hentries

theorem matches_merge {t : Trie} (h : Shaped t) {i : ℕ} (hi : i < t.nodes.length)
    (hsimple : ∀ kv ∈ (t.node i).children, (t.node kv.2).isSimpleNode = true) (url : Text)
    (j : ℕ) :
    matchesFrom P (merge t i) url ((merge t i).node j) = matchesFrom P t url (t.node j) := by
  induction hl : url.length using Nat.strong_induction_on generalizing url j with
  | _ len ih =>
    subst hl
    by_cases hurl : url = []
    · subst hurl
      rw [matchesFrom_nil, matchesFrom_nil, node_merge t hi]
    rw [matchesFrom_of_ne P _ _ hurl, matchesFrom_of_ne P _ _ hurl]
    have hlit : literalMatches P (merge t i) url = literalMatches P t url := by
      funext kv
      unfold literalMatches
      rw [ih _ (drop_shorter hurl (List.length_pos_iff.2 kv.1.property)) _ _ rfl]
    congr 1
    · apply List.flatMap_congr
      intro p _
      have hp : ((merge t i).node j).paramChildrens = (t.node j).paramChildrens := by
        rw [node_merge t hi]
      unfold paramMatches
      rw [hp]
      split_ifs
      · split
        · rename_i v n hcapture
          rw [ih _ (drop_shorter hurl (capture_pos hcapture)) _ _ rfl]
        · rfl
      · rfl
    · rw [hlit, node_merge t hi]
      dsimp only
      split_ifs with hji
      · rw [hji, literal_merge P h i hsimple]
      · rfl

end Matches

/-- `optimizeNode` after its loop over the parameter children. -/
def optimizeChildren (fuel : ℕ) (t : Trie) (i : ℕ) : Option Trie :=
  if (t.node i).children.isEmpty then some t
  else if (t.node i).children.all (fun kv => (t.node kv.2).isSimpleNode) then
    Trie.optimizeNode fuel (merge t i) i
  else (t.node i).children.foldlM (fun t kv => Trie.optimizeNode fuel t kv.2) t

def paramIndexes (t : Trie) (i : ℕ) : List ℕ :=
  (ParamType.all.map (t.node i).paramChildrens).filter (· ≠ 0)

theorem optimizeNode_succ (fuel : ℕ) (t : Trie) (i : ℕ) :
    Trie.optimizeNode (fuel + 1) t i =
      ((paramIndexes t i).foldlM (fun t x => Trie.optimizeNode fuel t x) t).bind
        fun u => optimizeChildren fuel u i := rfl

/-- `t'` serves the same urls as `t`, below every node. -/
structure SameRoutes (t t' : Trie) : Prop where
  length_eq : t'.nodes.length = t.nodes.length
  shaped : Shaped t'
  ruleIndex_eq : ∀ i, (t'.node i).ruleIndex = (t.node i).ruleIndex
  paramChildrens_eq : ∀ i, (t'.node i).paramChildrens = (t.node i).paramChildrens
  matches_eq : ∀ (D : Type) (P : NumberParsers D) (url : Text) (i : ℕ),
    matchesFrom P t' url (t'.node i) = matchesFrom P t url (t.node i)

theorem SameRoutes.refl {t : Trie} (h : Shaped t) : SameRoutes t t :=
  ⟨rfl, h, fun _ => rfl, fun _ => rfl, fun _ _ _ _ => rfl⟩

theorem SameRoutes.trans {t t' t'' : Trie} (h : SameRoutes t t') (h' : SameRoutes t' t'') :
    SameRoutes t t'' :=
  ⟨h'.length_eq.trans h.length_eq, h'.shaped,
    fun i => (h'.ruleIndex_eq i).trans (h.ruleIndex_eq i),
    fun i => (h'.paramChildrens_eq i).trans (h.paramChildrens_eq i),
    fun D P url i => (h'.matches_eq D P url i).trans (h.matches_eq D P url i)⟩

theorem sameRoutes_merge {t : Trie} (h : Shaped t) {i : ℕ} (hi : i < t.nodes.length)
    (hsimple : ∀ kv ∈ (t.node i).children, (t.node kv.2).isSimpleNode = true) :
    SameRoutes t (merge t i) :=
  ⟨length_merge t i, shaped_merge h hi, fun j => by rw [node_merge t hi],
    fun j => by rw [node_merge t hi], fun _ P url j => matches_merge P h hi hsimple url j⟩

/-- What a call on `nodes[i]` does: nothing to the nodes before it, and nothing
to the routes. -/
def Keeps (i : ℕ) (t t' : Trie) : Prop :=
  SameRoutes t t' ∧ ∀ j < i, t'.node j = t.node j

theorem Keeps.trans {i : ℕ} {t t' t'' : Trie} (h : Keeps i t t') (h' : Keeps i t' t'') :
    Keeps i t t'' :=
  ⟨h.1.trans h'.1, fun j hj => (h'.2 j hj).trans (h.2 j hj)⟩

theorem Keeps.mono {i i' : ℕ} {t t' : Trie} (h : Keeps i' t t') (hi : i ≤ i') : Keeps i t t' :=
  ⟨h.1, fun j hj => h.2 j (hj.trans_le hi)⟩

theorem foldlM_keeps {ι : Type} (call : Trie → ι → Option Trie) (idx : ι → ℕ) (i : ℕ)
    (is : List ι) (his : ∀ x ∈ is, i < idx x)
    (hcall : ∀ t x t', Shaped t → call t x = some t' → Keeps (idx x) t t')
    {t t' : Trie} (h : Shaped t) (hrun : is.foldlM call t = some t') : Keeps (i + 1) t t' := by
  induction is generalizing t with
  | nil =>
    obtain rfl := Option.some.inj hrun
    exact ⟨.refl h, fun _ _ => rfl⟩
  | cons x is ih =>
    obtain ⟨u, hu, hrun⟩ := Option.bind_eq_some_iff.1 hrun
    have hk := (hcall t x u h hu).mono (his x List.mem_cons_self)
    exact hk.trans (ih (fun y hy => his y (List.mem_cons_of_mem _ hy)) hk.1.shaped hrun)

theorem params_gt_mem {t : Trie} (h : Shaped t) {i x : ℕ}
    (hx : x ∈ paramIndexes t i) :
    i < x ∧ x < t.nodes.length := by
  obtain ⟨hx, hne⟩ := List.mem_filter.1 hx
  obtain ⟨p, -, rfl⟩ := List.mem_map.1 hx
  exact h.params_gt i p (by simpa using hne)

theorem lt_length_of_child {t : Trie} (h : Shaped t) {i : ℕ} {kv : Fragment × ℕ}
    (hkv : kv ∈ (t.node i).children) : i < t.nodes.length := by
  have := h.children_gt i kv hkv
  omega

theorem optimizeNode_keeps {fuel : ℕ} {t t' : Trie} {i : ℕ} (h : Shaped t)
    (hrun : Trie.optimizeNode fuel t i = some t') : Keeps i t t' := by
  induction fuel generalizing t t' i with
  | zero => simp [Trie.optimizeNode] at hrun
  | succ fuel ih =>
    rw [optimizeNode_succ] at hrun
    obtain ⟨u, hparams, hrun⟩ := Option.bind_eq_some_iff.1 hrun
    have hu : Keeps (i + 1) t u := foldlM_keeps _ id i _ (fun x hx => (params_gt_mem h hx).1)
      (fun _ _ _ hs hc => ih hs hc) h hparams
    refine (hu.mono (Nat.le_succ i)).trans ?_
    have hs := hu.1.shaped
    unfold optimizeChildren at hrun
    split_ifs at hrun with hempty hall
    · obtain rfl := Option.some.inj hrun
      exact ⟨.refl hs, fun _ _ => rfl⟩
    · -- the joined children are optimised again from the same node
      have hsimple : ∀ kv ∈ (u.node i).children, (u.node kv.2).isSimpleNode = true :=
        List.all_eq_true.1 hall
      obtain ⟨kv, hkv⟩ := List.exists_mem_of_ne_nil _ (by simpa using hempty)
      have hm := sameRoutes_merge hs (lt_length_of_child hs hkv) hsimple
      have hk : Keeps i u (merge u i) :=
        ⟨hm, fun j hj => by rw [merge, node_modify_ne u (Nat.ne_of_lt hj)]⟩
      exact hk.trans (ih hm.shaped hrun)
    · exact (foldlM_keeps _ Prod.snd i _ (fun kv hkv => (hs.children_gt i kv hkv).1)
        (fun _ _ _ hs hc => ih hs hc) hs hrun).mono (Nat.le_succ i)

/-- How far the children of a node are from the end of the vector. -/
def reach (t : Trie) (i : ℕ) : ℕ :=
  ((t.node i).children.map fun kv => t.nodes.length - kv.2).foldr max 0

theorem reach_le {t : Trie} {i n : ℕ} (h : ∀ kv ∈ (t.node i).children, t.nodes.length - kv.2 ≤ n) :
    reach t i ≤ n := by
  unfold reach
  generalize (t.node i).children = m at h
  induction m with
  | nil => exact Nat.zero_le n
  | cons kv m ih =>
    rw [List.map_cons, List.foldr_cons]
    exact max_le (h kv List.mem_cons_self) (ih fun x hx => h x (List.mem_cons_of_mem _ hx))

theorem le_reach {t : Trie} {i : ℕ} {kv : Fragment × ℕ} (hkv : kv ∈ (t.node i).children) :
    t.nodes.length - kv.2 ≤ reach t i := by
  unfold reach
  generalize (t.node i).children = m at hkv
  induction m with
  | nil => cases hkv
  | cons x m ih =>
    rw [List.map_cons, List.foldr_cons]
    rcases List.mem_cons.1 hkv with rfl | hkv
    · exact le_max_left _ _
    · exact (ih hkv).trans (le_max_right _ _)

theorem reach_merge_lt {t : Trie} (h : Shaped t) {i : ℕ} {kv : Fragment × ℕ}
    (hkv : kv ∈ (t.node i).children) : reach (merge t i) i < reach t i := by
  have hpos : 0 < reach t i := by
    have h₁ := le_reach hkv
    have h₂ := h.children_gt i kv hkv
    omega
  have hle : reach (merge t i) i ≤ reach t i - 1 := by
    apply reach_le
    intro x hx
    rw [node_merge t (lt_length_of_child h hkv)] at hx
    dsimp only at hx
    rw [if_pos rfl] at hx
    obtain ⟨kv', hkv', c, hc, rfl⟩ := mem_mergedEntries ((mergedChildren_perm h i).mem_iff.1 hx)
    have h₁ := le_reach hkv'
    have h₂ := h.children_gt kv'.2 c hc
    rw [length_merge]
    dsimp only
    omega
  omega

/-- Nodes are visited from front to back, and a node again only after its
children have moved towards the end. -/
def depthBound (t : Trie) (i : ℕ) : ℕ :=
  (t.nodes.length - i) * (t.nodes.length + 1) + reach t i

theorem depthBound_later {t u : Trie} {i x : ℕ} (hlen : u.nodes.length = t.nodes.length)
    (hx : i < x ∧ x < t.nodes.length) :
    depthBound u x + 1 ≤ (t.nodes.length - i) * (t.nodes.length + 1) := by
  have hr : reach u x ≤ t.nodes.length := reach_le fun kv _ => by omega
  have hmul : (t.nodes.length - x + 1) * (t.nodes.length + 1) ≤
      (t.nodes.length - i) * (t.nodes.length + 1) :=
    Nat.mul_le_mul_right _ (by omega)
  rw [Nat.add_mul, Nat.one_mul] at hmul
  unfold depthBound
  rw [hlen]
  omega

theorem foldlM_isSome {ι : Type} (call : Trie → ι → Option Trie) (idx : ι → ℕ) (n : ℕ)
    (is : List ι)
    (hkeeps : ∀ t x t', Shaped t → call t x = some t' → Keeps (idx x) t t')
    (hsome : ∀ t, ∀ x ∈ is, Shaped t → t.nodes.length = n → ∃ t', call t x = some t')
    {t : Trie} (h : Shaped t) (hlen : t.nodes.length = n) : ∃ t', is.foldlM call t = some t' := by
  induction is generalizing t with
  | nil => exact ⟨t, rfl⟩
  | cons x is ih =>
    obtain ⟨u, hu⟩ := hsome t x List.mem_cons_self h hlen
    have hk := hkeeps t x u h hu
    obtain ⟨t', ht'⟩ := ih (fun t y hy => hsome t y (List.mem_cons_of_mem _ hy)) hk.1.shaped
      (hk.1.length_eq.trans hlen)
    exact ⟨t', Option.bind_eq_some_iff.2 ⟨u, hu, ht'⟩⟩

theorem optimizeNode_terminates {fuel : ℕ} {t : Trie} {i : ℕ} (h : Shaped t)
    (hfuel : depthBound t i < fuel) : ∃ t', Trie.optimizeNode fuel t i = some t' := by
  induction fuel generalizing t i with
  | zero => cases hfuel
  | succ fuel ih =>
    rw [optimizeNode_succ]
    have hlater : ∀ u x, Shaped u → u.nodes.length = t.nodes.length →
        i < x ∧ x < t.nodes.length → ∃ t', Trie.optimizeNode fuel u x = some t' := by
      intro u x hu hlen hx
      apply ih hu
      have := depthBound_later hlen hx
      unfold depthBound at hfuel
      omega
    obtain ⟨u, hparams⟩ := foldlM_isSome (fun t x => Trie.optimizeNode fuel t x) id
      t.nodes.length _ (fun _ _ _ hs hc => optimizeNode_keeps hs hc)
      (fun u x hx hu hlen => hlater u x hu hlen (params_gt_mem h hx)) h rfl
    have hu : Keeps (i + 1) t u := foldlM_keeps _ id i _ (fun x hx => (params_gt_mem h hx).1)
      (fun _ _ _ hs hc => optimizeNode_keeps hs hc) h hparams
    have hs := hu.1.shaped
    have hlen := hu.1.length_eq
    have hnode : u.node i = t.node i := hu.2 i (Nat.lt_succ_self i)
    rw [hparams, Option.bind_some, optimizeChildren]
    split_ifs with hempty hall
    · exact ⟨u, rfl⟩
    · obtain ⟨kv, hkv⟩ := List.exists_mem_of_ne_nil _ (by simpa using hempty)
      have hm := sameRoutes_merge hs (lt_length_of_child hs hkv) (List.all_eq_true.1 hall)
      have hreach := reach_merge_lt hs hkv
      have hsame : reach u i = reach t i := by
        unfold reach
        rw [hnode, hlen]
      apply ih hm.shaped
      unfold depthBound at hfuel ⊢
      rw [length_merge, hlen]
      omega
    · exact foldlM_isSome (fun t (kv : Fragment × ℕ) => Trie.optimizeNode fuel t kv.2) Prod.snd
        u.nodes.length _ (fun _ _ _ hs hc => optimizeNode_keeps hs hc)
        (fun v kv hkv hv hvlen => hlater v kv.2 hv (hvlen.trans hlen)
          (hlen ▸ hs.children_gt i kv hkv)) hs rfl

theorem foldlM_mono {ι : Type} {call call' : Trie → ι → Option Trie}
    (hcall : ∀ t x t', call t x = some t' → call' t x = some t') {is : List ι} {t t' : Trie}
    (h : is.foldlM call t = some t') : is.foldlM call' t = some t' := by
  induction is generalizing t with
  | nil => exact h
  | cons x is ih =>
    obtain ⟨u, hu, h⟩ := Option.bind_eq_some_iff.1 h
    exact Option.bind_eq_some_iff.2 ⟨u, hcall t x u hu, ih h⟩

theorem optimizeNode_mono {fuel : ℕ} {t t' : Trie} {i : ℕ}
    (h : Trie.optimizeNode fuel t i = some t') : Trie.optimizeNode (fuel + 1) t i = some t' := by
  induction fuel generalizing t t' i with
  | zero => simp [Trie.optimizeNode] at h
  | succ fuel ih =>
    rw [optimizeNode_succ] at h ⊢
    obtain ⟨u, hparams, h⟩ := Option.bind_eq_some_iff.1 h
    refine Option.bind_eq_some_iff.2 ⟨u, foldlM_mono (fun _ _ _ hc => ih hc) hparams, ?_⟩
    unfold optimizeChildren at h ⊢
    split_ifs at h ⊢
    · exact h
    · exact ih h
    · exact foldlM_mono (fun _ _ _ hc => ih hc) h

theorem optimizeNode_mono_le {fuel fuel' : ℕ} {t t' : Trie} {i : ℕ} (hle : fuel ≤ fuel')
    (h : Trie.optimizeNode fuel t i = some t') : Trie.optimizeNode fuel' t i = some t' := by
  induction hle with
  | refl => exact h
  | step _ ih => exact optimizeNode_mono ih

theorem depthBound_head_lt (t : Trie) : depthBound t 0 < (t.nodes.length + 1) ^ 2 := by
  have hr : reach t 0 ≤ t.nodes.length := reach_le fun kv _ => by omega
  unfold depthBound
  rw [Nat.sub_zero, sq, Nat.add_mul _ 1]
  omega

theorem optimize_isSome {t : Trie} (h : Shaped t) : ∃ t', t.optimize = some t' :=
  optimizeNode_terminates h (depthBound_head_lt t)

theorem sameRoutes_optimize {t t' : Trie} (h : Shaped t) (hopt : t.optimize = some t') :
    SameRoutes t t' :=
  (optimizeNode_keeps h hopt).1

theorem find_sameRoutes {t t' : Trie} (h : SameRoutes t t') {D : Type} (P : NumberParsers D)
    (reqUrl : Text) : t'.find P reqUrl = t.find P reqUrl := by
  rw [find_eq, find_eq, h.ruleIndex_eq, bestMatch, bestMatch, h.matches_eq]

/-- Optimising a trie that `add` has built ends, and no request is routed
differently afterwards. -/
theorem optimize_preserves_find {rules : List (Text × ℕ)} {t : Trie}
    (h : Trie.fresh.addAll rules = some t) :
    ∃ t', (∃ n, ∀ fuel ≥ n, Trie.optimizeNode fuel t 0 = some t') ∧
      ∀ (D : Type) (P : NumberParsers D) (reqUrl : Text), t'.find P reqUrl = t.find P reqUrl := by
  have hs : Shaped t := shaped_of_grown (represents_addAll represents_fresh h).grown
  obtain ⟨t', ht'⟩ := optimize_isSome hs
  exact ⟨t', ⟨_, fun fuel hfuel => optimizeNode_mono_le hfuel ht'⟩,
    fun D P reqUrl => find_sameRoutes (sameRoutes_optimize hs ht') P reqUrl⟩

theorem optimize_preserves_find_sample : ∃ t t', Trie.fresh.addAll sampleRules = some t ∧
    (∃ n, ∀ fuel ≥ n, Trie.optimizeNode fuel t 0 = some t') ∧
    ∀ (D : Type) (P : NumberParsers D) (reqUrl : Text), t'.find P reqUrl = t.find P reqUrl := by
  obtain ⟨t, ht⟩ : ∃ t, Trie.fresh.addAll sampleRules = some t := ⟨_, rfl⟩
  obtain ⟨t', h⟩ := optimize_preserves_find ht
  exact ⟨t, t', ht, h⟩

end CrowCore.RoutingTrieOptimize
