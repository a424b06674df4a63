import CrowCore.RoutingTrie

set_option autoImplicit false

/-!
# The trie that `add` builds

A rule url is a list of tokens, literal characters and parameters. `add` walks
the tokens down from the head and makes the children that are missing, so the
paths of the trie are exactly the prefixes of the token lists of the rules, and
no two paths meet.
-/
namespace CrowCore.RoutingTrieBuild
open RoutingTrie

inductive Token where
  | lit (c : Char)
  | param (p : ParamType)
deriving DecidableEq, Repr

/-- A rule url all of whose '<' start a recognised tag, read as tokens. -/
inductive Pattern : Text → List Token → Prop where
  | nil : Pattern [] []
  | lit {c : Char} {url : Text} {toks : List Token} (hc : c ≠ '<') (h : Pattern url toks) :
      Pattern (c :: url) (.lit c :: toks)
  | param {x : ParamType × Text} {url : Text} {toks : List Token} (hx : x ∈ Trie.paramTraits)
      (h : Pattern url toks) : Pattern (x.2 ++ url) (.param x.1 :: toks)

def child? (t : Trie) (idx : ℕ) : Token → Option ℕ
  | .lit c => (t.node idx).children.lookup (.single c)
  | .param p =>
    if (t.node idx).paramChildrens p = 0 then none else some ((t.node idx).paramChildrens p)

/-- One iteration of the loop of `add`. -/
def descend (t : Trie) (idx : ℕ) : Token → Trie × ℕ
  | .lit c => t.literalChild idx (.single c)
  | .param p => t.paramChild idx p

def descendAll (t : Trie) (idx : ℕ) : List Token → Trie × ℕ
  | [] => (t, idx)
  | tok :: toks => descendAll (descend t idx tok).1 (descend t idx tok).2 toks

def follow (t : Trie) : ℕ → List Token → Option ℕ
  | idx, [] => some idx
  | idx, tok :: toks => (child? t idx tok).bind fun j => follow t j toks

theorem follow_append (t : Trie) (idx : ℕ) (toks toks' : List Token) :
    follow t idx (toks ++ toks') = (follow t idx toks).bind fun j => follow t j toks' := by
  induction toks generalizing idx with
  | nil => rfl
  | cons tok toks ih =>
    simp only [List.cons_append, follow, Option.bind_assoc]
    congr 1
    funext j
    exact ih j

theorem find_paramTraits {x : ParamType × Text} (hx : x ∈ Trie.paramTraits) (url : Text) :
    Trie.paramTraits.find? (fun y => y.2.isPrefixOf (x.2 ++ url)) = some x := by
  simp only [Trie.paramTraits, List.mem_cons, List.not_mem_nil, or_false] at hx
  rcases hx with rfl | rfl | rfl | rfl | rfl | rfl | rfl <;>
    simp [Trie.paramTraits, List.isPrefixOf]

theorem paramTraits_cons {x : ParamType × Text} (hx : x ∈ Trie.paramTraits) :
    ∃ tag, x.2 = '<' :: tag := by
  simp only [Trie.paramTraits, List.mem_cons, List.not_mem_nil, or_false] at hx
  rcases hx with rfl | rfl | rfl | rfl | rfl | rfl | rfl <;> exact ⟨_, rfl⟩

theorem addLoop_pattern {url : Text} {toks : List Token} (h : Pattern url toks) (t : Trie)
    (idx fuel : ℕ) (hfuel : url.length < fuel) :
    Trie.addLoop fuel t idx url = some (descendAll t idx toks) := by
  induction h generalizing t idx fuel with
  | nil =>
    obtain ⟨fuel, rfl⟩ := Nat.exists_eq_add_of_lt hfuel
    rfl
  | @lit c url toks hc h ih =>
    obtain ⟨fuel, rfl⟩ : ∃ n, fuel = n + 1 := ⟨fuel - 1, by omega⟩
    rw [Trie.addLoop, if_neg hc]
    exact ih _ _ fuel (by simpa using hfuel)
  | @param x url toks hx h ih =>
    obtain ⟨fuel, rfl⟩ : ∃ n, fuel = n + 1 := ⟨fuel - 1, by omega⟩
    obtain ⟨tag, htag⟩ := paramTraits_cons hx
    have hurl : x.2 ++ url = '<' :: (tag ++ url) := by rw [htag, List.cons_append]
    have hfind := find_paramTraits hx url
    rw [hurl] at hfind hfuel ⊢
    simp only [Trie.addLoop, if_true, hfind]
    rw [← hurl, List.drop_left]
    apply ih
    simp only [List.length_cons, List.length_append] at hfuel
    omega

theorem pattern_of_addLoop {fuel : ℕ} {t : Trie} {idx : ℕ} {url : Text} {r : Trie × ℕ}
    (h : Trie.addLoop fuel t idx url = some r) : ∃ toks, Pattern url toks := by
  induction fuel generalizing t idx url with
  | zero => simp [Trie.addLoop] at h
  | succ fuel ih =>
    cases url with
    | nil => exact ⟨[], .nil⟩
    | cons c url =>
      rw [Trie.addLoop] at h
      split_ifs at h with hc
      · split at h
        · rename_i x hx
          obtain ⟨toks, htoks⟩ := ih h
          have hpre : x.2 <+: c :: url := by
            simpa only [List.isPrefixOf_iff_prefix] using List.find?_some hx
          refine ⟨.param x.1 :: toks, ?_⟩
          rw [← List.prefix_iff_eq_append.1 hpre]
          exact .param (List.mem_of_find?_eq_some hx) htoks
        · exact ih h
      · obtain ⟨toks, htoks⟩ := ih h
        exact ⟨.lit c :: toks, .lit hc htoks⟩

theorem add_ok {t t' : Trie} {url : Text} {ruleIndex : ℕ}
    (h : t.add url ruleIndex = some (t', .ok ())) : ∃ toks, Pattern url toks ∧
      ((descendAll t 0 toks).1.node (descendAll t 0 toks).2).ruleIndex = 0 ∧
      t' = (descendAll t 0 toks).1.modify (descendAll t 0 toks).2
        fun n => { n with ruleIndex := ruleIndex } := by
  unfold Trie.add at h
  split at h
  · simp at h
  · rename_i t₁ idx hloop
    obtain ⟨toks, htoks⟩ := pattern_of_addLoop hloop
    rw [addLoop_pattern htoks t 0 _ (Nat.lt_succ_self _), Option.some.injEq] at hloop
    refine ⟨toks, htoks, ?_⟩
    rw [hloop]
    split_ifs at h with h0
    · simp at h
    · simp only [ne_eq, not_not] at h0
      simp only [Option.some.injEq, Prod.mk.injEq, and_true] at h
      exact ⟨h0, h.symm⟩

@[simp] theorem length_modify (t : Trie) (idx : ℕ) (f : Node → Node) :
    (t.modify idx f).nodes.length = t.nodes.length := by
  simp [Trie.modify]

@[simp] theorem length_newNode (t : Trie) : t.newNode.nodes.length = t.nodes.length + 1 := by
  simp [Trie.newNode]

theorem node_modify_self (t : Trie) {idx : ℕ} (h : idx < t.nodes.length) (f : Node → Node) :
    (t.modify idx f).node idx = f (t.node idx) := by
  simp [Trie.modify, Trie.node, h]

theorem node_modify_ne (t : Trie) {idx j : ℕ} (h : j ≠ idx) (f : Node → Node) :
    (t.modify idx f).node j = t.node j := by
  simp [Trie.modify, Trie.node, Ne.symm h]

theorem node_of_le (t : Trie) {j : ℕ} (h : t.nodes.length ≤ j) : t.node j = Node.init := by
  simp [Trie.node, h]

@[simp] theorem node_newNode (t : Trie) (j : ℕ) : t.newNode.node j = t.node j := by
  rcases Nat.lt_trichotomy j t.nodes.length with h | h | h
  · simp [Trie.newNode, Trie.node, List.getElem?_append_left h]
  · subst h
    simp [Trie.newNode, Trie.node]
  · rw [node_of_le t h.le, node_of_le _ (by simpa using h)]

theorem lookup_cons (kv : Fragment × ℕ) (m : ChildMap) (key : Fragment) :
    ChildMap.lookup (kv :: m) key = if kv.1 = key then some kv.2 else ChildMap.lookup m key := by
  by_cases h : kv.1 = key <;> simp [ChildMap.lookup, h]

theorem lookup_set (m : ChildMap) (key key' : Fragment) (v : ℕ) :
    (m.set key v).lookup key' = if key = key' then some v else m.lookup key' := by
  induction m with
  | nil => simp [ChildMap.set, lookup_cons]
  | cons kv m ih =>
    rw [ChildMap.set]
    by_cases h₁ : key = kv.1
    · rw [if_pos h₁, lookup_cons, lookup_cons, ← h₁]
      by_cases h : key = key' <;> simp [h]
    · rw [if_neg h₁]
      split_ifs with h₂ h₃ h₃
      · rw [lookup_cons, if_pos h₃]
      · rw [lookup_cons, if_neg h₃]
      · subst h₃
        rw [lookup_cons, if_neg (Ne.symm h₁), ih, if_pos rfl]
      · rw [lookup_cons, lookup_cons, ih, if_neg h₃]

theorem lookup_eq_none {m : ChildMap} {key : Fragment} :
    m.lookup key = none ↔ key ∉ m.map Prod.fst := by
  simp only [ChildMap.lookup, Option.map_eq_none_iff, List.find?_eq_none, decide_eq_true_eq,
    List.mem_map, not_exists, not_and]

theorem set_perm {m : ChildMap} {key : Fragment} (v : ℕ) (h : key ∉ m.map Prod.fst) :
    (m.set key v).Perm ((key, v) :: m) := by
  induction m with
  | nil => exact .refl _
  | cons kv m ih =>
    simp only [List.map_cons, List.mem_cons, not_or] at h
    rw [ChildMap.set, if_neg h.1]
    split_ifs
    · exact .refl _
    · exact ((ih h.2).cons kv).trans (.swap _ _ _)

theorem lookup_eq_some {m : ChildMap} (hm : (m.map Prod.fst).Nodup) {key : Fragment} {v : ℕ} :
    m.lookup key = some v ↔ (key, v) ∈ m := by
  induction m with
  | nil => simp [ChildMap.lookup]
  | cons kv m ih =>
    obtain ⟨k, w⟩ := kv
    simp only [List.map_cons, List.nodup_cons] at hm
    rw [lookup_cons, List.mem_cons, Prod.mk.injEq]
    split_ifs with h
    · subst h
      have hnot : (k, v) ∉ m := fun hmem => hm.1 (List.mem_map.2 ⟨_, hmem, rfl⟩)
      simp [hnot, eq_comm]
    · simp [ih hm.2, Ne.symm h]

def setChild (tok : Token) (j : ℕ) (n : Node) : Node :=
  match tok with
  | .lit c => { n with children := n.children.set (.single c) j }
  | .param p => { n with paramChildrens := Function.update n.paramChildrens p j }

def link (t : Trie) (idx : ℕ) (tok : Token) : Trie :=
  t.newNode.modify idx (setChild tok t.nodes.length)

theorem descend_some {t : Trie} {idx j : ℕ} {tok : Token} (h : child? t idx tok = some j) :
    descend t idx tok = (t, j) := by
  cases tok with
  | lit c =>
    simp only [child?] at h
    simp [descend, Trie.literalChild, h]
  | param p =>
    simp only [child?] at h
    split_ifs at h with hp
    rw [descend, Trie.paramChild, if_neg hp, Option.some.inj h]

theorem descend_none {t : Trie} {idx : ℕ} {tok : Token} (h : child? t idx tok = none) :
    descend t idx tok = (link t idx tok, t.nodes.length) := by
  cases tok with
  | lit c =>
    simp only [child?] at h
    simp only [descend, Trie.literalChild, h]
    rfl
  | param p =>
    simp only [child?] at h
    split_ifs at h with hp
    simp only [descend, Trie.paramChild, hp, if_true]
    rfl

@[simp] theorem length_link (t : Trie) (idx : ℕ) (tok : Token) :
    (link t idx tok).nodes.length = t.nodes.length + 1 := by
  simp [link]

theorem node_link_self (t : Trie) {idx : ℕ} (hidx : idx < t.nodes.length) (tok : Token) :
    (link t idx tok).node idx = setChild tok t.nodes.length (t.node idx) := by
  rw [link, node_modify_self _ (by simp; omega), node_newNode]

theorem node_link_ne (t : Trie) {idx i : ℕ} (tok : Token) (h : i ≠ idx) :
    (link t idx tok).node i = t.node i := by
  rw [link, node_modify_ne _ h, node_newNode]

@[simp] theorem ruleIndex_link (t : Trie) {idx : ℕ} (hidx : idx < t.nodes.length) (tok : Token)
    (i : ℕ) : ((link t idx tok).node i).ruleIndex = (t.node i).ruleIndex := by
  by_cases h : i = idx
  · subst h
    rw [node_link_self t hidx]
    cases tok <;> rfl
  · rw [node_link_ne t tok h]

theorem child?_link (t : Trie) {idx : ℕ} (hidx : idx < t.nodes.length) (tok : Token) (i : ℕ)
    (tok' : Token) : child? (link t idx tok) i tok' =
      if i = idx ∧ tok' = tok then some t.nodes.length else child? t i tok' := by
  by_cases h : i = idx
  · subst h
    have hpos : t.nodes.length ≠ 0 := by omega
    simp only [child?, node_link_self t hidx, true_and]
    cases tok with
    | lit c =>
      cases tok' with
      | lit c' =>
        simp only [setChild, lookup_set, Token.lit.injEq]
        by_cases hc : c' = c
        · subst hc; simp
        · have hne : Fragment.single c ≠ Fragment.single c' := by
            simp [Fragment.single, Ne.symm hc]
          rw [if_neg hne, if_neg hc]
      | param p' => rw [if_neg (by simp)]; rfl
    | param p =>
      cases tok' with
      | lit c' => rw [if_neg (by simp)]; rfl
      | param p' =>
        simp only [setChild, Token.param.injEq]
        by_cases hp : p' = p
        · subst hp; simp [hpos]
        · simp [hp]
  · simp only [child?, node_link_ne t tok h, h, false_and, if_false]

/-- What every sequence of `add` calls keeps: single characters as keys, links
that only lead to later nodes, and at most one link to each node. -/
structure Grown (t : Trie) : Prop where
  size_pos : 0 < t.nodes.length
  keys_nodup : ∀ i, ((t.node i).children.map Prod.fst).Nodup
  keys_single : ∀ i, ∀ kv ∈ (t.node i).children, ∃ c, kv.1 = Fragment.single c
  child_gt : ∀ i tok j, child? t i tok = some j → i < j ∧ j < t.nodes.length
  parent_unique : ∀ i i' tok tok' j, child? t i tok = some j → child? t i' tok' = some j →
    i = i' ∧ tok = tok'

theorem child?_init (t : Trie) {i : ℕ} (h : t.node i = Node.init) (tok : Token) :
    child? t i tok = none := by
  cases tok <;> simp [child?, h, Node.init, ChildMap.lookup]

theorem grown_fresh : Grown Trie.fresh := by
  have hnode : ∀ i, Trie.fresh.node i = Node.init := by
    intro i
    cases i <;> simp [Trie.fresh, Trie.node]
  refine ⟨by decide, ?_, ?_, ?_, ?_⟩
  · intro i; simp [hnode, Node.init]
  · intro i; simp [hnode, Node.init]
  · intro i tok j h; simp [child?_init _ (hnode i)] at h
  · intro i i' tok tok' j h; simp [child?_init _ (hnode i)] at h

theorem grown_link {t : Trie} (h : Grown t) {idx : ℕ} (hidx : idx < t.nodes.length) {tok : Token}
    (hnew : child? t idx tok = none) : Grown (link t idx tok) := by
  have hbound : ∀ i tok j, child? t i tok = some j → j ≠ t.nodes.length := by
    intro i tok j hj
    have := (h.child_gt i tok j hj).2
    omega
  refine ⟨by simp, ?_, ?_, ?_, ?_⟩
  · intro i
    by_cases hi : i = idx
    · subst hi
      rw [node_link_self t hidx]
      cases tok with
      | lit c =>
        have hc : Fragment.single c ∉ (t.node i).children.map Prod.fst := lookup_eq_none.1 hnew
        have hp := (set_perm t.nodes.length hc).map Prod.fst
        exact hp.nodup_iff.2 (List.nodup_cons.2 ⟨hc, h.keys_nodup i⟩)
      | param p => exact h.keys_nodup i
    · rw [node_link_ne t tok hi]
      exact h.keys_nodup i
  · intro i kv hkv
    by_cases hi : i = idx
    · subst hi
      rw [node_link_self t hidx] at hkv
      cases tok with
      | lit c =>
        have hc : Fragment.single c ∉ (t.node i).children.map Prod.fst := lookup_eq_none.1 hnew
        rcases List.mem_cons.1 ((set_perm t.nodes.length hc).mem_iff.1 hkv) with rfl | hkv
        · exact ⟨c, rfl⟩
        · exact h.keys_single i kv hkv
      | param p => exact h.keys_single i kv hkv
    · rw [node_link_ne t tok hi] at hkv
      exact h.keys_single i kv hkv
  · intro i tok' j hj
    rw [child?_link t hidx] at hj
    rw [length_link]
    split_ifs at hj with heq
    · simp only [Option.some.injEq] at hj
      omega
    · have := h.child_gt i tok' j hj
      omega
  · intro i i' tok₁ tok₂ j h₁ h₂
    rw [child?_link t hidx] at h₁ h₂
    split_ifs at h₁ h₂ with he₁ he₂ he₂
    · exact ⟨he₁.1.trans he₂.1.symm, he₁.2.trans he₂.2.symm⟩
    · exact (hbound _ _ _ h₂ (Option.some.inj h₁).symm).elim
    · exact (hbound _ _ _ h₁ (Option.some.inj h₂).symm).elim
    · exact h.parent_unique i i' tok₁ tok₂ j h₁ h₂

def RuleAt (t : Trie) (toks : List Token) (ruleIndex : ℕ) : Prop :=
  ∃ j, follow t 0 toks = some j ∧ (t.node j).ruleIndex = ruleIndex

theorem follow_lt {t : Trie} (h : Grown t) {idx j : ℕ} {toks : List Token}
    (hidx : idx < t.nodes.length) (hf : follow t idx toks = some j) :
    idx ≤ j ∧ j < t.nodes.length := by
  induction toks generalizing idx with
  | nil =>
    obtain rfl := Option.some.inj hf
    exact ⟨le_refl _, hidx⟩
  | cons tok toks ih =>
    obtain ⟨k, hk, hf⟩ := Option.bind_eq_some_iff.1 hf
    have hlt := h.child_gt idx tok k hk
    have := ih hlt.2 hf
    omega

theorem follow_snoc {t : Trie} {idx j : ℕ} {toks : List Token} {tok : Token} :
    follow t idx (toks ++ [tok]) = some j ↔
      ∃ k, follow t idx toks = some k ∧ child? t k tok = some j := by
  simp [follow_append, follow, Option.bind_eq_some_iff]

theorem follow_injective {t : Trie} (h : Grown t) {toks toks' : List Token} {j : ℕ}
    (hf : follow t 0 toks = some j) (hf' : follow t 0 toks' = some j) : toks = toks' := by
  have hroot : ∀ (l : List Token) (tok : Token), follow t 0 (l ++ [tok]) ≠ some 0 := by
    intro l tok heq
    obtain ⟨k, -, hk⟩ := follow_snoc.1 heq
    exact Nat.not_lt_zero _ (h.child_gt k tok 0 hk).1
  induction toks using List.reverseRecOn generalizing toks' j with
  | nil =>
    obtain rfl := Option.some.inj hf
    rcases List.eq_nil_or_concat' toks' with rfl | ⟨l, tok, rfl⟩
    · rfl
    · exact (hroot l tok hf').elim
  | append_singleton toks tok ih =>
    rcases List.eq_nil_or_concat' toks' with rfl | ⟨l, tok', rfl⟩
    · obtain rfl := Option.some.inj hf'
      exact (hroot toks tok hf).elim
    · obtain ⟨k, hk, hj⟩ := follow_snoc.1 hf
      obtain ⟨k', hk', hj'⟩ := follow_snoc.1 hf'
      obtain ⟨rfl, rfl⟩ := h.parent_unique k k' tok tok' j hj hj'
      rw [ih hk hk']

theorem follow_link_mono {t : Trie} {idx : ℕ} (hidx : idx < t.nodes.length) {tok : Token}
    (hnew : child? t idx tok = none) {i j : ℕ} {toks : List Token}
    (hf : follow t i toks = some j) : follow (link t idx tok) i toks = some j := by
  induction toks generalizing i with
  | nil => exact hf
  | cons tok' toks ih =>
    obtain ⟨k, hk, hf⟩ := Option.bind_eq_some_iff.1 hf
    refine Option.bind_eq_some_iff.2 ⟨k, ?_, ih hf⟩
    rw [child?_link t hidx, if_neg, hk]
    rintro ⟨rfl, rfl⟩
    rw [hnew] at hk
    cases hk

theorem follow_of_link {t : Trie} {idx : ℕ} (hidx : idx < t.nodes.length) {tok : Token} {i j : ℕ}
    {toks : List Token} (hj : j ≠ t.nodes.length)
    (hf : follow (link t idx tok) i toks = some j) : follow t i toks = some j := by
  induction toks generalizing i with
  | nil => exact hf
  | cons tok' toks ih =>
    obtain ⟨k, hk, hf⟩ := Option.bind_eq_some_iff.1 hf
    rw [child?_link t hidx] at hk
    split_ifs at hk with heq
    · obtain rfl := Option.some.inj hk
      have hleaf : follow t t.nodes.length toks = some j := ih hf
      cases toks with
      | nil => exact (hj (Option.some.inj hleaf).symm).elim
      | cons tok'' toks =>
        simp [follow, child?_init t (node_of_le t (le_refl _))] at hleaf
    · exact Option.bind_eq_some_iff.2 ⟨k, hk, ih hf⟩

theorem ruleAt_link {t : Trie} {idx : ℕ} (hidx : idx < t.nodes.length) {tok : Token}
    (hnew : child? t idx tok = none) {toks : List Token} {r : ℕ} (hr : r ≠ 0) :
    RuleAt (link t idx tok) toks r ↔ RuleAt t toks r := by
  constructor
  · rintro ⟨j, hf, hj⟩
    rw [ruleIndex_link t hidx] at hj
    refine ⟨j, follow_of_link hidx ?_ hf, hj⟩
    rintro rfl
    rw [node_of_le t (le_refl _)] at hj
    exact hr hj.symm
  · rintro ⟨j, hf, hj⟩
    exact ⟨j, follow_link_mono hidx hnew hf, by rw [ruleIndex_link t hidx, hj]⟩

theorem descendAll_spec {t : Trie} (h : Grown t) (pre : List Token) {idx : ℕ}
    (hidx : follow t 0 pre = some idx) (toks : List Token) :
    Grown (descendAll t idx toks).1 ∧
      follow (descendAll t idx toks).1 0 (pre ++ toks) = some (descendAll t idx toks).2 ∧
      ∀ toks' r, r ≠ 0 → (RuleAt (descendAll t idx toks).1 toks' r ↔ RuleAt t toks' r) := by
  induction toks generalizing t pre idx with
  | nil => exact ⟨h, by simpa [descendAll] using hidx, fun _ _ _ => Iff.rfl⟩
  | cons tok toks ih =>
    have hlt := (follow_lt h h.size_pos hidx).2
    rw [descendAll, List.append_cons pre tok toks]
    cases hchild : child? t idx tok with
    | some j =>
      rw [descend_some hchild]
      exact ih h _ (follow_snoc.2 ⟨idx, hidx, hchild⟩)
    | none =>
      rw [descend_none hchild]
      have hnew : child? (link t idx tok) idx tok = some t.nodes.length := by
        rw [child?_link t hlt, if_pos ⟨rfl, rfl⟩]
      obtain ⟨hg, hf, hrules⟩ := ih (grown_link h hlt hchild) _
        (follow_snoc.2 ⟨idx, follow_link_mono hlt hchild hidx, hnew⟩)
      exact ⟨hg, hf, fun toks' r hr => (hrules toks' r hr).trans (ruleAt_link hlt hchild hr)⟩

theorem pattern_unique {url : Text} {toks toks' : List Token} (h : Pattern url toks)
    (h' : Pattern url toks') : toks = toks' := by
  induction h generalizing toks' with
  | nil =>
    generalize hurl : ([] : Text) = url at h'
    cases h' with
    | nil => rfl
    | lit => cases hurl
    | param hx =>
      obtain ⟨tag, htag⟩ := paramTraits_cons hx
      simp [htag] at hurl
  | @lit c url toks hc h ih =>
    generalize hurl : c :: url = url' at h'
    cases h' with
    | nil => cases hurl
    | lit _ h' =>
      obtain ⟨rfl, rfl⟩ := List.cons.inj hurl
      rw [ih h']
    | param hx =>
      obtain ⟨tag, htag⟩ := paramTraits_cons hx
      rw [htag, List.cons_append] at hurl
      exact (hc (List.cons.inj hurl).1).elim
  | @param x url toks hx h ih =>
    generalize hurl : x.2 ++ url = url' at h'
    cases h' with
    | nil =>
      obtain ⟨tag, htag⟩ := paramTraits_cons hx
      simp [htag] at hurl
    | lit hc =>
      obtain ⟨tag, htag⟩ := paramTraits_cons hx
      rw [htag, List.cons_append] at hurl
      exact (hc (List.cons.inj hurl).1.symm).elim
    | @param x' url₂ _ hx' h' =>
      have hfind := find_paramTraits hx url
      rw [hurl, find_paramTraits hx' url₂, Option.some.injEq] at hfind
      subst hfind
      rw [ih (List.append_cancel_left hurl ▸ h')]

theorem node_setIndex (t : Trie) {j : ℕ} (hj : j < t.nodes.length) (ruleIndex i : ℕ) :
    (t.modify j fun n => { n with ruleIndex := ruleIndex }).node i =
      { t.node i with ruleIndex := if i = j then ruleIndex else (t.node i).ruleIndex } := by
  by_cases h : i = j
  · subst h
    rw [node_modify_self t hj, if_pos rfl]
  · rw [node_modify_ne t h, if_neg h]

theorem child?_setIndex (t : Trie) {j : ℕ} (hj : j < t.nodes.length) (ruleIndex i : ℕ)
    (tok : Token) : child? (t.modify j fun n => { n with ruleIndex := ruleIndex }) i tok =
      child? t i tok := by
  cases tok <;> simp only [child?, node_setIndex t hj]

theorem follow_setIndex (t : Trie) {j : ℕ} (hj : j < t.nodes.length) (ruleIndex i : ℕ)
    (toks : List Token) : follow (t.modify j fun n => { n with ruleIndex := ruleIndex }) i toks =
      follow t i toks := by
  induction toks generalizing i with
  | nil => rfl
  | cons tok toks ih => simp only [follow, child?_setIndex t hj, ih]

theorem grown_setIndex {t : Trie} (h : Grown t) {j : ℕ} (hj : j < t.nodes.length)
    (ruleIndex : ℕ) : Grown (t.modify j fun n => { n with ruleIndex := ruleIndex }) := by
  refine ⟨by simpa using h.size_pos, ?_, ?_, ?_, ?_⟩
  · intro i; rw [node_setIndex t hj]; exact h.keys_nodup i
  · intro i; rw [node_setIndex t hj]; exact h.keys_single i
  · intro i tok k hk
    rw [child?_setIndex t hj] at hk
    simpa using h.child_gt i tok k hk
  · intro i i' tok tok' k hk hk'
    rw [child?_setIndex t hj] at hk hk'
    exact h.parent_unique i i' tok tok' k hk hk'

/-- The trie holds exactly these rules; index 0 stands for no rule. -/
structure Represents (t : Trie) (rules : List (Text × ℕ)) : Prop where
  grown : Grown t
  rule_iff : ∀ toks r, r ≠ 0 →
    (RuleAt t toks r ↔ ∃ url, (url, r) ∈ rules ∧ Pattern url toks)

theorem represents_fresh : Represents Trie.fresh [] := by
  refine ⟨grown_fresh, ?_⟩
  intro toks r hr
  simp only [List.not_mem_nil, false_and, exists_false, iff_false]
  rintro ⟨j, -, hj⟩
  have hnode : Trie.fresh.node j = Node.init := by
    cases j <;> simp [Trie.fresh, Trie.node]
  rw [hnode] at hj
  exact hr hj.symm

theorem represents_add {t t' : Trie} {rules : List (Text × ℕ)} (h : Represents t rules)
    {url : Text} {ruleIndex : ℕ} (hadd : t.add url ruleIndex = some (t', .ok ())) :
    Represents t' (rules ++ [(url, ruleIndex)]) := by
  obtain ⟨toks, htoks, h0, rfl⟩ := add_ok hadd
  obtain ⟨hg, hf, hrules⟩ := descendAll_spec h.grown [] rfl toks
  rw [List.nil_append] at hf
  generalize (descendAll t 0 toks).1 = u at hg hf hrules h0 ⊢
  generalize (descendAll t 0 toks).2 = idx at hf h0 ⊢
  have hidx := (follow_lt hg hg.size_pos hf).2
  refine ⟨grown_setIndex hg hidx ruleIndex, ?_⟩
  intro toks' r hr
  have hold := (hrules toks' r hr).trans (h.rule_iff toks' r hr)
  have hnew : (∃ url', (url', r) ∈ rules ++ [(url, ruleIndex)] ∧ Pattern url' toks') ↔
      RuleAt u toks' r ∨ (r = ruleIndex ∧ toks' = toks) := by
    rw [hold]
    constructor
    · rintro ⟨url', hmem, hpat⟩
      rcases List.mem_append.1 hmem with hmem | hmem
      · exact .inl ⟨url', hmem, hpat⟩
      · obtain ⟨rfl, rfl⟩ := Prod.mk.inj (List.mem_singleton.1 hmem)
        exact .inr ⟨rfl, pattern_unique hpat htoks⟩
    · rintro (⟨url', hmem, hpat⟩ | ⟨rfl, rfl⟩)
      · exact ⟨url', List.mem_append_left _ hmem, hpat⟩
      · exact ⟨url, List.mem_append_right _ (List.mem_singleton.2 rfl), htoks⟩
  rw [hnew]
  constructor
  · rintro ⟨j, hj, hrj⟩
    rw [follow_setIndex u hidx] at hj
    rw [node_setIndex u hidx] at hrj
    dsimp only at hrj
    split_ifs at hrj with hji
    · exact .inr ⟨hrj.symm, follow_injective hg (hji ▸ hj) hf⟩
    · exact .inl ⟨j, hj, hrj⟩
  · rintro (⟨j, hj, hrj⟩ | ⟨rfl, rfl⟩)
    · refine ⟨j, by rwa [follow_setIndex u hidx], ?_⟩
      rw [node_setIndex u hidx]
      dsimp only
      rw [if_neg, hrj]
      rintro rfl
      exact hr (hrj.symm.trans h0)
    · refine ⟨idx, by rwa [follow_setIndex u hidx], ?_⟩
      rw [node_setIndex u hidx]
      exact if_pos rfl

theorem represents_addAll {t t' : Trie} {rules₀ rules : List (Text × ℕ)}
    (h : Represents t rules₀) (hadd : t.addAll rules = some t') :
    Represents t' (rules₀ ++ rules) := by
  induction rules generalizing t rules₀ with
  | nil =>
    obtain rfl := Option.some.inj hadd
    simpa using h
  | cons rule rules ih =>
    rw [Trie.addAll] at hadd
    split at hadd
    · rename_i u hu
      simpa using ih (represents_add h hu) hadd
    · cases hadd

def sampleRules : List (Text × ℕ) :=
  [(['/', 'a', '/', '<', 's', 't', 'r', '>'], 1),
    (['/', 'a', 'b', '/', '<', 'i', 'n', 't', '>'], 2),
    (['/', 'a', '/', '<', 's', 't', 'r', '>', '/'], 3)]

end CrowCore.RoutingTrieBuild
