import CrowCore.RoutingTrieOptimize

set_option autoImplicit false

/-!
# The shape of an optimised trie

A call of `optimizeNode` changes only what is below its node. It joins the literal
children of the node until a level has a node that must stay, so that all keys of a
node have one length. A trie is compared with the one that `add` has built.
-/
namespace CrowCore.RoutingTrieJoin
open RoutingTrie RoutingTrieBuild RoutingTrieOptimize

def literal (s : Text) : List Token := s.map .lit

@[simp] theorem literal_append (s s' : Text) : literal (s ++ s') = literal s ++ literal s' :=
  List.map_append

theorem literal_injective : Function.Injective literal :=
  List.map_injective_iff.2 fun _ _ h => Token.lit.inj h

def Below (t : Trie) (i j : ℕ) : Prop := ∃ toks, follow t i toks = some j

variable {t₀ t t' : Trie}

theorem Below.refl (t : Trie) (i : ℕ) : Below t i i := ⟨[], rfl⟩

theorem Below.trans {i j k : ℕ} (h : Below t i j) (h' : Below t j k) : Below t i k := by
  obtain ⟨toks, h⟩ := h
  obtain ⟨toks', h'⟩ := h'
  exact ⟨toks ++ toks', by rw [follow_append, h, Option.bind_some, h']⟩

theorem follow_le (h : Grown t) {i j : ℕ} {toks : List Token} (hf : follow t i toks = some j) :
    i ≤ j ∧ (toks ≠ [] → i < j) := by
  induction toks generalizing i with
  | nil => exact ⟨(Option.some.inj hf).le, absurd rfl⟩
  | cons tok toks ih =>
    obtain ⟨k, hk, hf⟩ := Option.bind_eq_some_iff.1 hf
    have hlt := (h.child_gt i tok k hk).1
    have hle := (ih hf).1
    exact ⟨by omega, fun _ => by omega⟩

theorem follow_injective_from (h : Grown t) {i j : ℕ} {toks toks' : List Token}
    (hf : follow t i toks = some j) (hf' : follow t i toks' = some j) : toks = toks' := by
  have hloop : ∀ l : List Token, l ≠ [] → follow t i l ≠ some i := by
    intro l hl heq
    exact Nat.lt_irrefl i ((follow_le h heq).2 hl)
  induction toks using List.reverseRecOn generalizing toks' j with
  | nil =>
    obtain rfl := Option.some.inj hf
    by_contra hne
    exact hloop toks' (Ne.symm hne) hf'
  | append_singleton toks tok ih =>
    rcases List.eq_nil_or_concat' toks' with rfl | ⟨l, tok', rfl⟩
    · obtain rfl := Option.some.inj hf'
      exact (hloop _ (by simp) hf).elim
    · obtain ⟨k, hk, hj⟩ := follow_snoc.1 hf
      obtain ⟨k', hk', hj'⟩ := follow_snoc.1 hf'
      obtain ⟨rfl, rfl⟩ := h.parent_unique k k' tok tok' j hj hj'
      rw [ih hk hk']

theorem not_below_both (h : Grown t) {i j k k' : ℕ} {toks toks' : List Token}
    (hk : follow t i toks = some k) (hk' : follow t i toks' = some k')
    (hlen : toks.length = toks'.length) (hne : toks ≠ toks') (hj : Below t k j) :
    ¬ Below t k' j := by
  rintro ⟨l', hl'⟩
  obtain ⟨l, hl⟩ := hj
  have happ : follow t i (toks ++ l) = some j := by rw [follow_append, hk, Option.bind_some, hl]
  have happ' : follow t i (toks' ++ l') = some j := by
    rw [follow_append, hk', Option.bind_some, hl']
  exact hne (List.append_inj_left (follow_injective_from h happ happ') hlen)

/-- The literal children of the node are the nodes of one level below it, and all
nodes in between are simple. -/
structure Level (t₀ t : Trie) (i n : ℕ) : Prop where
  pos : 0 < n
  children : ∀ kv, kv ∈ (t.node i).children ↔
    kv.1.val.length = n ∧ follow t₀ i (literal kv.1.val) = some kv.2
  simple : ∀ s j, s ≠ [] → s.length < n → follow t₀ i (literal s) = some j →
    (t₀.node j).isSimpleNode = true

/-- The level is one at which `optimizeNode` stops. -/
def Joined (t₀ t : Trie) (i : ℕ) : Prop := ∃ n, Level t₀ t i n ∧
  ((t.node i).children = [] ∨ ∃ kv ∈ (t.node i).children, (t₀.node kv.2).isSimpleNode = false)

theorem Level.congr {i n : ℕ} (h : Level t₀ t i n) (hi : t'.node i = t.node i) :
    Level t₀ t' i n :=
  ⟨h.pos, hi ▸ h.children, h.simple⟩

theorem Joined.congr {i : ℕ} (h : Joined t₀ t i) (hi : t'.node i = t.node i) :
    Joined t₀ t' i := by
  obtain ⟨n, hlevel, hstop⟩ := h
  exact ⟨n, hlevel.congr hi, hi ▸ hstop⟩

theorem level_self (h : Grown t) (i : ℕ) : Level t t i 1 := by
  refine ⟨Nat.one_pos, fun kv => ?_, fun s j hs hlt => ?_⟩
  · obtain ⟨⟨key, hkey⟩, j⟩ := kv
    constructor
    · intro hkv
      obtain ⟨c, hc⟩ := h.keys_single i _ hkv
      dsimp only at hc
      rw [hc] at hkv ⊢
      refine ⟨rfl, Option.bind_eq_some_iff.2 ⟨j, ?_, rfl⟩⟩
      exact (lookup_eq_some (h.keys_nodup i)).2 hkv
    · rintro ⟨hlen, hf⟩
      obtain ⟨c, rfl⟩ := List.length_eq_one_iff.1 hlen
      obtain ⟨k, hk, hf⟩ := Option.bind_eq_some_iff.1 hf
      rw [Option.some.inj hf] at hk
      exact (lookup_eq_some (h.keys_nodup i)).1 hk
  · have hpos := List.length_pos_iff.2 hs
    omega

theorem level_merge (h : Grown t₀) (hs : Shaped t) {i n : ℕ} (hi : i < t.nodes.length)
    (hlevel : Level t₀ t i n)
    (hfresh : ∀ kv ∈ (t.node i).children, t.node kv.2 = t₀.node kv.2)
    (hsimple : ∀ kv ∈ (t.node i).children, (t.node kv.2).isSimpleNode = true) :
    Level t₀ (merge t i) i (n + 1) := by
  refine ⟨Nat.succ_pos n, fun kv => ?_, fun s j hs' hlt hf => ?_⟩
  · rw [node_merge t hi]
    dsimp only
    rw [if_pos rfl, (mergedChildren_perm hs i).mem_iff]
    constructor
    · intro hkv
      obtain ⟨kv₁, hkv₁, kv₂, hkv₂, rfl⟩ := mem_mergedEntries hkv
      obtain ⟨hlen₁, hf₁⟩ := (hlevel.children kv₁).1 hkv₁
      rw [hfresh kv₁ hkv₁] at hkv₂
      obtain ⟨hlen₂, hf₂⟩ := ((level_self h kv₁.2).children kv₂).1 hkv₂
      refine ⟨?_, ?_⟩
      · simp [Fragment.append, hlen₁, hlen₂]
      · rw [Fragment.append, literal_append, follow_append, hf₁, Option.bind_some, hf₂]
    · rintro ⟨hlen, hf⟩
      obtain ⟨⟨key, hkey⟩, j⟩ := kv
      obtain ⟨s, c, rfl⟩ := List.eq_nil_or_concat' key |>.resolve_left hkey
      rw [List.length_append, List.length_singleton] at hlen
      rw [literal_append, follow_append] at hf
      obtain ⟨k, hk, hf⟩ := Option.bind_eq_some_iff.1 hf
      have hs₁ : s ≠ [] := by
        have := hlevel.pos
        exact List.ne_nil_of_length_pos (by omega)
      have hkv₁ : (⟨s, hs₁⟩, k) ∈ (t.node i).children :=
        (hlevel.children (⟨s, hs₁⟩, k)).2 ⟨by simpa using hlen, hk⟩
      have hkv₂ : (Fragment.single c, j) ∈ (t.node k).children := by
        rw [hfresh _ hkv₁]
        exact ((level_self h k).children (Fragment.single c, j)).2 ⟨rfl, hf⟩
      exact List.mem_flatMap.2 ⟨_, hkv₁, List.mem_map.2 ⟨_, hkv₂, rfl⟩⟩
  · by_cases hn : s.length < n
    · exact hlevel.simple s j hs' hn hf
    · have hkv := (hlevel.children (⟨s, hs'⟩, j)).2 ⟨by simp only; omega, hf⟩
      rw [← hfresh _ hkv]
      exact hsimple _ hkv

/-- A trie on the way from `t₀` to the optimised one. -/
structure Within (t₀ t : Trie) : Prop where
  shaped : Shaped t
  children : ∀ i, ∀ kv ∈ (t.node i).children, Below t₀ i kv.2
  params : ∀ i, (t.node i).paramChildrens = (t₀.node i).paramChildrens

theorem within_self (h : Grown t) : Within t t where
  shaped := shaped_of_grown h
  children i kv hkv := ⟨_, (((level_self h i).children kv).1 hkv).2⟩
  params _ := rfl

theorem Within.merge (hw : Within t₀ t) {i : ℕ} (hi : i < t.nodes.length) :
    Within t₀ (merge t i) := by
  refine ⟨shaped_merge hw.shaped hi, fun j kv hkv => ?_, fun j => ?_⟩
  · rw [node_merge t hi] at hkv
    dsimp only at hkv
    split_ifs at hkv with hji
    · rw [(mergedChildren_perm hw.shaped i).mem_iff] at hkv
      obtain ⟨kv₁, hkv₁, kv₂, hkv₂, rfl⟩ := mem_mergedEntries hkv
      rw [hji]
      exact (hw.children i kv₁ hkv₁).trans (hw.children kv₁.2 kv₂ hkv₂)
    · exact hw.children j kv hkv
  · rw [node_merge t hi]
    exact hw.params j

theorem follow_param (hw : Within t₀ t) {i x : ℕ} (hx : x ∈ paramIndexes t i) :
    ∃ p, follow t₀ i [.param p] = some x := by
  obtain ⟨hx, hne⟩ := List.mem_filter.1 hx
  obtain ⟨p, -, rfl⟩ := List.mem_map.1 hx
  rw [hw.params] at hne ⊢
  refine ⟨p, Option.bind_eq_some_iff.2 ⟨_, ?_, rfl⟩⟩
  exact if_neg (by simpa using hne)

/-- The trie after calls on some nodes: what is below none of them is as before. -/
def Frame (t₀ t t' : Trie) (is : List ℕ) : Prop :=
  Within t₀ t' ∧ ∀ j, (∀ i ∈ is, ¬ Below t₀ i j) → t'.node j = t.node j

theorem Frame.weaken {is is' : List ℕ} (hf : Frame t₀ t t' is)
    (hsub : ∀ i ∈ is, ∃ i' ∈ is', Below t₀ i' i) : Frame t₀ t t' is' := by
  refine ⟨hf.1, fun j hj => hf.2 j fun i hi hij => ?_⟩
  obtain ⟨i', hi', hbelow⟩ := hsub i hi
  exact hj i' hi' (hbelow.trans hij)

theorem Frame.trans {t'' : Trie} {is is' : List ℕ} (hf : Frame t₀ t t' is)
    (hf' : Frame t₀ t' t'' is') : Frame t₀ t t'' (is ++ is') := by
  refine ⟨hf'.1, fun j hj => ?_⟩
  rw [hf'.2 j fun i hi => hj i (List.mem_append_right is hi)]
  exact hf.2 j fun i hi => hj i (List.mem_append_left is' hi)

theorem foldlM_frame {ι : Type} (call : Trie → ι → Option Trie) (idx : ι → ℕ)
    (hcall : ∀ t x t', Within t₀ t → call t x = some t' → Frame t₀ t t' [idx x]) (is : List ι)
    (hw : Within t₀ t) (hrun : is.foldlM call t = some t') : Frame t₀ t t' (is.map idx) := by
  induction is generalizing t with
  | nil =>
    obtain rfl := Option.some.inj hrun
    exact ⟨hw, fun _ _ => rfl⟩
  | cons x is ih =>
    obtain ⟨u, hu, hrun⟩ := Option.bind_eq_some_iff.1 hrun
    have hf := hcall t x u hw hu
    exact hf.trans (ih hf.1 hrun)

theorem optimizeNode_frame {fuel : ℕ} {i : ℕ} (hw : Within t₀ t)
    (hrun : Trie.optimizeNode fuel t i = some t') : Frame t₀ t t' [i] := by
  induction fuel generalizing t t' i with
  | zero => simp [Trie.optimizeNode] at hrun
  | succ fuel ih =>
    rw [optimizeNode_succ] at hrun
    obtain ⟨u, hparams, hrun⟩ := Option.bind_eq_some_iff.1 hrun
    have hu : Frame t₀ t u ((paramIndexes t i).map id) :=
      foldlM_frame _ id (fun _ _ _ hw hc => ih hw hc) _ hw hparams
    have hself : ∀ k ∈ [i], ∃ i' ∈ [i], Below t₀ i' k := by
      intro k hk
      exact ⟨k, hk, .refl t₀ k⟩
    have hu' : Frame t₀ t u [i] := by
      refine hu.weaken fun x hx => ⟨i, List.mem_singleton_self i, ?_⟩
      rw [List.map_id] at hx
      obtain ⟨p, hp⟩ := follow_param hw hx
      exact ⟨_, hp⟩
    have hrest : Frame t₀ u t' [i] := by
      unfold optimizeChildren at hrun
      split_ifs at hrun with hempty hall
      · obtain rfl := Option.some.inj hrun
        exact ⟨hu.1, fun _ _ => rfl⟩
      · obtain ⟨kv, hkv⟩ := List.exists_mem_of_ne_nil _ (by simpa using hempty)
        have hi := lt_length_of_child hu.1.shaped hkv
        have hm : Frame t₀ u (merge u i) [i] := by
          refine ⟨hu.1.merge hi, fun j hj => node_modify_ne u ?_ _⟩
          rintro rfl
          exact hj j (List.mem_singleton_self j) (.refl t₀ j)
        exact (hm.trans (ih hm.1 hrun)).weaken (by simpa using hself)
      · refine (foldlM_frame _ Prod.snd (fun _ _ _ hw hc => ih hw hc) _ hu.1 hrun).weaken ?_
        intro k hk
        obtain ⟨kv, hkv, rfl⟩ := List.mem_map.1 hk
        exact ⟨i, List.mem_singleton_self i, hu.1.children i kv hkv⟩
    exact (hu'.trans hrest).weaken (by simpa using hself)

inductive KeyPath (t : Trie) : ℕ → Text → ℕ → Prop where
  | nil (i : ℕ) : KeyPath t i [] i
  | cons {i j : ℕ} {kv : Fragment × ℕ} {s : Text} (hkv : kv ∈ (t.node i).children)
      (h : KeyPath t kv.2 s j) : KeyPath t i (kv.1.val ++ s) j

theorem below_of_keyPath (hw : Within t₀ t) {i j : ℕ} {s : Text} (h : KeyPath t i s j) :
    Below t₀ i j := by
  induction h with
  | nil i => exact .refl t₀ i
  | cons hkv _ ih => exact (hw.children _ _ hkv).trans ih

theorem KeyPath.congr (hw : Within t₀ t') {i j : ℕ} {s : Text}
    (hsame : ∀ k, Below t₀ i k → t'.node k = t.node k) (h : KeyPath t' i s j) :
    KeyPath t i s j := by
  induction h with
  | nil i => exact .nil i
  | @cons i j kv s hkv _ ih =>
    have hbelow := hw.children _ _ hkv
    rw [hsame i (.refl t₀ i)] at hkv
    exact .cons hkv (ih fun k hk => hsame k (hbelow.trans hk))

/-- What a call on a node leaves, if its literal children are those of one level. -/
def Joins (t₀ : Trie) (fuel : ℕ) : Prop := ∀ t t' i n, Within t₀ t → Level t₀ t i n →
  (∀ c toks j, follow t₀ i (.lit c :: toks) = some j → t.node j = t₀.node j) →
  Trie.optimizeNode fuel t i = some t' → ∀ s j, KeyPath t' i s j → Joined t₀ t' j

theorem foldlM_joined (h : Grown t₀) {fuel : ℕ} (ih : Joins t₀ fuel) {children : ChildMap}
    (hapart : children.Pairwise fun kv kv' => ∀ j, Below t₀ kv.2 j → ¬ Below t₀ kv'.2 j)
    (hw : Within t₀ t) (hfresh : ∀ kv ∈ children, ∀ j, Below t₀ kv.2 j → t.node j = t₀.node j)
    (hrun : children.foldlM (fun t kv => Trie.optimizeNode fuel t kv.2) t = some t') :
    ∀ kv ∈ children, ∀ s j, KeyPath t' kv.2 s j → Joined t₀ t' j := by
  induction children generalizing t with
  | nil => simp
  | cons kv children ihc =>
    obtain ⟨hkv, hapart⟩ := List.pairwise_cons.1 hapart
    obtain ⟨u, hu, hrun⟩ := Option.bind_eq_some_iff.1 hrun
    have hframe := optimizeNode_frame hw hu
    have hlater : Frame t₀ u t' (children.map Prod.snd) :=
      foldlM_frame _ Prod.snd (fun _ _ _ hw hc => optimizeNode_frame hw hc) _ hframe.1 hrun
    intro x hx s j hpath
    rcases List.mem_cons.1 hx with rfl | hx
    · have hsame : ∀ k, Below t₀ x.2 k → t'.node k = u.node k := by
        refine fun k hk => hlater.2 k fun i hi => ?_
        obtain ⟨y, hy, rfl⟩ := List.mem_map.1 hi
        exact hkv y hy k hk
      have hlevel : Level t₀ t x.2 1 :=
        (level_self h x.2).congr (hfresh x List.mem_cons_self x.2 (.refl t₀ x.2))
      refine Joined.congr (ih t u x.2 1 hw hlevel (fun c toks k hk => ?_) hu s j ?_) ?_
      · exact hfresh x List.mem_cons_self k ⟨_, hk⟩
      · exact hpath.congr hlater.1 hsame
      · exact hsame j (below_of_keyPath hlater.1 hpath)
    · refine ihc hapart hframe.1 (fun y hy k hk => ?_) hrun x hx s j hpath
      rw [hframe.2 k (by simpa using fun hbelow => hkv y hy k hbelow hk)]
      exact hfresh y (List.mem_cons_of_mem kv hy) k hk

theorem Level.apart (h : Grown t₀) (hs : Shaped t) {i n : ℕ} (hlevel : Level t₀ t i n) :
    (t.node i).children.Pairwise fun kv kv' => ∀ j, Below t₀ kv.2 j → ¬ Below t₀ kv'.2 j := by
  have hkeys : (t.node i).children.Pairwise fun kv kv' => kv.1.val ≠ kv'.1.val :=
    List.pairwise_map.1 (hs.keys_prefixFree i).nodup
  refine hkeys.imp_of_mem fun {kv kv'} hkv hkv' hne j hj => ?_
  obtain ⟨hlen, hf⟩ := (hlevel.children kv).1 hkv
  obtain ⟨hlen', hf'⟩ := (hlevel.children kv').1 hkv'
  refine not_below_both h hf hf' ?_ (literal_injective.ne hne) hj
  rw [literal, literal, List.length_map, List.length_map, hlen, hlen']

theorem param_apart (h : Grown t₀) (hw : Within t₀ t) {i x : ℕ} (hx : x ∈ paramIndexes t i) :
    ¬ Below t₀ x i ∧ ∀ c toks j, follow t₀ i (.lit c :: toks) = some j → ¬ Below t₀ x j := by
  obtain ⟨p, hp⟩ := follow_param hw hx
  constructor
  · rintro ⟨toks, htoks⟩
    have hlt := (follow_le h hp).2 (by simp)
    have hle := (follow_le h htoks).1
    omega
  · rintro c toks j hj ⟨toks', htoks'⟩
    have happ : follow t₀ i ([.param p] ++ toks') = some j := by
      rw [follow_append, hp, Option.bind_some, htoks']
    cases follow_injective_from h hj happ

theorem child_apart (h : Grown t₀) (hs : Shaped t) {i : ℕ} {kv : Fragment × ℕ}
    (hkv : kv ∈ (t.node i).children) : ¬ Below t₀ kv.2 i := by
  rintro ⟨toks, htoks⟩
  have hlt := (hs.children_gt i kv hkv).1
  have hle := (follow_le h htoks).1
  omega

theorem Level.follow_of_below {i n : ℕ} (hlevel : Level t₀ t i n) {kv : Fragment × ℕ}
    (hkv : kv ∈ (t.node i).children) {j : ℕ} (hj : Below t₀ kv.2 j) :
    ∃ c toks, follow t₀ i (.lit c :: toks) = some j := by
  obtain ⟨-, hf⟩ := (hlevel.children kv).1 hkv
  obtain ⟨toks, htoks⟩ := hj
  obtain ⟨c, key, hkey⟩ := List.exists_cons_of_ne_nil kv.1.property
  rw [hkey] at hf
  refine ⟨c, literal key ++ toks, ?_⟩
  have happ : follow t₀ i (literal (c :: key) ++ toks) = some j := by
    rw [follow_append, hf, Option.bind_some, htoks]
  exact happ

theorem joins (h : Grown t₀) (fuel : ℕ) : Joins t₀ fuel := by
  induction fuel with
  | zero =>
    intro t t' i n _ _ _ hrun
    simp [Trie.optimizeNode] at hrun
  | succ fuel ih =>
    intro t t' i n hw hlevel hfresh hrun
    rw [optimizeNode_succ] at hrun
    obtain ⟨u, hparams, hrun⟩ := Option.bind_eq_some_iff.1 hrun
    have hu : Frame t₀ t u ((paramIndexes t i).map id) :=
      foldlM_frame _ id (fun _ _ _ hw hc => optimizeNode_frame hw hc) _ hw hparams
    -- what the loop over the parameters leaves alone
    have hself : u.node i = t.node i := by
      refine hu.2 i fun x hx => (param_apart h hw ?_).1
      rwa [List.map_id] at hx
    have hlits : ∀ c toks j, follow t₀ i (.lit c :: toks) = some j → u.node j = t₀.node j := by
      intro c toks j hj
      rw [← hfresh c toks j hj]
      refine hu.2 j fun x hx => (param_apart h hw ?_).2 c toks j hj
      rwa [List.map_id] at hx
    have hlevel' : Level t₀ u i n := hlevel.congr hself
    have hbelow : ∀ kv ∈ (u.node i).children, ∀ j, Below t₀ kv.2 j → u.node j = t₀.node j := by
      intro kv hkv j hj
      obtain ⟨c, toks, hf⟩ := hlevel'.follow_of_below hkv hj
      exact hlits c toks j hf
    have hfreshChild : ∀ kv ∈ (u.node i).children, u.node kv.2 = t₀.node kv.2 :=
      fun kv hkv => hbelow kv hkv kv.2 (.refl t₀ kv.2)
    unfold optimizeChildren at hrun
    split_ifs at hrun with hempty hall
    · obtain rfl := Option.some.inj hrun
      have hnil : (u.node i).children = [] := by simpa using hempty
      intro s j hpath
      cases hpath with
      | nil => exact ⟨n, hlevel', .inl hnil⟩
      | cons hkv =>
        rw [hnil] at hkv
        cases hkv
    · obtain ⟨kv, hkv⟩ := List.exists_mem_of_ne_nil _ (by simpa using hempty)
      have hi := lt_length_of_child hu.1.shaped hkv
      refine ih (merge u i) t' i (n + 1) (hu.1.merge hi) ?_ (fun c toks j hj => ?_) hrun
      · exact level_merge h hu.1.shaped hi hlevel' hfreshChild (List.all_eq_true.1 hall)
      · have hlt := (follow_le h hj).2 (by simp)
        rw [merge, node_modify_ne u (by omega)]
        exact hlits c toks j hj
    · -- the level has a node that stays
      have hfold := foldlM_joined h ih (hlevel'.apart h hu.1.shaped) hu.1 hbelow hrun
      have hframe : Frame t₀ u t' ((u.node i).children.map Prod.snd) :=
        foldlM_frame _ Prod.snd (fun _ _ _ hw hc => optimizeNode_frame hw hc) _ hu.1 hrun
      have hi : t'.node i = u.node i := by
        refine hframe.2 i fun k hk => ?_
        obtain ⟨kv, hkv, rfl⟩ := List.mem_map.1 hk
        exact child_apart h hu.1.shaped hkv
      have hstop : ∃ kv ∈ (u.node i).children, (t₀.node kv.2).isSimpleNode = false := by
        rw [List.all_eq_true] at hall
        push Not at hall
        obtain ⟨kv, hkv, hsimple⟩ := hall
        rw [hfreshChild kv hkv] at hsimple
        exact ⟨kv, hkv, by simpa using hsimple⟩
      intro s j hpath
      cases hpath with
      | nil => exact Joined.congr ⟨n, hlevel', .inr hstop⟩ hi
      | cons hkv hpath =>
        rw [hi] at hkv
        exact hfold _ hkv _ j hpath

theorem optimize_joined (h : Grown t) (hopt : t.optimize = some t') :
    Within t t' ∧ ∀ s j, KeyPath t' 0 s j → Joined t t' j :=
  ⟨(optimizeNode_frame (within_self h) hopt).1,
    joins h _ t t' 0 1 (within_self h) (level_self h 0) (fun _ _ _ _ => rfl) hopt⟩

/-- Every node to which the keys lead has the children of one level. -/
def Leveled (t₀ t : Trie) (i : ℕ) : Prop := ∀ s j, KeyPath t i s j → ∃ n, Level t₀ t j n

theorem leveled_self (h : Grown t) (i : ℕ) : Leveled t t i := fun _ j _ => ⟨1, level_self h j⟩

theorem leveled_optimize (h : Grown t) (hopt : t.optimize = some t') : Leveled t t' 0 := by
  intro s j hpath
  obtain ⟨n, hlevel, -⟩ := (optimize_joined h hopt).2 s j hpath
  exact ⟨n, hlevel⟩

theorem Leveled.child {i : ℕ} (h : Leveled t₀ t i) {kv : Fragment × ℕ}
    (hkv : kv ∈ (t.node i).children) : Leveled t₀ t kv.2 :=
  fun _ j hpath => h _ j (.cons hkv hpath)

theorem KeyPath.trans {i j k : ℕ} {s s' : Text} (h : KeyPath t i s j) (h' : KeyPath t j s' k) :
    KeyPath t i (s ++ s') k := by
  induction h with
  | nil => exact h'
  | cons hkv _ ih =>
    rw [List.append_assoc]
    exact .cons hkv (ih h')

theorem KeyPath.snoc {i j : ℕ} {s : Text} {kv : Fragment × ℕ} (h : KeyPath t i s j)
    (hkv : kv ∈ (t.node j).children) : KeyPath t i (s ++ kv.1.val) kv.2 := by
  have hlast : KeyPath t j (kv.1.val ++ []) kv.2 := .cons hkv (.nil kv.2)
  rw [List.append_nil] at hlast
  exact h.trans hlast

theorem KeyPath.last {i j : ℕ} {s : Text} (h : KeyPath t i s j) :
    (s = [] ∧ i = j) ∨ ∃ s' k kv, KeyPath t i s' k ∧ kv ∈ (t.node k).children ∧
      s = s' ++ kv.1.val ∧ kv.2 = j := by
  induction h with
  | nil => exact .inl ⟨rfl, rfl⟩
  | @cons i j kv s hkv h ih =>
    right
    rcases ih with ⟨rfl, rfl⟩ | ⟨s', k, kv', hs', hkv', rfl, rfl⟩
    · exact ⟨[], i, kv, .nil i, hkv, by simp, rfl⟩
    · exact ⟨kv.1.val ++ s', k, kv', .cons hkv hs', hkv', by simp, rfl⟩

theorem Leveled.follow {i j : ℕ} {s : Text} (h : Leveled t₀ t i) (hpath : KeyPath t i s j) :
    follow t₀ i (literal s) = some j := by
  induction hpath with
  | nil => rfl
  | @cons i j kv s hkv hpath ih =>
    obtain ⟨n, hlevel⟩ := h _ _ (.nil i)
    rw [literal_append, follow_append, ((hlevel.children kv).1 hkv).2, Option.bind_some]
    exact ih (h.child hkv)

theorem Leveled.split {i j k : ℕ} {s p : Text} (h : Leveled t₀ t i) (hp : KeyPath t i p k)
    (hs : KeyPath t i s j) (hpre : p <+: s) : ∃ s', s = p ++ s' ∧ KeyPath t k s' j := by
  induction hp generalizing s with
  | nil => exact ⟨s, rfl, hs⟩
  | @cons i k kv p hkv hp ih =>
    cases hs with
    | nil => exact absurd (List.append_eq_nil_iff.1 (List.prefix_nil.1 hpre)).1 kv.1.property
    | @cons _ _ kv' s' hkv' hs' =>
      obtain ⟨n, hlevel⟩ := h _ _ (.nil i)
      obtain ⟨hlen, hf⟩ := (hlevel.children kv).1 hkv
      obtain ⟨hlen', hf'⟩ := (hlevel.children kv').1 hkv'
      obtain ⟨rest, hrest⟩ := hpre
      rw [List.append_assoc] at hrest
      obtain ⟨hkey, hrest⟩ := List.append_inj hrest (hlen.trans hlen'.symm)
      rw [hkey, hf'] at hf
      rw [Option.some.inj hf] at hs'
      obtain ⟨s'', rfl, hs''⟩ := ih (h.child hkv) hs' ⟨rest, hrest⟩
      exact ⟨s'', by rw [← hkey, List.append_assoc], hs''⟩

theorem keyPath_self (h : Grown t) {i j : ℕ} {s : Text} :
    KeyPath t i s j ↔ follow t i (literal s) = some j := by
  refine ⟨(leveled_self h i).follow, fun hf => ?_⟩
  induction s generalizing i with
  | nil =>
    obtain rfl := Option.some.inj hf
    exact .nil i
  | cons c s ih =>
    obtain ⟨k, hk, hf⟩ := Option.bind_eq_some_iff.1 hf
    have hkv := (lookup_eq_some (h.keys_nodup i)).1 hk
    exact .cons hkv (ih hf)

/-- The lengths of the texts that go on from `b`. -/
def ends (S : Text → Prop) (b : Text) : Set ℕ :=
  { n | ∃ s, S s ∧ b <+: s ∧ s.length = n ∧ b.length < n }

/-- Where keys end: after a boundary, at the shortest of the texts that go on from it. -/
inductive Boundary (S : Text → Prop) : Text → Prop where
  | nil : Boundary S []
  | next {b s : Text} {n : ℕ} (hb : Boundary S b) (hn : IsLeast (ends S b) n) (hs : S s)
      (hbs : b <+: s) (hlt : b.length < s.length) : Boundary S (s.take n)

/-- The texts at whose nodes something other than literal text follows. -/
structure StaysAt (t : Trie) (S : Text → Prop) : Prop where
  stays : ∀ s, S s → ∃ j, follow t 0 (literal s) = some j ∧ (t.node j).isSimpleNode = false
  of_stays : ∀ s j, follow t 0 (literal s) = some j → (t.node j).isSimpleNode = false → S s
  extends_to : ∀ s j, s ≠ [] → follow t 0 (literal s) = some j → ∃ s', S s' ∧ s <+: s'

variable {S : Text → Prop}

theorem le_of_stays (hS : StaysAt t S) {b s : Text} {i n : ℕ}
    (hb : follow t 0 (literal b) = some i) (hlevel : Level t t' i n) (hs : S s) (hbs : b <+: s)
    (hlt : b.length < s.length) : b.length + n ≤ s.length := by
  by_contra hshort
  obtain ⟨rest, rfl⟩ := hbs
  rw [List.length_append] at hlt hshort
  obtain ⟨j, hj, hsimple⟩ := hS.stays _ hs
  rw [literal_append, follow_append, hb, Option.bind_some] at hj
  have hrest : rest ≠ [] := List.ne_nil_of_length_pos (by omega)
  rw [hlevel.simple rest j hrest (by omega) hj] at hsimple
  cases hsimple

/-- Where a level has nodes, the keys reach as far as the shortest text that goes on. -/
theorem isLeast_ends (hS : StaysAt t S) {b : Text} {i n : ℕ}
    (hb : follow t 0 (literal b) = some i) (hlevel : Level t t' i n)
    (hstop : ∃ kv ∈ (t'.node i).children, (t.node kv.2).isSimpleNode = false) :
    IsLeast (ends S b) (b.length + n) := by
  constructor
  · obtain ⟨kv, hkv, hsimple⟩ := hstop
    obtain ⟨hlen, hf⟩ := (hlevel.children kv).1 hkv
    have hpos := hlevel.pos
    refine ⟨b ++ kv.1.val, hS.of_stays _ kv.2 ?_ hsimple, List.prefix_append _ _, ?_, ?_⟩
    · rw [literal_append, follow_append, hb, Option.bind_some, hf]
    · rw [List.length_append, hlen]
    · omega
  · rintro m ⟨s, hs, hbs, rfl, hlt⟩
    exact le_of_stays hS hb hlevel hs hbs hlt

theorem exists_key_of_stays (hS : StaysAt t S) {b s : Text} {i n : ℕ}
    (hb : follow t 0 (literal b) = some i) (hlevel : Level t t' i n) (hs : S s) (hbs : b <+: s)
    (hlt : b.length < s.length) :
    ∃ kv ∈ (t'.node i).children, b ++ kv.1.val = s.take (b.length + n) := by
  have hle := le_of_stays hS hb hlevel hs hbs hlt
  obtain ⟨j, hj, -⟩ := hS.stays s hs
  obtain ⟨rest, rfl⟩ := hbs
  rw [List.length_append] at hle
  -- the node one level below on the way to the text
  have hsplit : rest = rest.take n ++ rest.drop n := (List.take_append_drop n rest).symm
  rw [literal_append, follow_append, hb, Option.bind_some, hsplit, literal_append,
    follow_append] at hj
  obtain ⟨k, hk, -⟩ := Option.bind_eq_some_iff.1 hj
  have hlen : (rest.take n).length = n := by
    rw [List.length_take]
    omega
  have hne : rest.take n ≠ [] := List.ne_nil_of_length_pos (by rw [hlen]; exact hlevel.pos)
  refine ⟨(⟨rest.take n, hne⟩, k), (hlevel.children (⟨rest.take n, hne⟩, k)).2 ⟨hlen, hk⟩, ?_⟩
  rw [List.take_length_add_append]

theorem boundary_of_keyPath (h : Grown t) (hopt : t.optimize = some t') (hS : StaysAt t S)
    {s : Text} {j : ℕ} (hpath : KeyPath t' 0 s j) : Boundary S s := by
  have hleveled := leveled_optimize h hopt
  induction hlen : s.length using Nat.strong_induction_on generalizing s j with
  | _ len ih =>
    rcases hpath.last with ⟨rfl, -⟩ | ⟨b, i, kv, hb, hkv, rfl, rfl⟩
    · exact .nil
    have hkey := List.length_pos_iff.2 kv.1.property
    rw [List.length_append] at hlen
    have hbound : Boundary S b := ih b.length (by omega) hb rfl
    obtain ⟨n, hlevel, hstop⟩ := (optimize_joined h hopt).2 b i hb
    have hstop' := hstop.resolve_left (List.ne_nil_of_mem hkv)
    obtain ⟨hn, -⟩ := (hlevel.children kv).1 hkv
    obtain ⟨s', hs', hpre⟩ := hS.extends_to (b ++ kv.1.val) kv.2
      (by simp [kv.1.property]) (hleveled.follow hpath)
    have htake : b ++ kv.1.val = s'.take (b.length + n) := by
      rw [List.prefix_iff_eq_take.1 hpre, List.length_append, hn]
    rw [htake]
    refine hbound.next (isLeast_ends hS (hleveled.follow hb) hlevel hstop') hs' ?_ ?_
    · exact (List.prefix_append _ _).trans hpre
    · have := hpre.length_le
      rw [List.length_append] at this
      omega

theorem keyPath_of_boundary (h : Grown t) (hopt : t.optimize = some t') (hS : StaysAt t S)
    {s : Text} (hbound : Boundary S s) : ∃ j, KeyPath t' 0 s j := by
  induction hbound with
  | nil => exact ⟨0, .nil 0⟩
  | @next b s m _ hm hs hbs hlt ih =>
    obtain ⟨i, hb⟩ := ih
    have hfb := (leveled_optimize h hopt).follow hb
    obtain ⟨n, hlevel, hstop⟩ := (optimize_joined h hopt).2 b i hb
    obtain ⟨kv, hkv, htake⟩ := exists_key_of_stays hS hfb hlevel hs hbs hlt
    have hstop' := hstop.resolve_left (List.ne_nil_of_mem hkv)
    rw [hm.unique (isLeast_ends hS hfb hlevel hstop'), ← htake]
    exact ⟨kv.2, hb.snoc hkv⟩

/-- The keys of the optimised trie end at the boundaries. -/
theorem keyPath_iff_boundary (h : Grown t) (hopt : t.optimize = some t') (hS : StaysAt t S)
    (s : Text) : (∃ j, KeyPath t' 0 s j) ↔ Boundary S s := by
  constructor
  · rintro ⟨j, hpath⟩
    exact boundary_of_keyPath h hopt hS hpath
  · exact keyPath_of_boundary h hopt hS

end CrowCore.RoutingTrieJoin
