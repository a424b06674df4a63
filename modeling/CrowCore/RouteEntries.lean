import CrowCore.Routing
import CrowCore.RoutingTrieJoin

set_option autoImplicit false

/-!
# The literal part of the routes

The trie of a method has no paths but those of its rules. Its literal nodes are the
prefixes of the texts that rules begin with, and the ones that are not simple are those
where such a text ends.
-/
namespace CrowCore.RouteEntries
open RoutingTrie RoutingTrieBuild RoutingTrieJoin Routing

def literalPart (url : Text) : Text := url.takeWhile (· ≠ '<')

def literalTokens : List Token → Text
  | .lit c :: toks => c :: literalTokens toks
  | _ => []

theorem literalTokens_append (s : Text) (toks : List Token) :
    literalTokens (literal s ++ toks) = s ++ literalTokens toks := by
  induction s with
  | nil => rfl
  | cons c s ih => exact congrArg (c :: ·) ih

theorem literalTokens_literal (s : Text) : literalTokens (literal s) = s := by
  have happ := literalTokens_append s []
  rw [List.append_nil] at happ
  exact happ.trans (List.append_nil s)

theorem literalPart_eq {url : Text} {toks : List Token} (h : Pattern url toks) :
    literalPart url = literalTokens toks := by
  induction h with
  | nil => rfl
  | lit hc _ ih =>
    rw [literalPart, List.takeWhile_cons_of_pos (by simpa using hc)]
    exact congrArg (_ :: ·) ih
  | param hx _ ih =>
    obtain ⟨tag, htag⟩ := paramTraits_cons hx
    rw [literalPart, htag]
    rfl

theorem literalTokens_split (toks : List Token) : ∃ rest,
    toks = literal (literalTokens toks) ++ rest ∧
      (rest = [] ∨ ∃ p toks', rest = .param p :: toks') := by
  induction toks with
  | nil => exact ⟨[], rfl, .inl rfl⟩
  | cons tok toks ih =>
    cases tok with
    | lit c =>
      obtain ⟨rest, hrest, hend⟩ := ih
      exact ⟨rest, congrArg (Token.lit c :: ·) hrest, hend⟩
    | param p => exact ⟨_, rfl, .inr ⟨p, toks, rfl⟩⟩

theorem pattern_literal {s url : Text} (h : Pattern url (literal s)) : url = s := by
  induction s generalizing url with
  | nil =>
    generalize htoks : literal [] = toks at h
    cases h with
    | nil => rfl
    | lit => cases htoks
    | param => cases htoks
  | cons c s ih =>
    generalize htoks : literal (c :: s) = toks at h
    cases h with
    | nil => cases htoks
    | lit hc h =>
      obtain ⟨hlit, htoks⟩ := List.cons.inj htoks
      rw [← htoks] at h
      rw [ih h, Token.lit.inj hlit]
    | param => cases (List.cons.inj htoks).1

theorem pattern_of_literal {s : Text} (h : '<' ∉ s) : Pattern s (literal s) := by
  induction s with
  | nil => exact .nil
  | cons c s ih =>
    rw [List.mem_cons, not_or] at h
    exact .lit (Ne.symm h.1) (ih h.2)

theorem not_mem_of_pattern {s : Text} (h : Pattern s (literal s)) : '<' ∉ s := by
  have hpart := (literalPart_eq h).trans (literalTokens_literal s)
  have hall := List.takeWhile_eq_self_iff.1 hpart
  intro hmem
  simpa using hall '<' hmem

/-- The trie holds these rules, and has no other paths than theirs. -/
structure Planted (t : Trie) (rules : List (Text × ℕ)) : Prop extends Represents t rules where
  readable : ∀ rule ∈ rules, ∃ toks, Pattern rule.1 toks
  alive : ∀ toks j, toks ≠ [] → follow t 0 toks = some j →
    ∃ rule ∈ rules, ∃ toks', Pattern rule.1 (toks ++ toks')

theorem planted_fresh : Planted Trie.fresh [] where
  toRepresents := represents_fresh
  readable _ h := absurd h List.not_mem_nil
  alive toks j hne hf := by
    obtain ⟨tok, toks, rfl⟩ := List.exists_cons_of_ne_nil hne
    obtain ⟨k, hk, -⟩ := Option.bind_eq_some_iff.1 hf
    have hnode : Trie.fresh.node 0 = Node.init := rfl
    rw [child?_init _ hnode] at hk
    cases hk

theorem follow_descendAll {t : Trie} (h : Grown t) (pre : List Token) {idx : ℕ}
    (hidx : follow t 0 pre = some idx) (toks : List Token) {l : List Token} {j : ℕ}
    (hf : follow (descendAll t idx toks).1 0 l = some j) :
    (∃ k, follow t 0 l = some k) ∨ l <+: pre ++ toks := by
  induction toks generalizing t pre idx with
  | nil => exact .inl ⟨j, hf⟩
  | cons tok toks ih =>
    have hlt := (follow_lt h h.size_pos hidx).2
    rw [descendAll] at hf
    rw [List.append_cons pre tok toks]
    cases hchild : child? t idx tok with
    | some k =>
      rw [descend_some hchild] at hf
      exact ih h _ (follow_snoc.2 ⟨idx, hidx, hchild⟩) hf
    | none =>
      rw [descend_none hchild] at hf
      have hg := grown_link h hlt hchild
      have hnew : follow (link t idx tok) 0 (pre ++ [tok]) = some t.nodes.length := by
        refine follow_snoc.2 ⟨idx, follow_link_mono hlt hchild hidx, ?_⟩
        rw [child?_link t hlt, if_pos ⟨rfl, rfl⟩]
      rcases ih hg _ hnew hf with ⟨k, hk⟩ | hpre
      · by_cases hlen : k = t.nodes.length
        · right
          rw [follow_injective hg hk (hlen ▸ hnew)]
          exact List.prefix_append _ _
        · exact .inl ⟨k, follow_of_link hlt hlen hk⟩
      · exact .inr hpre

theorem planted_add {t t' : Trie} {rules : List (Text × ℕ)} (h : Planted t rules) {url : Text}
    {ruleIndex : ℕ} (hadd : t.add url ruleIndex = some (t', .ok ())) :
    Planted t' (rules ++ [(url, ruleIndex)]) := by
  have hrep := represents_add h.toRepresents hadd
  obtain ⟨toks, htoks, -, rfl⟩ := add_ok hadd
  have hspec := descendAll_spec h.grown [] rfl toks
  have hlt := (follow_lt hspec.1 hspec.1.size_pos hspec.2.1).2
  refine ⟨hrep, fun rule hrule => ?_, fun l j hne hf => ?_⟩
  · rcases List.mem_append.1 hrule with hrule | hrule
    · exact h.readable rule hrule
    · rw [List.mem_singleton.1 hrule]
      exact ⟨toks, htoks⟩
  · rw [follow_setIndex _ hlt] at hf
    rcases follow_descendAll h.grown [] rfl toks hf with ⟨k, hk⟩ | ⟨toks', hpre⟩
    · obtain ⟨rule, hrule, hpattern⟩ := h.alive l k hne hk
      exact ⟨rule, List.mem_append_left _ hrule, hpattern⟩
    · refine ⟨(url, ruleIndex), List.mem_append_right _ (List.mem_singleton_self _), toks', ?_⟩
      rw [hpre]
      exact htoks

/-- The trie of a method after these rules have been entered. -/
structure Tended (entered : List BaseRule) (method : ℕ) (perMethod : PerMethod) : Prop where
  planted : ∃ rules, Planted perMethod.trie rules ∧ ∀ rule ∈ rules, rule.2 ≠ 0
  rules_pos : 0 < perMethod.rules.length
  readable : ∀ rule ∈ entered, rule.methodsBitfield.testBit method → ∀ url,
    EntryUrl rule.rule url → ∃ toks, Pattern url toks

theorem planted_addToTrie {trie trie' : Trie} {url : Text} {k : ℕ} (hk : k ≠ 0)
    (h : ∃ rules, Planted trie rules ∧ ∀ rule ∈ rules, rule.2 ≠ 0)
    (hadd : (addToTrie trie url k).Returns trie') :
    (∃ rules, Planted trie' rules ∧ ∀ rule ∈ rules, rule.2 ≠ 0) ∧ ∃ toks, Pattern url toks := by
  obtain ⟨rules, hplanted, hne⟩ := h
  have hnew := planted_add hplanted (returns_addToTrie hadd)
  refine ⟨⟨_, hnew, fun rule hrule => ?_⟩, ?_⟩
  · rcases List.mem_append.1 hrule with hrule | hrule
    · exact hne rule hrule
    · rw [List.mem_singleton.1 hrule]
      exact hk
  · exact hnew.readable (url, k) (List.mem_append_right _ (List.mem_singleton_self _))

theorem tended_append {entered : List BaseRule} {rule : BaseRule} {method : ℕ}
    {perMethod perMethod' : PerMethod} (h : Tended entered method perMethod)
    (hplanted : ∃ rules, Planted perMethod'.trie rules ∧ ∀ rule ∈ rules, rule.2 ≠ 0)
    (hpos : 0 < perMethod'.rules.length)
    (hreadable : rule.methodsBitfield.testBit method → ∀ url, EntryUrl rule.rule url →
      ∃ toks, Pattern url toks) : Tended (entered ++ [rule]) method perMethod' := by
  refine ⟨hplanted, hpos, fun r hr => ?_⟩
  rcases List.mem_append.1 hr with hr | hr
  · exact h.readable r hr
  · rw [List.mem_singleton.1 hr]
    exact hreadable

theorem tended_addRule {entered : List BaseRule} {rule : BaseRule} {method place : ℕ}
    {perMethod perMethod' : PerMethod} (h : Tended entered method perMethod)
    (hadd : (perMethod.addRule rule.rule place).Returns perMethod') :
    Tended (entered ++ [rule]) method perMethod' := by
  have hk : (perMethod.rules ++ [some place]).length - 1 ≠ 0 := by
    have := h.rules_pos
    rw [List.length_append, List.length_singleton]
    omega
  have hpos : 0 < (perMethod.rules ++ [some place]).length := by simp
  obtain ⟨trie, htrie, hadd⟩ := Outcome.returns_bind.1 hadd
  obtain ⟨hplanted, hrule⟩ := planted_addToTrie hk h.planted htrie
  split_ifs at hadd with hdir
  · obtain ⟨trie', htrie', hadd⟩ := Outcome.returns_bind.1 hadd
    obtain ⟨hplanted', hdirectory⟩ := planted_addToTrie hk hplanted htrie'
    rw [← Outcome.returns_pure.1 hadd]
    refine tended_append h hplanted' hpos fun _ url hurl => ?_
    cases hurl with
    | rule => exact hrule
    | directory => exact hdirectory
  · rw [← Outcome.returns_pure.1 hadd]
    refine tended_append h hplanted hpos fun _ url hurl => ?_
    cases hurl with
    | rule => exact hrule
    | directory hdir' => exact (hdir hdir').elim

theorem tended_validateRules {allRules : List BaseRule} {perMethods perMethods' : List PerMethod}
    (h : ∀ i pm, perMethods[i]? = some pm → Tended [] (0 + i) pm)
    (hval : (validateRules 0 allRules perMethods).Returns perMethods') :
    ∀ i pm, perMethods'[i]? = some pm → Tended allRules (0 + i) pm := by
  refine forall_validateRules ?_ ?_ List.drop_zero h hval
  · intro entered rule m pm hbit ht
    exact tended_append ht ht.planted ht.rules_pos fun hb => (hbit hb).elim
  · intro entered rule place m pm pm' _ _ ht hadd
    exact tended_addRule ht hadd

def LiteralText (allRules : List BaseRule) (method : ℕ) (s : Text) : Prop :=
  ∃ rule ∈ allRules, rule.methodsBitfield.testBit method ∧
    ∃ url, EntryUrl rule.rule url ∧ literalPart url = s

theorem isSimpleNode_eq_false {node : Node} : node.isSimpleNode = false ↔
    node.ruleIndex ≠ 0 ∨ ∃ p, node.paramChildrens p ≠ 0 := by
  have hall : ∀ p : ParamType, p ∈ ParamType.all := by
    intro p
    cases p <;> decide
  rw [← Bool.not_eq_true, Node.isSimpleNode, Bool.and_eq_true, not_and_or, List.all_eq_true]
  simp [hall]

variable {allRules : List BaseRule} {method : ℕ} {perMethod : PerMethod}
  {entries : List (Text × ℕ)}

theorem literalText_of_entry (hs : Serves allRules method perMethod entries) {url : Text} {k : ℕ}
    (hmem : (url, k) ∈ entries) : LiteralText allRules method (literalPart url) := by
  obtain ⟨-, place, rule, -, hplace, hbit, hurl⟩ := hs.entry url k hmem
  exact ⟨rule, List.mem_of_getElem? hplace, hbit, url, hurl, rfl⟩

theorem entry_of_path (hs : Serves allRules method perMethod entries)
    (ht : Tended allRules method perMethod) {toks : List Token} {j : ℕ} (hne : toks ≠ [])
    (hf : follow perMethod.trie 0 toks = some j) :
    ∃ url k toks', (url, k) ∈ entries ∧ Pattern url (toks ++ toks') := by
  obtain ⟨rules, hplanted, hrules⟩ := ht.planted
  obtain ⟨rule, hrule, toks', hpattern⟩ := hplanted.alive toks j hne hf
  have hk := hrules rule hrule
  have hat := (hplanted.rule_iff (toks ++ toks') rule.2 hk).2 ⟨rule.1, hrule, hpattern⟩
  obtain ⟨url, hmem, hurl⟩ := (hs.represents.rule_iff (toks ++ toks') rule.2 hk).1 hat
  exact ⟨url, rule.2, toks', hmem, hurl⟩

theorem staysAt_literalText (hs : Serves allRules method perMethod entries)
    (henters : Enters allRules method entries) (ht : Tended allRules method perMethod) :
    StaysAt perMethod.trie (LiteralText allRules method) := by
  refine ⟨?_, fun s j hf hsimple => ?_, fun s j hne hf => ?_⟩
  · rintro _ ⟨rule, hrule, hbit, url, hurl, rfl⟩
    obtain ⟨toks, hpattern⟩ := ht.readable rule hrule hbit url hurl
    obtain ⟨k, hmem⟩ := henters rule hrule hbit url hurl
    have hk := (hs.entry url k hmem).1
    obtain ⟨j, hf, hj⟩ := (hs.represents.rule_iff toks k hk).2 ⟨url, hmem, hpattern⟩
    obtain ⟨rest, hsplit, hrest⟩ := literalTokens_split toks
    rw [hsplit, follow_append] at hf
    obtain ⟨i, hi, hf⟩ := Option.bind_eq_some_iff.1 hf
    rw [literalPart_eq hpattern]
    refine ⟨i, hi, isSimpleNode_eq_false.2 ?_⟩
    rcases hrest with rfl | ⟨p, toks', rfl⟩
    · rw [Option.some.inj hf, hj]
      exact .inl hk
    · obtain ⟨x, hx, -⟩ := Option.bind_eq_some_iff.1 hf
      refine .inr ⟨p, fun hp => ?_⟩
      rw [child?, if_pos hp] at hx
      cases hx
  · rcases isSimpleNode_eq_false.1 hsimple with hrule | ⟨p, hp⟩
    · obtain ⟨url, hmem, hpattern⟩ := (hs.represents.rule_iff _ _ hrule).1 ⟨j, hf, rfl⟩
      have hlit := literalText_of_entry hs hmem
      rwa [literalPart_eq hpattern, literalTokens_literal] at hlit
    · have hchild : follow perMethod.trie 0 (literal s ++ [.param p]) =
          some ((perMethod.trie.node j).paramChildrens p) :=
        follow_snoc.2 ⟨j, hf, if_neg hp⟩
      obtain ⟨url, k, toks', hmem, hpattern⟩ := entry_of_path hs ht (by simp) hchild
      have hlit := literalText_of_entry hs hmem
      rw [literalPart_eq hpattern, List.append_assoc, literalTokens_append] at hlit
      simpa [literalTokens] using hlit
  · have hlits : literal s ≠ [] := by simpa [literal] using hne
    obtain ⟨url, k, toks', hmem, hpattern⟩ := entry_of_path hs ht hlits hf
    refine ⟨_, literalText_of_entry hs hmem, ?_⟩
    rw [literalPart_eq hpattern, literalTokens_append]
    exact List.prefix_append _ _

end CrowCore.RouteEntries
