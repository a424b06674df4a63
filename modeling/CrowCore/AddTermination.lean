import CrowCore.RoutingTrieBuild

set_option autoImplicit false

/-!
# Where the loop of `Trie::add` ends

The loop counts in an `unsigned`, which it also steps back. A '<' that begins no tag
is read again and again, and in a url of 2 ^ 32 characters the counter wraps before
the end.
-/
namespace CrowCore.AddTermination
open RoutingTrie RoutingTrieBuild

section Loop
variable {S : Type} {running : S → Prop} {turn : S → S}

/-- A loop that is left after some number of turns. -/
def Ends (running : S → Prop) (turn : S → S) (s : S) : Prop := ∃ n, ¬ running (turn^[n] s)

theorem not_ends_of_invariant {I : S → Prop} (hrunning : ∀ s, I s → running s)
    (hturn : ∀ s, I s → I (turn s)) {s : S} (hs : I s) : ¬ Ends running turn s := by
  rintro ⟨n, hn⟩
  apply hn
  apply hrunning
  induction n generalizing s with
  | zero => exact hs
  | succ n ih => exact ih (hturn s hs) (by simpa using hn)

theorem Ends.of_turn {s : S} (h : Ends running turn (turn s)) : Ends running turn s := by
  obtain ⟨n, hn⟩ := h
  exact ⟨n + 1, by rwa [Function.iterate_succ_apply]⟩

theorem ends_of_measure {I : S → Prop} (measure : S → ℕ)
    (hturn : ∀ s, I s → running s → I (turn s) ∧ measure (turn s) < measure s) {s : S}
    (hs : I s) : Ends running turn s := by
  induction hm : measure s using Nat.strong_induction_on generalizing s with
  | _ m ih =>
    by_cases hrunning : running s
    · obtain ⟨hnext, hlt⟩ := hturn s hs hrunning
      exact (ih (measure (turn s)) (by omega) hnext rfl).of_turn
    · exact ⟨0, hrunning⟩

end Loop

structure AddState where
  i : UInt32
  idx : ℕ
  trie : Trie

def addTurn (url : Text) (s : AddState) : AddState :=
  let c := url.getD s.i.toNat ' '
  if c = '<' then
    match Trie.paramTraits.find? (fun x => x.2.isPrefixOf (url.drop s.i.toNat)) with
    | some x =>
      let next := s.trie.paramChild s.idx x.1
      { i := s.i + UInt32.ofNat x.2.length - 1 + 1, idx := next.2, trie := next.1 }
    | none => { s with i := s.i - 1 + 1 }
  else
    let next := s.trie.literalChild s.idx (.single c)
    { i := s.i + 1, idx := next.2, trie := next.1 }

def Running (url : Text) (s : AddState) : Prop := s.i.toNat < url.length

instance (url : Text) (s : AddState) : Decidable (Running url s) :=
  inferInstanceAs (Decidable (_ < _))

def AddEnds (t : Trie) (url : Text) : Prop :=
  Ends (Running url) (addTurn url) { i := 0, idx := 0, trie := t }

/-- Every '<' begins a tag. -/
def Recognised (url : Text) : Prop :=
  ∀ i, url[i]? = some '<' → ∃ x ∈ Trie.paramTraits, x.2 <+: url.drop i

variable {url : Text} {s : AddState}

theorem tail_paramTraits {x : ParamType × Text} (hx : x ∈ Trie.paramTraits) :
    '<' ∉ x.2.tail ∧ x.2.length < 2 ^ 32 := by
  simp only [Trie.paramTraits, List.mem_cons, List.not_mem_nil, or_false] at hx
  rcases hx with rfl | rfl | rfl | rfl | rfl | rfl | rfl <;> decide

inductive Turns (url : Text) (s : AddState) : Prop where
  | literal (hc : url[s.i.toNat]? ≠ some '<') (hi : (addTurn url s).i = s.i + 1)
  | tag (x : ParamType × Text) (hx : x ∈ Trie.paramTraits) (hpre : x.2 <+: url.drop s.i.toNat)
      (hi : (addTurn url s).i = s.i + UInt32.ofNat x.2.length)
  | stuck (hc : url[s.i.toNat]? = some '<')
      (hnone : ∀ x ∈ Trie.paramTraits, ¬ x.2 <+: url.drop s.i.toNat) (hi : (addTurn url s).i = s.i)

theorem turns (url : Text) (s : AddState) : Turns url s := by
  have hget : url.getD s.i.toNat ' ' = '<' ↔ url[s.i.toNat]? = some '<' := by
    rw [List.getD_eq_getElem?_getD]
    cases url[s.i.toNat]? with
    | none => simp
    | some c => simp
  have hback : ∀ i : UInt32, i - 1 + 1 = i := fun i => sub_add_cancel i 1
  by_cases hc : url[s.i.toNat]? = some '<'
  · cases hfind : Trie.paramTraits.find? (fun x => x.2.isPrefixOf (url.drop s.i.toNat)) with
    | some x =>
      refine .tag x (List.mem_of_find?_eq_some hfind) ?_ ?_
      · simpa only [List.isPrefixOf_iff_prefix] using List.find?_some hfind
      · simp only [addTurn, if_pos (hget.2 hc), hfind, hback]
    | none =>
      refine .stuck hc (fun x hx => ?_) ?_
      · have hnot := List.find?_eq_none.1 hfind x hx
        rwa [List.isPrefixOf_iff_prefix] at hnot
      · simp only [addTurn, if_pos (hget.2 hc), hfind, hback]
  · refine .literal hc ?_
    simp only [addTurn, if_neg (mt hget.1 hc)]

theorem toNat_add_of_le {i n : UInt32} {length : ℕ} (hlength : length < 2 ^ 32)
    (hle : i.toNat + n.toNat ≤ length) : (i + n).toNat = i.toNat + n.toNat := by
  rw [UInt32.toNat_add]
  omega

theorem toNat_tag {x : ParamType × Text} (hx : x ∈ Trie.paramTraits) :
    (UInt32.ofNat x.2.length).toNat = x.2.length := by
  have hlt := (tail_paramTraits hx).2
  rw [UInt32.toNat_ofNat']
  omega

theorem ends_of_recognised (hlength : url.length < 2 ^ 32) (hurl : Recognised url) (t : Trie) :
    AddEnds t url := by
  apply ends_of_measure (I := fun s => s.i.toNat ≤ url.length) fun s => url.length - s.i.toNat
  · intro s hle hrunning
    rw [Running] at hrunning
    cases turns url s with
    | literal hc hi =>
      have hone := toNat_add_of_le (i := s.i) (n := 1) hlength (by simpa using hrunning)
      rw [hi, hone]
      simp only [UInt32.reduceToNat]
      omega
    | tag x hx hpre hi =>
      have hfits := hpre.length_le
      rw [List.length_drop] at hfits
      have hpos : 0 < x.2.length := by
        obtain ⟨tag, htag⟩ := paramTraits_cons hx
        simp [htag]
      have hmore := toNat_add_of_le (i := s.i) (n := UInt32.ofNat x.2.length) hlength
        (by rw [toNat_tag hx]; omega)
      rw [hi, hmore, toNat_tag hx]
      omega
    | stuck hc hnone =>
      obtain ⟨x, hx, hpre⟩ := hurl s.i.toNat hc
      exact absurd hpre (hnone x hx)
  · exact Nat.zero_le _

/-- The counter does not get past a '<' that begins no tag. -/
theorem not_ends_of_stuck (hlength : url.length < 2 ^ 32) {k : ℕ} (hk : url[k]? = some '<')
    (hnone : ∀ x ∈ Trie.paramTraits, ¬ x.2 <+: url.drop k) (t : Trie) : ¬ AddEnds t url := by
  have hlt : k < url.length := (List.getElem?_eq_some_iff.1 hk).1
  apply not_ends_of_invariant (I := fun s => s.i.toNat ≤ k)
  · intro s hle
    exact lt_of_le_of_lt hle hlt
  · intro s hle
    cases turns url s with
    | literal hc hi =>
      have hne : s.i.toNat ≠ k := fun heq => hc (heq ▸ hk)
      have hone :=
        toNat_add_of_le (i := s.i) (n := 1) hlength (by simp only [UInt32.reduceToNat]; omega)
      rw [hi, hone]
      simp only [UInt32.reduceToNat]
      omega
    | tag x hx hpre hi =>
      have hne : s.i.toNat ≠ k := fun heq => hnone x hx (heq ▸ hpre)
      have hfits := hpre.length_le
      rw [List.length_drop] at hfits
      have hmore := toNat_add_of_le (i := s.i) (n := UInt32.ofNat x.2.length) hlength
        (by rw [toNat_tag hx]; omega)
      rw [hi, hmore, toNat_tag hx]
      by_contra hpast
      -- the '<' would be inside the tag
      apply (tail_paramTraits hx).1
      have hinside : x.2.tail[k - s.i.toNat - 1]? = some '<' := by
        rw [List.getElem?_tail, Nat.sub_add_cancel (by omega)]
        obtain ⟨rest, hrest⟩ := hpre
        have hdrop : (url.drop s.i.toNat)[k - s.i.toNat]? = some '<' := by
          rw [List.getElem?_drop, Nat.add_sub_cancel' hle, hk]
        rw [← hrest, List.getElem?_append_left (by omega)] at hdrop
        exact hdrop
      exact List.mem_of_getElem? hinside
    | stuck hc hnone' hi =>
      rw [hi]
      exact hle
  · exact Nat.zero_le k

/-- In a long url the counter never reaches the end. -/
theorem not_ends_of_long (hlong : 2 ^ 32 ≤ url.length) (t : Trie) : ¬ AddEnds t url :=
  not_ends_of_invariant (I := fun _ => True)
    (fun s _ => lt_of_lt_of_le s.i.toNat_lt hlong) (fun _ _ => trivial) trivial

/-- The loop ends exactly if every '<' begins a tag and the counter can count the url. -/
theorem add_ends_iff (t : Trie) (url : Text) :
    AddEnds t url ↔ url.length < 2 ^ 32 ∧ Recognised url := by
  constructor
  · intro hends
    have hlength : url.length < 2 ^ 32 := by
      by_contra hlong
      exact not_ends_of_long (by omega) t hends
    refine ⟨hlength, fun k hk => ?_⟩
    by_contra hnot
    push Not at hnot
    exact not_ends_of_stuck hlength hk hnot t hends
  · rintro ⟨hlength, hurl⟩
    exact ends_of_recognised hlength hurl t

def exampleUrl : Text := ['/', '<', 'i', 'd', '>']

theorem add_hangs : ¬ AddEnds Trie.fresh exampleUrl :=
  not_ends_of_stuck (by decide) (k := 1) rfl (by decide) Trie.fresh

def addEnd (url : Text) (ruleIndex : ℕ) (s : AddState) : Trie × Except String Unit :=
  if (s.trie.node s.idx).ruleIndex ≠ 0 then
    (s.trie, .error ("handler already exists for " ++ String.ofList url))
  else (s.trie.modify s.idx fun n => { n with ruleIndex := ruleIndex }, .ok ())

theorem addLoop_mono {fuel : ℕ} {t : Trie} {idx : ℕ} {text : Text} {r : Trie × ℕ}
    (h : Trie.addLoop fuel t idx text = some r) : Trie.addLoop (fuel + 1) t idx text = some r := by
  induction fuel generalizing t idx text with
  | zero => cases h
  | succ fuel ih =>
    cases text with
    | nil => exact h
    | cons c text =>
      rw [Trie.addLoop] at h ⊢
      by_cases hc : c = '<'
      · rw [if_pos hc] at h ⊢
        cases hfind : Trie.paramTraits.find? (fun x => x.2.isPrefixOf (c :: text)) with
        | some x =>
          rw [hfind] at h
          exact ih h
        | none =>
          rw [hfind] at h
          exact ih h
      · rw [if_neg hc] at h ⊢
        exact ih h

theorem addLoop_turn (hlength : url.length < 2 ^ 32) (hrunning : Running url s) (fuel : ℕ) :
    Trie.addLoop (fuel + 1) s.trie s.idx (url.drop s.i.toNat) =
      Trie.addLoop fuel (addTurn url s).trie (addTurn url s).idx
        (url.drop (addTurn url s).i.toNat) := by
  have hlt : s.i.toNat < url.length := hrunning
  have hdrop : url.drop s.i.toNat = url[s.i.toNat] :: url.drop (s.i.toNat + 1) :=
    List.drop_eq_getElem_cons hlt
  have hget : url.getD s.i.toNat ' ' = url[s.i.toNat] := by
    rw [List.getD_eq_getElem?_getD, List.getElem?_eq_getElem hlt, Option.getD_some]
  unfold addTurn
  dsimp only
  rw [hget]
  by_cases hc : url[s.i.toNat] = '<'
  · cases hfind : Trie.paramTraits.find? (fun x => x.2.isPrefixOf (url.drop s.i.toNat)) with
    | some x =>
      have hx := List.mem_of_find?_eq_some hfind
      have hpre : x.2 <+: url.drop s.i.toNat := by
        simpa only [List.isPrefixOf_iff_prefix] using List.find?_some hfind
      have hfits := hpre.length_le
      rw [List.length_drop] at hfits
      have hmore := toNat_add_of_le (i := s.i) (n := UInt32.ofNat x.2.length) hlength
        (by rw [toNat_tag hx]; omega)
      rw [toNat_tag hx] at hmore
      simp only [if_pos hc, sub_add_cancel, hmore, ← List.drop_drop]
      rw [hdrop] at hfind ⊢
      rw [Trie.addLoop, if_pos hc, hfind]
    | none =>
      simp only [if_pos hc, sub_add_cancel]
      rw [hdrop] at hfind ⊢
      rw [Trie.addLoop, if_pos hc, hfind]
  · have hone :=
      toNat_add_of_le (i := s.i) (n := 1) hlength (by simp only [UInt32.reduceToNat]; omega)
    simp only [if_neg hc, hone, UInt32.reduceToNat]
    rw [hdrop, Trie.addLoop, if_neg hc]

/-- The loop is left at the first state in which it is not running. -/
def AddReturns (t : Trie) (url : Text) (ruleIndex : ℕ) (r : Trie × Except String Unit) : Prop :=
  ∃ n, (∀ m < n, Running url ((addTurn url)^[m] { i := 0, idx := 0, trie := t })) ∧
    ¬ Running url ((addTurn url)^[n] { i := 0, idx := 0, trie := t }) ∧
    addEnd url ruleIndex ((addTurn url)^[n] { i := 0, idx := 0, trie := t }) = r

theorem addLoop_of_turns (hlength : url.length < 2 ^ 32) {n : ℕ}
    (hbefore : ∀ m < n, Running url ((addTurn url)^[m] s))
    (hn : ¬ Running url ((addTurn url)^[n] s)) :
    Trie.addLoop (n + 1) s.trie s.idx (url.drop s.i.toNat) =
      some (((addTurn url)^[n] s).trie, ((addTurn url)^[n] s).idx) := by
  induction n generalizing s with
  | zero =>
    have hnil : url.drop s.i.toNat = [] := List.drop_eq_nil_iff.2 (not_lt.1 hn)
    rw [hnil]
    rfl
  | succ n ih =>
    have hfirst : Running url s := hbefore 0 (Nat.succ_pos n)
    rw [addLoop_turn hlength hfirst]
    exact ih (fun m hm => hbefore (m + 1) (Nat.succ_lt_succ hm)) hn

theorem add_of_returns {t : Trie} {ruleIndex : ℕ} {r : Trie × Except String Unit}
    (h : AddReturns t url ruleIndex r) : t.add url ruleIndex = some r := by
  obtain ⟨n, hbefore, hn, hr⟩ := h
  have hlength : url.length < 2 ^ 32 := by
    by_contra hlong
    exact not_ends_of_long (by omega) t ⟨n, hn⟩
  have hloop : Trie.addLoop (n + 1) t 0 url = _ := addLoop_of_turns hlength hbefore hn
  obtain ⟨toks, htoks⟩ := pattern_of_addLoop hloop
  have henough : ∀ k, Trie.addLoop (n + 1 + k) t 0 url = Trie.addLoop (n + 1) t 0 url := by
    intro k
    induction k with
    | zero => rfl
    | succ k ih =>
      rw [hloop] at ih ⊢
      exact addLoop_mono ih
  have hpattern := addLoop_pattern htoks t 0
  have hmany := henough (url.length + 1)
  rw [hpattern _ (by omega), ← hpattern (url.length + 1) (Nat.lt_succ_self _), hloop] at hmany
  rw [Trie.add, hmany, ← hr]
  dsimp only [addEnd]
  split_ifs <;> rfl

end CrowCore.AddTermination
