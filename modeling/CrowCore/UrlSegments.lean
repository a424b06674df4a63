import Mathlib

set_option autoImplicit false

/-!
# Segments of a URL

`readUrlSegments` compares the segments of a URL with a pattern and writes some of
them to strings of the caller.
-/
namespace CrowCore.UrlSegments

abbrev Text := List Char

/-- An element of a pattern; strings of the caller have names in `V`. -/
inductive UrlSegment (V : Type) where
  /-- extracts the segment to a variable -/
  | output (v : V)
  | expected (text : Text)
  | orMorePaths
deriving DecidableEq, Repr

inductive UrlParseResult where
  | continue
  | fail
  | done
deriving DecidableEq, Repr

/-- The decoded segments of `boost::urls::url_view`. -/
structure UrlSegmentsView where
  isAbsolute : Bool
  segments : List Text
deriving DecidableEq, Repr

section Definitions
variable {V : Type} [DecidableEq V]

/-- `UrlSegmentMatcherVisitor`, on the strings of the caller. -/
def visit (segment : Text) (strings : V → Text) : UrlSegment V → UrlParseResult × (V → Text)
  | .output v => (.continue, Function.update strings v segment)
  | .expected text => (if segment = text then .continue else .fail, strings)
  | .orMorePaths => (.done, strings)

def readLoop (urlSegments : List Text) :
    List Text → List (UrlSegment V) → (V → Text) → Bool × (V → Text)
  | it, [], strings =>
    let it := if it ≠ [] ∧ urlSegments.getLast? = some [] then it.tail else it
    (it = [], strings)
  | [], segment :: _, strings => (segment = .orMorePaths, strings)
  | text :: it, segment :: segments, strings =>
    match visit text strings segment with
    | (.done, strings) => (true, strings)
    | (.fail, strings) => (false, strings)
    | (.continue, strings) => readLoop urlSegments it segments strings

/-- The result, and the strings afterwards. -/
def readUrlSegments (url : UrlSegmentsView) (segments : List (UrlSegment V))
    (strings : V → Text) : Bool × (V → Text) :=
  if url.isAbsolute then readLoop url.segments url.segments segments strings
  else (false, strings)

end Definitions

section Patterns
variable {V : Type}

/-- What one element of a pattern may stand for. -/
def Matches : UrlSegment V → Text → Prop
  | .output _, _ => True
  | .expected text, segment => segment = text
  | .orMorePaths, _ => False

variable [DecidableEq V]

/-- The elements before the first `OrMorePaths`. -/
def beforeMore (segments : List (UrlSegment V)) : List (UrlSegment V) :=
  segments.takeWhile (· ≠ .orMorePaths)

/-- A pattern that ends in any path matches the first segments, others match all of
them but an empty one at the end. -/
def MatchesUrl (segments : List (UrlSegment V)) (l : List Text) : Prop :=
  (.orMorePaths ∈ segments ∧ ∃ first rest, l = first ++ rest ∧
    List.Forall₂ Matches (beforeMore segments) first) ∨
  (.orMorePaths ∉ segments ∧ (List.Forall₂ Matches segments l ∨
    ∃ first, l = first ++ [[]] ∧ List.Forall₂ Matches segments first))

/-- Each string holds the segment at the last place where the pattern names it, and
no other string has changed. -/
structure Captures (segments : List (UrlSegment V)) (l : List Text)
    (strings strings' : V → Text) : Prop where
  captured : ∀ (i : ℕ) (v : V), (beforeMore segments)[i]? = some (UrlSegment.output v) →
    (∀ j, i < j → (beforeMore segments)[j]? ≠ some (UrlSegment.output v)) →
      l[i]? = some (strings' v)
  unchanged : ∀ v, UrlSegment.output v ∉ beforeMore segments → strings' v = strings v

end Patterns

variable {V : Type} [DecidableEq V] {segments : List (UrlSegment V)} {segment : UrlSegment V}
  {text : Text} {l it : List Text} {strings strings' : V → Text}

theorem beforeMore_cons (h : segment ≠ .orMorePaths) (segments : List (UrlSegment V)) :
    beforeMore (segment :: segments) = segment :: beforeMore segments :=
  List.takeWhile_cons_of_pos (by simpa using h)

theorem beforeMore_orMorePaths (segments : List (UrlSegment V)) :
    beforeMore (.orMorePaths :: segments) = [] :=
  List.takeWhile_cons_of_neg (by simp)

theorem matchesUrl_orMorePaths (segments : List (UrlSegment V)) (l : List Text) :
    MatchesUrl (.orMorePaths :: segments) l := by
  refine .inl ⟨List.mem_cons_self, [], l, rfl, ?_⟩
  rw [beforeMore_orMorePaths]
  exact .nil

theorem exists_first_cons {α β : Type} {R : α → β → Prop} {a : α} {as : List α} {b : β}
    {bs rest : List β} :
    (∃ first, b :: bs = first ++ rest ∧ List.Forall₂ R (a :: as) first) ↔
      R a b ∧ ∃ first, bs = first ++ rest ∧ List.Forall₂ R as first := by
  constructor
  · rintro ⟨first, heq, h⟩
    obtain ⟨c, first, ha, has, rfl⟩ := List.forall₂_cons_left_iff.1 h
    rw [List.cons_append, List.cons.injEq] at heq
    exact ⟨heq.1 ▸ ha, first, heq.2, has⟩
  · rintro ⟨ha, first, rfl, has⟩
    exact ⟨b :: first, rfl, .cons ha has⟩

theorem matchesUrl_cons (h : segment ≠ .orMorePaths) (segments : List (UrlSegment V)) (text : Text)
    (l : List Text) :
    MatchesUrl (segment :: segments) (text :: l) ↔
      Matches segment text ∧ MatchesUrl segments l := by
  have hmem : .orMorePaths ∈ segment :: segments ↔ .orMorePaths ∈ segments := by
    simp [List.mem_cons, h.symm]
  have hmore : (∃ first rest, text :: l = first ++ rest ∧
      List.Forall₂ Matches (segment :: beforeMore segments) first) ↔
      Matches segment text ∧ ∃ first rest, l = first ++ rest ∧
        List.Forall₂ Matches (beforeMore segments) first := by
    constructor
    · rintro ⟨first, rest, h⟩
      obtain ⟨htext, first, h⟩ := exists_first_cons.1 ⟨first, h⟩
      exact ⟨htext, first, rest, h⟩
    · rintro ⟨htext, first, rest, h⟩
      obtain ⟨first, h⟩ := exists_first_cons.2 ⟨htext, first, h⟩
      exact ⟨first, rest, h⟩
  unfold MatchesUrl
  rw [hmem, beforeMore_cons h, hmore, exists_first_cons, List.forall₂_cons, ← and_or_left,
    @and_left_comm (UrlSegment.orMorePaths ∈ segments),
    @and_left_comm (UrlSegment.orMorePaths ∉ segments), ← and_or_left]

theorem not_matchesUrl_nil (h : segment ≠ .orMorePaths) (segments : List (UrlSegment V)) :
    ¬ MatchesUrl (segment :: segments) [] := by
  unfold MatchesUrl
  rw [beforeMore_cons h]
  rintro (⟨-, first, rest, heq, hfirst⟩ | ⟨-, hall | ⟨first, heq, -⟩⟩)
  · rw [(List.append_eq_nil_iff.1 heq.symm).1] at hfirst
    cases hfirst
  · cases hall
  · cases (List.append_eq_nil_iff.1 heq.symm).2

theorem matchesUrl_nil (l : List Text) :
    MatchesUrl ([] : List (UrlSegment V)) l ↔ l = [] ∨ l = [[]] := by
  simp [MatchesUrl]

theorem captures_of_beforeMore_nil (h : beforeMore segments = []) (l : List Text)
    (strings : V → Text) : Captures segments l strings strings where
  captured i v hi := by
    rw [h] at hi
    cases hi
  unchanged _ _ := rfl

theorem Captures.cons_output {v : V}
    (h : Captures segments l (Function.update strings v text) strings') :
    Captures (.output v :: segments) (text :: l) strings strings' where
  captured i v' hi hlast := by
    rw [beforeMore_cons (by simp)] at hi hlast
    cases i with
    | zero =>
      obtain rfl : v = v' := by simpa using hi
      have hnot : UrlSegment.output v ∉ beforeMore segments := by
        intro hmem
        obtain ⟨j, hj⟩ := List.mem_iff_getElem?.1 hmem
        exact hlast (j + 1) (Nat.succ_pos j) hj
      rw [h.unchanged v hnot, Function.update_self]
      rfl
    | succ i => exact h.captured i v' hi fun j hj => hlast (j + 1) (Nat.succ_lt_succ hj)
  unchanged v' hv' := by
    rw [beforeMore_cons (by simp), List.mem_cons, not_or] at hv'
    have hne : v' ≠ v := fun heq => hv'.1 (heq ▸ rfl)
    rw [h.unchanged v' hv'.2, Function.update_of_ne hne]

theorem Captures.cons_expected (h : Captures segments l strings strings') (expected : Text) :
    Captures (.expected expected :: segments) (text :: l) strings strings' where
  captured i v hi hlast := by
    rw [beforeMore_cons (by simp)] at hi hlast
    cases i with
    | zero => simp at hi
    | succ i => exact h.captured i v hi fun j hj => hlast (j + 1) (Nat.succ_lt_succ hj)
  unchanged v hv := by
    rw [beforeMore_cons (by simp), List.mem_cons, not_or] at hv
    exact h.unchanged v hv.2

theorem readLoop_orMorePaths (segments : List (UrlSegment V)) :
    readLoop l it (.orMorePaths :: segments) strings = (true, strings) := by
  cases it with
  | nil => simp [readLoop]
  | cons text it => rfl

theorem readLoop_short (h : segment ≠ .orMorePaths) (segments : List (UrlSegment V)) :
    readLoop l [] (segment :: segments) strings = (false, strings) := by
  simp [readLoop, h]

theorem readLoop_expected (expected : Text) (segments : List (UrlSegment V)) :
    readLoop l (text :: it) (.expected expected :: segments) strings =
      if text = expected then readLoop l it segments strings else (false, strings) := by
  rw [readLoop, visit]
  by_cases h : text = expected
  · rw [if_pos h, if_pos h]
  · rw [if_neg h, if_neg h]

theorem readLoop_nil (hit : it <:+ l) :
    (readLoop l it ([] : List (UrlSegment V)) strings).1 = true ↔ it = [] ∨ it = [[]] := by
  cases it with
  | nil => simp [readLoop]
  | cons text it =>
    obtain ⟨before, rfl⟩ := hit
    have hlast : (before ++ text :: it).getLast? = (text :: it).getLast? :=
      List.getLast?_append_of_ne_nil _ (List.cons_ne_nil _ _)
    have hone : text :: it = [] ∨ text :: it = [[]] ↔ text = [] ∧ it = [] := by simp
    rw [hone, readLoop, hlast, decide_eq_true_eq]
    by_cases hempty : (text :: it).getLast? = some []
    · rw [if_pos ⟨List.cons_ne_nil _ _, hempty⟩, List.tail_cons]
      refine ⟨fun hnil => ⟨?_, hnil⟩, fun h => h.2⟩
      subst hnil
      exact Option.some.inj hempty
    · rw [if_neg fun h => hempty h.2]
      refine iff_of_false (List.cons_ne_nil _ _) ?_
      rintro ⟨rfl, rfl⟩
      exact hempty rfl

theorem readLoop_spec (hit : it <:+ l) (segments : List (UrlSegment V)) (strings : V → Text) :
    ((readLoop l it segments strings).1 = true ↔ MatchesUrl segments it) ∧
    ((readLoop l it segments strings).1 = true →
      Captures segments it strings (readLoop l it segments strings).2) := by
  induction segments generalizing it strings with
  | nil =>
    have hstrings : (readLoop l it ([] : List (UrlSegment V)) strings).2 = strings := by
      unfold readLoop
      rfl
    rw [matchesUrl_nil, readLoop_nil hit, hstrings]
    exact ⟨Iff.rfl, fun _ => captures_of_beforeMore_nil rfl it strings⟩
  | cons segment segments ih =>
    by_cases hmore : segment = .orMorePaths
    · subst hmore
      rw [readLoop_orMorePaths]
      exact ⟨iff_of_true rfl (matchesUrl_orMorePaths segments it), fun _ =>
        captures_of_beforeMore_nil (beforeMore_orMorePaths segments) it strings⟩
    · cases it with
      | nil =>
        rw [readLoop_short hmore]
        have hnot := not_matchesUrl_nil hmore segments
        exact ⟨iff_of_false Bool.false_ne_true hnot, fun h => by cases h⟩
      | cons text it =>
        have hrest := (List.suffix_cons text it).trans hit
        rw [matchesUrl_cons hmore]
        cases segment with
        | output v =>
          obtain ⟨hmatches, hcaptures⟩ := ih hrest (Function.update strings v text)
          refine ⟨?_, fun h => (hcaptures h).cons_output⟩
          exact hmatches.trans ⟨fun h => ⟨trivial, h⟩, fun h => h.2⟩
        | expected expected =>
          obtain ⟨hmatches, hcaptures⟩ := ih hrest strings
          rw [readLoop_expected, ← hmatches]
          split_ifs with htext
          · refine ⟨⟨fun h => ⟨htext, h⟩, fun h => h.2⟩, fun h => ?_⟩
            exact (hcaptures h).cons_expected expected
          · exact ⟨iff_of_false id fun h => htext h.1, fun h => by cases h⟩
        | orMorePaths => exact (hmore rfl).elim

/-- On the segments of an absolute URL. -/
theorem readUrlSegments_matches (l : List Text) (segments : List (UrlSegment V))
    (strings : V → Text) :
    let read := readUrlSegments ⟨true, l⟩ segments strings
    (read.1 = true ↔ MatchesUrl segments l) ∧
      (read.1 = true → Captures segments l strings read.2) :=
  readLoop_spec List.suffix_rfl segments strings

end CrowCore.UrlSegments
