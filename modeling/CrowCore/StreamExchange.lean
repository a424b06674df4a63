import CrowCore.ListSplits

set_option autoImplicit false

/-!
# Exchanges of a stream

A stream gives its elements one at a time, each with a token. The next element
follows when the token is completed with true, and the end follows the last one.
A completion with false stops the stream.
-/
namespace CrowCore.StreamExchange
open ListSplits

variable {E : Type}

/-- The token of an element is its position. -/
inductive Message (E : Type) where
  | element (e : E) (token : ℕ)
  | completion (token : ℕ) (next : Bool)
  | finish
deriving DecidableEq, Repr

inductive Phase where
  | ready
  | waiting
  | stopped
  | finished
deriving DecidableEq, Repr

namespace Message

def given? : Message E → Option (E × ℕ)
  | .element e token => some (e, token)
  | _ => none

def isFinish : Message E → Bool
  | .finish => true
  | _ => false

end Message

/-- What a stream sends when this element is wanted. -/
def sent (elements : List E) (i : ℕ) : Message E :=
  match elements[i]? with
  | some e => .element e i
  | none => .finish

/-- The messages so far; `n` elements are completed with true. -/
inductive Exchange (elements : List E) : List (Message E) → ℕ → Phase → Prop
  | start : Exchange elements [] 0 .ready
  | deliver {messages : List (Message E)} {n : ℕ} {e : E} :
      Exchange elements messages n .ready → elements[n]? = some e →
      Exchange elements (messages ++ [.element e n]) n .waiting
  | complete {messages : List (Message E)} {n : ℕ} :
      Exchange elements messages n .waiting →
      Exchange elements (messages ++ [.completion n true]) (n + 1) .ready
  | stop {messages : List (Message E)} {n : ℕ} :
      Exchange elements messages n .waiting →
      Exchange elements (messages ++ [.completion n false]) n .stopped
  | finish {messages : List (Message E)} {n : ℕ} :
      Exchange elements messages n .ready → n = elements.length →
      Exchange elements (messages ++ [.finish]) n .finished

def given (n : ℕ) : Phase → ℕ
  | .ready => n
  | .waiting => n + 1
  | .stopped => n + 1
  | .finished => n

structure Open (messages : List (Message E)) (i : ℕ) : Prop where
  given : ∃ e, .element e i ∈ messages
  not_completed : ∀ next, .completion i next ∉ messages

structure Delivers (elements : List E) (messages : List (Message E)) : Prop where
  /-- each element once, in order -/
  in_order : ∃ n, messages.filterMap Message.given? = elements.zipIdx.take n
  first : messages.head? = some (sent elements 0)
  only_after : ∀ before e i after, messages = before ++ .element e (i + 1) :: after →
    before.getLast? = some (.completion i true)
  answered : ∀ before i after, messages = before ++ .completion i true :: after →
    after.head? = some (sent elements (i + 1))
  stops : ∀ before i after, messages = before ++ .completion i false :: after → after = []
  finishes : elements = [] ∨ .completion (elements.length - 1) true ∈ messages →
    messages.filter Message.isFinish = [.finish]
  finishes_only : .finish ∈ messages →
    elements = [] ∨ .completion (elements.length - 1) true ∈ messages

namespace Exchange

variable {elements : List E} {messages : List (Message E)} {n i : ℕ} {phase : Phase}

theorem given_le (h : Exchange elements messages n phase) : given n phase ≤ elements.length := by
  induction h with
  | start => exact Nat.zero_le _
  | deliver _ he _ => exact (List.getElem?_eq_some_iff.1 he).1
  | complete _ ih => exact ih
  | stop _ ih => exact ih
  | finish _ hn _ => exact hn.le

theorem length_of_finished (h : Exchange elements messages n .finished) : n = elements.length := by
  cases h with
  | finish _ hn => exact hn

theorem filterMap_given (h : Exchange elements messages n phase) :
    messages.filterMap Message.given? = elements.zipIdx.take (given n phase) := by
  induction h with
  | start => rfl
  | deliver _ he ih =>
    rw [List.filterMap_append, ih, given, given, List.take_add_one, List.getElem?_zipIdx, he,
      Option.map_some, Nat.zero_add]
    rfl
  | complete _ ih => rw [List.filterMap_append, ih]; exact List.append_nil _
  | stop _ ih => rw [List.filterMap_append, ih]; exact List.append_nil _
  | finish _ _ ih => rw [List.filterMap_append, ih]; exact List.append_nil _

theorem element_mem_iff (h : Exchange elements messages n phase) {e : E} :
    .element e i ∈ messages ↔ elements[i]? = some e ∧ i < given n phase := by
  induction h with
  | start => simp [given]
  | deliver hready he ih =>
    rw [List.mem_append, ih, List.mem_singleton, Message.element.injEq]
    constructor
    · rintro (⟨hi, hlt⟩ | ⟨rfl, rfl⟩)
      · exact ⟨hi, Nat.lt_succ_of_lt hlt⟩
      · exact ⟨he, Nat.lt_succ_self _⟩
    · rintro ⟨hi, hlt⟩
      rcases Nat.lt_succ_iff_lt_or_eq.1 hlt with hlt | rfl
      · exact .inl ⟨hi, hlt⟩
      · exact .inr ⟨Option.some.inj (hi.symm.trans he), rfl⟩
  | complete _ ih => simpa [given] using ih
  | stop _ ih => simpa [given] using ih
  | finish _ _ ih => simpa [given] using ih

theorem true_mem_iff (h : Exchange elements messages n phase) :
    .completion i true ∈ messages ↔ i < n := by
  induction h with
  | start => simp
  | deliver _ _ ih => simp [ih]
  | complete _ ih =>
    simp only [List.mem_append, ih, List.mem_singleton, Message.completion.injEq, and_true]
    omega
  | stop _ ih => simp [ih]
  | finish _ _ ih => simp [ih]

theorem false_mem_iff (h : Exchange elements messages n phase) :
    .completion i false ∈ messages ↔ phase = .stopped ∧ i = n := by
  induction h with
  | start => simp
  | deliver _ _ ih => simp [ih]
  | complete _ ih => simp [ih]
  | stop _ ih => simp [ih]
  | finish _ _ ih => simp [ih]

theorem filter_isFinish (h : Exchange elements messages n phase) :
    messages.filter Message.isFinish = if phase = .finished then [.finish] else [] := by
  induction h with
  | start => rfl
  | deliver _ _ ih => rw [List.filter_append, ih]; rfl
  | complete _ ih => rw [List.filter_append, ih]; rfl
  | stop _ ih => rw [List.filter_append, ih]; rfl
  | finish _ _ ih => rw [List.filter_append, ih]; rfl

theorem getLast_of_ready (h : Exchange elements messages (i + 1) .ready) :
    messages.getLast? = some (.completion i true) := by
  cases h with
  | complete _ => exact List.getLast?_concat

theorem answered (h : Exchange elements messages n phase) {before after : List (Message E)}
    (hsplit : messages = before ++ .completion i true :: after) :
    (after = [] ∧ phase = .ready ∧ n = i + 1) ∨ after.head? = some (sent elements (i + 1)) := by
  induction h generalizing after with
  | start => exact absurd hsplit.symm (List.append_ne_nil_of_right_ne_nil _ (List.cons_ne_nil _ _))
  | deliver _ he ih =>
    obtain ⟨after', rfl, hbefore⟩ := split_concat_of_ne (by nofun) hsplit
    rcases ih hbefore with ⟨rfl, -, rfl⟩ | hhead
    · rw [sent, he]
      exact .inr rfl
    · exact .inr (head_concat hhead _)
  | complete _ ih =>
    rcases split_concat hsplit with ⟨rfl, -, hcompletion⟩ | ⟨after', rfl, hbefore⟩
    · obtain ⟨rfl, -⟩ := Message.completion.inj hcompletion
      exact .inl ⟨rfl, rfl, rfl⟩
    rcases ih hbefore with ⟨-, hphase, -⟩ | hhead
    · cases hphase
    · exact .inr (head_concat hhead _)
  | stop _ ih =>
    obtain ⟨after', rfl, hbefore⟩ := split_concat_of_ne (by nofun) hsplit
    rcases ih hbefore with ⟨-, hphase, -⟩ | hhead
    · cases hphase
    · exact .inr (head_concat hhead _)
  | finish _ hn ih =>
    obtain ⟨after', rfl, hbefore⟩ := split_concat_of_ne (by nofun) hsplit
    rcases ih hbefore with ⟨rfl, -, rfl⟩ | hhead
    · rw [sent, hn, List.getElem?_eq_none le_rfl]
      exact .inr rfl
    · exact .inr (head_concat hhead _)

theorem first (h : Exchange elements messages n phase) :
    (messages = [] ∧ phase = .ready ∧ n = 0) ∨ messages.head? = some (sent elements 0) := by
  induction h with
  | start => exact .inl ⟨rfl, rfl, rfl⟩
  | deliver _ he ih =>
    rcases ih with ⟨rfl, -, rfl⟩ | hhead
    · rw [sent, he]
      exact .inr rfl
    · exact .inr (head_concat hhead _)
  | complete _ ih =>
    rcases ih with ⟨-, hphase, -⟩ | hhead
    · cases hphase
    · exact .inr (head_concat hhead _)
  | stop _ ih =>
    rcases ih with ⟨-, hphase, -⟩ | hhead
    · cases hphase
    · exact .inr (head_concat hhead _)
  | finish _ hn ih =>
    rcases ih with ⟨rfl, -, rfl⟩ | hhead
    · rw [sent, List.getElem?_eq_none hn.ge]
      exact .inr rfl
    · exact .inr (head_concat hhead _)

theorem only_after (h : Exchange elements messages n phase) {before after : List (Message E)}
    {e : E} (hsplit : messages = before ++ .element e (i + 1) :: after) :
    before.getLast? = some (.completion i true) := by
  induction h generalizing after with
  | start => exact absurd hsplit.symm (List.append_ne_nil_of_right_ne_nil _ (List.cons_ne_nil _ _))
  | deliver hready _ ih =>
    rcases split_concat hsplit with ⟨-, rfl, helement⟩ | ⟨after', rfl, hbefore⟩
    · obtain ⟨-, rfl⟩ := Message.element.inj helement
      exact hready.getLast_of_ready
    · exact ih hbefore
  | complete _ ih =>
    obtain ⟨after', rfl, hbefore⟩ := split_concat_of_ne (by nofun) hsplit
    exact ih hbefore
  | stop _ ih =>
    obtain ⟨after', rfl, hbefore⟩ := split_concat_of_ne (by nofun) hsplit
    exact ih hbefore
  | finish _ _ ih =>
    obtain ⟨after', rfl, hbefore⟩ := split_concat_of_ne (by nofun) hsplit
    exact ih hbefore

theorem stops (h : Exchange elements messages n phase) {before after : List (Message E)}
    (hsplit : messages = before ++ .completion i false :: after) : after = [] := by
  have hmem : .completion i false ∈ messages := hsplit ▸ List.mem_append_right _ List.mem_cons_self
  obtain ⟨rfl, rfl⟩ := h.false_mem_iff.1 hmem
  cases h with
  | stop hwaiting =>
    rcases split_concat hsplit with ⟨hnil, -, -⟩ | ⟨after', -, rfl⟩
    · exact hnil
    · have hearlier := hwaiting.false_mem_iff.1 (List.mem_append_right _ List.mem_cons_self)
      cases hearlier.1

theorem open_iff (h : Exchange elements messages n phase) :
    Open messages i ↔ phase = .waiting ∧ i = n := by
  constructor
  · rintro ⟨⟨e, he⟩, hnot⟩
    obtain ⟨-, hi⟩ := h.element_mem_iff.1 he
    have hn : n ≤ i := Nat.le_of_not_lt fun hlt => hnot true (h.true_mem_iff.2 hlt)
    cases phase with
    | ready => exact absurd hi hn.not_gt
    | waiting => exact ⟨rfl, Nat.le_antisymm (Nat.le_of_lt_succ hi) hn⟩
    | stopped =>
      have heq : i = n := Nat.le_antisymm (Nat.le_of_lt_succ hi) hn
      exact absurd (h.false_mem_iff.2 ⟨rfl, heq⟩) (hnot false)
    | finished => exact absurd hi hn.not_gt
  · rintro ⟨rfl, rfl⟩
    have hlt : i < elements.length := h.given_le
    have hlast : .element elements[i] i ∈ messages :=
      h.element_mem_iff.2 ⟨List.getElem?_eq_getElem hlt, Nat.lt_succ_self i⟩
    refine ⟨⟨elements[i], hlast⟩, fun next hmem => ?_⟩
    cases next with
    | false => cases (h.false_mem_iff.1 hmem).1
    | true => exact absurd (h.true_mem_iff.1 hmem) (lt_irrefl i)

theorem finished_iff (h : Exchange elements messages n phase) (hphase : phase ≠ .ready) :
    phase = .finished ↔ elements = [] ∨ .completion (elements.length - 1) true ∈ messages := by
  have hle := h.given_le
  rw [h.true_mem_iff, ← List.length_eq_zero_iff]
  constructor
  · rintro rfl
    have hn := h.length_of_finished
    omega
  · intro hdone
    cases phase with
    | ready => exact absurd rfl hphase
    | finished => rfl
    | waiting | stopped =>
      have hlt : n < elements.length := hle
      omega

/-- What holds whenever the stream is not about to send. -/
theorem delivers (h : Exchange elements messages n phase) (hphase : phase ≠ .ready) :
    Delivers elements messages where
  in_order := ⟨_, h.filterMap_given⟩
  first := h.first.resolve_left fun hstart => hphase hstart.2.1
  only_after _ _ _ _ hsplit := h.only_after hsplit
  answered _ _ _ hsplit := (h.answered hsplit).resolve_left fun hready => hphase hready.2.1
  stops _ _ _ hsplit := h.stops hsplit
  finishes hdone := by rw [h.filter_isFinish, if_pos ((h.finished_iff hphase).2 hdone)]
  finishes_only hfinish := by
    have hmem : .finish ∈ messages.filter Message.isFinish := List.mem_filter.2 ⟨hfinish, rfl⟩
    rw [h.filter_isFinish] at hmem
    by_cases hfinished : phase = .finished
    · exact (h.finished_iff hphase).1 hfinished
    · rw [if_neg hfinished] at hmem
      cases hmem

end Exchange

end CrowCore.StreamExchange
