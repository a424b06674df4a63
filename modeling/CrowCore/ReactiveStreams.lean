import CrowCore.GuardedRuns
import CrowCore.StreamExchange

set_option autoImplicit false

/-!
# Reactive streams

`subscribe` takes the next element of the source to the subscriber. A synchronous
one is subscribed again when it returns, an asynchronous one when it calls its token
with true. For that it is moved out of the variant that holds it, and back.
-/
namespace CrowCore.ReactiveStreams
open GuardedRuns StreamExchange

inductive SourceHandler (T : Type) where
  | just (value : T) (mHasNext : Bool)
  /-- what is left from `current` on -/
  | range (rest : List T)

namespace SourceHandler
variable {T : Type}

def hasNext : SourceHandler T → Bool
  | .just _ mHasNext => mHasNext
  | .range rest => !rest.isEmpty

/-- The value for the consumer, and the source when the consumer is called. -/
def next : SourceHandler T → Option (T × SourceHandler T)
  | .just value _ => some (value, .just value false)
  | .range [] => none
  | .range (v :: rest) => some (v, .range rest)

def items : SourceHandler T → List T
  | .just value mHasNext => if mHasNext then [value] else []
  | .range rest => rest

theorem hasNext_iff (source : SourceHandler T) : source.hasNext = true ↔ source.items ≠ [] := by
  cases source with
  | just value mHasNext => cases mHasNext <;> simp [hasNext, items]
  | range rest => cases rest <;> simp [hasNext, items]

theorem next_eq {source : SourceHandler T} {v : T} {rest : List T}
    (h : source.items = v :: rest) : ∃ source', source.next = some (v, source') ∧
      source'.items = rest := by
  cases source with
  | just value mHasNext =>
    cases mHasNext with
    | false => cases h
    | true =>
      obtain ⟨rfl, rfl⟩ := List.cons.inj h
      exact ⟨_, rfl, rfl⟩
  | range left =>
    obtain rfl : left = v :: rest := h
    exact ⟨_, rfl, rfl⟩

theorem items_of_next {source source' : SourceHandler T} {v : T} (hnext : source.hasNext = true)
    (h : source.next = some (v, source')) : source'.items.length < source.items.length := by
  obtain ⟨w, rest, hitems⟩ := List.exists_cons_of_ne_nil ((hasNext_iff source).1 hnext)
  obtain ⟨left, hleft, hrest⟩ := next_eq hitems
  obtain ⟨rfl, rfl⟩ := Prod.mk.inj (Option.some.inj (h.symm.trans hleft))
  rw [hitems, hrest]
  exact Nat.lt_succ_self _

end SourceHandler

/-- The variant; a `std::function` that was moved out is empty. -/
inductive Subscriber (F : Type) where
  | sync (handler : Option F)
  | async (handler : Option F)

/-- Calls of the functions of the user, and of the tokens that they get. -/
inductive Call (T F : Type) where
  | sync (handler : F) (r : T)
  | async (handler : F) (r : T) (token : ℕ)
  | completion (token : ℕ) (next : Bool)
  | onFinish (handler : F)

/-- `FluxBase`, with the calls so far and the tokens that are not called. -/
structure State (T F : Type) where
  mSource : SourceHandler T
  onFinishHandler : Option F := none
  mapHandlers : List (T → T) := []
  subscriber : Subscriber F := .sync none
  calls : List (Call T F) := []
  tokens : ℕ := 0
  pending : List ℕ := []

variable {T F : Type}

namespace State

def call (st : State T F) (c : Call T F) : State T F := { st with calls := st.calls ++ [c] }

def map (st : State T F) (mapFun : T → T) : State T F :=
  { st with mapHandlers := st.mapHandlers ++ [mapFun] }

def onFinish (st : State T F) (finishH : F) : State T F :=
  { st with onFinishHandler := some finishH }

end State

def Mono.just (v : T) : State T F := { mSource := .just v true }

def Flux.range (r : List T) : State T F := { mSource := .range r }

section Delivery
-- what an asynchronous subscriber does with its token before it returns
variable (reply : List (Call T F) → Option Bool)

mutual

/-- `none` where an empty function is called or the variant holds the other one. -/
def subscribe (st : State T F) (handler : Subscriber F) : Option (State T F) :=
  let flux := { st with subscriber := handler }
  if _hnext : st.mSource.hasNext then
    match _hsource : st.mSource.next with
    | none => none
    | some (v, mSource) =>
      let r := flux.mapHandlers.foldl (fun sofar func => func sofar) v
      invokeSubscriber { flux with mSource } r
  else
    match flux.onFinishHandler with
    | some finishH => some (flux.call (.onFinish finishH))
    | none => some flux
termination_by 3 * st.mSource.items.length
decreasing_by
  have hlt := SourceHandler.items_of_next _hnext _hsource
  omega

/-- Both overloads, for what the variant holds. -/
def invokeSubscriber (st : State T F) (r : T) : Option (State T F) :=
  match st.subscriber with
  | .sync none => none
  | .sync (some handler) =>
    let st := st.call (.sync handler r)
    subscribe { st with subscriber := .sync none } (.sync (some handler))
  | .async none => none
  | .async (some handler) =>
    let token := st.tokens
    let st := { st.call (.async handler r token) with tokens := token + 1 }
    match reply st.calls with
    | some next => complete st token next
    | none => some { st with pending := token :: st.pending }
termination_by 3 * st.mSource.items.length + 2
decreasing_by
  · simp [State.call]
  · simp [State.call]

def complete (st : State T F) (token : ℕ) (next : Bool) : Option (State T F) :=
  let st := st.call (.completion token next)
  if next then
    match st.subscriber with
    | .sync _ => none
    | .async handler => subscribe { st with subscriber := .async none } (.async handler)
  else some st
termination_by 3 * st.mSource.items.length + 1
decreasing_by
  simp [State.call]

end

/-- A token that was kept is called, at most once. -/
def step (st : State T F) (e : ℕ × Bool) : Option (State T F) :=
  if e.1 ∈ st.pending then
    complete reply { st with pending := st.pending.erase e.1 } e.1 e.2
  else none

end Delivery

/-- `fk(...f1(v))` -/
def composed : List (T → T) → T → T
  | [] => id
  | f :: fs => composed fs ∘ f

theorem foldl_eq_composed (fs : List (T → T)) (v : T) :
    fs.foldl (fun sofar func => func sofar) v = composed fs v := by
  induction fs generalizing v with
  | nil => rfl
  | cons f fs ih => exact ih (f v)

section Calls
variable (reply : List (Call T F) → Option Bool) {st : State T F} {v : T} {rest : List T}

theorem subscribe_end (hitems : st.mSource.items = []) {g : F} (hg : st.onFinishHandler = some g)
    (handler : Subscriber F) : subscribe reply st handler =
      some { st with subscriber := handler, calls := st.calls ++ [.onFinish g] } := by
  have hnext : ¬ st.mSource.hasNext = true := by
    rw [SourceHandler.hasNext_iff, hitems]
    exact not_not_intro rfl
  rw [subscribe]
  simp only [dif_neg hnext, hg, State.call]

theorem subscribe_next (hitems : st.mSource.items = v :: rest) (handler : Subscriber F) :
    ∃ mSource : SourceHandler T, mSource.items = rest ∧ subscribe reply st handler =
      invokeSubscriber reply { st with subscriber := handler, mSource }
        (composed st.mapHandlers v) := by
  have hnext : st.mSource.hasNext = true := by
    rw [SourceHandler.hasNext_iff, hitems]
    exact List.cons_ne_nil _ _
  obtain ⟨mSource, hsource, hrest⟩ := SourceHandler.next_eq hitems
  refine ⟨mSource, hrest, ?_⟩
  rw [subscribe]
  simp only [dif_pos hnext, foldl_eq_composed]
  split
  · next hnone =>
    rw [hsource] at hnone
    cases hnone
  · next w source hsome =>
    obtain ⟨rfl, rfl⟩ := Prod.mk.inj (Option.some.inj (hsome.symm.trans hsource))
    rfl

theorem subscribe_sync (s : F) {g : F} (hg : st.onFinishHandler = some g) {items : List T}
    (hitems : st.mSource.items = items) : ∃ st',
      subscribe reply st (.sync (some s)) = some st' ∧
        st'.calls = st.calls ++ (items.map (composed st.mapHandlers)).map (.sync s) ++
          [.onFinish g] := by
  induction items generalizing st with
  | nil =>
    refine ⟨_, subscribe_end reply hitems hg _, ?_⟩
    rw [List.map_nil, List.map_nil, List.append_nil]
  | cons v rest ih =>
    obtain ⟨mSource, hrest, hsubscribe⟩ := subscribe_next reply hitems (.sync (some s))
    rw [hsubscribe, invokeSubscriber]
    obtain ⟨st', hst', hcalls⟩ := @ih {
      (({ st with subscriber := .sync (some s), mSource } : State T F).call
        (.sync s (composed st.mapHandlers v))) with subscriber := .sync none } hg hrest
    refine ⟨st', hst', ?_⟩
    rw [hcalls]
    simp [State.call]

end Calls

def callOf (s g : F) : Message T → Call T F
  | .element r token => .async s r token
  | .completion token next => .completion token next
  | .finish => .onFinish g

section Refinement
variable (reply : List (Call T F) → Option Bool) (fs : List (T → T)) (s g : F) (elements : List T)

structure Follows (st : State T F) (messages : List (Message T)) (n : ℕ) (phase : Phase) :
    Prop where
  exchange : Exchange elements messages n phase
  calls : st.calls = messages.map (callOf s g)
  items : st.mSource.items.map (composed fs) = elements.drop (given n phase)
  mapHandlers : st.mapHandlers = fs
  onFinishHandler : st.onFinishHandler = some g
  tokens : st.tokens = given n phase

/-- The subscriber is in its place, and the token of the last element can be called. -/
def Rests (st : State T F) : Prop := ∃ messages n phase,
  Follows fs s g elements st messages n phase ∧ phase ≠ .ready ∧
    st.subscriber = .async (some s) ∧ st.pending = if phase = .waiting then [n] else []

variable {reply fs s g elements} {st : State T F} {messages : List (Message T)} {n : ℕ}

theorem callOf_concat {calls : List (Call T F)} (h : calls = messages.map (callOf s g))
    (message : Message T) : calls ++ [callOf s g message] =
      (messages ++ [message]).map (callOf s g) := by
  rw [List.map_append, h, List.map_singleton]

/-- `subscribe` leads to such a state where the source has these items left. -/
def Subscribes (reply : List (Call T F) → Option Bool) (fs : List (T → T)) (s g : F)
    (elements items : List T) : Prop := ∀ (st : State T F) (messages : List (Message T)) (n : ℕ),
  st.mSource.items = items → Follows fs s g elements st messages n .ready → st.pending = [] →
    ∃ st', subscribe reply st (.async (some s)) = some st' ∧ Rests fs s g elements st'

theorem complete_rests (hsubscribes : Subscribes reply fs s g elements st.mSource.items)
    (h : Follows fs s g elements st messages n .waiting)
    (hsubscriber : st.subscriber = .async (some s)) (hpending : st.pending = []) (next : Bool) :
    ∃ st', complete reply st n next = some st' ∧ Rests fs s g elements st' := by
  have hcalls := callOf_concat h.calls (.completion n next)
  rw [complete]
  cases next with
  | false =>
    refine ⟨_, rfl, _, n, .stopped, ⟨h.exchange.stop, hcalls, h.items, h.mapHandlers,
      h.onFinishHandler, h.tokens⟩, by decide, hsubscriber, ?_⟩
    rw [if_neg (by decide)]
    exact hpending
  | true =>
    simp only [State.call, hsubscriber, if_true]
    exact hsubscribes _ _ _ rfl ⟨h.exchange.complete, hcalls, h.items, h.mapHandlers,
      h.onFinishHandler, h.tokens⟩ hpending

theorem subscribes (items : List T) : Subscribes reply fs s g elements items := by
  -- what the source has left; the token may be called before the handler returns
  induction items with
  | nil =>
    intro st messages n hitems h hpending
    have hdrop : [] = elements.drop n := by
      rw [← List.map_nil (f := composed fs), ← hitems]
      exact h.items
    have hle : elements.length ≤ n := List.drop_eq_nil_iff.1 hdrop.symm
    have hn : n = elements.length := le_antisymm h.exchange.given_le hle
    refine ⟨_, subscribe_end reply hitems h.onFinishHandler _, _, n, .finished,
      ⟨h.exchange.finish hn, callOf_concat h.calls .finish, h.items, h.mapHandlers,
        h.onFinishHandler, h.tokens⟩, by decide, rfl, ?_⟩
    rw [if_neg (by decide)]
    exact hpending
  | cons v rest ih =>
    intro st messages n hitems h hpending
    obtain ⟨mSource, rfl, hsubscribe⟩ := subscribe_next reply hitems (.async (some s))
    have hdrop : composed fs v :: mSource.items.map (composed fs) = elements.drop n := by
      rw [← List.map_cons, ← hitems]
      exact h.items
    have helement : elements[n]? = some (composed fs v) := by
      rw [← Nat.add_zero n, ← List.getElem?_drop, ← hdrop, List.getElem?_cons_zero]
    have hleft : mSource.items.map (composed fs) = elements.drop (n + 1) := by
      rw [← List.drop_drop, ← hdrop, List.drop_one, List.tail_cons]
    have hcalls := callOf_concat h.calls (.element (composed fs v) n)
    have htokens : st.tokens = n := h.tokens
    rw [hsubscribe, invokeSubscriber, h.mapHandlers]
    simp only [State.call, htokens]
    split
    · apply complete_rests
      · exact ih
      · exact ⟨h.exchange.deliver helement, hcalls, hleft, rfl, h.onFinishHandler, rfl⟩
      · rfl
      · exact hpending
    · refine ⟨_, rfl, _, n, .waiting, ⟨h.exchange.deliver helement, hcalls, hleft, rfl,
        h.onFinishHandler, rfl⟩, by decide, rfl, ?_⟩
      rw [if_pos rfl, ← hpending]

theorem step_rests (h : Rests fs s g elements st) {i : ℕ} (hi : i ∈ st.pending) (next : Bool) :
    ∃ st', step reply st (i, next) = some st' ∧ Rests fs s g elements st' := by
  obtain ⟨messages, n, phase, hfollows, -, hsubscriber, hpending⟩ := h
  by_cases hphase : phase = .waiting
  · subst hphase
    rw [if_pos rfl] at hpending
    have hin : i = n := List.mem_singleton.1 (hpending ▸ hi)
    subst hin
    rw [step, if_pos hi]
    apply complete_rests
    · exact subscribes _
    · exact ⟨hfollows.exchange, hfollows.calls, hfollows.items, hfollows.mapHandlers,
        hfollows.onFinishHandler, hfollows.tokens⟩
    · exact hsubscriber
    · simp only [hpending, List.erase_cons_head]
  · rw [if_neg hphase] at hpending
    rw [hpending] at hi
    cases hi

theorem rests_of_step {e : ℕ × Bool} {st' : State T F} (h : Rests fs s g elements st)
    (hstep : step reply st e = some st') : Rests fs s g elements st' := by
  by_cases hi : e.1 ∈ st.pending
  · obtain ⟨st'', hst'', hrests⟩ := step_rests h hi e.2
    obtain rfl := Option.some.inj (hstep.symm.trans hst'')
    exact hrests
  · rw [step, if_neg hi] at hstep
    cases hstep

end Refinement

/-- `map(f1)...map(fk).onFinish(g)` -/
def State.stream (st : State T F) (fs : List (T → T)) (g : F) : State T F :=
  (fs.foldl State.map st).onFinish g

theorem foldl_map_eq (st : State T F) (fs : List (T → T)) :
    fs.foldl State.map st = { st with mapHandlers := st.mapHandlers ++ fs } := by
  induction fs generalizing st with
  | nil => rw [List.append_nil]; rfl
  | cons f fs ih =>
    rw [List.foldl_cons, ih]
    simp [State.map]

/-- The tokens that can be called are those that were not; a call never fails. -/
structure AsyncDelivery (reply : List (Call T F) → Option Bool) (s g : F) (elements : List T)
    (st : State T F) : Prop where
  messages : ∃ messages, st.calls = messages.map (callOf s g) ∧ Delivers elements messages ∧
    ∀ i, i ∈ st.pending ↔ Open messages i
  returns : ∀ i ∈ st.pending, ∀ next, (step reply st (i, next)).isSome

section Streams
variable (reply : List (Call T F) → Option Bool) (fs : List (T → T)) (s g : F)

theorem asyncDelivery_of_rests {elements : List T} {st : State T F}
    (h : Rests fs s g elements st) : AsyncDelivery reply s g elements st := by
  refine ⟨?_, fun i hi next => ?_⟩
  · obtain ⟨messages, n, phase, hfollows, hphase, -, hpending⟩ := h
    refine ⟨messages, hfollows.calls, hfollows.exchange.delivers hphase, fun i => ?_⟩
    rw [hfollows.exchange.open_iff, hpending]
    by_cases hwaiting : phase = .waiting
    · rw [if_pos hwaiting, List.mem_singleton, and_iff_right hwaiting]
    · rw [if_neg hwaiting]
      exact ⟨fun hmem => absurd hmem List.not_mem_nil, fun hopen => absurd hopen.1 hwaiting⟩
  · obtain ⟨st', hst', -⟩ := step_rests h hi next
    rw [hst', Option.isSome_some]

theorem stream_sync (source : SourceHandler T) : ∃ st,
    subscribe reply (({ mSource := source } : State T F).stream fs g) (.sync (some s)) = some st ∧
      st.calls = (source.items.map (composed fs)).map (.sync s) ++ [.onFinish g] := by
  rw [State.stream, foldl_map_eq]
  exact subscribe_sync reply s rfl rfl

theorem stream_async (source : SourceHandler T) : ∃ st,
    subscribe reply (({ mSource := source } : State T F).stream fs g) (.async (some s)) = some st ∧
      ∀ events, Always (step reply)
        (AsyncDelivery reply s g (source.items.map (composed fs))) st events := by
  have hstart : Follows fs s g (source.items.map (composed fs))
      (({ mSource := source } : State T F).stream fs g) [] 0 .ready := by
    rw [State.stream, foldl_map_eq]
    exact ⟨.start, rfl, rfl, rfl, rfl, rfl⟩
  have hpending : (({ mSource := source } : State T F).stream fs g).pending = [] := by
    rw [State.stream, foldl_map_eq]
    rfl
  obtain ⟨st, hst, hrests⟩ := subscribes _ _ _ _ rfl hstart hpending
  refine ⟨st, hst, fun events => ?_⟩
  have halways : Always (step reply) (Rests fs s g (source.items.map (composed fs))) st events :=
    always_of_step (fun _ _ _ => rests_of_step) hrests events
  exact halways.mono fun _ => asyncDelivery_of_rests reply fs s g

/-- A range is delivered once, in order, to both kinds of subscribers. -/
theorem range_delivers_once (range : List T) :
    (∃ st, subscribe reply ((Flux.range range).stream fs g) (.sync (some s)) = some st ∧
      st.calls = (range.map (composed fs)).map (.sync s) ++ [.onFinish g]) ∧
    ∃ st, subscribe reply ((Flux.range range).stream fs g) (.async (some s)) = some st ∧
      ∀ events, Always (step reply)
        (AsyncDelivery reply s g (range.map (composed fs))) st events :=
  ⟨stream_sync reply fs s g (.range range), stream_async reply fs s g (.range range)⟩

theorem just_delivers_once (v : T) :
    (∃ st, subscribe reply ((Mono.just v).stream fs g) (.sync (some s)) = some st ∧
      st.calls = [.sync s (composed fs v), .onFinish g]) ∧
    ∃ st, subscribe reply ((Mono.just v).stream fs g) (.async (some s)) = some st ∧
      ∀ events, Always (step reply) (AsyncDelivery reply s g [composed fs v]) st events :=
  ⟨stream_sync reply fs s g (.just v true), stream_async reply fs s g (.just v true)⟩

end Streams

end CrowCore.ReactiveStreams
