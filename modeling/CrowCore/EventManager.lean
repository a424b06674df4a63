import CrowCore.ComponentRuns
import CrowCore.PoolExclusivity

set_option autoImplicit false

/-!
# The event service

`EventServiceManager` holds its subscribers in a vector. The handlers of their sessions and
retry requests are bound to the subscriber in the place where it was when they were made, and
a vector that grows moves its elements.
-/
namespace CrowCore.EventManager
open GuardedRuns ComponentRuns ClientSession Subscriber PoolExclusivity

/-- The pool is copied where the subscriber is moved, and the destructor of the old one closes
the sessions of both. -/
def moved (s : HttpSubscriber) : HttpSubscriber :=
  s.pool.foldl (fun s i => s.modifySession i HttpSession.shutDown) s

/-- A subscriber of the vector. Buffers are known by their numbers, and the handlers of a
session or a retry request by the buffer to which `this` points in them. -/
structure Element where
  destUrl : String
  subscriber : HttpSubscriber
  sessionBuffer : ℕ → ℕ := fun _ => 0
  retryBuffer : ℕ → ℕ := fun _ => 0

/-- What ends the process or leaves its behaviour undefined. -/
inductive Fault where
  /-- an exception that nothing catches -/
  | exception
  /-- a handler was called with a subscriber that has been moved -/
  | dangling
  /-- a null or a destroyed session was used -/
  | session
deriving DecidableEq, Repr

/-- Of the buffers of the vector only the last one is left. -/
structure EventServiceManager where
  subscribers : List Element := []
  capacity : ℕ := 0
  buffer : ℕ := 0
  fault : Option Fault := none

inductive Event where
  | addSubscription (destUrl : String)
  | sendEvent
  /-- an event of the loop for a subscriber -/
  | loop (k : ℕ) (event : Subscriber.Event)
deriving DecidableEq, Repr

namespace Element

/-- After a call of a subscriber, which has bound what it made to its place. -/
def called (element : Element) (buffer : ℕ) (subscriber : HttpSubscriber) : Element :=
  { element with
    subscriber
    sessionBuffer := fun i =>
      if i < element.subscriber.created then element.sessionBuffer i else buffer
    retryBuffer := fun r => if r < element.subscriber.made then element.retryBuffer r else buffer }

/-- `acquire` calls the initializer, which parses the destination. -/
def initializes (element : Element) : Bool :=
  (element.subscriber.pool.find? fun i => !(element.subscriber.sessions i).inUse).isNone &&
    element.subscriber.pool.length < element.subscriber.poolSize

def throws (isUrl : String → Bool) (element : Element) : Bool :=
  element.initializes && !isUrl element.destUrl

def sendEvent (buffer : ℕ) (element : Element) : Element :=
  let s := element.subscriber
  element.called buffer ({ s with nextEvent := s.nextEvent + 1 }.sendEvent s.nextEvent)

/-- The subscriber that the handlers of an event are called with. -/
def callee (element : Element) : Subscriber.Event → Option ℕ
  | .fails i _ | .idleWait i true =>
    (element.subscriber.sessions i).responseHandler.map fun _ => element.sessionBuffer i
  | .timerHandler r => some (element.retryBuffer r)
  | _ => none

end Element

def policy : RetryPolicy := { maxRetries := 3, retryDelay := 10 }

def newSubscriber : HttpSubscriber := start 5 policy

namespace EventServiceManager

-- whether `url_view` takes a text, which throws otherwise, and the capacity of a vector that
-- has grown from a size
variable (isUrl : String → Bool) (grow : ℕ → ℕ)

def grown (m : EventServiceManager) : EventServiceManager :=
  { m with
    subscribers := m.subscribers.map fun element =>
      { element with subscriber := moved element.subscriber }
    capacity := grow m.subscribers.length
    buffer := m.buffer + 1 }

def addSubscription (m : EventServiceManager) (destUrl : String) : EventServiceManager :=
  let m := if m.subscribers.length < m.capacity then m else m.grown grow
  { m with subscribers := m.subscribers ++ [{ destUrl, subscriber := newSubscriber }] }

/-- The loop of `sendEvent`, and whether an exception has ended it. -/
def sendTo (buffer : ℕ) : List Element → List Element × Bool
  | [] => ([], false)
  | element :: elements =>
    if element.throws isUrl then (element :: elements, true)
    else
      let sent := sendTo buffer elements
      (element.sendEvent buffer :: sent.1, sent.2)

def sendEvent (m : EventServiceManager) : EventServiceManager :=
  let sent := sendTo isUrl m.buffer m.subscribers
  { m with subscribers := sent.1, fault := if sent.2 then some .exception else none }

def loop (m : EventServiceManager) (k : ℕ) (event : Subscriber.Event) :
    Option EventServiceManager := do
  let element ← m.subscribers[k]?
  let s ← element.subscriber.step event
  if event = .sendEvent then none
  else if element.callee event ∈ [none, some m.buffer] then
    return { m with
      subscribers := m.subscribers.set k (element.called m.buffer s)
      fault := if s.fault then some .session else none }
  else return { m with fault := some .dangling }

def step (m : EventServiceManager) (event : Event) : Option EventServiceManager :=
  if m.fault.isSome then none
  else
    match event with
    | .addSubscription destUrl => some (m.addSubscription grow destUrl)
    | .sendEvent => some (m.sendEvent isUrl)
    | .loop k event => m.loop k event

end EventServiceManager

/-- Sessions and retry requests that have been made, and none of the others, have handlers and
waits. -/
structure Used (s : HttpSubscriber) : Prop where
  handled : ∀ i, (s.sessions i).responseHandler.isSome ↔ i < s.created
  retried : ∀ i r, (s.sessions i).responseHandler = some (.handleRetryResponse r) → r < s.made
  waiting : ∀ r, (s.retryRequests r).armed ∨ 0 < (s.retryRequests r).due → r < s.made
  created : 0 < s.made → 0 < s.created

theorem used_newSubscriber : Used newSubscriber where
  handled i := by simp [newSubscriber, start]
  retried i r h := by cases h
  waiting r h := by simp [newSubscriber, start] at h
  created h := h

variable {s s' : HttpSubscriber}

theorem Used.modifySession (h : Used s) {i : ℕ} {f : Session → Session}
    (hf : (f (s.sessions i)).responseHandler = (s.sessions i).responseHandler) :
    Used (s.modifySession i f) := by
  have hall : ∀ j, ((s.modifySession i f).sessions j).responseHandler =
      (s.sessions j).responseHandler := by
    intro j
    by_cases hji : j = i
    · rw [hji, modifySession_self, hf]
    · rw [modifySession_other s f hji]
  refine ⟨fun j => ?_, fun j r => ?_, h.waiting, h.created⟩
  · rw [hall]
    exact h.handled j
  · rw [hall]
    exact h.retried j r

theorem Used.modifyRetry (h : Used s) {r : ℕ} {f : RetryRequest → RetryRequest}
    (hf : (f (s.retryRequests r)).armed ∨ 0 < (f (s.retryRequests r)).due → r < s.made) :
    Used (s.modifyRetry r f) := by
  refine ⟨h.handled, h.retried, fun q hq => ?_, h.created⟩
  by_cases hqr : q = r
  · subst hqr
    have hself : (s.modifyRetry q f).retryRequests q = f (s.retryRequests q) :=
      Function.update_self ..
    rw [hself] at hq
    exact hf hq
  · have hother : (s.modifyRetry r f).retryRequests q = s.retryRequests q :=
      Function.update_of_ne hqr ..
    rw [hother] at hq
    exact h.waiting q hq

theorem Used.acquire (h : Used s) {handler : ResponseHandler} {found : Option ℕ}
    (hhandler : ∀ r, handler = .handleRetryResponse r → r < s.made)
    (hacq : s.acquire handler = (s', found)) : Used s' := by
  cases found with
  | none => exact acquire_same hacq ▸ h
  | some i =>
    rcases acquire_some hacq with ⟨-, -, rfl⟩ | ⟨-, rfl⟩
    · exact h
    · refine ⟨fun j => ?_, fun j r => ?_, h.waiting, fun _ => Nat.succ_pos _⟩
      · by_cases hj : j = s.created
        · simp [hj]
        · simp only [Function.update_of_ne hj, h.handled]
          omega
      · by_cases hj : j = s.created
        · simp only [hj, Function.update_self]
          exact fun heq => hhandler r (Option.some.inj heq)
        · simp only [Function.update_of_ne hj]
          exact h.retried j r

theorem Used.runSession (h : Used s) (i : ℕ) (req : Option Request) :
    Used (s.runSession i req) := by
  have hrun : Used (s.modifySession i (·.run req)) :=
    h.modifySession (run_responseHandler (s.sessions i) req)
  exact { hrun with }

theorem Used.sendEvent (h : Used s) (event : Request) : Used (s.sendEvent event) := by
  have hhandler : ∀ r, ResponseHandler.handleResponse = .handleRetryResponse r → r < s.made :=
    fun r heq => by cases heq
  rcases hacq : s.acquire .handleResponse with ⟨u, _ | i⟩
  · rw [sendEvent_none hacq]
    exact { h.acquire hhandler hacq with }
  · rw [sendEvent_some hacq]
    exact (h.acquire hhandler hacq).runSession i _

theorem Used.waitAndRetry (h : Used s) {r : ℕ} (hr : r < s.made) : Used (s.waitAndRetry r) := by
  unfold HttpSubscriber.waitAndRetry
  split_ifs
  · exact h.modifyRetry fun _ => hr
  · exact h

theorem Used.release (h : Used s) (i : ℕ) : Used (s.release i) := { h with }

theorem Used.respondError (h : Used s) (i : ℕ) : Used (s.respond i .error) := by
  unfold HttpSubscriber.respond
  rcases hhandler : (s.sessions i).responseHandler with _ | _ | r
  · exact h
  · unfold HttpSubscriber.handleResponse HttpSubscriber.retryIfNeeded
    dsimp only
    have hreleased := h.release i
    split_ifs
    · exact hreleased
    · have htaken : Used ((s.release i).modifySession i fun _ =>
          (((s.release i).sessions i).takeRequest).2) := hreleased.modifySession rfl
      refine Used.waitAndRetry ?_ (Nat.lt_succ_self s.made)
      refine ⟨htaken.handled, fun j r hr => ?_, fun q hq => ?_, fun _ => ?_⟩
      · exact (htaken.retried j r hr).trans (Nat.lt_succ_self _)
      · by_cases hqm : q = s.made
        · exact hqm ▸ Nat.lt_succ_self _
        · have hother : ∀ retry : RetryRequest,
              Function.update s.retryRequests s.made retry q = s.retryRequests q :=
            fun retry => Function.update_of_ne hqm ..
          exact (h.waiting q (hother _ ▸ hq)).trans (Nat.lt_succ_self _)
      · exact Nat.lt_of_le_of_lt (Nat.zero_le i) ((h.handled i).1 (by rw [hhandler]; rfl))
  · unfold HttpSubscriber.handleRetryResponse
    have hr := h.retried i r hhandler
    have htaken : Used (s.modifySession i fun _ => ((s.sessions i).takeRequest).2) :=
      h.modifySession rfl
    refine Used.waitAndRetry (Used.release (htaken.modifyRetry fun _ => hr) i) hr

theorem Used.fail (h : Used s) (i : ℕ) : Used (s.fail i) :=
  (h.respondError i).modifySession (shutDown_responseHandler _)

theorem used_step (h : Used s) {event : Subscriber.Event} (hstep : s.step event = some s') :
    Used s' := by
  cases steps_of_step hstep with
  | sendEvent =>
    have hnext : Used { s with nextEvent := s.nextEvent + 1 } := { h with }
    exact hnext.sendEvent s.nextEvent
  | @succeeds i op keepAlive hop =>
    have hdone : Used (s.modifySession i (·.complete op keepAlive)) :=
      h.modifySession (complete_responseHandler (s.sessions i) op keepAlive)
    unfold HttpSubscriber.succeeds
    dsimp only
    split_ifs
    · exact { hdone with }
    · exact hdone
  | @fails i op hop =>
    have herased : Used (s.modifySession i fun session =>
        { session with outstanding := session.outstanding.erase op }) := h.modifySession rfl
    have hlogged : Used { s.modifySession i fun session =>
        { session with outstanding := session.outstanding.erase op } with
          log := s.log ++ ((s.sessions i).req.map LogEntry.failedRun).toList } := { herased with }
    exact hlogged.fail i
  | @idleWait i error hwait =>
    have hwaited : Used (s.modifySession i fun session =>
        { session with idleWaits := session.idleWaits - 1 }) := h.modifySession rfl
    unfold HttpSubscriber.idleWait
    dsimp only
    split_ifs
    · exact hwaited.fail i
    · exact { hwaited with }
    · exact hwaited
  | shutDown hshut => exact h.modifySession rfl
  | @timerExpires r harmed => exact h.modifyRetry fun _ => h.waiting r (.inl harmed)
  | @timerHandler r hdue =>
    have hr := h.waiting r (.inr hdue)
    have hlater : Used (s.modifyRetry r fun retry => { retry with due := retry.due - 1 }) :=
      h.modifyRetry fun _ => hr
    unfold HttpSubscriber.retryFunction
    rcases hacq : (s.modifyRetry r fun retry => { retry with due := retry.due - 1 }).acquire
      (.handleRetryResponse r) with ⟨u, _ | i⟩
    · exact
        { hlater.acquire (fun q hq => ResponseHandler.handleRetryResponse.inj hq ▸ hr) hacq with }
    · have hu := hlater.acquire (fun q hq => ResponseHandler.handleRetryResponse.inj hq ▸ hr) hacq
      refine Used.runSession (hu.modifyRetry fun hq => hu.waiting r hq) i _

theorem moved_induction {P : HttpSubscriber → Prop} (h : P s)
    (hstep : ∀ t i, P t → P (t.modifySession i HttpSession.shutDown)) : P (moved s) :=
  List.foldlRecOn s.pool _ h fun t ht i _ => hstep t i ht

theorem Used.moved (h : Used s) : Used (moved s) :=
  moved_induction h fun _ _ ht => ht.modifySession (shutDown_responseHandler _)

theorem pooled_moved (h : Pooled s) : Pooled (moved s) := by
  refine moved_induction h fun t i ht => ?_
  have hengaged := ht.engaged i
  refine ht.modifySession ⟨?_, ?_⟩ (fun hout _ => ?_) (shutDown_responseHandler _)
  · rw [shutDown_outstanding]
    exact hengaged.at_most_one
  · rw [shutDown_outstanding, SessionStates.shutDown_inUse]
    exact hengaged.inUse
  · rw [shutDown_outstanding, hout]

theorem moved_eq (s : HttpSubscriber) : (moved s).created = s.created ∧ (moved s).made = s.made ∧
    (moved s).fault = s.fault ∧
    ∀ i, ((moved s).sessions i).outstanding = (s.sessions i).outstanding := by
  refine moved_induction (P := fun t => t.created = s.created ∧ t.made = s.made ∧
    t.fault = s.fault ∧ ∀ i, (t.sessions i).outstanding = (s.sessions i).outstanding)
    ⟨rfl, rfl, rfl, fun _ => rfl⟩ fun t i ht => ⟨ht.1, ht.2.1, ht.2.2.1, fun j => ?_⟩
  rw [← ht.2.2.2 j]
  by_cases hji : j = i
  · rw [hji, modifySession_self, shutDown_outstanding]
  · rw [modifySession_other t _ hji]

theorem fault_sendEvent (s : HttpSubscriber) (event : Request) :
    (s.sendEvent event).fault = s.fault := by
  rcases hacq : s.acquire .handleResponse with ⟨u, _ | i⟩
  · rw [sendEvent_none hacq]
    obtain rfl := acquire_same hacq
    rfl
  · rw [sendEvent_some hacq]
    rcases acquire_some hacq with ⟨-, -, rfl⟩ | ⟨-, rfl⟩ <;> rfl

theorem step_sendEvent (h : s.fault = false) : s.step .sendEvent =
    some ({ s with nextEvent := s.nextEvent + 1 }.sendEvent s.nextEvent) := by
  unfold HttpSubscriber.step
  rw [if_neg]
  exact Bool.not_eq_true _ ▸ h

/-- What happens to a subscriber: its events, and that the vector grows. -/
inductive OwnEvent where
  | event (event : Subscriber.Event)
  | moved

def ownStep (s : HttpSubscriber) : OwnEvent → Option HttpSubscriber
  | .event event => s.step event
  | .moved => some (moved s)

def destinations (events : List Event) : List String :=
  events.filterMap fun
    | .addSubscription destUrl => some destUrl
    | _ => none

/-- The events as actions on the subscribers; a full vector grows for the next one. -/
def actions (grow : ℕ → ℕ) : ℕ → ℕ → List Event → List (Action String OwnEvent)
  | _, _, [] => []
  | size, capacity, .addSubscription destUrl :: events =>
    if size < capacity then .add destUrl :: actions grow (size + 1) capacity events
    else .all .moved :: .add destUrl :: actions grow (size + 1) (grow size) events
  | size, capacity, .sendEvent :: events =>
    .all (.event .sendEvent) :: actions grow size capacity events
  | size, capacity, .loop k event :: events =>
    .one k (.event event) :: actions grow size capacity events

theorem added_actions (grow : ℕ → ℕ) (events : List Event) (size capacity : ℕ) :
    added (actions grow size capacity events) = destinations events := by
  induction events generalizing size capacity with
  | nil => rfl
  | cons event events ih =>
    cases event with
    | addSubscription destUrl =>
      rw [actions]
      split_ifs
      · exact congrArg (destUrl :: ·) (ih _ _)
      · exact congrArg (destUrl :: ·) (ih _ _)
    | sendEvent => exact ih _ _
    | loop k event => exact ih _ _

namespace EventServiceManager

variable {isUrl : String → Bool} {grow : ℕ → ℕ} {m m' : EventServiceManager}

theorem sendTo_eq (buffer : ℕ) (elements : List Element) : sendTo isUrl buffer elements =
    ((elements.takeWhile fun element => !element.throws isUrl).map (Element.sendEvent buffer) ++
      elements.dropWhile fun element => !element.throws isUrl,
      elements.any (Element.throws isUrl)) := by
  induction elements with
  | nil => rfl
  | cons element elements ih =>
    rw [sendTo]
    cases hthrows : element.throws isUrl with
    | true => simp [hthrows]
    | false => simp [hthrows, ih]

theorem sendTo_all {buffer : ℕ} {elements : List Element}
    (h : (sendTo isUrl buffer elements).2 = false) :
    (sendTo isUrl buffer elements).1 = elements.map (Element.sendEvent buffer) := by
  rw [sendTo_eq, List.any_eq_false] at h
  rw [sendTo_eq]
  have hall : ∀ element ∈ elements, (!element.throws isUrl) = true := by
    intro element hmem
    simpa using h element hmem
  rw [List.takeWhile_eq_self_iff.2 hall, List.dropWhile_eq_nil_iff.2 hall, List.append_nil]

inductive Steps (isUrl : String → Bool) (grow : ℕ → ℕ) (m : EventServiceManager) :
    Event → EventServiceManager → Prop where
  | fits (destUrl : String) (hsize : m.subscribers.length < m.capacity) :
    Steps isUrl grow m (.addSubscription destUrl)
      { m with subscribers := m.subscribers ++ [{ destUrl, subscriber := newSubscriber }] }
  | grows (destUrl : String) (hsize : ¬ m.subscribers.length < m.capacity) :
    Steps isUrl grow m (.addSubscription destUrl)
      { m.grown grow with
        subscribers := (m.grown grow).subscribers ++ [{ destUrl, subscriber := newSubscriber }] }
  | sendEvent (hthrows : ∀ element ∈ m.subscribers, element.throws isUrl = false) :
    Steps isUrl grow m .sendEvent
      { m with subscribers := m.subscribers.map (Element.sendEvent m.buffer) }
  | loop {k : ℕ} {event : Subscriber.Event} {element : Element} {s : HttpSubscriber}
    (hk : m.subscribers[k]? = some element) (hs : element.subscriber.step event = some s)
    (hevent : event ≠ .sendEvent) (hcallee : element.callee event ∈ [none, some m.buffer])
    (hfault : s.fault = false) :
    Steps isUrl grow m (.loop k event)
      { m with subscribers := m.subscribers.set k (element.called m.buffer s) }

theorem steps_of_step {event : Event} (h : m.step isUrl grow event = some m')
    (hfault : m'.fault = none) : m.fault = none ∧ Steps isUrl grow m event m' := by
  unfold step at h
  split_ifs at h with hnone
  have hm : m.fault = none := by simpa using hnone
  refine ⟨hm, ?_⟩
  cases event with
  | addSubscription destUrl =>
    obtain rfl := Option.some.inj h
    rw [addSubscription]
    by_cases hsize : m.subscribers.length < m.capacity
    · rw [if_pos hsize]
      exact .fits destUrl hsize
    · rw [if_neg hsize]
      exact .grows destUrl hsize
  | sendEvent =>
    obtain rfl := Option.some.inj h
    have hsent : (sendTo isUrl m.buffer m.subscribers).2 = false := by
      by_contra htrue
      rw [Bool.not_eq_false] at htrue
      change (if (sendTo isUrl m.buffer m.subscribers).2 then _ else _) = _ at hfault
      rw [if_pos htrue] at hfault
      cases hfault
    have hsend : m.sendEvent isUrl =
        { m with subscribers := m.subscribers.map (Element.sendEvent m.buffer) } := by
      unfold sendEvent
      dsimp only
      rw [sendTo_all hsent, hsent, if_neg Bool.false_ne_true, hm]
    rw [sendTo_eq, List.any_eq_false] at hsent
    rw [hsend]
    exact .sendEvent fun element hmem => Bool.eq_false_of_not_eq_true (hsent element hmem)
  | loop k event =>
    obtain ⟨element, hk, h⟩ := Option.bind_eq_some_iff.1 h
    obtain ⟨s, hs, h⟩ := Option.bind_eq_some_iff.1 h
    split_ifs at h with hevent hcallee hsfault
    · obtain rfl := Option.some.inj h
      cases hfault
    · obtain rfl := Option.some.inj h
      have hloop : Steps isUrl grow m (.loop k event) _ :=
        .loop hk hs hevent hcallee (Bool.eq_false_of_not_eq_true hsfault)
      rwa [← hm]
    · obtain rfl := Option.some.inj h
      cases hfault

theorem fault_of_run {events : List Event} (hrun : run (step isUrl grow) m events = some m')
    (hfault : m'.fault = none) : m.fault = none := by
  cases events with
  | nil =>
    obtain rfl := Option.some.inj hrun
    exact hfault
  | cons event events =>
    obtain ⟨mid, hstep, -⟩ := Option.bind_eq_some_iff.1 hrun
    unfold step at hstep
    split_ifs at hstep with hnone
    simpa using hnone

theorem Steps.forall_subscribers {P : HttpSubscriber → Prop} (hnew : P newSubscriber)
    (hmoved : ∀ s, P s → P (moved s))
    (hstep : ∀ s event s', P s → s.step event = some s' → s'.fault = false → P s') {event : Event}
    (h : Steps isUrl grow m event m')
    (hsound : ∀ element ∈ m.subscribers, element.subscriber.fault = false)
    (hm : ∀ element ∈ m.subscribers, P element.subscriber) :
    ∀ element ∈ m'.subscribers, P element.subscriber := by
  cases h with
  | fits destUrl =>
    rw [List.forall_mem_append]
    exact ⟨hm, List.forall_mem_singleton.2 hnew⟩
  | grows destUrl =>
    rw [List.forall_mem_append]
    refine ⟨?_, List.forall_mem_singleton.2 hnew⟩
    exact List.forall_mem_map.2 fun element hmem => hmoved _ (hm element hmem)
  | sendEvent =>
    refine List.forall_mem_map.2 fun element hmem => ?_
    have hfault := hsound element hmem
    exact hstep _ .sendEvent _ (hm element hmem) (step_sendEvent hfault)
      ((fault_sendEvent _ _).trans hfault)
  | @loop k event element s hk hs _ _ hfault =>
    intro element' hmem
    rcases List.mem_or_eq_of_mem_set hmem with hmem | rfl
    · exact hm element' hmem
    · exact hstep _ event _ (hm element (List.mem_of_getElem? hk)) hs hfault

theorem Steps.sound {event : Event} (h : Steps isUrl grow m event m')
    (hsound : ∀ element ∈ m.subscribers, element.subscriber.fault = false) :
    ∀ element ∈ m'.subscribers, element.subscriber.fault = false :=
  h.forall_subscribers (P := fun s => s.fault = false) rfl
    (fun s hs => (moved_eq s).2.2.1.trans hs) (fun _ _ _ _ _ hfault => hfault) hsound hsound

theorem run_forall_subscribers {P : HttpSubscriber → Prop} (hnew : P newSubscriber)
    (hmoved : ∀ s, P s → P (moved s))
    (hstep : ∀ s event s', P s → s.step event = some s' → s'.fault = false → P s')
    {events : List Event} (hrun : run (step isUrl grow) m events = some m')
    (hfault : m'.fault = none)
    (hsound : ∀ element ∈ m.subscribers, element.subscriber.fault = false)
    (hm : ∀ element ∈ m.subscribers, P element.subscriber) :
    ∀ element ∈ m'.subscribers, P element.subscriber := by
  induction events generalizing m with
  | nil =>
    obtain rfl := Option.some.inj hrun
    exact hm
  | cons event events ih =>
    obtain ⟨mid, hmid, hrest⟩ := Option.bind_eq_some_iff.1 hrun
    obtain ⟨-, hsteps⟩ := steps_of_step hmid (fault_of_run hrest hfault)
    exact ih hrest (hsteps.sound hsound) (hsteps.forall_subscribers hnew hmoved hstep hsound hm)

theorem run_components {events : List Event} (hrun : run (step isUrl grow) m events = some m')
    (hfault : m'.fault = none)
    (hsound : ∀ element ∈ m.subscribers, element.subscriber.fault = false) :
    run (systemStep (fun _ => newSubscriber) ownStep) (m.subscribers.map Element.subscriber)
      (actions grow m.subscribers.length m.capacity events) =
        some (m'.subscribers.map Element.subscriber) := by
  induction events generalizing m with
  | nil =>
    obtain rfl := Option.some.inj hrun
    rfl
  | cons event events ih =>
    obtain ⟨mid, hstep, hrest⟩ := Option.bind_eq_some_iff.1 hrun
    obtain ⟨-, hsteps⟩ := steps_of_step hstep (fault_of_run hrest hfault)
    have hnext := ih hrest (hsteps.sound hsound)
    cases hsteps with
    | fits destUrl hsize =>
      rw [List.length_append, List.map_append] at hnext
      rw [actions, if_pos hsize, run_cons]
      exact hnext
    | grows destUrl hsize =>
      rw [List.length_append, List.map_append] at hnext
      rw [actions, if_neg hsize, run_cons]
      have hmoved : systemStep (A := String) (fun _ => newSubscriber) ownStep
          (m.subscribers.map Element.subscriber) (.all .moved) =
            some ((m.grown grow).subscribers.map Element.subscriber) := by
        refine (mapM_of_forall (g := moved) fun _ _ => rfl).trans (congrArg some ?_)
        rw [grown, List.map_map, List.map_map]
        rfl
      rw [hmoved]
      have hlength : (m.grown grow).subscribers.length = m.subscribers.length := List.length_map _
      rw [hlength] at hnext
      exact hnext
    | sendEvent =>
      rw [List.length_map] at hnext
      rw [actions, run_cons]
      have hsent : systemStep (A := String) (fun _ => newSubscriber) ownStep
          (m.subscribers.map Element.subscriber) (.all (.event .sendEvent)) =
            some ((m.subscribers.map (Element.sendEvent m.buffer)).map Element.subscriber) := by
        refine (mapM_of_forall (g := fun s : HttpSubscriber =>
          { s with nextEvent := s.nextEvent + 1 }.sendEvent s.nextEvent)
          (List.forall_mem_map.2 fun element hmem => step_sendEvent (hsound element hmem))).trans
            (congrArg some ?_)
        rw [List.map_map, List.map_map]
        rfl
      rw [hsent]
      exact hnext
    | @loop k event element s hk hs _ _ _ =>
      rw [List.length_set] at hnext
      rw [actions, run_cons]
      have hone : systemStep (A := String) (fun _ => newSubscriber) ownStep
          (m.subscribers.map Element.subscriber) (.one k (.event event)) =
            some ((m.subscribers.set k (element.called m.buffer s)).map Element.subscriber) := by
        rw [systemStep, List.getElem?_map, hk, List.map_set]
        change (element.subscriber.step event).bind _ = _
        rw [hs]
        rfl
      rw [hone]
      exact hnext

theorem map_set_of_getElem? {α β : Type} {f : α → β} {l : List α} {k : ℕ} {a b : α}
    (hk : l[k]? = some a) (hf : f b = f a) : (l.set k b).map f = l.map f := by
  obtain ⟨hlt, rfl⟩ := List.getElem?_eq_some_iff.1 hk
  have hmap : k < (l.map f).length := by rwa [List.length_map]
  rw [List.map_set, hf, ← List.getElem_map f (h := hmap), List.set_getElem_self]

theorem destinations_of_run {events : List Event}
    (hrun : run (step isUrl grow) m events = some m') (hfault : m'.fault = none) :
    m'.subscribers.map Element.destUrl =
      m.subscribers.map Element.destUrl ++ destinations events := by
  induction events generalizing m with
  | nil =>
    obtain rfl := Option.some.inj hrun
    exact (List.append_nil _).symm
  | cons event events ih =>
    obtain ⟨mid, hstep, hrest⟩ := Option.bind_eq_some_iff.1 hrun
    obtain ⟨-, hsteps⟩ := steps_of_step hstep (fault_of_run hrest hfault)
    rw [ih hrest]
    cases hsteps with
    | fits destUrl =>
      rw [List.map_append, List.append_assoc]
      rfl
    | grows destUrl =>
      rw [List.map_append, List.append_assoc, grown, List.map_map]
      rfl
    | sendEvent =>
      rw [List.map_map]
      rfl
    | loop hk =>
      exact congrArg (· ++ destinations events) (map_set_of_getElem? hk rfl)

end EventServiceManager

open EventServiceManager

/-- In every run without a fault each subscriber is in the state to which its own events have
brought it, with those of all others left out, and its pool is in order. -/
theorem subscribers_run_alone (isUrl : String → Bool) (grow : ℕ → ℕ) {events : List Event}
    {m : EventServiceManager} (hrun : run (step isUrl grow) {} events = some m)
    (hfault : m.fault = none) {k : ℕ} {element : Element} (hk : m.subscribers[k]? = some element) :
    (destinations events)[k]? = some element.destUrl ∧
      run ownStep newSubscriber (eventsOf k 0 (actions grow 0 0 events)) =
        some element.subscriber ∧ Pooled element.subscriber := by
  have hcomponent : (m.subscribers.map Element.subscriber)[k]? = some element.subscriber := by
    rw [List.getElem?_map, hk]
    rfl
  obtain ⟨s, hs, hsrun⟩ := component_run (run_components hrun hfault nofun) hcomponent
  rw [added_actions, List.map_nil, List.nil_append, List.getElem?_map] at hs
  obtain ⟨-, -, rfl⟩ := Option.map_eq_some_iff.1 hs
  have hdestinations := destinations_of_run hrun hfault
  rw [List.map_nil, List.nil_append] at hdestinations
  refine ⟨?_, hsrun, ?_⟩
  · rw [← hdestinations, List.getElem?_map, hk]
    rfl
  · exact run_forall_subscribers (pooled_start 5 policy) (fun _ => pooled_moved)
      (fun _ _ _ hs hstep _ => pooled_step hs hstep) hrun hfault nofun nofun element
      (List.mem_of_getElem? hk)

/-- Where the subscribers were when the handlers were bound, by the buffer of now. -/
def Placed (R : ℕ → ℕ → Prop) (m : EventServiceManager) : Prop :=
  ∀ element ∈ m.subscribers,
    (∀ i < element.subscriber.created, R (element.sessionBuffer i) m.buffer) ∧
      ∀ r < element.subscriber.made, R (element.retryBuffer r) m.buffer

variable {isUrl : String → Bool} {grow : ℕ → ℕ} {m m' : EventServiceManager}
  {R : ℕ → ℕ → Prop}

theorem placed_append (h : Placed R m) (destUrl : String) :
    Placed R
      { m with subscribers := m.subscribers ++ [{ destUrl, subscriber := newSubscriber }] } := by
  intro element hmem
  rcases List.mem_append.1 hmem with hmem | hmem
  · exact h element hmem
  · obtain rfl := List.mem_singleton.1 hmem
    exact ⟨fun i hi => (Nat.not_lt_zero i hi).elim, fun r hr => (Nat.not_lt_zero r hr).elim⟩

theorem placed_called (hR : ∀ b, R b b) {element : Element}
    (h : (∀ i < element.subscriber.created, R (element.sessionBuffer i) m.buffer) ∧
      ∀ r < element.subscriber.made, R (element.retryBuffer r) m.buffer) (s : HttpSubscriber) :
    (∀ i < s.created, R ((element.called m.buffer s).sessionBuffer i) m.buffer) ∧
      ∀ r < s.made, R ((element.called m.buffer s).retryBuffer r) m.buffer := by
  unfold Element.called
  constructor
  · intro i _
    dsimp only
    split_ifs with hi
    · exact h.1 i hi
    · exact hR _
  · intro r _
    dsimp only
    split_ifs with hr
    · exact h.2 r hr
    · exact hR _

theorem placed_steps (hR : ∀ b, R b b) {event : Event} (h : Steps isUrl grow m event m')
    (hgrown : ∀ destUrl, event = .addSubscription destUrl → ¬ m.subscribers.length < m.capacity →
      Placed R (m.grown grow)) (hm : Placed R m) : Placed R m' := by
  cases h with
  | fits destUrl => exact placed_append hm destUrl
  | grows destUrl hsize => exact placed_append (hgrown destUrl rfl hsize) destUrl
  | sendEvent =>
    exact List.forall_mem_map.2 fun element hmem => placed_called hR (hm element hmem) _
  | @loop k event element s hk =>
    intro element' hmem
    rcases List.mem_or_eq_of_mem_set hmem with hmem | rfl
    · exact hm element' hmem
    · exact placed_called hR (hm element (List.mem_of_getElem? hk)) s

/-- A vector grows only before any of its subscribers has made a session. -/
def GrowsEarly (m : EventServiceManager) : Event → Prop
  | .addSubscription _ => m.subscribers.length < m.capacity ∨
      ∀ element ∈ m.subscribers, element.subscriber.created = 0
  | _ => True

theorem callee_of_placed {buffer : ℕ} {element : Element} (hused : Used element.subscriber)
    (hsession : ∀ i < element.subscriber.created, element.sessionBuffer i = buffer)
    (hretry : ∀ r < element.subscriber.made, element.retryBuffer r = buffer)
    {event : Subscriber.Event} {s : HttpSubscriber} (hs : element.subscriber.step event = some s) :
    element.callee event ∈ [none, some buffer] := by
  have hhandler : ∀ i, (element.subscriber.sessions i).responseHandler.map
      (fun _ => element.sessionBuffer i) ∈ [none, some buffer] := by
    intro i
    cases hsome : (element.subscriber.sessions i).responseHandler with
    | none => exact List.mem_cons_self
    | some handler =>
      have hi := (hused.handled i).1 (by rw [hsome]; rfl)
      rw [Option.map_some, hsession i hi]
      exact List.mem_cons_of_mem _ List.mem_cons_self
  cases Subscriber.steps_of_step hs with
  | fails => exact hhandler _
  | @idleWait i error =>
    cases error with
    | true => exact hhandler _
    | false => exact List.mem_cons_self
  | @timerHandler r hdue =>
    rw [Element.callee, hretry r (hused.waiting r (.inr hdue))]
    exact List.mem_cons_of_mem _ List.mem_cons_self
  | _ => exact List.mem_cons_self

structure InPlace (m : EventServiceManager) : Prop where
  sound : ∀ element ∈ m.subscribers, element.subscriber.fault = false
  used : ∀ element ∈ m.subscribers, Used element.subscriber
  placed : Placed Eq m

theorem placed_grown (hm : InPlace m)
    (hearly : ∀ element ∈ m.subscribers, element.subscriber.created = 0) :
    Placed Eq (m.grown grow) := by
  refine List.forall_mem_map.2 fun element hmem => ?_
  have hcreated := hearly element hmem
  have hmade : element.subscriber.made = 0 := by
    by_contra hne
    have hpos := (hm.used element hmem).created (Nat.pos_of_ne_zero hne)
    omega
  obtain ⟨hmovedCreated, hmovedMade, -, -⟩ := moved_eq element.subscriber
  constructor
  · intro i hi
    dsimp only at hi
    omega
  · intro r hr
    dsimp only at hr
    omega

theorem inPlace_step (hm : InPlace m) {event : Event} (hearly : GrowsEarly m event)
    (hstep : m.step isUrl grow event = some m') :
    m'.fault ≠ some .dangling ∧ (m'.fault = none → InPlace m') := by
  constructor
  · intro hdangling
    unfold step at hstep
    split_ifs at hstep with hnone
    cases event with
    | addSubscription destUrl =>
      obtain rfl := Option.some.inj hstep
      have hfault : (m.addSubscription grow destUrl).fault = m.fault := by
        unfold addSubscription
        split_ifs <;> rfl
      rw [← hfault, hdangling] at hnone
      exact hnone rfl
    | sendEvent =>
      obtain rfl := Option.some.inj hstep
      change (if _ then some Fault.exception else none) = _ at hdangling
      split_ifs at hdangling
      cases hdangling
    | loop k event =>
      obtain ⟨element, hk, hstep⟩ := Option.bind_eq_some_iff.1 hstep
      obtain ⟨s, hs, hstep⟩ := Option.bind_eq_some_iff.1 hstep
      have hmem := List.mem_of_getElem? hk
      have hcallee := callee_of_placed (hm.used element hmem) (hm.placed element hmem).1
        (hm.placed element hmem).2 hs
      rw [if_pos hcallee] at hstep
      split_ifs at hstep
      all_goals
        obtain rfl := Option.some.inj hstep
        cases hdangling
  · intro hfault
    obtain ⟨-, hsteps⟩ := steps_of_step hstep hfault
    refine ⟨hsteps.sound hm.sound, ?_, placed_steps (fun _ => rfl) hsteps ?_ hm.placed⟩
    · exact hsteps.forall_subscribers used_newSubscriber (fun _ => Used.moved)
        (fun _ _ _ hs hstep _ => used_step hs hstep) hm.sound hm.used
    · rintro destUrl rfl hsize
      exact placed_grown hm (hearly.resolve_left hsize)

/-- Where the vector only grows before any of its subscribers has made a session, no handler
is ever called with a subscriber that has been moved. -/
theorem never_dangles (isUrl : String → Bool) (grow : ℕ → ℕ) {events : List Event}
    (h : Guarded (step isUrl grow) GrowsEarly {} events) :
    Always (step isUrl grow) (fun m => m.fault ≠ some .dangling) {} events := by
  refine Always.mono (fun _ hm => hm.1) (always_of_guarded
    (I := fun m : EventServiceManager => m.fault ≠ some .dangling ∧ (m.fault = none → InPlace m))
    ?_ ⟨nofun, fun _ => ⟨nofun, nofun, nofun⟩⟩ h)
  rintro m event m' ⟨-, hm⟩ hearly hstep
  have hnone : m.fault = none := by
    unfold step at hstep
    split_ifs at hstep with hnone
    simpa using hnone
  exact inPlace_step (hm hnone) hearly hstep

theorem placed_run {events : List Event} (hrun : run (step isUrl grow) m events = some m')
    (hfault : m'.fault = none) (hm : Placed (· ≤ ·) m) : Placed (· ≤ ·) m' := by
  induction events generalizing m with
  | nil =>
    obtain rfl := Option.some.inj hrun
    exact hm
  | cons event events ih =>
    obtain ⟨mid, hmid, hrest⟩ := Option.bind_eq_some_iff.1 hrun
    obtain ⟨-, hsteps⟩ := steps_of_step hmid (fault_of_run hrest hfault)
    refine ih hrest (placed_steps le_refl hsteps (fun _ _ _ => ?_) hm)
    refine List.forall_mem_map.2 fun element hmem => ?_
    obtain ⟨hcreated, hmade, -, -⟩ := moved_eq element.subscriber
    refine ⟨fun i hi => ?_, fun r hr => ?_⟩
    · exact ((hm element hmem).1 i (hcreated ▸ hi)).trans (Nat.le_succ _)
    · exact ((hm element hmem).2 r (hmade ▸ hr)).trans (Nat.le_succ _)

theorem step_dangles (hfault : m.fault = none) {k : ℕ} {element : Element}
    (hk : m.subscribers[k]? = some element) {event : Subscriber.Event} {s : HttpSubscriber}
    (hs : element.subscriber.step event = some s) (hevent : event ≠ .sendEvent)
    (hcallee : ¬ element.callee event ∈ [none, some m.buffer]) :
    step isUrl grow m (.loop k event) = some { m with fault := some .dangling } := by
  unfold step
  rw [hfault]
  change m.loop k event = _
  unfold loop
  rw [hk]
  change (element.subscriber.step event).bind _ = _
  rw [hs, Option.bind_some, if_neg hevent, if_neg hcallee]
  rfl

/-- Where the vector is full, one more subscription is enough for the failure of any exchange
that is under way to call a handler with a subscriber that is no longer there. -/
theorem growth_dangles (isUrl : String → Bool) (grow : ℕ → ℕ) {events : List Event}
    {m : EventServiceManager} (hrun : run (step isUrl grow) {} events = some m)
    (hfault : m.fault = none) (hfull : ¬ m.subscribers.length < m.capacity) {k : ℕ}
    {element : Element} (hk : m.subscribers[k]? = some element) {i : ℕ} {op : Operation}
    (hop : op ∈ (element.subscriber.sessions i).outstanding) (destUrl : String) :
    ∃ m', run (step isUrl grow) m [.addSubscription destUrl, .loop k (.fails i op)] = some m' ∧
      m'.fault = some .dangling := by
  have hmem := List.mem_of_getElem? hk
  have hused : Used element.subscriber :=
    run_forall_subscribers used_newSubscriber (fun _ => Used.moved)
      (fun _ _ _ hs hstep _ => used_step hs hstep) hrun hfault nofun nofun element hmem
  have hpooled : Pooled element.subscriber :=
    run_forall_subscribers (pooled_start 5 policy) (fun _ => pooled_moved)
      (fun _ _ _ hs hstep _ => pooled_step hs hstep) hrun hfault nofun nofun element hmem
  have hsound : element.subscriber.fault = false :=
    run_forall_subscribers (P := fun s => s.fault = false) rfl
      (fun s hs => (moved_eq s).2.2.1.trans hs) (fun _ _ _ _ _ hs => hs) hrun hfault nofun nofun
      element hmem
  have hi : i < element.subscriber.created := by
    by_contra hle
    rw [hpooled.uncreated i (Nat.le_of_not_lt hle)] at hop
    cases hop
  have hplaced := (placed_run hrun hfault nofun element hmem).1 i hi
  have hadded : step isUrl grow m (.addSubscription destUrl) = some
      { m.grown grow with
        subscribers :=
          (m.grown grow).subscribers ++ [{ destUrl, subscriber := newSubscriber }] } := by
    unfold step
    rw [hfault]
    change some (m.addSubscription grow destUrl) = _
    rw [addSubscription, if_neg hfull]
  obtain ⟨-, -, hmovedFault, hmovedOutstanding⟩ := moved_eq element.subscriber
  have hlater : ∃ s, (moved element.subscriber).step (.fails i op) = some s := by
    refine ⟨(moved element.subscriber).fails i op, ?_⟩
    unfold HttpSubscriber.step
    rw [hmovedFault, hsound, if_neg Bool.false_ne_true]
    exact if_pos (by rwa [hmovedOutstanding])
  obtain ⟨s, hs⟩ := hlater
  let element' : Element := { element with subscriber := moved element.subscriber }
  have hcallee : ¬ element'.callee (.fails i op) ∈ [none, some (m.buffer + 1)] := by
    have hsome := (hused.moved.handled i).2 ((moved_eq element.subscriber).1 ▸ hi)
    obtain ⟨handler, hhandler⟩ := Option.isSome_iff_exists.1 hsome
    rw [Element.callee, hhandler, Option.map_some]
    simp only [List.mem_cons, reduceCtorEq, Option.some.injEq, List.not_mem_nil, or_false, false_or]
    exact ne_of_lt (Nat.lt_succ_of_le hplaced)
  have hk' : ((m.grown grow).subscribers ++ [{ destUrl, subscriber := newSubscriber }])[k]? =
      some element' := by
    have hlt := (List.getElem?_eq_some_iff.1 hk).1
    rw [List.getElem?_append_left (by rwa [grown, List.length_map]), grown, List.getElem?_map, hk]
    rfl
  let m₁ : EventServiceManager := { m.grown grow with
    subscribers := (m.grown grow).subscribers ++ [{ destUrl, subscriber := newSubscriber }] }
  have hevent : Subscriber.Event.fails i op ≠ .sendEvent := nofun
  have hdangles : step isUrl grow m₁ (.loop k (.fails i op)) =
      some { m₁ with fault := some .dangling } :=
    step_dangles (m := m₁) hfault hk' hs hevent hcallee
  refine ⟨{ m₁ with fault := some .dangling }, ?_, rfl⟩
  rw [run_cons, hadded, Option.bind_some, run_cons, hdangles]
  rfl

def Unsent (isUrl : String → Bool) (m : EventServiceManager) : Prop :=
  ∀ element ∈ m.subscribers, isUrl element.destUrl = false → element.subscriber = newSubscriber

theorem initializes_newSubscriber {element : Element} (h : element.subscriber = newSubscriber) :
    element.initializes = true := by
  rw [Element.initializes, h]
  rfl

theorem newSubscriber_step {event : Subscriber.Event} (h : event ≠ .sendEvent) :
    newSubscriber.step event = none := by
  cases event with
  | sendEvent => exact (h rfl).elim
  | idleWait i error => rfl
  | _ => rfl

theorem unsent_steps {event : Event} (h : Steps isUrl grow m event m') (hm : Unsent isUrl m) :
    Unsent isUrl m' := by
  cases h with
  | fits destUrl =>
    exact List.forall_mem_append.2 ⟨hm, List.forall_mem_singleton.2 fun _ => rfl⟩
  | grows destUrl =>
    refine List.forall_mem_append.2 ⟨?_, List.forall_mem_singleton.2 fun _ => rfl⟩
    refine List.forall_mem_map.2 fun element hmem hbad => ?_
    exact congrArg moved (hm element hmem hbad)
  | sendEvent hthrows =>
    refine List.forall_mem_map.2 fun element hmem hbad => ?_
    have hthrows' := hthrows element hmem
    have hbad' : isUrl element.destUrl = false := hbad
    rw [Element.throws, hbad', initializes_newSubscriber (hm element hmem hbad')] at hthrows'
    cases hthrows'
  | @loop k event element s hk hs hevent =>
    intro element' hmem hbad
    rcases List.mem_or_eq_of_mem_set hmem with hmem | rfl
    · exact hm element' hmem hbad
    · rw [hm element (List.mem_of_getElem? hk) hbad, newSubscriber_step hevent] at hs
      cases hs

theorem unsent_run {events : List Event} (hrun : run (step isUrl grow) m events = some m')
    (hfault : m'.fault = none) (hm : Unsent isUrl m) : Unsent isUrl m' := by
  induction events generalizing m with
  | nil =>
    obtain rfl := Option.some.inj hrun
    exact hm
  | cons event events ih =>
    obtain ⟨mid, hmid, hrest⟩ := Option.bind_eq_some_iff.1 hrun
    obtain ⟨-, hsteps⟩ := steps_of_step hmid (fault_of_run hrest hfault)
    exact ih hrest (unsent_steps hsteps hm)

theorem sendTo_of_throws {buffer : ℕ} {elements : List Element}
    (h : ∀ element ∈ elements, element.throws isUrl = !isUrl element.destUrl) :
    sendTo isUrl buffer elements =
      ((elements.takeWhile fun element => isUrl element.destUrl).map (Element.sendEvent buffer) ++
        elements.dropWhile fun element => isUrl element.destUrl,
        !(elements.map Element.destUrl).all isUrl) := by
  induction elements with
  | nil => rfl
  | cons element elements ih =>
    rw [List.forall_mem_cons] at h
    rw [sendTo, h.1, ih h.2]
    cases hurl : isUrl element.destUrl <;> simp [hurl]

theorem invalid_destination_ends (isUrl : String → Bool) (grow : ℕ → ℕ) {events : List Event}
    {m : EventServiceManager} (hrun : run (step isUrl grow) {} events = some m)
    (hfault : m.fault = none) : ∃ m', m.step isUrl grow .sendEvent = some m' ∧
      m'.fault = (if (destinations events).all isUrl then none else some .exception) ∧
      m'.subscribers =
        (m.subscribers.takeWhile fun element => isUrl element.destUrl).map
          (Element.sendEvent m.buffer) ++
            m.subscribers.dropWhile fun element => isUrl element.destUrl := by
  have hunsent := unsent_run hrun hfault nofun
  have hdestinations := destinations_of_run hrun hfault
  rw [List.map_nil, List.nil_append] at hdestinations
  have hthrows : ∀ element ∈ m.subscribers, element.throws isUrl = !isUrl element.destUrl := by
    intro element hmem
    rw [Element.throws]
    cases hurl : isUrl element.destUrl with
    | true => exact Bool.and_false _
    | false =>
      rw [initializes_newSubscriber (hunsent element hmem hurl)]
      rfl
  have hsent : sendTo isUrl m.buffer m.subscribers = _ := sendTo_of_throws hthrows
  rw [hdestinations] at hsent
  refine ⟨m.sendEvent isUrl, ?_, ?_, ?_⟩
  · unfold step
    rw [hfault]
    rfl
  · unfold sendEvent
    rw [hsent]
    cases (destinations events).all isUrl <;> rfl
  · unfold sendEvent
    rw [hsent]

def doubled (size : ℕ) : ℕ := max 1 (2 * size)

def sampleEvents : List Event :=
  [.addSubscription "https://a/", .sendEvent, .addSubscription "https://b/", .sendEvent]

theorem subscribers_run_alone_sample : ∃ m element,
    run (step (fun _ => true) doubled) {} sampleEvents = some m ∧
      m.subscribers[1]? = some element ∧
        run ownStep newSubscriber [.event .sendEvent] = some element.subscriber := by
  obtain ⟨m, element, hrun, hfault, hk⟩ : ∃ m element,
      run (step (fun _ => true) doubled) {} sampleEvents = some m ∧ m.fault = none ∧
        m.subscribers[1]? = some element := ⟨_, _, rfl, rfl, rfl⟩
  exact ⟨m, element, hrun, hk, (subscribers_run_alone _ doubled hrun hfault hk).2.1⟩

/-- Both subscriptions come before the first test event. -/
theorem never_dangles_sample :
    let events := [.addSubscription "https://a/", .addSubscription "https://b/", .sendEvent,
      .loop 0 (.fails 0 .resolve)]
    (run (step (fun _ => true) doubled) {} events).isSome ∧
      Always (step (fun _ => true) doubled) (fun m => m.fault ≠ some .dangling) {} events := by
  intro events
  refine ⟨rfl, never_dangles (fun _ => true) doubled ?_⟩
  intro m hm
  obtain rfl := Option.some.inj hm
  refine ⟨.inr nofun, fun m hm => ?_⟩
  obtain rfl := Option.some.inj hm
  refine ⟨.inr (List.forall_mem_singleton.2 rfl), fun m hm => ?_⟩
  obtain rfl := Option.some.inj hm
  exact ⟨trivial, fun m hm => ⟨trivial, trivial⟩⟩

theorem growth_dangles_sample : ∃ m m',
    run (step (fun _ => true) doubled) {} (sampleEvents.take 2) = some m ∧
      run (step (fun _ => true) doubled) m
        [.addSubscription "https://b/", .loop 0 (.fails 0 .resolve)] = some m' ∧
          m'.fault = some .dangling := by
  obtain ⟨m, element, hrun, hfault, hfull, hk, hop⟩ : ∃ m element,
      run (step (fun _ => true) doubled) {} (sampleEvents.take 2) = some m ∧ m.fault = none ∧
        ¬ m.subscribers.length < m.capacity ∧ m.subscribers[0]? = some element ∧
          Operation.resolve ∈ (element.subscriber.sessions 0).outstanding :=
    ⟨_, _, rfl, rfl, by decide, rfl, by decide⟩
  obtain ⟨m', hdangles⟩ := growth_dangles _ doubled hrun hfault hfull hk hop "https://b/"
  exact ⟨m, m', hrun, hdangles⟩

end CrowCore.EventManager
