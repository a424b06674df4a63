import CrowCore.ClientSession

set_option autoImplicit false

/-!
# The event subscriber

`HttpSubscriber` sends each event with a session of its `HttpClientPool`, or
buffers it, and runs the request of a failed session again after a delay. The
steps of the event loop are the completions of what sessions and timers have
started.
-/
namespace CrowCore.Subscriber
open ClientSession

structure RetryPolicy where
  maxRetries : ℤ := 3
  retryCount : ℕ := 0
  retryDelay : ℕ := 15
deriving DecidableEq, Repr

def RetryPolicy.retryNeeded (policy : RetryPolicy) : Bool :=
  policy.maxRetries < 0 || policy.retryCount < policy.maxRetries

def RetryPolicy.incrementRetryCount (policy : RetryPolicy) : RetryPolicy :=
  { policy with retryCount := policy.retryCount + 1 }

/-- Requests are known by the number of the event whose data they carry. -/
abbrev Request := ℕ

/-- What the response handler of a session is bound to. -/
inductive ResponseHandler where
  | handleResponse
  | handleRetryResponse (retryRequest : ℕ)
deriving DecidableEq, Repr

abbrev Session := HttpSession Request ResponseHandler

structure RetryRequest where
  req : Option Request := none
  policy : RetryPolicy := {}
  /-- a wait on the timer is pending -/
  armed : Bool := false
  /-- waits that have expired, their handler not yet run -/
  due : ℕ := 0
  /-- the request it was made with -/
  madeFor : Option Request := none
deriving DecidableEq, Repr

inductive LogEntry where
  | run (req : Request)
  | failedRun (req : Request)
  | delivered (req : Request)
deriving DecidableEq, Repr

/-- The response as the handler gets it; a response says whether to keep the
connection alive. -/
inductive HttpExpected where
  | error
  | response (keepAlive : Bool)
deriving DecidableEq, Repr

/-- Sessions and retry requests are known by the order of their creation. The
log only records what happened. -/
structure HttpSubscriber where
  sessions : ℕ → Session := fun _ => { stream := .asyncSsl }
  created : ℕ := 0
  pool : List ℕ := []
  poolSize : ℕ := 5
  retryPolicy : RetryPolicy := {}
  eventBuffer : List Request := []
  retryRequests : ℕ → RetryRequest := fun _ => {}
  made : ℕ := 0
  nextEvent : ℕ := 0
  /-- a null or a destroyed session was used -/
  fault : Bool := false
  log : List LogEntry := []

def eventBufferCapacity : ℕ := 100

/-- `push_back` of a circular buffer: a full one loses its front. -/
def pushBack (buffer : List Request) (req : Request) : List Request :=
  (buffer ++ [req]).drop (buffer.length + 1 - eventBufferCapacity)

namespace HttpSubscriber

def modifySession (s : HttpSubscriber) (i : ℕ) (f : Session → Session) : HttpSubscriber :=
  { s with sessions := Function.update s.sessions i (f (s.sessions i)) }

def modifyRetry (s : HttpSubscriber) (r : ℕ) (f : RetryRequest → RetryRequest) : HttpSubscriber :=
  { s with retryRequests := Function.update s.retryRequests r (f (s.retryRequests r)) }

/-- A session that is not in use, or a new one with this handler. -/
def acquire (s : HttpSubscriber) (handler : ResponseHandler) : HttpSubscriber × Option ℕ :=
  match s.pool.find? fun i => !(s.sessions i).inUse with
  | some i => (s, some i)
  | none =>
    if s.pool.length < s.poolSize then
      ({ s with
          sessions := Function.update s.sessions s.created
            { stream := .asyncSsl, responseHandler := some handler }
          created := s.created + 1
          pool := s.pool ++ [s.created] }, some s.created)
    else (s, none)

def release (s : HttpSubscriber) (i : ℕ) : HttpSubscriber := { s with pool := s.pool.erase i }

def runSession (s : HttpSubscriber) (i : ℕ) (req : Option Request) : HttpSubscriber :=
  { s.modifySession i (·.run req) with log := s.log ++ (req.map LogEntry.run).toList }

def sendEvent (s : HttpSubscriber) (event : Request) : HttpSubscriber :=
  match s.acquire .handleResponse with
  | (s, some i) => s.runSession i (some event)
  | (s, none) => { s with eventBuffer := pushBack s.eventBuffer event }

def sendNext (s : HttpSubscriber) : HttpSubscriber :=
  match s.eventBuffer with
  | [] => s
  | next :: eventBuffer => { s with eventBuffer }.sendEvent next

def processResponse (s : HttpSubscriber) (i : ℕ) (keepAlive : Bool) : HttpSubscriber :=
  (if !keepAlive then s.release i else s).sendNext

/-- `waitAndRetry`; setting the expiry of the timer cancels a pending wait. -/
def waitAndRetry (s : HttpSubscriber) (r : ℕ) : HttpSubscriber :=
  if (s.retryRequests r).policy.retryNeeded then
    s.modifyRetry r fun retry =>
      { retry with policy := retry.policy.incrementRetryCount, armed := true }
  else s

/-- Only a request that is retried is moved out of its session. -/
def retryIfNeeded (s : HttpSubscriber) (i : ℕ) : HttpSubscriber :=
  if !s.retryPolicy.retryNeeded then s
  else
    let taken := (s.sessions i).takeRequest
    { s.modifySession i fun _ => taken.2 with
      retryRequests := Function.update s.retryRequests s.made
        { req := taken.1, policy := s.retryPolicy, madeFor := taken.1 }
      made := s.made + 1 }.waitAndRetry s.made

def handleResponse (s : HttpSubscriber) (i : ℕ) : HttpExpected → HttpSubscriber
  | .error => (s.release i).retryIfNeeded i
  | .response keepAlive => s.processResponse i keepAlive

def handleRetryResponse (s : HttpSubscriber) (i r : ℕ) : HttpExpected → HttpSubscriber
  | .error =>
    let taken := (s.sessions i).takeRequest
    let s := (s.modifySession i fun _ => taken.2).modifyRetry r fun retry =>
      { retry with req := taken.1 }
    (s.release i).waitAndRetry r
  | .response keepAlive => s.processResponse i keepAlive

def respond (s : HttpSubscriber) (i : ℕ) (response : HttpExpected) : HttpSubscriber :=
  match (s.sessions i).responseHandler with
  | none => s
  | some .handleResponse => s.handleResponse i response
  | some (.handleRetryResponse r) => s.handleRetryResponse i r response

/-- The error handler that `setErrorHandler` gives to the stream. -/
def fail (s : HttpSubscriber) (i : ℕ) : HttpSubscriber :=
  (s.respond i .error).modifySession i HttpSession.shutDown

/-- Runs when the timer has expired; a null session is used without a test. -/
def retryFunction (s : HttpSubscriber) (r : ℕ) : HttpSubscriber :=
  match s.acquire (.handleRetryResponse r) with
  | (s, some i) =>
    let req := (s.retryRequests r).req
    (s.modifyRetry r fun retry => { retry with req := none }).runSession i req
  | (s, none) => { s with fault := true }

end HttpSubscriber

inductive Event where
  | sendEvent
  | succeeds (session : ℕ) (op : Operation) (keepAlive : Bool)
  | fails (session : ℕ) (op : Operation)
  | idleWait (session : ℕ) (error : Bool)
  | shutDown (session : ℕ)
  | timerExpires (retryRequest : ℕ)
  | timerHandler (retryRequest : ℕ)
deriving DecidableEq, Repr

namespace HttpSubscriber

/-- `on_read` does not reach a response handler, so that a success changes
nothing but the session. -/
def succeeds (s : HttpSubscriber) (i : ℕ) (op : Operation) (keepAlive : Bool) : HttpSubscriber :=
  let s' := s.modifySession i (·.complete op keepAlive)
  if op = .read then
    { s' with log := s.log ++ ((s.sessions i).req.map LogEntry.delivered).toList }
  else s'

def fails (s : HttpSubscriber) (i : ℕ) (op : Operation) : HttpSubscriber :=
  let log := s.log ++ ((s.sessions i).req.map LogEntry.failedRun).toList
  { s.modifySession i fun session =>
      { session with outstanding := session.outstanding.erase op } with log }.fail i

/-- A session that was released lives only as long as it has an operation. -/
def alive (s : HttpSubscriber) (i : ℕ) : Bool :=
  s.pool.contains i || !(s.sessions i).outstanding.isEmpty

def idleWait (s : HttpSubscriber) (i : ℕ) (error : Bool) : HttpSubscriber :=
  let s' := s.modifySession i fun session => { session with idleWaits := session.idleWaits - 1 }
  if error then if s.alive i then s'.fail i else { s' with fault := true } else s'

def step (s : HttpSubscriber) (event : Event) : Option HttpSubscriber :=
  if s.fault then none
  else
    match event with
    | .sendEvent => some ({ s with nextEvent := s.nextEvent + 1 }.sendEvent s.nextEvent)
    | .succeeds i op keepAlive =>
      if op ∈ (s.sessions i).outstanding then some (s.succeeds i op keepAlive) else none
    | .fails i op => if op ∈ (s.sessions i).outstanding then some (s.fails i op) else none
    | .idleWait i error => if 0 < (s.sessions i).idleWaits then some (s.idleWait i error) else none
    | .shutDown i =>
      if 0 < (s.sessions i).shutDowns then
        some (s.modifySession i fun session => { session with shutDowns := session.shutDowns - 1 })
      else none
    | .timerExpires r =>
      if (s.retryRequests r).armed then
        some (s.modifyRetry r fun retry => { retry with armed := false, due := retry.due + 1 })
      else none
    | .timerHandler r =>
      if 0 < (s.retryRequests r).due then
        some ((s.modifyRetry r fun retry => { retry with due := retry.due - 1 }).retryFunction r)
      else none

end HttpSubscriber

def start (poolSize : ℕ) (retryPolicy : RetryPolicy) : HttpSubscriber := { poolSize, retryPolicy }

inductive Steps (s : HttpSubscriber) : Event → HttpSubscriber → Prop where
  | sendEvent : Steps s .sendEvent ({ s with nextEvent := s.nextEvent + 1 }.sendEvent s.nextEvent)
  | succeeds {i : ℕ} {op : Operation} (keepAlive : Bool) (hop : op ∈ (s.sessions i).outstanding) :
      Steps s (.succeeds i op keepAlive) (s.succeeds i op keepAlive)
  | fails {i : ℕ} {op : Operation} (hop : op ∈ (s.sessions i).outstanding) :
      Steps s (.fails i op) (s.fails i op)
  | idleWait {i : ℕ} (error : Bool) (hwait : 0 < (s.sessions i).idleWaits) :
      Steps s (.idleWait i error) (s.idleWait i error)
  | shutDown {i : ℕ} (hshut : 0 < (s.sessions i).shutDowns) : Steps s (.shutDown i)
      (s.modifySession i fun session => { session with shutDowns := session.shutDowns - 1 })
  | timerExpires {r : ℕ} (harmed : (s.retryRequests r).armed) : Steps s (.timerExpires r)
      (s.modifyRetry r fun retry => { retry with armed := false, due := retry.due + 1 })
  | timerHandler {r : ℕ} (hdue : 0 < (s.retryRequests r).due) : Steps s (.timerHandler r)
      ((s.modifyRetry r fun retry => { retry with due := retry.due - 1 }).retryFunction r)

theorem steps_of_step {s s' : HttpSubscriber} {event : Event} (h : s.step event = some s') :
    Steps s event s' := by
  unfold HttpSubscriber.step at h
  split_ifs at h
  cases event with
  | sendEvent =>
    obtain rfl := Option.some.inj h
    exact .sendEvent
  | succeeds i op keepAlive =>
    obtain ⟨hop, h⟩ := Option.ite_none_right_eq_some.1 h
    obtain rfl := Option.some.inj h
    exact .succeeds keepAlive hop
  | fails i op =>
    obtain ⟨hop, h⟩ := Option.ite_none_right_eq_some.1 h
    obtain rfl := Option.some.inj h
    exact .fails hop
  | idleWait i error =>
    obtain ⟨hwait, h⟩ := Option.ite_none_right_eq_some.1 h
    obtain rfl := Option.some.inj h
    exact .idleWait error hwait
  | shutDown i =>
    obtain ⟨hshut, h⟩ := Option.ite_none_right_eq_some.1 h
    obtain rfl := Option.some.inj h
    exact .shutDown hshut
  | timerExpires r =>
    obtain ⟨harmed, h⟩ := Option.ite_none_right_eq_some.1 h
    obtain rfl := Option.some.inj h
    exact .timerExpires harmed
  | timerHandler r =>
    obtain ⟨hdue, h⟩ := Option.ite_none_right_eq_some.1 h
    obtain rfl := Option.some.inj h
    exact .timerHandler hdue

@[simp] theorem modifySession_self (s : HttpSubscriber) (i : ℕ) (f : Session → Session) :
    (s.modifySession i f).sessions i = f (s.sessions i) := Function.update_self ..

theorem modifySession_other (s : HttpSubscriber) (f : Session → Session) {i j : ℕ} (hji : j ≠ i) :
    (s.modifySession i f).sessions j = s.sessions j := Function.update_of_ne hji ..

@[simp] theorem runSession_self (s : HttpSubscriber) (i : ℕ) (req : Option Request) :
    (s.runSession i req).sessions i = (s.sessions i).run req := Function.update_self ..

theorem runSession_other (s : HttpSubscriber) (req : Option Request) {i j : ℕ} (hji : j ≠ i) :
    (s.runSession i req).sessions j = s.sessions j := Function.update_of_ne hji ..

theorem acquire_some {s s' : HttpSubscriber} {handler : ResponseHandler} {i : ℕ}
    (h : s.acquire handler = (s', some i)) :
    (i ∈ s.pool ∧ (s.sessions i).inUse = false ∧ s' = s) ∨
      (i = s.created ∧ s' = { s with
        sessions := Function.update s.sessions s.created
          { stream := .asyncSsl, responseHandler := some handler }
        created := s.created + 1
        pool := s.pool ++ [s.created] }) := by
  unfold HttpSubscriber.acquire at h
  split at h
  · rename_i j hj
    obtain ⟨rfl, hi⟩ := Prod.mk.inj h
    obtain rfl := Option.some.inj hi
    exact .inl ⟨List.mem_of_find?_eq_some hj, by simpa using List.find?_some hj, rfl⟩
  · split_ifs at h
    · obtain ⟨rfl, hi⟩ := Prod.mk.inj h
      obtain rfl := Option.some.inj hi
      exact .inr ⟨rfl, rfl⟩
    · cases (Prod.mk.inj h).2

theorem acquire_same {s s' : HttpSubscriber} {handler : ResponseHandler}
    (h : s.acquire handler = (s', none)) : s' = s := by
  unfold HttpSubscriber.acquire at h
  split at h
  · cases h
  · split_ifs at h
    · cases (Prod.mk.inj h).2
    · exact (Prod.mk.inj h).1.symm

theorem acquire_retryRequests {s s' : HttpSubscriber} {handler : ResponseHandler} {i : ℕ}
    (h : s.acquire handler = (s', some i)) : s'.retryRequests = s.retryRequests := by
  rcases acquire_some h with ⟨-, -, rfl⟩ | ⟨-, rfl⟩ <;> rfl

theorem acquire_log {s s' : HttpSubscriber} {handler : ResponseHandler} {i : ℕ}
    (h : s.acquire handler = (s', some i)) : s'.log = s.log := by
  rcases acquire_some h with ⟨-, -, rfl⟩ | ⟨-, rfl⟩ <;> rfl

theorem acquire_nextEvent {s s' : HttpSubscriber} {handler : ResponseHandler} {i : ℕ}
    (h : s.acquire handler = (s', some i)) : s'.nextEvent = s.nextEvent := by
  rcases acquire_some h with ⟨-, -, rfl⟩ | ⟨-, rfl⟩ <;> rfl

theorem acquire_modifyRetry (s : HttpSubscriber) (handler : ResponseHandler) (r : ℕ)
    (f : RetryRequest → RetryRequest) : (s.modifyRetry r f).acquire handler =
      ((s.acquire handler).1.modifyRetry r f, (s.acquire handler).2) := by
  rcases hfind : s.pool.find? fun i => !(s.sessions i).inUse with _ | i
  · by_cases hlt : s.pool.length < s.poolSize <;>
      simp [HttpSubscriber.acquire, HttpSubscriber.modifyRetry, hfind, hlt]
  · simp [HttpSubscriber.acquire, HttpSubscriber.modifyRetry, hfind]

theorem sendEvent_none {s s' : HttpSubscriber} {event : Request}
    (h : s.acquire .handleResponse = (s', none)) :
    s.sendEvent event = { s' with eventBuffer := pushBack s'.eventBuffer event } := by
  rw [HttpSubscriber.sendEvent, h]

theorem sendEvent_some {s s' : HttpSubscriber} {event : Request} {i : ℕ}
    (h : s.acquire .handleResponse = (s', some i)) :
    s.sendEvent event = s'.runSession i (some event) := by
  rw [HttpSubscriber.sendEvent, h]

end CrowCore.Subscriber
