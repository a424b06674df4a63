import CrowCore.IncrementalParser

set_option autoImplicit false

/-!
# A server connection

`Connection` reads a request, passes it to the handler and writes the response
that the handler completes. The steps of the event loop are the completions of
its operations and timer waits, and the uses that the handler makes of a
response. The contents of a response other than its status are left out.
-/
namespace CrowCore.HttpConnection
open IncrementalParser

def loggedOutPostBodyLimit : ℕ := 4096

def bufferCapacity : ℕ := 8192

/-- The adaptor is an `ssl_stream` or not; `BMCWEB_INSECURE_DISABLE_AUTHX` is
not defined or it is; `bmcwebEnableHTTP2`. -/
structure Build where
  ssl : Bool
  authx : Bool := false
  http2 : Bool := false
deriving DecidableEq, Repr

structure Message where
  target : String
  /-- `parse_relative_ref` accepts the target -/
  targetParses : Bool := true
  version : ℕ := 11
  host : String
  keepAlive : Bool := true
  isUpgrade : Bool := false
  upgrade : String := ""
  acceptsEventStream : Bool := false
  ifNoneMatch : String := ""
  contentLength : Option ℕ := none
  isOnAllowlist : Bool := false
  /-- the status that `sendUnauthorized` would set -/
  unauthorizedResult : ℕ := 401
deriving DecidableEq, Repr

abbrev RequestParser (P : Type) := Incremental P UInt8 Message

/-- The two completion handlers that `handle` installs. -/
inductive CompleteRequestHandler where
  | completeRequest
  | completeUnlessOk
deriving DecidableEq, Repr

structure Response where
  result : ℕ := 200
  keepAlive : Bool := true
  expectedHash : Option String := none
  completed : Bool := false
  completeRequestHandler : Option CompleteRequestHandler := none
  isAliveHelper : Bool := false
deriving DecidableEq, Repr

namespace Response

/-- `operator=` from another response, and what is left of that one. The
expected hash is not moved. -/
def moveAssign (res r : Response) : Response × Response :=
  ({ res with
      result := r.result
      keepAlive := r.keepAlive
      completed := r.completed
      completeRequestHandler := if r.completed then none else r.completeRequestHandler
      isAliveHelper := r.isAliveHelper },
    { r with
      completeRequestHandler := if r.completed then r.completeRequestHandler else none
      isAliveHelper := false })

def setCompleteRequestHandler (res : Response) (handler : Option CompleteRequestHandler) :
    Response :=
  { res with completeRequestHandler := handler, completed := false }

def clear (res : Response) : Response :=
  { res with result := 200, keepAlive := true, completed := false, expectedHash := none }

end Response

structure AsyncResp where
  res : Response := {}
  alive : Bool := false
deriving DecidableEq, Repr

/-- What a handler does before it returns: the status it sets, how often it
ends the response and whether it keeps a reference. -/
structure HandlerRun where
  result : ℕ := 200
  ends : ℕ := 0
  keeps : Bool := false
deriving DecidableEq, Repr

inductive Operation where
  | handshake
  | readHeader
  /-- some of the message has been consumed -/
  | readSome (consumed : Bool)
  | write
deriving DecidableEq, Repr

/-- A wait on the timer whose handler has not run. -/
inductive Wait where
  | waiting
  | aborted
  | expired
deriving DecidableEq, Repr

def Wait.cancel : Wait → Wait
  | .waiting => .aborted
  | wait => wait

def Wait.expire : Wait → Wait
  | .waiting => .expired
  | wait => wait

inductive LogEntry where
  | doReadHeaders
  | handle (req : Message)
  | handleUpgrade (req : Message)
  | completeRequest
  | doWrite
deriving DecidableEq, Repr

/-- Asynchronous responses are known by the order of their creation. The log
only records what happened. -/
structure Connection (P : Type) where
  build : Build
  adaptorOpen : Bool := true
  outstanding : List Operation := []
  parser : P
  buffer : List UInt8 := []
  req : Option Message := none
  res : Response := {}
  userSession : Bool := false
  keepAlive : Bool := true
  timerStarted : Bool := false
  waits : List Wait := []
  asyncResps : ℕ → AsyncResp := fun _ => {}
  created : ℕ := 0
  log : List LogEntry := []

namespace Connection
variable {P : Type}

def isAlive (c : Connection P) : Bool := if c.build.ssl then c.adaptorOpen else true

def close (c : Connection P) : Connection P := { c with adaptorOpen := false }

def cancelDeadlineTimer (c : Connection P) : Connection P :=
  { c with waits := c.waits.map Wait.cancel }

/-- Setting the expiry of the timer cancels a pending wait. -/
def startDeadline (c : Connection P) : Connection P :=
  if c.timerStarted then c
  else { c with waits := c.waits.map Wait.cancel ++ [.waiting], timerStarted := true }

def doWrite (c : Connection P) : Connection P :=
  let c := { c with log := c.log ++ [LogEntry.doWrite] }.startDeadline
  { c with outstanding := c.outstanding ++ [Operation.write] }

/-- `completeRequest` once the response has been moved into `res`. -/
def writeResponse (c : Connection P) : Connection P :=
  let c := { c with
    res := { c.res with keepAlive := c.keepAlive }, log := c.log ++ [LogEntry.completeRequest] }
  if !c.isAlive then { c with res := c.res.setCompleteRequestHandler none }
  else
    let c := c.doWrite
    { c with res := c.res.setCompleteRequestHandler none }

/-- `completeRequest` with a response other than `res`. -/
def completeRequest (c : Connection P) (thisRes : Response) : Connection P × Response :=
  if c.req.isNone then (c, thisRes)
  else
    let moved := c.res.moveAssign thisRes
    ({ c with res := moved.1 }.writeResponse, moved.2)

/-- `completeRequest(res)`, with this status: the assignment does nothing. -/
def completeOwn (c : Connection P) (result : ℕ) : Connection P :=
  let c := { c with res := { c.res with result := result } }
  if c.req.isNone then c else c.writeResponse

def setResponse (c : Connection P) (k : ℕ) (res : Response) : Connection P :=
  { c with asyncResps := Function.update c.asyncResps k { c.asyncResps k with res := res } }

def completed (c : Connection P) (k : ℕ) : Connection P :=
  let done := c.completeRequest (c.asyncResps k).res
  done.1.setResponse k done.2

def endResponse (c : Connection P) (k : ℕ) : Connection P :=
  let res := (c.asyncResps k).res
  if res.completed then c
  else
    let c := c.setResponse k { res with completed := true }
    match res.completeRequestHandler with
    | none => c
    | some .completeRequest => c.completed k
    | some .completeUnlessOk => if res.result ≠ 200 then c.completed k else c

def dropResponse (c : Connection P) (k : ℕ) : Connection P :=
  let c := c.endResponse k
  { c with asyncResps := Function.update c.asyncResps k { c.asyncResps k with alive := false } }

def newResponse (c : Connection P) (handler : CompleteRequestHandler) (result : ℕ) :
    Connection P :=
  let res : Response := { result := result, completeRequestHandler := some handler }
  { c with
    asyncResps := Function.update c.asyncResps c.created { res := res, alive := true }
    created := c.created + 1 }

def dispatch (c : Connection P) (handler : CompleteRequestHandler) (run : HandlerRun) :
    Connection P :=
  let k := c.created
  let c := (fun c : Connection P => c.endResponse k)^[run.ends] (c.newResponse handler run.result)
  if run.keeps then c else c.dropResponse k

end Connection

/-- `handle` answers these with 400. -/
def Message.malformed (m : Message) : Bool :=
  !m.targetParses || (m.version == 11 && m.host.isEmpty)

def Message.upgrades (m : Message) : Bool :=
  (m.isUpgrade && m.upgrade.toLower == "websocket") || m.acceptsEventStream

namespace Connection
variable {P : Type} (parser : RequestParser P)

def unauthorized (c : Connection P) (m : Message) : Bool :=
  c.build.authx && !m.isOnAllowlist && !c.userSession

/-- An upgrade handler that leaves the status 200 has taken the adaptor. -/
def handle (c : Connection P) (run : HandlerRun) : Connection P :=
  let m := parser.get c.parser
  let c := { c with req := some m }
  if m.malformed then c.completeOwn 400
  else
    let c := { c with res := { c.res with isAliveHelper := true } }
    if c.res.completed then c.completeOwn c.res.result
    else
      let c := { c with keepAlive := m.keepAlive }
      if c.unauthorized m then c.completeOwn m.unauthorizedResult
      else if m.upgrades then
        let c := { c with
          log := c.log ++ [LogEntry.handleUpgrade m]
          adaptorOpen := c.adaptorOpen && run.result ≠ 200 }
        c.dispatch .completeUnlessOk run
      else
        let c := if m.ifNoneMatch.isEmpty then c
          else { c with res := { c.res with expectedHash := some m.ifNoneMatch } }
        let c := { c with log := c.log ++ [LogEntry.handle m] }
        c.dispatch .completeRequest run

def parse (c : Connection P) (stop : P → Bool) : Connection P :=
  let parsed := parser.put stop c.parser c.buffer
  { c with parser := parsed.1, buffer := parsed.2 }

def doReadHeaders (c : Connection P) : Connection P :=
  let c := { c with log := c.log ++ [LogEntry.doReadHeaders] }.parse parser parser.isHeaderDone
  { c with outstanding := c.outstanding ++ [Operation.readHeader] }

def doRead (c : Connection P) : Connection P :=
  let consumed := !c.buffer.isEmpty
  let c := c.startDeadline.parse parser parser.isDone
  { c with outstanding := c.outstanding ++ [Operation.readSome consumed] }

/-- The session that `authenticate` finds, in a build that authenticates. -/
def authenticate (c : Connection P) (loggedIn : Bool) : Connection P :=
  { c with userSession := if c.build.authx then loggedIn else c.userSession }

def afterReadHeader (c : Connection P) (ec loggedIn : Bool) (run : HandlerRun) : Connection P :=
  let m := parser.get c.parser
  let errorWhileReading := ec || (!c.isAlive && !m.isUpgrade)
  let c := c.cancelDeadlineTimer
  if errorWhileReading then c.close
  else
    let c := c.authenticate loggedIn
    if c.build.authx && !c.userSession && m.contentLength.any (loggedOutPostBodyLimit < ·) then
      c.close
    else if parser.isDone c.parser then c.handle parser run
    else c.doRead parser

def afterRead (c : Connection P) (ec : Bool) (run : HandlerRun) : Connection P :=
  if ec then c.close
  else
    let c := if c.userSession then c.cancelDeadlineTimer else c
    if !parser.isDone c.parser then c.doRead parser
    else c.cancelDeadlineTimer.handle parser run

def afterDoWrite (c : Connection P) (ec : Bool) : Connection P :=
  let c := c.cancelDeadlineTimer
  if ec then c
  else if !c.keepAlive then c.close
  else
    { c with
      res := c.res.clear, parser := parser.init, buffer := [], userSession := false
      req := none }.doReadHeaders parser

/-- The callback of the handshake; `h2` is what the client has selected. -/
def afterSslHandshake (c : Connection P) (ec h2 : Bool) : Connection P :=
  if ec then c
  else if c.build.http2 && h2 then c
  else c.doReadHeaders parser

def start (c : Connection P) (connectionCount : ℕ) : Connection P :=
  if 100 ≤ connectionCount then c
  else
    let c := c.startDeadline
    if c.build.ssl then { c with outstanding := c.outstanding ++ [Operation.handshake] }
    else c.doReadHeaders parser

/-- The bytes of one read of the socket, parsed by the operation that reads. -/
def receive (c : Connection P) (bytes : List UInt8) : Connection P :=
  let c := { c with buffer := c.buffer ++ bytes }
  if .readHeader ∈ c.outstanding then c.parse parser parser.isHeaderDone
  else
    let c := c.parse parser parser.isDone
    { c with outstanding := c.outstanding.map fun
        | .readSome _ => .readSome true
        | op => op }

def needsMore (c : Connection P) : Operation → Bool
  | .readHeader => !parser.isHeaderDone c.parser
  | .readSome _ => !parser.isDone c.parser
  | _ => false

def timerHandler (c : Connection P) (wait : Wait) : Connection P :=
  let c := { c with waits := c.waits.erase wait, timerStarted := false }
  if wait = .aborted then c else c.close

end Connection

inductive Event where
  | receive (bytes : List UInt8)
  | handshake (ec h2 : Bool)
  | readHeader (ec loggedIn : Bool) (run : HandlerRun)
  | readSome (ec : Bool) (run : HandlerRun)
  | write (ec : Bool)
  | endResponse (k result : ℕ)
  | dropResponse (k result : ℕ)
  | timerExpires
  | timerHandler (wait : Wait)
deriving DecidableEq, Repr

namespace Connection
variable {P : Type} (parser : RequestParser P)

def finish (c : Connection P) (op : Operation) : Connection P :=
  { c with outstanding := c.outstanding.erase op }

def setResult (c : Connection P) (k result : ℕ) : Connection P :=
  c.setResponse k { (c.asyncResps k).res with result := result }

/-- An operation may fail at any time; without error a read completes when the
parser has come far enough. -/
def step (c : Connection P) : Event → Option (Connection P)
  | .receive bytes =>
    if c.adaptorOpen ∧ (∃ op ∈ c.outstanding, c.needsMore parser op) ∧ bytes ≠ [] ∧
        c.buffer.length + bytes.length ≤ bufferCapacity then some (c.receive parser bytes)
    else none
  | .handshake ec h2 =>
    if .handshake ∈ c.outstanding then
      some ((c.finish .handshake).afterSslHandshake parser ec h2)
    else none
  | .readHeader ec loggedIn run =>
    if .readHeader ∈ c.outstanding ∧ (ec ∨ parser.isHeaderDone c.parser) then
      some ((c.finish .readHeader).afterReadHeader parser ec loggedIn run)
    else none
  | .readSome ec run =>
    if .readSome true ∈ c.outstanding then
      some ((c.finish (.readSome true)).afterRead parser ec run)
    else if .readSome false ∈ c.outstanding ∧ ec then
      some ((c.finish (.readSome false)).afterRead parser ec run)
    else none
  | .write ec =>
    if .write ∈ c.outstanding then some ((c.finish .write).afterDoWrite parser ec) else none
  | .endResponse k result =>
    if (c.asyncResps k).alive then some ((c.setResult k result).endResponse k) else none
  | .dropResponse k result =>
    if (c.asyncResps k).alive then some ((c.setResult k result).dropResponse k) else none
  | .timerExpires =>
    if .waiting ∈ c.waits then some { c with waits := c.waits.map Wait.expire } else none
  | .timerHandler wait =>
    if wait ∈ c.waits ∧ wait ≠ .waiting then some (c.timerHandler wait) else none

end Connection

def opened {P : Type} (parser : RequestParser P) (build : Build) (connectionCount : ℕ) :
    Connection P :=
  ({ build, parser := parser.init } : Connection P).start parser connectionCount

inductive Steps {P : Type} (parser : RequestParser P) (c : Connection P) :
    Event → Connection P → Prop where
  | receive {bytes : List UInt8} {op : Operation} (hopen : c.adaptorOpen)
      (hop : op ∈ c.outstanding) (hneeds : c.needsMore parser op) (hne : bytes ≠ [])
      (hfits : c.buffer.length + bytes.length ≤ bufferCapacity) :
      Steps parser c (.receive bytes) (c.receive parser bytes)
  | handshake (ec h2 : Bool) (hop : .handshake ∈ c.outstanding) :
      Steps parser c (.handshake ec h2) ((c.finish .handshake).afterSslHandshake parser ec h2)
  | readHeader {ec : Bool} (loggedIn : Bool) (run : HandlerRun) (hop : .readHeader ∈ c.outstanding)
      (hread : ec ∨ parser.isHeaderDone c.parser) : Steps parser c (.readHeader ec loggedIn run)
      ((c.finish .readHeader).afterReadHeader parser ec loggedIn run)
  | readSome {ec consumed : Bool} (run : HandlerRun) (hop : .readSome consumed ∈ c.outstanding)
      (hread : ec ∨ consumed) : Steps parser c (.readSome ec run)
      ((c.finish (.readSome consumed)).afterRead parser ec run)
  | write (ec : Bool) (hop : .write ∈ c.outstanding) :
      Steps parser c (.write ec) ((c.finish .write).afterDoWrite parser ec)
  | endResponse {k : ℕ} (result : ℕ) (halive : (c.asyncResps k).alive) :
      Steps parser c (.endResponse k result) ((c.setResult k result).endResponse k)
  | dropResponse {k : ℕ} (result : ℕ) (halive : (c.asyncResps k).alive) :
      Steps parser c (.dropResponse k result) ((c.setResult k result).dropResponse k)
  | timerExpires (hwait : .waiting ∈ c.waits) :
      Steps parser c .timerExpires { c with waits := c.waits.map Wait.expire }
  | timerHandler {wait : Wait} (hwait : wait ∈ c.waits) (hover : wait ≠ .waiting) :
      Steps parser c (.timerHandler wait) (c.timerHandler wait)

theorem steps_of_step {P : Type} {parser : RequestParser P} {c c' : Connection P} {event : Event}
    (h : c.step parser event = some c') : Steps parser c event c' := by
  cases event with
  | receive bytes =>
    obtain ⟨⟨hopen, ⟨op, hop, hneeds⟩, hne, hfits⟩, h⟩ := Option.ite_none_right_eq_some.1 h
    obtain rfl := Option.some.inj h
    exact .receive hopen hop hneeds hne hfits
  | handshake ec h2 =>
    obtain ⟨hop, h⟩ := Option.ite_none_right_eq_some.1 h
    obtain rfl := Option.some.inj h
    exact .handshake ec h2 hop
  | readHeader ec loggedIn run =>
    obtain ⟨⟨hop, hread⟩, h⟩ := Option.ite_none_right_eq_some.1 h
    obtain rfl := Option.some.inj h
    exact .readHeader loggedIn run hop hread
  | readSome ec run =>
    simp only [Connection.step] at h
    split_ifs at h with hop hop
    · obtain rfl := Option.some.inj h
      exact .readSome run hop (.inr rfl)
    · obtain rfl := Option.some.inj h
      exact .readSome run hop.1 (.inl hop.2)
  | write ec =>
    obtain ⟨hop, h⟩ := Option.ite_none_right_eq_some.1 h
    obtain rfl := Option.some.inj h
    exact .write ec hop
  | endResponse k result =>
    obtain ⟨halive, h⟩ := Option.ite_none_right_eq_some.1 h
    obtain rfl := Option.some.inj h
    exact .endResponse result halive
  | dropResponse k result =>
    obtain ⟨halive, h⟩ := Option.ite_none_right_eq_some.1 h
    obtain rfl := Option.some.inj h
    exact .dropResponse result halive
  | timerExpires =>
    obtain ⟨hwait, h⟩ := Option.ite_none_right_eq_some.1 h
    obtain rfl := Option.some.inj h
    exact .timerExpires hwait
  | timerHandler wait =>
    obtain ⟨⟨hwait, hover⟩, h⟩ := Option.ite_none_right_eq_some.1 h
    obtain rfl := Option.some.inj h
    exact .timerHandler hwait hover

def requestParser (header : List UInt8) (hheader : header ≠ []) (bodyLength : ℕ) (m : Message) :
    RequestParser (List UInt8) where
  init := []
  feed := fun bytes b => bytes ++ [b]
  isHeaderDone := fun bytes => header.isPrefixOf bytes
  isDone := fun bytes => header.isPrefixOf bytes && bytes.length == header.length + bodyLength
  get := fun _ => m
  isHeaderDone_of_isDone := fun bytes h => (Bool.and_eq_true_iff.1 h).1
  init_isHeaderDone := by
    cases header with
    | nil => exact (hheader rfl).elim
    | cons b header => rfl

def ascii (text : String) : List UInt8 := text.toList.map fun ch => ch.toNat.toUInt8

end CrowCore.HttpConnection
