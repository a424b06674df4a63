import CrowCore.HttpResponse
import CrowCore.RequestHandling

set_option autoImplicit false

/-!
# An HTTP/2 connection

The session of the library calls back for every header, frame and closed stream;
the handlers of the requests complete later and in any order. A completion knows
the number of its stream only.
-/
namespace CrowCore.Http2
open EventSubscriptions HttpResponse RequestHandling

def verbNames : List (String × Verb) :=
  [("DELETE", .delete_), ("GET", .get), ("HEAD", .head), ("POST", .post), ("PUT", .put),
    ("CONNECT", .connect), ("OPTIONS", .options), ("TRACE", .trace), ("COPY", .copy),
    ("LOCK", .lock), ("MKCOL", .mkcol), ("MOVE", .move), ("PROPFIND", .propfind),
    ("PROPPATCH", .proppatch), ("SEARCH", .search), ("UNLOCK", .unlock), ("BIND", .bind),
    ("REBIND", .rebind), ("UNBIND", .unbind), ("ACL", .acl), ("REPORT", .report),
    ("MKACTIVITY", .mkactivity), ("CHECKOUT", .checkout), ("MERGE", .merge),
    ("M-SEARCH", .msearch), ("NOTIFY", .notify), ("SUBSCRIBE", .subscribe),
    ("UNSUBSCRIBE", .unsubscribe), ("PATCH", .patch), ("PURGE", .purge),
    ("MKCALENDAR", .mkcalendar), ("LINK", .link), ("UNLINK", .unlink)]

def string_to_verb (name : String) : Verb := (verbNames.lookup name).getD .unknown

variable {F D : Type}

structure Request (F : Type) where
  method : Verb := .unknown
  target : String := ""
  fields : F
  isSecure : Bool := false

def Request.getHeaderValue (L : Library F D) (req : Request F) (key : String) : String :=
  (L.values req.fields key).headD ""

/-- The data source of a stream reads the body from `gen`. -/
structure Http2StreamData (F D : Type) where
  req : Request F
  res : Response F D
  gen : List UInt8 := []

def Http2StreamData.new (L : Library F D) : Http2StreamData F D where
  req := { fields := L.empty }
  res := { fields := L.empty }

inductive FrameType where
  | data
  | headers
  | other
deriving DecidableEq, Repr

structure Frame where
  type : FrameType
  stream_id : ℤ
  /-- `NGHTTP2_FLAG_END_STREAM` -/
  end_stream : Bool := false
  /-- `NGHTTP2_HCAT_REQUEST`, for the headers that open a stream -/
  hcat_request : Bool := false
deriving DecidableEq, Repr

def Frame.opens (frame : Frame) : Bool := frame.type = .headers && frame.hcat_request

/-- A stream as the session sees it; it is half closed once the request has been received. -/
inductive StreamState where
  | idle
  | opened
  | halfClosed
  | closed
deriving DecidableEq, Repr

/-- Where `close` is called, with the stream. -/
inductive Cause where
  | sendResponse (streamId : ℤ)
  | submitResponse (streamId : ℤ)
  | completion (streamId : ℤ)
  | onRequestRecv (streamId : ℤ)
  | unknownStream (streamId : ℤ)
  | unknownVerb (streamId : ℤ)
  | doRead
  | afterWriteBuffer
deriving DecidableEq, Repr

structure AsyncResp (F D : Type) where
  streamId : ℤ
  res : Response F D

/-- A response that the session has taken, and whether the socket was open. -/
structure Submission where
  streamId : ℤ
  hdr : List (String × String)
  isOpen : Bool

/-- A handler that has ended its response, and whether its stream was open. -/
structure Completion where
  streamId : ℤ
  isOpen : Bool
deriving DecidableEq, Repr

/-- `session` is what the library knows of the streams, `sent` what the socket has accepted. -/
structure Http2Connection (F D : Type) where
  streams : ℤ → Option (Http2StreamData F D) := fun _ => none
  sendBuffer : List UInt8 := []
  isWriting : Bool := false
  reading : Bool := false
  /-- the first call of `close` -/
  closedBy : Option Cause := none
  asyncResps : List (AsyncResp F D) := []
  /-- the data of the outstanding calls of `async_write_some` -/
  writes : List (List UInt8) := []
  sent : List UInt8 := []
  session : ℤ → StreamState := fun _ => .idle
  submissions : List Submission := []
  completions : List Completion := []

/-- The callbacks of the session, the completions of the socket and of the handlers.
`handler` is what a handler has made of its response, `rv` the answer of `submitResponse`. -/
inductive Event (F D : Type) where
  | onBeginHeaders (frame : Frame)
  | onHeader (frame : Frame) (name value : String)
  | onFrameRecv (frame : Frame)
  | onStreamClose (streamId : ℤ)
  | onSend (data : List UInt8)
  | afterWriteBuffer (ec : Bool) (sendLength : ℕ)
  | readError
  | complete (place : ℕ) (handler : Response F D → Response F D) (date : String) (rv : ℤ)

namespace Http2Connection
variable (L : Library F D) (c : Http2Connection F D)

def isOpen : Bool := c.closedBy.isNone

/-- To close the socket again changes nothing. -/
def close (cause : Cause) : Http2Connection F D := { c with closedBy := c.closedBy.or (some cause) }

/-- `start`, where `rv` is the answer to the settings. -/
def start (rv : ℤ) : Http2Connection F D where
  streams := Function.update (fun _ => none) 0 (some (.new L))
  reading := rv = 0

def hdr (res : Response F D) : List (String × String) :=
  (":status", toString res.result) :: L.elements res.fields

def sendResponse (completedRes : Response F D) (streamId : ℤ) (date : String) (rv : ℤ) :
    Http2Connection F D × ℤ :=
  match c.streams streamId with
  | none => (c.close (.sendResponse streamId), -1)
  | some stream =>
    let thisRes := (stream.res.moveAssign L completedRes).1
    let thisRes := completeResponseFields L (stream.req.getHeaderValue L) thisRes
    let thisRes := thisRes.addHeader L "Date" date
    let stream := { stream with res := thisRes, gen := thisRes.generator }
    let c := { c with streams := Function.update c.streams streamId (some stream) }
    if rv ≠ 0 then (c.close (.submitResponse streamId), -1)
    else
      ({ c with submissions := c.submissions ++ [⟨streamId, hdr L thisRes, c.isOpen⟩] }, 0)

def completeRequestHandler (completeRes : Response F D) (streamId : ℤ) (date : String) (rv : ℤ) :
    Http2Connection F D :=
  let sent := c.sendResponse L completeRes streamId date rv
  if sent.2 ≠ 0 then sent.1.close (.completion streamId) else sent.1

/-- The response moves to the handler, which completes it later. -/
def onRequestRecv (streamId : ℤ) : Http2Connection F D × ℤ :=
  match c.streams streamId with
  | none => (c.close (.onRequestRecv streamId), -1)
  | some stream =>
    let thisRes := { stream.res with completed := false }
    let moved := Response.moveAssign L { fields := L.empty } thisRes
    ({ c with
        streams := Function.update c.streams streamId (some { stream with res := moved.2 })
        asyncResps := c.asyncResps ++ [⟨streamId, moved.1⟩] }, 0)

def onFrameRecvCallback (frame : Frame) : Http2Connection F D × ℤ :=
  match frame.type with
  | .data | .headers => if frame.end_stream then c.onRequestRecv L frame.stream_id else (c, 0)
  | .other => (c, 0)

def onStreamCloseCallback (streamId : ℤ) : Http2Connection F D × ℤ :=
  match c.streams streamId with
  | none => (c, -1)
  | some _ => ({ c with streams := Function.update c.streams streamId none }, 0)

def onHeaderCallback (frame : Frame) (nameSv valueSv : String) : Http2Connection F D × ℤ :=
  if frame.opens then
    match c.streams frame.stream_id with
    | none => (c.close (.unknownStream frame.stream_id), -1)
    | some thisStream =>
      let set (req : Request F) : Http2Connection F D × ℤ :=
        ({ c with
            streams :=
              Function.update c.streams frame.stream_id (some { thisStream with req }) }, 0)
      let thisReq := thisStream.req
      if nameSv = ":path" then set { thisReq with target := valueSv }
      else if nameSv = ":method" then
        let verb := string_to_verb valueSv
        if verb = .unknown then (c.close (.unknownVerb frame.stream_id), -1)
        else set { thisReq with method := verb }
      else if nameSv = ":scheme" then (c, 0)
      else set { thisReq with fields := L.set thisReq.fields nameSv valueSv }
  else (c, 0)

/-- A stream that is there already keeps its data. -/
def onBeginHeadersCallback (frame : Frame) : Http2Connection F D × ℤ :=
  if frame.opens then
    let stream := (c.streams frame.stream_id).getD (.new L)
    let stream := { stream with req := { stream.req with isSecure := true } }
    ({ c with streams := Function.update c.streams frame.stream_id (some stream) }, 0)
  else (c, 0)

def writeBuffer : Http2Connection F D :=
  if c.isWriting then c
  else if c.sendBuffer.length ≤ 0 then c
  else { c with isWriting := true, writes := c.writes ++ [c.sendBuffer] }

def afterWriteBuffer (ec : Bool) (sendLength : ℕ) : Http2Connection F D :=
  let c := { c with isWriting := false }
  if ec then c.close .afterWriteBuffer
  else ({ c with sendBuffer := c.sendBuffer.drop sendLength }).writeBuffer

def onSendCallback (data : List UInt8) : Http2Connection F D :=
  ({ c with sendBuffer := c.sendBuffer ++ data }).writeBuffer

/-- `doRead` closes when it has read nothing, and when a callback has failed in `memRecv`. -/
def readFailed : Http2Connection F D := { c.close .doRead with reading := false }

def memRecv (called : Http2Connection F D × ℤ) : Http2Connection F D :=
  if called.2 ≠ 0 then called.1.readFailed else called.1

def setSession (streamId : ℤ) (state : StreamState) : Http2Connection F D :=
  { c with session := Function.update c.session streamId state }

/-- The session opens a stream once, receives the end of its request once and closes it
once. It is only fed while a read is outstanding, but may close a stream at any time. -/
def Allowed : Event F D → Prop
  | .onBeginHeaders frame =>
    c.reading ∧ if frame.opens then 0 < frame.stream_id ∧ c.session frame.stream_id = .idle
      else c.session frame.stream_id = .opened
  | .onHeader frame _ _ => c.reading ∧ c.session frame.stream_id = .opened
  | .onFrameRecv frame => c.reading ∧ (frame.type = .other ∨ c.session frame.stream_id = .opened)
  | .onStreamClose streamId => c.session streamId = .opened ∨ c.session streamId = .halfClosed
  | .onSend _ => True
  | .afterWriteBuffer _ sendLength => ∃ data ∈ c.writes.head?, sendLength ≤ data.length
  | .readError => c.reading
  | .complete place _ _ _ => place < c.asyncResps.length

instance (event : Event F D) : Decidable (c.Allowed event) := by
  cases event <;> unfold Allowed <;> infer_instance

def complete (asyncResp : AsyncResp F D) (handler : Response F D → Response F D) (date : String)
    (rv : ℤ) : Http2Connection F D :=
  let streamId := asyncResp.streamId
  let completion := ⟨streamId, c.session streamId ≠ .closed⟩
  let c := { c with completions := c.completions ++ [completion] }
  c.completeRequestHandler L ((handler asyncResp.res).markEnded L) streamId date rv

def handle : Event F D → Http2Connection F D
  | .onBeginHeaders frame =>
    let c := if frame.opens then c.setSession frame.stream_id .opened else c
    memRecv (c.onBeginHeadersCallback L frame)
  | .onHeader frame name value => memRecv (c.onHeaderCallback L frame name value)
  | .onFrameRecv frame =>
    let ended := frame.type ≠ .other ∧ frame.end_stream
    let c := if ended then c.setSession frame.stream_id .halfClosed else c
    memRecv (c.onFrameRecvCallback L frame)
  | .onStreamClose streamId => ((c.setSession streamId .closed).onStreamCloseCallback streamId).1
  | .onSend data => c.onSendCallback data
  | .afterWriteBuffer ec sendLength =>
    let written := (c.writes.headD []).take sendLength
    { c with writes := c.writes.tail, sent := c.sent ++ written }.afterWriteBuffer ec sendLength
  | .readError => c.readFailed
  | .complete place handler date rv =>
    match c.asyncResps[place]? with
    | none => c
    | some asyncResp =>
      { c with asyncResps := c.asyncResps.eraseIdx place }.complete L asyncResp handler date rv

def step (event : Event F D) : Option (Http2Connection F D) :=
  if c.Allowed event then some (c.handle L event) else none

end Http2Connection

end CrowCore.Http2
