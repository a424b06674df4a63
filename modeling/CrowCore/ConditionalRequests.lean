import CrowCore.KeepAlive
import CrowCore.ResponseHeaders

set_option autoImplicit false

/-!
# Conditional requests

A connection with the contents of its responses. The expected hash is set right
before a request is handled, kept by the move of the response into the one of the
connection, and cleared with that one before the next headers are read.
-/
namespace CrowCore.ConditionalRequests
open IncrementalParser GuardedRuns HttpConnection ConnectionExchange ConnectionDeadline KeepAlive
open HttpResponse ResponseHeaders JsonValue

/-- A call of `completeRequest`: the last entry of the log before it, the response
that is completed, and the one that `completeResponseFields` leaves. -/
structure Completion (F D : Type) where
  req : Message
  call : Option LogEntry
  built : HttpResponse.Response F D
  written : HttpResponse.Response F D

/-- The contents of the response of the connection and of the asynchronous ones. The
status that `completeResponseFields` sets is only recorded, as nothing reads it. -/
structure Server (P F D : Type) where
  conn : Connection P
  res : Contents F D
  asyncResps : ℕ → Contents F D
  completions : List (Completion F D) := []

/-- What the handler puts into its response before this event ends it. -/
structure ServerEvent (F D : Type) where
  event : Event
  contents : Contents F D

namespace Server
variable {P F D : Type}

def lift (s : Server P F D) (f : Connection P → Connection P) : Server P F D :=
  { s with conn := f s.conn }

def response (s : Server P F D) : HttpResponse.Response F D :=
  { toResponse := s.conn.res, toContents := s.res }

def asyncResponse (s : Server P F D) (k : ℕ) : HttpResponse.Response F D :=
  { toResponse := (s.conn.asyncResps k).res, toContents := s.asyncResps k }

def setContents (s : Server P F D) (k : ℕ) (contents : Contents F D) : Server P F D :=
  { s with asyncResps := Function.update s.asyncResps k contents }

section Complete
variable (L : Library F D) (getHeaderValue : Message → String → String)

def completeOwn (s : Server P F D) (result : ℕ) : Server P F D :=
  let conn := s.conn.completeOwn result
  match s.conn.req with
  | none => { s with conn }
  | some req =>
    let built := { s.response with result := result }
    let written := completeResponseFields L (getHeaderValue req)
      (built.setKeepAlive L s.conn.keepAlive)
    { s with
      conn
      res := written.toContents
      completions := s.completions ++ [{ req, call := s.conn.log.getLast?, built, written }] }

def completed (s : Server P F D) (k : ℕ) : Server P F D :=
  let conn := s.conn.completed k
  match s.conn.req with
  | none => { s with conn }
  | some req =>
    let built := s.asyncResponse k
    let moved := HttpResponse.completeRequest L (getHeaderValue req) s.conn.keepAlive s.response
      built
    { s with
      conn
      res := moved.1.toContents
      asyncResps := Function.update s.asyncResps k moved.2.toContents
      completions := s.completions ++
        [{ req, call := s.conn.log.getLast?, built, written := moved.1 }] }

def endResponse (s : Server P F D) (k : ℕ) : Server P F D :=
  let res := s.asyncResponse k
  let s := s.setContents k (res.markEnded L).toContents
  if res.completed then s
  else
    let s := s.lift fun conn => conn.setResponse k { res.toResponse with completed := true }
    match res.completeRequestHandler with
    | none => s
    | some .completeRequest => s.completed L getHeaderValue k
    | some .completeUnlessOk => if res.result ≠ 200 then s.completed L getHeaderValue k else s

def dropResponse (s : Server P F D) (k : ℕ) : Server P F D :=
  (s.endResponse L getHeaderValue k).lift fun conn =>
    { conn with
      asyncResps := Function.update conn.asyncResps k { conn.asyncResps k with alive := false } }

def newResponse (s : Server P F D) (handler : CompleteRequestHandler) (result : ℕ)
    (contents : Contents F D) : Server P F D :=
  (s.setContents s.conn.created contents).lift fun conn => conn.newResponse handler result

def dispatch (s : Server P F D) (handler : CompleteRequestHandler) (run : HandlerRun)
    (contents : Contents F D) : Server P F D :=
  let k := s.conn.created
  let s := (fun s : Server P F D => s.endResponse L getHeaderValue k)^[run.ends]
    (s.newResponse handler run.result contents)
  if run.keeps then s else s.dropResponse L getHeaderValue k

variable (parser : RequestParser P)
variable (sendUnauthorized : Message → Contents F D → Contents F D)

def handle (s : Server P F D) (run : HandlerRun) (contents : Contents F D) : Server P F D :=
  let m := parser.get s.conn.parser
  let s := s.lift fun conn => { conn with req := some m }
  if m.malformed then s.completeOwn L getHeaderValue 400
  else
    let s := s.lift fun conn => { conn with res := { conn.res with isAliveHelper := true } }
    if s.conn.res.completed then s.completeOwn L getHeaderValue s.conn.res.result
    else
      let s := s.lift fun conn => { conn with keepAlive := m.keepAlive }
      if s.conn.unauthorized m then
        { s with res := sendUnauthorized m s.res }.completeOwn L getHeaderValue m.unauthorizedResult
      else if m.upgrades then
        let s := s.lift fun conn =>
          { conn with
            log := conn.log ++ [LogEntry.handleUpgrade m]
            adaptorOpen := conn.adaptorOpen && run.result ≠ 200 }
        s.dispatch L getHeaderValue .completeUnlessOk run contents
      else
        let s := if m.ifNoneMatch.isEmpty then s
          else s.lift fun conn =>
            { conn with res := { conn.res with expectedHash := some m.ifNoneMatch } }
        let s := s.lift fun conn => { conn with log := conn.log ++ [LogEntry.handle m] }
        s.dispatch L getHeaderValue .completeRequest run contents

def afterReadHeader (s : Server P F D) (ec loggedIn : Bool) (run : HandlerRun)
    (contents : Contents F D) : Server P F D :=
  let m := parser.get s.conn.parser
  let errorWhileReading := ec || (!s.conn.isAlive && !m.isUpgrade)
  let s := s.lift Connection.cancelDeadlineTimer
  if errorWhileReading then s.lift Connection.close
  else
    let s := s.lift fun conn => conn.authenticate loggedIn
    if s.conn.build.authx && !s.conn.userSession &&
        m.contentLength.any (loggedOutPostBodyLimit < ·) then s.lift Connection.close
    else if parser.isDone s.conn.parser then
      s.handle L getHeaderValue parser sendUnauthorized run contents
    else s.lift fun conn => conn.doRead parser

def afterRead (s : Server P F D) (ec : Bool) (run : HandlerRun) (contents : Contents F D) :
    Server P F D :=
  if ec then s.lift Connection.close
  else
    let s := if s.conn.userSession then s.lift Connection.cancelDeadlineTimer else s
    if !parser.isDone s.conn.parser then s.lift fun conn => conn.doRead parser
    else
      (s.lift Connection.cancelDeadlineTimer).handle L getHeaderValue parser sendUnauthorized run
        contents

def afterDoWrite (s : Server P F D) (ec : Bool) : Server P F D :=
  let res := if !ec && s.conn.keepAlive then (s.response.clear L).toContents else s.res
  { s.lift fun conn => conn.afterDoWrite parser ec with res }

/-- The event on the contents, where it can happen; other events leave them alone. -/
def step (s : Server P F D) (e : ServerEvent F D) : Option (Server P F D) :=
  (s.conn.step parser e.event).map fun conn =>
    match e.event with
    | .readHeader ec loggedIn run =>
      (s.lift fun conn => conn.finish .readHeader).afterReadHeader L getHeaderValue parser
        sendUnauthorized ec loggedIn run e.contents
    | .readSome ec run =>
      (s.lift fun conn => conn.finish (.readSome (.readSome true ∈ conn.outstanding))).afterRead L
        getHeaderValue parser sendUnauthorized ec run e.contents
    | .write ec => (s.lift fun conn => conn.finish .write).afterDoWrite L parser ec
    | .endResponse k result =>
      ((s.setContents k e.contents).lift fun conn => conn.setResult k result).endResponse L
        getHeaderValue k
    | .dropResponse k result =>
      ((s.setContents k e.contents).lift fun conn => conn.setResult k result).dropResponse L
        getHeaderValue k
    | _ => { s with conn }

end Complete

def opened (parser : RequestParser P) (L : Library F D) (build : Build) (connectionCount : ℕ) :
    Server P F D where
  conn := HttpConnection.opened parser build connectionCount
  res := { fields := L.empty }
  asyncResps _ := { fields := L.empty }

section Projection
variable (L : Library F D) (getHeaderValue : Message → String → String)

theorem conn_completeOwn (s : Server P F D) (result : ℕ) :
    (s.completeOwn L getHeaderValue result).conn = s.conn.completeOwn result := by
  unfold completeOwn
  cases s.conn.req <;> rfl

theorem conn_completed (s : Server P F D) (k : ℕ) :
    (s.completed L getHeaderValue k).conn = s.conn.completed k := by
  unfold completed
  cases s.conn.req <;> rfl

theorem conn_endResponse (s : Server P F D) (k : ℕ) :
    (s.endResponse L getHeaderValue k).conn = s.conn.endResponse k := by
  unfold endResponse Connection.endResponse
  dsimp only [asyncResponse]
  by_cases hcompleted : (s.conn.asyncResps k).res.completed
  · rw [if_pos hcompleted, if_pos hcompleted]
    rfl
  · rw [if_neg hcompleted, if_neg hcompleted]
    cases (s.conn.asyncResps k).res.completeRequestHandler with
    | none => rfl
    | some handler =>
      cases handler with
      | completeRequest => exact conn_completed L getHeaderValue _ k
      | completeUnlessOk =>
        dsimp only
        by_cases hok : (s.conn.asyncResps k).res.result ≠ 200
        · rw [if_pos hok, if_pos hok]
          exact conn_completed L getHeaderValue _ k
        · rw [if_neg hok, if_neg hok]
          rfl

theorem conn_dropResponse (s : Server P F D) (k : ℕ) :
    (s.dropResponse L getHeaderValue k).conn = s.conn.dropResponse k := by
  unfold dropResponse Connection.dropResponse lift
  rw [conn_endResponse]

theorem conn_ends (k n : ℕ) (s : Server P F D) :
    ((fun s : Server P F D => s.endResponse L getHeaderValue k)^[n] s).conn =
      (fun c : Connection P => c.endResponse k)^[n] s.conn := by
  induction n generalizing s with
  | zero => rfl
  | succ n ih =>
    rw [Function.iterate_succ_apply, Function.iterate_succ_apply, ih, conn_endResponse]

theorem conn_dispatch (s : Server P F D) (handler : CompleteRequestHandler) (run : HandlerRun)
    (contents : Contents F D) : (s.dispatch L getHeaderValue handler run contents).conn =
      s.conn.dispatch handler run := by
  unfold dispatch Connection.dispatch
  dsimp only
  split_ifs
  · exact conn_ends L getHeaderValue _ _ _
  · rw [conn_dropResponse, conn_ends]
    rfl

variable (parser : RequestParser P)
variable (sendUnauthorized : Message → Contents F D → Contents F D)

theorem conn_handle (s : Server P F D) (run : HandlerRun) (contents : Contents F D) :
    (s.handle L getHeaderValue parser sendUnauthorized run contents).conn =
      s.conn.handle parser run := by
  unfold handle Connection.handle
  dsimp only [lift]
  split_ifs
  · exact conn_completeOwn L getHeaderValue _ _
  · exact conn_completeOwn L getHeaderValue _ _
  · exact conn_completeOwn L getHeaderValue _ _
  all_goals exact conn_dispatch L getHeaderValue _ _ _ _

theorem conn_afterReadHeader (s : Server P F D) (ec loggedIn : Bool) (run : HandlerRun)
    (contents : Contents F D) :
    (s.afterReadHeader L getHeaderValue parser sendUnauthorized ec loggedIn run contents).conn =
      s.conn.afterReadHeader parser ec loggedIn run := by
  unfold afterReadHeader Connection.afterReadHeader
  dsimp only [lift]
  split_ifs
  · rfl
  · rfl
  · exact conn_handle L getHeaderValue parser sendUnauthorized _ _ _
  · rfl

theorem conn_afterRead (s : Server P F D) (ec : Bool) (run : HandlerRun)
    (contents : Contents F D) :
    (s.afterRead L getHeaderValue parser sendUnauthorized ec run contents).conn =
      s.conn.afterRead parser ec run := by
  unfold afterRead Connection.afterRead
  dsimp only [lift]
  split_ifs
  · rfl
  · rfl
  · exact conn_handle L getHeaderValue parser sendUnauthorized _ _ _
  · rfl
  · exact conn_handle L getHeaderValue parser sendUnauthorized _ _ _

theorem conn_afterDoWrite (s : Server P F D) (ec : Bool) :
    (s.afterDoWrite L parser ec).conn = s.conn.afterDoWrite parser ec := rfl

theorem conn_step {s s' : Server P F D} {e : ServerEvent F D}
    (h : s.step L getHeaderValue parser sendUnauthorized e = some s') :
    s.conn.step parser e.event = some s'.conn := by
  obtain ⟨conn, hconn, rfl⟩ := Option.map_eq_some_iff.1 h
  rw [hconn]
  obtain ⟨event, contents⟩ := e
  cases event with
  | readHeader ec loggedIn run =>
    obtain ⟨-, hconn⟩ := Option.ite_none_right_eq_some.1 hconn
    rw [← hconn, conn_afterReadHeader]
    rfl
  | readSome ec run =>
    simp only [Connection.step] at hconn
    rw [conn_afterRead]
    by_cases hop : .readSome true ∈ s.conn.outstanding
    · rw [if_pos hop] at hconn
      simp [← hconn, lift, hop]
    · rw [if_neg hop] at hconn
      obtain ⟨-, hconn⟩ := Option.ite_none_right_eq_some.1 hconn
      simp [← hconn, lift, hop]
  | write ec =>
    obtain ⟨-, hconn⟩ := Option.ite_none_right_eq_some.1 hconn
    rw [← hconn, conn_afterDoWrite]
    rfl
  | endResponse k result =>
    obtain ⟨-, hconn⟩ := Option.ite_none_right_eq_some.1 hconn
    rw [← hconn, conn_endResponse]
    rfl
  | dropResponse k result =>
    obtain ⟨-, hconn⟩ := Option.ite_none_right_eq_some.1 hconn
    rw [← hconn, conn_dropResponse]
    rfl
  | _ => rfl

end Projection

end Server

section Sound
variable {P F D : Type}

def Turned (x : Completion F D) : Prop :=
  x.built.result ≠ 304 ∧ x.written.result = 304 ∧ x.written.jsonValue = .null

/-- The request that is completed decides whether its response is turned. -/
structure OwnTag (L : Library F D) (x : Completion F D) : Prop where
  turned_iff : Turned x ↔ x.call = some (.handle x.req) ∧ Tagged x.built ∧
    x.req.ifNoneMatch = L.etag x.built.jsonValue
  otherwise : ¬ Turned x →
    x.written.result = x.built.result ∧ x.written.jsonValue = x.built.jsonValue

def Sound (L : Library F D) (s : Server P F D) : Prop := ∀ x ∈ s.completions, OwnTag L x

variable {L : Library F D}

theorem write_spec (res : HttpResponse.Response F D) (bodyPart : List UInt8) :
    (res.write bodyPart).result = res.result ∧ (res.write bodyPart).jsonValue = res.jsonValue := by
  unfold Response.write
  split <;> exact ⟨rfl, rfl⟩

theorem writeJson_spec (getHeaderValue : String → String) (res : HttpResponse.Response F D) :
    (writeJson L getHeaderValue res).result = res.result ∧
      (writeJson L getHeaderValue res).jsonValue = res.jsonValue := by
  unfold writeJson
  split_ifs
  · split
    · exact ⟨rfl, rfl⟩
    · exact write_spec _ _
    · exact write_spec _ _
  · exact ⟨rfl, rfl⟩

theorem completeResponseFields_spec (getHeaderValue : String → String)
    (res : HttpResponse.Response F D) :
    let r := completeResponseFields L getHeaderValue res
    (Tagged res ∧ res.expectedHash = some (L.etag res.jsonValue) →
      r.result = 304 ∧ r.jsonValue = .null) ∧
    (¬ (Tagged res ∧ res.expectedHash = some (L.etag res.jsonValue)) →
      r.result = res.result ∧ r.jsonValue = res.jsonValue) := by
  intro r
  obtain ⟨hresp, hjson⟩ := addSecurityHeaders_keeps (L := L) getHeaderValue res
  let t := addSecurityHeaders L getHeaderValue res
  obtain ⟨hresult, hvalue⟩ := writeJson_spec (L := L) getHeaderValue
    (t.setHashAndHandleNotModified L)
  have hr : r = writeJson L getHeaderValue (t.setHashAndHandleNotModified L) := rfl
  rw [hr, hresult, hvalue]
  unfold Response.setHashAndHandleNotModified Tagged
  rw [hresp, hjson]
  by_cases htagged : jsonEmpty res.jsonValue = true ∨ res.result ≠ 200
  · have hnot : ¬ (res.result = 200 ∧ jsonEmpty res.jsonValue = false) := by
      rintro ⟨h200, hempty⟩
      simp [h200, hempty] at htagged
    rw [if_pos htagged]
    exact ⟨fun h => (hnot h.1).elim, fun _ => ⟨by rw [hresp], hjson⟩⟩
  · simp only [not_or, not_not, Bool.not_eq_true] at htagged
    rw [if_neg (by simp [htagged])]
    have hexpected : (t.addHeader L "ETag" (L.etag res.jsonValue)).expectedHash =
        res.expectedHash := congrArg HttpConnection.Response.expectedHash hresp
    dsimp only
    rw [hexpected]
    split_ifs with hhash
    · exact ⟨fun _ => ⟨rfl, rfl⟩, fun h => (h ⟨⟨htagged.2, htagged.1⟩, hhash⟩).elim⟩
    · refine ⟨fun h => (hhash h.2).elim, fun _ => ⟨?_, hjson⟩⟩
      exact congrArg HttpConnection.Response.result hresp

theorem ownTag_of_expected {x : Completion F D} {getHeaderValue : String → String}
    {res : HttpResponse.Response F D}
    (hwritten : x.written = completeResponseFields L getHeaderValue res)
    (hresult : res.result = x.built.result) (hjson : res.jsonValue = x.built.jsonValue)
    (hexpected : res.expectedHash = some (L.etag x.built.jsonValue) ↔
      x.call = some (.handle x.req) ∧ x.req.ifNoneMatch = L.etag x.built.jsonValue) :
    OwnTag L x := by
  obtain ⟨hturned, hkept⟩ := completeResponseFields_spec (L := L) getHeaderValue res
  have htagged : Tagged res ↔ Tagged x.built := by
    rw [Tagged, hresult, hjson, Tagged]
  rw [← hwritten, htagged, hjson] at hturned hkept
  by_cases h : Tagged x.built ∧ res.expectedHash = some (L.etag x.built.jsonValue)
  · obtain ⟨h304, hnull⟩ := hturned h
    have hturn : Turned x := ⟨by simp [h.1.1], h304, hnull⟩
    obtain ⟨hcall, hmatch⟩ := hexpected.1 h.2
    exact ⟨iff_of_true hturn ⟨hcall, h.1, hmatch⟩, fun hnot => (hnot hturn).elim⟩
  · obtain ⟨hsame, hvalue⟩ := hkept h
    rw [hresult] at hsame
    refine ⟨iff_of_false (fun hturn => hturn.1 (hsame.symm.trans hturn.2.1)) fun hown => ?_,
      fun _ => ⟨hsame, hvalue⟩⟩
    exact h ⟨hown.2.1, hexpected.2 ⟨hown.1, hown.2.2⟩⟩

variable (getHeaderValue : Message → String → String)

theorem sound_append {s : Server P F D} (h : Sound L s) {x : Completion F D} (hx : OwnTag L x) :
    ∀ y ∈ s.completions ++ [x], OwnTag L y := by
  intro y hy
  rcases List.mem_append.1 hy with hy | hy
  · exact h y hy
  · rw [List.mem_singleton.1 hy]
    exact hx

theorem sound_completeOwn {s : Server P F D} (h : Sound L s)
    (hhash : s.conn.res.expectedHash = none) (hcall : s.conn.log.getLast? = some .doReadHeaders)
    (result : ℕ) : Sound L (s.completeOwn L getHeaderValue result) := by
  unfold Sound Server.completeOwn
  cases s.conn.req with
  | none => exact h
  | some req =>
    refine sound_append h (ownTag_of_expected rfl rfl rfl ?_)
    have hnone : (({ s.response with result := result } : HttpResponse.Response F D).setKeepAlive L
        s.conn.keepAlive).expectedHash = none := hhash
    rw [hnone]
    simp [hcall]

theorem sound_completed {s : Server P F D} (h : Sound L s) {m : Message}
    (hreq : s.conn.req = some m) (hexpects : Expects s.conn m) (k : ℕ) :
    Sound L (s.completed L getHeaderValue k) := by
  unfold Sound Server.completed
  rw [hreq]
  refine sound_append h (ownTag_of_expected rfl rfl rfl ?_)
  have hhash : (((s.response.moveAssign L (s.asyncResponse k)).1).setKeepAlive L
      s.conn.keepAlive).expectedHash = s.conn.res.expectedHash := rfl
  rw [hhash]
  rcases hexpects with ⟨hcall, hexpected⟩ | ⟨hcall, hexpected⟩
  · have hne := etag_ne_empty (L := L) (s.asyncResponse k).jsonValue
    rw [hexpected]
    dsimp only
    simp only [hcall, true_and]
    split_ifs with hempty
    · refine iff_of_false nofun fun hmatch => ?_
      rw [hmatch, hne] at hempty
      cases hempty
    · exact ⟨Option.some.inj, congrArg some⟩
  · rw [hexpected]
    simp [hcall]

theorem sound_endResponse {s : Server P F D} (h : Sound L s) (hcarried : Carried s.conn) {k : ℕ}
    (halive : (s.conn.asyncResps k).alive) : Sound L (s.endResponse L getHeaderValue k) := by
  unfold Server.endResponse
  dsimp only [Server.asyncResponse]
  by_cases hcompleted : (s.conn.asyncResps k).res.completed
  · rw [if_pos hcompleted]
    exact h
  · obtain ⟨m, hreq, -, hexpects⟩ := hcarried.answering k ⟨halive, by simpa using hcompleted⟩
    rw [if_neg hcompleted]
    cases (s.conn.asyncResps k).res.completeRequestHandler with
    | none => exact h
    | some handler =>
      cases handler with
      | completeRequest =>
        refine sound_completed (m := m) getHeaderValue ?_ ?_ ?_ k
        exacts [h, hreq, hexpects]
      | completeUnlessOk =>
        dsimp only
        split_ifs
        · refine sound_completed (m := m) getHeaderValue ?_ ?_ ?_ k
          exacts [h, hreq, hexpects]
        · exact h

theorem sound_dropResponse {s : Server P F D} (h : Sound L s) (hcarried : Carried s.conn) {k : ℕ}
    (halive : (s.conn.asyncResps k).alive) : Sound L (s.dropResponse L getHeaderValue k) :=
  sound_endResponse getHeaderValue h hcarried halive

theorem carried_newResponse {c : Connection P} {m : Message} (hout : c.outstanding = [])
    (hreq : c.req = some m) (hkeepAlive : c.keepAlive = m.keepAlive) (hexpects : Expects c m)
    (handler : CompleteRequestHandler) (result : ℕ) : Carried (c.newResponse handler result) :=
  ⟨marked_of_nil hout, fun op hop => absurd hop (by simp [Connection.newResponse, hout]),
    fun _ _ => ⟨m, hreq, hkeepAlive, hexpects⟩,
    fun hop => absurd hop (by simp [Connection.newResponse, hout])⟩

theorem sound_ends {k : ℕ} (n : ℕ) {s : Server P F D} (h : Sound L s)
    (hexch : Exchanging s.conn) (hcarried : Carried s.conn) (halive : (s.conn.asyncResps k).alive) :
    let r := (fun s : Server P F D => s.endResponse L getHeaderValue k)^[n] s
    Sound L r ∧ Carried r.conn ∧ (r.conn.asyncResps k).alive := by
  induction n generalizing s with
  | zero => exact ⟨h, hcarried, halive⟩
  | succ n ih =>
    have hconn := Server.conn_endResponse L getHeaderValue s k
    obtain ⟨hexch', -, halive'⟩ := exchanging_endResponse hexch halive
    obtain ⟨hcarried', -⟩ := carried_end hexch hcarried halive
    refine ih (s := s.endResponse L getHeaderValue k)
      (sound_endResponse getHeaderValue h hcarried halive) ?_ ?_ ?_
    all_goals rw [hconn]
    exacts [hexch', hcarried', halive']

theorem sound_dispatch {s : Server P F D} (h : Sound L s) {m : Message} {call : LogEntry}
    {handler : CompleteRequestHandler} {done : List LogEntry}
    (hres : s.conn.res.completed = false) (hout : s.conn.outstanding = [])
    (hidle : Idle s.conn.asyncResps) (hreq : s.conn.req = some m) (hcall : Passes handler call)
    (hdone : Served done) (hlog : s.conn.log = done ++ [.doReadHeaders, call])
    (hkeepAlive : s.conn.keepAlive = m.keepAlive) (hexpects : Expects s.conn m)
    (run : HandlerRun) (contents : Contents F D) :
    Sound L (s.dispatch L getHeaderValue handler run contents) := by
  have hrequest : s.conn.req.isSome := by rw [hreq, Option.isSome_some]
  obtain ⟨hexch, -⟩ := exchanging_newResponse hres hout hidle hrequest hcall hdone hlog run.result
  have hcarried := carried_newResponse hout hreq hkeepAlive hexpects handler run.result
  have halive : ((s.conn.newResponse handler run.result).asyncResps s.conn.created).alive := by
    simp [Connection.newResponse]
  obtain ⟨hsound, hcarried', halive'⟩ := sound_ends getHeaderValue run.ends
    (s := s.newResponse handler run.result contents) h hexch hcarried halive
  unfold Server.dispatch
  dsimp only
  split_ifs
  · exact hsound
  · exact sound_dropResponse getHeaderValue hsound hcarried' halive'

variable (parser : RequestParser P)
variable (sendUnauthorized : Message → Contents F D → Contents F D)

theorem sound_handle {s : Server P F D} (h : Sound L s) {done : List LogEntry}
    (hres : s.conn.res.completed = false) (hout : s.conn.outstanding = [])
    (hidle : Idle s.conn.asyncResps) (hdone : Served done)
    (hlog : s.conn.log = done ++ [.doReadHeaders]) (hhash : s.conn.res.expectedHash = none)
    (run : HandlerRun) (contents : Contents F D) :
    Sound L (s.handle L getHeaderValue parser sendUnauthorized run contents) := by
  have hcall : s.conn.log.getLast? = some .doReadHeaders := by simp [hlog]
  unfold Server.handle
  dsimp only [Server.lift]
  split_ifs with hbad hcompleted hauth hup htag
  · refine sound_completeOwn getHeaderValue ?_ ?_ ?_ _
    exacts [h, hhash, hcall]
  · refine sound_completeOwn getHeaderValue ?_ ?_ ?_ _
    exacts [h, hhash, hcall]
  · refine sound_completeOwn getHeaderValue ?_ ?_ ?_ _
    exacts [h, hhash, hcall]
  · refine sound_dispatch getHeaderValue (m := parser.get s.conn.parser) ?_ ?_ ?_ ?_ ?_
      (.upgrade (parser.get s.conn.parser)) hdone ?_ ?_ ?_ _ _
    exacts [h, hres, hout, hidle, rfl, by simp [hlog], rfl, .inr ⟨by simp, hhash⟩]
  · refine sound_dispatch getHeaderValue (m := parser.get s.conn.parser) ?_ ?_ ?_ ?_ ?_
      (.handle (parser.get s.conn.parser)) hdone ?_ ?_ ?_ _ _
    exacts [h, hres, hout, hidle, rfl, by simp [hlog], rfl,
      .inl ⟨by simp, by rw [if_pos htag]; exact hhash⟩]
  · refine sound_dispatch getHeaderValue (m := parser.get s.conn.parser) ?_ ?_ ?_ ?_ ?_
      (.handle (parser.get s.conn.parser)) hdone ?_ ?_ ?_ _ _
    exacts [h, hres, hout, hidle, rfl, by simp [hlog], rfl, .inl ⟨by simp, by rw [if_neg htag]⟩]

theorem sound_afterReadHeader {s : Server P F D} (h : Sound L s) {done : List LogEntry}
    (hres : s.conn.res.completed = false) (hout : s.conn.outstanding = [])
    (hidle : Idle s.conn.asyncResps) (hdone : Served done)
    (hlog : s.conn.log = done ++ [.doReadHeaders]) (hhash : s.conn.res.expectedHash = none)
    (ec loggedIn : Bool) (run : HandlerRun) (contents : Contents F D) :
    Sound L (s.afterReadHeader L getHeaderValue parser sendUnauthorized ec loggedIn run
      contents) := by
  unfold Server.afterReadHeader
  dsimp only
  split_ifs
  · exact h
  · exact h
  · refine sound_handle getHeaderValue parser sendUnauthorized ?_ ?_ ?_ ?_ hdone ?_ ?_ run contents
    exacts [h, hres, hout, hidle, hlog, hhash]
  · exact h

theorem sound_afterRead {s : Server P F D} (h : Sound L s) {done : List LogEntry}
    (hres : s.conn.res.completed = false) (hout : s.conn.outstanding = [])
    (hidle : Idle s.conn.asyncResps) (hdone : Served done)
    (hlog : s.conn.log = done ++ [.doReadHeaders]) (hhash : s.conn.res.expectedHash = none)
    (ec : Bool) (run : HandlerRun) (contents : Contents F D) :
    Sound L (s.afterRead L getHeaderValue parser sendUnauthorized ec run contents) := by
  unfold Server.afterRead
  dsimp only
  split_ifs
  · exact h
  · exact h
  · refine sound_handle getHeaderValue parser sendUnauthorized ?_ ?_ ?_ ?_ hdone ?_ ?_ run contents
    exacts [h, hres, hout, hidle, hlog, hhash]
  · exact h
  · refine sound_handle getHeaderValue parser sendUnauthorized ?_ ?_ ?_ ?_ hdone ?_ ?_ run contents
    exacts [h, hres, hout, hidle, hlog, hhash]

theorem sound_step {s s' : Server P F D} {e : ServerEvent F D} (h : Sound L s)
    (hexch : Exchanging s.conn) (hcarried : Carried s.conn)
    (hstep : s.step L getHeaderValue parser sendUnauthorized e = some s') : Sound L s' := by
  obtain ⟨event, contents⟩ := e
  obtain ⟨conn, hconn, rfl⟩ := Option.map_eq_some_iff.1 hstep
  cases steps_of_step hconn with
  | @readHeader ec loggedIn run hop hread =>
    obtain ⟨hout, hidle, done, hdone, hlog⟩ := hexch.reads hop (by simp)
    obtain ⟨-, hhash⟩ := hcarried.fresh _ hop (by simp)
    exact sound_afterReadHeader getHeaderValue parser sendUnauthorized
      (s := s.lift fun conn => conn.finish .readHeader) h hexch.res_not_completed hout hidle hdone
      hlog hhash ec loggedIn run contents
  | @readSome ec consumed run hop hread =>
    obtain ⟨hout, hidle, done, hdone, hlog⟩ := hexch.reads hop (by simp)
    obtain ⟨-, hhash⟩ := hcarried.fresh _ hop (by simp)
    have hsame : decide (.readSome true ∈ s.conn.outstanding) = consumed := by
      have hone := (oneResponse_of_exchanging hexch).one_operation
      rcases hcons : s.conn.outstanding with _ | ⟨op, rest⟩
      · simp [hcons] at hop
      · rw [hcons, List.length_cons] at hone
        obtain rfl : rest = [] := List.length_eq_zero_iff.1 (by omega)
        obtain rfl : .readSome consumed = op := by simpa [hcons] using hop
        cases consumed <;> simp
    refine sound_afterRead getHeaderValue parser sendUnauthorized
      (s := s.lift fun conn => conn.finish (.readSome (.readSome true ∈ conn.outstanding))) h
      hexch.res_not_completed ?_ hidle hdone hlog hhash ec run contents
    change (s.conn.finish (.readSome (decide (.readSome true ∈ s.conn.outstanding)))).outstanding =
      []
    rw [hsame]
    exact hout
  | write ec hop => exact h
  | @endResponse k result halive =>
    exact sound_endResponse getHeaderValue
      (s := (s.setContents k contents).lift fun conn => conn.setResult k result) h
      (hcarried.same (same_setResult s.conn k result) rfl).1 (setResult_alive halive result)
  | @dropResponse k result halive =>
    exact sound_dropResponse getHeaderValue
      (s := (s.setContents k contents).lift fun conn => conn.setResult k result) h
      (hcarried.same (same_setResult s.conn k result) rfl).1 (setResult_alive halive result)
  | _ => exact h

/-- In every run of a connection, every request that is completed alone decides whether
its response becomes 304. -/
theorem own_tag_of_run (build : Build) (connectionCount : ℕ) (events : List (ServerEvent F D)) :
    Always (Server.step L getHeaderValue parser sendUnauthorized) (Sound L)
      (Server.opened parser L build connectionCount) events := by
  have hrun : Always (Server.step L getHeaderValue parser sendUnauthorized)
      (fun s => (Exchanging s.conn ∧ Carried s.conn) ∧ Sound L s)
      (Server.opened parser L build connectionCount) events := by
    refine always_of_step ?_ ?_ events
    · intro s e s' hs hstep
      obtain ⟨⟨hexch, hcarried⟩, hsound⟩ := hs
      have hconn := Server.conn_step L getHeaderValue parser sendUnauthorized hstep
      exact ⟨⟨exchanging_step parser hexch hconn, (carried_step parser hexch hcarried hconn).1⟩,
        sound_step getHeaderValue parser sendUnauthorized hsound hexch hcarried hstep⟩
    · exact ⟨⟨exchanging_opened parser build connectionCount,
        (carried_opened parser build connectionCount).1⟩, fun x hx => by cases hx⟩
  exact hrun.mono fun s hs => hs.2

end Sound

def sampleHeader : List UInt8 :=
  ascii "GET / HTTP/1.1\r\nHost: a\r\nIf-None-Match: \"7F4A7C15\"\r\n\r\n"

def sampleMessage : Message := { target := "/", host := "a", ifNoneMatch := "\"7F4A7C15\"" }

def sampleEvents : List (ServerEvent (List (String × String)) Unit) :=
  let contents : Contents (List (String × String)) Unit := { fields := [], jsonValue := sampleJson }
  [{ event := .receive sampleHeader, contents },
    { event := .readHeader false false {}, contents }, { event := .write false, contents },
    { event := .receive sampleHeader, contents },
    { event := .readHeader false false { result := 404 }, contents }]

example :
    let parser := requestParser sampleHeader (by decide) 0 sampleMessage
    (run (Server.step listLibrary (fun _ _ => "") parser fun _ contents => contents)
        (Server.opened parser listLibrary { ssl := false } 0) sampleEvents).map
      (fun s => s.completions.map fun x => (x.built.result, x.written.result)) =
        some [(200, 304), (404, 404)] := by
  decide +kernel

end CrowCore.ConditionalRequests
