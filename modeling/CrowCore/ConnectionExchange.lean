import CrowCore.GuardedRuns
import CrowCore.HttpConnection

set_option autoImplicit false

/-!
# One response for each request

A connection has one operation at a time, and a response is only open while it
has none. So the log is a sequence of exchanges, of which all but the last are
served.
-/
namespace CrowCore.ConnectionExchange
open IncrementalParser GuardedRuns HttpConnection

variable {P : Type}

/-- How a request that was read is passed on, if it is. -/
inductive Passed : List LogEntry → Prop
  | refused : Passed []
  | handled (req : Message) : Passed [.handle req]
  | upgraded (req : Message) : Passed [.handleUpgrade req]

/-- Every request that was read has been answered once and the response written. -/
inductive Served : List LogEntry → Prop
  | nil : Served []
  | exchange {log calls : List LogEntry} (hlog : Served log) (hcalls : Passed calls) :
      Served (log ++ .doReadHeaders :: (calls ++ [.completeRequest, .doWrite]))

structure Open (asyncResps : ℕ → AsyncResp) (k : ℕ) : Prop where
  alive : (asyncResps k).alive
  not_completed : (asyncResps k).res.completed = false

/-- What the log shows of an exchange that is not served. -/
inductive Unserved (c : Connection P) : List LogEntry → Prop
  | none : Unserved c []
  | reading : Unserved c [.doReadHeaders]
  | handling (req : Message) {k : ℕ} (hopen : Open c.asyncResps k) :
      Unserved c [.doReadHeaders, .handle req]
  | upgrading (req : Message) : Unserved c [.doReadHeaders, .handleUpgrade req]
  | lost {calls : List LogEntry} (hcalls : Passed calls) (hdead : c.isAlive = false) :
      Unserved c (.doReadHeaders :: (calls ++ [.completeRequest]))

/-- At most one operation is outstanding. Every request passed to the handler was
answered once before the next headers are read, but for the last request: its
response is still open, or the adaptor was no longer alive when it was ended. -/
structure OneResponse (c : Connection P) : Prop where
  one_operation : c.outstanding.length ≤ 1
  exchanges : ∃ done current, c.log = done ++ current ∧ Served done ∧ Unserved c current

theorem writeResponse_of_alive {c : Connection P} (h : c.isAlive) : c.writeResponse =
    { c with
      res := { c.res with keepAlive := c.keepAlive }.setCompleteRequestHandler none
      log := c.log ++ [.completeRequest, .doWrite]
      waits := if c.timerStarted then c.waits else c.waits.map Wait.cancel ++ [.waiting]
      timerStarted := true
      outstanding := c.outstanding ++ [.write] } := by
  have h' : ({ c with
      res := { c.res with keepAlive := c.keepAlive }
      log := c.log ++ [LogEntry.completeRequest] } : Connection P).isAlive = true := h
  simp only [Connection.writeResponse, h', Connection.doWrite, Connection.startDeadline]
  cases c.timerStarted <;> simp

theorem writeResponse_of_dead {c : Connection P} (h : c.isAlive = false) : c.writeResponse =
    { c with
      res := { c.res with keepAlive := c.keepAlive }.setCompleteRequestHandler none
      log := c.log ++ [.completeRequest] } := by
  have h' : ({ c with
      res := { c.res with keepAlive := c.keepAlive }
      log := c.log ++ [LogEntry.completeRequest] } : Connection P).isAlive = false := h
  simp [Connection.writeResponse, h']

theorem writeResponse_asyncResps (c : Connection P) :
    c.writeResponse.asyncResps = c.asyncResps := by
  cases h : c.isAlive
  · rw [writeResponse_of_dead h]
  · rw [writeResponse_of_alive h]

/-- Which responses there are does not matter to the one that is written. -/
theorem setResponse_writeResponse (c : Connection P) (k : ℕ) (res : Response) :
    c.writeResponse.setResponse k res = (c.setResponse k res).writeResponse := by
  have hsame : (c.setResponse k res).isAlive = c.isAlive := rfl
  cases h : c.isAlive
  · rw [writeResponse_of_dead h, writeResponse_of_dead (hsame.trans h)]
    rfl
  · rw [writeResponse_of_alive h, writeResponse_of_alive (hsame.trans h)]
    rfl

/-- The completion handlers that call `completeRequest` for a response with this
status. -/
def Answers : Option CompleteRequestHandler → ℕ → Prop
  | none, _ => False
  | some .completeRequest, _ => True
  | some .completeUnlessOk, result => result ≠ 200

theorem completed_eq {c : Connection P} (hreq : c.req.isSome) (k : ℕ) :
    ∃ res resp, resp.completed = (c.asyncResps k).res.completed ∧ c.completed k =
      ({ c with
        res := res
        asyncResps := Function.update c.asyncResps k { c.asyncResps k with res := resp } }
          : Connection P).writeResponse := by
  refine ⟨(c.res.moveAssign (c.asyncResps k).res).1, (c.res.moveAssign (c.asyncResps k).res).2,
    rfl, ?_⟩
  have hreq' : c.req.isNone = false := by simpa using hreq
  simp only [Connection.completed, Connection.completeRequest, hreq', Bool.false_eq_true, if_false,
    setResponse_writeResponse]
  rfl

theorem endResponse_of_completed {c : Connection P} {k : ℕ}
    (h : (c.asyncResps k).res.completed) : c.endResponse k = c := by
  simp [Connection.endResponse, h]

theorem endResponse_of_silent {c : Connection P} {k : ℕ} (hopen : Open c.asyncResps k)
    (h : ¬ Answers (c.asyncResps k).res.completeRequestHandler (c.asyncResps k).res.result) :
    c.endResponse k = c.setResponse k { (c.asyncResps k).res with completed := true } := by
  have hnot := hopen.not_completed
  rcases hh : (c.asyncResps k).res.completeRequestHandler with _ | _ | _ <;> rw [hh] at h
  · simp [Connection.endResponse, hnot, hh]
  · exact (h trivial).elim
  · have hok : (c.asyncResps k).res.result = 200 := not_not.1 h
    simp [Connection.endResponse, hnot, hh, hok]

theorem endResponse_of_answers {c : Connection P} {k : ℕ} (hopen : Open c.asyncResps k)
    (h : Answers (c.asyncResps k).res.completeRequestHandler (c.asyncResps k).res.result)
    (hreq : c.req.isSome) : ∃ res resp, resp.completed = true ∧ c.endResponse k =
      ({ c with
        res := res
        asyncResps := Function.update c.asyncResps k { c.asyncResps k with res := resp } }
          : Connection P).writeResponse := by
  have hnot := hopen.not_completed
  have hstep : c.endResponse k =
      (c.setResponse k { (c.asyncResps k).res with completed := true }).completed k := by
    rcases hh : (c.asyncResps k).res.completeRequestHandler with _ | _ | _ <;> rw [hh] at h
    · exact h.elim
    · simp [Connection.endResponse, hnot, hh]
    · have hne : (c.asyncResps k).res.result ≠ 200 := h
      simp [Connection.endResponse, hnot, hh, hne]
  obtain ⟨res, resp, hdone, heq⟩ := completed_eq
    (c := c.setResponse k { (c.asyncResps k).res with completed := true }) hreq k
  refine ⟨res, resp, by simpa [Connection.setResponse] using hdone, hstep.trans (heq.trans ?_)⟩
  simp [Connection.setResponse]

def Idle (asyncResps : ℕ → AsyncResp) : Prop := ∀ k, ¬ Open asyncResps k

structure Pending (asyncResps : ℕ → AsyncResp) (handler : CompleteRequestHandler) (k : ℕ) :
    Prop where
  isOpen : Open asyncResps k
  handler_eq : (asyncResps k).res.completeRequestHandler = some handler
  only : ∀ j, Open asyncResps j → j = k

inductive Passes : CompleteRequestHandler → LogEntry → Prop
  | handle (req : Message) : Passes .completeRequest (.handle req)
  | upgrade (req : Message) : Passes .completeUnlessOk (.handleUpgrade req)

theorem Passes.passed {handler : CompleteRequestHandler} {call : LogEntry}
    (h : Passes handler call) : Passed [call] := by
  cases h with
  | handle req => exact .handled req
  | upgrade req => exact .upgraded req

inductive Phase (c : Connection P) : Prop
  | opening (hout : c.outstanding = [.handshake]) (hidle : Idle c.asyncResps) (hlog : c.log = [])
  | reading {op : Operation} {done : List LogEntry} (hout : c.outstanding = [op])
      (hop : op = .readHeader ∨ ∃ consumed, op = .readSome consumed) (hidle : Idle c.asyncResps)
      (hdone : Served done) (hlog : c.log = done ++ [.doReadHeaders])
  | pending {handler : CompleteRequestHandler} {k : ℕ} {call : LogEntry} {done : List LogEntry}
      (hout : c.outstanding = []) (hpending : Pending c.asyncResps handler k) (hreq : c.req.isSome)
      (hcall : Passes handler call) (hdone : Served done)
      (hlog : c.log = done ++ [.doReadHeaders, call])
  | writing (hout : c.outstanding = [.write]) (hidle : Idle c.asyncResps) (hlog : Served c.log)
  | ended {done current : List LogEntry} (hout : c.outstanding = []) (hidle : Idle c.asyncResps)
      (hdone : Served done) (hcurrent : Unserved c current) (hlog : c.log = done ++ current)

structure Exchanging (c : Connection P) : Prop where
  res_not_completed : c.res.completed = false
  phase : Phase c

theorem oneResponse_of_exchanging {c : Connection P} (h : Exchanging c) : OneResponse c := by
  cases h.phase with
  | opening hout hidle hlog =>
    exact ⟨by simp [hout], [], [], by simp [hlog], .nil, .none⟩
  | reading hout hop hidle hdone hlog =>
    exact ⟨by simp [hout], _, _, hlog, hdone, .reading⟩
  | pending hout hpending hreq hcall hdone hlog =>
    refine ⟨by simp [hout], _, _, hlog, hdone, ?_⟩
    cases hcall with
    | handle req => exact .handling req hpending.isOpen
    | upgrade req => exact .upgrading req
  | writing hout hidle hlog =>
    exact ⟨by simp [hout], c.log, [], by simp, hlog, .none⟩
  | ended hout hidle hdone hcurrent hlog =>
    exact ⟨by simp [hout], _, _, hlog, hdone, hcurrent⟩

structure Same (c c' : Connection P) : Prop where
  outstanding_eq : c'.outstanding = c.outstanding
  log_eq : c'.log = c.log
  req_eq : c'.req = c.req
  res_eq : c'.res = c.res
  dead : c.isAlive = false → c'.isAlive = false
  open_iff : ∀ k, Open c'.asyncResps k ↔ Open c.asyncResps k
  handler_eq : ∀ k, (c'.asyncResps k).res.completeRequestHandler =
    (c.asyncResps k).res.completeRequestHandler

theorem Same.idle {c c' : Connection P} (hs : Same c c') (h : Idle c.asyncResps) :
    Idle c'.asyncResps :=
  fun k hk => h k ((hs.open_iff k).1 hk)

theorem Exchanging.same {c c' : Connection P} (h : Exchanging c) (hs : Same c c') :
    Exchanging c' := by
  refine ⟨hs.res_eq ▸ h.res_not_completed, ?_⟩
  cases h.phase with
  | opening hout hidle hlog =>
    exact .opening (hs.outstanding_eq.trans hout) (hs.idle hidle) (hs.log_eq.trans hlog)
  | reading hout hop hidle hdone hlog =>
    exact .reading (hs.outstanding_eq.trans hout) hop (hs.idle hidle) hdone (hs.log_eq.trans hlog)
  | @pending handler k _ _ hout hpending hreq hcall hdone hlog =>
    have hpending' : Pending c'.asyncResps handler k :=
      ⟨(hs.open_iff k).2 hpending.isOpen, (hs.handler_eq k).trans hpending.handler_eq,
        fun j hj => hpending.only j ((hs.open_iff j).1 hj)⟩
    exact .pending (hs.outstanding_eq.trans hout) hpending' (hs.req_eq ▸ hreq) hcall hdone
      (hs.log_eq.trans hlog)
  | writing hout hidle hlog =>
    exact .writing (hs.outstanding_eq.trans hout) (hs.idle hidle) (hs.log_eq ▸ hlog)
  | ended hout hidle hdone hcurrent hlog =>
    refine .ended (hs.outstanding_eq.trans hout) (hs.idle hidle) hdone ?_ (hs.log_eq.trans hlog)
    cases hcurrent with
    | none => exact .none
    | reading => exact .reading
    | handling req hopen => exact (hidle _ hopen).elim
    | upgrading req => exact .upgrading req
    | lost hcalls hdead => exact .lost hcalls (hs.dead hdead)

theorem exchanging_writeResponse {c : Connection P} {done calls : List LogEntry}
    (hout : c.outstanding = []) (hidle : Idle c.asyncResps) (hdone : Served done)
    (hcalls : Passed calls) (hlog : c.log = done ++ .doReadHeaders :: calls) :
    Exchanging c.writeResponse := by
  cases halive : c.isAlive
  · rw [writeResponse_of_dead halive]
    refine ⟨rfl, .ended hout hidle hdone (.lost hcalls halive) ?_⟩
    simp [hlog]
  · rw [writeResponse_of_alive halive]
    refine ⟨rfl, .writing (by simp [hout]) hidle ?_⟩
    simpa [hlog] using hdone.exchange hcalls

theorem Pending.idle_update {asyncResps : ℕ → AsyncResp} {handler : CompleteRequestHandler}
    {k : ℕ} (h : Pending asyncResps handler k) {r : AsyncResp} (hr : r.res.completed) :
    Idle (Function.update asyncResps k r) := by
  rintro j ⟨hj, hnot⟩
  by_cases hjk : j = k
  · simp [hjk, hr] at hnot
  · rw [Function.update_of_ne hjk] at hj hnot
    exact hjk (h.only j ⟨hj, hnot⟩)

theorem Exchanging.of_open {c : Connection P} (h : Exchanging c) {k : ℕ}
    (hopen : Open c.asyncResps k) : c.outstanding = [] ∧ c.req.isSome ∧ ∃ handler call done,
      Pending c.asyncResps handler k ∧ Passes handler call ∧ Served done ∧
        c.log = done ++ [.doReadHeaders, call] := by
  cases h.phase with
  | opening hout hidle hlog => exact (hidle k hopen).elim
  | reading hout hop hidle hdone hlog => exact (hidle k hopen).elim
  | pending hout hpending hreq hcall hdone hlog =>
    obtain rfl := hpending.only k hopen
    exact ⟨hout, hreq, _, _, _, hpending, hcall, hdone, hlog⟩
  | writing hout hidle hlog => exact (hidle k hopen).elim
  | ended hout hidle hdone hcurrent hlog => exact (hidle k hopen).elim

theorem exchanging_endResponse {c : Connection P} (h : Exchanging c) {k : ℕ}
    (halive : (c.asyncResps k).alive) :
    Exchanging (c.endResponse k) ∧ ¬ Open (c.endResponse k).asyncResps k ∧
      ((c.endResponse k).asyncResps k).alive := by
  by_cases hopen : Open c.asyncResps k
  · obtain ⟨hout, hreq, handler, call, done, hpending, hcall, hdone, hlog⟩ := h.of_open hopen
    by_cases hans :
        Answers (c.asyncResps k).res.completeRequestHandler (c.asyncResps k).res.result
    · obtain ⟨res, resp, hresp, heq⟩ := endResponse_of_answers hopen hans hreq
      rw [heq, writeResponse_asyncResps]
      have hidle := hpending.idle_update (r := { c.asyncResps k with res := resp }) hresp
      exact ⟨exchanging_writeResponse hout hidle hdone hcall.passed hlog, hidle k,
        by simpa using halive⟩
    · rw [endResponse_of_silent hopen hans]
      have hidle := hpending.idle_update (r := { c.asyncResps k with
        res := { (c.asyncResps k).res with completed := true } }) rfl
      refine ⟨⟨h.res_not_completed, .ended hout hidle hdone ?_ hlog⟩, hidle k,
        by simpa [Connection.setResponse] using halive⟩
      rw [hpending.handler_eq] at hans
      cases hcall with
      | handle req => exact (hans trivial).elim
      | upgrade req => exact .upgrading req
  · have hcompleted : (c.asyncResps k).res.completed := by
      by_contra hnot
      exact hopen ⟨halive, by simpa using hnot⟩
    rw [endResponse_of_completed hcompleted]
    exact ⟨h, hopen, halive⟩

theorem exchanging_dropResponse {c : Connection P} (h : Exchanging c) {k : ℕ}
    (halive : (c.asyncResps k).alive) : Exchanging (c.dropResponse k) := by
  obtain ⟨hend, hclosed, -⟩ := exchanging_endResponse h halive
  refine hend.same ⟨rfl, rfl, rfl, rfl, id, fun j => ?_, fun j => ?_⟩
  · by_cases hj : j = k
    · subst hj
      refine ⟨fun hopen => ?_, fun hopen => (hclosed hopen).elim⟩
      simpa [Connection.dropResponse] using hopen.alive
    · constructor <;> rintro ⟨h1, h2⟩ <;>
        exact ⟨by simpa [Connection.dropResponse, hj] using h1,
          by simpa [Connection.dropResponse, hj] using h2⟩
  · by_cases hj : j = k
    · simp [Connection.dropResponse, hj]
    · simp [Connection.dropResponse, hj]

theorem exchanging_newResponse {c : Connection P} {handler : CompleteRequestHandler}
    {call : LogEntry} {done : List LogEntry} (hres : c.res.completed = false)
    (hout : c.outstanding = []) (hidle : Idle c.asyncResps) (hreq : c.req.isSome)
    (hcall : Passes handler call) (hdone : Served done)
    (hlog : c.log = done ++ [.doReadHeaders, call]) (result : ℕ) :
    Exchanging (c.newResponse handler result) ∧
      Pending (c.newResponse handler result).asyncResps handler c.created := by
  have hpending : Pending (c.newResponse handler result).asyncResps handler c.created := by
    refine ⟨⟨?_, ?_⟩, ?_, ?_⟩
    · simp [Connection.newResponse]
    · simp [Connection.newResponse]
    · simp [Connection.newResponse]
    · rintro j ⟨hj, hnot⟩
      by_contra hjk
      simp only [Connection.newResponse, Function.update_of_ne hjk] at hj hnot
      exact hidle j ⟨hj, hnot⟩
  exact ⟨⟨hres, .pending hout hpending hreq hcall hdone hlog⟩, hpending⟩

theorem endResponse_twice {c : Connection P} (h : Exchanging c) {k : ℕ}
    (halive : (c.asyncResps k).alive) : (c.endResponse k).endResponse k = c.endResponse k := by
  obtain ⟨-, hclosed, halive'⟩ := exchanging_endResponse h halive
  refine endResponse_of_completed ?_
  by_contra hnot
  exact hclosed ⟨halive', by simpa using hnot⟩

/-- However often the handler ends the response before it returns, and whether
it keeps it, the response is at most ended once and dropped. -/
theorem dispatch_eq (c : Connection P) {handler : CompleteRequestHandler} {run : HandlerRun}
    (h : Exchanging (c.newResponse handler run.result)) : c.dispatch handler run =
      if run.keeps then
        if run.ends = 0 then c.newResponse handler run.result
        else (c.newResponse handler run.result).endResponse c.created
      else (c.newResponse handler run.result).dropResponse c.created := by
  have halive : ((c.newResponse handler run.result).asyncResps c.created).alive := by
    simp [Connection.newResponse]
  have htwice := endResponse_twice h halive
  unfold Connection.dispatch
  rcases hends : run.ends with _ | n
  · rfl
  · dsimp only
    rw [Function.iterate_succ_apply, Function.iterate_fixed htwice, if_neg (Nat.succ_ne_zero n)]
    unfold Connection.dropResponse
    rw [htwice]

theorem exchanging_dispatch {c : Connection P} {handler : CompleteRequestHandler}
    {call : LogEntry} {done : List LogEntry} (hres : c.res.completed = false)
    (hout : c.outstanding = []) (hidle : Idle c.asyncResps) (hreq : c.req.isSome)
    (hcall : Passes handler call) (hdone : Served done)
    (hlog : c.log = done ++ [.doReadHeaders, call]) (run : HandlerRun) :
    Exchanging (c.dispatch handler run) := by
  obtain ⟨h, hpending⟩ :=
    exchanging_newResponse hres hout hidle hreq hcall hdone hlog run.result
  rw [dispatch_eq c h]
  split_ifs
  · exact h
  · exact (exchanging_endResponse h hpending.isOpen.alive).1
  · exact exchanging_dropResponse h hpending.isOpen.alive

variable (parser : RequestParser P)

theorem completeOwn_eq {c : Connection P} (hreq : c.req.isSome) (result : ℕ) :
    c.completeOwn result =
      ({ c with res := { c.res with result := result } } : Connection P).writeResponse := by
  have hreq' : c.req.isNone = false := by simpa using hreq
  simp [Connection.completeOwn, hreq']

theorem exchanging_completeOwn {c : Connection P} {done : List LogEntry} (hreq : c.req.isSome)
    (hout : c.outstanding = []) (hidle : Idle c.asyncResps) (hdone : Served done)
    (hlog : c.log = done ++ [.doReadHeaders]) (result : ℕ) :
    Exchanging (c.completeOwn result) := by
  rw [completeOwn_eq hreq]
  exact exchanging_writeResponse hout hidle hdone .refused hlog

theorem exchanging_handle {c : Connection P} {done : List LogEntry}
    (hres : c.res.completed = false) (hout : c.outstanding = []) (hidle : Idle c.asyncResps)
    (hdone : Served done) (hlog : c.log = done ++ [.doReadHeaders]) (run : HandlerRun) :
    Exchanging (c.handle parser run) := by
  unfold Connection.handle
  dsimp only
  split_ifs with hbad hcompleted hauth hup htag
  · refine exchanging_completeOwn ?_ ?_ ?_ hdone ?_ _
    exacts [rfl, hout, hidle, hlog]
  · refine exchanging_completeOwn ?_ ?_ ?_ hdone ?_ _
    exacts [rfl, hout, hidle, hlog]
  · refine exchanging_completeOwn ?_ ?_ ?_ hdone ?_ _
    exacts [rfl, hout, hidle, hlog]
  · refine exchanging_dispatch ?_ ?_ ?_ ?_ (.upgrade (parser.get c.parser)) hdone ?_ run
    exacts [hres, hout, hidle, rfl, by simp [hlog]]
  · refine exchanging_dispatch ?_ ?_ ?_ ?_ (.handle (parser.get c.parser)) hdone ?_ run
    exacts [hres, hout, hidle, rfl, by simp [hlog]]
  · refine exchanging_dispatch ?_ ?_ ?_ ?_ (.handle (parser.get c.parser)) hdone ?_ run
    exacts [hres, hout, hidle, rfl, by simp [hlog]]

theorem exchanging_doReadHeaders {c : Connection P} (hres : c.res.completed = false)
    (hout : c.outstanding = []) (hidle : Idle c.asyncResps) (hdone : Served c.log) :
    Exchanging (c.doReadHeaders parser) := by
  refine ⟨hres, .reading ?_ (.inl rfl) hidle hdone rfl⟩
  simp [Connection.doReadHeaders, Connection.parse, hout]

theorem startDeadline_eq (c : Connection P) : c.startDeadline =
    { c with
      waits := if c.timerStarted then c.waits else c.waits.map Wait.cancel ++ [.waiting]
      timerStarted := true } := by
  unfold Connection.startDeadline
  split_ifs with h
  · rw [← h]
  · rfl

theorem exchanging_doRead {c : Connection P} {done : List LogEntry}
    (hres : c.res.completed = false) (hout : c.outstanding = []) (hidle : Idle c.asyncResps)
    (hdone : Served done) (hlog : c.log = done ++ [.doReadHeaders]) :
    Exchanging (c.doRead parser) := by
  unfold Connection.doRead
  rw [startDeadline_eq]
  refine ⟨hres, .reading ?_ (.inr ⟨!c.buffer.isEmpty, rfl⟩) hidle hdone hlog⟩
  simp [Connection.parse, hout]

theorem Exchanging.completes {c : Connection P} (h : Exchanging c) {op : Operation}
    (hop : op ∈ c.outstanding) : (c.finish op).outstanding = [] ∧ Idle c.asyncResps ∧
      (op = .handshake ∧ c.log = [] ∨ op = .write ∧ Served c.log ∨
        op ≠ .handshake ∧ op ≠ .write ∧
          ∃ done, Served done ∧ c.log = done ++ [.doReadHeaders]) := by
  cases h.phase with
  | opening hout hidle hlog =>
    obtain rfl : op = .handshake := by simpa [hout] using hop
    exact ⟨by simp [Connection.finish, hout], hidle, .inl ⟨rfl, hlog⟩⟩
  | @reading op' done hout hop' hidle hdone hlog =>
    obtain rfl : op = op' := by simpa [hout] using hop
    refine ⟨by simp [Connection.finish, hout], hidle, .inr (.inr ⟨?_, ?_, done, hdone, hlog⟩)⟩
    · rcases hop' with rfl | ⟨consumed, rfl⟩ <;> simp
    · rcases hop' with rfl | ⟨consumed, rfl⟩ <;> simp
  | pending hout hpending hreq hcall hdone hlog => simp [hout] at hop
  | writing hout hidle hlog =>
    obtain rfl : op = .write := by simpa [hout] using hop
    exact ⟨by simp [Connection.finish, hout], hidle, .inr (.inl ⟨rfl, hlog⟩)⟩
  | ended hout hidle hdone hcurrent hlog => simp [hout] at hop

theorem Exchanging.reads {c : Connection P} (h : Exchanging c) {op : Operation}
    (hop : op ∈ c.outstanding) (hread : op ≠ .handshake ∧ op ≠ .write) :
    (c.finish op).outstanding = [] ∧ Idle c.asyncResps ∧
      ∃ done, Served done ∧ c.log = done ++ [.doReadHeaders] := by
  obtain ⟨hout, hidle, ⟨rfl, -⟩ | ⟨rfl, -⟩ | ⟨-, -, hlog⟩⟩ := h.completes hop
  · exact (hread.1 rfl).elim
  · exact (hread.2 rfl).elim
  · exact ⟨hout, hidle, hlog⟩

theorem exchanging_afterReadHeader {c : Connection P} {done : List LogEntry}
    (hres : c.res.completed = false) (hout : c.outstanding = []) (hidle : Idle c.asyncResps)
    (hdone : Served done) (hlog : c.log = done ++ [.doReadHeaders]) (ec loggedIn : Bool)
    (run : HandlerRun) : Exchanging (c.afterReadHeader parser ec loggedIn run) := by
  unfold Connection.afterReadHeader
  dsimp only
  split_ifs
  all_goals first
    | exact ⟨hres, .ended hout hidle hdone .reading hlog⟩
    | refine exchanging_handle parser ?_ ?_ ?_ hdone ?_ run
      exacts [hres, hout, hidle, hlog]
    | refine exchanging_doRead parser ?_ ?_ ?_ hdone ?_
      exacts [hres, hout, hidle, hlog]

theorem exchanging_afterRead {c : Connection P} {done : List LogEntry}
    (hres : c.res.completed = false) (hout : c.outstanding = []) (hidle : Idle c.asyncResps)
    (hdone : Served done) (hlog : c.log = done ++ [.doReadHeaders]) (ec : Bool)
    (run : HandlerRun) : Exchanging (c.afterRead parser ec run) := by
  unfold Connection.afterRead
  dsimp only
  split_ifs
  all_goals first
    | exact ⟨hres, .ended hout hidle hdone .reading hlog⟩
    | refine exchanging_handle parser ?_ ?_ ?_ hdone ?_ run
      exacts [hres, hout, hidle, hlog]
    | refine exchanging_doRead parser ?_ ?_ ?_ hdone ?_
      exacts [hres, hout, hidle, hlog]

theorem exchanging_afterDoWrite {c : Connection P} (hres : c.res.completed = false)
    (hout : c.outstanding = []) (hidle : Idle c.asyncResps) (hlog : Served c.log) (ec : Bool) :
    Exchanging (c.afterDoWrite parser ec) := by
  unfold Connection.afterDoWrite
  dsimp only
  split_ifs
  · exact ⟨hres, .ended hout hidle hlog .none (by simp [Connection.cancelDeadlineTimer])⟩
  · exact ⟨hres, .ended hout hidle hlog .none
      (by simp [Connection.cancelDeadlineTimer, Connection.close])⟩
  · refine exchanging_doReadHeaders parser ?_ ?_ ?_ ?_
    exacts [rfl, hout, hidle, hlog]

theorem exchanging_receive {c : Connection P} (h : Exchanging c) {op : Operation}
    (hop : op ∈ c.outstanding) (hneeds : c.needsMore parser op) (bytes : List UInt8) :
    Exchanging (c.receive parser bytes) := by
  have hread : op ≠ .handshake ∧ op ≠ .write := by
    cases op <;> simp_all [Connection.needsMore]
  obtain ⟨-, -, -⟩ := h.reads hop hread
  cases h.phase with
  | opening hout hidle hlog => exact (hread.1 (by simpa [hout] using hop)).elim
  | @reading op' done hout hop' hidle hdone hlog =>
    refine ⟨?_, ?_⟩
    · unfold Connection.receive
      dsimp only
      split_ifs <;> exact h.res_not_completed
    · rcases hop' with rfl | ⟨consumed, rfl⟩
      · have hout' : (c.receive parser bytes).outstanding = [.readHeader] := by
          simp [Connection.receive, Connection.parse, hout]
        refine .reading hout' (.inl rfl) ?_ hdone ?_
        all_goals simp [Connection.receive, Connection.parse, hout, hidle, hlog]
      · have hout' : (c.receive parser bytes).outstanding = [.readSome true] := by
          simp [Connection.receive, Connection.parse, hout]
        refine .reading hout' (.inr ⟨true, rfl⟩) ?_ hdone ?_
        all_goals simp [Connection.receive, Connection.parse, hout, hidle, hlog]
  | pending hout hpending hreq hcall hdone hlog => simp [hout] at hop
  | writing hout hidle hlog => exact (hread.2 (by simpa [hout] using hop)).elim
  | ended hout hidle hdone hcurrent hlog => simp [hout] at hop

theorem same_setResult (c : Connection P) (k result : ℕ) : Same c (c.setResult k result) := by
  refine ⟨rfl, rfl, rfl, rfl, id, fun j => ?_, fun j => ?_⟩
  · by_cases hj : j = k
    · subst hj
      constructor <;> rintro ⟨h1, h2⟩ <;>
        exact ⟨by simpa [Connection.setResult, Connection.setResponse] using h1,
          by simpa [Connection.setResult, Connection.setResponse] using h2⟩
    · constructor <;> rintro ⟨h1, h2⟩ <;>
        exact ⟨by simpa [Connection.setResult, Connection.setResponse, hj] using h1,
          by simpa [Connection.setResult, Connection.setResponse, hj] using h2⟩
  · by_cases hj : j = k <;> simp [Connection.setResult, Connection.setResponse, hj]

theorem exchanging_setResult {c : Connection P} (h : Exchanging c) (k result : ℕ) :
    Exchanging (c.setResult k result) :=
  h.same (same_setResult c k result)

theorem setResult_alive {c : Connection P} {k : ℕ} (h : (c.asyncResps k).alive) (result : ℕ) :
    ((c.setResult k result).asyncResps k).alive := by
  simpa [Connection.setResult, Connection.setResponse] using h

theorem exchanging_step {c c' : Connection P} {event : Event} (h : Exchanging c)
    (hstep : c.step parser event = some c') : Exchanging c' := by
  cases steps_of_step hstep with
  | receive hopen hop hneeds hne hfits => exact exchanging_receive parser h hop hneeds _
  | handshake ec h2 hop =>
    obtain ⟨hout, hidle, ⟨-, hlog⟩ | ⟨hne, -⟩ | ⟨hne, -⟩⟩ := h.completes hop
    · have hlog' : (c.finish .handshake).log = [] ++ [] := hlog
      unfold Connection.afterSslHandshake
      split_ifs
      · exact ⟨h.res_not_completed, .ended hout hidle .nil .none hlog'⟩
      · exact ⟨h.res_not_completed, .ended hout hidle .nil .none hlog'⟩
      · refine exchanging_doReadHeaders parser h.res_not_completed hout hidle ?_
        rw [hlog']
        exact .nil
    · cases hne
    · exact (hne rfl).elim
  | @readHeader ec loggedIn run hop hread =>
    obtain ⟨hout, hidle, done, hdone, hlog⟩ := h.reads hop (by simp)
    have hres : (c.finish .readHeader).res.completed = false := h.res_not_completed
    exact exchanging_afterReadHeader parser hres hout hidle hdone hlog ec loggedIn run
  | @readSome ec consumed run hop hread =>
    obtain ⟨hout, hidle, done, hdone, hlog⟩ := h.reads hop (by simp)
    have hres : (c.finish (.readSome consumed)).res.completed = false := h.res_not_completed
    exact exchanging_afterRead parser hres hout hidle hdone hlog ec run
  | write ec hop =>
    obtain ⟨hout, hidle, ⟨hne, -⟩ | ⟨-, hlog⟩ | ⟨-, hne, -⟩⟩ := h.completes hop
    · cases hne
    · have hres : (c.finish .write).res.completed = false := h.res_not_completed
      exact exchanging_afterDoWrite parser hres hout hidle hlog ec
    · exact (hne rfl).elim
  | endResponse result halive =>
    exact (exchanging_endResponse (exchanging_setResult h _ result)
      (setResult_alive halive result)).1
  | dropResponse result halive =>
    exact exchanging_dropResponse (exchanging_setResult h _ result) (setResult_alive halive result)
  | timerExpires hwait => exact h.same ⟨rfl, rfl, rfl, rfl, id, fun _ => Iff.rfl, fun _ => rfl⟩
  | timerHandler hwait hover =>
    unfold Connection.timerHandler
    dsimp only
    split_ifs
    · exact h.same ⟨rfl, rfl, rfl, rfl, id, fun _ => Iff.rfl, fun _ => rfl⟩
    · refine h.same ⟨rfl, rfl, rfl, rfl, fun hdead => ?_, fun _ => Iff.rfl, fun _ => rfl⟩
      unfold Connection.isAlive at hdead ⊢
      split_ifs at hdead
      exact if_pos ‹_›

theorem exchanging_opened (build : Build) (connectionCount : ℕ) :
    Exchanging (opened parser build connectionCount) := by
  have hidle : Idle fun _ : ℕ => ({} : AsyncResp) := fun k hk => by simpa using hk.alive
  unfold opened Connection.start
  dsimp only
  split_ifs
  · exact ⟨rfl, .ended rfl hidle .nil .none rfl⟩
  · exact ⟨rfl, .opening rfl hidle rfl⟩
  · exact exchanging_doReadHeaders parser rfl rfl hidle .nil

theorem always_exchanging (build : Build) (connectionCount : ℕ) (events : List Event) :
    Always (Connection.step parser) Exchanging (opened parser build connectionCount) events := by
  refine always_of_step ?_ (exchanging_opened parser build connectionCount) events
  intro c event c' h hstep
  exact exchanging_step parser h hstep

/-- In every run of a connection there is at most one operation at a time and
one response for each request. -/
theorem one_response_per_request (build : Build) (connectionCount : ℕ) (events : List Event) :
    Always (Connection.step parser) OneResponse (opened parser build connectionCount) events :=
  (always_exchanging parser build connectionCount events).mono fun _ => oneResponse_of_exchanging

end CrowCore.ConnectionExchange
