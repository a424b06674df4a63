import CrowCore.ConnectionDeadline

set_option autoImplicit false

/-!
# Who decides over keep-alive

The member `keepAlive` is assigned after the checks that answer a malformed
request, so that such a request is answered with the value of the one before.
-/
namespace CrowCore.KeepAlive
open IncrementalParser GuardedRuns HttpConnection ConnectionExchange ConnectionDeadline

variable {P : Type}

section Conditions
variable (parser : RequestParser P)

/-- What the completion of the write does with the connection. -/
def Fate (c c' : Connection P) (keepAlive : Bool) : Prop :=
  if keepAlive then c'.adaptorOpen = c.adaptorOpen ∧ c'.outstanding = [.readHeader]
  else c'.adaptorOpen = false ∧ c'.outstanding = []

/-- The request that is being answered decides how its response is marked and
what becomes of the connection. -/
def OwnFate (c : Connection P) : Prop :=
  .write ∈ c.outstanding → ∃ m, c.req = some m ∧ c.res.keepAlive = m.keepAlive ∧
    ∀ c', c.step parser (.write false) = some c' → Fate c c' m.keepAlive

/-- A malformed request that is answered asks for the connection to be kept. -/
def KeepsIfMalformed (c : Connection P) : Event → Prop
  | .readHeader ec loggedIn _ => ¬ Refused parser c ec loggedIn → parser.isDone c.parser →
      (parser.get c.parser).malformed → c.isAlive → (parser.get c.parser).keepAlive
  | .readSome ec _ => ec = false → parser.isDone c.parser →
      (parser.get c.parser).malformed → c.isAlive → (parser.get c.parser).keepAlive
  | _ => True

end Conditions

/-- The members that belong to the request and not to its response. -/
structure Frame (c c' : Connection P) : Prop where
  keepAlive_eq : c'.keepAlive = c.keepAlive
  req_eq : c'.req = c.req
  expectedHash_eq : c'.res.expectedHash = c.res.expectedHash

theorem Frame.refl (c : Connection P) : Frame c c := ⟨rfl, rfl, rfl⟩

theorem Frame.trans {c d e : Connection P} (h : Frame c d) (h' : Frame d e) : Frame c e :=
  ⟨h'.keepAlive_eq.trans h.keepAlive_eq, h'.req_eq.trans h.req_eq,
    h'.expectedHash_eq.trans h.expectedHash_eq⟩

theorem Frame.of_same {c d c' : Connection P} (h : Frame d c')
    (hkeepAlive : d.keepAlive = c.keepAlive) (hreq : d.req = c.req)
    (hhash : d.res.expectedHash = c.res.expectedHash) : Frame c c' :=
  Frame.trans ⟨hkeepAlive, hreq, hhash⟩ h

theorem endResponse_cases (c : Connection P) (k : ℕ) : c.endResponse k = c ∨
    ∃ res : Response, c.endResponse k = c.setResponse k res ∨
      c.endResponse k = (c.setResponse k res).completed k := by
  unfold Connection.endResponse
  dsimp only
  split
  · exact .inl rfl
  · refine .inr ⟨{ (c.asyncResps k).res with completed := true }, ?_⟩
    split
    · exact .inl rfl
    · exact .inr rfl
    · split
      · exact .inr rfl
      · exact .inl rfl

theorem frame_writeResponse (c : Connection P) : Frame c c.writeResponse := by
  cases h : c.isAlive
  · rw [writeResponse_of_dead h]
    exact ⟨rfl, rfl, rfl⟩
  · rw [writeResponse_of_alive h]
    exact ⟨rfl, rfl, rfl⟩

theorem frame_completed (c : Connection P) (k : ℕ) : Frame c (c.completed k) := by
  unfold Connection.completed Connection.completeRequest
  split_ifs
  · exact ⟨rfl, rfl, rfl⟩
  · dsimp only
    rw [setResponse_writeResponse]
    exact (frame_writeResponse _).of_same rfl rfl rfl

theorem frame_endResponse (c : Connection P) (k : ℕ) : Frame c (c.endResponse k) := by
  rcases endResponse_cases c k with heq | ⟨res, heq | heq⟩ <;> rw [heq]
  · exact Frame.refl c
  · exact ⟨rfl, rfl, rfl⟩
  · exact (frame_completed _ k).of_same rfl rfl rfl

theorem frame_dropResponse (c : Connection P) (k : ℕ) : Frame c (c.dropResponse k) :=
  (frame_endResponse c k).trans ⟨rfl, rfl, rfl⟩

theorem frame_dispatch (c : Connection P) (handler : CompleteRequestHandler) (run : HandlerRun) :
    Frame c (c.dispatch handler run) := by
  have hends : ∀ (n : ℕ) (d : Connection P),
      Frame d ((fun d : Connection P => d.endResponse c.created)^[n] d) := by
    intro n
    induction n with
    | zero => exact Frame.refl
    | succ n ih => exact fun d => (frame_endResponse d _).trans (ih _)
  have hnew : Frame c (c.newResponse handler run.result) := ⟨rfl, rfl, rfl⟩
  unfold Connection.dispatch
  dsimp only
  split_ifs
  · exact hnew.trans (hends _ _)
  · exact (hnew.trans (hends _ _)).trans (frame_dropResponse _ _)

theorem frame_completeOwn (c : Connection P) (result : ℕ) : Frame c (c.completeOwn result) := by
  unfold Connection.completeOwn
  dsimp only
  split_ifs
  · exact ⟨rfl, rfl, rfl⟩
  · exact (frame_writeResponse _).of_same rfl rfl rfl

def Marked (c : Connection P) : Prop := .write ∈ c.outstanding → c.res.keepAlive = c.keepAlive

theorem marked_writeResponse (c : Connection P) : Marked c.writeResponse := by
  intro _
  cases h : c.isAlive
  · rw [writeResponse_of_dead h]
    rfl
  · rw [writeResponse_of_alive h]
    rfl

theorem marked_of_nil {c : Connection P} (hout : c.outstanding = []) : Marked c := by
  simp [Marked, hout]

theorem marked_completed {c : Connection P} (h : Marked c) (k : ℕ) : Marked (c.completed k) := by
  unfold Connection.completed Connection.completeRequest
  split_ifs
  · exact h
  · exact marked_writeResponse _

theorem marked_endResponse {c : Connection P} (h : Marked c) (k : ℕ) :
    Marked (c.endResponse k) := by
  have hset : ∀ res, Marked (c.setResponse k res) := fun _ => h
  rcases endResponse_cases c k with heq | ⟨res, heq | heq⟩ <;> rw [heq]
  · exact h
  · exact hset res
  · exact marked_completed (hset res) k

theorem marked_dispatch {c : Connection P} (h : Marked c) (handler : CompleteRequestHandler)
    (run : HandlerRun) : Marked (c.dispatch handler run) := by
  have hends : ∀ (n : ℕ) (d : Connection P), Marked d →
      Marked ((fun d : Connection P => d.endResponse c.created)^[n] d) := by
    intro n
    induction n with
    | zero => exact fun _ hd => hd
    | succ n ih => exact fun d hd => ih _ (marked_endResponse hd _)
  have hnew : Marked (c.newResponse handler run.result) := h
  unfold Connection.dispatch
  dsimp only
  split_ifs
  · exact hends _ _ hnew
  · exact marked_endResponse (hends _ _ hnew) _

/-- The hash that is expected is that of a request which was handled last, and
there is none after an upgrade. -/
def Expects (c : Connection P) (m : Message) : Prop :=
  (c.log.getLast? = some (.handle m) ∧
    c.res.expectedHash = if m.ifNoneMatch.isEmpty then none else some m.ifNoneMatch) ∨
  (c.log.getLast? = some (.handleUpgrade m) ∧ c.res.expectedHash = none)

/-- What a connection carries from one request to the next, and then to the
response. -/
structure Carried (c : Connection P) : Prop where
  marked : Marked c
  fresh : ∀ op ∈ c.outstanding, op ≠ .write → c.keepAlive = true ∧ c.res.expectedHash = none
  answering : ∀ k, Open c.asyncResps k →
    ∃ m, c.req = some m ∧ c.keepAlive = m.keepAlive ∧ Expects c m
  opening : .handshake ∈ c.outstanding → c.req = none

/-- The member belongs to the request that is being answered. -/
def OwnKeepAlive (c : Connection P) : Prop :=
  .write ∈ c.outstanding → ∃ m, c.req = some m ∧ c.keepAlive = m.keepAlive

theorem carried_of_nil {c : Connection P} (hout : c.outstanding = []) (hidle : Idle c.asyncResps) :
    Carried c :=
  ⟨marked_of_nil hout, by simp [hout], fun k hopen => (hidle k hopen).elim, by simp [hout]⟩

theorem ownKeepAlive_of_nil {c : Connection P} (hout : c.outstanding = []) : OwnKeepAlive c := by
  simp [OwnKeepAlive, hout]

theorem carried_of_reading {c : Connection P} {op : Operation} (hout : c.outstanding = [op])
    (hop : op ≠ .write) (hidle : Idle c.asyncResps)
    (hfresh : c.keepAlive = true ∧ c.res.expectedHash = none)
    (hopening : op = .handshake → c.req = none) : Carried c ∧ OwnKeepAlive c := by
  have hwrite : .write ∉ c.outstanding := by simpa [hout] using hop.symm
  refine ⟨⟨fun h => (hwrite h).elim, fun _ _ _ => hfresh, fun k hopen => (hidle k hopen).elim,
    fun h => hopening ?_⟩, fun h => (hwrite h).elim⟩
  simpa [hout, eq_comm] using h

variable (parser : RequestParser P)

theorem fate_afterDoWrite {c : Connection P} (hout : c.outstanding = []) :
    Fate c (c.afterDoWrite parser false) c.keepAlive := by
  unfold Fate Connection.afterDoWrite
  dsimp only
  cases hkeepAlive : c.keepAlive <;>
    simp [Connection.cancelDeadlineTimer, Connection.close, Connection.doReadHeaders,
      Connection.parse, hkeepAlive, hout]

theorem ownFate_iff {c : Connection P} (h : Exchanging c) (hmarked : Marked c) :
    OwnFate parser c ↔ OwnKeepAlive c := by
  refine forall_congr' fun hwrite => ⟨?_, ?_⟩
  · rintro ⟨m, hreq, hres, -⟩
    exact ⟨m, hreq, (hmarked hwrite).symm.trans hres⟩
  · rintro ⟨m, hreq, hkeepAlive⟩
    refine ⟨m, hreq, (hmarked hwrite).trans hkeepAlive, fun c' hstep => ?_⟩
    obtain ⟨hout, -⟩ := h.completes hwrite
    obtain ⟨-, hstep⟩ := Option.ite_none_right_eq_some.1 hstep
    obtain rfl := Option.some.inj hstep
    rw [← hkeepAlive]
    exact fate_afterDoWrite (c := c.finish .write) parser hout

theorem idle_endResponse {c : Connection P} (h : Exchanging c) {k : ℕ}
    (hopen : Open c.asyncResps k) : Idle (c.endResponse k).asyncResps := by
  obtain ⟨hout, hreq, handler, call, done, hpending, hcall, hdone, hlog⟩ := h.of_open hopen
  by_cases hans : Answers (c.asyncResps k).res.completeRequestHandler (c.asyncResps k).res.result
  · obtain ⟨res, resp, hresp, heq⟩ := endResponse_of_answers hopen hans hreq
    rw [heq, writeResponse_asyncResps]
    exact hpending.idle_update hresp
  · rw [endResponse_of_silent hopen hans]
    exact hpending.idle_update rfl

theorem handle_members (c : Connection P) (hres : c.res.completed = false) (run : HandlerRun) :
    (c.handle parser run).req = some (parser.get c.parser) ∧ (c.handle parser run).keepAlive =
      if (parser.get c.parser).malformed then c.keepAlive else (parser.get c.parser).keepAlive := by
  unfold Connection.handle
  dsimp only
  split_ifs with hbad hcompleted
  · exact ⟨(frame_completeOwn _ _).req_eq, (frame_completeOwn _ _).keepAlive_eq⟩
  · rw [hres] at hcompleted
    cases hcompleted
  · exact ⟨(frame_completeOwn _ _).req_eq, (frame_completeOwn _ _).keepAlive_eq⟩
  all_goals exact ⟨(frame_dispatch _ _ _).req_eq, (frame_dispatch _ _ _).keepAlive_eq⟩

theorem marked_handle {c : Connection P} (hout : c.outstanding = []) (run : HandlerRun) :
    Marked (c.handle parser run) := by
  have hown : ∀ (d : Connection P) (result : ℕ), d.outstanding = [] →
      Marked (d.completeOwn result) := by
    intro d result hd
    unfold Connection.completeOwn
    dsimp only
    split_ifs
    · exact marked_of_nil hd
    · exact marked_writeResponse _
  unfold Connection.handle
  dsimp only
  split_ifs
  · exact hown _ _ hout
  · exact hown _ _ hout
  · exact hown _ _ hout
  all_goals
    refine marked_dispatch ?_ _ _
    exact marked_of_nil hout

theorem idle_dropResponse {c : Connection P} (h : Exchanging c) {k : ℕ}
    (hopen : Open c.asyncResps k) : Idle (c.dropResponse k).asyncResps := by
  intro j hj
  refine idle_endResponse h hopen j ?_
  by_cases hjk : j = k
  · have hdead := hj.alive
    simp [Connection.dropResponse, hjk] at hdead
  · refine ⟨?_, ?_⟩
    · simpa [Connection.dropResponse, hjk] using hj.alive
    · simpa [Connection.dropResponse, hjk] using hj.not_completed

theorem dispatch_of_open {c : Connection P} {handler : CompleteRequestHandler} {call : LogEntry}
    {done : List LogEntry} (hres : c.res.completed = false) (hout : c.outstanding = [])
    (hidle : Idle c.asyncResps) (hreq : c.req.isSome) (hcall : Passes handler call)
    (hdone : Served done) (hlog : c.log = done ++ [.doReadHeaders, call]) {run : HandlerRun} {k : ℕ}
    (hopen : Open (c.dispatch handler run).asyncResps k) :
    c.dispatch handler run = c.newResponse handler run.result := by
  obtain ⟨h, hpending⟩ :=
    exchanging_newResponse hres hout hidle hreq hcall hdone hlog run.result
  rw [dispatch_eq c h] at hopen ⊢
  split_ifs at hopen ⊢
  · rfl
  · exact (idle_endResponse h hpending.isOpen k hopen).elim
  · exact (idle_dropResponse h hpending.isOpen k hopen).elim

theorem expects_handle {c : Connection P} {done : List LogEntry} (hres : c.res.completed = false)
    (hout : c.outstanding = []) (hidle : Idle c.asyncResps) (hdone : Served done)
    (hlog : c.log = done ++ [.doReadHeaders]) (hhash : c.res.expectedHash = none) (run : HandlerRun)
    {k : ℕ} (hopen : Open (c.handle parser run).asyncResps k) :
    Expects (c.handle parser run) (parser.get c.parser) := by
  have hown : ∀ (d : Connection P) (result : ℕ), Open (d.completeOwn result).asyncResps k →
      d.req.isSome → Idle d.asyncResps → False := by
    intro d result hd hreq hidle
    rw [completeOwn_eq hreq, writeResponse_asyncResps] at hd
    exact hidle k hd
  unfold Connection.handle at hopen ⊢
  dsimp only at hopen ⊢
  split_ifs at hopen ⊢ with hbad hcompleted hauth hup htag
  · exact (hown _ _ hopen rfl hidle).elim
  · exact (hown _ _ hopen rfl hidle).elim
  · exact (hown _ _ hopen rfl hidle).elim
  · rw [dispatch_of_open ?_ ?_ ?_ ?_ (.upgrade (parser.get c.parser)) hdone ?_ hopen]
    · exact .inr ⟨by simp [Connection.newResponse], hhash⟩
    exacts [hres, hout, hidle, rfl, by simp [hlog]]
  · rw [dispatch_of_open ?_ ?_ ?_ ?_ (.handle (parser.get c.parser)) hdone ?_ hopen]
    · exact .inl ⟨by simp [Connection.newResponse], by rw [if_pos htag]; exact hhash⟩
    exacts [hres, hout, hidle, rfl, by simp [hlog]]
  · rw [dispatch_of_open ?_ ?_ ?_ ?_ (.handle (parser.get c.parser)) hdone ?_ hopen]
    · exact .inl ⟨by simp [Connection.newResponse], by rw [if_neg htag]; rfl⟩
    exacts [hres, hout, hidle, rfl, by simp [hlog]]

theorem carried_handle {c : Connection P} {done : List LogEntry} (hres : c.res.completed = false)
    (hout : c.outstanding = []) (hidle : Idle c.asyncResps) (hdone : Served done)
    (hlog : c.log = done ++ [.doReadHeaders])
    (hfresh : c.keepAlive = true ∧ c.res.expectedHash = none) (run : HandlerRun) :
    Carried (c.handle parser run) ∧ (OwnKeepAlive (c.handle parser run) ↔
      ((parser.get c.parser).malformed → c.isAlive → (parser.get c.parser).keepAlive)) := by
  obtain ⟨hreq, hmember⟩ := handle_members parser c hres run
  have heffect := effect_handle parser hres hout hidle hdone hlog run
  have hquiet : ∀ op ∈ (c.handle parser run).outstanding, op = .write := by
    intro op hop
    by_cases hwrites : AnsweredAtOnce parser c run
    · rw [(heffect.write hwrites).1, hout] at hop
      simpa using hop
    · rw [(heffect.quiet hwrites).1, hout] at hop
      cases hop
  by_cases hbad : (parser.get c.parser).malformed = true
  · have hwrites : AnsweredAtOnce parser c run ↔ c.isAlive := by
      simp [AnsweredAtOnce, hbad]
    have hidle' : Idle (c.handle parser run).asyncResps := by
      unfold Connection.handle
      dsimp only
      rw [if_pos hbad, completeOwn_eq rfl, writeResponse_asyncResps]
      exact hidle
    rw [if_pos hbad, hfresh.1] at hmember
    refine ⟨⟨marked_handle parser hout run, fun op hop hne => (hne (hquiet op hop)).elim,
      fun k hopen => (hidle' k hopen).elim, fun hop => by cases hquiet _ hop⟩, ?_⟩
    by_cases halive : c.isAlive
    · have hwrite : .write ∈ (c.handle parser run).outstanding := by
        rw [(heffect.write (hwrites.2 halive)).1]
        simp
      simp [OwnKeepAlive, hwrite, hreq, hmember, hbad, halive]
    · have hnone := (heffect.quiet fun h => halive (hwrites.1 h)).1
      exact iff_of_true (ownKeepAlive_of_nil (hnone.trans hout)) fun _ h => (halive h).elim
  · rw [if_neg hbad] at hmember
    refine ⟨⟨marked_handle parser hout run, fun op hop hne => (hne (hquiet op hop)).elim,
      fun k hopen => ⟨_, hreq, hmember, ?_⟩, fun hop => by cases hquiet _ hop⟩,
      iff_of_true (fun _ => ⟨_, hreq, hmember⟩) fun h => (hbad h).elim⟩
    exact expects_handle parser hres hout hidle hdone hlog hfresh.2 run hopen

theorem carried_doRead {c : Connection P} (hout : c.outstanding = []) (hidle : Idle c.asyncResps)
    (hfresh : c.keepAlive = true ∧ c.res.expectedHash = none) :
    Carried (c.doRead parser) ∧ OwnKeepAlive (c.doRead parser) := by
  have heq : (c.doRead parser).outstanding = [.readSome !c.buffer.isEmpty] := by
    simp [Connection.doRead, startDeadline_eq, Connection.parse, hout]
  refine carried_of_reading heq (by simp) ?_ ?_ (by simp)
  · simpa [Connection.doRead, startDeadline_eq, Connection.parse] using hidle
  · simpa [Connection.doRead, startDeadline_eq, Connection.parse] using hfresh

theorem carried_afterReadHeader {c : Connection P} {done : List LogEntry}
    (hres : c.res.completed = false) (hout : c.outstanding = []) (hidle : Idle c.asyncResps)
    (hdone : Served done) (hlog : c.log = done ++ [.doReadHeaders])
    (hfresh : c.keepAlive = true ∧ c.res.expectedHash = none)
    (ec loggedIn : Bool) (run : HandlerRun) :
    Carried (c.afterReadHeader parser ec loggedIn run) ∧
      (OwnKeepAlive (c.afterReadHeader parser ec loggedIn run) ↔
        KeepsIfMalformed parser c (.readHeader ec loggedIn run)) := by
  have hrefused := refused_iff parser c ec loggedIn
  change _ ∧ (_ ↔ (¬ Refused parser c ec loggedIn → _ → _))
  unfold Connection.afterReadHeader
  dsimp only
  split
  · rename_i herror
    exact ⟨carried_of_nil hout hidle, iff_of_true (ownKeepAlive_of_nil hout)
      fun h => (h (hrefused.2 (.inl herror))).elim⟩
  · rename_i herror
    split
    · rename_i hlarge
      exact ⟨carried_of_nil hout hidle, iff_of_true (ownKeepAlive_of_nil hout)
        fun h => (h (hrefused.2 (.inr hlarge))).elim⟩
    · rename_i hlarge
      have hread : ¬ Refused parser c ec loggedIn := fun h => (hrefused.1 h).elim herror hlarge
      rw [forall_prop_of_true hread]
      split
      · rename_i hisDone
        rw [forall_prop_of_true (show parser.isDone c.parser from hisDone)]
        exact carried_handle (c := c.cancelDeadlineTimer.authenticate loggedIn) parser hres hout
          hidle hdone hlog hfresh run
      · rename_i hisDone
        have hreading := carried_doRead (c := c.cancelDeadlineTimer.authenticate loggedIn) parser
          hout hidle hfresh
        exact ⟨hreading.1, iff_of_true hreading.2 fun h => (hisDone h).elim⟩

theorem carried_doReadHeaders {c : Connection P} (hout : c.outstanding = [])
    (hidle : Idle c.asyncResps) (hfresh : c.keepAlive = true ∧ c.res.expectedHash = none) :
    Carried (c.doReadHeaders parser) ∧ OwnKeepAlive (c.doReadHeaders parser) := by
  have heq : (c.doReadHeaders parser).outstanding = [.readHeader] := by
    simp [Connection.doReadHeaders, Connection.parse, hout]
  exact carried_of_reading heq (by simp) hidle hfresh (by simp)

theorem carried_afterRead {c : Connection P} {done : List LogEntry}
    (hres : c.res.completed = false) (hout : c.outstanding = []) (hidle : Idle c.asyncResps)
    (hdone : Served done) (hlog : c.log = done ++ [.doReadHeaders])
    (hfresh : c.keepAlive = true ∧ c.res.expectedHash = none) (ec : Bool) (run : HandlerRun) :
    Carried (c.afterRead parser ec run) ∧
      (OwnKeepAlive (c.afterRead parser ec run) ↔
        KeepsIfMalformed parser c (.readSome ec run)) := by
  change _ ∧ (_ ↔ (ec = false → _ → _))
  have hd : ∃ d : Connection P, (if c.userSession then c.cancelDeadlineTimer else c) = d ∧
      d.res.completed = false ∧ d.outstanding = [] ∧ Idle d.asyncResps ∧ d.log = c.log ∧
        (d.keepAlive = true ∧ d.res.expectedHash = none) ∧ d.parser = c.parser ∧
          d.isAlive = c.isAlive := by
    refine ⟨_, rfl, ?_⟩
    split_ifs <;> exact ⟨hres, hout, hidle, rfl, hfresh, rfl, rfl⟩
  obtain ⟨d, heq, hres', hout', hidle', hlog', hfresh', hparser, halive⟩ := hd
  unfold Connection.afterRead
  rw [heq, ← hparser, ← halive]
  cases ec
  · by_cases hisDone : parser.isDone d.parser
    · have hhandle := carried_handle (c := d.cancelDeadlineTimer) parser hres' hout' hidle' hdone
        (hlog'.trans hlog) hfresh' run
      simp only [Bool.false_eq_true, if_false, hisDone, Bool.not_true, forall_const]
      exact hhandle
    · have hread := carried_doRead parser hout' hidle' hfresh'
      simp only [Bool.false_eq_true, if_false, hisDone, Bool.not_false, if_true]
      exact ⟨hread.1, iff_of_true hread.2 fun _ h => h.elim⟩
  · exact ⟨carried_of_nil hout hidle, iff_of_true (ownKeepAlive_of_nil hout) (by simp)⟩

theorem carried_afterDoWrite {c : Connection P} (hout : c.outstanding = [])
    (hidle : Idle c.asyncResps) (ec : Bool) :
    Carried (c.afterDoWrite parser ec) ∧ OwnKeepAlive (c.afterDoWrite parser ec) := by
  unfold Connection.afterDoWrite
  dsimp only
  split_ifs with hec hclose
  · exact ⟨carried_of_nil hout hidle, ownKeepAlive_of_nil hout⟩
  · exact ⟨carried_of_nil hout hidle, ownKeepAlive_of_nil hout⟩
  · refine carried_doReadHeaders parser ?_ ?_ ?_
    exacts [hout, hidle, ⟨by simpa using hclose, rfl⟩]

theorem carried_receive {c : Connection P} (h : Exchanging c) (hcarried : Carried c)
    {op : Operation} (hop : op ∈ c.outstanding) (hneeds : c.needsMore parser op)
    (bytes : List UInt8) :
    Carried (c.receive parser bytes) ∧ OwnKeepAlive (c.receive parser bytes) := by
  have hread : op ≠ .handshake ∧ op ≠ .write := by
    cases op <;> simp_all [Connection.needsMore]
  have hfresh := hcarried.fresh op hop hread.2
  cases h.phase with
  | opening hout hidle hlog => exact (hread.1 (by simpa [hout] using hop)).elim
  | @reading op' done hout hop' hidle hdone hlog =>
    rcases hop' with rfl | ⟨consumed, rfl⟩
    · have hout' : (c.receive parser bytes).outstanding = [.readHeader] := by
        simp [Connection.receive, Connection.parse, hout]
      refine carried_of_reading hout' (by simp) ?_ ?_ (by simp)
      all_goals simpa [Connection.receive, Connection.parse, hout]
    · have hout' : (c.receive parser bytes).outstanding = [.readSome true] := by
        simp [Connection.receive, Connection.parse, hout]
      refine carried_of_reading hout' (by simp) ?_ ?_ (by simp)
      all_goals simpa [Connection.receive, Connection.parse, hout]
  | pending hout hpending hreq hcall hdone hlog => simp [hout] at hop
  | writing hout hidle hlog => exact (hread.2 (by simpa [hout] using hop)).elim
  | ended hout hidle hdone hcurrent hlog => simp [hout] at hop

theorem carried_end {c : Connection P} (h : Exchanging c) (hcarried : Carried c) {k : ℕ}
    (halive : (c.asyncResps k).alive) : Carried (c.endResponse k) ∧
      (OwnKeepAlive c → OwnKeepAlive (c.endResponse k)) := by
  by_cases hopen : Open c.asyncResps k
  · obtain ⟨hout, -⟩ := h.of_open hopen
    obtain ⟨m, hreq, hkeepAlive, -⟩ := hcarried.answering k hopen
    have hframe := frame_endResponse c k
    have hidle := idle_endResponse h hopen
    have hquiet : ∀ op ∈ (c.endResponse k).outstanding, op = .write := by
      intro op hop
      have heffect := effect_endResponse h halive
      by_cases hwrites : Open c.asyncResps k ∧
          Answers (c.asyncResps k).res.completeRequestHandler (c.asyncResps k).res.result ∧
            c.isAlive
      · rw [(heffect.write hwrites).1, hout] at hop
        simpa using hop
      · rw [(heffect.quiet hwrites).1, hout] at hop
        cases hop
    refine ⟨⟨marked_endResponse hcarried.marked k, fun op hop hne => ?_,
      fun j hj => (hidle j hj).elim, fun hop => ?_⟩, fun _ _ => ⟨m, hframe.req_eq.trans hreq,
        hframe.keepAlive_eq.trans hkeepAlive⟩⟩
    · exact (hne (hquiet op hop)).elim
    · cases hquiet _ hop
  · have hcompleted : (c.asyncResps k).res.completed := by
      by_contra hnot
      exact hopen ⟨halive, by simpa using hnot⟩
    rw [endResponse_of_completed hcompleted]
    exact ⟨hcarried, id⟩

theorem carried_dropResponse {c : Connection P} (h : Exchanging c) (hcarried : Carried c) {k : ℕ}
    (halive : (c.asyncResps k).alive) : Carried (c.dropResponse k) ∧
      (OwnKeepAlive c → OwnKeepAlive (c.dropResponse k)) := by
  obtain ⟨hend, hown⟩ := carried_end h hcarried halive
  refine ⟨⟨hend.marked, hend.fresh, fun j hj => hend.answering j ?_, hend.opening⟩, hown⟩
  by_cases hjk : j = k
  · have hdead := hj.alive
    simp [Connection.dropResponse, hjk] at hdead
  · constructor
    · simpa [Connection.dropResponse, hjk] using hj.alive
    · simpa [Connection.dropResponse, hjk] using hj.not_completed

theorem Carried.same {c c' : Connection P} (h : Carried c) (hsame : Same c c')
    (hkeepAlive : c'.keepAlive = c.keepAlive) :
    Carried c' ∧ (OwnKeepAlive c → OwnKeepAlive c') := by
  refine ⟨⟨fun hwrite => ?_, fun op hop hne => ?_, fun k hopen => ?_, fun hop => ?_⟩,
    fun hown hwrite => ?_⟩
  · rw [hsame.res_eq, hkeepAlive]
    exact h.marked (hsame.outstanding_eq ▸ hwrite)
  · rw [hsame.res_eq, hkeepAlive]
    exact h.fresh op (hsame.outstanding_eq ▸ hop) hne
  · rw [hsame.req_eq, hkeepAlive]
    unfold Expects
    rw [hsame.log_eq, hsame.res_eq]
    exact h.answering k ((hsame.open_iff k).1 hopen)
  · rw [hsame.req_eq]
    exact h.opening (hsame.outstanding_eq ▸ hop)
  · rw [hsame.req_eq, hkeepAlive]
    exact hown (hsame.outstanding_eq ▸ hwrite)

theorem carried_step {c c' : Connection P} {event : Event} (h : Exchanging c)
    (hcarried : Carried c) (hstep : c.step parser event = some c') :
    Carried c' ∧ (OwnKeepAlive c → (OwnKeepAlive c' ↔ KeepsIfMalformed parser c event)) := by
  have hkept : Carried c' ∧ (OwnKeepAlive c → OwnKeepAlive c') →
      KeepsIfMalformed parser c event → Carried c' ∧
        (OwnKeepAlive c → (OwnKeepAlive c' ↔ KeepsIfMalformed parser c event)) :=
    fun hboth hguard => ⟨hboth.1, fun hown => iff_of_true (hboth.2 hown) hguard⟩
  cases steps_of_step hstep with
  | receive hopen hop hneeds hne hfits =>
    obtain ⟨hnew, hown⟩ := carried_receive parser h hcarried hop hneeds _
    exact hkept ⟨hnew, fun _ => hown⟩ trivial
  | handshake ec h2 hop =>
    obtain ⟨hout, hidle, -⟩ := h.completes hop
    refine hkept ?_ trivial
    unfold Connection.afterSslHandshake
    split_ifs
    · exact ⟨carried_of_nil hout hidle, fun _ => ownKeepAlive_of_nil hout⟩
    · exact ⟨carried_of_nil hout hidle, fun _ => ownKeepAlive_of_nil hout⟩
    · obtain ⟨hnew, hown⟩ := carried_doReadHeaders (c := c.finish .handshake) parser hout hidle
        (hcarried.fresh _ hop (by simp))
      exact ⟨hnew, fun _ => hown⟩
  | @readHeader ec loggedIn run hop hread =>
    obtain ⟨hout, hidle, done, hdone, hlog⟩ := h.reads hop (by simp)
    obtain ⟨hnew, hiff⟩ := carried_afterReadHeader (c := c.finish .readHeader) parser
      h.res_not_completed hout hidle hdone hlog (hcarried.fresh _ hop (by simp)) ec loggedIn run
    exact ⟨hnew, fun _ => hiff⟩
  | @readSome ec consumed run hop hread =>
    obtain ⟨hout, hidle, done, hdone, hlog⟩ := h.reads hop (by simp)
    obtain ⟨hnew, hiff⟩ := carried_afterRead (c := c.finish (.readSome consumed)) parser
      h.res_not_completed hout hidle hdone hlog (hcarried.fresh _ hop (by simp)) ec run
    exact ⟨hnew, fun _ => hiff⟩
  | write ec hop =>
    obtain ⟨hout, hidle, -⟩ := h.completes hop
    obtain ⟨hnew, hown⟩ := carried_afterDoWrite (c := c.finish .write) parser hout hidle ec
    exact hkept ⟨hnew, fun _ => hown⟩ trivial
  | @endResponse k result halive =>
    obtain ⟨hset, hset'⟩ := hcarried.same (same_setResult c k result) rfl
    obtain ⟨hend, hend'⟩ := carried_end (exchanging_setResult h k result) hset
      (setResult_alive halive result)
    exact hkept ⟨hend, fun hown => hend' (hset' hown)⟩ trivial
  | @dropResponse k result halive =>
    obtain ⟨hset, hset'⟩ := hcarried.same (same_setResult c k result) rfl
    obtain ⟨hdrop, hdrop'⟩ := carried_dropResponse (exchanging_setResult h k result) hset
      (setResult_alive halive result)
    exact hkept ⟨hdrop, fun hown => hdrop' (hset' hown)⟩ trivial
  | timerExpires hwait =>
    exact hkept (hcarried.same ⟨rfl, rfl, rfl, rfl, id, fun _ => Iff.rfl, fun _ => rfl⟩ rfl) trivial
  | timerHandler hwait hover =>
    refine hkept ?_ trivial
    unfold Connection.timerHandler
    dsimp only
    split_ifs
    · exact ⟨⟨hcarried.marked, hcarried.fresh, hcarried.answering, hcarried.opening⟩, id⟩
    · exact ⟨⟨hcarried.marked, hcarried.fresh, hcarried.answering, hcarried.opening⟩, id⟩

theorem carried_opened (build : Build) (connectionCount : ℕ) :
    Carried (opened parser build connectionCount) ∧
      OwnKeepAlive (opened parser build connectionCount) := by
  have hidle : Idle fun _ : ℕ => ({} : AsyncResp) := fun k hk => by simpa using hk.alive
  unfold opened Connection.start
  dsimp only
  split_ifs
  · exact ⟨carried_of_nil rfl hidle, ownKeepAlive_of_nil rfl⟩
  · exact carried_of_reading rfl (by simp) hidle ⟨rfl, rfl⟩ fun _ => rfl
  · exact carried_doReadHeaders parser rfl hidle ⟨rfl, rfl⟩

theorem always_carried (build : Build) (connectionCount : ℕ) (events : List Event) :
    Always (Connection.step parser) (fun c => Exchanging c ∧ Carried c)
      (opened parser build connectionCount) events := by
  refine (always_exchanging parser build connectionCount events).and_of_step ?_
    (carried_opened parser build connectionCount).1
  intro c event c' hexch hcarried hstep
  exact (carried_step parser hexch hcarried hstep).1

/-- In every run each request decides about its own connection if and only if no
malformed request that is answered asks for the connection to be closed. -/
theorem ownFate_iff_keepsIfMalformed (build : Build) (connectionCount : ℕ) (events : List Event) :
    Always (Connection.step parser) (OwnFate parser) (opened parser build connectionCount) events ↔
      Guarded (Connection.step parser) (KeepsIfMalformed parser)
        (opened parser build connectionCount) events := by
  obtain ⟨hcarried, hown⟩ := carried_opened parser build connectionCount
  have hbase := always_carried parser build connectionCount events
  rw [← always_iff_guarded (I := fun c => (Exchanging c ∧ Carried c) ∧ OwnKeepAlive c) ?_
    ⟨hbase.head, hown⟩]
  · constructor
    · intro h
      refine (hbase.and h).mono fun c hc => ⟨hc.1, ?_⟩
      exact (ownFate_iff parser hc.1.1 hc.1.2.marked).1 hc.2
    · intro h
      refine h.mono fun c hc => ?_
      exact (ownFate_iff parser hc.1.1 hc.1.2.marked).2 hc.2
  · intro c event c' hc hstep
    obtain ⟨⟨hexch, hcarried⟩, hown⟩ := hc
    obtain ⟨hcarried', hiff⟩ := carried_step parser hexch hcarried hstep
    rw [← hiff hown]
    exact and_iff_right ⟨exchanging_step parser hexch hstep, hcarried'⟩

def sampleMessage : Message := { target := "/", host := "", keepAlive := false }

def closeHeader : List UInt8 := ascii "GET / HTTP/1.1\r\nConnection: close\r\n\r\n"

/-- The answer to the first request of a connection is marked as keep-alive. -/
theorem malformed_kept_alive :
    let parser := requestParser closeHeader (by decide) 0 sampleMessage
    ¬ Always (Connection.step parser) (OwnFate parser) (opened parser { ssl := false } 0)
      [.receive closeHeader, .readHeader false false {}] := by
  intro parser h
  have hrun : (run (Connection.step parser) (opened parser { ssl := false } 0)
      [.receive closeHeader, .readHeader false false {}]).map
        (fun c => (c.outstanding, c.req, c.res.keepAlive)) =
      some ([.write], some sampleMessage, true) := by decide +kernel
  obtain ⟨c, hc, heq⟩ := Option.map_eq_some_iff.1 hrun
  obtain ⟨hout, hreq, hres⟩ : c.outstanding = [.write] ∧ c.req = some sampleMessage ∧
      c.res.keepAlive = true := by simpa using heq
  obtain ⟨m, hm, hkeepAlive, -⟩ := Always.of_run h hc (by simp [hout])
  obtain rfl := Option.some.inj (hreq.symm.trans hm)
  rw [hres] at hkeepAlive
  cases hkeepAlive

end CrowCore.KeepAlive
