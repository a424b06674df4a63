import CrowCore.ConnectionExchange

set_option autoImplicit false

/-!
# The deadline of a connection

A cancelled wait leaves the timer marked as started until its handler has run.
An operation that the same callback starts gets no deadline then.
-/
namespace CrowCore.ConnectionDeadline
open IncrementalParser GuardedRuns HttpConnection ConnectionExchange

variable {P : Type}

/-- A body is read without a session, or a response is written. -/
def Watched (c : Connection P) : Prop :=
  (∃ consumed, .readSome consumed ∈ c.outstanding) ∧ c.userSession = false ∨
    .write ∈ c.outstanding

def HasDeadline (c : Connection P) : Prop := Watched c → .waiting ∈ c.waits

section Conditions
variable (parser : RequestParser P)

def Refused (c : Connection P) (ec loggedIn : Bool) : Prop :=
  ec ∨ (c.isAlive = false ∧ (parser.get c.parser).isUpgrade = false) ∨
    (c.build.authx ∧ loggedIn = false ∧
      (parser.get c.parser).contentLength.any (loggedOutPostBodyLimit < ·))

def AnsweredAtOnce (c : Connection P) (run : HandlerRun) : Prop :=
  c.isAlive ∧ ((parser.get c.parser).malformed ∨ c.unauthorized (parser.get c.parser) ∨
    (run.ends ≠ 0 ∨ run.keeps = false) ∧
      ((parser.get c.parser).upgrades → run.result ≠ 200))

/-- What starts a watched operation does not find the timer marked as started by
a wait that is over, and the deadline does not expire under one. -/
def Armed (c : Connection P) : Event → Prop
  | .readHeader ec loggedIn run => ¬ Refused parser c ec loggedIn →
      (if parser.isDone c.parser then AnsweredAtOnce parser (c.authenticate loggedIn) run
        else (c.authenticate loggedIn).userSession = false) → c.timerStarted = false
  | .readSome ec run => ec = false → parser.isDone c.parser → AnsweredAtOnce parser c run →
      c.timerStarted = false
  | .endResponse k result | .dropResponse k result => Open c.asyncResps k →
      Answers (c.asyncResps k).res.completeRequestHandler result → c.isAlive →
      c.timerStarted = false ∨ .waiting ∈ c.waits
  | .timerExpires => ¬ Watched c
  | _ => True

end Conditions

def restarted (timerStarted : Bool) (waits : List Wait) : List Wait :=
  if timerStarted then waits else waits.map Wait.cancel ++ [.waiting]

theorem waiting_restarted (timerStarted : Bool) (waits : List Wait) :
    .waiting ∈ restarted timerStarted waits ↔ timerStarted = false ∨ .waiting ∈ waits := by
  cases timerStarted <;> simp [restarted]

theorem not_waiting_cancel (waits : List Wait) : .waiting ∉ waits.map Wait.cancel := by
  rw [List.mem_map]
  rintro ⟨wait, -, hwait⟩
  cases wait <;> cases hwait

/-- What a function does to the operations and the waits: it starts a write, with
`startDeadline`, or nothing. -/
structure Effect (c c' : Connection P) (writes : Prop) : Prop where
  write : writes → c'.outstanding = c.outstanding ++ [.write] ∧
    c'.waits = restarted c.timerStarted c.waits
  quiet : ¬ writes → c'.outstanding = c.outstanding ∧ c'.waits = c.waits

theorem Effect.congr {c c' : Connection P} {writes writes' : Prop} (h : Effect c c' writes)
    (hiff : writes ↔ writes') : Effect c c' writes' :=
  ⟨fun hw => h.write (hiff.2 hw), fun hw => h.quiet fun hw' => hw (hiff.1 hw')⟩

theorem Effect.of_same {c d c' : Connection P} {writes : Prop} (h : Effect d c' writes)
    (hout : d.outstanding = c.outstanding) (hwaits : d.waits = c.waits)
    (htimer : d.timerStarted = c.timerStarted) : Effect c c' writes := by
  obtain ⟨hwrite, hquiet⟩ := h
  rw [hout, hwaits] at hquiet
  rw [hout, hwaits, htimer] at hwrite
  exact ⟨hwrite, hquiet⟩

theorem Effect.hasDeadline_iff {c c' : Connection P} {writes : Prop} (h : Effect c c' writes)
    (hout : c.outstanding = []) :
    HasDeadline c' ↔ (writes → c.timerStarted = false ∨ .waiting ∈ c.waits) := by
  unfold HasDeadline Watched
  by_cases hw : writes
  · obtain ⟨hout', hwaits⟩ := h.write hw
    rw [hout', hwaits, waiting_restarted, hout]
    simp [hw]
  · obtain ⟨hout', hwaits⟩ := h.quiet hw
    simp [hout', hout, hw]

theorem effect_writeResponse {c d : Connection P} (hout : d.outstanding = c.outstanding)
    (hwaits : d.waits = c.waits) (htimer : d.timerStarted = c.timerStarted)
    (halive : d.isAlive = c.isAlive) : Effect c d.writeResponse c.isAlive := by
  constructor
  · intro h
    rw [writeResponse_of_alive (halive.trans h), ← hout, ← hwaits, ← htimer]
    exact ⟨rfl, rfl⟩
  · intro h
    rw [writeResponse_of_dead (halive.trans (by simpa using h))]
    exact ⟨hout, hwaits⟩

theorem effect_none (c : Connection P) {writes : Prop} (h : ¬ writes) : Effect c c writes :=
  ⟨fun hw => (h hw).elim, fun _ => ⟨rfl, rfl⟩⟩

theorem effect_endResponse {c : Connection P} (h : Exchanging c) {k : ℕ}
    (halive : (c.asyncResps k).alive) : Effect c (c.endResponse k) (Open c.asyncResps k ∧
      Answers (c.asyncResps k).res.completeRequestHandler (c.asyncResps k).res.result ∧
        c.isAlive) := by
  by_cases hopen : Open c.asyncResps k
  · by_cases hans :
        Answers (c.asyncResps k).res.completeRequestHandler (c.asyncResps k).res.result
    · obtain ⟨-, hreq, -⟩ := h.of_open hopen
      obtain ⟨res, resp, -, heq⟩ := endResponse_of_answers hopen hans hreq
      have heffect : Effect c (c.endResponse k) c.isAlive :=
        heq ▸ effect_writeResponse rfl rfl rfl rfl
      refine heffect.congr ?_
      simp [hopen, hans]
    · rw [endResponse_of_silent hopen hans]
      exact ⟨fun hw => (hans hw.2.1).elim, fun _ => ⟨rfl, rfl⟩⟩
  · have hcompleted : (c.asyncResps k).res.completed := by
      by_contra hnot
      exact hopen ⟨halive, by simpa using hnot⟩
    rw [endResponse_of_completed hcompleted]
    exact effect_none c fun hw => hopen hw.1

theorem effect_dispatch {c : Connection P} {handler : CompleteRequestHandler} {call : LogEntry}
    {done : List LogEntry} (hres : c.res.completed = false) (hout : c.outstanding = [])
    (hidle : Idle c.asyncResps) (hreq : c.req.isSome) (hcall : Passes handler call)
    (hdone : Served done) (hlog : c.log = done ++ [.doReadHeaders, call]) (run : HandlerRun) :
    Effect c (c.dispatch handler run) (c.isAlive ∧ (run.ends ≠ 0 ∨ run.keeps = false) ∧
      Answers (some handler) run.result) := by
  obtain ⟨h, hpending⟩ :=
    exchanging_newResponse hres hout hidle hreq hcall hdone hlog run.result
  have hend := effect_endResponse h hpending.isOpen.alive
  have hnew : (c.newResponse handler run.result).asyncResps c.created =
      { res := { result := run.result, completeRequestHandler := some handler }
        alive := true } := by
    simp [Connection.newResponse]
  rw [hpending.handler_eq, hnew] at hend
  have heffect : Effect c ((c.newResponse handler run.result).endResponse c.created)
      (c.isAlive ∧ Answers (some handler) run.result) := by
    refine ⟨fun hw => hend.write ⟨hpending.isOpen, hw.2, hw.1⟩, fun hw => hend.quiet ?_⟩
    exact fun hw' => hw ⟨hw'.2.2, hw'.2.1⟩
  rw [dispatch_eq c h]
  split_ifs with hkeeps hends
  · exact ⟨fun hw => by simp [hkeeps, hends] at hw, fun _ => ⟨rfl, rfl⟩⟩
  · refine heffect.congr ?_
    simp [hends]
  · have hdrop : Effect c ((c.newResponse handler run.result).dropResponse c.created)
        (c.isAlive ∧ Answers (some handler) run.result) := ⟨heffect.write, heffect.quiet⟩
    refine hdrop.congr ?_
    simp [hkeeps]

variable (parser : RequestParser P)

theorem effect_completeOwn {c d : Connection P} (hreq : d.req.isSome)
    (hout : d.outstanding = c.outstanding) (hwaits : d.waits = c.waits)
    (htimer : d.timerStarted = c.timerStarted) (halive : d.isAlive = c.isAlive) (result : ℕ) :
    Effect c (d.completeOwn result) c.isAlive := by
  rw [completeOwn_eq hreq]
  exact effect_writeResponse hout hwaits htimer halive

theorem effect_handle {c : Connection P} {done : List LogEntry} (hres : c.res.completed = false)
    (hout : c.outstanding = []) (hidle : Idle c.asyncResps) (hdone : Served done)
    (hlog : c.log = done ++ [.doReadHeaders]) (run : HandlerRun) :
    Effect c (c.handle parser run) (AnsweredAtOnce parser c run) := by
  unfold Connection.handle AnsweredAtOnce
  dsimp only
  split_ifs with hbad hcompleted hauth hup htag
  · refine (effect_completeOwn ?_ ?_ ?_ ?_ ?_ _).congr ?_
    exacts [rfl, rfl, rfl, rfl, rfl, by simp [hbad]]
  · rw [hres] at hcompleted
    cases hcompleted
  · have hauth' : c.unauthorized (parser.get c.parser) = true := hauth
    refine (effect_completeOwn ?_ ?_ ?_ ?_ ?_ _).congr ?_
    exacts [rfl, rfl, rfl, rfl, rfl, by simp [hauth']]
  · have hauth' : ¬ c.unauthorized (parser.get c.parser) = true := hauth
    refine ((effect_dispatch ?_ ?_ ?_ ?_ (.upgrade (parser.get c.parser)) hdone ?_ run).of_same
      ?_ ?_ ?_).congr ?_
    exacts [hres, hout, hidle, rfl, by simp [hlog], rfl, rfl, rfl, by
      by_cases hok : run.result = 200
      · simp [Answers, hok, hbad, hauth', hup]
      · simp [Answers, hok, hbad, hauth', Connection.isAlive]]
  · have hauth' : ¬ c.unauthorized (parser.get c.parser) = true := hauth
    refine ((effect_dispatch ?_ ?_ ?_ ?_ (.handle (parser.get c.parser)) hdone ?_ run).of_same
      ?_ ?_ ?_).congr ?_
    exacts [hres, hout, hidle, rfl, by simp [hlog], rfl, rfl, rfl,
      by simp [Answers, hbad, hauth', hup, Connection.isAlive]]
  · have hauth' : ¬ c.unauthorized (parser.get c.parser) = true := hauth
    refine ((effect_dispatch ?_ ?_ ?_ ?_ (.handle (parser.get c.parser)) hdone ?_ run).of_same
      ?_ ?_ ?_).congr ?_
    exacts [hres, hout, hidle, rfl, by simp [hlog], rfl, rfl, rfl,
      by simp [Answers, hbad, hauth', hup, Connection.isAlive]]

theorem hasDeadline_of_nil {c : Connection P} (hout : c.outstanding = []) : HasDeadline c := by
  simp [HasDeadline, Watched, hout]

theorem hasDeadline_doRead_iff {c : Connection P} (hout : c.outstanding = []) :
    HasDeadline (c.doRead parser) ↔
      (c.userSession = false → c.timerStarted = false ∨ .waiting ∈ c.waits) := by
  have hout' : (c.doRead parser).outstanding = [.readSome !c.buffer.isEmpty] := by
    simp [Connection.doRead, startDeadline_eq, Connection.parse, hout]
  have hwaits : (c.doRead parser).waits = restarted c.timerStarted c.waits := by
    simp [Connection.doRead, startDeadline_eq, Connection.parse, restarted]
  have hsession : (c.doRead parser).userSession = c.userSession := by
    simp [Connection.doRead, startDeadline_eq, Connection.parse]
  simp [HasDeadline, Watched, hout', hwaits, hsession, waiting_restarted]

theorem refused_iff (c : Connection P) (ec loggedIn : Bool) : Refused parser c ec loggedIn ↔
    (ec || (!c.isAlive && !(parser.get c.parser).isUpgrade)) = true ∨
      (c.build.authx && !(c.authenticate loggedIn).userSession &&
        (parser.get c.parser).contentLength.any (loggedOutPostBodyLimit < ·)) = true := by
  unfold Refused Connection.authenticate
  cases c.build.authx <;> cases ec <;> simp

theorem hasDeadline_afterReadHeader_iff {c : Connection P} {done : List LogEntry}
    (hres : c.res.completed = false) (hout : c.outstanding = []) (hidle : Idle c.asyncResps)
    (hdone : Served done) (hlog : c.log = done ++ [.doReadHeaders]) (ec loggedIn : Bool)
    (run : HandlerRun) : HasDeadline (c.afterReadHeader parser ec loggedIn run) ↔
      Armed parser c (.readHeader ec loggedIn run) := by
  have hnot := not_waiting_cancel c.waits
  have hrefused := refused_iff parser c ec loggedIn
  change _ ↔ (¬ Refused parser c ec loggedIn → _ → _)
  unfold Connection.afterReadHeader
  dsimp only
  split
  · rename_i herror
    exact iff_of_true (hasDeadline_of_nil hout) fun h => (h (hrefused.2 (.inl herror))).elim
  · rename_i herror
    split
    · rename_i hlarge
      exact iff_of_true (hasDeadline_of_nil hout) fun h => (h (hrefused.2 (.inr hlarge))).elim
    · rename_i hlarge
      have hread : ¬ Refused parser c ec loggedIn := fun h => (hrefused.1 h).elim herror hlarge
      rw [forall_prop_of_true hread]
      split
      · rename_i hisDone
        have heffect : Effect (c.cancelDeadlineTimer.authenticate loggedIn)
            ((c.cancelDeadlineTimer.authenticate loggedIn).handle parser run)
            (AnsweredAtOnce parser (c.authenticate loggedIn) run) :=
          effect_handle (c := c.cancelDeadlineTimer.authenticate loggedIn) parser hres hout hidle
            hdone hlog run
        rw [if_pos (show parser.isDone c.parser from hisDone), heffect.hasDeadline_iff hout]
        exact imp_congr_right fun _ => or_iff_left hnot
      · rename_i hisDone
        rw [if_neg (show ¬ parser.isDone c.parser from hisDone),
          hasDeadline_doRead_iff (c := c.cancelDeadlineTimer.authenticate loggedIn) parser hout]
        exact imp_congr_right fun _ => or_iff_left hnot

theorem hasDeadline_afterRead_iff {c : Connection P} {done : List LogEntry}
    (hres : c.res.completed = false) (hout : c.outstanding = []) (hidle : Idle c.asyncResps)
    (hdone : Served done) (hlog : c.log = done ++ [.doReadHeaders])
    (hwait : c.userSession = false → .waiting ∈ c.waits) (ec : Bool) (run : HandlerRun) :
    HasDeadline (c.afterRead parser ec run) ↔ Armed parser c (.readSome ec run) := by
  have hnot : ∀ waits : List Wait, .waiting ∉ waits.map Wait.cancel := not_waiting_cancel
  change _ ↔ (ec = false → _ → _ → _)
  unfold Connection.afterRead
  dsimp only
  cases ec
  · by_cases hisDone : parser.isDone c.parser
    · cases huser : c.userSession
      · have heffect : Effect c.cancelDeadlineTimer (c.cancelDeadlineTimer.handle parser run)
            (AnsweredAtOnce parser c run) :=
          effect_handle (c := c.cancelDeadlineTimer) parser hres hout hidle hdone hlog run
        simp only [Bool.false_eq_true, if_false, hisDone, Bool.not_true, forall_const]
        rw [heffect.hasDeadline_iff hout]
        exact imp_congr_right fun _ => or_iff_left (hnot _)
      · have heffect : Effect c.cancelDeadlineTimer.cancelDeadlineTimer
            (c.cancelDeadlineTimer.cancelDeadlineTimer.handle parser run)
            (AnsweredAtOnce parser c run) :=
          effect_handle (c := c.cancelDeadlineTimer.cancelDeadlineTimer) parser hres hout hidle
            hdone hlog run
        have hisDone' : parser.isDone c.cancelDeadlineTimer.parser = true := hisDone
        simp only [Bool.false_eq_true, if_false, if_true, hisDone', hisDone, Bool.not_true,
          forall_const]
        rw [heffect.hasDeadline_iff hout]
        exact imp_congr_right fun _ => or_iff_left (hnot _)
    · cases huser : c.userSession
      · simp only [Bool.false_eq_true, if_false, hisDone, Bool.not_false, if_true]
        rw [hasDeadline_doRead_iff parser hout]
        exact iff_of_true (fun h => .inr (hwait h)) fun _ h => h.elim
      · have hisDone' : ¬ parser.isDone c.cancelDeadlineTimer.parser = true := hisDone
        simp only [Bool.false_eq_true, if_false, if_true, hisDone', hisDone, Bool.not_false]
        rw [hasDeadline_doRead_iff (c := c.cancelDeadlineTimer) parser hout]
        refine iff_of_true (fun h => ?_) fun _ h => h.elim
        have h' : c.userSession = false := h
        rw [huser] at h'
        cases h'
  · exact iff_of_true (hasDeadline_of_nil hout) fun h => by cases h

theorem hasDeadline_afterDoWrite {c : Connection P} (hout : c.outstanding = []) (ec : Bool) :
    HasDeadline (c.afterDoWrite parser ec) := by
  unfold Connection.afterDoWrite
  dsimp only
  split_ifs
  · exact hasDeadline_of_nil hout
  · exact hasDeadline_of_nil hout
  · simp [HasDeadline, Watched, Connection.doReadHeaders, Connection.parse,
      Connection.cancelDeadlineTimer, hout]

theorem hasDeadline_end_iff {c : Connection P} (h : Exchanging c) (hdeadline : HasDeadline c)
    {k : ℕ} (halive : (c.asyncResps k).alive) (result : ℕ) :
    HasDeadline ((c.setResult k result).endResponse k) ↔
      Armed parser c (.endResponse k result) := by
  have h' := exchanging_setResult h k result
  have halive' := setResult_alive halive result
  have hresp : (c.setResult k result).asyncResps k =
      { c.asyncResps k with res := { (c.asyncResps k).res with result := result } } := by
    simp [Connection.setResult, Connection.setResponse]
  have hopen_iff := (same_setResult c k result).open_iff k
  by_cases hopen : Open c.asyncResps k
  · obtain ⟨hout, -⟩ := h.of_open hopen
    have heffect := effect_endResponse h' halive'
    rw [heffect.hasDeadline_iff hout, hopen_iff, hresp]
    exact ⟨fun hw ho ha hb => hw ⟨ho, ha, hb⟩, fun hw hc => hw hc.1 hc.2.1 hc.2.2⟩
  · have hcompleted : ((c.setResult k result).asyncResps k).res.completed := by
      by_contra hnot
      exact hopen (hopen_iff.1 ⟨halive', by simpa using hnot⟩)
    rw [endResponse_of_completed hcompleted]
    exact iff_of_true hdeadline fun ho => (hopen ho).elim

theorem watched_of_receive {c : Connection P} {bytes : List UInt8}
    (h : Watched (c.receive parser bytes)) : Watched c := by
  unfold Connection.receive at h
  dsimp only at h
  split_ifs at h
  · exact h
  · rcases h with ⟨⟨consumed, hop⟩, huser⟩ | hop
    · obtain ⟨op, hop, heq⟩ := List.mem_map.1 hop
      cases op with
      | readSome consumed => exact .inl ⟨⟨consumed, hop⟩, huser⟩
      | _ => cases heq
    · obtain ⟨op, hop, heq⟩ := List.mem_map.1 hop
      cases op with
      | write => exact .inr hop
      | _ => cases heq

theorem hasDeadline_step_iff {c c' : Connection P} {event : Event} (h : Exchanging c)
    (hdeadline : HasDeadline c) (hstep : c.step parser event = some c') :
    HasDeadline c' ↔ Armed parser c event := by
  cases steps_of_step hstep with
  | receive hopen hop hneeds hne hfits =>
    refine iff_of_true (fun hw => ?_) trivial
    have hwaits : ∀ bytes, (c.receive parser bytes).waits = c.waits := by
      intro bytes
      unfold Connection.receive
      dsimp only
      split_ifs <;> rfl
    rw [hwaits]
    exact hdeadline (watched_of_receive parser hw)
  | handshake ec h2 hop =>
    obtain ⟨hout, -⟩ := h.completes hop
    refine iff_of_true ?_ trivial
    unfold Connection.afterSslHandshake
    split_ifs
    · exact hasDeadline_of_nil hout
    · exact hasDeadline_of_nil hout
    · simp [HasDeadline, Watched, Connection.doReadHeaders, Connection.parse, hout]
  | @readHeader ec loggedIn run hop hread =>
    obtain ⟨hout, hidle, done, hdone, hlog⟩ := h.reads hop (by simp)
    have hres : (c.finish .readHeader).res.completed = false := h.res_not_completed
    exact hasDeadline_afterReadHeader_iff parser hres hout hidle hdone hlog ec loggedIn run
  | @readSome ec consumed run hop hread =>
    obtain ⟨hout, hidle, done, hdone, hlog⟩ := h.reads hop (by simp)
    have hres : (c.finish (.readSome consumed)).res.completed = false := h.res_not_completed
    exact hasDeadline_afterRead_iff parser hres hout hidle hdone hlog
      (fun huser => hdeadline (.inl ⟨⟨consumed, hop⟩, huser⟩)) ec run
  | write ec hop =>
    obtain ⟨hout, -⟩ := h.completes hop
    exact iff_of_true (hasDeadline_afterDoWrite parser hout ec) trivial
  | endResponse result halive => exact hasDeadline_end_iff parser h hdeadline halive result
  | dropResponse result halive => exact hasDeadline_end_iff parser h hdeadline halive result
  | timerExpires hwait =>
    refine forall_congr' fun _ => iff_of_false ?_ id
    simp only [List.mem_map, not_exists, not_and]
    intro wait _
    cases wait <;> simp [Wait.expire]
  | @timerHandler wait hwait hover =>
    have hsame : (c.timerHandler wait).waits = c.waits.erase wait ∧
        (c.timerHandler wait).outstanding = c.outstanding ∧
          (c.timerHandler wait).userSession = c.userSession := by
      unfold Connection.timerHandler
      dsimp only
      split_ifs <;> exact ⟨rfl, rfl, rfl⟩
    obtain ⟨hwaits, hout, huser⟩ := hsame
    refine iff_of_true (fun hw => ?_) trivial
    rw [Watched, hout, huser] at hw
    rw [hwaits, List.mem_erase_of_ne (Ne.symm hover)]
    exact hdeadline hw

theorem hasDeadline_opened (build : Build) (connectionCount : ℕ) :
    HasDeadline (opened parser build connectionCount) := by
  unfold opened Connection.start
  dsimp only
  split_ifs
  · exact hasDeadline_of_nil rfl
  · simp [HasDeadline, Watched, startDeadline_eq]
  · simp [HasDeadline, Watched, startDeadline_eq, Connection.doReadHeaders, Connection.parse]

/-- In every run each body read without a session and each write has its deadline
if and only if every step of the run is armed. -/
theorem deadline_iff_armed (build : Build) (connectionCount : ℕ) (events : List Event) :
    Always (Connection.step parser) HasDeadline (opened parser build connectionCount) events ↔
      Guarded (Connection.step parser) (Armed parser) (opened parser build connectionCount)
        events := by
  rw [← always_iff_guarded (I := fun c => Exchanging c ∧ HasDeadline c) ?_
    ⟨exchanging_opened parser build connectionCount,
      hasDeadline_opened parser build connectionCount⟩]
  · have hexch := always_exchanging parser build connectionCount events
    exact ⟨fun h => hexch.and h, fun h => h.mono fun _ hc => hc.2⟩
  · intro c event c' ⟨hexch, hdeadline⟩ hstep
    rw [← hasDeadline_step_iff parser hexch hdeadline hstep]
    exact and_iff_right (exchanging_step parser hexch hstep)

def sampleHeader : List UInt8 := ascii "POST / HTTP/1.1\r\nHost: a\r\nContent-Length: 1\r\n\r\n"

/-- The first body that a connection reads has no deadline. -/
theorem deadline_lost :
    let parser := requestParser sampleHeader (by decide) 1 { target := "/", host := "a" }
    ¬ Always (Connection.step parser) HasDeadline (opened parser { ssl := false } 0)
      [.receive sampleHeader, .readHeader false false {}] := by
  intro parser h
  have hrun : (run (Connection.step parser) (opened parser { ssl := false } 0)
      [.receive sampleHeader, .readHeader false false {}]).map
        (fun c => (c.outstanding, c.userSession, c.waits)) =
      some ([.readSome false], false, [.aborted]) := by decide +kernel
  obtain ⟨c, hc, heq⟩ := Option.map_eq_some_iff.1 hrun
  obtain ⟨hout, huser, hwaits⟩ : c.outstanding = [.readSome false] ∧ c.userSession = false ∧
      c.waits = [.aborted] := by simpa using heq
  have hdeadline := Always.of_run h hc (.inl ⟨⟨false, by simp [hout]⟩, huser⟩)
  simp [hwaits] at hdeadline

end CrowCore.ConnectionDeadline
