import CrowCore.ConnectionDeadline

set_option autoImplicit false

/-!
# Requests and the reads that return them

After a write the buffer is emptied, whatever is in it. Where no read returns
bytes past the end of the request that it completes, nothing is lost, and the
requests are handled as they were sent, however each of them was cut.
-/
namespace CrowCore.Segmentation
open IncrementalParser GuardedRuns HttpConnection ConnectionExchange ConnectionDeadline

variable {P : Type}

def handled (log : List LogEntry) : List Message :=
  log.filterMap fun
    | .handle req => some req
    | _ => none

def received (events : List Event) : List (List UInt8) :=
  events.filterMap fun
    | .receive bytes => some bytes
    | _ => none

/-- Requests that `handle` does not refuse itself. -/
def dispatched (requests : List Message) : List Message := requests.filter fun m => !m.malformed

/-- A keep-alive request, and reads that return its bytes and no others. -/
structure SplitRequest (parser : RequestParser P) where
  message : Message
  reads : List (List UInt8)
  encodes : parser.Encodes reads.flatten message
  keepAlive : message.keepAlive
  not_upgrades : message.upgrades = false
  fits : ∀ bytes ∈ reads, bytes ≠ [] ∧ bytes.length ≤ bufferCapacity

section Expected
variable (parser : RequestParser P)

/-- These bytes of the first request were received, and these requests are left
to be read or received. -/
def Expected (got : List UInt8) : List (Message × List (List UInt8)) → Prop
  | [] => got = []
  | (m, reads) :: rest => parser.Encodes (got ++ reads.flatten) m ∧
      ∀ x ∈ rest, parser.Encodes x.2.flatten x.1

variable {parser} {got : List UInt8} {left : List (Message × List (List UInt8))}

theorem Expected.next {rest : List (Message × List (List UInt8))}
    (h : ∀ x ∈ rest, parser.Encodes x.2.flatten x.1) : Expected parser [] rest := by
  cases rest with
  | nil => rfl
  | cons x rest =>
    refine ⟨?_, fun y hy => h y (List.mem_cons_of_mem _ hy)⟩
    simpa using h x List.mem_cons_self

theorem Expected.of_done (h : Expected parser got left)
    (hne : ∀ x ∈ left, ∀ bytes ∈ x.2, bytes ≠ [])
    (hdone : parser.isDone (parser.put parser.isDone parser.init got).1) :
    ∃ m rest, left = (m, []) :: rest ∧ Expected parser [] rest ∧
      parser.get (parser.put parser.isDone parser.init got).1 = m := by
  rcases left with _ | ⟨⟨m, reads⟩, rest⟩
  · obtain rfl : got = [] := h
    have hheader := parser.isHeaderDone_of_isDone _ hdone
    rw [Incremental.put_nil, parser.init_isHeaderDone] at hheader
    cases hheader
  · obtain ⟨hm, hrest⟩ := h
    have hnil : reads.flatten = [] := by
      by_contra hreads
      rw [hm.not_done hreads] at hdone
      cases hdone
    have hreads : reads = [] := by
      rcases reads with _ | ⟨bytes, reads⟩
      · rfl
      · have hbytes := hne _ List.mem_cons_self bytes List.mem_cons_self
        exact (hbytes (List.append_eq_nil_iff.1 hnil).1).elim
    rw [hnil, List.append_nil] at hm
    obtain ⟨s, hput, -, hget⟩ := hm
    exact ⟨m, rest, by rw [hreads], .next hrest, by rw [hput]; exact hget⟩

theorem Expected.done {m : Message} {rest : List (Message × List (List UInt8))}
    (h : Expected parser got ((m, []) :: rest)) :
    parser.isDone (parser.put parser.isDone parser.init got).1 := by
  obtain ⟨s, hput, hdone, -⟩ := h.1
  rw [List.flatten_nil, List.append_nil] at hput
  rw [hput]
  exact hdone

theorem Expected.receive {m : Message} {bytes : List UInt8} {reads : List (List UInt8)}
    {rest : List (Message × List (List UInt8))}
    (h : Expected parser got ((m, bytes :: reads) :: rest)) :
    Expected parser (got ++ bytes) ((m, reads) :: rest) := by
  obtain ⟨hm, hrest⟩ := h
  exact ⟨by simpa using hm, hrest⟩

end Expected

structure Kept (c c' : Connection P) : Prop where
  build_eq : c'.build = c.build
  parser_eq : c'.parser = c.parser
  buffer_eq : c'.buffer = c.buffer
  keepAlive_eq : c'.keepAlive = c.keepAlive
  adaptorOpen_eq : c'.adaptorOpen = c.adaptorOpen
  handled_eq : handled c'.log = handled c.log
  upgraded : ∀ req, .handleUpgrade req ∈ c'.log → .handleUpgrade req ∈ c.log
  not_expired : .expired ∉ c.waits → .expired ∉ c'.waits
  outstanding_sub : ∀ op ∈ c'.outstanding, op ∈ c.outstanding ∨ op = .write

theorem Kept.refl (c : Connection P) : Kept c c :=
  ⟨rfl, rfl, rfl, rfl, rfl, rfl, fun _ => id, id, fun _ => .inl⟩

theorem Kept.trans {c d e : Connection P} (h : Kept c d) (h' : Kept d e) : Kept c e where
  build_eq := h'.build_eq.trans h.build_eq
  parser_eq := h'.parser_eq.trans h.parser_eq
  buffer_eq := h'.buffer_eq.trans h.buffer_eq
  keepAlive_eq := h'.keepAlive_eq.trans h.keepAlive_eq
  adaptorOpen_eq := h'.adaptorOpen_eq.trans h.adaptorOpen_eq
  handled_eq := h'.handled_eq.trans h.handled_eq
  upgraded := fun req hreq => h.upgraded req (h'.upgraded req hreq)
  not_expired := fun hw => h'.not_expired (h.not_expired hw)
  outstanding_sub := fun op hop => (h'.outstanding_sub op hop).elim (h.outstanding_sub op) .inr

theorem not_expired_cancel {waits : List Wait} (h : .expired ∉ waits) :
    .expired ∉ waits.map Wait.cancel := by
  rw [List.mem_map]
  rintro ⟨wait, hwait, heq⟩
  cases wait with
  | waiting => cases heq
  | aborted => cases heq
  | expired => exact h hwait

theorem not_expired_restart {waits : List Wait} (h : .expired ∉ waits) (timerStarted : Bool) :
    .expired ∉ if timerStarted then waits else waits.map Wait.cancel ++ [.waiting] := by
  cases timerStarted
  · simpa using not_expired_cancel h
  · exact h

theorem kept_writeResponse (c : Connection P) : Kept c c.writeResponse := by
  cases halive : c.isAlive
  · rw [writeResponse_of_dead halive]
    refine ⟨rfl, rfl, rfl, rfl, rfl, ?_, fun req hreq => ?_, id, fun op => .inl⟩
    · simp [handled]
    · simpa using hreq
  · rw [writeResponse_of_alive halive]
    refine ⟨rfl, rfl, rfl, rfl, rfl, ?_, fun req hreq => ?_, fun h => ?_, fun op hop => ?_⟩
    · simp [handled]
    · simpa using hreq
    · exact not_expired_restart h c.timerStarted
    · simpa using hop

theorem kept_endResponse {c : Connection P} (h : Exchanging c) {k : ℕ}
    (halive : (c.asyncResps k).alive) : Kept c (c.endResponse k) := by
  by_cases hopen : Open c.asyncResps k
  · by_cases hans :
        Answers (c.asyncResps k).res.completeRequestHandler (c.asyncResps k).res.result
    · obtain ⟨-, hreq, -⟩ := h.of_open hopen
      obtain ⟨res, resp, -, heq⟩ := endResponse_of_answers hopen hans hreq
      rw [heq]
      exact { kept_writeResponse _ with }
    · rw [endResponse_of_silent hopen hans]
      exact ⟨rfl, rfl, rfl, rfl, rfl, rfl, fun _ => id, id, fun _ => .inl⟩
  · rw [endResponse_of_completed (by
      by_contra hnot
      exact hopen ⟨halive, by simpa using hnot⟩)]
    exact .refl c

theorem kept_dropResponse {c : Connection P} (h : Exchanging c) {k : ℕ}
    (halive : (c.asyncResps k).alive) : Kept c (c.dropResponse k) :=
  (kept_endResponse h halive).trans
    ⟨rfl, rfl, rfl, rfl, rfl, rfl, fun _ => id, id, fun _ => .inl⟩

variable (parser : RequestParser P)

structure Done (c : Connection P) (m : Message) : Prop where
  get_eq : parser.get c.parser = m
  authx : c.build.authx = false
  not_upgrades : m.upgrades = false
  keepAlive : m.keepAlive

structure PassedOn (c c' : Connection P) (m : Message) : Prop where
  build_eq : c'.build = c.build
  keepAlive : c.keepAlive → c'.keepAlive
  adaptorOpen_eq : c'.adaptorOpen = c.adaptorOpen
  handled_eq : handled c'.log = handled c.log ++ dispatched [m]
  upgraded : ∀ req, .handleUpgrade req ∈ c'.log → .handleUpgrade req ∈ c.log
  not_expired : .expired ∉ c.waits → .expired ∉ c'.waits
  outstanding : ∀ op ∈ c'.outstanding, op = .write

theorem Kept.passedOn {c d c' : Connection P} {m : Message} (h : Kept d c')
    (hbuild : d.build = c.build) (hkeep : c.keepAlive → d.keepAlive)
    (hopen : d.adaptorOpen = c.adaptorOpen)
    (hhandled : handled d.log = handled c.log ++ dispatched [m])
    (hup : ∀ req, .handleUpgrade req ∈ d.log → .handleUpgrade req ∈ c.log)
    (hwaits : d.waits = c.waits) (hout : d.outstanding = []) : PassedOn c c' m where
  build_eq := h.build_eq.trans hbuild
  keepAlive := fun hk => h.keepAlive_eq.trans (hkeep hk)
  adaptorOpen_eq := h.adaptorOpen_eq.trans hopen
  handled_eq := h.handled_eq.trans hhandled
  upgraded := fun req hreq => hup req (h.upgraded req hreq)
  not_expired := fun hw => h.not_expired (hwaits ▸ hw)
  outstanding := fun op hop => (h.outstanding_sub op hop).resolve_left (by simp [hout])

theorem kept_completeOwn {c : Connection P} (hreq : c.req.isSome) (result : ℕ) :
    Kept c (c.completeOwn result) := by
  rw [completeOwn_eq hreq]
  exact { kept_writeResponse _ with }

theorem kept_dispatch {c : Connection P} {handler : CompleteRequestHandler} {run : HandlerRun}
    (h : Exchanging (c.newResponse handler run.result)) : Kept c (c.dispatch handler run) := by
  have halive : ((c.newResponse handler run.result).asyncResps c.created).alive := by
    simp [Connection.newResponse]
  have hnew : Kept c (c.newResponse handler run.result) :=
    ⟨rfl, rfl, rfl, rfl, rfl, rfl, fun _ => id, id, fun _ => .inl⟩
  rw [dispatch_eq c h]
  split_ifs
  · exact hnew
  · exact hnew.trans (kept_endResponse h halive)
  · exact hnew.trans (kept_dropResponse h halive)

theorem isAlive_of_open {c : Connection P} (h : c.adaptorOpen) : c.isAlive := by
  simp [Connection.isAlive, h]

theorem handle_passes {c : Connection P} {m : Message} (hm : Done parser c m)
    (hres : c.res.completed = false) (hbad : m.malformed = false) (run : HandlerRun) :
    ∃ res : Response, res.completed = false ∧ c.handle parser run =
      ({ c with
        req := some m
        res := res
        keepAlive := m.keepAlive
        log := c.log ++ [.handle m] } : Connection P).dispatch .completeRequest run := by
  obtain ⟨rfl, hauth, hup, -⟩ := hm
  cases htag : (parser.get c.parser).ifNoneMatch.isEmpty
  · refine ⟨{ c.res with
      isAliveHelper := true, expectedHash := some (parser.get c.parser).ifNoneMatch }, hres, ?_⟩
    simp [Connection.handle, hbad, hres, Connection.unauthorized, hauth, hup, htag]
  · refine ⟨{ c.res with isAliveHelper := true }, hres, ?_⟩
    simp [Connection.handle, hbad, hres, Connection.unauthorized, hauth, hup, htag]

theorem handle_refuses {c : Connection P} {m : Message} (hm : Done parser c m)
    (hbad : m.malformed) (run : HandlerRun) : c.handle parser run =
      ({ c with req := some m } : Connection P).completeOwn 400 := by
  obtain ⟨rfl, -⟩ := hm
  simp [Connection.handle, hbad]

theorem passedOn_handle {c : Connection P} {done : List LogEntry} {m : Message}
    (hres : c.res.completed = false) (hout : c.outstanding = []) (hidle : Idle c.asyncResps)
    (hdone : Served done) (hlog : c.log = done ++ [.doReadHeaders]) (hm : Done parser c m)
    (run : HandlerRun) : PassedOn c (c.handle parser run) m ∧ (c.adaptorOpen →
      .write ∈ (c.handle parser run).outstanding ∨
        ∃ k, Open (c.handle parser run).asyncResps k) := by
  cases hbad : m.malformed
  · obtain ⟨res, hres', heq⟩ := handle_passes parser hm hres hbad run
    rw [heq]
    obtain ⟨h, hpending⟩ := exchanging_newResponse (c := { c with
      req := some m, res := res, keepAlive := m.keepAlive, log := c.log ++ [.handle m] }) hres' hout
      hidle rfl (.handle m) hdone (by simp [hlog]) run.result
    constructor
    · refine (kept_dispatch h).passedOn rfl (fun _ => hm.keepAlive) rfl ?_ ?_ rfl hout
      · simp [handled, dispatched, hbad]
      · intro req hreq
        simpa using hreq
    · intro hopen
      by_cases hends : run.ends ≠ 0 ∨ run.keeps = false
      · have heffect := effect_dispatch (c := { c with
          req := some m, res := res, keepAlive := m.keepAlive, log := c.log ++ [.handle m] }) hres'
          hout hidle rfl (.handle m) hdone (by simp [hlog]) run
        have hwrite := (heffect.write ⟨isAlive_of_open hopen, hends, trivial⟩).1
        exact .inl (by simp [hwrite])
      · obtain ⟨hends, hkeeps⟩ : run.ends = 0 ∧ run.keeps = true := by simpa using hends
        rw [dispatch_eq _ h, if_pos hkeeps, if_pos hends]
        exact .inr ⟨_, hpending.isOpen⟩
  · rw [handle_refuses parser hm hbad run]
    constructor
    · refine (kept_completeOwn rfl 400).passedOn rfl id rfl ?_ (fun _ => id) rfl hout
      simp [dispatched, hbad]
    · intro hopen
      have halive : ({ c with req := some m, res := { c.res with result := 400 } } :
          Connection P).isAlive := isAlive_of_open hopen
      rw [completeOwn_eq rfl, writeResponse_of_alive halive]
      simp

/-- The invariant: what was handled and what is left make up the requests, and
the parser and the buffer are those of the bytes received of the first request
that is left. -/
structure Aligned (requests : List Message) (c : Connection P) (got : List UInt8)
    (left : List (Message × List (List UInt8))) : Prop where
  authx : c.build.authx = false
  keepAlive : c.keepAlive
  not_upgraded : ∀ req, .handleUpgrade req ∉ c.log
  messages : ∀ x ∈ left, x.1.keepAlive ∧ x.1.upgrades = false
  reads : ∀ x ∈ left, ∀ bytes ∈ x.2, bytes ≠ [] ∧ bytes.length ≤ bufferCapacity
  handled_eq : handled c.log ++ dispatched (left.map Prod.fst) = dispatched requests
  expected : Expected parser got left
  opening : .handshake ∈ c.outstanding → c.parser = parser.init ∧ c.buffer = []
  header : .readHeader ∈ c.outstanding →
    (c.parser, c.buffer) = parser.put parser.isHeaderDone parser.init got
  body : ∀ consumed, .readSome consumed ∈ c.outstanding →
    (c.parser, c.buffer) = parser.put parser.isDone parser.init got
  between : .write ∈ c.outstanding ∨ .handshake ∈ c.outstanding ∨ (∃ k, Open c.asyncResps k) →
    got = []

variable {parser} {requests : List Message} {got : List UInt8}
  {left : List (Message × List (List UInt8))}

theorem aligned_handle {c : Connection P} {done : List LogEntry}
    (h : Aligned parser requests c got left) (hres : c.res.completed = false)
    (hout : c.outstanding = []) (hidle : Idle c.asyncResps) (hdone : Served done)
    (hlog : c.log = done ++ [.doReadHeaders])
    (hput : (c.parser, c.buffer) = parser.put parser.isDone parser.init got)
    (hisDone : parser.isDone c.parser) (run : HandlerRun) :
    ∃ m rest, left = (m, []) :: rest ∧ Done parser c m ∧
      Aligned parser requests (c.handle parser run) [] rest := by
  have hparser : (parser.put parser.isDone parser.init got).1 = c.parser := by rw [← hput]
  obtain ⟨m, rest, rfl, hrest, hget⟩ := h.expected.of_done
    (fun x hx bytes hbytes => (h.reads x hx bytes hbytes).1) (by rwa [hparser])
  obtain ⟨hkeep, hup⟩ := h.messages _ List.mem_cons_self
  have hm : Done parser c m := ⟨hparser ▸ hget, h.authx, hup, hkeep⟩
  obtain ⟨hpass, -⟩ := passedOn_handle parser hres hout hidle hdone hlog hm run
  refine ⟨m, rest, rfl, hm, ?_⟩
  refine ⟨hpass.build_eq ▸ h.authx, hpass.keepAlive h.keepAlive,
    fun req hreq => h.not_upgraded req (hpass.upgraded req hreq),
    fun x hx => h.messages x (List.mem_cons_of_mem _ hx),
    fun x hx => h.reads x (List.mem_cons_of_mem _ hx), ?_, hrest, ?_, ?_, ?_, fun _ => rfl⟩
  · rw [hpass.handled_eq, ← h.handled_eq, List.append_assoc]
    simp [dispatched, List.filter_cons]
    split_ifs <;> rfl
  · intro hop
    cases hpass.outstanding _ hop
  · intro hop
    cases hpass.outstanding _ hop
  · intro consumed hop
    cases hpass.outstanding _ hop

theorem aligned_doRead {c : Connection P} (h : Aligned parser requests c got left)
    (hout : c.outstanding = []) (hidle : Idle c.asyncResps)
    (hput : parser.put parser.isDone c.parser c.buffer =
      parser.put parser.isDone parser.init got) :
    Aligned parser requests (c.doRead parser) got left := by
  have heq : c.doRead parser = { c with
      waits := if c.timerStarted then c.waits else c.waits.map Wait.cancel ++ [.waiting]
      timerStarted := true
      parser := (parser.put parser.isDone c.parser c.buffer).1
      buffer := (parser.put parser.isDone c.parser c.buffer).2
      outstanding := [.readSome !c.buffer.isEmpty] } := by
    unfold Connection.doRead
    rw [startDeadline_eq]
    simp [Connection.parse, hout]
  rw [heq, hput]
  refine { h with opening := ?_, header := ?_, body := ?_, between := ?_ }
  · simp
  · simp
  · intro consumed hop
    rfl
  · rintro (hop | hop | ⟨k, hk⟩)
    · simp at hop
    · simp at hop
    · exact (hidle k hk).elim

theorem aligned_doReadHeaders {c : Connection P} (h : Aligned parser requests c [] left)
    (hout : c.outstanding = []) (hparser : c.parser = parser.init)
    (hbuffer : c.buffer = []) : Aligned parser requests (c.doReadHeaders parser) [] left := by
  have heq : c.doReadHeaders parser = { c with
      log := c.log ++ [.doReadHeaders], parser := parser.init, buffer := []
      outstanding := [.readHeader] } := by
    simp [Connection.doReadHeaders, Connection.parse, hout, hparser, hbuffer]
  rw [heq]
  refine { h with
    not_upgraded := ?_, handled_eq := ?_, opening := ?_, header := ?_, body := ?_, between := ?_ }
  · simpa using h.not_upgraded
  · simpa [handled] using h.handled_eq
  · simp
  · intro _
    rfl
  · simp
  · intro _
    rfl

theorem Aligned.finish {c : Connection P} (h : Aligned parser requests c got left)
    {op : Operation} (hout : (c.finish op).outstanding = []) (hidle : Idle c.asyncResps) :
    Aligned parser requests (c.finish op) got left := by
  refine { h with opening := ?_, header := ?_, body := ?_, between := ?_ }
  · simp [hout]
  · simp [hout]
  · simp [hout]
  · rintro (hop | hop | ⟨k, hk⟩)
    · simp [hout] at hop
    · simp [hout] at hop
    · exact (hidle k hk).elim

theorem Aligned.kept {c c' : Connection P} (h : Aligned parser requests c got left)
    (hk : Kept c c') (hbetween : .write ∈ c'.outstanding ∨ .handshake ∈ c'.outstanding ∨
      (∃ k, Open c'.asyncResps k) → got = []) : Aligned parser requests c' got left where
  authx := hk.build_eq ▸ h.authx
  keepAlive := hk.keepAlive_eq.trans h.keepAlive
  not_upgraded := fun req hreq => h.not_upgraded req (hk.upgraded req hreq)
  messages := h.messages
  reads := h.reads
  handled_eq := by rw [hk.handled_eq, h.handled_eq]
  expected := h.expected
  opening := fun hop => by
    rw [hk.parser_eq, hk.buffer_eq]
    exact h.opening ((hk.outstanding_sub _ hop).resolve_right (by simp))
  header := fun hop => by
    rw [hk.parser_eq, hk.buffer_eq]
    exact h.header ((hk.outstanding_sub _ hop).resolve_right (by simp))
  body := fun consumed hop => by
    rw [hk.parser_eq, hk.buffer_eq]
    exact h.body consumed ((hk.outstanding_sub _ hop).resolve_right (by simp))
  between := hbetween

theorem aligned_readHeader {c : Connection P} (hexch : Exchanging c)
    (h : Aligned parser requests c got left) (hop : .readHeader ∈ c.outstanding)
    (ec loggedIn : Bool) (run : HandlerRun) : ∃ got' left', Aligned parser requests
      ((c.finish .readHeader).afterReadHeader parser ec loggedIn run) got' left' ∧
        left.flatMap Prod.snd = left'.flatMap Prod.snd := by
  obtain ⟨hout, hidle, done, hdone, hlog⟩ := hexch.reads hop (by simp)
  have hfin := h.finish hout hidle
  have hput := h.header hop
  have hbody : parser.put parser.isDone c.parser c.buffer =
      parser.put parser.isDone parser.init got := by
    rw [← parser.put_header parser.init got, ← hput]
  unfold Connection.afterReadHeader
  dsimp only
  split_ifs with herror hlarge hisDone
  · exact ⟨got, left, { hfin with }, rfl⟩
  · exact ⟨got, left, { hfin with }, rfl⟩
  · have hisDone' : parser.isDone c.parser := hisDone
    have hput' : (c.parser, c.buffer) = parser.put parser.isDone parser.init got := by
      rw [← hbody, parser.put_of_stop _ hisDone']
    obtain ⟨m, rest, rfl, -, haligned⟩ := aligned_handle
      (c := ((c.finish .readHeader).cancelDeadlineTimer).authenticate loggedIn) { hfin with }
      hexch.res_not_completed hout hidle hdone hlog hput' hisDone' run
    exact ⟨[], rest, haligned, by simp⟩
  · exact ⟨got, left, aligned_doRead
      (c := ((c.finish .readHeader).cancelDeadlineTimer).authenticate loggedIn) { hfin with }
      hout hidle hbody, rfl⟩

theorem aligned_readSome {c : Connection P} (hexch : Exchanging c)
    (h : Aligned parser requests c got left) {consumed : Bool}
    (hop : .readSome consumed ∈ c.outstanding) (ec : Bool) (run : HandlerRun) :
    ∃ got' left', Aligned parser requests
      ((c.finish (.readSome consumed)).afterRead parser ec run) got' left' ∧
        left.flatMap Prod.snd = left'.flatMap Prod.snd := by
  obtain ⟨hout, hidle, done, hdone, hlog⟩ := hexch.reads hop (by simp)
  have hfin := h.finish hout hidle
  have hput := h.body consumed hop
  have hbody : parser.put parser.isDone c.parser c.buffer =
      parser.put parser.isDone parser.init got := by
    rw [← parser.put_put parser.isDone parser.init got, ← hput]
  have hcontinue : ∀ d : Connection P, Aligned parser requests d got left →
      d.res.completed = false → d.outstanding = [] → Idle d.asyncResps → d.log = c.log →
        d.parser = c.parser → d.buffer = c.buffer → ∃ got' left', Aligned parser requests
          (if !parser.isDone d.parser then d.doRead parser
            else d.cancelDeadlineTimer.handle parser run) got' left' ∧
              left.flatMap Prod.snd = left'.flatMap Prod.snd := by
    intro d hd hdres hdout hdidle hdlog hdparser hdbuffer
    split_ifs with hisDone
    · exact ⟨got, left, aligned_doRead hd hdout hdidle (by rw [hdparser, hdbuffer, hbody]), rfl⟩
    · have hisDone' : parser.isDone d.parser := by simpa using hisDone
      obtain ⟨m, rest, rfl, -, haligned⟩ := aligned_handle (c := d.cancelDeadlineTimer)
        { hd with } hdres hdout hdidle hdone (hdlog.trans hlog)
        (by rw [← hput, ← hdparser, ← hdbuffer]; rfl) hisDone' run
      exact ⟨[], rest, haligned, by simp⟩
  unfold Connection.afterRead
  dsimp only
  by_cases hec : ec
  · rw [if_pos hec]
    exact ⟨got, left, { hfin with }, rfl⟩
  · rw [if_neg hec]
    by_cases huser : c.userSession
    · rw [if_pos (show (c.finish (.readSome consumed)).userSession = true from huser)]
      exact hcontinue _ { hfin with } hexch.res_not_completed hout hidle rfl rfl rfl
    · rw [if_neg (show ¬ (c.finish (.readSome consumed)).userSession = true from huser)]
      exact hcontinue _ hfin hexch.res_not_completed hout hidle rfl rfl rfl

theorem Exchanging.outstanding_eq {c : Connection P} (h : Exchanging c) {op : Operation}
    (hop : op ∈ c.outstanding) : c.outstanding = [op] := by
  have hone := (oneResponse_of_exchanging h).one_operation
  rcases hops : c.outstanding with _ | ⟨op', _ | ⟨op'', ops⟩⟩
  · simp [hops] at hop
  · obtain rfl : op = op' := by simpa [hops] using hop
    rfl
  · simp [hops] at hone

theorem Aligned.needs {c : Connection P} (h : Aligned parser requests c got left) {op : Operation}
    (hop : op ∈ c.outstanding) (hneeds : c.needsMore parser op) {m : Message}
    {rest : List (Message × List (List UInt8))} : left ≠ (m, []) :: rest := by
  rintro rfl
  have hdone := h.expected.done
  cases op with
  | handshake => cases hneeds
  | readHeader =>
    have hheader := parser.isHeaderDone_put hdone
    rw [← h.header hop] at hheader
    simp [Connection.needsMore, hheader] at hneeds
  | readSome consumed =>
    rw [← h.body consumed hop] at hdone
    simp [Connection.needsMore, hdone] at hneeds
  | write => cases hneeds

theorem aligned_receive {c : Connection P} (hexch : Exchanging c)
    (h : Aligned parser requests c got left) {op : Operation} (hop : op ∈ c.outstanding)
    (hneeds : c.needsMore parser op) {bytes : List UInt8}
    (hreads : [bytes] <+: left.flatMap Prod.snd) : ∃ left',
      Aligned parser requests (c.receive parser bytes) (got ++ bytes) left' ∧
        left.flatMap Prod.snd = bytes :: left'.flatMap Prod.snd := by
  obtain _ | ⟨⟨m, _ | ⟨bytes', reads⟩⟩, rest⟩ := left
  · simp at hreads
  · exact (h.needs hop hneeds rfl).elim
  · obtain rfl : bytes = bytes' := by simpa using hreads
    have hout := Exchanging.outstanding_eq hexch hop
    have hread : op ≠ .handshake ∧ op ≠ .write := by
      cases op <;> simp_all [Connection.needsMore]
    obtain ⟨-, hidle, -⟩ := hexch.reads hop hread
    have hleft : ∀ x ∈ (m, reads) :: rest, ∀ bytes' ∈ x.2,
        bytes' ≠ [] ∧ bytes'.length ≤ bufferCapacity := by
      intro x hx bytes' hbytes'
      rcases List.mem_cons.1 hx with rfl | hx
      · exact h.reads _ List.mem_cons_self _ (List.mem_cons_of_mem _ hbytes')
      · exact h.reads _ (List.mem_cons_of_mem _ hx) _ hbytes'
    have hmessages : ∀ x ∈ (m, reads) :: rest, x.1.keepAlive ∧ x.1.upgrades = false := by
      intro x hx
      rcases List.mem_cons.1 hx with rfl | hx
      · exact h.messages (m, bytes :: reads) List.mem_cons_self
      · exact h.messages _ (List.mem_cons_of_mem _ hx)
    have hmore : ∀ stop : P → Bool, (c.parser, c.buffer) = parser.put stop parser.init got →
        parser.put stop c.parser (c.buffer ++ bytes) =
          parser.put stop parser.init (got ++ bytes) := by
      intro stop hput
      rw [parser.put_append stop parser.init, ← hput]
    refine ⟨(m, reads) :: rest, ?_, rfl⟩
    cases op with
    | handshake => exact (hread.1 rfl).elim
    | readHeader =>
      have heq : c.receive parser bytes = { c with
          parser := (parser.put parser.isHeaderDone c.parser (c.buffer ++ bytes)).1
          buffer := (parser.put parser.isHeaderDone c.parser (c.buffer ++ bytes)).2 } := by
        simp [Connection.receive, Connection.parse, hout]
      rw [heq]
      refine { h with
        messages := hmessages, reads := hleft, handled_eq := h.handled_eq
        expected := h.expected.receive, opening := ?_, header := ?_, body := ?_, between := ?_ }
      · simp [hout]
      · exact fun _ => hmore _ (h.header hop)
      · simp [hout]
      · rintro (hop | hop | ⟨k, hk⟩)
        · simp [hout] at hop
        · simp [hout] at hop
        · exact (hidle k hk).elim
    | readSome consumed =>
      have heq : c.receive parser bytes = { c with
          parser := (parser.put parser.isDone c.parser (c.buffer ++ bytes)).1
          buffer := (parser.put parser.isDone c.parser (c.buffer ++ bytes)).2
          outstanding := [.readSome true] } := by
        simp [Connection.receive, Connection.parse, hout]
      rw [heq]
      refine { h with
        messages := hmessages, reads := hleft, handled_eq := h.handled_eq
        expected := h.expected.receive, opening := ?_, header := ?_, body := ?_, between := ?_ }
      · simp
      · simp
      · exact fun _ _ => hmore _ (h.body consumed hop)
      · rintro (hop | hop | ⟨k, hk⟩)
        · simp at hop
        · simp at hop
        · exact (hidle k hk).elim
    | write => exact (hread.2 rfl).elim

theorem aligned_endResponse {c : Connection P} (hexch : Exchanging c)
    (h : Aligned parser requests c got left) {k : ℕ} (halive : (c.asyncResps k).alive) :
    Aligned parser requests (c.endResponse k) got left := by
  by_cases hopen : Open c.asyncResps k
  · exact h.kept (kept_endResponse hexch halive) fun _ => h.between (.inr (.inr ⟨k, hopen⟩))
  · have hcompleted : (c.asyncResps k).res.completed := by
      by_contra hnot
      exact hopen ⟨halive, by simpa using hnot⟩
    rwa [endResponse_of_completed hcompleted]

theorem aligned_dropResponse {c : Connection P} (hexch : Exchanging c)
    (h : Aligned parser requests c got left) {k : ℕ} (halive : (c.asyncResps k).alive) :
    Aligned parser requests (c.dropResponse k) got left := by
  have hend := aligned_endResponse hexch h halive
  refine { hend with between := ?_ }
  rintro (hop | hop | ⟨j, hj, hnot⟩)
  · exact hend.between (.inl hop)
  · exact hend.between (.inr (.inl hop))
  · by_cases hjk : j = k
    · simp [Connection.dropResponse, hjk] at hj
    · simp only [Connection.dropResponse, Function.update_of_ne hjk] at hj hnot
      exact hend.between (.inr (.inr ⟨j, hj, hnot⟩))

theorem aligned_setResult {c : Connection P} (h : Aligned parser requests c got left)
    (k result : ℕ) : Aligned parser requests (c.setResult k result) got left := by
  refine { h with between := ?_ }
  rintro (hop | hop | ⟨j, hj⟩)
  · exact h.between (.inl hop)
  · exact h.between (.inr (.inl hop))
  · exact h.between (.inr (.inr ⟨j, ((same_setResult c k result).open_iff j).1 hj⟩))

theorem aligned_handshake {c : Connection P} (hexch : Exchanging c)
    (h : Aligned parser requests c got left) (hop : .handshake ∈ c.outstanding) (ec h2 : Bool) :
    Aligned parser requests ((c.finish .handshake).afterSslHandshake parser ec h2) got left := by
  obtain ⟨hout, hidle, -⟩ := hexch.completes hop
  obtain ⟨hparser, hbuffer⟩ := h.opening hop
  obtain rfl : got = [] := h.between (.inr (.inl hop))
  have hfin := h.finish hout hidle
  unfold Connection.afterSslHandshake
  split_ifs
  · exact hfin
  · exact hfin
  · exact aligned_doReadHeaders hfin hout hparser hbuffer

theorem aligned_write {c : Connection P} (hexch : Exchanging c)
    (h : Aligned parser requests c got left) (hop : .write ∈ c.outstanding) (ec : Bool) :
    Aligned parser requests ((c.finish .write).afterDoWrite parser ec) got left := by
  obtain ⟨hout, hidle, -⟩ := hexch.completes hop
  obtain rfl : got = [] := h.between (.inl hop)
  have hfin := h.finish hout hidle
  unfold Connection.afterDoWrite
  dsimp only
  split_ifs
  · exact { hfin with }
  · exact { hfin with }
  · exact aligned_doReadHeaders { hfin with
      opening := fun _ => ⟨rfl, rfl⟩
      header := fun hop => by simp [Connection.cancelDeadlineTimer, hout] at hop
      body := fun consumed hop => by simp [Connection.cancelDeadlineTimer, hout] at hop }
      hout rfl rfl

theorem aligned_step {c c' : Connection P} {event : Event} (hexch : Exchanging c)
    (h : Aligned parser requests c got left) (hstep : c.step parser event = some c')
    (hreads : received [event] <+: left.flatMap Prod.snd) : ∃ got' left',
      Aligned parser requests c' got' left' ∧
        left.flatMap Prod.snd = received [event] ++ left'.flatMap Prod.snd := by
  cases steps_of_step hstep with
  | receive hopen hop hneeds hne hfits =>
    obtain ⟨left', haligned, hleft⟩ := aligned_receive hexch h hop hneeds hreads
    exact ⟨_, left', haligned, hleft⟩
  | handshake ec h2 hop => exact ⟨got, left, aligned_handshake hexch h hop ec h2, rfl⟩
  | readHeader loggedIn run hop hread => exact aligned_readHeader hexch h hop _ loggedIn run
  | readSome run hop hread => exact aligned_readSome hexch h hop _ run
  | write ec hop => exact ⟨got, left, aligned_write hexch h hop ec, rfl⟩
  | @endResponse k result halive =>
    exact ⟨got, left, aligned_endResponse (exchanging_setResult hexch k result)
      (aligned_setResult h k result) (setResult_alive halive result), rfl⟩
  | @dropResponse k result halive =>
    exact ⟨got, left, aligned_dropResponse (exchanging_setResult hexch k result)
      (aligned_setResult h k result) (setResult_alive halive result), rfl⟩
  | timerExpires hwait => exact ⟨got, left, { h with }, rfl⟩
  | timerHandler hwait hover =>
    refine ⟨got, left, ?_, rfl⟩
    unfold Connection.timerHandler
    dsimp only
    split_ifs
    · exact { h with }
    · exact { h with }

theorem received_cons (event : Event) (events : List Event) :
    received (event :: events) = received [event] ++ received events := by
  cases event <;> rfl

theorem aligned_run {c c' : Connection P} {events : List Event} (hexch : Exchanging c)
    (h : Aligned parser requests c got left)
    (hrun : run (Connection.step parser) c events = some c')
    (hreads : received events <+: left.flatMap Prod.snd) : ∃ got' left', Exchanging c' ∧
      Aligned parser requests c' got' left' ∧
        left.flatMap Prod.snd = received events ++ left'.flatMap Prod.snd := by
  induction events generalizing c got left with
  | nil =>
    obtain rfl := Option.some.inj hrun
    exact ⟨got, left, hexch, h, rfl⟩
  | cons event events ih =>
    obtain ⟨d, hstep, hrun⟩ := Option.bind_eq_some_iff.1 hrun
    rw [received_cons] at hreads
    obtain ⟨got', left', h', hleft⟩ :=
      aligned_step hexch h hstep ((List.prefix_append _ _).trans hreads)
    rw [hleft, List.prefix_append_right_inj] at hreads
    obtain ⟨got'', left'', hexch'', h'', hleft'⟩ :=
      ih (exchanging_step parser hexch hstep) h' hrun hreads
    refine ⟨got'', left'', hexch'', h'', ?_⟩
    rw [received_cons, hleft, hleft', List.append_assoc]

theorem aligned_opened {build : Build} (hauthx : build.authx = false) (connectionCount : ℕ)
    (splits : List (SplitRequest parser)) :
    Aligned parser (splits.map SplitRequest.message) (opened parser build connectionCount) []
      (splits.map fun x => (x.message, x.reads)) := by
  have hnew : Aligned parser (splits.map SplitRequest.message)
      ({ build, parser := parser.init } : Connection P) []
      (splits.map fun x => (x.message, x.reads)) := by
    refine ⟨hauthx, rfl, by simp, ?_, ?_, ?_, .next ?_, by simp, by simp, by simp, fun _ => rfl⟩
    · simpa using fun x _ => ⟨x.keepAlive, x.not_upgrades⟩
    · simpa using fun x _ => x.fits
    · simp [handled, Function.comp_def]
    · simpa using fun x _ => x.encodes
  unfold opened Connection.start
  dsimp only
  split_ifs
  · exact hnew
  · rw [startDeadline_eq]
    exact { hnew with
      opening := fun _ => ⟨rfl, rfl⟩
      header := by simp
      body := by simp
      between := fun _ => rfl }
  · rw [startDeadline_eq]
    exact aligned_doReadHeaders { hnew with } rfl rfl rfl

def AwaitsBytes (parser : RequestParser P) (c : Connection P) : Prop :=
  ∃ op ∈ c.outstanding, c.needsMore parser op

/-- The client and the adaptor report no error, and the deadline is met. -/
def Succeeds : Event → Prop
  | .handshake ec h2 => ec = false ∧ h2 = false
  | .readHeader ec _ _ | .readSome ec _ | .write ec => ec = false
  | .timerExpires => False
  | _ => True

variable (parser) in
structure Healthy (c : Connection P) : Prop where
  adaptorOpen : c.adaptorOpen
  not_expired : .expired ∉ c.waits
  busy : c.outstanding ≠ [] ∨ ∃ k, Open c.asyncResps k
  not_consumed : .readSome false ∈ c.outstanding → parser.isDone c.parser = false

variable (parser) in
/-- What follows a read that has not failed: the request is answered or open, or
its body is read. -/
structure Progress (c c' : Connection P) : Prop where
  adaptorOpen : c'.adaptorOpen
  not_expired : .expired ∉ c'.waits
  next : (∀ op ∈ c'.outstanding, op = .write) ∧
      (.write ∈ c'.outstanding ∨ ∃ k, Open c'.asyncResps k) ∨
    parser.isDone c.parser = false ∧ ∃ consumed, c'.outstanding = [.readSome consumed] ∧
      (consumed = false → parser.isDone c'.parser = false)

theorem Progress.healthy {c c' : Connection P} (h : Progress parser c c') : Healthy parser c' := by
  refine ⟨h.adaptorOpen, h.not_expired, ?_, ?_⟩
  · obtain ⟨-, hwrite | hopen⟩ | ⟨-, consumed, hout, -⟩ := h.next
    · exact .inl (List.ne_nil_of_mem hwrite)
    · exact .inr hopen
    · exact .inl (by simp [hout])
  · intro hop
    obtain ⟨hwrites, -⟩ | ⟨-, consumed, hout, hconsumed⟩ := h.next
    · cases hwrites _ hop
    · exact hconsumed (by simpa [hout, eq_comm] using hop)

theorem progress_handle {c d : Connection P} {done : List LogEntry}
    (h : Aligned parser requests d got left) (hres : d.res.completed = false)
    (hout : d.outstanding = []) (hidle : Idle d.asyncResps) (hdone : Served done)
    (hlog : d.log = done ++ [.doReadHeaders])
    (hput : (d.parser, d.buffer) = parser.put parser.isDone parser.init got)
    (hisDone : parser.isDone d.parser) (hopen : d.adaptorOpen) (hwaits : .expired ∉ d.waits)
    (run : HandlerRun) : Progress parser c (d.handle parser run) := by
  obtain ⟨m, rest, -, hm, -⟩ := aligned_handle h hres hout hidle hdone hlog hput hisDone run
  obtain ⟨hpass, hnext⟩ := passedOn_handle parser hres hout hidle hdone hlog hm run
  exact ⟨hpass.adaptorOpen_eq.trans hopen, hpass.not_expired hwaits,
    .inl ⟨hpass.outstanding, hnext hopen⟩⟩

theorem progress_doRead {c d : Connection P} (hparser : d.parser = c.parser)
    (hout : d.outstanding = []) (hisDone : parser.isDone c.parser = false) (hopen : d.adaptorOpen)
    (hwaits : .expired ∉ d.waits) : Progress parser c (d.doRead parser) := by
  unfold Connection.doRead
  rw [startDeadline_eq]
  refine ⟨hopen, not_expired_restart hwaits d.timerStarted, .inr ⟨hisDone, !d.buffer.isEmpty, ?_⟩⟩
  refine ⟨by simp [Connection.parse, hout], fun hempty => ?_⟩
  have hbuffer : d.buffer = [] := by simpa using hempty
  simp [Connection.parse, hbuffer, hparser, hisDone]

theorem progress_readHeader {c : Connection P} (hexch : Exchanging c)
    (h : Aligned parser requests c got left) (hop : .readHeader ∈ c.outstanding)
    (hhealthy : Healthy parser c) (loggedIn : Bool) (run : HandlerRun) :
    Progress parser c ((c.finish .readHeader).afterReadHeader parser false loggedIn run) := by
  obtain ⟨hout, hidle, done, hdone, hlog⟩ := hexch.reads hop (by simp)
  have hfin := h.finish hout hidle
  have halive : (c.finish .readHeader).isAlive = true := isAlive_of_open hhealthy.adaptorOpen
  have hauthx : (c.finish .readHeader).build.authx = false := h.authx
  have hwaits := not_expired_cancel hhealthy.not_expired
  unfold Connection.afterReadHeader
  dsimp only
  split_ifs with herror hlarge hisDone
  · simp [halive] at herror
  · simp [Connection.authenticate, Connection.cancelDeadlineTimer, hauthx] at hlarge
  · have hisDone' : parser.isDone c.parser := hisDone
    have hput : (c.parser, c.buffer) = parser.put parser.isDone parser.init got := by
      rw [← parser.put_header parser.init got, ← h.header hop, parser.put_of_stop _ hisDone']
    exact progress_handle
      (d := ((c.finish .readHeader).cancelDeadlineTimer).authenticate loggedIn) { hfin with }
      hexch.res_not_completed hout hidle hdone hlog hput hisDone' hhealthy.adaptorOpen hwaits run
  · have hisDone' : parser.isDone c.parser = false := Bool.eq_false_iff.2 hisDone
    exact progress_doRead
      (d := ((c.finish .readHeader).cancelDeadlineTimer).authenticate loggedIn) rfl hout hisDone'
      hhealthy.adaptorOpen hwaits

theorem progress_readSome {c : Connection P} (hexch : Exchanging c)
    (h : Aligned parser requests c got left) {consumed : Bool}
    (hop : .readSome consumed ∈ c.outstanding) (hhealthy : Healthy parser c) (run : HandlerRun) :
    Progress parser c ((c.finish (.readSome consumed)).afterRead parser false run) := by
  obtain ⟨hout, hidle, done, hdone, hlog⟩ := hexch.reads hop (by simp)
  have hfin := h.finish hout hidle
  have hwaits := not_expired_cancel hhealthy.not_expired
  have hcontinue : ∀ d : Connection P, Aligned parser requests d got left →
      d.res.completed = false → d.outstanding = [] → Idle d.asyncResps → d.log = c.log →
        d.parser = c.parser → d.buffer = c.buffer → d.adaptorOpen → .expired ∉ d.waits →
          Progress parser c (if !parser.isDone d.parser then d.doRead parser
            else d.cancelDeadlineTimer.handle parser run) := by
    intro d hd hdres hdout hdidle hdlog hdparser hdbuffer hdopen hdwaits
    split_ifs with hisDone
    · have hisDone' : parser.isDone c.parser = false := by simpa [hdparser] using hisDone
      exact progress_doRead hdparser hdout hisDone' hdopen hdwaits
    · have hisDone' : parser.isDone d.parser := by simpa using hisDone
      refine progress_handle (d := d.cancelDeadlineTimer) { hd with } hdres hdout hdidle hdone
        (hdlog.trans hlog) ?_ hisDone' hdopen (not_expired_cancel hdwaits) run
      rw [← h.body consumed hop, ← hdparser, ← hdbuffer]
      rfl
  unfold Connection.afterRead
  dsimp only
  rw [if_neg Bool.false_ne_true]
  by_cases huser : c.userSession
  · rw [if_pos (show (c.finish (.readSome consumed)).userSession = true from huser)]
    refine hcontinue _ { hfin with } hexch.res_not_completed hout hidle rfl rfl rfl ?_ hwaits
    exact hhealthy.adaptorOpen
  · rw [if_neg (show ¬ (c.finish (.readSome consumed)).userSession = true from huser)]
    refine hcontinue _ hfin hexch.res_not_completed hout hidle rfl rfl rfl ?_ hhealthy.not_expired
    exact hhealthy.adaptorOpen

theorem healthy_doReadHeaders {c : Connection P} (hout : c.outstanding = []) (hopen : c.adaptorOpen)
    (hwaits : .expired ∉ c.waits) : Healthy parser (c.doReadHeaders parser) := by
  refine ⟨hopen, hwaits, .inl ?_, ?_⟩
  · simp [Connection.doReadHeaders]
  · simp [Connection.doReadHeaders, Connection.parse, hout]

theorem writes_of_end {c : Connection P} (hexch : Exchanging c)
    (h : Aligned parser requests c got left) (halive : c.isAlive) {k : ℕ}
    (hopen : Open c.asyncResps k) : .write ∈ (c.endResponse k).outstanding := by
  obtain ⟨-, -, handler, call, done, hpending, hcall, -, hlog⟩ := hexch.of_open hopen
  have heffect := effect_endResponse hexch hopen.alive
  cases hcall with
  | handle req =>
    have hanswers : Answers (c.asyncResps k).res.completeRequestHandler
        (c.asyncResps k).res.result := by
      rw [hpending.handler_eq]
      trivial
    rw [(heffect.write ⟨hopen, hanswers, halive⟩).1]
    simp
  | upgrade req => exact (h.not_upgraded req (by simp [hlog])).elim

theorem healthy_endResponse {c : Connection P} (hexch : Exchanging c)
    (h : Aligned parser requests c got left) (hhealthy : Healthy parser c) {k : ℕ}
    (halive : (c.asyncResps k).alive) : Healthy parser (c.endResponse k) := by
  have hk := kept_endResponse hexch halive
  by_cases hopen : Open c.asyncResps k
  · refine ⟨hk.adaptorOpen_eq.trans hhealthy.adaptorOpen, hk.not_expired hhealthy.not_expired,
      .inl (List.ne_nil_of_mem
        (writes_of_end hexch h (isAlive_of_open hhealthy.adaptorOpen) hopen)), fun hop => ?_⟩
    rw [hk.parser_eq]
    exact hhealthy.not_consumed ((hk.outstanding_sub _ hop).resolve_right (by simp))
  · have hcompleted : (c.asyncResps k).res.completed := by
      by_contra hnot
      exact hopen ⟨halive, by simpa using hnot⟩
    rwa [endResponse_of_completed hcompleted]

theorem healthy_dropResponse {c : Connection P} (hexch : Exchanging c)
    (h : Aligned parser requests c got left) (hhealthy : Healthy parser c) {k : ℕ}
    (halive : (c.asyncResps k).alive) : Healthy parser (c.dropResponse k) := by
  have hend := healthy_endResponse hexch h hhealthy halive
  obtain ⟨-, hclosed, -⟩ := exchanging_endResponse hexch halive
  refine { hend with busy := hend.busy.imp id ?_ }
  rintro ⟨j, hj⟩
  have hjk : j ≠ k := by
    rintro rfl
    exact hclosed hj
  exact ⟨j, by simpa [Connection.dropResponse, hjk] using hj.alive,
    by simpa [Connection.dropResponse, hjk] using hj.not_completed⟩

theorem healthy_setResult {c : Connection P} (h : Healthy parser c) (k result : ℕ) :
    Healthy parser (c.setResult k result) :=
  { h with busy := h.busy.imp id fun ⟨j, hj⟩ =>
      ⟨j, ((same_setResult c k result).open_iff j).2 hj⟩ }

theorem healthy_receive {c : Connection P} (hexch : Exchanging c) (h : Healthy parser c)
    {op : Operation} (hop : op ∈ c.outstanding) (bytes : List UInt8) :
    Healthy parser (c.receive parser bytes) := by
  have hout := Exchanging.outstanding_eq hexch hop
  unfold Connection.receive
  dsimp only
  split_ifs with hheader
  · refine ⟨h.adaptorOpen, h.not_expired, .inl (List.ne_nil_of_mem hop), fun hop' => ?_⟩
    have hout' := Exchanging.outstanding_eq hexch hheader
    simp [Connection.parse, hout'] at hop'
  · refine ⟨h.adaptorOpen, h.not_expired, .inl ?_, fun hop' => ?_⟩
    · simp [Connection.parse, hout]
    · cases op <;> simp [Connection.parse, hout] at hop'

theorem healthy_step {c c' : Connection P} {event : Event} (hexch : Exchanging c)
    (h : Aligned parser requests c got left) (hhealthy : Healthy parser c)
    (hsucceeds : Succeeds event) (hstep : c.step parser event = some c') : Healthy parser c' := by
  cases steps_of_step hstep with
  | receive hopen hop hneeds hne hfits => exact healthy_receive hexch hhealthy hop _
  | handshake ec h2 hop =>
    obtain ⟨hout, -⟩ := hexch.completes hop
    obtain ⟨rfl, rfl⟩ := hsucceeds
    unfold Connection.afterSslHandshake
    rw [if_neg Bool.false_ne_true, Bool.and_false, if_neg Bool.false_ne_true]
    exact healthy_doReadHeaders hout hhealthy.adaptorOpen hhealthy.not_expired
  | readHeader loggedIn run hop hread =>
    obtain rfl := hsucceeds
    exact (progress_readHeader hexch h hop hhealthy loggedIn run).healthy
  | readSome run hop hread =>
    obtain rfl := hsucceeds
    exact (progress_readSome hexch h hop hhealthy run).healthy
  | write ec hop =>
    obtain ⟨hout, -⟩ := hexch.completes hop
    obtain rfl := hsucceeds
    have hkeep : (!(c.finish .write).cancelDeadlineTimer.keepAlive) = false := by
      simp [Connection.finish, Connection.cancelDeadlineTimer, h.keepAlive]
    unfold Connection.afterDoWrite
    rw [if_neg Bool.false_ne_true, hkeep, if_neg Bool.false_ne_true]
    exact healthy_doReadHeaders hout hhealthy.adaptorOpen
      (not_expired_cancel hhealthy.not_expired)
  | @endResponse k result halive =>
    exact healthy_endResponse (exchanging_setResult hexch k result) (aligned_setResult h k result)
      (healthy_setResult hhealthy k result) (setResult_alive halive result)
  | @dropResponse k result halive =>
    exact healthy_dropResponse (exchanging_setResult hexch k result) (aligned_setResult h k result)
      (healthy_setResult hhealthy k result) (setResult_alive halive result)
  | timerExpires hwait => exact hsucceeds.elim
  | @timerHandler wait hwait hover =>
    have haborted : wait = .aborted := by
      cases wait with
      | waiting => exact (hover rfl).elim
      | aborted => rfl
      | expired => exact (hhealthy.not_expired hwait).elim
    unfold Connection.timerHandler
    dsimp only
    rw [if_pos haborted]
    exact { hhealthy with
      not_expired := fun hexp => hhealthy.not_expired (List.mem_of_mem_erase hexp) }

theorem healthy_opened (build : Build) {connectionCount : ℕ} (hcount : connectionCount < 100) :
    Healthy parser (opened parser build connectionCount) := by
  have hdeadline : ({ build, parser := parser.init } : Connection P).startDeadline =
      { build, parser := parser.init, waits := [.waiting], timerStarted := true } := rfl
  unfold opened Connection.start
  dsimp only
  rw [if_neg (Nat.not_le.2 hcount), hdeadline]
  split_ifs
  · exact ⟨rfl, by simp, .inl (by simp), by simp⟩
  · exact healthy_doReadHeaders rfl rfl (by simp)

variable (parser) in
structure Alright (requests : List Message) (c : Connection P)
    (left : List (Message × List (List UInt8))) : Prop where
  exchanging : Exchanging c
  aligned : ∃ got, Aligned parser requests c got left
  healthy : Healthy parser c

theorem alright_step {c c' : Connection P} {event : Event} (h : Alright parser requests c left)
    (hstep : c.step parser event = some c') (hsucceeds : Succeeds event)
    (hreads : received [event] <+: left.flatMap Prod.snd) : ∃ left',
      Alright parser requests c' left' ∧
        left.flatMap Prod.snd = received [event] ++ left'.flatMap Prod.snd := by
  obtain ⟨hexch, ⟨got, haligned⟩, hhealthy⟩ := h
  obtain ⟨got', left', haligned', hleft⟩ := aligned_step hexch haligned hstep hreads
  exact ⟨left', ⟨exchanging_step parser hexch hstep, ⟨got', haligned'⟩,
    healthy_step hexch haligned hhealthy hsucceeds hstep⟩, hleft⟩

theorem alright_run {c c' : Connection P} {events : List Event}
    (h : Alright parser requests c left) (hsucceeds : ∀ event ∈ events, Succeeds event)
    (hrun : run (Connection.step parser) c events = some c')
    (hreads : received events <+: left.flatMap Prod.snd) : ∃ left',
      Alright parser requests c' left' ∧
        left.flatMap Prod.snd = received events ++ left'.flatMap Prod.snd := by
  induction events generalizing c left with
  | nil =>
    obtain rfl := Option.some.inj hrun
    exact ⟨left, h, rfl⟩
  | cons event events ih =>
    obtain ⟨d, hstep, hrun⟩ := Option.bind_eq_some_iff.1 hrun
    rw [received_cons] at hreads
    obtain ⟨left', h', hleft⟩ := alright_step h hstep (hsucceeds _ List.mem_cons_self)
      ((List.prefix_append _ _).trans hreads)
    rw [hleft, List.prefix_append_right_inj] at hreads
    obtain ⟨left'', h'', hleft'⟩ :=
      ih h' (fun e he => hsucceeds e (List.mem_cons_of_mem _ he)) hrun hreads
    exact ⟨left'', h'', by rw [received_cons, hleft, hleft', List.append_assoc]⟩

variable (parser) in
/-- Without further bytes the connection can come to wait for them. -/
def Reaches (c : Connection P) : Prop :=
  ∃ events c', (∀ event ∈ events, Succeeds event) ∧ received events = [] ∧
    run (Connection.step parser) c events = some c' ∧ AwaitsBytes parser c'

theorem Reaches.step {c d : Connection P} {event : Event} (h : Reaches parser d)
    (hstep : c.step parser event = some d) (hsucceeds : Succeeds event)
    (hreceived : received [event] = []) : Reaches parser c := by
  obtain ⟨events, c', hevents, hnone, hrun, hawaits⟩ := h
  refine ⟨event :: events, c', ?_, ?_, ?_, hawaits⟩
  · rintro e (_ | ⟨_, he⟩)
    · exact hsucceeds
    · exact hevents e he
  · rw [received_cons, hreceived, hnone]
    rfl
  · rw [run_cons, hstep]
    exact hrun

theorem AwaitsBytes.reaches {c : Connection P} (h : AwaitsBytes parser c) : Reaches parser c :=
  ⟨[], c, by simp, rfl, rfl, h⟩

theorem reaches_of_write {c : Connection P} (h : Alright parser requests c left)
    (hop : .write ∈ c.outstanding) : Reaches parser c := by
  obtain ⟨got, haligned⟩ := h.aligned
  have hkeep : (!(c.finish .write).cancelDeadlineTimer.keepAlive) = false := by
    simp [Connection.finish, Connection.cancelDeadlineTimer, haligned.keepAlive]
  have hawaits : AwaitsBytes parser ((c.finish .write).afterDoWrite parser false) := by
    unfold Connection.afterDoWrite
    rw [if_neg Bool.false_ne_true, hkeep, if_neg Bool.false_ne_true]
    refine ⟨.readHeader, ?_, ?_⟩
    · simp [Connection.doReadHeaders]
    · simp [Connection.doReadHeaders, Connection.parse, Connection.needsMore,
        parser.init_isHeaderDone]
  have hstep : c.step parser (.write false) =
      some ((c.finish .write).afterDoWrite parser false) := if_pos hop
  exact hawaits.reaches.step hstep rfl rfl

theorem reaches_of_answered {c : Connection P} (h : Alright parser requests c left)
    (hwrites : ∀ op ∈ c.outstanding, op = .write) : Reaches parser c := by
  obtain hne | ⟨k, hopen⟩ := h.healthy.busy
  · obtain ⟨op, hop⟩ := List.exists_mem_of_ne_nil _ hne
    exact reaches_of_write h (hwrites op hop ▸ hop)
  · have hstep : c.step parser (.dropResponse k 200) = some ((c.setResult k 200).dropResponse k) :=
      if_pos hopen.alive
    obtain ⟨got, haligned⟩ := h.aligned
    have hopen' := ((same_setResult c k 200).open_iff k).2 hopen
    have hwrite := writes_of_end (exchanging_setResult h.exchanging k 200)
      (aligned_setResult haligned k 200) (isAlive_of_open h.healthy.adaptorOpen) hopen'
    obtain ⟨left', h', -⟩ := alright_step h hstep trivial List.nil_prefix
    exact (reaches_of_write h' hwrite).step hstep trivial rfl

theorem reaches_of_readSome {c : Connection P} (h : Alright parser requests c left)
    {consumed : Bool} (hop : .readSome consumed ∈ c.outstanding) : Reaches parser c := by
  by_cases hisDone : parser.isDone c.parser
  · obtain rfl : consumed = true := by
      by_contra hconsumed
      rw [Bool.not_eq_true] at hconsumed
      rw [h.healthy.not_consumed (hconsumed ▸ hop)] at hisDone
      cases hisDone
    have hstep : c.step parser (.readSome false {}) =
        some ((c.finish (.readSome true)).afterRead parser false {}) := if_pos hop
    obtain ⟨got, haligned⟩ := h.aligned
    have hprogress := progress_readSome h.exchanging haligned hop h.healthy {}
    obtain ⟨left', h', -⟩ := alright_step h hstep rfl List.nil_prefix
    obtain ⟨hwrites, -⟩ | ⟨hnot, -⟩ := hprogress.next
    · exact (reaches_of_answered h' hwrites).step hstep rfl rfl
    · rw [hisDone] at hnot
      cases hnot
  · exact AwaitsBytes.reaches ⟨_, hop, by simpa [Connection.needsMore] using hisDone⟩

theorem reaches_of_readHeader {c : Connection P} (h : Alright parser requests c left)
    (hop : .readHeader ∈ c.outstanding) : Reaches parser c := by
  by_cases hheader : parser.isHeaderDone c.parser
  · have hstep : c.step parser (.readHeader false false {}) =
        some ((c.finish .readHeader).afterReadHeader parser false false {}) :=
      if_pos ⟨hop, .inr hheader⟩
    obtain ⟨got, haligned⟩ := h.aligned
    have hprogress := progress_readHeader h.exchanging haligned hop h.healthy false {}
    obtain ⟨left', h', -⟩ := alright_step h hstep rfl List.nil_prefix
    obtain ⟨hwrites, -⟩ | ⟨-, consumed, hout, -⟩ := hprogress.next
    · exact (reaches_of_answered h' hwrites).step hstep rfl rfl
    · have hop' : .readSome consumed ∈
          ((c.finish .readHeader).afterReadHeader parser false false {}).outstanding := by
        simp [hout]
      exact (reaches_of_readSome h' hop').step hstep rfl rfl
  · exact AwaitsBytes.reaches ⟨_, hop, by simpa [Connection.needsMore] using hheader⟩

theorem reaches_of_alright {c : Connection P} (h : Alright parser requests c left) :
    Reaches parser c := by
  obtain hne | ⟨k, hopen⟩ := h.healthy.busy
  · obtain ⟨op, hop⟩ := List.exists_mem_of_ne_nil _ hne
    cases op with
    | handshake =>
      have hstep : c.step parser (.handshake false false) =
          some ((c.finish .handshake).afterSslHandshake parser false false) := if_pos hop
      have hread : .readHeader ∈
          ((c.finish .handshake).afterSslHandshake parser false false).outstanding := by
        simp [Connection.afterSslHandshake, Connection.doReadHeaders]
      obtain ⟨left', h', -⟩ := alright_step h hstep ⟨rfl, rfl⟩ List.nil_prefix
      exact (reaches_of_readHeader h' hread).step hstep ⟨rfl, rfl⟩ rfl
    | readHeader => exact reaches_of_readHeader h hop
    | readSome consumed => exact reaches_of_readSome h hop
    | write => exact reaches_of_write h hop
  · obtain ⟨hout, -⟩ := h.exchanging.of_open hopen
    exact reaches_of_answered h (by simp [hout])

theorem Aligned.buffer_eq {c : Connection P} (h : Aligned parser requests c got left)
    (hawaits : AwaitsBytes parser c) : c.buffer = [] := by
  obtain ⟨op, hop, hneeds⟩ := hawaits
  have hstop : ∀ stop : P → Bool, stop c.parser = false →
      (c.parser, c.buffer) = parser.put stop parser.init got → c.buffer = [] := by
    intro stop hnot hput
    by_contra hbuffer
    rw [show c.buffer = (parser.put stop parser.init got).2 from congrArg Prod.snd hput] at hbuffer
    have hstopped := parser.stop_of_rest stop hbuffer
    rw [← hput] at hstopped
    simp [hnot] at hstopped
  cases op with
  | handshake => cases hneeds
  | readHeader => exact hstop _ (by simpa [Connection.needsMore] using hneeds) (h.header hop)
  | readSome consumed =>
    exact hstop _ (by simpa [Connection.needsMore] using hneeds) (h.body consumed hop)
  | write => cases hneeds

/-- What is left of the stream can be received, and the connection comes to wait. -/
theorem completes {c : Connection P} (h : Alright parser requests c left) :
    ∃ events c', (∀ event ∈ events, Succeeds event) ∧
      received events = left.flatMap Prod.snd ∧
        run (Connection.step parser) c events = some c' ∧ AwaitsBytes parser c' := by
  generalize hchunks : left.flatMap Prod.snd = chunks
  induction chunks generalizing c left with
  | nil => exact reaches_of_alright h
  | cons bytes chunks ih =>
    obtain ⟨events, d, hsucceeds, hnone, hrun, hawaits⟩ := reaches_of_alright h
    obtain ⟨left', h', hleft⟩ := alright_run h hsucceeds hrun (by simp [hnone])
    rw [hnone, List.nil_append, hchunks] at hleft
    obtain ⟨got, haligned⟩ := h'.aligned
    have hbytes : bytes ≠ [] ∧ bytes.length ≤ bufferCapacity := by
      obtain ⟨x, hx, hmem⟩ := List.mem_flatMap.1 (hleft ▸ List.mem_cons_self)
      exact haligned.reads x hx bytes hmem
    have hstep : d.step parser (.receive bytes) = some (d.receive parser bytes) :=
      if_pos ⟨h'.healthy.adaptorOpen, hawaits, hbytes.1,
        by simpa [haligned.buffer_eq hawaits] using hbytes.2⟩
    obtain ⟨left'', h'', hleft'⟩ := alright_step h' hstep trivial ⟨chunks, hleft⟩
    have hchunks' : left''.flatMap Prod.snd = chunks :=
      (List.cons.inj (hleft'.symm.trans hleft.symm)).2
    obtain ⟨events', c', hsucceeds', hreceived, hrun', hawaits'⟩ := ih h'' hchunks'
    refine ⟨events ++ .receive bytes :: events', c', ?_, ?_, ?_, hawaits'⟩
    · simp only [List.forall_mem_append, List.forall_mem_cons]
      exact ⟨hsucceeds, trivial, hsucceeds'⟩
    · rw [received, List.filterMap_append, ← received, hnone, ← received, received_cons, hreceived]
      rfl
    · rw [run_append, hrun]
      exact (Option.bind_some ..).trans (by rw [run_cons, hstep]; exact hrun')

/-- However the requests were cut into reads, they are handled in order; all of
them are handled once everything was received and the connection awaits the next
request; and where nothing fails, that state can be reached. -/
theorem handles_split_requests {build : Build} (hauthx : build.authx = false)
    (connectionCount : ℕ) (splits : List (SplitRequest parser)) {events : List Event}
    {c : Connection P}
    (hrun : run (Connection.step parser) (opened parser build connectionCount) events = some c)
    (hreads : received events <+: splits.flatMap SplitRequest.reads) :
    handled c.log <+: dispatched (splits.map SplitRequest.message) ∧
      (received events = splits.flatMap SplitRequest.reads → AwaitsBytes parser c →
        handled c.log = dispatched (splits.map SplitRequest.message)) ∧
      (connectionCount < 100 → (∀ event ∈ events, Succeeds event) → ∃ events' c',
        (∀ event ∈ events', Succeeds event) ∧
          received (events ++ events') = splits.flatMap SplitRequest.reads ∧
            run (Connection.step parser) (opened parser build connectionCount)
              (events ++ events') = some c' ∧ AwaitsBytes parser c' ∧
                handled c'.log = dispatched (splits.map SplitRequest.message)) := by
  have hopened := aligned_opened hauthx connectionCount splits
  have hexch := exchanging_opened parser build connectionCount
  have hall : (splits.map fun x => (x.message, x.reads)).flatMap Prod.snd =
      splits.flatMap SplitRequest.reads := by
    rw [List.flatMap_map]
  have hdone : ∀ (events : List Event) (c : Connection P),
      run (Connection.step parser) (opened parser build connectionCount) events = some c →
        received events = splits.flatMap SplitRequest.reads → AwaitsBytes parser c →
          handled c.log = dispatched (splits.map SplitRequest.message) := by
    intro events c hrun hreceived hawaits
    obtain ⟨got, left, -, h, hleft⟩ := aligned_run hexch hopened hrun (by rw [hreceived, hall])
    obtain ⟨op, hop, hneeds⟩ := hawaits
    rw [hall, hreceived, List.self_eq_append_right] at hleft
    rcases left with _ | ⟨⟨m, reads⟩, rest⟩
    · simpa [dispatched] using h.handled_eq
    · obtain rfl : reads = [] := (List.append_eq_nil_iff.1 hleft).1
      exact (h.needs hop hneeds rfl).elim
  obtain ⟨got, left, -, h, -⟩ := aligned_run hexch hopened hrun (hall ▸ hreads)
  refine ⟨⟨_, h.handled_eq⟩, hdone events c hrun, fun hcount hsucceeds => ?_⟩
  have halright : Alright parser (splits.map SplitRequest.message)
      (opened parser build connectionCount) (splits.map fun x => (x.message, x.reads)) :=
    ⟨hexch, ⟨[], hopened⟩, healthy_opened build hcount⟩
  obtain ⟨left', halright', hleft⟩ := alright_run halright hsucceeds hrun (hall ▸ hreads)
  obtain ⟨events', c', hsucceeds', hreceived, hrun', hawaits⟩ := completes halright'
  have hrun'' : run (Connection.step parser) (opened parser build connectionCount)
      (events ++ events') = some c' := by
    rw [run_append, hrun]
    exact hrun'
  have hreceived' : received (events ++ events') = splits.flatMap SplitRequest.reads := by
    rw [received, List.filterMap_append, ← received, ← received, hreceived, ← hleft, hall]
  exact ⟨events', c', hsucceeds', hreceived', hrun'', hawaits, hdone _ c' hrun'' hreceived' hawaits⟩

def sampleHeader : List UInt8 := ascii "GET / HTTP/1.1\r\nHost: a\r\n\r\n"

def sampleParser : RequestParser (List UInt8) :=
  requestParser sampleHeader (by decide) 0 { target := "/", host := "a" }

theorem sample_encodes : sampleParser.Encodes sampleHeader { target := "/", host := "a" } :=
  ⟨sampleHeader, by decide +kernel, by decide +kernel, rfl⟩

def sampleSplits : List (SplitRequest sampleParser) := [
  { message := { target := "/", host := "a" }
    reads := [sampleHeader.take 5, sampleHeader.drop 5]
    encodes := by simpa using sample_encodes
    keepAlive := rfl, not_upgrades := by decide, fits := by decide +kernel },
  { message := { target := "/", host := "a" }
    reads := [sampleHeader]
    encodes := by simpa using sample_encodes
    keepAlive := rfl, not_upgrades := by decide, fits := by decide +kernel }]

def sampleEvents : List Event := [
  .receive (sampleHeader.take 5), .receive (sampleHeader.drop 5), .readHeader false false {},
  .write false, .receive sampleHeader, .readHeader false false {}, .write false]

theorem handles_split_requests_sample : ∃ c,
    run (Connection.step sampleParser) (opened sampleParser { ssl := false } 0) sampleEvents =
      some c ∧ received sampleEvents <+: sampleSplits.flatMap SplitRequest.reads ∧
        handled c.log <+: dispatched (sampleSplits.map SplitRequest.message) := by
  have hsome : (run (Connection.step sampleParser) (opened sampleParser { ssl := false } 0)
      sampleEvents).isSome := by decide +kernel
  obtain ⟨c, hc⟩ := Option.isSome_iff_exists.1 hsome
  have hreads : received sampleEvents <+: sampleSplits.flatMap SplitRequest.reads := by
    decide +kernel
  exact ⟨c, hc, hreads, (handles_split_requests rfl 0 sampleSplits hc hreads).1⟩

/-- Of two requests that one read returns, the connection handles the first and
waits for another, although nothing fails. -/
theorem pipelined_request_lost :
    let events : List Event :=
      [.receive (sampleHeader ++ sampleHeader), .readHeader false false {}, .write false]
    sampleParser.Encodes sampleHeader { target := "/", host := "a" } ∧
      (sampleHeader ++ sampleHeader).length ≤ bufferCapacity ∧
        (∀ event ∈ events, Succeeds event) ∧ ∃ c, run (Connection.step sampleParser)
          (opened sampleParser { ssl := false } 0) events = some c ∧ AwaitsBytes sampleParser c ∧
            handled c.log = [{ target := "/", host := "a" }] := by
  intro events
  refine ⟨sample_encodes, by decide, by simp [events, Succeeds], ?_⟩
  have hrun : (run (Connection.step sampleParser) (opened sampleParser { ssl := false } 0)
      events).map (fun c => (c.outstanding, c.needsMore sampleParser .readHeader, handled c.log)) =
        some ([.readHeader], true, [{ target := "/", host := "a" }]) := by decide +kernel
  obtain ⟨c, hc, heq⟩ := Option.map_eq_some_iff.1 hrun
  obtain ⟨hout, hneeds, hhandled⟩ : c.outstanding = [.readHeader] ∧
      c.needsMore sampleParser .readHeader = true ∧
        handled c.log = [{ target := "/", host := "a" }] := by simpa using heq
  exact ⟨c, hc, ⟨_, by rw [hout]; simp, hneeds⟩, hhandled⟩

end CrowCore.Segmentation
