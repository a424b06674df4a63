import CrowCore.GuardedRuns
import CrowCore.Http2Connection
import CrowCore.ResponseHeaders

set_option autoImplicit false

/-!
# Isolation of the streams of a connection

A client may reset a stream while its handler runs. The completion then finds no
stream, and closes the connection under all other streams.
-/
namespace CrowCore.StreamIsolation
open GuardedRuns HttpResponse Http2 ResponseHeaders

variable {F D : Type}

section Isolation
variable (c : Http2Connection F D)

def responses (streamId : ℤ) : List Submission :=
  c.submissions.filter fun submission => submission.streamId = streamId

/-- Nothing but a completion that has found no stream has closed the connection. -/
def Undisturbed : Prop :=
  ∀ cause, c.closedBy = some cause → ∃ streamId, cause = .sendResponse streamId

/-- Completions leave the connection open, and a stream that was not reset before its
handler was done has one response, given to an open connection. -/
structure Isolated : Prop where
  survives : ∀ streamId, c.closedBy ≠ some (.sendResponse streamId)
  answered : ∀ streamId, ⟨streamId, true⟩ ∈ c.completions → Undisturbed c →
    ∃ response, responses c streamId = [response] ∧ response.isOpen
  once : ∀ streamId, (responses c streamId).length ≤ 1

/-- While the connection is open, a handler completes before its stream is closed. -/
def CompletesOpen : Event F D → Prop
  | .complete place _ _ _ => c.isOpen → ∀ asyncResp ∈ c.asyncResps[place]?,
      c.session asyncResp.streamId ≠ .closed
  | _ => True

end Isolation

def held (c : Http2Connection F D) (streamId : ℤ) : ℕ :=
  c.asyncResps.countP fun asyncResp => asyncResp.streamId = streamId

def ended (c : Http2Connection F D) (streamId : ℤ) : ℕ :=
  c.completions.countP fun completion => completion.streamId = streamId

/-- The streams of the connection are those that the session has open, and a stream has
one handler, from the end of its request on. -/
structure Accounts (c : Http2Connection F D) : Prop where
  positive : ∀ id, c.session id ≠ .idle → 0 < id
  known : ∀ id, 0 < id →
    ((c.streams id).isSome ↔ c.session id = .opened ∨ c.session id = .halfClosed)
  unasked : ∀ id, c.session id = .idle ∨ c.session id = .opened → held c id + ended c id = 0
  one : ∀ id, held c id + ended c id ≤ 1
  responses_le : ∀ id, (responses c id).length ≤ c.completions.count ⟨id, true⟩

theorem count_le_ended (c : Http2Connection F D) (id : ℤ) :
    c.completions.count ⟨id, true⟩ ≤ ended c id := by
  refine List.countP_mono_left fun completion _ h => ?_
  rw [eq_of_beq h]
  simp

theorem Accounts.once {c : Http2Connection F D} (h : Accounts c) (id : ℤ) :
    (responses c id).length ≤ 1 := by
  have hcount := (h.responses_le id).trans (count_le_ended c id)
  have hone := h.one id
  omega

structure Uninvolved (c c' : Http2Connection F D) : Prop where
  submissions : c'.submissions = c.submissions
  completions : c'.completions = c.completions
  closedBy : c'.closedBy = c.closedBy ∨ ∃ cause, (∀ id, cause ≠ .sendResponse id) ∧
    c'.closedBy = c.closedBy.or (some cause)

structure Quiet (c c' : Http2Connection F D) : Prop extends Uninvolved c c' where
  streams : ∀ id, (c'.streams id).isSome = (c.streams id).isSome
  session : c'.session = c.session
  asyncResps : c'.asyncResps = c.asyncResps

theorem Quiet.accounts {c c' : Http2Connection F D} (hq : Quiet c c') (h : Accounts c) :
    Accounts c' := by
  have hheld : held c' = held c := by
    funext id
    rw [held, held, hq.asyncResps]
  have hended : ended c' = ended c := by
    funext id
    rw [ended, ended, hq.completions]
  constructor
  · rw [hq.session]
    exact h.positive
  · intro id hid
    rw [hq.streams, hq.session]
    exact h.known id hid
  · rw [hq.session, hheld, hended]
    exact h.unasked
  · rw [hheld, hended]
    exact h.one
  · intro id
    rw [responses, hq.submissions, hq.completions]
    exact h.responses_le id

theorem responses_congr {c c' : Http2Connection F D} (hsub : c'.submissions = c.submissions)
    (id : ℤ) : responses c' id = responses c id := by
  rw [responses, responses, hsub]

theorem Uninvolved.isolated {c c' : Http2Connection F D} (hu : Uninvolved c c')
    (h : Isolated c) : Isolated c' := by
  have hresponses := responses_congr hu.submissions
  have hundisturbed : Undisturbed c' → Undisturbed c := by
    intro hc' cause hcause
    apply hc' cause
    rcases hu.closedBy with hsame | ⟨cause', -, hor⟩
    · rw [hsame, hcause]
    · rw [hor, hcause]
      rfl
  constructor
  · intro id hid
    rcases hu.closedBy with hsame | ⟨cause, hcause, hor⟩
    · exact h.survives id (hsame ▸ hid)
    · rw [hor] at hid
      cases hclosed : c.closedBy with
      | none =>
        rw [hclosed] at hid
        exact hcause id (Option.some.inj hid)
      | some other =>
        rw [hclosed] at hid
        exact h.survives id (hclosed.trans hid)
  · intro id hid hopen
    rw [hresponses]
    exact h.answered id (hu.completions ▸ hid) (hundisturbed hopen)
  · intro id
    rw [hresponses]
    exact h.once id

variable {c c' : Http2Connection F D}

theorem Uninvolved.refl (c : Http2Connection F D) : Uninvolved c c := ⟨rfl, rfl, .inl rfl⟩

theorem Quiet.refl (c : Http2Connection F D) : Quiet c c :=
  ⟨.refl c, fun _ => rfl, rfl, rfl⟩

theorem Uninvolved.close (hu : Uninvolved c c') {cause : Cause}
    (hcause : ∀ id, cause ≠ .sendResponse id) : Uninvolved c (c'.close cause) := by
  refine ⟨hu.submissions, hu.completions, .inr ?_⟩
  rcases hu.closedBy with hsame | ⟨other, hother, hor⟩
  · exact ⟨cause, hcause, by rw [Http2Connection.close, hsame]⟩
  · refine ⟨other, hother, ?_⟩
    rw [Http2Connection.close, hor, Option.or_assoc]
    rfl

theorem Uninvolved.memRecv {called : Http2Connection F D × ℤ} (hu : Uninvolved c called.1) :
    Uninvolved c (Http2Connection.memRecv called) := by
  unfold Http2Connection.memRecv
  split_ifs
  · have hclosed : Uninvolved c (called.1.close .doRead) := hu.close nofun
    exact ⟨hclosed.submissions, hclosed.completions, hclosed.closedBy⟩
  · exact hu

theorem Quiet.memRecv {called : Http2Connection F D × ℤ} (hq : Quiet c called.1) :
    Quiet c (Http2Connection.memRecv called) := by
  refine ⟨hq.toUninvolved.memRecv, ?_, ?_, ?_⟩
  all_goals unfold Http2Connection.memRecv; split_ifs
  exacts [hq.streams, hq.streams, hq.session, hq.session, hq.asyncResps, hq.asyncResps]

theorem isSome_update {α : Type} {streams : ℤ → Option α} {id : ℤ} {old : α}
    (hold : streams id = some old) (new : α) (k : ℤ) :
    (Function.update streams id (some new) k).isSome = (streams k).isSome := by
  by_cases hk : k = id
  · rw [hk, Function.update_self, hold]
    rfl
  · rw [Function.update_of_ne hk]

theorem quiet_update {id : ℤ} {old : Http2StreamData F D} (hold : c.streams id = some old)
    (new : Http2StreamData F D) :
    Quiet c { c with streams := Function.update c.streams id (some new) } :=
  ⟨⟨rfl, rfl, .inl rfl⟩, isSome_update hold new, rfl, rfl⟩

theorem quiet_writeBuffer (hq : Quiet c c') : Quiet c c'.writeBuffer := by
  unfold Http2Connection.writeBuffer
  split_ifs
  · exact hq
  · exact hq
  · exact ⟨⟨hq.submissions, hq.completions, hq.closedBy⟩, hq.streams, hq.session, hq.asyncResps⟩

theorem quiet_afterWriteBuffer (hq : Quiet c c') (ec : Bool) (sendLength : ℕ) :
    Quiet c (c'.afterWriteBuffer ec sendLength) := by
  unfold Http2Connection.afterWriteBuffer
  dsimp only
  split_ifs
  · have hclosed : Uninvolved c (c'.close .afterWriteBuffer) := hq.toUninvolved.close nofun
    exact ⟨⟨hclosed.submissions, hclosed.completions, hclosed.closedBy⟩, hq.streams, hq.session,
      hq.asyncResps⟩
  · exact quiet_writeBuffer
      ⟨⟨hq.submissions, hq.completions, hq.closedBy⟩, hq.streams, hq.session, hq.asyncResps⟩

theorem quiet_onHeaderCallback (L : Library F D) (c : Http2Connection F D) (frame : Frame)
    (name value : String) : Quiet c (c.onHeaderCallback L frame name value).1 := by
  have hclose : ∀ cause : Cause, (∀ id, cause ≠ .sendResponse id) → Quiet c (c.close cause) :=
    fun cause hcause => ⟨(Uninvolved.refl c).close hcause, fun _ => rfl, rfl, rfl⟩
  unfold Http2Connection.onHeaderCallback
  by_cases hopens : frame.opens
  · rw [if_pos hopens]
    cases hstream : c.streams frame.stream_id with
    | none => exact hclose _ nofun
    | some stream =>
      dsimp only
      split_ifs
      · exact quiet_update hstream _
      · exact hclose _ nofun
      · exact quiet_update hstream _
      · exact .refl c
      · exact quiet_update hstream _
  · rw [if_neg hopens]
    exact .refl c

theorem Accounts.change (h : Accounts c) {id : ℤ} (hpos : 0 < id)
    (hsession : ∀ k ≠ id, c'.session k = c.session k)
    (hstreams : ∀ k ≠ id, c'.streams k = c.streams k)
    (hheld : ∀ k ≠ id, held c' k = held c k)
    (hsub : c'.submissions = c.submissions) (hcomp : c'.completions = c.completions)
    (hknown : (c'.streams id).isSome ↔ c'.session id = .opened ∨ c'.session id = .halfClosed)
    (hunasked : c'.session id = .idle ∨ c'.session id = .opened → held c' id + ended c id = 0)
    (hone : held c' id + ended c id ≤ 1) : Accounts c' := by
  have hended : ended c' = ended c := by
    funext k
    rw [ended, ended, hcomp]
  refine ⟨fun k hk => ?_, fun k hk => ?_, fun k hk => ?_, fun k => ?_, fun k => ?_⟩
  · by_cases hkid : k = id
    · exact hkid ▸ hpos
    · exact h.positive k (hsession k hkid ▸ hk)
  · by_cases hkid : k = id
    · rw [hkid]
      exact hknown
    · rw [hsession k hkid, hstreams k hkid]
      exact h.known k hk
  · rw [hended]
    by_cases hkid : k = id
    · rw [hkid] at hk ⊢
      exact hunasked hk
    · rw [hsession k hkid] at hk
      rw [hheld k hkid]
      exact h.unasked k hk
  · rw [hended]
    by_cases hkid : k = id
    · rw [hkid]
      exact hone
    · rw [hheld k hkid]
      exact h.one k
  · rw [responses, hsub, hcomp]
    exact h.responses_le k

theorem accounts_onBeginHeaders (L : Library F D) {frame : Frame} (h : Accounts c)
    (hopens : frame.opens) (hpos : 0 < frame.stream_id)
    (hidle : c.session frame.stream_id = .idle) :
    Accounts ((c.setSession frame.stream_id .opened).onBeginHeadersCallback L frame).1 := by
  have hnone := h.unasked frame.stream_id (.inl hidle)
  rw [Http2Connection.onBeginHeadersCallback, if_pos hopens]
  refine h.change hpos (fun k hk => ?_) (fun k hk => ?_) (fun k _ => rfl) rfl rfl ?_ ?_ ?_
  · exact Function.update_of_ne hk _ _
  · exact Function.update_of_ne hk _ _
  · simp [Http2Connection.setSession]
  · exact fun _ => hnone
  · exact hnone.le.trans zero_le_one

theorem accounts_onRequestRecv (L : Library F D) {id : ℤ} (h : Accounts c)
    (hopened : c.session id = .opened) :
    Accounts ((c.setSession id .halfClosed).onRequestRecv L id).1 := by
  have hpos : 0 < id := h.positive id (by simp [hopened])
  have hnone := h.unasked id (.inr hopened)
  obtain ⟨stream, hstream⟩ := Option.isSome_iff_exists.1 ((h.known id hpos).2 (.inl hopened))
  have hset : (c.setSession id .halfClosed).streams id = some stream := hstream
  rw [Http2Connection.onRequestRecv, hset]
  refine h.change hpos (fun k hk => ?_) (fun k hk => ?_) (fun k hk => ?_) rfl rfl ?_ ?_ ?_
  · exact Function.update_of_ne hk _ _
  · exact Function.update_of_ne hk _ _
  · simp [held, Http2Connection.setSession, hk.symm]
  · simp [Http2Connection.setSession]
  · simp [Http2Connection.setSession]
  · simp only [held, Http2Connection.setSession, List.countP_append,
      List.countP_singleton] at hnone ⊢
    simp only [decide_true, if_true]
    omega

theorem accounts_onStreamClose {id : ℤ} (h : Accounts c)
    (hopen : c.session id = .opened ∨ c.session id = .halfClosed) :
    Accounts ((c.setSession id .closed).onStreamCloseCallback id).1 := by
  have hpos : 0 < id := h.positive id fun hidle => by simp [hidle] at hopen
  obtain ⟨stream, hstream⟩ := Option.isSome_iff_exists.1 ((h.known id hpos).2 hopen)
  have hset : (c.setSession id .closed).streams id = some stream := hstream
  rw [Http2Connection.onStreamCloseCallback, hset]
  refine h.change hpos (fun k hk => ?_) (fun k hk => ?_) (fun k _ => rfl) rfl rfl ?_ ?_ ?_
  · exact Function.update_of_ne hk _ _
  · exact Function.update_of_ne hk _ _
  · simp [Http2Connection.setSession]
  · simp [Http2Connection.setSession]
  · exact h.one id

theorem uninvolved_onBeginHeaders (L : Library F D) (c : Http2Connection F D) (frame : Frame)
    (state : StreamState) :
    Uninvolved c ((c.setSession frame.stream_id state).onBeginHeadersCallback L frame).1 := by
  unfold Http2Connection.onBeginHeadersCallback
  split_ifs <;> exact ⟨rfl, rfl, .inl rfl⟩

theorem uninvolved_onRequestRecv (L : Library F D) (c : Http2Connection F D) (id : ℤ)
    (state : StreamState) :
    Uninvolved c ((c.setSession id state).onRequestRecv L id).1 := by
  unfold Http2Connection.onRequestRecv
  split
  · exact ⟨rfl, rfl, .inr ⟨.onRequestRecv id, nofun, rfl⟩⟩
  · exact ⟨rfl, rfl, .inl rfl⟩

theorem uninvolved_onStreamClose (c : Http2Connection F D) (id : ℤ) (state : StreamState) :
    Uninvolved c ((c.setSession id state).onStreamCloseCallback id).1 := by
  unfold Http2Connection.onStreamCloseCallback
  split <;> exact ⟨rfl, rfl, .inl rfl⟩

theorem onFrameRecvCallback_eq (L : Library F D) (c : Http2Connection F D) (frame : Frame) :
    c.onFrameRecvCallback L frame =
      if frame.type ≠ .other ∧ frame.end_stream then c.onRequestRecv L frame.stream_id
      else (c, 0) := by
  unfold Http2Connection.onFrameRecvCallback
  cases frame.type <;> simp

def Event.isCompletion : Event F D → Bool
  | .complete _ _ _ _ => true
  | _ => false

theorem keeps_of_event (L : Library F D) {event : Event F D} (h : Accounts c)
    (hallowed : c.Allowed event) (hother : Event.isCompletion event = false) :
    Accounts (c.handle L event) ∧ Uninvolved c (c.handle L event) := by
  have hquiet : ∀ c' : Http2Connection F D, Quiet c c' → Accounts c' ∧ Uninvolved c c' :=
    fun c' hq => ⟨hq.accounts h, hq.toUninvolved⟩
  have hmem : ∀ called : Http2Connection F D × ℤ, Accounts called.1 ∧ Uninvolved c called.1 →
      Accounts (Http2Connection.memRecv called) ∧ Uninvolved c (Http2Connection.memRecv called) :=
    fun called hcalled => ⟨(Quiet.refl called.1).memRecv.accounts hcalled.1, hcalled.2.memRecv⟩
  cases event with
  | onBeginHeaders frame =>
    apply hmem
    by_cases hopens : frame.opens
    · obtain ⟨-, hfresh⟩ := hallowed
      rw [if_pos hopens] at hfresh
      rw [if_pos hopens]
      exact ⟨accounts_onBeginHeaders L h hopens hfresh.1 hfresh.2,
        uninvolved_onBeginHeaders L c frame .opened⟩
    · rw [if_neg hopens, Http2Connection.onBeginHeadersCallback, if_neg hopens]
      exact hquiet c (.refl c)
  | onHeader frame name value =>
    exact hmem _ (hquiet _ (quiet_onHeaderCallback L c frame name value))
  | onFrameRecv frame =>
    apply hmem
    rw [onFrameRecvCallback_eq]
    by_cases hended : frame.type ≠ .other ∧ frame.end_stream
    · rw [if_pos hended, if_pos hended]
      have hopened := hallowed.2.resolve_left hended.1
      exact ⟨accounts_onRequestRecv L h hopened, uninvolved_onRequestRecv L c frame.stream_id _⟩
    · rw [if_neg hended, if_neg hended]
      exact hquiet c (.refl c)
  | onStreamClose id =>
    exact ⟨accounts_onStreamClose h hallowed, uninvolved_onStreamClose c id .closed⟩
  | onSend data =>
    apply hquiet
    apply quiet_writeBuffer
    exact ⟨⟨rfl, rfl, .inl rfl⟩, fun _ => rfl, rfl, rfl⟩
  | afterWriteBuffer ec sendLength =>
    apply hquiet
    apply quiet_afterWriteBuffer
    exact ⟨⟨rfl, rfl, .inl rfl⟩, fun _ => rfl, rfl, rfl⟩
  | readError =>
    apply hquiet
    exact ⟨⟨rfl, rfl, .inr ⟨.doRead, nofun, rfl⟩⟩, fun _ => rfl, rfl, rfl⟩
  | complete => cases hother

theorem close_close (c : Http2Connection F D) (cause cause' : Cause) :
    (c.close cause).close cause' = c.close cause := by
  cases hclosed : c.closedBy <;> simp [Http2Connection.close, hclosed]

theorem complete_of_none (L : Library F D) {asyncResp : AsyncResp F D}
    (hnone : c.streams asyncResp.streamId = none) (handler : Response F D → Response F D)
    (date : String) (rv : ℤ) : c.complete L asyncResp handler date rv =
      { c with
        completions := c.completions ++
          [⟨asyncResp.streamId, c.session asyncResp.streamId ≠ .closed⟩]
        closedBy := c.closedBy.or (some (.sendResponse asyncResp.streamId)) } := by
  unfold Http2Connection.complete Http2Connection.completeRequestHandler
    Http2Connection.sendResponse
  dsimp only
  rw [hnone]
  exact close_close _ _ _

theorem complete_of_some (L : Library F D) {asyncResp : AsyncResp F D}
    {stream : Http2StreamData F D} (hsome : c.streams asyncResp.streamId = some stream)
    (handler : Response F D → Response F D) (date : String) (rv : ℤ) : ∃ new hdr,
      c.complete L asyncResp handler date rv =
        { c with
          streams := Function.update c.streams asyncResp.streamId (some new)
          completions := c.completions ++
            [⟨asyncResp.streamId, c.session asyncResp.streamId ≠ .closed⟩]
          closedBy :=
            if rv ≠ 0 then c.closedBy.or (some (.submitResponse asyncResp.streamId))
            else c.closedBy
          submissions :=
            if rv ≠ 0 then c.submissions
            else c.submissions ++ [⟨asyncResp.streamId, hdr, c.isOpen⟩] } := by
  unfold Http2Connection.complete Http2Connection.completeRequestHandler
    Http2Connection.sendResponse
  dsimp only
  rw [hsome]
  by_cases hrv : rv = 0
  · simp only [hrv, ne_eq, not_true_eq_false, if_false]
    exact ⟨_, _, rfl⟩
  · simp only [ne_eq, hrv, not_false_eq_true, if_true]
    exact ⟨_, [], close_close _ _ _⟩

theorem held_add_ended {place : ℕ} {asyncResp : AsyncResp F D}
    (hplace : c.asyncResps[place]? = some asyncResp)
    (hasync : c'.asyncResps = c.asyncResps.eraseIdx place) {isOpen : Bool}
    (hcomp : c'.completions = c.completions ++ [⟨asyncResp.streamId, isOpen⟩]) (id : ℤ) :
    held c' id + ended c' id = held c id + ended c id := by
  obtain ⟨hlt, hget⟩ := List.getElem?_eq_some_iff.1 hplace
  have hperm := (List.getElem_cons_eraseIdx_perm hlt).countP_eq
    fun asyncResp => decide (asyncResp.streamId = id)
  rw [hget, List.countP_cons] at hperm
  simp only [held, ended, hasync, hcomp, List.countP_append, List.countP_singleton]
  omega

theorem Accounts.of_held (h : Accounts c) {place : ℕ} {asyncResp : AsyncResp F D}
    (hplace : c.asyncResps[place]? = some asyncResp) :
    ((c.streams asyncResp.streamId).isSome ↔ c.session asyncResp.streamId ≠ .closed) ∧
      responses c asyncResp.streamId = [] := by
  have hheld : 0 < held c asyncResp.streamId := by
    rw [held, List.countP_pos_iff]
    exact ⟨asyncResp, List.mem_of_getElem? hplace, by simp⟩
  have hunasked := h.unasked asyncResp.streamId
  have hone := h.one asyncResp.streamId
  have hle := (h.responses_le asyncResp.streamId).trans (count_le_ended c asyncResp.streamId)
  constructor
  · cases hsession : c.session asyncResp.streamId with
    | idle =>
      have := hunasked (.inl hsession)
      omega
    | opened =>
      have := hunasked (.inr hsession)
      omega
    | halfClosed =>
      rw [h.known _ (h.positive _ (by simp [hsession])), hsession]
      simp
    | closed =>
      rw [h.known _ (h.positive _ (by simp [hsession])), hsession]
      simp
  · apply List.eq_nil_of_length_eq_zero
    omega

theorem responses_append {id : ℤ} {response : Submission} (hid : response.streamId = id)
    (hsub : c'.submissions = c.submissions ++ [response]) (k : ℤ) :
    responses c' k = responses c k ++ if id = k then [response] else [] := by
  rw [responses, hsub, List.filter_append, ← responses, List.filter_singleton, hid]
  by_cases hk : id = k
  · rw [if_pos hk, decide_eq_true hk, cond_true]
  · rw [if_neg hk, decide_eq_false hk, cond_false]

/-- What a completion does to the response: the stream is gone, or the session
refuses it, or takes it. -/
inductive Answer (c c' : Http2Connection F D) (id : ℤ) : Prop where
  | late (hsession : c.session id = .closed) (hsub : c'.submissions = c.submissions)
      (hclosed : c'.closedBy = c.closedBy.or (some (.sendResponse id)))
  | refused (hsession : c.session id ≠ .closed) (hsub : c'.submissions = c.submissions)
      (hclosed : c'.closedBy = c.closedBy.or (some (.submitResponse id)))
  | taken (response : Submission) (hid : response.streamId = id)
      (hopen : response.isOpen = c.isOpen) (hsession : c.session id ≠ .closed)
      (hsub : c'.submissions = c.submissions ++ [response]) (hclosed : c'.closedBy = c.closedBy)

structure Completes (c c' : Http2Connection F D) (place : ℕ) (id : ℤ) : Prop where
  streams : ∀ k, (c'.streams k).isSome = (c.streams k).isSome
  session : c'.session = c.session
  asyncResps : c'.asyncResps = c.asyncResps.eraseIdx place
  completions : c'.completions = c.completions ++ [⟨id, c.session id ≠ .closed⟩]
  answer : Answer c c' id

theorem completes_handle (L : Library F D) (h : Accounts c) {place : ℕ}
    {asyncResp : AsyncResp F D} (hplace : c.asyncResps[place]? = some asyncResp)
    (handler : Response F D → Response F D) (date : String) (rv : ℤ) :
    Completes c (c.handle L (.complete place handler date rv)) place asyncResp.streamId := by
  have hknown := (h.of_held hplace).1
  rw [Http2Connection.handle, hplace]
  dsimp only
  cases hstream : c.streams asyncResp.streamId with
  | none =>
    have hclosed : c.session asyncResp.streamId = .closed := by
      rw [hstream] at hknown
      simpa using hknown
    rw [complete_of_none L (c := { c with asyncResps := c.asyncResps.eraseIdx place }) hstream
      handler date rv]
    exact ⟨fun _ => rfl, rfl, rfl, rfl, .late hclosed rfl rfl⟩
  | some stream =>
    have hopen := hknown.1 (Option.isSome_iff_exists.2 ⟨stream, hstream⟩)
    obtain ⟨new, hdr, hnew⟩ := complete_of_some L
      (c := { c with asyncResps := c.asyncResps.eraseIdx place }) hstream handler date rv
    rw [hnew]
    refine ⟨isSome_update hstream new, rfl, rfl, rfl, ?_⟩
    by_cases hrv : rv = 0
    · exact .taken _ rfl rfl hopen (if_neg (not_not.2 hrv)) (if_neg (not_not.2 hrv))
    · exact .refused hopen (if_pos hrv) (if_pos hrv)

theorem Completes.accounts {place : ℕ} {asyncResp : AsyncResp F D}
    (hc : Completes c c' place asyncResp.streamId) (h : Accounts c)
    (hplace : c.asyncResps[place]? = some asyncResp) : Accounts c' := by
  have hsum := held_add_ended hplace hc.asyncResps hc.completions
  refine ⟨?_, fun k hk => ?_, fun k hk => ?_, fun k => ?_, fun k => ?_⟩
  · rw [hc.session]
    exact h.positive
  · rw [hc.streams, hc.session]
    exact h.known k hk
  · rw [hsum]
    rw [hc.session] at hk
    exact h.unasked k hk
  · rw [hsum]
    exact h.one k
  · have hle := h.responses_le k
    rw [hc.completions, List.count_append]
    cases hc.answer with
    | late _ hsub =>
      rw [responses_congr hsub]
      omega
    | refused _ hsub =>
      rw [responses_congr hsub]
      omega
    | taken response hid _ hsession hsub =>
      rw [responses_append hid hsub, List.length_append]
      by_cases hk : asyncResp.streamId = k
      · rw [if_pos hk, decide_eq_true hsession, hk, List.count_singleton_self]
        simpa using hle
      · rw [if_neg hk]
        exact hle.trans (Nat.le_add_right _ _)

theorem Undisturbed.closedBy_eq (hundisturbed : Undisturbed c)
    (hsurvives : ∀ id, c.closedBy ≠ some (.sendResponse id)) : c.closedBy = none := by
  cases hclosed : c.closedBy with
  | none => rfl
  | some cause =>
    obtain ⟨id, rfl⟩ := hundisturbed cause hclosed
    exact absurd hclosed (hsurvives id)

theorem Completes.isolated_of_late {place : ℕ} {id : ℤ} (hc : Completes c c' place id)
    (hiso : Isolated c) (honce : ∀ k, (responses c' k).length ≤ 1)
    (hsession : c.session id = .closed) (hsub : c'.submissions = c.submissions)
    (hclosed : c'.closedBy = c.closedBy) : Isolated c' := by
  refine ⟨fun k => hclosed ▸ hiso.survives k, fun k hk hundisturbed => ?_, honce⟩
  have hmem : ⟨k, true⟩ ∈ c.completions := by
    rw [hc.completions, hsession] at hk
    simpa using hk
  rw [Undisturbed, hclosed] at hundisturbed
  rw [responses_congr hsub]
  exact hiso.answered k hmem hundisturbed

theorem isolated_of_refused {id : ℤ} (hiso : Isolated c)
    (honce : ∀ k, (responses c' k).length ≤ 1)
    (hclosed : c'.closedBy = c.closedBy.or (some (.submitResponse id))) : Isolated c' := by
  have hsurvives : ∀ id, c'.closedBy ≠ some (.sendResponse id) := by
    intro id hid
    cases hclosedBy : c.closedBy with
    | none => simp [hclosed, hclosedBy] at hid
    | some cause =>
      rw [hclosed, hclosedBy, Option.some_or, ← hclosedBy] at hid
      exact hiso.survives id hid
  refine ⟨hsurvives, fun k _ hundisturbed => ?_, honce⟩
  have hnone := hundisturbed.closedBy_eq hsurvives
  rw [hclosed] at hnone
  simp at hnone

theorem Completes.isolated_of_taken {place : ℕ} {id : ℤ} (hc : Completes c c' place id)
    (hiso : Isolated c) (honce : ∀ k, (responses c' k).length ≤ 1) (hfirst : responses c id = [])
    {response : Submission} (hid : response.streamId = id) (hopen : response.isOpen = c.isOpen)
    (hsub : c'.submissions = c.submissions ++ [response]) (hclosed : c'.closedBy = c.closedBy) :
    Isolated c' := by
  refine ⟨fun k => hclosed ▸ hiso.survives k, fun k hk hundisturbed => ?_, honce⟩
  rw [responses_append hid hsub]
  rw [Undisturbed, hclosed] at hundisturbed
  by_cases hkid : id = k
  · have hnone := Undisturbed.closedBy_eq hundisturbed hiso.survives
    refine ⟨response, ?_, ?_⟩
    · rw [← hkid, hfirst, if_pos rfl, List.nil_append]
    · simp [hopen, Http2Connection.isOpen, hnone]
  · rw [if_neg hkid, List.append_nil]
    refine hiso.answered k ?_ hundisturbed
    rw [hc.completions] at hk
    simpa [Ne.symm hkid] using hk

theorem Completes.isolated_iff {place : ℕ} {asyncResp : AsyncResp F D}
    (hc : Completes c c' place asyncResp.streamId) (h : Accounts c)
    (hplace : c.asyncResps[place]? = some asyncResp) (hiso : Isolated c) :
    Isolated c' ↔ (c.isOpen → c.session asyncResp.streamId ≠ .closed) := by
  have honce := (hc.accounts h hplace).once
  cases hc.answer with
  | late hsession hsub hclosed =>
    constructor
    · intro hiso' hopen
      rw [Option.isNone_iff_eq_none.1 hopen] at hclosed
      exact absurd hclosed (hiso'.survives _)
    · intro hguard
      apply hc.isolated_of_late hiso honce hsession hsub
      cases hclosedBy : c.closedBy with
      | none => exact absurd hsession (hguard (by simp [Http2Connection.isOpen, hclosedBy]))
      | some cause => rw [hclosed, hclosedBy, Option.some_or]
  | refused hsession _ hclosed =>
    exact iff_of_true (isolated_of_refused hiso honce hclosed) fun _ => hsession
  | taken response hid hopen hsession hsub hclosed =>
    refine iff_of_true ?_ fun _ => hsession
    exact hc.isolated_of_taken hiso honce (h.of_held hplace).2 hid hopen hsub hclosed

theorem accounts_start (L : Library F D) (rv : ℤ) : Accounts (Http2Connection.start L rv) where
  positive id hid := absurd rfl hid
  known id hid := by simp [Http2Connection.start, hid.ne']
  unasked id _ := rfl
  one id := by simp [held, ended, Http2Connection.start]
  responses_le id := by simp [responses, Http2Connection.start]

theorem isolated_start (L : Library F D) (rv : ℤ) : Isolated (Http2Connection.start L rv) where
  survives id := by simp [Http2Connection.start]
  answered id hid := by simp [Http2Connection.start] at hid
  once := (accounts_start L rv).once

/-- The step lemma: the books are kept, and the streams stay isolated exactly under the
condition. -/
theorem isolated_step (L : Library F D) {event : Event F D} (h : Accounts c) (hiso : Isolated c)
    (hstep : c.step L event = some c') :
    Accounts c' ∧ (Isolated c' ↔ CompletesOpen c event) := by
  obtain ⟨hallowed, hstep⟩ := Option.ite_none_right_eq_some.1 hstep
  rw [← Option.some.inj hstep]
  cases hevent : Event.isCompletion event with
  | false =>
    obtain ⟨haccounts, huninvolved⟩ := keeps_of_event L h hallowed hevent
    have hguard : CompletesOpen c event := by
      cases event <;> trivial
    exact ⟨haccounts, iff_of_true (huninvolved.isolated hiso) hguard⟩
  | true =>
    cases event with
    | complete place handler date rv =>
      have hplace : c.asyncResps[place]? = some c.asyncResps[place] :=
        List.getElem?_eq_getElem hallowed
      have hc := completes_handle L h hplace handler date rv
      refine ⟨hc.accounts h hplace, (hc.isolated_iff h hplace hiso).trans ?_⟩
      simp [CompletesOpen, hplace]
    | _ => cases hevent

/-- The streams are isolated in every state of a run exactly if no handler completes
after its stream has been closed, while the connection is open. -/
theorem isolated_iff_completesOpen (L : Library F D) (rv : ℤ) (events : List (Event F D)) :
    Always (Http2Connection.step L) Isolated (Http2Connection.start L rv) events ↔
      Guarded (Http2Connection.step L) CompletesOpen (Http2Connection.start L rv) events := by
  have hstep : ∀ (c : Http2Connection F D) event c', Isolated c ∧ Accounts c →
      c.step L event = some c' → ((Isolated c' ∧ Accounts c') ↔ CompletesOpen c event) := by
    intro c event c' hc hstep
    obtain ⟨haccounts, hiff⟩ := isolated_step L hc.2 hc.1 hstep
    rw [← hiff]
    exact and_iff_left haccounts
  rw [← always_iff_guarded hstep ⟨isolated_start L rv, accounts_start L rv⟩]
  constructor
  · intro h
    exact h.and_of_step (fun c event c' hiso hc hs => (isolated_step L hc hiso hs).1)
      (accounts_start L rv)
  · exact Always.mono fun c hc => hc.1

def request (id : ℤ) : Frame where
  type := .headers
  stream_id := id
  end_stream := true
  hcat_request := true

def resetEvents : List (Event (List (String × String)) Unit) :=
  [.onBeginHeaders (request 1), .onFrameRecv (request 1), .onBeginHeaders (request 3),
    .onFrameRecv (request 3), .onStreamClose 1, .complete 0 id "" 0, .complete 0 id "" 0]

/-- The completion of the reset stream closes the connection, and the other stream has
its response only then. -/
theorem reset_closes_connection :
    ((run (Http2Connection.step listLibrary) (Http2Connection.start listLibrary 0) resetEvents).map
      fun c => (c.closedBy, c.completions, (responses c 3).map Submission.isOpen)) =
        some (some (.sendResponse 1), [⟨1, false⟩, ⟨3, true⟩], [false]) ∧
      ¬ Always (Http2Connection.step listLibrary) Isolated
        (Http2Connection.start listLibrary 0) resetEvents := by
  have hrun : ((run (Http2Connection.step listLibrary) (Http2Connection.start listLibrary 0)
      resetEvents).map fun c => (c.closedBy, c.completions, (responses c 3).map
        Submission.isOpen)) =
      some (some (.sendResponse 1), [⟨1, false⟩, ⟨3, true⟩], [false]) := by
    decide +kernel
  refine ⟨hrun, fun h => ?_⟩
  obtain ⟨c, hc, hfacts⟩ := Option.map_eq_some_iff.1 hrun
  exact (h.last hc).survives 1 (congrArg Prod.fst hfacts)

end CrowCore.StreamIsolation
