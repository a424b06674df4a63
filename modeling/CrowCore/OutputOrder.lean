import CrowCore.GuardedRuns
import CrowCore.Http2Connection
import CrowCore.ResponseHeaders

set_option autoImplicit false

/-!
# The output of an HTTP/2 connection

The session hands over its output in pieces, and the socket takes it in other
pieces. What the socket has taken and what is buffered is what was handed over.
-/
namespace CrowCore.OutputOrder
open GuardedRuns HttpResponse Http2 ResponseHeaders

variable {F D : Type}

def handedOver : Event F D → List UInt8
  | .onSend data => data
  | _ => []

def Event.writeFails : Event F D → Bool
  | .afterWriteBuffer ec _ => ec
  | _ => false

/-- Data that was handed over is sent or buffered, and while some is buffered one write
is outstanding, of the front of the buffer. -/
structure InOrder (c : Http2Connection F D) (data : List UInt8) : Prop where
  conserved : c.sent ++ c.sendBuffer = data
  idle : c.isWriting = false → c.writes = [] ∧ c.sendBuffer = []
  writing : c.isWriting = true → ∃ snapshot, c.writes = [snapshot] ∧ snapshot <+: c.sendBuffer

structure SameOutput (c c' : Http2Connection F D) : Prop where
  sendBuffer : c'.sendBuffer = c.sendBuffer
  isWriting : c'.isWriting = c.isWriting
  writes : c'.writes = c.writes
  sent : c'.sent = c.sent

variable {c c' c'' : Http2Connection F D} {data : List UInt8}

theorem SameOutput.inOrder (hsame : SameOutput c c') (h : InOrder c data) : InOrder c' data := by
  constructor
  · rw [hsame.sent, hsame.sendBuffer]
    exact h.conserved
  · rw [hsame.isWriting, hsame.writes, hsame.sendBuffer]
    exact h.idle
  · rw [hsame.isWriting, hsame.writes, hsame.sendBuffer]
    exact h.writing

theorem SameOutput.refl (c : Http2Connection F D) : SameOutput c c := ⟨rfl, rfl, rfl, rfl⟩

theorem SameOutput.trans (h : SameOutput c c') (h' : SameOutput c' c'') : SameOutput c c'' :=
  ⟨h'.sendBuffer.trans h.sendBuffer, h'.isWriting.trans h.isWriting, h'.writes.trans h.writes,
    h'.sent.trans h.sent⟩

theorem inOrder_writeBuffer (hconserved : c.sent ++ c.sendBuffer = data)
    (hidle : c.isWriting = false → c.writes = [])
    (hwriting : c.isWriting = true → ∃ snapshot, c.writes = [snapshot] ∧
      snapshot <+: c.sendBuffer) : InOrder c.writeBuffer data := by
  unfold Http2Connection.writeBuffer
  split_ifs with hbusy hempty
  · exact ⟨hconserved, fun hfree => absurd hbusy (by simp [hfree]), hwriting⟩
  · have hnil : c.sendBuffer = [] := List.eq_nil_of_length_eq_zero (by omega)
    exact ⟨hconserved, fun hfree => ⟨hidle hfree, hnil⟩, hwriting⟩
  · have hnone : c.writes = [] := hidle (by simpa using hbusy)
    refine ⟨hconserved, nofun, fun _ => ⟨c.sendBuffer, ?_, List.prefix_rfl⟩⟩
    simp [hnone]

theorem inOrder_onSendCallback (h : InOrder c data) (more : List UInt8) :
    InOrder (c.onSendCallback more) (data ++ more) := by
  apply inOrder_writeBuffer
  · rw [← List.append_assoc]
    exact congrArg (· ++ more) h.conserved
  · exact fun hfree => (h.idle hfree).1
  · intro hbusy
    obtain ⟨snapshot, hwrites, hfront⟩ := h.writing hbusy
    exact ⟨snapshot, hwrites, hfront.trans (List.prefix_append _ _)⟩

theorem afterWriteBuffer_eq (c : Http2Connection F D) (sendLength : ℕ) :
    c.afterWriteBuffer false sendLength = Http2Connection.writeBuffer
      { c with isWriting := false, sendBuffer := c.sendBuffer.drop sendLength } := rfl

theorem inOrder_afterWriteBuffer (h : InOrder c data) {snapshot : List UInt8} {sendLength : ℕ}
    (hwrites : c.writes.head? = some snapshot) (hlength : sendLength ≤ snapshot.length) :
    InOrder ({ c with
      writes := c.writes.tail
      sent := c.sent ++ (c.writes.headD []).take sendLength }.afterWriteBuffer false sendLength)
      data := by
  have hbusy : c.isWriting = true := by
    by_contra hfree
    rw [(h.idle (by simpa using hfree)).1] at hwrites
    cases hwrites
  obtain ⟨front, hone, rest, hfront⟩ := h.writing hbusy
  rw [hone] at hwrites
  obtain rfl : front = snapshot := Option.some.inj hwrites
  have htake : front.take sendLength = c.sendBuffer.take sendLength := by
    rw [← hfront, List.take_append_of_le_length hlength]
  rw [afterWriteBuffer_eq]
  apply inOrder_writeBuffer
  · simp only [hone, List.headD_cons]
    rw [htake, List.append_assoc, List.take_append_drop]
    exact h.conserved
  · intro _
    simp [hone]
  · exact nofun

theorem sameOutput_setSession (c : Http2Connection F D) (streamId : ℤ) (state : StreamState) :
    SameOutput c (c.setSession streamId state) := ⟨rfl, rfl, rfl, rfl⟩

theorem sameOutput_memRecv {called : Http2Connection F D × ℤ} (h : SameOutput c called.1) :
    SameOutput c (Http2Connection.memRecv called) := by
  unfold Http2Connection.memRecv
  split_ifs
  · exact ⟨h.sendBuffer, h.isWriting, h.writes, h.sent⟩
  · exact h

theorem sameOutput_onBeginHeaders (L : Library F D) (c : Http2Connection F D) (frame : Frame) :
    SameOutput c (c.onBeginHeadersCallback L frame).1 := by
  unfold Http2Connection.onBeginHeadersCallback
  split_ifs <;> exact ⟨rfl, rfl, rfl, rfl⟩

theorem sameOutput_onHeader (L : Library F D) (c : Http2Connection F D) (frame : Frame)
    (name value : String) : SameOutput c (c.onHeaderCallback L frame name value).1 := by
  unfold Http2Connection.onHeaderCallback
  by_cases hopens : frame.opens
  · rw [if_pos hopens]
    cases c.streams frame.stream_id with
    | none => exact ⟨rfl, rfl, rfl, rfl⟩
    | some stream =>
      dsimp only
      split_ifs <;> exact ⟨rfl, rfl, rfl, rfl⟩
  · rw [if_neg hopens]
    exact .refl c

theorem sameOutput_onRequestRecv (L : Library F D) (c : Http2Connection F D) (streamId : ℤ) :
    SameOutput c (c.onRequestRecv L streamId).1 := by
  unfold Http2Connection.onRequestRecv
  cases c.streams streamId <;> exact ⟨rfl, rfl, rfl, rfl⟩

theorem sameOutput_onFrameRecv (L : Library F D) (c : Http2Connection F D) (frame : Frame) :
    SameOutput c (c.onFrameRecvCallback L frame).1 := by
  unfold Http2Connection.onFrameRecvCallback
  cases frame.type with
  | other => exact .refl c
  | data | headers =>
    dsimp only
    split_ifs
    · exact sameOutput_onRequestRecv L c frame.stream_id
    · exact .refl c

theorem sameOutput_onStreamClose (c : Http2Connection F D) (streamId : ℤ) :
    SameOutput c (c.onStreamCloseCallback streamId).1 := by
  unfold Http2Connection.onStreamCloseCallback
  cases c.streams streamId <;> exact ⟨rfl, rfl, rfl, rfl⟩

theorem sameOutput_sendResponse (L : Library F D) (c : Http2Connection F D)
    (completedRes : Response F D) (streamId : ℤ) (date : String) (rv : ℤ) :
    SameOutput c (c.sendResponse L completedRes streamId date rv).1 := by
  unfold Http2Connection.sendResponse
  cases c.streams streamId with
  | none => exact ⟨rfl, rfl, rfl, rfl⟩
  | some stream =>
    dsimp only
    split_ifs <;> exact ⟨rfl, rfl, rfl, rfl⟩

theorem sameOutput_complete (L : Library F D) (c : Http2Connection F D) (asyncResp : AsyncResp F D)
    (handler : Response F D → Response F D) (date : String) (rv : ℤ) :
    SameOutput c (c.complete L asyncResp handler date rv) := by
  unfold Http2Connection.complete Http2Connection.completeRequestHandler
  dsimp only
  have hnoted : SameOutput c { c with completions := c.completions ++
      [⟨asyncResp.streamId, c.session asyncResp.streamId ≠ .closed⟩] } := ⟨rfl, rfl, rfl, rfl⟩
  have hsent := hnoted.trans (sameOutput_sendResponse L _ ((handler asyncResp.res).markEnded L)
    asyncResp.streamId date rv)
  split_ifs
  · exact ⟨hsent.sendBuffer, hsent.isWriting, hsent.writes, hsent.sent⟩
  · exact hsent

theorem inOrder_step (L : Library F D) {event : Event F D} (h : InOrder c data)
    (hok : Event.writeFails event = false) (hstep : c.step L event = some c') :
    InOrder c' (data ++ handedOver event) := by
  obtain ⟨hallowed, hstep⟩ := Option.ite_none_right_eq_some.1 hstep
  rw [← Option.some.inj hstep]
  have hother : SameOutput c (c.handle L event) → handedOver event = [] →
      InOrder (c.handle L event) (data ++ handedOver event) := by
    intro hsame hnothing
    rw [hnothing, List.append_nil]
    exact hsame.inOrder h
  cases event with
  | onSend more => exact inOrder_onSendCallback h more
  | afterWriteBuffer ec sendLength =>
    obtain ⟨snapshot, hwrites, hlength⟩ := hallowed
    obtain rfl : ec = false := hok
    have hnothing : handedOver (.afterWriteBuffer false sendLength : Event F D) = [] := rfl
    rw [hnothing, List.append_nil]
    exact inOrder_afterWriteBuffer h hwrites hlength
  | onBeginHeaders frame =>
    refine hother (sameOutput_memRecv ?_) rfl
    split_ifs
    · exact (sameOutput_setSession c _ _).trans (sameOutput_onBeginHeaders L _ frame)
    · exact sameOutput_onBeginHeaders L c frame
  | onHeader frame name value =>
    exact hother (sameOutput_memRecv (sameOutput_onHeader L c frame name value)) rfl
  | onFrameRecv frame =>
    refine hother (sameOutput_memRecv ?_) rfl
    split_ifs
    · exact (sameOutput_setSession c _ _).trans (sameOutput_onFrameRecv L _ frame)
    · exact sameOutput_onFrameRecv L c frame
  | onStreamClose streamId =>
    exact hother ((sameOutput_setSession c _ _).trans (sameOutput_onStreamClose _ streamId)) rfl
  | readError => exact hother ⟨rfl, rfl, rfl, rfl⟩ rfl
  | complete place handler date rv =>
    refine hother ?_ rfl
    rw [Http2Connection.handle]
    cases c.asyncResps[place]? with
    | none => exact .refl c
    | some asyncResp =>
      have hleft : SameOutput c { c with asyncResps := c.asyncResps.eraseIdx place } :=
        ⟨rfl, rfl, rfl, rfl⟩
      exact hleft.trans (sameOutput_complete L _ asyncResp handler date rv)

theorem inOrder_run (L : Library F D) {events : List (Event F D)} (h : InOrder c data)
    (hok : ∀ event ∈ events, Event.writeFails event = false)
    (hrun : run (Http2Connection.step L) c events = some c') :
    InOrder c' (data ++ events.flatMap handedOver) := by
  induction events generalizing c data with
  | nil =>
    obtain rfl := Option.some.inj hrun
    simpa using h
  | cons event events ih =>
    obtain ⟨d, hstep, hrun⟩ := Option.bind_eq_some_iff.1 hrun
    rw [List.forall_mem_cons] at hok
    have hrest := ih (inOrder_step L h hok.1 hstep) hok.2 hrun
    rwa [List.append_assoc] at hrest

/-- In every state of a run without a failed write the socket has taken a front of what
was handed over, the rest is buffered in order, and while there is a rest, exactly one
write is outstanding. -/
theorem output_in_order (L : Library F D) (rv : ℤ) {events : List (Event F D)}
    (hok : ∀ event ∈ events, Event.writeFails event = false)
    (hrun : run (Http2Connection.step L) (Http2Connection.start L rv) events = some c) :
    c.writes.length ≤ 1 ∧ c.sent <+: events.flatMap handedOver ∧
      c.sent ++ c.sendBuffer = events.flatMap handedOver ∧
        (c.sendBuffer ≠ [] → c.writes.length = 1) := by
  have hstart : InOrder (Http2Connection.start L rv) [] := ⟨rfl, fun _ => ⟨rfl, rfl⟩, nofun⟩
  have h := inOrder_run L hstart hok hrun
  rw [List.nil_append] at h
  refine ⟨?_, ⟨c.sendBuffer, h.conserved⟩, h.conserved, ?_⟩
  · cases hwriting : c.isWriting with
    | false => simp [(h.idle hwriting).1]
    | true =>
      obtain ⟨snapshot, hone, -⟩ := h.writing hwriting
      simp [hone]
  · intro hrest
    cases hwriting : c.isWriting with
    | false => exact absurd (h.idle hwriting).2 hrest
    | true =>
      obtain ⟨snapshot, hone, -⟩ := h.writing hwriting
      simp [hone]

def sampleEvents : List (Event (List (String × String)) Unit) :=
  [.onSend [1, 2, 3], .afterWriteBuffer false 1, .onSend [4, 5, 6], .afterWriteBuffer false 1]

theorem output_in_order_sample : ∃ c,
    run (Http2Connection.step listLibrary) (Http2Connection.start listLibrary 0) sampleEvents =
      some c ∧ c.sent = [1, 2] ∧ c.sendBuffer = [3, 4, 5, 6] ∧ c.writes.length = 1 ∧
        c.sent ++ c.sendBuffer = sampleEvents.flatMap handedOver := by
  obtain ⟨c, hrun, hsent, hbuffer⟩ : ∃ c, run (Http2Connection.step listLibrary)
      (Http2Connection.start listLibrary 0) sampleEvents = some c ∧ c.sent = [1, 2] ∧
        c.sendBuffer = [3, 4, 5, 6] := ⟨_, rfl, rfl, rfl⟩
  have h := output_in_order listLibrary 0 (by decide) hrun
  exact ⟨c, hrun, hsent, hbuffer, h.2.2.2 (by simp [hbuffer]), h.2.2.1⟩

end CrowCore.OutputOrder
