import CrowCore.StreamIsolation

set_option autoImplicit false

/-!
# Requests and responses of HTTP/2

A request is put together from the headers of its stream. The data of a response are read
from the message generator, in pieces of any size that the session asks for.
-/
namespace CrowCore.Http2Messages
open GuardedRuns HttpResponse Http2 StreamIsolation

/-- What a message generator has yet to give, in the pieces in which it prepares it. -/
structure Generator where
  pieces : List (List UInt8)
  nonempty : [] ∉ pieces

namespace Generator

def is_done (gen : Generator) : Bool := gen.pieces.isEmpty

def prepare (gen : Generator) : List UInt8 := gen.pieces.headD []

def rest (gen : Generator) : List UInt8 := gen.pieces.flatten

/-- The pieces after `n` bytes of the first one; one that was consumed makes way. -/
def consumed (n : ℕ) : List (List UInt8) → List (List UInt8)
  | [] => []
  | piece :: pieces => if piece.drop n = [] then pieces else piece.drop n :: pieces

theorem nil_notMem_consumed {pieces : List (List UInt8)} (h : [] ∉ pieces) (n : ℕ) :
    [] ∉ consumed n pieces := by
  cases pieces with
  | nil => exact h
  | cons piece pieces =>
    rw [List.mem_cons, not_or] at h
    rw [consumed]
    split_ifs with hdone
    · exact h.2
    · rw [List.mem_cons, not_or]
      exact ⟨Ne.symm hdone, h.2⟩

def consume (gen : Generator) (n : ℕ) : Generator :=
  ⟨consumed n gen.pieces, nil_notMem_consumed gen.nonempty n⟩

end Generator

/-- The bytes and `NGHTTP2_DATA_FLAG_EOF`, or `NGHTTP2_ERR_TEMPORAL_CALLBACK_FAILURE`. -/
def fileReadCallback (source : Option Generator) (ec : Bool) (length : ℕ) :
    Option (List UInt8 × Bool) × Option Generator :=
  match source with
  | none => (none, none)
  | some gen =>
    if ec then (none, some gen)
    else
      let copied := gen.prepare.take length
      let gen := gen.consume copied.length
      (some (copied, gen.is_done), some gen)

structure Transfer where
  gen : Generator
  frames : List (List UInt8) := []
  ended : Bool := false
  failed : Bool := false

/-- The session asks for at most `length` bytes until it has the end. A failure resets the
stream. -/
def Transfer.call (t : Transfer) (ec : Bool) (length : ℕ) : Transfer :=
  if t.ended || t.failed then t
  else
    match fileReadCallback (some t.gen) ec length with
    | (some (data, eof), some gen) => { t with gen, frames := t.frames ++ [data], ended := eof }
    | _ => { t with failed := true }

def Transfer.calls (t : Transfer) (calls : List (Bool × ℕ)) : Transfer :=
  calls.foldl (fun t call => t.call call.1 call.2) t

theorem Generator.is_done_iff (gen : Generator) : gen.is_done = true ↔ gen.rest = [] := by
  rw [is_done, rest, List.isEmpty_iff, List.flatten_eq_nil_iff]
  constructor
  · rintro h piece hmem
    rw [h] at hmem
    cases hmem
  · intro h
    refine List.eq_nil_iff_forall_not_mem.2 fun piece hmem => ?_
    exact gen.nonempty (h piece hmem ▸ hmem)

theorem Generator.prepare_append_consume (gen : Generator) (length : ℕ) :
    gen.prepare.take length ++ (gen.consume (gen.prepare.take length).length).rest = gen.rest := by
  obtain ⟨pieces, -⟩ := gen
  cases pieces with
  | nil => exact List.append_nil _ ▸ List.take_nil
  | cons piece pieces =>
    have hdrop : piece.drop (piece.take length).length = piece.drop length := by
      rw [List.length_take]
      rcases Nat.le_total length piece.length with hle | hle
      · rw [Nat.min_eq_left hle]
      · rw [Nat.min_eq_right hle, List.drop_length, List.drop_of_length_le hle]
    simp only [prepare, consume, rest, List.headD_cons, consumed, hdrop, List.flatten_cons]
    split_ifs with hdone
    · rw [List.take_of_length_le (List.drop_eq_nil_iff.1 hdone)]
    · rw [List.flatten_cons, ← List.append_assoc, List.take_append_drop]

theorem Generator.prepare_ne_nil {gen : Generator} (h : gen.is_done = false) :
    gen.prepare ≠ [] := by
  intro hnil
  cases hpieces : gen.pieces with
  | nil => rw [is_done, hpieces] at h; cases h
  | cons piece pieces =>
    rw [prepare, hpieces, List.headD_cons] at hnil
    exact gen.nonempty (hpieces ▸ hnil ▸ List.mem_cons_self)

structure Transfers (message : List UInt8) (t : Transfer) : Prop where
  accounts : t.frames.flatten ++ t.gen.rest = message
  ended_iff : t.ended = true ↔ t.gen.is_done = true
  frames : [] ∉ t.frames
  not_failed : t.ended = true → t.failed = false

theorem transfers_call {message : List UInt8} {t : Transfer} (h : Transfers message t) {length : ℕ}
    (hlength : 0 < length) (ec : Bool) : Transfers message (t.call ec length) := by
  unfold Transfer.call fileReadCallback
  split_ifs with hstop hfails
  · exact h
  · rw [Bool.or_eq_true, not_or] at hstop
    exact ⟨h.accounts, h.ended_iff, h.frames, fun hended => (hstop.1 hended).elim⟩
  · rw [Bool.or_eq_true, not_or] at hstop
    have hgen : t.gen.is_done = false := by
      rw [h.ended_iff] at hstop
      exact Bool.eq_false_of_not_eq_true hstop.1
    refine ⟨?_, Iff.rfl, fun hmem => ?_, fun _ => Bool.eq_false_of_not_eq_true hstop.2⟩
    · change (t.frames ++ [_]).flatten ++ _ = _
      rw [List.flatten_append, List.flatten_singleton, List.append_assoc,
        t.gen.prepare_append_consume, h.accounts]
    · change [] ∈ t.frames ++ [_] at hmem
      rw [List.mem_append, List.mem_singleton] at hmem
      rcases hmem with hmem | hnil
      · exact h.frames hmem
      · rcases List.take_eq_nil_iff.1 hnil.symm with rfl | hnil
        · exact lt_irrefl 0 hlength
        · exact Generator.prepare_ne_nil hgen hnil

theorem transfers_calls {message : List UInt8} {t : Transfer} (h : Transfers message t)
    {calls : List (Bool × ℕ)} (hcalls : ∀ call ∈ calls, 0 < call.2) :
    Transfers message (t.calls calls) := by
  induction calls generalizing t with
  | nil => exact h
  | cons call calls ih =>
    rw [List.forall_mem_cons] at hcalls
    exact ih (transfers_call h hcalls.1 call.1) hcalls.2

theorem ended_or_length {t : Transfer} (hfailed : t.failed = false) {calls : List (Bool × ℕ)}
    (hcalls : ∀ call ∈ calls, call.1 = false) : (t.calls calls).ended = true ∨
      (t.calls calls).frames.length = t.frames.length + calls.length := by
  induction calls generalizing t with
  | nil => exact .inr rfl
  | cons call calls ih =>
    rw [List.forall_mem_cons] at hcalls
    change ((t.call call.1 call.2).calls calls).ended = true ∨ _
    change _ ∨ ((t.call call.1 call.2).calls calls).frames.length = _
    rw [hcalls.1]
    by_cases hended : t.ended = true
    · have hcall : t.call false call.2 = t := by
        rw [Transfer.call, hended, Bool.true_or, if_pos rfl]
      have hstay : ∀ calls : List (Bool × ℕ), t.calls calls = t := by
        intro calls
        induction calls with
        | nil => rfl
        | cons call calls ih =>
          rw [Transfer.calls, List.foldl_cons, Transfer.call, hended, Bool.true_or, if_pos rfl]
          exact ih
      rw [hcall, hstay]
      exact .inl hended
    · have hcall : (t.call false call.2).failed = false ∧
          (t.call false call.2).frames.length = t.frames.length + 1 := by
        rw [Transfer.call, Bool.eq_false_of_not_eq_true hended, hfailed, Bool.false_or,
          if_neg Bool.false_ne_true]
        exact ⟨rfl, List.length_append⟩
      rcases ih hcall.1 hcalls.2 with hended | hlength
      · exact .inl hended
      · rw [hcall.2] at hlength
        rw [List.length_cons]
        exact .inr (hlength.trans (by omega))

theorem length_le_flatten {frames : List (List UInt8)} (h : [] ∉ frames) :
    frames.length ≤ frames.flatten.length := by
  induction frames with
  | nil => exact le_refl _
  | cons frame frames ih =>
    rw [List.mem_cons, not_or] at h
    have hframe : 0 < frame.length := List.length_pos_iff.2 (Ne.symm h.1)
    have hrest := ih h.2
    rw [List.flatten_cons, List.length_append, List.length_cons]
    omega

/-- The generator gives the header of HTTP/1 before the body. The frames carry both, in order
and without gaps, and the end is flagged with the last byte; so what a client gets
as the body is never the body. A stream that a failure resets has not ended. -/
theorem data_is_whole_message {gen : Generator} {header : List UInt8} (hheader : header ≠ [])
    {F D : Type} (res : Response F D) (hgen : gen.rest = header ++ res.generator)
    {calls : List (Bool × ℕ)} (hcalls : ∀ call ∈ calls, 0 < call.2) :
    let t := ({ gen } : Transfer).calls calls
    t.frames.flatten <+: header ++ res.generator ∧ [] ∉ t.frames ∧
      (t.ended = true ↔ t.frames.flatten = header ++ res.generator) ∧
      (t.failed = true → t.ended = false) ∧
      ((∀ call ∈ calls, call.1 = false) → (header ++ res.generator).length ≤ calls.length →
        t.ended = true) ∧
      (t.ended = true → t.frames.flatten ≠ res.generator) := by
  intro t
  have hstart : Transfers (header ++ res.generator) { gen } := by
    refine ⟨hgen, ?_, List.not_mem_nil, nofun⟩
    rw [gen.is_done_iff, hgen]
    simp [hheader]
  have h := transfers_calls hstart hcalls
  change Transfers _ t at h
  have hended : t.ended = true ↔ t.frames.flatten = header ++ res.generator := by
    rw [h.ended_iff, t.gen.is_done_iff, ← h.accounts]
    exact List.self_eq_append_right.symm
  refine ⟨⟨_, h.accounts⟩, h.frames, hended, fun hfailed => ?_, fun hok hlength => ?_,
    fun hend hbody => ?_⟩
  · refine Bool.eq_false_of_not_eq_true fun hend => ?_
    rw [h.not_failed hend] at hfailed
    cases hfailed
  · rcases ended_or_length (t := { gen }) rfl hok with hend | hframes
    · exact hend
    · have hbound := length_le_flatten h.frames
      have haccounts := congrArg List.length h.accounts
      rw [List.length_append] at haccounts
      change t.frames.length = 0 + calls.length at hframes
      rw [h.ended_iff, t.gen.is_done_iff, ← List.length_eq_zero_iff]
      omega
  · have hlength := congrArg List.length (hbody.symm.trans (hended.1 hend))
    rw [List.length_append] at hlength
    exact hheader (List.length_eq_zero_iff.1 (by omega))

/-- A response of three bytes, of which the client gets the header as well. -/
theorem data_is_whole_message_sample :
    (({ gen := ⟨[[72, 84, 84, 80], [1, 2, 3]], by decide⟩ } : Transfer).calls
      [(false, 3), (false, 3), (false, 16384)]).frames.flatten ≠ [1, 2, 3] := by
  have hcalls : ∀ call ∈ ([(false, 3), (false, 3), (false, 16384)] : List (Bool × ℕ)),
      0 < call.2 := by decide
  have hheader : ([72, 84, 84, 80] : List UInt8) ≠ [] := by decide
  exact (@data_is_whole_message ⟨[[72, 84, 84, 80], [1, 2, 3]], by decide⟩ _ hheader Unit Unit
    { fields := (), body := .string [1, 2, 3] } rfl _ hcalls).2.2.2.2.2 rfl

section Requests
variable {F D : Type} (L : Library F D)

def withHeader (thisReq : Request F) (header : String × String) : Request F :=
  if header.1 = ":path" then { thisReq with target := header.2 }
  else if header.1 = ":method" then
    if string_to_verb header.2 = .unknown then thisReq
    else { thisReq with method := string_to_verb header.2 }
  else if header.1 = ":scheme" then thisReq
  else { thisReq with fields := L.set thisReq.fields header.1 header.2 }

def headersOf (id : ℤ) : List (Event F D) → List (String × String)
  | [] => []
  | .onHeader frame name value :: events =>
    if frame.opens ∧ frame.stream_id = id then (name, value) :: headersOf id events
    else headersOf id events
  | _ :: events => headersOf id events

variable {L} {c c' : Http2Connection F D}

/-- The requests of the streams that are there, up to a change of this one. -/
def Requests (c : Http2Connection F D) (id : ℤ) (req : Request F) : Prop :=
  ∃ stream, c.streams id = some stream ∧ stream.req = req

theorem Requests.update {id k : ℤ} {req : Request F} (h : Requests c id req)
    {stream : Http2StreamData F D} (hstream : k = id → stream.req = req) :
    Requests { c with streams := Function.update c.streams k (some stream) } id req := by
  by_cases hk : k = id
  · subst hk
    exact ⟨stream, Function.update_self .., hstream rfl⟩
  · obtain ⟨stream', hsome, hreq⟩ := h
    exact ⟨stream', (Function.update_of_ne (Ne.symm hk) ..).trans hsome, hreq⟩

theorem Requests.congr {id : ℤ} {req : Request F} (h : Requests c id req)
    (hstreams : c'.streams = c.streams) : Requests c' id req := by
  rw [Requests, hstreams]
  exact h

theorem requests_memRecv {called : Http2Connection F D × ℤ} {id : ℤ} {req : Request F}
    (h : Requests called.1 id req) : Requests (Http2Connection.memRecv called) id req := by
  unfold Http2Connection.memRecv
  split_ifs <;> exact h

theorem requests_onHeader {id : ℤ} {req : Request F} (h : Requests c id req) (frame : Frame)
    (name value : String) : Requests (c.onHeaderCallback L frame name value).1 id
      (if frame.opens ∧ frame.stream_id = id then withHeader L req (name, value) else req) := by
  unfold Http2Connection.onHeaderCallback
  by_cases hopens : frame.opens
  · rw [if_pos hopens]
    by_cases hid : frame.stream_id = id
    · rw [if_pos ⟨hopens, hid⟩]
      subst hid
      obtain ⟨stream, hsome, rfl⟩ := h
      simp only [hsome, withHeader]
      split_ifs
      all_goals first
        | exact ⟨_, Function.update_self .., rfl⟩
        | exact ⟨stream, hsome, rfl⟩
    · rw [if_neg fun hboth => hid hboth.2]
      cases hother : c.streams frame.stream_id with
      | none => exact h
      | some other =>
        dsimp only
        split_ifs
        all_goals first
          | exact h
          | exact h.update fun heq => (hid heq).elim
  · rw [if_neg hopens, if_neg fun hboth => hopens hboth.1]
    exact h

theorem requests_onBeginHeaders {id : ℤ} {req : Request F} (h : Requests c id req)
    (hsecure : req.isSecure = true) (frame : Frame) :
    Requests (c.onBeginHeadersCallback L frame).1 id req := by
  unfold Http2Connection.onBeginHeadersCallback
  split_ifs
  · refine h.update fun hid => ?_
    obtain ⟨stream, hsome, rfl⟩ := h
    rw [hid, hsome, Option.getD_some]
    change { stream.req with isSecure := true } = stream.req
    rw [← hsecure]
  · exact h

theorem requests_onRequestRecv {id : ℤ} {req : Request F} (h : Requests c id req) (k : ℤ) :
    Requests (c.onRequestRecv L k).1 id req := by
  unfold Http2Connection.onRequestRecv
  split
  · exact h
  · rename_i stream hsome
    refine Requests.congr (h.update fun hid => ?_) rfl
    subst hid
    obtain ⟨stream', hsome', rfl⟩ := h
    obtain rfl := Option.some.inj (hsome.symm.trans hsome')
    rfl

theorem requests_completeRequestHandler {id : ℤ} {req : Request F} (h : Requests c id req)
    (completeRes : Response F D) (k : ℤ) (date : String) (rv : ℤ) :
    Requests (c.completeRequestHandler L completeRes k date rv) id req := by
  have hsend : Requests (c.sendResponse L completeRes k date rv).1 id req := by
    unfold Http2Connection.sendResponse
    split
    · exact h
    · rename_i stream hsome
      have hupdate : ∀ stream' : Http2StreamData F D, stream'.req = stream.req → ∃ stream₁,
          Function.update c.streams k (some stream') id = some stream₁ ∧ stream₁.req = req := by
        intro stream' hreq
        refine h.update fun hid => ?_
        subst hid
        obtain ⟨stream₀, hsome₀, rfl⟩ := h
        obtain rfl := Option.some.inj (hsome.symm.trans hsome₀)
        exact hreq
      dsimp only
      split_ifs
      · exact hupdate _ rfl
      · exact hupdate _ rfl
  unfold Http2Connection.completeRequestHandler
  dsimp only
  split_ifs
  · exact hsend
  · exact hsend

theorem streams_writeBuffer (c : Http2Connection F D) : c.writeBuffer.streams = c.streams := by
  unfold Http2Connection.writeBuffer
  split_ifs <;> rfl

theorem requests_step {id : ℤ} {req : Request F} (h : Requests c id req)
    (hsecure : req.isSecure = true) {event : Event F D} (hopen : event ≠ .onStreamClose id)
    (hstep : c.step L event = some c') :
    Requests c' id ((headersOf id [event]).foldl (withHeader L) req) := by
  obtain ⟨hallowed, hstep⟩ := Option.ite_none_right_eq_some.1 hstep
  obtain rfl := Option.some.inj hstep
  cases event with
  | onBeginHeaders frame =>
    refine requests_memRecv (requests_onBeginHeaders ?_ hsecure frame)
    split_ifs
    · exact h.congr rfl
    · exact h
  | onHeader frame name value =>
    have hheader := requests_memRecv (requests_onHeader (L := L) h frame name value)
    rw [headersOf]
    split_ifs at hheader ⊢ <;> exact hheader
  | onFrameRecv frame =>
    refine requests_memRecv ?_
    have hset : Requests (if frame.type ≠ .other ∧ frame.end_stream then
        c.setSession frame.stream_id .halfClosed else c) id req := by
      split_ifs <;> exact h
    rw [onFrameRecvCallback_eq]
    by_cases hended : frame.type ≠ .other ∧ frame.end_stream
    · rw [if_pos hended]
      exact requests_onRequestRecv hset _
    · rw [if_neg hended]
      exact hset
  | onStreamClose k =>
    have hk : k ≠ id := fun heq => hopen (congrArg _ heq)
    obtain ⟨stream, hsome, hreq⟩ := h
    change Requests ((c.setSession k .closed).onStreamCloseCallback k).1 id req
    unfold Http2Connection.onStreamCloseCallback
    split
    · exact ⟨stream, hsome, hreq⟩
    · exact ⟨stream, (Function.update_of_ne (Ne.symm hk) ..).trans hsome, hreq⟩
  | onSend data => exact h.congr (streams_writeBuffer _)
  | afterWriteBuffer ec sendLength =>
    cases ec with
    | true => exact h.congr rfl
    | false =>
      have hkept := streams_writeBuffer
        { c with
          isWriting := false
          writes := c.writes.tail
          sent := c.sent ++ (c.writes.headD []).take sendLength
          sendBuffer := c.sendBuffer.drop sendLength }
      exact h.congr hkept
  | readError => exact h.congr rfl
  | complete place handler date rv =>
    dsimp only [headersOf, List.foldl_nil, Http2Connection.handle]
    split
    · exact h
    · refine requests_completeRequestHandler ?_ _ _ _ _
      exact h

theorem headersOf_cons (id : ℤ) (event : Event F D) (events : List (Event F D)) :
    headersOf id (event :: events) = headersOf id [event] ++ headersOf id events := by
  cases event with
  | onHeader frame name value =>
    rw [headersOf, headersOf]
    split_ifs <;> rfl
  | _ => rfl

theorem isSecure_foldl (headers : List (String × String)) (req : Request F) :
    (headers.foldl (withHeader L) req).isSecure = req.isSecure := by
  induction headers generalizing req with
  | nil => rfl
  | cons header headers ih =>
    rw [List.foldl_cons, ih, withHeader]
    split_ifs <;> rfl

theorem requests_run {id : ℤ} {req : Request F} (h : Requests c id req)
    (hsecure : req.isSecure = true) {events : List (Event F D)}
    (hopen : .onStreamClose id ∉ events) (hrun : run (Http2Connection.step L) c events = some c') :
    Requests c' id ((headersOf id events).foldl (withHeader L) req) := by
  induction events generalizing c req with
  | nil =>
    obtain rfl := Option.some.inj hrun
    exact h
  | cons event events ih =>
    rw [List.mem_cons, not_or] at hopen
    obtain ⟨c₁, hstep, hrest⟩ := Option.bind_eq_some_iff.1 hrun
    rw [headersOf_cons, List.foldl_append]
    refine ih (requests_step h hsecure (Ne.symm hopen.1) hstep) ?_ hopen.2 hrest
    rw [isSecure_foldl, hsecure]

def SetsOne (L : Library F D) : Prop :=
  ∀ fields name value other, L.values (L.set fields name value) other =
    if name.toLower = other.toLower then [value] else L.values fields other

def pseudo (name : String) : Bool := name = ":path" || name = ":method" || name = ":scheme"

def lastOf (keep : String × String → Bool) (headers : List (String × String)) : Option String :=
  (headers.filter keep).getLast?.map Prod.snd

def isField (name : String) (header : String × String) : Bool :=
  !pseudo header.1 && header.1.toLower == name.toLower

def isVerb (header : String × String) : Bool :=
  header.1 == ":method" && string_to_verb header.2 != .unknown

structure Assembles (L : Library F D) (headers : List (String × String)) (req : Request F) :
    Prop where
  target : req.target = (lastOf (fun header => header.1 == ":path") headers).getD ""
  method : req.method = ((lastOf isVerb headers).map string_to_verb).getD .unknown
  values : ∀ name, L.values req.fields name = (lastOf (isField name) headers).toList
  isSecure : req.isSecure = true

theorem lastOf_append (keep : String × String → Bool) (headers : List (String × String))
    (header : String × String) : lastOf keep (headers ++ [header]) =
      if keep header then some header.2 else lastOf keep headers := by
  rw [lastOf, List.filter_append, List.filter_singleton]
  cases keep header with
  | true => exact congrArg (Option.map Prod.snd) List.getLast?_concat
  | false => exact congrArg (fun kept => Option.map Prod.snd kept.getLast?) (List.append_nil _)

theorem assembles_withHeader (hset : SetsOne L) {headers : List (String × String)}
    {req : Request F} (h : Assembles L headers req) (header : String × String) :
    Assembles L (headers ++ [header]) (withHeader L req header) := by
  obtain ⟨name, value⟩ := header
  unfold withHeader
  dsimp only
  constructor
  · rw [lastOf_append]
    by_cases hpath : name = ":path"
    · rw [if_pos hpath, hpath]
      rfl
    · have hkeep : ((name, value).1 == ":path") = false := beq_eq_false_iff_ne.2 hpath
      rw [if_neg hpath, hkeep, if_neg Bool.false_ne_true, ← h.target]
      split_ifs <;> rfl
  · rw [lastOf_append, isVerb]
    by_cases hmethod : name = ":method"
    · subst hmethod
      rw [if_neg (by decide : (":method" : String) ≠ ":path"), if_pos rfl]
      by_cases hverb : string_to_verb value = .unknown
      · simp [hverb, h.method]
      · simp [hverb]
    · have hkeep : ((name, value).1 == ":method") = false := beq_eq_false_iff_ne.2 hmethod
      rw [if_neg hmethod, hkeep, Bool.false_and, if_neg Bool.false_ne_true, ← h.method]
      split_ifs <;> rfl
  · intro other
    rw [lastOf_append, isField]
    by_cases hpseudo : pseudo name
    · have hkeep : (!pseudo (name, value).1) = false := congrArg not hpseudo
      rw [hkeep, Bool.false_and, if_neg Bool.false_ne_true, ← h.values]
      simp only [pseudo, Bool.or_eq_true, decide_eq_true_eq] at hpseudo
      split_ifs <;> first | rfl | exact absurd hpseudo (by tauto)
    · have hname := hpseudo
      simp only [pseudo, Bool.or_eq_true, decide_eq_true_eq, not_or] at hname
      rw [if_neg hname.1.1, if_neg hname.1.2, if_neg hname.2, hset]
      by_cases hlower : name.toLower = other.toLower
      · simp [hlower, hpseudo]
      · simp [hlower, h.values]
  · rw [← h.isSecure]
    split_ifs <;> rfl

theorem assembles_foldl (hset : SetsOne L) (hempty : ∀ name, L.values L.empty name = [])
    (headers : List (String × String)) : Assembles L headers
      (headers.foldl (withHeader L) { fields := L.empty, isSecure := true }) := by
  induction headers using List.reverseRecOn with
  | nil => exact ⟨rfl, rfl, hempty, rfl⟩
  | append_singleton headers header ih =>
    rw [List.foldl_append]
    exact assembles_withHeader hset ih header

/-- Between the first headers of a stream and its end, whatever happens to the other streams
and to the connection, its request is what its own headers say. Of headers of one name the last
stays, and each that is neither path, method nor scheme is a field. -/
theorem request_of_headers (hset : SetsOne L) (hempty : ∀ name, L.values L.empty name = [])
    {c c' : Http2Connection F D} {frame : Frame} (hopens : frame.opens)
    (hfresh : c.streams frame.stream_id = none) {events : List (Event F D)}
    (hopen : .onStreamClose frame.stream_id ∉ events)
    (hrun : run (Http2Connection.step L) c (.onBeginHeaders frame :: events) = some c') :
    ∃ stream, c'.streams frame.stream_id = some stream ∧
      Assembles L (headersOf frame.stream_id events) stream.req := by
  obtain ⟨c₁, hstep, hrest⟩ := Option.bind_eq_some_iff.1 hrun
  have hbegin : Requests c₁ frame.stream_id { fields := L.empty, isSecure := true } := by
    obtain ⟨-, hstep⟩ := Option.ite_none_right_eq_some.1 hstep
    obtain rfl := Option.some.inj hstep
    refine requests_memRecv ?_
    rw [if_pos hopens, Http2Connection.onBeginHeadersCallback, if_pos hopens]
    refine ⟨_, Function.update_self .., ?_⟩
    change { (((c.streams frame.stream_id).getD (.new L)).req) with isSecure := true } = _
    rw [hfresh]
    rfl
  obtain ⟨stream, hsome, hreq⟩ := requests_run hbegin rfl hopen hrest
  exact ⟨stream, hsome, hreq ▸ assembles_foldl hset hempty _⟩

end Requests

def sampleFrame : Frame := { type := .headers, stream_id := 1, hcat_request := true }

def sampleHeaders : List (Event (List (String × String)) Unit) :=
  [.onHeader sampleFrame ":method" "GET", .onHeader sampleFrame ":path" "/redfish/v1",
    .onHeader sampleFrame "cookie" "a=1", .onHeader sampleFrame "cookie" "b=2"]

theorem setsOne_listLibrary : SetsOne ResponseHeaders.listLibrary := by
  intro fields name value other
  rw [show ResponseHeaders.listLibrary.set = ResponseHeaders.setField from rfl,
    ResponseHeaders.values_setField]
  exact if_congr eq_comm rfl rfl

/-- Of a cookie that the client has split over two headers the first half is lost. -/
theorem request_of_headers_sample :
    (run (Http2Connection.step ResponseHeaders.listLibrary)
      (Http2Connection.start ResponseHeaders.listLibrary 0)
      (.onBeginHeaders sampleFrame :: sampleHeaders)).map (fun c =>
        (c.streams 1).map fun stream =>
          ResponseHeaders.listLibrary.values stream.req.fields "cookie") =
      some (some ["b=2"]) := by
  obtain ⟨c, hrun⟩ : ∃ c, run (Http2Connection.step ResponseHeaders.listLibrary)
      (Http2Connection.start ResponseHeaders.listLibrary 0)
      (.onBeginHeaders sampleFrame :: sampleHeaders) = some c := ⟨_, rfl⟩
  have hopen : .onStreamClose sampleFrame.stream_id ∉ sampleHeaders := by simp [sampleHeaders]
  obtain ⟨stream, hsome, h⟩ := request_of_headers setsOne_listLibrary (fun _ => rfl)
    (rfl : sampleFrame.opens) rfl hopen hrun
  have hlast : lastOf (isField "cookie") (headersOf sampleFrame.stream_id sampleHeaders) =
      some "b=2" := by decide +kernel
  have hvalues := h.values "cookie"
  rw [hlast] at hvalues
  have hstream : c.streams 1 = some stream := hsome
  rw [hrun, Option.map_some, hstream, Option.map_some, hvalues]
  rfl

end CrowCore.Http2Messages
