import CrowCore.ErrorMessages

set_option autoImplicit false

/-!
# Errors that are moved

`moveErrorsToErrorJson` moves the messages of one JSON value to another, whose
"error" lists them and sums them up.
-/
namespace CrowCore.ErrorAggregation
open JsonValue ErrorMessages

variable {D : Type}

def eraseMember (key : Text) : Json Text D → Json Text D
  | .object members => .object (members.filter fun member => member.1 ≠ key)
  | j => j

/-- The target and the source after the call. -/
def moveErrorsToErrorJson (target source : Json Text D) :
    Except JsonError (Json Text D × Json Text D) :=
  if !source.isObject then return (target, source)
  else
    match source.find "error".toList with
    | none => do
      let target ← addMessageToErrorJson target source
      return (target, .object [])
    | some error =>
      match error.find messageAnnotation with
      | none => return (target, source)
      | some (.array extendedInfo) => do
        let target ← extendedInfo.foldlM addMessageToErrorJson target
        return (target, eraseMember "error".toList source)
      | some _ => return (target, eraseMember "error".toList source)

structure IsMessage (message : Json Text D) : Prop where
  messageId : (message.find "MessageId".toList).isSome
  message : (message.find "Message".toList).isSome

def movedMessages (source : Json Text D) : List (Json Text D) :=
  if source.isObject then
    match source.find "error".toList with
    | none => [source]
    | some error => errorMessages error
  else []

/-- The code for a list of messages, of which the first one has the code `first`. -/
def summaryCode (messages : List (Json Text D)) (first : Option (Json Text D)) :
    Option (Json Text D) :=
  if messages.length = 1 then first
  else some (.string (messageVersionPrefix ++ "GeneralError".toList))

def summaryText (messages : List (Json Text D)) (first : Option (Json Text D)) :
    Option (Json Text D) :=
  if messages.length = 1 then first
  else some (.string ("A general error has occurred. " ++
    "See Resolution for information on how to resolve the error.").toList)

/-- The error of the target lists the messages in order and sums them up. -/
structure SumsUp (target : Json Text D) (messages : List (Json Text D)) : Prop where
  isObject : target.isObject
  none : messages = [] → target.find "error".toList = none
  some : ∀ first rest, messages = first :: rest → ∃ error,
    target.find "error".toList = some error ∧
      error.find messageAnnotation = some (.array messages) ∧
      error.find "code".toList = summaryCode messages (first.find "MessageId".toList) ∧
      error.find "message".toList = summaryText messages (first.find "Message".toList)

section Moves
variable {target source message : Json Text D} {messages : List (Json Text D)}

theorem addToError_first (hmessage : IsMessage message) : ∃ error',
    addToError message .null = .ok error' ∧ error'.isObject ∧
      error'.find "code".toList = message.find "MessageId".toList ∧
      error'.find "message".toList = message.find "Message".toList ∧
      error'.find messageAnnotation = some (.array [message]) := by
  obtain ⟨messageId, hid⟩ := Option.isSome_iff_exists.1 hmessage.messageId
  obtain ⟨messageField, hfield⟩ := Option.isSome_iff_exists.1 hmessage.message
  obtain ⟨error', hset, hobject, hcode, htext, hinfo⟩ :=
    setError_returns (.inl rfl) messageId messageField message
  refine ⟨error', ?_, hobject, hcode.trans hid.symm, htext.trans hfield.symm, hinfo⟩
  rw [addToError, hid, hfield]
  exact hset

theorem addToError_object {error : Json Text D} (herror : error.isObject)
    (message : Json Text D) : ∃ error', addToError message error = .ok error' ∧ error'.isObject ∧
      error'.find "code".toList = summaryCode [] none ∧
      error'.find "message".toList = summaryText [] none ∧
      error'.find messageAnnotation = some (.array (errorMessages error ++ [message])) := by
  obtain ⟨error', hset, hrest⟩ := setError_returns (.inr herror)
    (.string (messageVersionPrefix ++ "GeneralError".toList))
    (.string ("A general error has occurred. " ++
      "See Resolution for information on how to resolve the error.").toList) message
  refine ⟨error', ?_, hrest⟩
  rw [addToError, herror]
  exact hset

theorem sumsUp_add (h : SumsUp target messages) (hmessage : IsMessage message) : ∃ target',
    addMessageToErrorJson target message = .ok target' ∧
      SumsUp target' (messages ++ [message]) := by
  cases messages with
  | nil =>
    obtain ⟨error', herror', -, hcode, htext, hinfo⟩ := addToError_first hmessage
    have hnull : (target.find "error".toList).getD .null = .null := by
      rw [h.none rfl, Option.getD_none]
    obtain ⟨members, hmembers, hself, -⟩ := modify_returns (.inr h.isObject)
      (addToError message) (hnull ▸ herror')
    refine ⟨.object members, hmembers, rfl, nofun, fun first rest hlist => ?_⟩
    obtain ⟨rfl, -⟩ := List.cons.inj hlist
    exact ⟨error', hself, hinfo, hcode, htext⟩
  | cons first rest =>
    obtain ⟨error, herror, hinfo, -⟩ := h.some first rest rfl
    have hobject : error.isObject := by
      cases error with
      | object => rfl
      | _ => cases hinfo
    have hmessages : errorMessages error = first :: rest := by rw [errorMessages, hinfo]
    obtain ⟨error', herror', -, hcode, htext, hinfo'⟩ := addToError_object hobject message
    rw [hmessages] at hinfo'
    have hself : (target.find "error".toList).getD .null = error := by
      rw [herror, Option.getD_some]
    obtain ⟨members, hmembers, hself, -⟩ := modify_returns (.inr h.isObject)
      (addToError message) (hself ▸ herror')
    refine ⟨.object members, hmembers, rfl, by simp, fun first' rest' hlist => ?_⟩
    have hmany : (first :: rest ++ [message]).length ≠ 1 := by simp
    refine ⟨error', hself, hinfo', ?_, ?_⟩
    · rw [summaryCode, if_neg hmany]
      exact hcode
    · rw [summaryText, if_neg hmany]
      exact htext

theorem sumsUp_foldlM (h : SumsUp target messages) {more : List (Json Text D)}
    (hmore : ∀ message ∈ more, IsMessage message) : ∃ target',
      more.foldlM addMessageToErrorJson target = .ok target' ∧
        SumsUp target' (messages ++ more) := by
  induction more generalizing target messages with
  | nil =>
    refine ⟨target, rfl, ?_⟩
    rwa [List.append_nil]
  | cons message more ih =>
    rw [List.forall_mem_cons] at hmore
    obtain ⟨target₁, hadd, h₁⟩ := sumsUp_add h hmore.1
    obtain ⟨target', hrun, h'⟩ := ih h₁ hmore.2
    rw [List.append_assoc] at h'
    exact ⟨target', bind_ok.2 ⟨target₁, hadd, hrun⟩, h'⟩

/-- What a call leaves of its source. A source without an error was the message itself. -/
structure Left (source left : Json Text D) : Prop where
  root : source.isObject → source.find "error".toList = none → left = .object []
  moved : ∀ error, source.find "error".toList = some error →
    (error.find messageAnnotation).isSome →
      left = eraseMember "error".toList source ∧ left.find "error".toList = none
  kept : source.isObject = false ∨ (∃ error, source.find "error".toList = some error ∧
    error.find messageAnnotation = none) → left = source

theorem find_eraseMember (key : Text) (j : Json Text D) : (eraseMember key j).find key = none := by
  cases j with
  | object members =>
    rw [eraseMember, Json.find, List.lookup_eq_none_iff]
    intro member hmember
    have hne := (List.mem_filter.1 hmember).2
    simp only [ne_eq, decide_eq_true_eq] at hne
    simpa using Ne.symm hne
  | _ => rfl

theorem left_root (hobject : source.isObject) (hnone : source.find "error".toList = none) :
    Left source (.object []) := by
  refine ⟨fun _ _ => rfl, fun error hsome => ?_, ?_⟩
  · rw [hnone] at hsome
    cases hsome
  · rintro (hnot | ⟨error, hsome, -⟩)
    · rw [hobject] at hnot
      cases hnot
    · rw [hnone] at hsome
      cases hsome

theorem left_moved {error : Json Text D} (hobject : source.isObject)
    (hsome : source.find "error".toList = some error)
    (hinfo : (error.find messageAnnotation).isSome) :
    Left source (eraseMember "error".toList source) := by
  refine ⟨fun _ hnone => ?_, fun _ _ _ => ⟨rfl, find_eraseMember _ source⟩, ?_⟩
  · rw [hsome] at hnone
    cases hnone
  · rintro (hnot | ⟨error', hsome', hnone⟩)
    · rw [hobject] at hnot
      cases hnot
    · rw [Option.some.inj (hsome.symm.trans hsome'), hnone] at hinfo
      cases hinfo

theorem left_kept (hkept : source.isObject = false ∨ ∃ error,
    source.find "error".toList = some error ∧ error.find messageAnnotation = none) :
    Left source source := by
  refine ⟨fun hobject hnone => ?_, fun error hsome hinfo => ?_, fun _ => rfl⟩
  · rcases hkept with hnot | ⟨error, hsome, -⟩
    · rw [hobject] at hnot
      cases hnot
    · rw [hnone] at hsome
      cases hsome
  · rcases hkept with hnot | ⟨error', hsome', hnone⟩
    · cases source with
      | object => cases hnot
      | _ => cases hsome
    · rw [Option.some.inj (hsome.symm.trans hsome'), hnone] at hinfo
      cases hinfo

inductive Moves (target source : Json Text D) : Prop where
  | kept (hkept : source.isObject = false ∨ ∃ error,
      source.find "error".toList = some error ∧ error.find messageAnnotation = none)
      (hmessages : movedMessages source = [])
      (hmove : moveErrorsToErrorJson target source = .ok (target, source))
  | root (hobject : source.isObject) (hnone : source.find "error".toList = none)
      (hmessages : movedMessages source = [source])
      (hmove : moveErrorsToErrorJson target source = do
        let target ← addMessageToErrorJson target source
        return (target, .object []))
  | moved (error : Json Text D) (hobject : source.isObject)
      (hsome : source.find "error".toList = some error)
      (hinfo : (error.find messageAnnotation).isSome)
      (hmessages : movedMessages source = errorMessages error)
      (hmove : moveErrorsToErrorJson target source = do
        let target ← (errorMessages error).foldlM addMessageToErrorJson target
        return (target, eraseMember "error".toList source))

theorem moves (target source : Json Text D) : Moves target source := by
  by_cases hobject : source.isObject
  · have hmove : moveErrorsToErrorJson target source = _ :=
      if_neg (by rw [hobject]; exact Bool.false_ne_true)
    have hmessages : movedMessages source = _ := if_pos hobject
    cases herror : source.find "error".toList with
    | none =>
      rw [herror] at hmove hmessages
      exact .root hobject herror hmessages hmove
    | some error =>
      rw [herror] at hmove hmessages
      dsimp only at hmove hmessages
      cases hinfo : error.find messageAnnotation with
      | none =>
        rw [hinfo] at hmove
        refine .kept (.inr ⟨error, herror, hinfo⟩) ?_ hmove
        rw [hmessages, errorMessages, hinfo]
      | some extendedInfo =>
        rw [hinfo] at hmove
        refine .moved error hobject herror (by rw [hinfo]; rfl) hmessages ?_
        rw [hmove, errorMessages, hinfo]
        cases extendedInfo <;> rfl
  · have hnot : source.isObject = false := by simpa using hobject
    refine .kept (.inl hnot) (if_neg hobject) ?_
    rw [moveErrorsToErrorJson, hnot]
    rfl

theorem sumsUp_move (h : SumsUp target messages)
    (hsource : ∀ message ∈ movedMessages source, IsMessage message) : ∃ target' left,
      moveErrorsToErrorJson target source = .ok (target', left) ∧
        SumsUp target' (messages ++ movedMessages source) ∧ Left source left := by
  cases moves target source with
  | kept hkept hmessages hmove =>
    rw [hmessages, List.append_nil]
    exact ⟨target, source, hmove, h, left_kept hkept⟩
  | root hobject hnone hmessages hmove =>
    rw [hmessages, List.forall_mem_singleton] at hsource
    obtain ⟨target', hadd, h'⟩ := sumsUp_add h hsource
    rw [hmessages, hmove]
    exact ⟨target', .object [], bind_ok.2 ⟨target', hadd, rfl⟩, h', left_root hobject hnone⟩
  | moved error hobject hsome hinfo hmessages hmove =>
    rw [hmessages] at hsource
    obtain ⟨target', hrun, h'⟩ := sumsUp_foldlM h hsource
    rw [hmessages, hmove]
    exact ⟨target', _, bind_ok.2 ⟨target', hrun, rfl⟩, h', left_moved hobject hsome hinfo⟩

end Moves

inductive Operation (D : Type) where
  | addMessageToErrorJson (message : Json Text D)
  | moveErrorsToErrorJson (source : Json Text D)

def Operation.messages : Operation D → List (Json Text D)
  | .addMessageToErrorJson message => [message]
  | .moveErrorsToErrorJson source => movedMessages source

def Operation.sources : Operation D → List (Json Text D)
  | .addMessageToErrorJson _ => []
  | .moveErrorsToErrorJson source => [source]

/-- The target, and the sources with what was left of them. -/
structure Run (D : Type) where
  target : Json Text D
  moved : List (Json Text D × Json Text D) := []

def Run.perform (r : Run D) : Operation D → Except JsonError (Run D)
  | .addMessageToErrorJson message => do
    let target ← ErrorMessages.addMessageToErrorJson r.target message
    return { r with target }
  | .moveErrorsToErrorJson source => do
    let (target, left) ← ErrorAggregation.moveErrorsToErrorJson r.target source
    return { target, moved := r.moved ++ [(source, left)] }

structure Sound (r : Run D) (ops : List (Operation D)) : Prop where
  sumsUp : SumsUp r.target (ops.flatMap Operation.messages)
  sources : r.moved.map Prod.fst = ops.flatMap Operation.sources
  left : ∀ x ∈ r.moved, Left x.1 x.2

theorem sound_perform {r : Run D} {ops : List (Operation D)} (h : Sound r ops)
    {op : Operation D} (hop : ∀ message ∈ op.messages, IsMessage message) :
    ∃ r', r.perform op = .ok r' ∧ Sound r' (ops ++ [op]) := by
  cases op with
  | addMessageToErrorJson message =>
    obtain ⟨target', hadd, h'⟩ :=
      sumsUp_add h.sumsUp (hop message (List.mem_singleton_self message))
    refine ⟨{ r with target := target' }, bind_ok.2 ⟨target', hadd, rfl⟩, ?_, ?_, h.left⟩
    · rw [List.flatMap_append, List.flatMap_singleton]
      exact h'
    · rw [List.flatMap_append, List.flatMap_singleton, Operation.sources, List.append_nil]
      exact h.sources
  | moveErrorsToErrorJson source =>
    obtain ⟨target', left, hmove, h', hleft⟩ := sumsUp_move h.sumsUp hop
    refine ⟨⟨target', r.moved ++ [(source, left)]⟩, bind_ok.2 ⟨_, hmove, rfl⟩, ?_, ?_, ?_⟩
    · rw [List.flatMap_append, List.flatMap_singleton]
      exact h'
    · rw [List.flatMap_append, List.flatMap_singleton, Operation.sources, List.map_append,
        h.sources]
      rfl
    · intro x hx
      rcases List.mem_append.1 hx with hx | hx
      · exact h.left x hx
      · rw [List.mem_singleton.1 hx]
        exact hleft

theorem sound_run {r : Run D} {ops : List (Operation D)} (h : Sound r ops)
    {more : List (Operation D)}
    (hmore : ∀ op ∈ more, ∀ message ∈ op.messages, IsMessage message) :
    ∃ r', more.foldlM Run.perform r = .ok r' ∧ Sound r' (ops ++ more) := by
  induction more generalizing r ops with
  | nil =>
    refine ⟨r, rfl, ?_⟩
    rwa [List.append_nil]
  | cons op more ih =>
    rw [List.forall_mem_cons] at hmore
    obtain ⟨r₁, hop, h₁⟩ := sound_perform h hmore.1
    obtain ⟨r', hrun, h'⟩ := ih h₁ hmore.2
    rw [List.append_assoc] at h'
    exact ⟨r', bind_ok.2 ⟨r₁, hop, hrun⟩, h'⟩

/-- A run on an object without an error lists all messages in order and sums them up,
and its moves empty a source that is a message and take the error from one that has
messages. -/
theorem errors_aggregate {members : List (Text × Json Text D)}
    (hfresh : members.lookup "error".toList = none) {ops : List (Operation D)}
    (hops : ∀ op ∈ ops, ∀ message ∈ op.messages, IsMessage message) :
    ∃ r, ops.foldlM Run.perform { target := .object members } = .ok r ∧ Sound r ops := by
  have hstart : Sound ({ target := .object members } : Run D) [] :=
    ⟨⟨rfl, fun _ => hfresh, nofun⟩, rfl, by simp⟩
  exact sound_run hstart hops

def sampleMessage (messageId : String) : Json Text Unit :=
  .object [("MessageId".toList, .string messageId.toList), ("Message".toList, .string [])]

def sampleOperations : List (Operation Unit) :=
  [.addMessageToErrorJson (sampleMessage "A"),
    .moveErrorsToErrorJson (.object [("error".toList, .object [( messageAnnotation,
      .array [sampleMessage "B", sampleMessage "C"])])])]

theorem errors_aggregate_sample : ∃ r,
    sampleOperations.foldlM Run.perform { target := .object [] } = .ok r ∧
      SumsUp r.target [sampleMessage "A", sampleMessage "B", sampleMessage "C"] := by
  have hops : ∀ op ∈ sampleOperations, ∀ message ∈ op.messages, IsMessage message := by
    have hmessage : ∀ messageId, IsMessage (sampleMessage messageId) := fun _ => ⟨rfl, rfl⟩
    simp only [sampleOperations, List.forall_mem_cons, Operation.messages, movedMessages,
      Json.isObject, Json.find, if_true, errorMessages, List.lookup_cons_self, List.not_mem_nil,
      false_imp_iff, implies_true, and_true]
    exact ⟨hmessage _, hmessage _, hmessage _⟩
  have hfresh : ([] : List (Text × Json Text Unit)).lookup "error".toList = none := rfl
  obtain ⟨r, hrun, hsound⟩ := errors_aggregate hfresh hops
  exact ⟨r, hrun, hsound.sumsUp⟩

def bareError : Json Text Unit := .object [("error".toList, .object [])]

/-- The error stays in the source. -/
theorem error_without_messages_stays :
    (∀ message ∈ (Operation.moveErrorsToErrorJson bareError).messages, IsMessage message) ∧
      [Operation.moveErrorsToErrorJson bareError].foldlM Run.perform { target := .object [] } =
        .ok { target := .object [], moved := [(bareError, bareError)] } ∧
      bareError.find "error".toList = some (.object []) :=
  ⟨nofun, rfl, rfl⟩

end CrowCore.ErrorAggregation
