import CrowCore.JsonValue

set_option autoImplicit false

/-!
# Messages in a response

A message sets the status of the response and is added to its JSON value, under
"error" or beside the property it is about.
-/
namespace CrowCore.ErrorMessages
open JsonValue

abbrev Text := List Char

/-- The part of `crow::Response` that messages change. -/
structure Response (D : Type) where
  result : ℕ := 200
  jsonValue : Json Text D := .null

def badRequest : ℕ := 400

/-- The entries of the base registry that are used here. -/
inductive Index where
  | unrecognizedRequestBody
  | propertyUnknown
  | propertyValueTypeError
  | propertyValueNotInList
  | propertyMissing
deriving DecidableEq, Repr

/-- The texts of the registry and of JSON values, as fixed functions. -/
structure Registry (D : Type) where
  getLog : Index → List Text → Json Text D
  /-- `dump` with this indentation -/
  dump : ℤ → Json Text D → Text

def messageVersionPrefix : Text := "Base.1.11.0.".toList
def messageAnnotation : Text := "@Message.ExtendedInfo".toList

section Messages
variable {D : Type}

def addExtendedInfo (error message : Json Text D) : Except JsonError (Json Text D) :=
  error.modify messageAnnotation fun extendedInfo =>
    (if extendedInfo.isArray then extendedInfo else .array []).pushBack message

/-- What becomes of `target["error"]`. -/
def addToError (message error : Json Text D) : Except JsonError (Json Text D) :=
  if !error.isObject then
    match message.find "MessageId".toList, message.find "Message".toList with
    | some messageId, some messageField => do
      let error ← error.set "code".toList messageId
      let error ← error.set "message".toList messageField
      addExtendedInfo error message
    | _, _ => return error
  else do
    let error ← error.set "code".toList (.string (messageVersionPrefix ++ "GeneralError".toList))
    let error ← error.set "message".toList (.string ("A general error has occurred. " ++
      "See Resolution for information on how to resolve the error.").toList)
    addExtendedInfo error message

def addMessageToErrorJson (target message : Json Text D) : Except JsonError (Json Text D) :=
  target.modify "error".toList (addToError message)

def addMessageToJson (target message : Json Text D) (fieldPath : Text) :
    Except JsonError (Json Text D) :=
  target.modify (fieldPath ++ messageAnnotation) fun field =>
    (if field.isArray then field else .array []).pushBack message

variable (R : Registry D)

def unrecognizedRequestBody (res : Response D) : Except JsonError (Response D) := do
  let jsonValue ← addMessageToErrorJson res.jsonValue (R.getLog .unrecognizedRequestBody [])
  return { result := badRequest, jsonValue }

def propertyUnknown (res : Response D) (arg1 : Text) : Except JsonError (Response D) := do
  let jsonValue ← addMessageToErrorJson res.jsonValue (R.getLog .propertyUnknown [arg1])
  return { result := badRequest, jsonValue }

def propertyValueTypeError (res : Response D) (arg1 : Json Text D) (arg2 : Text) :
    Except JsonError (Response D) := do
  let message := R.getLog .propertyValueTypeError [R.dump 2 arg1, arg2]
  let jsonValue ← addMessageToJson res.jsonValue message arg2
  return { result := badRequest, jsonValue }

def propertyValueNotInList (res : Response D) (arg1 : Json Text D) (arg2 : Text) :
    Except JsonError (Response D) := do
  let message := R.getLog .propertyValueNotInList [R.dump (-1) arg1, arg2]
  let jsonValue ← addMessageToJson res.jsonValue message arg2
  return { result := badRequest, jsonValue }

def propertyMissing (res : Response D) (arg1 : Text) : Except JsonError (Response D) := do
  let jsonValue ← addMessageToJson res.jsonValue (R.getLog .propertyMissing [arg1]) arg1
  return { result := badRequest, jsonValue }

end Messages

variable {D : Type}

/-- Null, or an object without an "error" that is neither null nor an object. -/
def TakesMessages (target : Json Text D) : Prop :=
  target = .null ∨ ∃ members, target = .object members ∧ ∀ error,
    members.lookup "error".toList = some error → error = .null ∨ error.isObject

theorem modifyMember_returns {key : Text} {f : Json Text D → Except JsonError (Json Text D)}
    {val : Json Text D} (members : List (Text × Json Text D))
    (hf : f ((members.lookup key).getD .null) = .ok val) : ∃ members',
      Json.modifyMember key f members = .ok members' ∧ members'.lookup key = some val ∧
        ∀ name, name ≠ key → members'.lookup name = members.lookup name := by
  induction members with
  | nil =>
    refine ⟨[(key, val)], bind_ok.2 ⟨val, hf, rfl⟩, by simp, fun name hname => ?_⟩
    have hne : (name == key) = false := by simpa using hname
    simp [List.lookup, hne]
  | cons member members ih =>
    obtain ⟨name, old⟩ := member
    by_cases hkey : key = name
    · subst hkey
      rw [List.lookup_cons_self] at hf
      refine ⟨(key, val) :: members, ?_, by simp, fun name hname => ?_⟩
      · rw [Json.modifyMember, if_pos (beq_self_eq_true key)]
        exact bind_ok.2 ⟨val, hf, rfl⟩
      · have hne : (name == key) = false := by simpa using hname
        simp [List.lookup, hne]
    · have hne : (key == name) = false := by simpa using hkey
      simp only [List.lookup, hne] at hf ⊢
      obtain ⟨members', hmembers, hself, hothers⟩ := ih hf
      refine ⟨(name, old) :: members', ?_, ?_, fun name' hname => ?_⟩
      · rw [Json.modifyMember, if_neg (by simpa using hkey)]
        exact bind_ok.2 ⟨members', hmembers, rfl⟩
      · simpa [List.lookup, hne] using hself
      · simp only [List.lookup]
        split
        · rfl
        · exact hothers name' hname

def Indexable (target : Json Text D) : Prop := target = .null ∨ target.isObject

theorem modify_returns {target : Json Text D} (htarget : Indexable target) {key : Text}
    (f : Json Text D → Except JsonError (Json Text D)) {val : Json Text D}
    (hf : f ((target.find key).getD .null) = .ok val) : ∃ members,
      target.modify key f = .ok (.object members) ∧ members.lookup key = some val ∧
        ∀ name, name ≠ key → members.lookup name = target.find name := by
  have hcases : target = .null ∨ ∃ members, target = .object members := by
    refine htarget.imp_right fun hobject => ?_
    cases target with
    | object members => exact ⟨members, rfl⟩
    | _ => cases hobject
  rcases hcases with rfl | ⟨old, rfl⟩
  · obtain ⟨members, hmembers, hself, hothers⟩ := modifyMember_returns [] hf
    exact ⟨members, bind_ok.2 ⟨members, hmembers, rfl⟩, hself, hothers⟩
  · obtain ⟨members, hmembers, hself, hothers⟩ := modifyMember_returns old hf
    exact ⟨members, bind_ok.2 ⟨members, hmembers, rfl⟩, hself, hothers⟩

def errorMessages (error : Json Text D) : List (Json Text D) :=
  match error.find messageAnnotation with
  | some (.array messages) => messages
  | _ => []

theorem set_returns {target : Json Text D} (htarget : Indexable target) (key : Text)
    (val : Json Text D) : ∃ target', target.set key val = .ok target' ∧ target'.isObject ∧
      target'.find key = some val ∧ ∀ name, name ≠ key → target'.find name = target.find name := by
  obtain ⟨members, hmembers, hself, hothers⟩ :=
    @modify_returns D target htarget key (fun _ => .ok val) val rfl
  exact ⟨_, hmembers, rfl, hself, hothers⟩

theorem pushBack_isArray (target message : Json Text D) :
    ∃ array, (if target.isArray then target else .array []).pushBack message = .ok array := by
  cases target with
  | array elements => exact ⟨_, rfl⟩
  | _ => exact ⟨_, rfl⟩

theorem addExtendedInfo_returns {error : Json Text D} (herror : error.isObject)
    (message : Json Text D) : ∃ error', addExtendedInfo error message = .ok error' ∧
      error'.isObject ∧ error'.find messageAnnotation =
        some (.array (errorMessages error ++ [message])) ∧
        ∀ name, name ≠ messageAnnotation → error'.find name = error.find name := by
  have harray : (if ((error.find messageAnnotation).getD .null).isArray then
      (error.find messageAnnotation).getD .null else .array []).pushBack message =
        .ok (.array (errorMessages error ++ [message])) := by
    unfold errorMessages
    rcases error.find messageAnnotation with _ | extendedInfo
    · rfl
    · cases extendedInfo <;> rfl
  obtain ⟨members, hmembers, hself, hothers⟩ := modify_returns (.inr herror) (fun extendedInfo =>
    (if extendedInfo.isArray then extendedInfo else .array []).pushBack message) harray
  exact ⟨_, hmembers, rfl, hself, hothers⟩

theorem setError_returns {error : Json Text D} (herror : Indexable error)
    (code text message : Json Text D) : ∃ error', (do
      let error ← error.set "code".toList code
      let error ← error.set "message".toList text
      addExtendedInfo error message) = .ok error' ∧ error'.isObject ∧
        error'.find "code".toList = some code ∧ error'.find "message".toList = some text ∧
          error'.find messageAnnotation = some (.array (errorMessages error ++ [message])) := by
  obtain ⟨error₁, h₁, hobject₁, hcode₁, hothers₁⟩ := set_returns herror "code".toList code
  obtain ⟨error₂, h₂, hobject₂, htext₂, hothers₂⟩ :=
    set_returns (.inr hobject₁) "message".toList text
  obtain ⟨error₃, h₃, hobject₃, hself₃, hothers₃⟩ := addExtendedInfo_returns hobject₂ message
  -- what one call sets, the later ones leave: the three keys differ
  have hmessages : errorMessages error₂ = errorMessages error := by
    rw [errorMessages, errorMessages, hothers₂ _ (by decide), hothers₁ _ (by decide)]
  refine ⟨error₃, bind_ok.2 ⟨error₁, h₁, bind_ok.2 ⟨error₂, h₂, h₃⟩⟩, hobject₃, ?_, ?_, ?_⟩
  · rw [hothers₃ _ (by decide), hothers₂ _ (by decide), hcode₁]
  · rw [hothers₃ _ (by decide), htext₂]
  · rw [hself₃, hmessages]

theorem TakesMessages.indexable {target : Json Text D} (h : TakesMessages target) :
    Indexable target := by
  refine h.imp_right ?_
  rintro ⟨members, rfl, -⟩
  rfl

theorem TakesMessages.error {target : Json Text D} (h : TakesMessages target) :
    Indexable ((target.find "error".toList).getD .null) := by
  rcases h with rfl | ⟨members, rfl, herror⟩
  · exact .inl rfl
  · rw [Json.find]
    rcases hlookup : members.lookup "error".toList with _ | error
    · exact .inl rfl
    · exact herror error hlookup

theorem addToError_returns {error : Json Text D} (herror : Indexable error)
    (message : Json Text D) :
    ∃ error', addToError message error = .ok error' ∧ Indexable error' := by
  unfold addToError
  split_ifs
  · split
    · obtain ⟨error', hset, hobject, -⟩ := setError_returns herror _ _ message
      exact ⟨error', hset, .inr hobject⟩
    · exact ⟨_, rfl, herror⟩
  · obtain ⟨error', hset, hobject, -⟩ := setError_returns herror _ _ message
    exact ⟨error', hset, .inr hobject⟩

theorem addMessageToErrorJson_returns {target : Json Text D} (h : TakesMessages target)
    (message : Json Text D) :
    ∃ target', addMessageToErrorJson target message = .ok target' ∧ TakesMessages target' := by
  obtain ⟨error', hf, hindexable⟩ := addToError_returns h.error message
  obtain ⟨members, hmembers, hself, -⟩ := modify_returns h.indexable _ hf
  refine ⟨.object members, hmembers, .inr ⟨members, rfl, fun error hlookup => ?_⟩⟩
  obtain rfl := Option.some.inj (hself.symm.trans hlookup)
  exact hindexable

theorem annotation_ne_error (key : Text) : key ++ messageAnnotation ≠ "error".toList := by
  intro heq
  have hlength := congrArg List.length heq
  rw [List.length_append] at hlength
  have hshort : "error".toList.length < messageAnnotation.length := by decide
  omega

theorem addMessageToJson_returns {target : Json Text D} (h : TakesMessages target)
    (message : Json Text D) (fieldPath : Text) : ∃ target',
      addMessageToJson target message fieldPath = .ok target' ∧ TakesMessages target' := by
  obtain ⟨array, harray⟩ :=
    pushBack_isArray ((target.find (fieldPath ++ messageAnnotation)).getD .null) message
  obtain ⟨members, hmembers, -, hothers⟩ := modify_returns h.indexable
    (fun field => (if field.isArray then field else .array []).pushBack message) harray
  refine ⟨.object members, hmembers, .inr ⟨members, rfl, fun error hlookup => ?_⟩⟩
  rw [hothers _ (annotation_ne_error fieldPath).symm] at hlookup
  have herror := h.error
  rw [hlookup] at herror
  exact herror

/-- A call that may throw, and otherwise says that the request was bad. A response
that takes messages has it added. -/
structure Reports (res : Response D) (call : Except JsonError (Response D)) : Prop where
  badRequest : ∀ res', call = .ok res' → res'.result = badRequest
  returns : TakesMessages res.jsonValue → ∃ res', call = .ok res' ∧ TakesMessages res'.jsonValue

theorem reports_of_added {res : Response D} {added : Except JsonError (Json Text D)}
    (h : TakesMessages res.jsonValue → ∃ target', added = .ok target' ∧ TakesMessages target') :
    Reports res (do
      let jsonValue ← added
      return { result := badRequest, jsonValue }) := by
  refine ⟨fun res' hres => ?_, fun htakes => ?_⟩
  · obtain ⟨jsonValue, -, hres⟩ := bind_ok.1 hres
    obtain rfl := Except.ok.inj hres
    rfl
  · obtain ⟨target', hadded, htakes'⟩ := h htakes
    exact ⟨_, bind_ok.2 ⟨target', hadded, rfl⟩, htakes'⟩

section Reports
variable (R : Registry D) (res : Response D) (arg1 : Text) (value : Json Text D) (arg2 : Text)

theorem reports_unrecognizedRequestBody : Reports res (unrecognizedRequestBody R res) :=
  reports_of_added fun h => addMessageToErrorJson_returns h _

theorem reports_propertyUnknown : Reports res (propertyUnknown R res arg1) :=
  reports_of_added fun h => addMessageToErrorJson_returns h _

theorem reports_propertyValueTypeError : Reports res (propertyValueTypeError R res value arg2) :=
  reports_of_added fun h => addMessageToJson_returns h _ _

theorem reports_propertyValueNotInList : Reports res (propertyValueNotInList R res value arg2) :=
  reports_of_added fun h => addMessageToJson_returns h _ _

theorem reports_propertyMissing : Reports res (propertyMissing R res arg1) :=
  reports_of_added fun h => addMessageToJson_returns h _ _

end Reports

end CrowCore.ErrorMessages
