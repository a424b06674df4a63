import CrowCore.JsonUnpacking
import CrowCore.RefusedMessages

set_option autoImplicit false

/-!
# Messages that stay

Reading a body only ever adds messages to a response. A report that was made is
in the response when the call returns, whatever else was reported after it.
-/
namespace CrowCore.ReportedMessages
open JsonValue ErrorMessages ErrorAggregation RefusedMessages JsonUtils

inductive Report where
  | unknown (name : Text)
  | unpack (key : Text)
  | missing (key : Text)
deriving DecidableEq

variable {D : Type}

def annotated (key : Text) (target : Json Text D) : List (Json Text D) :=
  match target.find (key ++ messageAnnotation) with
  | some (.array messages) => messages
  | _ => []

/-- The response has the message of a report. -/
def Shown (R : Registry D) (target : Json Text D) : Report → Prop
  | .unknown name => R.getLog .propertyUnknown [name] ∈ extendedInfo target
  | .unpack key => ∃ value,
    R.getLog .propertyValueTypeError [value, key] ∈ annotated key target ∨
      R.getLog .propertyValueNotInList [value, key] ∈ annotated key target
  | .missing key => R.getLog .propertyMissing [key] ∈ annotated key target

structure Grows (target target' : Json Text D) : Prop where
  errors : extendedInfo target ⊆ extendedInfo target'
  fields : ∀ key, annotated key target ⊆ annotated key target'

theorem Grows.refl (target : Json Text D) : Grows target target :=
  ⟨List.Subset.refl _, fun _ => List.Subset.refl _⟩

section Grows
variable {target target₁ target' : Json Text D} {R : Registry D}

theorem Grows.trans (h : Grows target target₁) (h' : Grows target₁ target') :
    Grows target target' :=
  ⟨List.Subset.trans h.errors h'.errors, fun key =>
    List.Subset.trans (h.fields key) (h'.fields key)⟩

theorem Shown.mono {report : Report} (h : Shown R target report) (hgrows : Grows target target') :
    Shown R target' report := by
  cases report with
  | unknown name => exact hgrows.errors h
  | unpack key =>
    obtain ⟨value, hvalue⟩ := h
    exact ⟨value, hvalue.imp (@hgrows.fields key _) (@hgrows.fields key _)⟩
  | missing key => exact hgrows.fields key h

theorem addMessageToJson_grows {message : Json Text D} {fieldPath : Text}
    (hadd : addMessageToJson target message fieldPath = .ok target') :
    Grows target target' ∧ message ∈ annotated fieldPath target' := by
  obtain ⟨members, val, rfl, hf, hself, hothers⟩ := modify_calls hadd
  have hval : val = .array (annotated fieldPath target ++ [message]) := by
    rw [annotated]
    rcases hfind : target.find (fieldPath ++ messageAnnotation) with _ | field
    · rw [hfind] at hf
      exact (Except.ok.inj hf).symm
    · rw [hfind] at hf
      cases field <;> exact (Except.ok.inj hf).symm
  have hnew : annotated fieldPath (.object members) = annotated fieldPath target ++ [message] := by
    rw [annotated, Json.find, hself, hval]
  refine ⟨⟨?_, fun key => ?_⟩, ?_⟩
  · rw [extendedInfo, extendedInfo, errorOf, errorOf, Json.find,
      hothers _ (annotation_ne_error fieldPath).symm]
    exact List.Subset.refl _
  · by_cases hkey : key = fieldPath
    · rw [hkey, hnew]
      exact List.subset_append_left _ _
    · rw [annotated, annotated, Json.find,
        hothers _ (fun heq => hkey (List.append_cancel_right heq))]
      exact List.Subset.refl _
  · rw [hnew]
    exact List.mem_append_right _ List.mem_cons_self

theorem addMessageToErrorJson_grows {message : Json Text D} (hmessage : IsMessage message)
    (hadd : addMessageToErrorJson target message = .ok target') :
    Grows target target' ∧ message ∈ extendedInfo target' := by
  obtain ⟨members, error', rfl, hf, hself, hothers⟩ := modify_calls hadd
  obtain ⟨-, hinfo⟩ := addToError_taken (.inl hmessage) hf
  have hnew : extendedInfo (.object members) = extendedInfo target ++ [message] := by
    rw [extendedInfo, errorOf, Json.find, hself, Option.getD_some, errorMessages, hinfo]
  refine ⟨⟨?_, fun key => ?_⟩, ?_⟩
  · rw [hnew]
    exact List.subset_append_left _ _
  · rw [annotated, annotated, Json.find, hothers _ (annotation_ne_error key)]
    exact List.Subset.refl _
  · rw [hnew]
    exact List.mem_append_right _ List.mem_cons_self

end Grows

section Calls
variable {R : Registry D} {res res' : Response D}

theorem of_addMessageToJson {message : Json Text D} {key : Text}
    (hcall : (do
      let jsonValue ← addMessageToJson res.jsonValue message key
      return { result := badRequest, jsonValue }) = Except.ok res') :
    Grows res.jsonValue res'.jsonValue ∧ message ∈ annotated key res'.jsonValue := by
  obtain ⟨jsonValue, hadd, hreturn⟩ := bind_ok.1 hcall
  obtain rfl := Except.ok.inj hreturn
  exact addMessageToJson_grows hadd

theorem of_addMessageToErrorJson {message : Json Text D} (hmessage : IsMessage message)
    (hcall : (do
      let jsonValue ← addMessageToErrorJson res.jsonValue message
      return { result := badRequest, jsonValue }) = Except.ok res') :
    Grows res.jsonValue res'.jsonValue ∧ message ∈ extendedInfo res'.jsonValue := by
  obtain ⟨jsonValue, hadd, hreturn⟩ := bind_ok.1 hcall
  obtain rfl := Except.ok.inj hreturn
  exact addMessageToErrorJson_grows hmessage hadd

theorem propertyMissing_shown {key : Text} (hcall : propertyMissing R res key = .ok res') :
    Grows res.jsonValue res'.jsonValue ∧ Shown R res'.jsonValue (.missing key) :=
  of_addMessageToJson hcall

theorem propertyUnknown_shown (hR : ∀ index args, IsMessage (R.getLog index args)) {name : Text}
    (hcall : propertyUnknown R res name = .ok res') :
    Grows res.jsonValue res'.jsonValue ∧ Shown R res'.jsonValue (.unknown name) :=
  of_addMessageToErrorJson (hR _ _) hcall

theorem propertyValueTypeError_shown {value : Json Text D} {key : Text}
    (hcall : propertyValueTypeError R res value key = .ok res') :
    Grows res.jsonValue res'.jsonValue ∧ Shown R res'.jsonValue (.unpack key) := by
  obtain ⟨hgrows, hmem⟩ := of_addMessageToJson hcall
  exact ⟨hgrows, R.dump 2 value, .inl hmem⟩

theorem propertyValueNotInList_shown {value : Json Text D} {key : Text}
    (hcall : propertyValueNotInList R res value key = .ok res') :
    Grows res.jsonValue res'.jsonValue ∧ Shown R res'.jsonValue (.unpack key) := by
  obtain ⟨hgrows, hmem⟩ := of_addMessageToJson hcall
  exact ⟨hgrows, R.dump (-1) value, .inr hmem⟩

/-- Messages stay, and there is one about `key` unless the verdict is `ok`. -/
def Unpacks (R : Registry D) (key : Text) (res : Response D) (ok : Bool) (res' : Response D) :
    Prop :=
  Grows res.jsonValue res'.jsonValue ∧ (ok = false → Shown R res'.jsonValue (.unpack key))

variable {F : Doubles D} {jsonValue : Json Text D} {key : Text} {ok : Bool}

theorem unpacks_of_report {γ : Type} {report : Except JsonError (Response D)} {value value' : γ}
    (hshown : ∀ res₁, report = .ok res₁ →
      Grows res.jsonValue res₁.jsonValue ∧ Shown R res₁.jsonValue (.unpack key))
    (hcall : (do
      let res ← report
      return (false, res, value)) = Except.ok (ok, res', value')) : Unpacks R key res ok res' := by
  obtain ⟨res₁, hreport, hreturn⟩ := bind_ok.1 hcall
  obtain ⟨-, rfl, -⟩ : false = ok ∧ res₁ = res' ∧ value = value' := by
    simpa using Except.ok.inj hreturn
  exact ⟨(hshown _ hreport).1, fun _ => (hshown _ hreport).2⟩

theorem unpackScalar_shown {t : Scalar} {value value' : ScalarValue D}
    (hcall : unpackScalar F R t jsonValue key res value = .ok (ok, res', value')) :
    Unpacks R key res ok res' := by
  rw [unpackScalar] at hcall
  split at hcall
  · obtain ⟨rfl, rfl, -⟩ : true = ok ∧ res = res' ∧ _ := by simpa using Except.ok.inj hcall
    exact ⟨Grows.refl _, fun hok => by cases hok⟩
  · exact unpacks_of_report (fun _ => propertyValueTypeError_shown) hcall
  · exact unpacks_of_report (fun _ => propertyValueNotInList_shown) hcall

theorem unpackElements_shown {t : Scalar} (elements : List (Json Text D)) {ret : Bool}
    {values values' : List (ScalarValue D)}
    (hcall : unpackElements F R t key elements ret res values = .ok (ok, res', values')) :
    Grows res.jsonValue res'.jsonValue ∧
      (ok = false → ret = false ∨ Shown R res'.jsonValue (.unpack key)) := by
  induction elements generalizing res ret values with
  | nil =>
    obtain ⟨rfl, rfl, -⟩ : ret = ok ∧ res = res' ∧ _ := by simpa using Except.ok.inj hcall
    exact ⟨Grows.refl _, .inl⟩
  | cons val elements ih =>
    obtain ⟨⟨ok₁, res₁, value⟩, hval, hrest⟩ := bind_ok.1 hcall
    obtain ⟨hgrows, hshown⟩ := unpackScalar_shown hval
    obtain ⟨hgrows', hrest⟩ := ih hrest
    refine ⟨hgrows.trans hgrows', fun hok => ?_⟩
    rcases hrest hok with hret | hrest
    · rcases Bool.and_eq_false_iff.1 hret with hok₁ | hret
      · exact .inr ((hshown hok₁).mono hgrows')
      · exact .inl hret
    · exact .inr hrest

theorem unpackVector_shown {t : Scalar} {values values' : List (ScalarValue D)}
    (hcall : unpackVector F R t jsonValue key res values = .ok (ok, res', values')) :
    Unpacks R key res ok res' := by
  cases jsonValue with
  | array elements =>
    obtain ⟨hgrows, hshown⟩ := unpackElements_shown elements hcall
    exact ⟨hgrows, fun hok => (hshown hok).resolve_left (by simp)⟩
  | _ => exact unpacks_of_report (fun _ => propertyValueTypeError_shown) hcall

theorem unpacks_map {γ δ : Type} {call : Except JsonError (Bool × Response D × γ)} {f : γ → δ}
    {value' : δ} (hshown : ∀ value, call = .ok (ok, res', value) → Unpacks R key res ok res')
    (hcall : (call >>= fun a => .ok (a.1, a.2.1, f a.2.2)) = .ok (ok, res', value')) :
    Unpacks R key res ok res' := by
  obtain ⟨⟨ok₁, res₁, value⟩, hval, hreturn⟩ := bind_ok.1 hcall
  obtain ⟨rfl, rfl, -⟩ : ok₁ = ok ∧ res₁ = res' ∧ f value = value' := by
    simpa using Except.ok.inj hreturn
  exact hshown value hval

theorem unpackValue_shown {type : UnpackType} {value value' : Output D}
    (hcall : unpackValue F R type jsonValue key res value = .ok (ok, res', value')) :
    Unpacks R key res ok res' := by
  cases type with
  | one t =>
    exact unpacks_map (f := fun value => Output.plain (.one value))
      (fun _ => unpackScalar_shown) hcall
  | vector t ht =>
    exact unpacks_map (f := fun values => Output.plain (.vector values))
      (fun _ => unpackVector_shown) hcall
  | optional t =>
    exact unpacks_map (f := fun value => Output.optional (some (.one value)))
      (fun _ => unpackScalar_shown) hcall
  | optionalVector t ht =>
    exact unpacks_map (f := fun values => Output.optional (some (.vector values)))
      (fun _ => unpackVector_shown) hcall

theorem checkMissing_grows {toUnpack : List PerUnpack} {result : Bool}
    (hcall : checkMissing R toUnpack result res = .ok (ok, res')) :
    Grows res.jsonValue res'.jsonValue := by
  induction toUnpack generalizing res result with
  | nil =>
    obtain ⟨-, rfl⟩ := Prod.mk.inj (Except.ok.inj hcall)
    exact Grows.refl _
  | cons perUnpack toUnpack ih =>
    rw [checkMissing] at hcall
    split_ifs at hcall
    · obtain ⟨res₁, hreport, hrest⟩ := bind_ok.1 hcall
      exact (propertyMissing_shown hreport).1.trans (ih hrest)
    · exact ih hcall

end Calls

section Helper
variable {F : Doubles D} {R : Registry D}

/-- A call of the helper for this value keeps the messages. -/
def HelperGrows (F : Doubles D) (R : Registry D) (json : Json Text D) : Prop :=
  ∀ res outputs toUnpack ok res' outputs',
    readJsonHelper F R res outputs toUnpack json = .ok (ok, res', outputs') →
      Grows res.jsonValue res'.jsonValue

theorem helperGrows_not_object (hR : ∀ index args, IsMessage (R.getLog index args))
    {json : Json Text D} (hobject : json.isObject = false) : HelperGrows F R json := by
  intro res outputs toUnpack ok res' outputs' hcall
  cases json with
  | object members => cases hobject
  | _ =>
    simp only [readJsonHelper] at hcall
    obtain ⟨res₁, hreport, hreturn⟩ := bind_ok.1 hcall
    obtain ⟨-, rfl, -⟩ : false = ok ∧ res₁ = res' ∧ _ := by simpa using Except.ok.inj hreturn
    exact (of_addMessageToErrorJson (hR _ _) hreport).1

theorem helperGrows_object {members : List (Text × Json Text D)}
    (hloop : ∀ p p' : Progress D, readMembers F R p members = .ok p' →
      Grows p.res.jsonValue p'.res.jsonValue) : HelperGrows F R (.object members) := by
  intro res outputs toUnpack ok res' outputs' hcall
  rw [readJsonHelper] at hcall
  obtain ⟨p, hrun, hcall⟩ := bind_ok.1 hcall
  have hgrows := hloop _ p hrun
  split_ifs at hcall
  · obtain ⟨-, rfl, -⟩ : p.result = ok ∧ p.res = res' ∧ _ := by simpa using Except.ok.inj hcall
    exact hgrows
  · obtain ⟨⟨result, res₁⟩, hmissing, hreturn⟩ := bind_ok.1 hcall
    obtain ⟨-, rfl, -⟩ : result = ok ∧ res₁ = res' ∧ _ := by simpa using Except.ok.inj hreturn
    exact hgrows.trans (checkMissing_grows hmissing)

theorem readMembers_cons_grows (hR : ∀ index args, IsMessage (R.getLog index args)) {name : Text}
    {val : Json Text D} {members : List (Text × Json Text D)} (hval : HelperGrows F R val)
    (hloop : ∀ p p' : Progress D, readMembers F R p members = .ok p' →
      Grows p.res.jsonValue p'.res.jsonValue) {p p' : Progress D}
    (hrun : readMembers F R p ((name, val) :: members) = .ok p') :
    Grows p.res.jsonValue p'.res.jsonValue := by
  rw [readMembers] at hrun
  split at hrun
  · obtain ⟨res, hreport, hrest⟩ := bind_ok.1 hrun
    exact (propertyUnknown_shown hR hreport).1.trans (hloop _ p' hrest)
  · split_ifs at hrun
    · obtain rfl := Except.ok.inj hrun
      exact Grows.refl _
    · obtain ⟨⟨result, res, outputs⟩, hnested, hrest⟩ := bind_ok.1 hrun
      exact (hval _ _ _ _ _ _ hnested).trans (hloop _ p' hrest)
    · obtain ⟨⟨result, res, value⟩, hleaf, hrest⟩ := bind_ok.1 hrun
      exact (unpackValue_shown hleaf).1.trans (hloop _ p' hrest)

variable (hR : ∀ index args, IsMessage (R.getLog index args))
include hR

mutual

theorem readJsonHelper_grows : ∀ json : Json Text D, HelperGrows F R json
  | .object members => helperGrows_object fun _ _ hrun => readMembers_grows members hrun
  | .null | .boolean _ | .number_integer _ | .number_unsigned _ | .number_float _ | .string _
  | .array _ | .discarded | .binary => helperGrows_not_object hR rfl

theorem readMembers_grows : ∀ (members : List (Text × Json Text D)) {p p' : Progress D},
    readMembers F R p members = .ok p' → Grows p.res.jsonValue p'.res.jsonValue
  | [], p, p', hrun => by
    rw [readMembers] at hrun
    obtain rfl := Except.ok.inj hrun
    exact Grows.refl _
  | (_, val) :: members, _, _, hrun =>
    readMembers_cons_grows hR (readJsonHelper_grows val)
      (fun _ _ hrun => readMembers_grows members hrun) hrun

end

end Helper

end CrowCore.ReportedMessages
