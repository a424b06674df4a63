import CrowCore.JsonSchema
import CrowCore.ReportRuns

set_option autoImplicit false

/-!
# Reading the body of a Redfish request

The body is parsed if its type is JSON, for a PATCH without the members that only
annotate it, and read by a list of keys.
-/
namespace CrowCore.RedfishRequests
open JsonValue ErrorMessages ErrorAggregation JsonUtils JsonUnpacking JsonSchema ErrorReporters

/-- The header Content-Type, empty if it is missing, and the body. -/
structure Request where
  contentType : Text
  body : Text

inductive JsonParseResult where
  | BadContentType
  | BadJsonData
  | Success
deriving DecidableEq, Repr

def iequals (input test : Text) : Bool := input.map Char.toUpper == test.map Char.toUpper

section Requests
variable {D : Type}

/-- A report to a response whose headers do not matter. -/
def reportTo (report : Report D) (res : Response D) : Except JsonError (Response D) := do
  let res ← report.perform { toResponse := res }
  return res.toResponse

-- `parse` without exceptions, which gives a discarded value for what is not JSON
variable (parse : Text → Json Text D) (ignoreContentType : Bool)

def parseRequestAsJson (req : Request) (jsonOut : Json Text D) : JsonParseResult × Json Text D :=
  if !iequals req.contentType "application/json".toList &&
      !iequals req.contentType "application/json; charset=utf-8".toList &&
      !ignoreContentType then (.BadContentType, jsonOut)
  else
    match parse req.body with
    | .discarded => (.BadJsonData, .discarded)
    | jsonOut => (.Success, jsonOut)

def processJsonFromRequest (res : Response D) (req : Request) (reqJson : Json Text D) :
    Except JsonError (Bool × Response D × Json Text D) :=
  let (ret, reqJson) := parseRequestAsJson parse ignoreContentType req reqJson
  if ret = .BadContentType then do
    let res ← reportTo ErrorReporters.unrecognizedRequestBody res
    return (false, res, reqJson)
  else
    match parse req.body with
    | .discarded => do
      let res ← reportTo malformedJSON res
      return (false, res, .discarded)
    | reqJson => return (true, res, reqJson)

/-- The members that do not annotate the others. -/
def withoutAnnotations (members : List (Text × Json Text D)) : List (Text × Json Text D) :=
  members.filter fun item => !"@odata.".toList.isPrefixOf item.1

/-- What `readJsonPatchHelper` does with a body that was parsed. -/
def checkPatch (res : Response D) : Json Text D →
    Except JsonError (Option (Json Text D) × Response D)
  | .object (member :: members) =>
    match withoutAnnotations (member :: members) with
    | [] => do
      let res ← reportTo noOperation res
      return (none, res)
    | object => return (some (.object object), res)
  | _ => do
    let res ← reportTo emptyJSON res
    return (none, res)

def readJsonPatchHelper (req : Request) (res : Response D) :
    Except JsonError (Option (Json Text D) × Response D) := do
  let (ok, res, jsonRequest) ← processJsonFromRequest parse ignoreContentType res req .null
  if !ok then return (none, res)
  else checkPatch res jsonRequest

/-- The arguments of a call, of which each third is the number of an output. -/
def packVariant (args : List (Text × UnpackType × ℕ)) : List PerUnpack :=
  args.map fun arg => { key := arg.1, type := arg.2.1, pointer := arg.2.2 }

variable (F : Doubles D) (dump : ℤ → Json Text D → Text)

def readJson (jsonRequest : Json Text D) (res : Response D) (args : List (Text × UnpackType × ℕ))
    (outputs : Outputs D) : Except JsonError (Bool × Response D × Outputs D) :=
  readJsonHelper F (MessageBuilders.baseRegistry dump) res outputs (packVariant args) jsonRequest

def readJsonPatch (req : Request) (res : Response D) (args : List (Text × UnpackType × ℕ))
    (outputs : Outputs D) : Except JsonError (Bool × Response D × Outputs D) := do
  match ← readJsonPatchHelper parse ignoreContentType req res with
  | (none, res) => return (false, res, outputs)
  | (some jsonRequest, res) => readJson F dump jsonRequest res args outputs

def readJsonAction (req : Request) (res : Response D) (args : List (Text × UnpackType × ℕ))
    (outputs : Outputs D) : Except JsonError (Bool × Response D × Outputs D) := do
  let (ok, res, jsonRequest) ← processJsonFromRequest parse ignoreContentType res req .null
  if !ok then return (false, res, outputs)
  else readJson F dump jsonRequest res args outputs

def acceptsType (req : Request) : Bool :=
  iequals req.contentType "application/json".toList ||
    iequals req.contentType "application/json; charset=utf-8".toList || ignoreContentType

/-- What a PATCH with this body asks for. -/
def patched : Json Text D → Option (Json Text D)
  | .object members =>
    if withoutAnnotations members = [] then none else some (.object (withoutAnnotations members))
  | _ => none

variable {F dump}
variable {req : Request} {res : Response D}

theorem reportTo_errorReport (result : ℕ) (message : Json Text D) (res : Response D) :
    reportTo (errorReport result message) res = (do
      let jsonValue ← addMessageToErrorJson res.jsonValue message
      return { result, jsonValue }) := by
  simp only [reportTo, Report.perform, errorReport, Place.add]
  cases addMessageToErrorJson res.jsonValue message <;> rfl

theorem reports_errorReport (message : Json Text D) (res : Response D) :
    Reports res (reportTo (errorReport Status.badRequest message) res) := by
  rw [reportTo_errorReport]
  exact reports_of_added fun h => addMessageToErrorJson_returns h message

theorem parseRequestAsJson_of_not_accepts (h : acceptsType ignoreContentType req = false)
    (jsonOut : Json Text D) :
    parseRequestAsJson parse ignoreContentType req jsonOut = (.BadContentType, jsonOut) := by
  simp_all [acceptsType, parseRequestAsJson]

theorem parseRequestAsJson_of_accepts (h : acceptsType ignoreContentType req = true)
    (jsonOut : Json Text D) : (parseRequestAsJson parse ignoreContentType req jsonOut).1 ≠
      .BadContentType := by
  have hif : (!iequals req.contentType "application/json".toList &&
      !iequals req.contentType "application/json; charset=utf-8".toList &&
      !ignoreContentType) = false := by
    rw [← Bool.not_or, ← Bool.not_or, Bool.not_eq_false']
    exact h
  rw [parseRequestAsJson, hif]
  cases parse req.body <;> nofun

theorem processJsonFromRequest_decides (req : Request) (res : Response D) :
    Decides (processJsonFromRequest parse ignoreContentType res req .null) outcome res
      (acceptsType ignoreContentType req = true ∧ parse req.body ≠ .discarded)
      (fun a => a.2.2 = parse req.body) := by
  rcases haccepts : acceptsType ignoreContentType req with - | -
  · rw [processJsonFromRequest, parseRequestAsJson_of_not_accepts parse ignoreContentType haccepts]
    refine Fails.decides ?_ (by simp)
    exact fails_report (reports_errorReport _ res) fun res' hbad => fails_pure rfl hbad
  · have hret := parseRequestAsJson_of_accepts parse ignoreContentType haccepts .null
    rw [processJsonFromRequest]
    simp only [if_neg hret]
    split
    · refine Fails.decides ?_ (by simp_all)
      exact fails_report (reports_errorReport _ res) fun res' hbad => fails_pure rfl hbad
    · exact decides_pure (by simp_all) rfl rfl

def helperOutcome (a : Option (Json Text D) × Response D) : Bool × Response D := (a.1.isSome, a.2)

theorem checkPatch_decides (res : Response D) (jsonRequest : Json Text D) :
    Decides (checkPatch res jsonRequest) helperOutcome res (patched jsonRequest).isSome
      (fun a => a.1 = patched jsonRequest) := by
  have hempty : ∀ json : Json Text D, patched json = none → checkPatch res json = (do
      let res ← reportTo emptyJSON res
      return (none, res)) → Decides (checkPatch res json) helperOutcome res
        (patched json).isSome (fun a => a.1 = patched json) := by
    intro json hnone hcheck
    rw [hcheck, hnone]
    refine Fails.decides ?_ (by simp)
    exact fails_report (reports_errorReport _ res) fun res' hbad =>
      @fails_pure _ _ helperOutcome _ rfl hbad
  cases jsonRequest with
  | object members =>
    cases members with
    | nil => exact hempty _ rfl rfl
    | cons member members =>
      rw [checkPatch]
      split
      · rename_i hnil
        have hnone : patched (.object (member :: members)) = none := if_pos hnil
        rw [hnone]
        refine Fails.decides ?_ (by simp)
        exact fails_report (reports_errorReport _ res) fun res' hbad =>
          @fails_pure _ _ helperOutcome _ rfl hbad
      · rename_i hne
        have hsome : patched (.object (member :: members)) =
            some (.object (withoutAnnotations (member :: members))) := if_neg hne
        rw [hsome]
        exact decides_pure rfl rfl rfl
  | _ => exact hempty _ rfl rfl

theorem readJsonPatchHelper_decides (req : Request) (res : Response D) :
    Decides (readJsonPatchHelper parse ignoreContentType req res) helperOutcome res
      (acceptsType ignoreContentType req = true ∧ (patched (parse req.body)).isSome)
      (fun a => a.1 = patched (parse req.body)) := by
  have hprocess := processJsonFromRequest_decides parse ignoreContentType req res
  have hgood : (acceptsType ignoreContentType req = true ∧ parse req.body ≠ .discarded) ∧
      (patched (parse req.body)).isSome ↔
        acceptsType ignoreContentType req = true ∧ (patched (parse req.body)).isSome := by
    rw [and_assoc]
    refine and_congr_right fun _ => and_iff_right_of_imp fun hsome hdiscarded => ?_
    rw [hdiscarded] at hsome
    cases hsome
  rw [readJsonPatchHelper]
  refine (hprocess.bind ?_ ?_).weaken hgood fun _ => id
  · rintro ⟨ok, res', jsonRequest⟩ hview rfl
    obtain ⟨rfl, rfl⟩ := Prod.mk.inj hview
    exact checkPatch_decides res' _
  · rintro ⟨ok, res', jsonRequest⟩ hverdict hbad
    obtain rfl : ok = false := hverdict
    exact @fails_pure _ _ helperOutcome _ rfl hbad

theorem unique_withoutAnnotations {members : List (Text × Json Text D)}
    (h : Unique (.object members)) : Unique (.object (withoutAnnotations members)) := by
  have hfilter : ∀ members : List (Text × Json Text D), UniqueMembers members →
      UniqueMembers (withoutAnnotations members) := by
    intro members hunique
    induction members with
    | nil => exact hunique
    | cons member members ih =>
      rw [withoutAnnotations, List.filter_cons]
      split_ifs
      · exact ⟨hunique.1, ih hunique.2⟩
      · exact ih hunique.2
  exact ⟨h.1.sublist (List.filter_sublist.map Prod.fst), hfilter members h.2⟩

theorem unique_patched {json json' : Json Text D} (h : Unique json)
    (hpatched : patched json = some json') : Unique json' := by
  cases json with
  | object members =>
    rw [patched] at hpatched
    split_ifs at hpatched
    obtain rfl := Option.some.inj hpatched
    exact unique_withoutAnnotations h
  | _ => cases hpatched

variable {args : List (Text × UnpackType × ℕ)} {outputs : Outputs D}

theorem readJson_decides (hkeys : KeysApart (packVariant args)) {json : Json Text D}
    (hunique : Unique json) (res : Response D) :
    Decides (readJson F dump json res args outputs) outcome res
      (Fits F ((packVariant args).map spec) json ∧ Required ((packVariant args).map spec) json)
      (fun a => Distinct ((packVariant args).map spec) →
        EmptyVectors ((packVariant args).map spec) outputs →
          Filled F ((packVariant args).map spec) json outputs a.2.2) := by
  have h := readJsonHelper_decides (F := F) (R := MessageBuilders.baseRegistry dump) json hunique
    _ hkeys.valid res outputs
  have hcomplete : ∀ p ∈ packVariant args, p.complete = false := by
    intro p hp
    obtain ⟨arg, -, rfl⟩ := List.mem_map.1 hp
    rfl
  rwa [marked_nil hcomplete] at h

def Reads (F : Doubles D) (args : List (Text × UnpackType × ℕ)) (json : Json Text D) : Prop :=
  Fits F ((packVariant args).map spec) json ∧ Required ((packVariant args).map spec) json

/-- The outputs hold what the body has for the keys. -/
def Delivers (F : Doubles D) (args : List (Text × UnpackType × ℕ)) (json : Json Text D)
    (outputs outputs' : Outputs D) : Prop :=
  Distinct ((packVariant args).map spec) → EmptyVectors ((packVariant args).map spec) outputs →
    Filled F ((packVariant args).map spec) json outputs outputs'

theorem decides_readJsonPatch (hkeys : KeysApart (packVariant args))
    (hunique : Unique (parse req.body)) (res : Response D) (outputs : Outputs D) :
    Decides (readJsonPatch parse ignoreContentType F dump req res args outputs) outcome res
      (acceptsType ignoreContentType req = true ∧
        ∃ json, patched (parse req.body) = some json ∧ Reads F args json)
      (fun a => ∀ json, patched (parse req.body) = some json →
        Delivers F args json outputs a.2.2) := by
  have hhelper := readJsonPatchHelper_decides parse ignoreContentType req res
  have hgood : (acceptsType ignoreContentType req = true ∧ (patched (parse req.body)).isSome) ∧
      (∃ json, patched (parse req.body) = some json ∧ Reads F args json) ↔
        acceptsType ignoreContentType req = true ∧
          ∃ json, patched (parse req.body) = some json ∧ Reads F args json := by
    rw [and_assoc]
    refine and_congr_right fun _ => and_iff_right_of_imp ?_
    rintro ⟨json, hjson, -⟩
    exact Option.isSome_iff_exists.2 ⟨json, hjson⟩
  rw [readJsonPatch]
  refine (hhelper.bind ?_ ?_).weaken hgood fun _ => id
  · rintro ⟨jsonRequest, res'⟩ hview hjson
    obtain ⟨hsome, rfl⟩ := Prod.mk.inj hview
    obtain ⟨json, rfl⟩ := Option.isSome_iff_exists.1 hsome
    simp only [← hjson, Option.some.injEq, exists_eq_left', forall_eq']
    exact readJson_decides hkeys (unique_patched hunique hjson.symm) res'
  · rintro ⟨jsonRequest, res'⟩ hverdict hbad
    obtain rfl : jsonRequest = none :=
      Option.isSome_eq_false_iff.1 hverdict |> Option.isNone_iff_eq_none.1
    exact @fails_pure _ _ outcome _ rfl hbad

theorem decides_readJsonAction (hkeys : KeysApart (packVariant args))
    (hunique : Unique (parse req.body)) (res : Response D) (outputs : Outputs D) :
    Decides (readJsonAction parse ignoreContentType F dump req res args outputs) outcome res
      (acceptsType ignoreContentType req = true ∧ Reads F args (parse req.body))
      (fun a => Delivers F args (parse req.body) outputs a.2.2) := by
  have hprocess := processJsonFromRequest_decides parse ignoreContentType req res
  have hgood : (acceptsType ignoreContentType req = true ∧ parse req.body ≠ .discarded) ∧
      Reads F args (parse req.body) ↔
        acceptsType ignoreContentType req = true ∧ Reads F args (parse req.body) := by
    rw [and_assoc]
    refine and_congr_right fun _ => and_iff_right_of_imp fun hreads hdiscarded => ?_
    rw [hdiscarded] at hreads
    exact hreads.1
  rw [readJsonAction]
  refine (hprocess.bind ?_ ?_).weaken hgood fun _ => id
  · rintro ⟨ok, res', jsonRequest⟩ hview rfl
    obtain ⟨rfl, rfl⟩ := Prod.mk.inj hview
    exact readJson_decides hkeys hunique res'
  · rintro ⟨ok, res', jsonRequest⟩ hverdict hbad
    obtain rfl : ok = false := hverdict
    exact @fails_pure _ _ outcome _ rfl hbad

/-- Both ways to read a body succeed exactly on requests of type JSON: an action if all members
of the body fit the keys, a PATCH if those do that are left without annotations. -/
theorem bodies_decided (hkeys : KeysApart (packVariant args)) (hunique : Unique (parse req.body))
    (res : Response D) (outputs : Outputs D) :
    Decides (readJsonPatch parse ignoreContentType F dump req res args outputs) outcome res
        (acceptsType ignoreContentType req = true ∧
          ∃ json, patched (parse req.body) = some json ∧ Reads F args json)
        (fun a => ∀ json, patched (parse req.body) = some json →
          Delivers F args json outputs a.2.2) ∧
      Decides (readJsonAction parse ignoreContentType F dump req res args outputs) outcome res
        (acceptsType ignoreContentType req = true ∧ Reads F args (parse req.body))
        (fun a => Delivers F args (parse req.body) outputs a.2.2) :=
  ⟨decides_readJsonPatch parse ignoreContentType hkeys hunique res outputs,
    decides_readJsonAction parse ignoreContentType hkeys hunique res outputs⟩

/-- The report to a PATCH of which no member is read. -/
inductive Refuses (parse : Text → Json Text D) (ignoreContentType : Bool) (req : Request) :
    Report D → Prop where
  | type : acceptsType ignoreContentType req = false →
    Refuses parse ignoreContentType req ErrorReporters.unrecognizedRequestBody
  | text : acceptsType ignoreContentType req = true → parse req.body = .discarded →
    Refuses parse ignoreContentType req malformedJSON
  | empty : acceptsType ignoreContentType req = true → parse req.body ≠ .discarded →
    (∀ member members, parse req.body ≠ .object (member :: members)) →
    Refuses parse ignoreContentType req emptyJSON
  | annotations {member : Text × Json Text D} {members : List (Text × Json Text D)} :
    acceptsType ignoreContentType req = true → parse req.body = .object (member :: members) →
    withoutAnnotations (member :: members) = [] →
    Refuses parse ignoreContentType req noOperation

theorem processJsonFromRequest_accepts (haccepts : acceptsType ignoreContentType req = true)
    (hparse : parse req.body ≠ .discarded) (res : Response D) :
    processJsonFromRequest parse ignoreContentType res req .null =
      .ok (true, res, parse req.body) := by
  obtain ⟨⟨ok, res', json⟩, hcall, hview, hjson⟩ :=
    (processJsonFromRequest_decides parse ignoreContentType req res).accepts ⟨haccepts, hparse⟩
  obtain ⟨rfl, rfl⟩ := Prod.mk.inj hview
  obtain rfl : json = parse req.body := hjson
  exact hcall

theorem Refuses.call {report : Report D} (h : Refuses parse ignoreContentType req report)
    (res : Response D) (args : List (Text × UnpackType × ℕ)) (outputs : Outputs D) :
    readJsonPatch parse ignoreContentType F dump req res args outputs = (do
      let res ← reportTo report res
      return (false, res, outputs)) := by
  cases h with
  | type htype =>
    rw [readJsonPatch, readJsonPatchHelper, processJsonFromRequest,
      parseRequestAsJson_of_not_accepts parse ignoreContentType htype]
    cases reportTo (ErrorReporters.unrecognizedRequestBody : Report D) res <;> rfl
  | text htype htext =>
    have hret := parseRequestAsJson_of_accepts parse ignoreContentType htype .null
    rw [readJsonPatch, readJsonPatchHelper, processJsonFromRequest]
    simp only [if_neg hret, htext]
    cases reportTo (malformedJSON : Report D) res <;> rfl
  | empty htype htext hempty =>
    have hcheck : checkPatch res (parse req.body) = (do
        let res ← reportTo emptyJSON res
        return (none, res)) := by
      rw [checkPatch.eq_2]
      exact hempty
    rw [readJsonPatch, readJsonPatchHelper,
      processJsonFromRequest_accepts parse ignoreContentType htype htext]
    change (checkPatch res (parse req.body) >>= _) = _
    rw [hcheck]
    cases reportTo (emptyJSON : Report D) res <;> rfl
  | @annotations member members htype hbody hnil =>
    have htext : parse req.body ≠ .discarded := by
      rw [hbody]
      nofun
    have hcheck : checkPatch res (parse req.body) = (do
        let res ← reportTo noOperation res
        return (none, res)) := by
      rw [hbody, checkPatch, hnil]
    rw [readJsonPatch, readJsonPatchHelper,
      processJsonFromRequest_accepts parse ignoreContentType htype htext]
    change (checkPatch res (parse req.body) >>= _) = _
    rw [hcheck]
    cases reportTo (noOperation : Report D) res <;> rfl

theorem refuses_iff : (∃ report, Refuses parse ignoreContentType req report) ↔
    ¬ (acceptsType ignoreContentType req = true ∧ (patched (parse req.body)).isSome) := by
  constructor
  · rintro ⟨report, h⟩ ⟨htype, hsome⟩
    cases h with
    | type htype' => exact Bool.noConfusion (htype'.symm.trans htype)
    | text _ htext =>
      rw [htext] at hsome
      cases hsome
    | empty _ _ hempty =>
      rcases hbody : parse req.body with _ | _ | _ | _ | _ | _ | _ | members | _ | _
      all_goals rw [hbody] at hsome
      case object =>
        cases members with
        | nil => cases hsome
        | cons member members => exact hempty member members hbody
      all_goals cases hsome
    | annotations _ hbody hnil =>
      rw [hbody, patched, if_pos hnil] at hsome
      cases hsome
  · intro h
    rcases htype : acceptsType ignoreContentType req with - | -
    · exact ⟨_, .type htype⟩
    · by_cases htext : parse req.body = .discarded
      · exact ⟨_, .text htype htext⟩
      · by_cases hempty : ∀ member members, parse req.body ≠ .object (member :: members)
        · exact ⟨_, .empty htype htext hempty⟩
        · push Not at hempty
          obtain ⟨member, members, hbody⟩ := hempty
          refine ⟨_, .annotations htype hbody ?_⟩
          by_contra hne
          refine h ⟨htype, ?_⟩
          rw [hbody, patched, if_neg hne]
          rfl

theorem Refuses.isError {report : Report D} (h : Refuses parse ignoreContentType req report) :
    report = errorReport Status.badRequest report.message ∧ IsMessage report.message := by
  cases h with
  | type => exact ⟨rfl, MessageBuilders.isMessage_getLog .unrecognizedRequestBody []⟩
  | text => exact ⟨rfl, MessageBuilders.isMessage_getLog .malformedJSON []⟩
  | empty => exact ⟨rfl, MessageBuilders.isMessage_getLog .emptyJSON []⟩
  | annotations => exact ⟨rfl, MessageBuilders.isMessage_getLog .noOperation []⟩

/-- Of a PATCH either the keys are read, or it is refused with one report, which is the only
message of a response that had none; then no output changes. -/
theorem patch_refused {res : Response D} (hfresh : ReportRuns.Fresh { toResponse := res })
    (args : List (Text × UnpackType × ℕ)) (outputs : Outputs D) :
    (∃ json, acceptsType ignoreContentType req = true ∧ patched (parse req.body) = some json ∧
      readJsonPatch parse ignoreContentType F dump req res args outputs =
        readJson F dump json res args outputs) ∨
    ∃ report res', Refuses parse ignoreContentType req report ∧
      readJsonPatch parse ignoreContentType F dump req res args outputs =
        .ok (false, res', outputs) ∧ res'.result = 400 ∧
          SumsUp res'.jsonValue [report.message] := by
  by_cases hread : acceptsType ignoreContentType req = true ∧ (patched (parse req.body)).isSome
  · obtain ⟨⟨json, res'⟩, hcall, hview, hjson⟩ :=
      (readJsonPatchHelper_decides parse ignoreContentType req res).accepts hread
    obtain ⟨-, rfl⟩ := Prod.mk.inj hview
    obtain ⟨json', hsome⟩ := Option.isSome_iff_exists.1 hread.2
    obtain rfl : json = some json' := hjson.trans hsome
    refine .inl ⟨json', hread.1, hsome, ?_⟩
    rw [readJsonPatch, hcall]
    rfl
  · obtain ⟨report, hrefuses⟩ := (refuses_iff parse ignoreContentType).2 hread
    obtain ⟨hreport, hmessage⟩ := hrefuses.isError
    obtain ⟨res', hrun, hres⟩ := hfresh.collects (List.cons_ne_nil report [])
      (List.forall_mem_singleton.2 hmessage)
    obtain ⟨res₁, hperform, hrest⟩ := bind_ok.1 hrun
    obtain rfl : res₁ = res' := Except.ok.inj hrest
    have hreports : reportTo report res = .ok res₁.toResponse := bind_ok.2 ⟨res₁, hperform, rfl⟩
    refine .inr ⟨report, res₁.toResponse, hrefuses, ?_, ?_, ?_⟩
    · rw [hrefuses.call, hreports]
      rfl
    · rw [hres.result, hreport]
      rfl
    · have hsum := hres.error
      rwa [hreport] at hsum

end Requests

def sampleText : Text := "\x7b\"@odata.etag\":\"1\",\"Name\":\"a\"\x7d".toList

def annotationText : Text := "\x7b\"@odata.etag\":\"1\"\x7d".toList

def sampleMembers : List (Text × Json Text Unit) :=
  [("@odata.etag".toList, .string "1".toList), ("Name".toList, .string "a".toList)]

def sampleParse (text : Text) : Json Text Unit :=
  if text = sampleText then .object sampleMembers
  else if text = annotationText then .object (sampleMembers.take 1)
  else .discarded

def samplePatch : Request := { contentType := "Application/JSON".toList, body := sampleText }

def sampleArgs : List (Text × UnpackType × ℕ) := [("Name".toList, .one .string, 0)]

theorem sampleArgs_apart : KeysApart (packVariant sampleArgs) where
  component := by decide
  prefixFree := by decide

theorem sampleParse_body : sampleParse samplePatch.body = .object sampleMembers := if_pos rfl

theorem sampleMembers_unique : Unique (.object sampleMembers) := by
  simp [sampleMembers, JsonValue.Unique, UniqueMembers]

def sampleRest : Json Text Unit := .object [("Name".toList, .string "a".toList)]

theorem patched_sampleMembers : patched (.object sampleMembers) = some sampleRest := rfl

theorem sampleRest_reads : Reads sampleDoubles sampleArgs sampleRest := by
  constructor
  · rw [sampleRest, Fits, MembersFit]
    exact ⟨.inl ⟨_, List.mem_singleton_self _, rfl, rfl⟩, trivial⟩
  · unfold Required
    decide

theorem bodies_decided_sample : ∃ res' outputs',
    readJsonPatch sampleParse false sampleDoubles (fun _ _ => []) samplePatch {} sampleArgs
      sampleOutputs = .ok (true, res', outputs') := by
  have hunique : Unique (sampleParse samplePatch.body) := sampleParse_body ▸ sampleMembers_unique
  have hpatched : patched (sampleParse samplePatch.body) = some sampleRest :=
    sampleParse_body ▸ patched_sampleMembers
  have htype : acceptsType false samplePatch = true := by decide
  obtain ⟨⟨ok, res', outputs'⟩, hcall, hview, -⟩ :=
    (@bodies_decided _ sampleParse false sampleDoubles (fun _ _ => []) samplePatch sampleArgs
      sampleArgs_apart hunique {} sampleOutputs).1.accepts
        ⟨htype, sampleRest, hpatched, sampleRest_reads⟩
  obtain ⟨rfl, -⟩ := Prod.mk.inj hview
  exact ⟨res', outputs', hcall⟩

theorem patch_refused_sample : ∃ res' : Response Unit, ∃ report : Report Unit,
    readJsonPatch sampleParse false sampleDoubles (fun _ _ => [])
      { samplePatch with body := annotationText } {} sampleArgs sampleOutputs =
        .ok (false, res', sampleOutputs) ∧ SumsUp res'.jsonValue [report.message] := by
  have hfresh : ReportRuns.Fresh ({ toResponse := {} } : Reported Unit) := ⟨.inl rfl, fun _ => rfl⟩
  rcases @patch_refused _ sampleParse false sampleDoubles (fun _ _ => [])
    { samplePatch with body := annotationText } _ hfresh sampleArgs sampleOutputs with
    ⟨json, -, hjson, -⟩ | ⟨report, res', -, hcall, -, hsum⟩
  · have hnone : patched (sampleParse annotationText) = none := rfl
    cases hnone.symm.trans hjson
  · exact ⟨res', report, hcall, hsum⟩

end CrowCore.RedfishRequests
