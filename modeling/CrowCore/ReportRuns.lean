import CrowCore.ErrorReporters

set_option autoImplicit false

/-!
# Runs of reports

Whatever a handler reports, and in whatever order, each place of the response lists the
messages that were reported there, and the status is the one that was set last.
-/
namespace CrowCore.ReportRuns
open JsonValue ErrorMessages ErrorAggregation ErrorReporters

variable {D : Type}

theorem modifyMember_bind (key : Text) (f g : Json Text D → Except JsonError (Json Text D))
    (members : List (Text × Json Text D)) :
    (Json.modifyMember key f members >>= Json.modifyMember key g) =
      Json.modifyMember key (fun val => f val >>= g) members := by
  induction members with
  | nil =>
    simp only [Json.modifyMember]
    rcases f .null with e | val
    · rfl
    · change Json.modifyMember key g [(key, val)] = _
      rw [Json.modifyMember, if_pos (beq_self_eq_true key)]
      rfl
  | cons member members ih =>
    obtain ⟨name, old⟩ := member
    rw [Json.modifyMember, Json.modifyMember]
    split_ifs with hkey
    · rcases f old with e | val
      · rfl
      · change Json.modifyMember key g ((name, val) :: members) = _
        rw [Json.modifyMember, if_pos hkey]
        rfl
    · rw [← ih]
      rcases Json.modifyMember key f members with e | members'
      · rfl
      · change Json.modifyMember key g ((name, old) :: members') = _
        rw [Json.modifyMember, if_neg hkey]
        rfl

theorem modify_bind (target : Json Text D) (key : Text)
    (f g : Json Text D → Except JsonError (Json Text D)) :
    (target.modify key f >>= fun target' => target'.modify key g) =
      target.modify key fun val => f val >>= g := by
  cases target with
  | null =>
    rw [Json.modify, Json.modify, ← modifyMember_bind]
    cases Json.modifyMember key f [] <;> rfl
  | object members =>
    rw [Json.modify, Json.modify, ← modifyMember_bind]
    cases Json.modifyMember key f members <;> rfl
  | _ => rfl

theorem addMessageToJsonRoot_eq (target message : Json Text D) :
    addMessageToJsonRoot target message = addMessageToJson target message [] :=
  modify_bind target messageAnnotation _ _

theorem modifyMember_others {key : Text} {f : Json Text D → Except JsonError (Json Text D)}
    {members members' : List (Text × Json Text D)}
    (h : Json.modifyMember key f members = .ok members') {name : Text} (hname : name ≠ key) :
    members'.lookup name = members.lookup name := by
  have hne : (name == key) = false := beq_false_of_ne hname
  induction members generalizing members' with
  | nil =>
    obtain ⟨val, -, hval⟩ := bind_ok.1 h
    obtain rfl := Except.ok.inj hval
    simp only [List.lookup, hne]
  | cons member members ih =>
    obtain ⟨name', old⟩ := member
    rw [Json.modifyMember] at h
    split_ifs at h with hkey
    · obtain ⟨val, -, hval⟩ := bind_ok.1 h
      obtain rfl := Except.ok.inj hval
      rw [← eq_of_beq hkey, List.lookup, List.lookup, hne]
    · obtain ⟨members₁, hmembers, hval⟩ := bind_ok.1 h
      obtain rfl := Except.ok.inj hval
      rw [List.lookup, List.lookup, ih hmembers]

theorem modify_others {key : Text} {f : Json Text D → Except JsonError (Json Text D)}
    {target target' : Json Text D} (h : target.modify key f = .ok target') :
    target'.isObject ∧ ∀ name, name ≠ key → target'.find name = target.find name := by
  cases target with
  | null =>
    obtain ⟨members, hmembers, hval⟩ := bind_ok.1 h
    obtain rfl := Except.ok.inj hval
    exact ⟨rfl, fun name hname => modifyMember_others hmembers hname⟩
  | object old =>
    obtain ⟨members, hmembers, hval⟩ := bind_ok.1 h
    obtain rfl := Except.ok.inj hval
    exact ⟨rfl, fun name hname => modifyMember_others hmembers hname⟩
  | _ => cases h

def member : Place → Text
  | .error => "error".toList
  | .root => messageAnnotation
  | .property fieldPath => fieldPath ++ messageAnnotation

theorem add_others {place : Place} {target target' message : Json Text D}
    (h : place.add target message = .ok target') : target'.isObject ∧
      ∀ name, name ≠ member place → target'.find name = target.find name := by
  cases place with
  | error => exact modify_others h
  | root =>
    rw [Place.add, addMessageToJsonRoot_eq] at h
    exact modify_others h
  | property fieldPath => exact modify_others h

theorem add_null (place : Place) (message : Json Text D) :
    place.add .null message = place.add (.object []) message := by
  cases place with
  | root => rw [Place.add, Place.add, addMessageToJsonRoot_eq, addMessageToJsonRoot_eq]; rfl
  | _ => rfl

theorem member_ne_error {place : Place} (h : place ≠ .error) :
    member place ≠ "error".toList := by
  cases place with
  | error => exact (h rfl).elim
  | root => exact annotation_ne_error []
  | property fieldPath => exact annotation_ne_error fieldPath

def listed (messages : List (Json Text D)) : Option (Json Text D) :=
  if messages = [] then none else some (.array messages)

theorem pushBack_listed (messages : List (Json Text D)) (message : Json Text D) :
    (if ((listed messages).getD .null).isArray then (listed messages).getD .null
      else .array []).pushBack message = .ok (.array (messages ++ [message])) := by
  by_cases hnil : messages = []
  · subst hnil
    rfl
  · have hlisted : listed messages = some (.array messages) := if_neg hnil
    rw [hlisted]
    rfl

theorem add_listed {place : Place} (hplace : place ≠ .error) {target : Json Text D}
    (htarget : target.isObject) {messages : List (Json Text D)}
    (hlisted : target.find (member place) = listed messages) (message : Json Text D) :
    ∃ target', place.add target message = .ok target' ∧
      target'.find (member place) = listed (messages ++ [message]) := by
  have hadd : ∀ fieldPath, target.find (fieldPath ++ messageAnnotation) = listed messages →
      ∃ target', addMessageToJson target message fieldPath = .ok target' ∧
        target'.find (fieldPath ++ messageAnnotation) = listed (messages ++ [message]) := by
    intro fieldPath hfind
    have hpush := pushBack_listed messages message
    rw [← hfind] at hpush
    obtain ⟨members, hmembers, hself, -⟩ := modify_returns (.inr htarget)
      (fun field => (if field.isArray then field else .array []).pushBack message) hpush
    refine ⟨_, hmembers, hself.trans ?_⟩
    rw [listed, if_neg (List.append_ne_nil_of_right_ne_nil _ (List.cons_ne_nil _ _))]
  cases place with
  | error => exact (hplace rfl).elim
  | root =>
    rw [Place.add, addMessageToJsonRoot_eq]
    exact hadd [] hlisted
  | property fieldPath => exact hadd fieldPath hlisted

def messagesAt (place : Place) (reports : List (Report D)) : List (Json Text D) :=
  (reports.filter fun report => member report.place = member place).map Report.message

structure Collects (res₀ res : Reported D) (reports : List (Report D)) : Prop where
  result : res.result = (reports.filterMap Report.result).getLast?.getD res₀.result
  retryAfter : res.retryAfter = res₀.retryAfter ++ reports.filterMap Report.retryAfter
  error : SumsUp res.jsonValue (messagesAt .error reports)
  annotation : ∀ place, place ≠ .error →
    res.jsonValue.find (member place) = listed (messagesAt place reports)
  others : ∀ name, (∀ report ∈ reports, member report.place ≠ name) →
    res.jsonValue.find name = res₀.jsonValue.find name

theorem messagesAt_append_of_eq {place : Place} {reports : List (Report D)} {report : Report D}
    (h : member report.place = member place) :
    messagesAt place (reports ++ [report]) = messagesAt place reports ++ [report.message] := by
  simp [messagesAt, h]

theorem messagesAt_append_of_ne {place : Place} {reports : List (Report D)} {report : Report D}
    (h : member report.place ≠ member place) :
    messagesAt place (reports ++ [report]) = messagesAt place reports := by
  simp [messagesAt, h]

theorem sumsUp_congr {target target' : Json Text D} {messages : List (Json Text D)}
    (h : SumsUp target messages) (hobject : target'.isObject)
    (hfind : target'.find "error".toList = target.find "error".toList) :
    SumsUp target' messages where
  isObject := hobject
  none hnil := hfind.trans (h.none hnil)
  some first rest hlist := by
    obtain ⟨error, herror, hrest⟩ := h.some first rest hlist
    exact ⟨error, hfind.trans herror, hrest⟩

variable {res₀ res : Reported D} {reports : List (Report D)}

theorem collects_perform (h : Collects res₀ res reports) {report : Report D}
    (hmessage : IsMessage report.message) : ∃ res',
      report.perform res = .ok res' ∧ Collects res₀ res' (reports ++ [report]) := by
  -- the member of the report, by the kind of its place
  have hadd : ∃ target', report.place.add res.jsonValue report.message = .ok target' ∧
      SumsUp target' (messagesAt .error (reports ++ [report])) ∧
      (report.place ≠ .error →
        target'.find (member report.place) =
          listed (messagesAt report.place (reports ++ [report]))) := by
    by_cases hplace : report.place = .error
    · obtain ⟨target', hadd, hsum⟩ := sumsUp_add h.error hmessage
      refine ⟨target', ?_, ?_, fun hne => (hne hplace).elim⟩
      · rw [hplace]
        exact hadd
      · rw [messagesAt_append_of_eq (congrArg member hplace)]
        exact hsum
    · obtain ⟨target', hadd, hlisted⟩ :=
        add_listed hplace h.error.isObject (h.annotation _ hplace) report.message
      obtain ⟨hobject, hothers⟩ := add_others hadd
      refine ⟨target', hadd, ?_, fun _ => ?_⟩
      · rw [messagesAt_append_of_ne (member_ne_error hplace)]
        exact sumsUp_congr h.error hobject (hothers _ (member_ne_error hplace).symm)
      · rw [messagesAt_append_of_eq rfl]
        exact hlisted
  obtain ⟨target', hadd, hsum, hlisted⟩ := hadd
  obtain ⟨-, hothers⟩ := add_others hadd
  refine ⟨_, bind_ok.2 ⟨target', hadd, rfl⟩, ?_, ?_, hsum, fun place hplace => ?_, fun name hname =>
    ?_⟩
  · change report.result.getD res.result = _
    rw [h.result, List.filterMap_append, List.getLast?_append]
    cases hresult : report.result <;> simp [hresult]
  · change res.retryAfter ++ report.retryAfter.toList = _
    rw [h.retryAfter, List.filterMap_append, List.append_assoc]
    cases hretry : report.retryAfter <;> simp [hretry]
  · by_cases hmember : member report.place = member place
    · have hreport : report.place ≠ .error := by
        intro herror
        rw [herror] at hmember
        exact member_ne_error hplace hmember.symm
      rw [← hmember, hlisted hreport, messagesAt_append_of_eq rfl, messagesAt_append_of_eq hmember]
      simp only [messagesAt, hmember]
    · rw [messagesAt_append_of_ne hmember]
      exact (hothers _ (Ne.symm hmember)).trans (h.annotation place hplace)
  · rw [hothers name (hname report (List.mem_append_right _ (List.mem_singleton_self _))).symm]
    exact h.others name fun report' hreport => hname report' (List.mem_append_left _ hreport)

theorem collects_run (h : Collects res₀ res reports) {more : List (Report D)}
    (hmore : ∀ report ∈ more, IsMessage report.message) : ∃ res',
      more.foldlM (fun res report => report.perform res) res = .ok res' ∧
        Collects res₀ res' (reports ++ more) := by
  induction more generalizing res reports with
  | nil =>
    refine ⟨res, rfl, ?_⟩
    rwa [List.append_nil]
  | cons report more ih =>
    rw [List.forall_mem_cons] at hmore
    obtain ⟨res₁, hreport, h₁⟩ := collects_perform h hmore.1
    obtain ⟨res', hrun, h'⟩ := ih h₁ hmore.2
    rw [List.append_assoc] at h'
    exact ⟨res', bind_ok.2 ⟨res₁, hreport, hrun⟩, h'⟩

variable (dump : ℤ → Json Text D → Text)

theorem report_message (b : MessageBuilders.Builder D) :
    ((Reporter.builder b).report dump).message = b.message dump := by
  cases b <;> rfl

theorem isMessage_builder (b : MessageBuilders.Builder D) : IsMessage (b.message dump) := by
  by_cases h : ∀ arg1, b ≠ .chassisPowerStateOnRequired arg1
  · obtain ⟨name, hname, -⟩ := MessageBuilders.message_eq_getLog dump b h
    rw [hname]
    exact MessageBuilders.isMessage_getLog name _
  · push Not at h
    obtain ⟨arg1, rfl⟩ := h
    exact MessageBuilders.isMessage_getLog .resetRequired [arg1]

theorem isMessage_report (call : Reporter D) : IsMessage (call.report dump).message := by
  cases call with
  | builder b =>
    rw [report_message]
    exact isMessage_builder dump b
  | invalidUpload arg1 arg2 => exact ⟨rfl, rfl⟩

theorem result_report (call : Reporter D) :
    if call.leavesResult then (call.report dump).result = none
    else ∃ result, (call.report dump).result = some result ∧
      call.succeeds = decide (result < 400) := by
  cases call with
  | builder b =>
    cases b
    all_goals first | exact rfl | exact ⟨_, rfl, rfl⟩
  | invalidUpload arg1 arg2 => exact ⟨_, rfl, rfl⟩

theorem failed_iff {start : ℕ} (hstart : start < 400) (calls : List (Reporter D)) :
    400 ≤ ((calls.map (Reporter.report dump)).filterMap Report.result).getLast?.getD start ↔
      ∃ call, (calls.filter fun call => !call.leavesResult).getLast? = some call ∧
        call.succeeds = false := by
  induction calls using List.reverseRecOn with
  | nil => simpa using hstart
  | append_singleton calls call ih =>
    have hcall := result_report dump call
    rw [List.map_append, List.filterMap_append, List.filter_append, List.getLast?_append,
      List.getLast?_append]
    by_cases hleaves : call.leavesResult
    · rw [if_pos hleaves] at hcall
      simpa [hcall, hleaves] using ih
    · rw [if_neg hleaves] at hcall
      obtain ⟨result, hresult, hfails⟩ := hcall
      simp [hresult, hleaves, hfails]

theorem Collects.congr {start start' : Reported D} (h : Collects start res reports)
    (hresult : start.result = start'.result) (hretry : start.retryAfter = start'.retryAfter)
    (hfind : ∀ name, start.jsonValue.find name = start'.jsonValue.find name) :
    Collects start' res reports where
  result := hresult ▸ h.result
  retryAfter := hretry ▸ h.retryAfter
  error := h.error
  annotation := h.annotation
  others name hname := (h.others name hname).trans (hfind name)

theorem collects_nil (hobject : res₀.jsonValue.isObject)
    (hfresh : ∀ place, res₀.jsonValue.find (member place) = none) : Collects res₀ res₀ [] where
  result := rfl
  retryAfter := (List.append_nil _).symm
  error := ⟨hobject, fun _ => hfresh .error, nofun⟩
  annotation place _ := hfresh place
  others _ _ := rfl

structure Fresh (res₀ : Reported D) : Prop where
  indexable : Indexable res₀.jsonValue
  members : ∀ place, res₀.jsonValue.find (member place) = none

theorem Fresh.collects (h : Fresh res₀) (hne : reports ≠ [])
    (hmessages : ∀ report ∈ reports, IsMessage report.message) : ∃ res,
      reports.foldlM (fun res report => report.perform res) res₀ = .ok res ∧
        Collects res₀ res reports := by
  rcases h.indexable with hnull | hobject
  · -- the first report takes null for an empty object
    obtain ⟨res, hrun, hres⟩ := collects_run
      (@collects_nil D { res₀ with jsonValue := .object [] } rfl fun _ => rfl) hmessages
    obtain ⟨report, reports, rfl⟩ := List.exists_cons_of_ne_nil hne
    refine ⟨res, ?_, hres.congr rfl rfl fun name => ?_⟩
    · rw [← hrun, List.foldlM_cons, List.foldlM_cons, Report.perform, Report.perform, hnull,
        add_null]
    · rw [hnull]
      rfl
  · exact collects_run (collects_nil hobject h.members) hmessages

/-- A response without messages, to which handlers report, has each message at its
place, in order, and says that the request failed if and only if the last call to set a
status does. -/
theorem reporters_collect (hfresh : Fresh res₀) {calls : List (Reporter D)} (hcalls : calls ≠ []) :
    ∃ res, (calls.map (Reporter.report dump)).foldlM (fun res report => report.perform res) res₀ =
        .ok res ∧ Collects res₀ res (calls.map (Reporter.report dump)) ∧
      (res₀.result < 400 → (400 ≤ res.result ↔
        ∃ call, (calls.filter fun call => !call.leavesResult).getLast? = some call ∧
          call.succeeds = false)) := by
  have hmessages : ∀ report ∈ calls.map (Reporter.report dump), IsMessage report.message := by
    intro report hreport
    obtain ⟨call, -, rfl⟩ := List.mem_map.1 hreport
    exact isMessage_report dump call
  obtain ⟨res, hrun, hres⟩ := hfresh.collects (by simpa using hcalls) hmessages
  refine ⟨res, hrun, hres, fun hok => ?_⟩
  rw [hres.result]
  exact failed_iff dump hok calls

def sampleCalls : List (Reporter Unit) :=
  [.builder (.propertyUnknown "Id".toList), .builder .success,
    .builder (.passwordChangeRequired "/redfish/v1".toList)]

theorem reporters_collect_sample : ∃ res : Reported Unit,
    (sampleCalls.map (Reporter.report fun _ _ => [])).foldlM (fun res report => report.perform res)
      {} = .ok res ∧ 400 ≤ res.result := by
  have hcalls : sampleCalls ≠ [] := List.cons_ne_nil _ _
  have hfresh : Fresh ({} : Reported Unit) := ⟨.inl rfl, fun _ => rfl⟩
  obtain ⟨res, hrun, -, hfailed⟩ := reporters_collect (fun _ _ => []) hfresh hcalls
  have hok : ({} : Reported Unit).result < 400 := by decide
  exact ⟨res, hrun, (hfailed hok).2 ⟨_, rfl, rfl⟩⟩

end CrowCore.ReportRuns
