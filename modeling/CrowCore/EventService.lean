import CrowCore.EventManager
import CrowCore.RedfishRequests

set_option autoImplicit false

/-!
# The routes of the event service

A subscription is posted as JSON, of which only the destination is used.
-/
namespace CrowCore.EventService
open JsonValue JsonUtils JsonUnpacking JsonSchema ErrorMessages RedfishRequests EventManager

section Handlers
variable {D : Type}

/-- The keys, with the numbers of the strings that are read. -/
def subscriptionArgs : List (Text × UnpackType × ℕ) :=
  [("Destination".toList, .one .string, 0), ("DeliveryRetryPolicy".toList, .optional .string, 1),
    ("Protocol".toList, .one .string, 2), ("SubscriptionType".toList, .optional .string, 3)]

def subscriptionOutputs : Outputs D
  | 0 | 2 => .plain (.one (.string []))
  | _ => .optional none

def destUrl (outputs : Outputs D) : Text :=
  match outputs 0 with
  | .plain (.one (.string s)) => s
  | _ => []

variable (parse : Text → Json Text D) (ignoreContentType : Bool) (F : Doubles D)
  (dump : ℤ → Json Text D → Text) (grow : ℕ → ℕ) (isUrl : String → Bool)

def registerSubscriberUrl (req : RedfishRequests.Request) (res : Response D)
    (manager : EventServiceManager) : Except JsonError (Response D × EventServiceManager) := do
  let (ok, res, outputs) ←
    readJsonPatch parse ignoreContentType F dump req res subscriptionArgs subscriptionOutputs
  if !ok then return (res, manager)
  else return (res, manager.addSubscription grow (String.ofList (destUrl outputs)))

/-- The body says where to send events. Only annotations may stand beside the known names. -/
structure Subscribes (req : RedfishRequests.Request) (destination : Text) : Prop where
  type : acceptsType ignoreContentType req = true
  body : ∃ members, parse req.body = .object members ∧
    (∀ name val, (name, val) ∈ members → "@odata.".toList.isPrefixOf name = false →
      name ∈ subscriptionArgs.map Prod.fst ∧ ∃ s, val = .string s) ∧
    ("Destination".toList, .string destination) ∈ members ∧
    ∃ s, ("Protocol".toList, .string s) ∈ members

variable {parse ignoreContentType F dump}

theorem subscriptionArgs_apart : KeysApart (packVariant subscriptionArgs) where
  component := by decide
  prefixFree := by decide

theorem unpackedScalar_string (val : Json Text D) :
    unpackedScalar F .string val = match val with
      | .string s => some (.string s)
      | _ => none := by
  cases val <;> rfl

theorem unpacked_string {type : UnpackType} (htype : type = .one .string ∨ type = .optional .string)
    (val : Json Text D) : (unpacked F type val).isSome ↔ ∃ s, val = .string s := by
  rcases htype with rfl | rfl <;> cases val <;> simp [unpacked, unpackedScalar_string]

def subscriptionSpecs : List Spec :=
  [{ path := ["Destination".toList], type := .one .string, pointer := 0 },
    { path := ["DeliveryRetryPolicy".toList], type := .optional .string, pointer := 1 },
    { path := ["Protocol".toList], type := .one .string, pointer := 2 },
    { path := ["SubscriptionType".toList], type := .optional .string, pointer := 3 }]

theorem spec_subscriptionArgs : (packVariant subscriptionArgs).map spec = subscriptionSpecs := rfl

theorem subscriptionSpecs_eq {s : Spec} (hs : s ∈ subscriptionSpecs) :
    (s.type = .one .string ∨ s.type = .optional .string) ∧
      ∃ name ∈ subscriptionArgs.map Prod.fst, s.path = [name] := by
  have hall : ∀ s ∈ subscriptionSpecs, (s.type = .one .string ∨ s.type = .optional .string) ∧
      ∃ name ∈ subscriptionArgs.map Prod.fst, s.path = [name] := by decide
  exact hall s hs

theorem below_subscriptionSpecs (name : Text) : below name subscriptionSpecs = [] := by
  rw [below, List.map_eq_nil_iff, List.filter_eq_nil_iff]
  rintro s hs hboth
  obtain ⟨-, name', -, hpath⟩ := subscriptionSpecs_eq hs
  rw [hpath] at hboth
  simp at hboth

theorem memberFits_iff (name : Text) (val : Json Text D) :
    ((∃ s ∈ subscriptionSpecs, s.path = [name] ∧ (unpacked F s.type val).isSome) ∨
      (below name subscriptionSpecs ≠ [] ∧ Fits F (below name subscriptionSpecs) val)) ↔
        name ∈ subscriptionArgs.map Prod.fst ∧ ∃ s, val = .string s := by
  rw [or_iff_left fun h => h.1 (below_subscriptionSpecs name)]
  constructor
  · rintro ⟨s, hs, hpath, hsome⟩
    obtain ⟨htype, name', hname, hpath'⟩ := subscriptionSpecs_eq hs
    obtain rfl := List.singleton_inj.1 (hpath'.symm.trans hpath)
    exact ⟨hname, (unpacked_string htype val).1 hsome⟩
  · rintro ⟨hname, hstring⟩
    have hall : ∀ name ∈ subscriptionArgs.map Prod.fst,
        ∃ s ∈ subscriptionSpecs, s.path = [name] := by
      decide
    obtain ⟨s, hs, hpath⟩ := hall name hname
    exact ⟨s, hs, hpath, (unpacked_string (subscriptionSpecs_eq hs).1 val).2 hstring⟩

variable {members : List (Text × Json Text D)}

theorem lookupPath_name (name : Text) :
    Json.lookupPath [name] (.object members) = members.lookup name := by
  change (members.lookup name).bind (Json.lookupPath []) = _
  cases members.lookup name <;> rfl

theorem required_iff (hunique : (members.map Prod.fst).Nodup) :
    Required subscriptionSpecs (.object members) ↔
      (∃ val, ("Destination".toList, val) ∈ members) ∧
        ∃ val, ("Protocol".toList, val) ∈ members := by
  have hlookup : ∀ name : Text, (Json.lookupPath [name] (.object members)).isSome ↔
      ∃ val, (name, val) ∈ members := by
    intro name
    rw [lookupPath_name, Option.isSome_iff_exists]
    exact exists_congr fun val => lookup_eq_some hunique
  rw [← hlookup, ← hlookup]
  simp [Required, subscriptionSpecs, UnpackType.isOptional]

theorem reads_subscription (hunique : (members.map Prod.fst).Nodup) :
    Reads F subscriptionArgs (.object members) ↔
      (∀ name val, (name, val) ∈ members →
        name ∈ subscriptionArgs.map Prod.fst ∧ ∃ s, val = .string s) ∧
      (∃ s, ("Destination".toList, .string s) ∈ members) ∧
        ∃ s, ("Protocol".toList, .string s) ∈ members := by
  rw [Reads, spec_subscriptionArgs, Fits, membersFit_iff, required_iff hunique]
  simp only [memberFits_iff]
  refine and_congr_right fun hall => and_congr ⟨?_, ?_⟩ ⟨?_, ?_⟩
  · rintro ⟨val, hval⟩
    obtain ⟨-, s, rfl⟩ := hall _ _ hval
    exact ⟨s, hval⟩
  · rintro ⟨s, hs⟩
    exact ⟨.string s, hs⟩
  · rintro ⟨val, hval⟩
    obtain ⟨-, s, rfl⟩ := hall _ _ hval
    exact ⟨s, hval⟩
  · rintro ⟨s, hs⟩
    exact ⟨.string s, hs⟩

theorem mem_withoutAnnotations (name : Text) (val : Json Text D) :
    (name, val) ∈ withoutAnnotations members ↔
      (name, val) ∈ members ∧ "@odata.".toList.isPrefixOf name = false := by
  rw [withoutAnnotations, List.mem_filter, Bool.not_eq_true']

theorem patched_object (members : List (Text × Json Text D)) : patched (.object members) =
    if withoutAnnotations members = [] then none
    else some (.object (withoutAnnotations members)) := rfl

theorem isPrefixOf_destination : "@odata.".toList.isPrefixOf "Destination".toList = false := by
  decide

theorem isPrefixOf_protocol : "@odata.".toList.isPrefixOf "Protocol".toList = false := by decide

theorem subscribes_iff {req : RedfishRequests.Request} (hunique : Unique (parse req.body)) :
    (∃ destination, Subscribes parse ignoreContentType req destination) ↔
      acceptsType ignoreContentType req = true ∧
        ∃ json, patched (parse req.body) = some json ∧ Reads F subscriptionArgs json := by
  constructor
  · rintro ⟨destination, htype, members, hbody, hall, hdestination, s, hprotocol⟩
    have hmem : ("Destination".toList, Json.string destination) ∈ withoutAnnotations members :=
      (mem_withoutAnnotations _ _).2 ⟨hdestination, isPrefixOf_destination⟩
    rw [hbody] at hunique
    refine ⟨htype, .object (withoutAnnotations members), ?_, ?_⟩
    · rw [hbody, patched_object, if_neg (List.ne_nil_of_mem hmem)]
    · refine (reads_subscription (unique_withoutAnnotations hunique).1).2 ⟨?_, ⟨_, hmem⟩, s, ?_⟩
      · intro name val hval
        obtain ⟨hval, hname⟩ := (mem_withoutAnnotations name val).1 hval
        exact hall name val hval hname
      · exact (mem_withoutAnnotations _ _).2 ⟨hprotocol, isPrefixOf_protocol⟩
  · rintro ⟨htype, json, hpatched, hreads⟩
    cases hbody : parse req.body with
    | object members =>
      rw [hbody] at hunique
      rw [hbody, patched_object] at hpatched
      split_ifs at hpatched
      obtain rfl := Option.some.inj hpatched
      obtain ⟨hall, ⟨destination, hdestination⟩, s, hprotocol⟩ :=
        (reads_subscription (unique_withoutAnnotations hunique).1).1 hreads
      refine ⟨destination, htype, members, hbody, fun name val hval hname => ?_, ?_, s, ?_⟩
      · exact hall name val ((mem_withoutAnnotations name val).2 ⟨hval, hname⟩)
      · exact ((mem_withoutAnnotations _ _).1 hdestination).1
      · exact ((mem_withoutAnnotations _ _).1 hprotocol).1
    | _ =>
      rw [hbody] at hpatched
      cases hpatched

theorem destUrl_of_filled {json : Json Text D} {outputs outputs' : Outputs D}
    (h : Filled F subscriptionSpecs json outputs outputs') {destination : Text}
    (hlookup : json.lookupPath ["Destination".toList] = some (.string destination)) :
    destUrl outputs' = destination := by
  have hpresent := h.present _ List.mem_cons_self _ hlookup
  have hvalue : some (Output.plain (.one (.string destination))) = some (outputs' 0) := hpresent
  rw [destUrl, ← Option.some.inj hvalue]

variable {req : RedfishRequests.Request}

theorem posted_decides (hunique : Unique (parse req.body)) (res : Response D) :
    Decides (readJsonPatch parse ignoreContentType F dump req res subscriptionArgs
      subscriptionOutputs) outcome res
      (∃ destination, Subscribes parse ignoreContentType req destination)
      (fun a => ∀ json, patched (parse req.body) = some json →
        Delivers F subscriptionArgs json subscriptionOutputs a.2.2) := by
  rw [subscribes_iff hunique]
  exact decides_readJsonPatch parse ignoreContentType subscriptionArgs_apart hunique res
    subscriptionOutputs

theorem posted_accepted (hunique : Unique (parse req.body)) (res : Response D)
    (manager : EventServiceManager) {destination : Text}
    (hsubscribes : Subscribes parse ignoreContentType req destination) :
    registerSubscriberUrl parse ignoreContentType F dump grow req res manager =
      .ok (res, manager.addSubscription grow (String.ofList destination)) := by
  have hdecides := @posted_decides D parse ignoreContentType F dump req hunique res
  obtain ⟨⟨ok, res', outputs⟩, hcall, hview, hdelivers⟩ :=
    hdecides.accepts ⟨destination, hsubscribes⟩
  obtain ⟨rfl, rfl⟩ := Prod.mk.inj hview
  obtain ⟨-, members, hbody, -, hdestination, -⟩ := hsubscribes
  have hmem : ("Destination".toList, Json.string destination) ∈ withoutAnnotations members :=
    (mem_withoutAnnotations _ _).2 ⟨hdestination, isPrefixOf_destination⟩
  have hpatched : patched (parse req.body) = some (.object (withoutAnnotations members)) := by
    rw [hbody, patched_object, if_neg (List.ne_nil_of_mem hmem)]
  have hdistinct : Distinct subscriptionSpecs := by
    unfold Distinct
    decide
  have hvectors : EmptyVectors (D := D) subscriptionSpecs subscriptionOutputs := by
    intro s hs hvector
    rcases (subscriptionSpecs_eq hs).1 with htype | htype <;>
      rw [htype] at hvector <;> cases hvector
  have hfilled := hdelivers _ hpatched hdistinct hvectors
  rw [hbody] at hunique
  have hlookup := (lookup_eq_some (unique_withoutAnnotations hunique).1).2 hmem
  rw [registerSubscriberUrl, hcall]
  change Except.ok (_, manager.addSubscription grow (String.ofList (destUrl outputs))) = _
  rw [destUrl_of_filled hfilled ((lookupPath_name _).trans hlookup)]

theorem posted_refused (hunique : Unique (parse req.body)) (res : Response D)
    (manager : EventServiceManager)
    (hnone : ¬ ∃ destination, Subscribes parse ignoreContentType req destination)
    {res' : Response D} {manager' : EventServiceManager}
    (hcall : registerSubscriberUrl parse ignoreContentType F dump grow req res manager =
      .ok (res', manager')) : res'.result = badRequest ∧ manager' = manager := by
  obtain ⟨⟨ok, res₁, outputs⟩, hread, hcall⟩ := bind_ok.1 hcall
  obtain ⟨hok, hbad⟩ := (posted_decides hunique res).rejects hnone _ hread
  obtain rfl : ok = false := hok
  obtain ⟨rfl, rfl⟩ := Prod.mk.inj (Except.ok.inj hcall)
  exact ⟨hbad, rfl⟩

theorem posted_returns (hunique : Unique (parse req.body)) {res : Response D}
    (htakes : TakesMessages res.jsonValue) (manager : EventServiceManager) :
    ∃ result, registerSubscriberUrl parse ignoreContentType F dump grow req res manager =
      .ok result := by
  have hdecides := @posted_decides D parse ignoreContentType F dump req hunique res
  obtain ⟨⟨ok, res₁, outputs⟩, hread, -⟩ := hdecides.returns htakes
  rw [registerSubscriberUrl, hread]
  cases ok
  · exact ⟨_, rfl⟩
  · exact ⟨_, rfl⟩

/-- A subscription is added, with its destination as it was posted, if and only if the body
has a destination and a protocol and all that it has are strings of the known names. Else the
request was bad and the subscriptions stay. -/
theorem subscription_posted (hunique : Unique (parse req.body)) (res : Response D)
    (manager : EventServiceManager) :
    (∀ destination, Subscribes parse ignoreContentType req destination →
      registerSubscriberUrl parse ignoreContentType F dump grow req res manager =
        .ok (res, manager.addSubscription grow (String.ofList destination))) ∧
    ((¬ ∃ destination, Subscribes parse ignoreContentType req destination) →
      ∀ res' manager', registerSubscriberUrl parse ignoreContentType F dump grow req res manager =
        .ok (res', manager') → res'.result = badRequest ∧ manager' = manager) ∧
    (TakesMessages res.jsonValue → ∃ result,
      registerSubscriberUrl parse ignoreContentType F dump grow req res manager = .ok result) := by
  exact ⟨fun _ => posted_accepted grow hunique res manager,
    fun hnone _ _ => posted_refused grow hunique res manager hnone,
    fun htakes => posted_returns grow hunique htakes manager⟩

end Handlers

section Service
variable {D : Type}

inductive Event where
  /-- a POST of a subscription -/
  | subscribe (req : RedfishRequests.Request)
  /-- a POST of the action `EventService.SubmitTestEvent` -/
  | submitTestEvent
  /-- an event of the loop for a subscriber -/
  | loop (k : ℕ) (event : Subscriber.Event)

variable (parse : Text → Json Text D) (ignoreContentType : Bool) (F : Doubles D)
  (dump : ℤ → Json Text D → Text) (grow : ℕ → ℕ) (isUrl : String → Bool)

/-- The handler of `SubmitTestEvent`; there is no response where an exception was thrown. -/
def submitTestEvent (res : Response D) (manager : EventServiceManager) :
    Option (Response D) × EventServiceManager :=
  let manager := manager.sendEvent isUrl
  if manager.fault = some .exception then (none, manager)
  else (some { res with result := 204 }, manager)

def step (manager : EventServiceManager) : Event → Option EventServiceManager
  | .subscribe req =>
    if manager.fault.isSome then none
    else
      match registerSubscriberUrl parse ignoreContentType F dump grow req {} manager with
      | .ok (_, manager) => some manager
      | .error _ => none
  | .submitTestEvent =>
    if manager.fault.isSome then none
    else some (submitTestEvent isUrl ({} : Response D) manager).2
  | .loop k event => manager.step isUrl grow (.loop k event)

variable {parse ignoreContentType F dump grow isUrl} {m m' : EventServiceManager}

def Accepted (parse : Text → Json Text D) (ignoreContentType : Bool) (events : List Event)
    (url : String) : Prop :=
  ∃ req destination, .subscribe req ∈ events ∧
    Subscribes parse ignoreContentType req destination ∧ url = String.ofList destination

theorem accepted_cons {event : Event} {events : List Event} {url : String} :
    Accepted parse ignoreContentType (event :: events) url ↔
      (∃ req destination, event = .subscribe req ∧
        Subscribes parse ignoreContentType req destination ∧ url = String.ofList destination) ∨
      Accepted parse ignoreContentType events url := by
  constructor
  · rintro ⟨req, destination, hmem, h⟩
    rcases List.mem_cons.1 hmem with rfl | hmem
    · exact .inl ⟨req, destination, rfl, h⟩
    · exact .inr ⟨req, destination, hmem, h⟩
  · rintro (⟨req, destination, rfl, h⟩ | ⟨req, destination, hmem, h⟩)
    · exact ⟨req, destination, List.mem_cons_self, h⟩
    · exact ⟨req, destination, List.mem_cons_of_mem _ hmem, h⟩

theorem submitTestEvent_manager (res : Response D) (m : EventServiceManager) :
    (submitTestEvent isUrl res m).2 = m.sendEvent isUrl := by
  unfold submitTestEvent
  dsimp only
  split_ifs <;> rfl

theorem subscribes_unique {req : RedfishRequests.Request} (hunique : Unique (parse req.body))
    {destination destination' : Text} (h : Subscribes parse ignoreContentType req destination)
    (h' : Subscribes parse ignoreContentType req destination') : destination = destination' := by
  obtain ⟨-, members, hbody, -, hmem, -⟩ := h
  obtain ⟨-, members', hbody', -, hmem', -⟩ := h'
  obtain rfl := Json.object.inj (hbody.symm.trans hbody')
  rw [hbody] at hunique
  have hlookup := (lookup_eq_some hunique.1).2 hmem
  exact Json.string.inj (Option.some.inj (hlookup.symm.trans ((lookup_eq_some hunique.1).2 hmem')))

theorem manager_step (hparse : ∀ text, Unique (parse text)) {event : Event}
    (h : step parse ignoreContentType F dump grow isUrl m event = some m') :
    ∃ events, GuardedRuns.run (EventServiceManager.step isUrl grow) m events = some m' ∧
      ∀ url, url ∈ destinations events ↔ ∃ req destination, event = .subscribe req ∧
        Subscribes parse ignoreContentType req destination ∧ url = String.ofList destination := by
  have hone : ∀ managerEvent, m.step isUrl grow managerEvent = some m' →
      GuardedRuns.run (EventServiceManager.step isUrl grow) m [managerEvent] = some m' := by
    intro managerEvent hstep
    rw [GuardedRuns.run_cons, hstep]
    rfl
  cases event with
  | subscribe req =>
    rw [step] at h
    split_ifs at h with hfault
    split at h
    · rename_i result manager hcall
      obtain rfl := Option.some.inj h
      by_cases hsubscribes : ∃ destination, Subscribes parse ignoreContentType req destination
      · obtain ⟨destination, hsubscribes⟩ := hsubscribes
        have haccepted := hcall.symm.trans (posted_accepted grow (hparse req.body) {} m hsubscribes)
        obtain ⟨-, rfl⟩ := Prod.mk.inj (Except.ok.inj haccepted)
        refine ⟨[.addSubscription (String.ofList destination)], hone _ ?_, fun url => ?_⟩
        · unfold EventServiceManager.step
          rw [if_neg hfault]
        · change url ∈ [String.ofList destination] ↔ _
          rw [List.mem_singleton]
          constructor
          · exact fun hurl => ⟨req, destination, rfl, hsubscribes, hurl⟩
          · rintro ⟨req', destination', heq, h, rfl⟩
            obtain rfl := Event.subscribe.inj heq
            rw [subscribes_unique (hparse req.body) h hsubscribes]
      · obtain ⟨-, rfl⟩ := posted_refused grow (hparse req.body) {} m hsubscribes hcall
        refine ⟨[], rfl, fun url => iff_of_false List.not_mem_nil ?_⟩
        rintro ⟨req', destination, heq, h, -⟩
        obtain rfl := Event.subscribe.inj heq
        exact hsubscribes ⟨destination, h⟩
    · cases h
  | submitTestEvent =>
    rw [step] at h
    split_ifs at h with hfault
    refine ⟨[.sendEvent], hone _ ?_, fun url => iff_of_false List.not_mem_nil ?_⟩
    · unfold EventServiceManager.step
      rw [if_neg hfault, ← h]
      exact congrArg some (submitTestEvent_manager {} m).symm
    · rintro ⟨req, destination, heq, -⟩
      cases heq
  | loop k event =>
    refine ⟨[.loop k event], hone _ h, fun url => iff_of_false List.not_mem_nil ?_⟩
    rintro ⟨req, destination, heq, -⟩
    cases heq

theorem manager_run (hparse : ∀ text, Unique (parse text)) {events : List Event}
    (h : GuardedRuns.run (step parse ignoreContentType F dump grow isUrl) m events = some m') :
    ∃ managerEvents, GuardedRuns.run (EventServiceManager.step isUrl grow) m managerEvents =
      some m' ∧
      ∀ url, url ∈ destinations managerEvents ↔ Accepted parse ignoreContentType events url := by
  induction events generalizing m with
  | nil =>
    obtain rfl := Option.some.inj h
    refine ⟨[], rfl, fun url => iff_of_false List.not_mem_nil ?_⟩
    rintro ⟨req, destination, hmem, -⟩
    cases hmem
  | cons event events ih =>
    obtain ⟨mid, hstep, hrest⟩ := Option.bind_eq_some_iff.1 h
    obtain ⟨first, hfirst, hfirstUrls⟩ := manager_step hparse hstep
    obtain ⟨later, hlater, hlaterUrls⟩ := ih hrest
    refine ⟨first ++ later, ?_, fun url => ?_⟩
    · rw [GuardedRuns.run_append, hfirst]
      exact hlater
    · rw [destinations, List.filterMap_append, List.mem_append, accepted_cons]
      exact or_congr (hfirstUrls url) (hlaterUrls url)

/-- After any run of the service, `SubmitTestEvent` is answered if and only if every destination
that was accepted is a URL. Then each subscriber has got the event; else the process has ended,
and those from the first such destination on have got nothing. -/
theorem submit_answered_iff (hparse : ∀ text, Unique (parse text)) {events : List Event}
    (hrun : GuardedRuns.run (step parse ignoreContentType F dump grow isUrl) {} events = some m)
    (hfault : m.fault = none) (res : Response D) :
    let submitted := submitTestEvent isUrl res m
    (submitted.1 = some { res with result := 204 } ↔
      ∀ url, Accepted parse ignoreContentType events url → isUrl url = true) ∧
    (submitted.1 = none ↔ ∃ url, Accepted parse ignoreContentType events url ∧ isUrl url = false) ∧
    submitted.2.subscribers =
      (m.subscribers.takeWhile fun element => isUrl element.destUrl).map
          (Element.sendEvent m.buffer) ++
        m.subscribers.dropWhile fun element => isUrl element.destUrl := by
  intro submitted
  obtain ⟨managerEvents, hmanager, hurls⟩ := manager_run hparse hrun
  obtain ⟨m', hstep, hends, hsubscribers⟩ :=
    invalid_destination_ends isUrl grow hmanager hfault
  have hm' : m.sendEvent isUrl = m' := by
    unfold EventServiceManager.step at hstep
    rw [hfault] at hstep
    exact Option.some.inj hstep
  have hall : (destinations managerEvents).all isUrl = true ↔
      ∀ url, Accepted parse ignoreContentType events url → isUrl url = true := by
    rw [List.all_eq_true]
    exact forall_congr' fun url => by rw [hurls]
  have hsubmitted : submitted.1 = if (destinations managerEvents).all isUrl = true then
      some { res with result := 204 } else none := by
    change (submitTestEvent isUrl res m).1 = _
    unfold submitTestEvent
    dsimp only
    rw [hm', hends]
    cases (destinations managerEvents).all isUrl <;> rfl
  refine ⟨?_, ?_, ?_⟩
  · rw [hsubmitted, ← hall]
    split_ifs with h
    · exact iff_of_true rfl h
    · exact iff_of_false nofun h
  · have hex : (∃ url, Accepted parse ignoreContentType events url ∧ isUrl url = false) ↔
        ¬ (destinations managerEvents).all isUrl = true := by
      rw [hall]
      push Not
      simp only [Bool.not_eq_true]
    rw [hsubmitted, hex]
    split_ifs with h
    · exact iff_of_false nofun (not_not_intro h)
    · exact iff_of_true rfl h
  · rw [← hsubscribers, ← hm', ← submitTestEvent_manager res m]

end Service

def sampleText : Text :=
  "\x7b\"Destination\":\"events\",\"Protocol\":\"Redfish\"\x7d".toList

def sampleMembers : List (Text × Json Text Unit) :=
  [("Destination".toList, .string "events".toList), ("Protocol".toList, .string "Redfish".toList)]

def sampleParse (text : Text) : Json Text Unit :=
  if text = sampleText then .object sampleMembers else .discarded

def sampleRequest : RedfishRequests.Request :=
  { contentType := "application/json".toList, body := sampleText }

theorem sampleParse_unique (text : Text) : Unique (sampleParse text) := by
  rw [sampleParse]
  split_ifs
  · simp [sampleMembers, JsonValue.Unique, UniqueMembers]
  · trivial

theorem sampleRequest_subscribes : Subscribes sampleParse false sampleRequest "events".toList where
  type := by decide
  body := by
    refine ⟨sampleMembers, if_pos rfl, fun name val hmem _ => ?_, List.mem_cons_self,
      "Redfish".toList, List.mem_cons_of_mem _ List.mem_cons_self⟩
    rcases List.mem_cons.1 hmem with heq | hmem
    · obtain ⟨rfl, rfl⟩ := Prod.mk.inj heq
      exact ⟨by decide, _, rfl⟩
    · obtain ⟨rfl, rfl⟩ := Prod.mk.inj (List.mem_singleton.1 hmem)
      exact ⟨by decide, _, rfl⟩

theorem subscription_posted_sample : registerSubscriberUrl sampleParse false sampleDoubles
    (fun _ _ => []) doubled sampleRequest {} {} =
      .ok ({},
        ({} : EventServiceManager).addSubscription doubled (String.ofList "events".toList)) :=
  (subscription_posted doubled (sampleParse_unique sampleRequest.body) {} {}).1 _
    sampleRequest_subscribes

/-- The subscription is accepted, and the test event has no answer. -/
theorem submit_answered_iff_sample : ∃ m,
    GuardedRuns.run (step sampleParse false sampleDoubles (fun _ _ => []) doubled
      (· == "https://a/")) {} [.subscribe sampleRequest] = some m ∧
        (submitTestEvent (· == "https://a/") ({} : Response Unit) m).1 = none := by
  let m := ({} : EventServiceManager).addSubscription doubled (String.ofList "events".toList)
  have hcall : registerSubscriberUrl sampleParse false sampleDoubles (fun _ _ => []) doubled
      sampleRequest {} {} = .ok ({}, m) :=
    posted_accepted doubled (sampleParse_unique sampleRequest.body) {} {} sampleRequest_subscribes
  have hstep : step sampleParse false sampleDoubles (fun _ _ => []) doubled (· == "https://a/") {}
      (.subscribe sampleRequest) = some m := by
    rw [step, if_neg (by decide), hcall]
  have hrun : GuardedRuns.run (step sampleParse false sampleDoubles (fun _ _ => []) doubled
      (· == "https://a/")) {} [.subscribe sampleRequest] = some m := by
    rw [GuardedRuns.run_cons, hstep]
    rfl
  have hsubmit := submit_answered_iff sampleParse_unique hrun rfl ({} : Response Unit)
  have hnot : (String.ofList "events".toList == "https://a/") = false := by decide
  exact ⟨m, hrun, hsubmit.2.1.2 ⟨_, ⟨sampleRequest, _, List.mem_cons_self, sampleRequest_subscribes,
    rfl⟩, hnot⟩⟩

end CrowCore.EventService
