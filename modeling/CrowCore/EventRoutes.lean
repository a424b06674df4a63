import CrowCore.EventService
import CrowCore.RequestHandling
import CrowCore.RouteEntries

set_option autoImplicit false

/-!
# Requests to the event service

The plugin registers its routes with the application. Which requests reach the event
service is decided by the router, and what they do there by their bodies.
-/
namespace CrowCore.EventRoutes
open JsonValue RoutingTrie RoutingTrieBuild RoutingTrieJoin RoutingTrieCorrect ParameterTags Routing
open RouteEntries
open RequestHandling hiding Request Response handle
open EventManager (EventServiceManager Element)
open EventService (registerSubscriberUrl submitTestEvent Subscribes)
open ErrorMessages (Response)

section Literal
variable {D : Type} {P : NumberParsers D}

theorem matches_literal {s url : Text} {values : List (Value D)} :
    Matches P (literal s) url values ↔ url = s ∧ values = [] := by
  constructor
  · intro h
    induction s generalizing url with
    | nil =>
      cases h with
      | nil => exact ⟨rfl, rfl⟩
    | cons c s ih =>
      cases h with
      | lit h =>
        obtain ⟨rfl, hvalues⟩ := ih h
        exact ⟨rfl, hvalues⟩
  · rintro ⟨rfl, rfl⟩
    induction url with
    | nil => exact .nil
    | cons c url ih => exact .lit ih

theorem ruleCaptures_literal {rule url : Text} (hliteral : '<' ∉ rule) {values : List (Value D)} :
    RuleCaptures P rule url values ↔ url = rule ∧ values = [] := by
  rw [← matches_literal (P := P)]
  constructor
  · rintro ⟨toks, hpattern, hmatches⟩
    rwa [pattern_unique hpattern (pattern_of_literal hliteral)] at hmatches
  · exact fun hmatches => ⟨_, pattern_of_literal hliteral, hmatches⟩

variable {allRules : List BaseRule} {url : Text} {index place : ℕ} {params : RoutingParams D}

theorem literal_of_entryUrl {rule entry : Text} (hliteral : '<' ∉ rule) (h : EntryUrl rule entry) :
    '<' ∉ entry := by
  cases h with
  | rule => exact hliteral
  | directory => exact fun hmem => hliteral (List.dropLast_subset rule hmem)

theorem captured_literal (hliteral : ∀ rule ∈ allRules, '<' ∉ rule.rule) :
    Captured P allRules url index place params ↔ params = {} ∧ ∃ rule,
      allRules[place]? = some rule ∧ rule.methodsBitfield.testBit index ∧
        EntryUrl rule.rule url := by
  constructor
  · rintro ⟨rule, entry, values, hplace, hbit, hentry, hcaptures, rfl⟩
    have hrule := hliteral rule (List.mem_of_getElem? hplace)
    obtain ⟨rfl, rfl⟩ := (ruleCaptures_literal (literal_of_entryUrl hrule hentry)).1 hcaptures
    exact ⟨rfl, rule, hplace, hbit, hentry⟩
  · rintro ⟨rfl, rule, hplace, hbit, hentry⟩
    have hrule := literal_of_entryUrl (hliteral rule (List.mem_of_getElem? hplace)) hentry
    exact ⟨rule, url, [], hplace, hbit, hentry, (ruleCaptures_literal hrule).2 ⟨rfl, rfl⟩, rfl⟩

end Literal

/-- `methods` of a rule: the last argument replaces the methods, the others are added. -/
def methods (rule : BaseRule) (method : Verb) : List Verb → BaseRule
  | [] =>
    match httpVerbFromBoost method with
    | none => rule
    | some verb => { rule with methodsBitfield := 1 <<< verb.toIndex }
  | arg :: argsMethod =>
    let rule := methods rule arg argsMethod
    match httpVerbFromBoost method with
    | none => rule
    | some verb => { rule with methodsBitfield := rule.methodsBitfield ||| 1 <<< verb.toIndex }

def postRoute (url : Text) : Option BaseRule :=
  (newRuleTagged (getParameterTag url) url).map fun rule =>
    { methods rule .post [] with hasHandler := true }

def subscriptionsUrl : Text := "/redfish/v2/EventService/Subscriptions/".toList
def submitTestEventUrl : Text :=
  "/redfish/v2/EventService/Actions/EventService.SubmitTestEvent/".toList
def testUrl : Text := "/redfish/v1/Test/".toList

def routeUrls : List Text := [subscriptionsUrl, submitTestEventUrl, testUrl]

/-- `registerSubscriberUrl`, `requestRoutesSubmitTestEvent` and `registerTestRoutes`. -/
def registerRoutes : Option (List BaseRule) := routeUrls.mapM postRoute

def pluginRules : List BaseRule :=
  routeUrls.map fun rule =>
    { rule, kind := .tagged [], methodsBitfield := 1 <<< HttpVerb.post.toIndex, hasHandler := true }

theorem registerRoutes_eq : registerRoutes = some pluginRules := by
  have hroute : ∀ url ∈ routeUrls, getParameterTag url = 0 := by decide +kernel
  refine ComponentRuns.mapM_of_forall fun url hurl => ?_
  rw [postRoute, hroute url hurl, newRuleTagged, arguments, dif_pos rfl]
  rfl

/-- The places of the routes that a path can belong to. -/
def ServedAt (path : Text) (place : ℕ) : Prop :=
  ∃ url, routeUrls[place]? = some url ∧ (path = url ∨ path = url.dropLast)

instance (path : Text) (place : ℕ) : Decidable (ServedAt path place) :=
  match h : routeUrls[place]? with
  | none => isFalse (by simp [ServedAt, h])
  | some url => decidable_of_iff (path = url ∨ path = url.dropLast) (by simp [ServedAt, h])

theorem literal_pluginRules : ∀ rule ∈ pluginRules, '<' ∉ rule.rule := by
  have hurls : ∀ url ∈ routeUrls, '<' ∉ url := by decide +kernel
  intro rule hrule
  obtain ⟨url, hurl, rfl⟩ := List.mem_map.1 hrule
  exact hurls url hurl

theorem entryUrl_iff {url path : Text} (hurl : url ∈ routeUrls) :
    EntryUrl url path ↔ path = url ∨ path = url.dropLast := by
  have hdirectory : ∀ url ∈ routeUrls, directoryCase url = true := by decide +kernel
  constructor
  · rintro (_ | _)
    · exact .inl rfl
    · exact .inr rfl
  · rintro (rfl | rfl)
    · exact .rule
    · exact .directory (hdirectory url hurl)

theorem captured_pluginRules {N : Type} {P : NumberParsers N} {path : Text} {index place : ℕ}
    {params : RoutingParams N} : Captured P pluginRules path index place params ↔
      params = {} ∧ index = HttpVerb.post.toIndex ∧ ServedAt path place := by
  have hbit : (1 <<< HttpVerb.post.toIndex).testBit index = true ↔
      index = HttpVerb.post.toIndex := by
    rw [Nat.one_shiftLeft, Nat.testBit_two_pow]
    simp [eq_comm]
  rw [captured_literal literal_pluginRules]
  refine and_congr_right fun _ => ?_
  rw [pluginRules, List.getElem?_map]
  constructor
  · rintro ⟨rule, hplace, hmethod, hentry⟩
    obtain ⟨url, hurl, rfl⟩ := Option.map_eq_some_iff.1 hplace
    exact ⟨hbit.1 hmethod, url, hurl, (entryUrl_iff (List.mem_of_getElem? hurl)).1 hentry⟩
  · rintro ⟨hindex, url, hurl, hpath⟩
    exact ⟨_, congrArg (Option.map _) hurl, hbit.2 hindex,
      (entryUrl_iff (List.mem_of_getElem? hurl)).2 hpath⟩

theorem servedAt_unique {path : Text} {place place' : ℕ} (h : ServedAt path place)
    (h' : ServedAt path place') : place = place' := by
  have hall : ∀ i < 3, ∀ j < 3, ∀ a ∈ routeUrls[i]?, ∀ b ∈ routeUrls[j]?,
      (a = b ∨ a = b.dropLast ∨ a.dropLast = b ∨ a.dropLast = b.dropLast) → i = j := by
    decide +kernel
  obtain ⟨url, hurl, hpath⟩ := h
  obtain ⟨url', hurl', hpath'⟩ := h'
  have hplace : place < 3 := (List.getElem?_eq_some_iff.1 hurl).1
  have hplace' : place' < 3 := (List.getElem?_eq_some_iff.1 hurl').1
  refine hall place hplace place' hplace' url hurl url' hurl' ?_
  rcases hpath with rfl | rfl
  · exact hpath'.imp_right .inl
  · exact .inr (.inr hpath')

section Routing
variable {N : Type} {P : NumberParsers N} {router : Router} {path : Text} {index : ℕ}

theorem matched_pluginRules : Matched P pluginRules path index ↔
    index = HttpVerb.post.toIndex ∧ ∃ place, ServedAt path place := by
  constructor
  · rintro ⟨place, params, hcaptured⟩
    obtain ⟨-, hindex, hserved⟩ := captured_pluginRules.1 hcaptured
    exact ⟨hindex, place, hserved⟩
  · rintro ⟨hindex, place, hserved⟩
    exact ⟨place, {}, captured_pluginRules.2 ⟨rfl, hindex, hserved⟩⟩

variable {req : RequestHandling.Request}

theorem handle_unknown (hverb : httpVerbFromBoost req.method = none) :
    RequestHandling.handle P router req false = .ok { result := some .not_found } := by
  rw [RequestHandling.handle, hverb]
  rfl

theorem handle_notServed (hval : (Router.validate { allRules := pluginRules }).Returns router)
    (hnone : ¬ ∃ place, ServedAt req.encodedPath place) :
    RequestHandling.handle P router req false = .ok { result := some .not_found } := by
  cases hverb : httpVerbFromBoost req.method with
  | none => exact handle_unknown hverb
  | some verb =>
    obtain ⟨route, found, last, h⟩ := lookups_validate P hval req.encodedPath
    have hmatched : ∀ index, ¬ Matched P pluginRules req.encodedPath index := fun index hmatched =>
      hnone (matched_pluginRules.1 hmatched).2
    have hfound : found = [] := h.found_eq_nil_iff.2 fun verb => hmatched verb.toIndex
    have hroute : (route verb).rule.isSome = false :=
      Bool.eq_false_of_not_eq_true ((h.matched verb).not.2 (hmatched _))
    have hlast : last.rule = none :=
      Option.not_isSome_iff_eq_none.1 (h.lastMatched.not.2 (hmatched _))
    rw [h.handle_eq hval hverb, hroute, if_neg Bool.false_ne_true, hfound, respond, hlast]
    rfl

theorem found_of_served {route : HttpVerb → FindRoute N} {found : List HttpVerb}
    {last : FindRoute N} (h : Lookups P pluginRules router path route found last)
    (hserved : ∃ place, ServedAt path place) :
    found = [.post] ∧ ∀ verb, (route verb).rule.isSome ↔ verb = .post := by
  have hsome : ∀ verb, (route verb).rule.isSome ↔ verb = .post := by
    intro verb
    rw [h.matched, matched_pluginRules, and_iff_left hserved]
    exact toIndex_injective.eq_iff
  refine ⟨?_, hsome⟩
  have hfilter : ∀ verb ∈ verbs, (route verb).rule.isSome = decide (verb = .post) := fun verb _ =>
    Bool.eq_iff_iff.2 ((hsome verb).trans decide_eq_true_iff.symm)
  rw [h.found_eq, List.filter_congr hfilter]
  rfl

theorem handle_notAllowed (hval : (Router.validate { allRules := pluginRules }).Returns router)
    {verb : HttpVerb} (hverb : httpVerbFromBoost req.method = some verb) (hpost : verb ≠ .post)
    (hserved : ∃ place, ServedAt req.encodedPath place) :
    RequestHandling.handle P router req false =
      .ok { result := some .method_not_allowed, allow := some "POST" } := by
  obtain ⟨route, found, last, h⟩ := lookups_validate P hval req.encodedPath
  obtain ⟨hfound, hsome⟩ := found_of_served h hserved
  have hroute : (route verb).rule.isSome = false :=
    Bool.eq_false_of_not_eq_true fun hsome' => hpost ((hsome verb).1 hsome')
  have hlast : last.rule = none := by
    refine Option.not_isSome_iff_eq_none.1 (h.lastMatched.not.2 fun hmatched => ?_)
    rw [hfound] at hmatched
    exact absurd (matched_pluginRules.1 hmatched).1 (by decide)
  rw [h.handle_eq hval hverb, hroute, if_neg Bool.false_ne_true, hfound, respond, hlast]
  rfl

theorem handle_post (hval : (Router.validate { allRules := pluginRules }).Returns router)
    (hsession : req.session = none) (hpost : req.method = .post) {place : ℕ}
    (hserved : ServedAt req.encodedPath place) :
    RequestHandling.handle P router req false =
      .ok { allow := some "POST", handled := [(place, {})] } := by
  obtain ⟨route, found, last, h⟩ := lookups_validate P hval req.encodedPath
  obtain ⟨hfound, hsome⟩ := found_of_served h ⟨place, hserved⟩
  have hverb : httpVerbFromBoost req.method = some .post := by rw [hpost]; rfl
  obtain ⟨place', hplace'⟩ := Option.isSome_iff_exists.1 ((hsome .post).2 rfl)
  have hfind : router.findRouteByIndex P req.encodedPath HttpVerb.post.toIndex =
      .ok ⟨some place', (route .post).params⟩ := by
    rw [h.finds, ← hplace']
  obtain ⟨hparams, -, hserved'⟩ := captured_pluginRules.1 (findRouteByIndex_spec P hval hfind)
  obtain rfl := servedAt_unique hserved hserved'
  rw [h.handle_eq hval hverb, hplace', hfound, Option.isSome_some, if_pos rfl, respond, hplace',
    hparams, hsession]
  rfl

end Routing

structure Request extends RedfishRequests.Request where
  method : Verb
  encodedPath : Text

/-- What a client is told; there is no response where an exception was thrown. -/
structure Answer (D : Type) where
  res : Option (Response D)
  allow : Option String := none

section Application
variable {D N : Type} (P : NumberParsers N) (router : Router) (parse : Text → Json Text D)
  (ignoreContentType : Bool) (F : JsonUtils.Doubles D) (dump : ℤ → Json Text D → Text)
  (grow : ℕ → ℕ) (isUrl : String → Bool)

def statusCode : Status → ℕ
  | .not_found => 404
  | .method_not_allowed => 405

def runHandler (req : RedfishRequests.Request) (res : Response D) (manager : EventServiceManager) :
    ℕ → Option (Response D) × EventServiceManager
  | 0 =>
    match registerSubscriberUrl parse ignoreContentType F dump grow req res manager with
    | .ok (res, manager) => (some res, manager)
    | .error _ => (none, { manager with fault := some .exception })
  | 1 => submitTestEvent isUrl res manager
  | _ => (some { res with jsonValue := .object [("Test".toList, .string "Test".toList)] }, manager)

def handle (req : Request) (manager : EventServiceManager) : Answer D × EventServiceManager :=
  match RequestHandling.handle P router
    { method := req.method, encodedPath := req.encodedPath } false with
  | .error _ => ({ res := none }, { manager with fault := some .exception })
  | .ok routed =>
    let res : Response D := { result := (routed.result.map statusCode).getD 200 }
    match routed.handled with
    | [] => ({ res := some res, allow := routed.allow }, manager)
    | (place, _) :: _ =>
      let (res, manager) :=
        runHandler parse ignoreContentType F dump grow isUrl req.toRequest res manager place
      ({ res, allow := routed.allow }, manager)

inductive Event where
  | request (req : Request)
  /-- an event of the loop for a subscriber -/
  | loop (k : ℕ) (event : Subscriber.Event)

def step (manager : EventServiceManager) : Event → Option EventServiceManager
  | .request req =>
    if manager.fault.isSome then none
    else some (handle P router parse ignoreContentType F dump grow isUrl req manager).2
  | .loop k event => manager.step isUrl grow (.loop k event)

end Application

section Runs
variable {D N : Type} {P : NumberParsers N} {router : Router} {parse : Text → Json Text D}
  {ignoreContentType : Bool} {F : JsonUtils.Doubles D} {dump : ℤ → Json Text D → Text}
  {grow : ℕ → ℕ} {isUrl : String → Bool} {req : Request} {m m' : EventServiceManager}

open Classical in
/-- The destination of a body that subscribes. -/
noncomputable def destination? (parse : Text → Json Text D) (ignoreContentType : Bool)
    (req : RedfishRequests.Request) : Option String :=
  if h : ∃ destination, Subscribes parse ignoreContentType req destination then
    some (String.ofList h.choose)
  else none

theorem destination?_eq_some (hunique : Unique (parse req.body)) {url : String} :
    destination? parse ignoreContentType req.toRequest = some url ↔
      ∃ destination, Subscribes parse ignoreContentType req.toRequest destination ∧
        url = String.ofList destination := by
  unfold destination?
  split_ifs with h
  · rw [Option.some.injEq]
    constructor
    · rintro rfl
      exact ⟨h.choose, h.choose_spec, rfl⟩
    · rintro ⟨destination, hsubscribes, rfl⟩
      rw [EventService.subscribes_unique hunique h.choose_spec hsubscribes]
  · refine iff_of_false nofun ?_
    rintro ⟨destination, hsubscribes, -⟩
    exact h ⟨destination, hsubscribes⟩

open Classical in
noncomputable def managerEvents (parse : Text → Json Text D) (ignoreContentType : Bool) :
    Event → List EventManager.Event
  | .request req =>
    if req.method = .post ∧ ServedAt req.encodedPath 0 then
      (destination? parse ignoreContentType req.toRequest).toList.map .addSubscription
    else if req.method = .post ∧ ServedAt req.encodedPath 1 then [.sendEvent]
    else []
  | .loop k event => [.loop k event]

theorem registerSubscriberUrl_fresh (hunique : Unique (parse req.body)) :
    ∃ res, registerSubscriberUrl parse ignoreContentType F dump grow req.toRequest {} m =
      .ok (res, (destination? parse ignoreContentType req.toRequest).elim m
        (m.addSubscription grow)) := by
  by_cases h : ∃ destination, Subscribes parse ignoreContentType req.toRequest destination
  · obtain ⟨destination, hsubscribes⟩ := h
    rw [(destination?_eq_some hunique).2 ⟨destination, hsubscribes, rfl⟩]
    exact ⟨_, EventService.posted_accepted grow hunique {} m hsubscribes⟩
  · obtain ⟨⟨res, m'⟩, hcall⟩ := @EventService.posted_returns D parse ignoreContentType F dump grow
      req.toRequest hunique {} (.inl rfl) m
    obtain ⟨-, rfl⟩ := EventService.posted_refused grow hunique {} m h hcall
    rw [destination?, dif_neg h]
    exact ⟨res, hcall⟩

theorem handle_of_routed {routed : RequestHandling.Response N}
    (h : RequestHandling.handle P router
      { method := req.method, encodedPath := req.encodedPath } false = .ok routed) :
    handle P router parse ignoreContentType F dump grow isUrl req m =
      match routed.handled with
      | [] => ({ res := some { result := (routed.result.map statusCode).getD 200 }
                 allow := routed.allow }, m)
      | (place, _) :: _ =>
        let called := runHandler parse ignoreContentType F dump grow isUrl req.toRequest
          { result := (routed.result.map statusCode).getD 200 } m place
        ({ res := called.1, allow := routed.allow }, called.2) := by
  rw [handle, h]

theorem answered_served (hval : (Router.validate { allRules := pluginRules }).Returns router)
    (hpost : req.method = .post) {place : ℕ} (hserved : ServedAt req.encodedPath place) :
    let called := runHandler parse ignoreContentType F dump grow isUrl req.toRequest {} m place
    handle P router parse ignoreContentType F dump grow isUrl req m =
      ({ res := called.1, allow := some "POST" }, called.2) :=
  handle_of_routed (handle_post hval rfl hpost hserved)

theorem answered_notAllowed (hval : (Router.validate { allRules := pluginRules }).Returns router)
    (hpost : req.method ≠ .post) (hverb : (httpVerbFromBoost req.method).isSome)
    (hserved : ∃ place, ServedAt req.encodedPath place) :
    handle P router parse ignoreContentType F dump grow isUrl req m =
      ({ res := some { result := 405 }, allow := some "POST" }, m) := by
  obtain ⟨verb, hverb⟩ := Option.isSome_iff_exists.1 hverb
  refine handle_of_routed (handle_notAllowed hval hverb ?_ hserved)
  rintro rfl
  refine hpost ?_
  cases hmethod : req.method with
  | post => rfl
  | _ =>
    rw [hmethod] at hverb
    cases hverb

theorem answered_notFound (hval : (Router.validate { allRules := pluginRules }).Returns router)
    (hnone : httpVerbFromBoost req.method = none ∨ ¬ ∃ place, ServedAt req.encodedPath place) :
    handle P router parse ignoreContentType F dump grow isUrl req m =
      ({ res := some { result := 404 } }, m) := by
  rcases hnone with hverb | hserved
  · exact handle_of_routed (handle_unknown hverb)
  · exact handle_of_routed (handle_notServed hval hserved)

/-- A POST to a path of a route runs its handler. Other methods are not allowed there, and no
other path is found. -/
theorem requests_answered (hval : (Router.validate { allRules := pluginRules }).Returns router)
    (req : Request) (m : EventServiceManager) :
    let answered := handle P router parse ignoreContentType F dump grow isUrl req m
    (∀ place, req.method = .post → ServedAt req.encodedPath place →
      let called := runHandler parse ignoreContentType F dump grow isUrl req.toRequest {} m place
      answered = ({ res := called.1, allow := some "POST" }, called.2)) ∧
    (req.method ≠ .post → (httpVerbFromBoost req.method).isSome →
      (∃ place, ServedAt req.encodedPath place) →
        answered = ({ res := some { result := 405 }, allow := some "POST" }, m)) ∧
    ((httpVerbFromBoost req.method = none ∨ ¬ ∃ place, ServedAt req.encodedPath place) →
      answered = ({ res := some { result := 404 } }, m)) := by
  refine ⟨fun place hpost hserved => ?_, fun hpost hverb hserved => ?_, fun hnone => ?_⟩
  · exact answered_served hval hpost hserved
  · exact answered_notAllowed hval hpost hverb hserved
  · exact answered_notFound hval hnone

theorem runHandler_other (res : Response D) {place : ℕ} (hne : place ≠ 0) (hne' : place ≠ 1) :
    (runHandler parse ignoreContentType F dump grow isUrl req.toRequest res m place).2 = m := by
  rcases place with _ | _ | place
  · exact absurd rfl hne
  · exact absurd rfl hne'
  · rfl

theorem unchanged_of_managerEvents
    (hval : (Router.validate { allRules := pluginRules }).Returns router)
    (hother : ¬ (req.method = .post ∧ ServedAt req.encodedPath 0))
    (hother' : ¬ (req.method = .post ∧ ServedAt req.encodedPath 1)) :
    (handle P router parse ignoreContentType F dump grow isUrl req m).2 = m := by
  by_cases hserved : ∃ place, ServedAt req.encodedPath place
  · by_cases hpost : req.method = .post
    · obtain ⟨place, hserved⟩ := hserved
      rw [answered_served hval hpost hserved]
      refine runHandler_other {} ?_ ?_
      · rintro rfl
        exact hother ⟨hpost, hserved⟩
      · rintro rfl
        exact hother' ⟨hpost, hserved⟩
    · cases hverb : httpVerbFromBoost req.method with
      | none => rw [answered_notFound hval (.inl hverb)]
      | some verb =>
        rw [answered_notAllowed hval hpost (Option.isSome_of_eq_some hverb) hserved]
  · rw [answered_notFound hval (.inr hserved)]

theorem request_refines (hval : (Router.validate { allRules := pluginRules }).Returns router)
    (hunique : Unique (parse req.body)) (hfault : m.fault = none) :
    GuardedRuns.run (EventServiceManager.step isUrl grow) m
      (managerEvents parse ignoreContentType (.request req)) =
        some (handle P router parse ignoreContentType F dump grow isUrl req m).2 := by
  have hone : ∀ event, GuardedRuns.run (EventServiceManager.step isUrl grow) m [event] =
      m.step isUrl grow event := by
    intro event
    rw [GuardedRuns.run_cons]
    exact Option.bind_fun_some _
  have hstep : ¬ m.fault.isSome = true := by
    rw [hfault]
    exact Bool.false_ne_true
  rw [managerEvents]
  split_ifs with hsubscribe hsubmit
  · rw [answered_served hval hsubscribe.1 hsubscribe.2]
    obtain ⟨res, hcall⟩ := @registerSubscriberUrl_fresh D parse ignoreContentType F dump grow req m
      hunique
    dsimp only [runHandler]
    rw [hcall]
    cases destination? parse ignoreContentType req.toRequest with
    | none => rfl
    | some destination =>
      refine (hone _).trans ?_
      rw [EventServiceManager.step, if_neg hstep]
      rfl
  · rw [answered_served hval hsubmit.1 hsubmit.2, hone, EventServiceManager.step, if_neg hstep]
    exact congrArg some (EventService.submitTestEvent_manager _ m).symm
  · rw [unchanged_of_managerEvents hval hsubscribe hsubmit]
    rfl

theorem step_refines (hval : (Router.validate { allRules := pluginRules }).Returns router)
    (hparse : ∀ text, Unique (parse text)) {event : Event}
    (h : step P router parse ignoreContentType F dump grow isUrl m event = some m') :
    GuardedRuns.run (EventServiceManager.step isUrl grow) m
      (managerEvents parse ignoreContentType event) = some m' := by
  cases event with
  | request req =>
    rw [step] at h
    split_ifs at h with hfault
    rw [← h]
    exact request_refines hval (hparse req.body) (Option.not_isSome_iff_eq_none.1 hfault)
  | loop k event =>
    rw [managerEvents, GuardedRuns.run_cons]
    exact Option.bind_eq_some_iff.2 ⟨m', h, rfl⟩

theorem run_refines (hval : (Router.validate { allRules := pluginRules }).Returns router)
    (hparse : ∀ text, Unique (parse text)) {events : List Event}
    (h : GuardedRuns.run (step P router parse ignoreContentType F dump grow isUrl) m events =
      some m') :
    GuardedRuns.run (EventServiceManager.step isUrl grow) m
      (events.flatMap (managerEvents parse ignoreContentType)) = some m' := by
  induction events generalizing m with
  | nil => exact h
  | cons event events ih =>
    obtain ⟨mid, hstep, hrest⟩ := Option.bind_eq_some_iff.1 h
    rw [List.flatMap_cons, GuardedRuns.run_append, step_refines hval hparse hstep]
    exact ih hrest

open Classical in
/-- The destination that an event subscribes. -/
noncomputable def posted (parse : Text → Json Text D) (ignoreContentType : Bool) :
    Event → Option String
  | .request req =>
    if req.method = .post ∧ ServedAt req.encodedPath 0 then
      destination? parse ignoreContentType req.toRequest
    else none
  | .loop _ _ => none

theorem destinations_managerEvents (event : Event) :
    EventManager.destinations (managerEvents parse ignoreContentType event) =
      (posted parse ignoreContentType event).toList := by
  cases event with
  | request req =>
    rw [managerEvents, posted]
    split_ifs
    · cases destination? parse ignoreContentType req.toRequest <;> rfl
    · rfl
    · rfl
  | loop k event => rfl

theorem destinations_flatMap (events : List Event) :
    EventManager.destinations (events.flatMap (managerEvents parse ignoreContentType)) =
      events.filterMap (posted parse ignoreContentType) := by
  induction events with
  | nil => rfl
  | cons event events ih =>
    rw [List.flatMap_cons, EventManager.destinations, List.filterMap_append,
      ← EventManager.destinations, ← EventManager.destinations, destinations_managerEvents, ih]
    cases hposted : posted parse ignoreContentType event with
    | none => rw [List.filterMap_cons_none hposted]; rfl
    | some url => rw [List.filterMap_cons_some hposted]; rfl

/-- The application runs the event service with what it routes there. Its subscribers are those
that were posted to the route of the subscriptions, with a body that subscribes, in that order. -/
theorem app_runs_manager (hval : (Router.validate { allRules := pluginRules }).Returns router)
    (hparse : ∀ text, Unique (parse text)) {events : List Event}
    (hrun : GuardedRuns.run (step P router parse ignoreContentType F dump grow isUrl) m events =
      some m') :
    GuardedRuns.run (EventServiceManager.step isUrl grow) m
      (events.flatMap (managerEvents parse ignoreContentType)) = some m' ∧
    (m'.fault = none → m'.subscribers.map Element.destUrl =
      m.subscribers.map Element.destUrl ++ events.filterMap (posted parse ignoreContentType)) := by
  have hmanager := run_refines hval hparse hrun
  refine ⟨hmanager, fun hfault => ?_⟩
  rw [EventServiceManager.destinations_of_run hmanager hfault, destinations_flatMap]

end Runs

section Samples
open EventService (sampleParse sampleParse_unique sampleRequest_subscribes)

def validates (routed : Outcome Router) : Bool := (routed.run.map Except.toBool).getD false

theorem pluginRules_validate :
    ∃ router, (Router.validate { allRules := pluginRules }).Returns router := by
  have hvalidates : validates (Router.validate { allRules := pluginRules }) = true := by
    decide +kernel
  rcases hrun : (Router.validate { allRules := pluginRules }).run with _ | error | router
  · rw [validates, hrun] at hvalidates
    cases hvalidates
  · rw [validates, hrun] at hvalidates
    cases hvalidates
  · exact ⟨router, hrun⟩

def subscribeRequest : Request :=
  { EventService.sampleRequest with
    method := .post
    encodedPath := "/redfish/v2/EventService/Subscriptions".toList }

theorem subscribeRequest_served : ServedAt subscribeRequest.encodedPath 0 := by decide +kernel

theorem subscribeRequest_posted :
    posted sampleParse false (.request subscribeRequest) =
      some (String.ofList "events".toList) := by
  rw [posted, if_pos ⟨rfl, subscribeRequest_served⟩]
  exact (destination?_eq_some (sampleParse_unique _)).2 ⟨_, sampleRequest_subscribes, rfl⟩

/-- A GET of the same path is told that only POST is allowed. -/
theorem requests_answered_sample : ∃ router : Router,
    (Router.validate { allRules := pluginRules }).Returns router ∧
    handle decimalParsers router sampleParse false JsonSchema.sampleDoubles (fun _ _ => [])
      EventManager.doubled (fun _ => true) { subscribeRequest with method := .get } {} =
        ({ res := some { result := 405 }, allow := some "POST" }, {}) := by
  obtain ⟨router, hval⟩ := pluginRules_validate
  exact ⟨router, hval, (requests_answered hval
    { subscribeRequest with method := .get } {}).2.1 nofun rfl ⟨0, subscribeRequest_served⟩⟩

theorem app_runs_manager_sample : ∃ (router : Router) (m : EventServiceManager),
    (Router.validate { allRules := pluginRules }).Returns router ∧
    GuardedRuns.run (step decimalParsers router sampleParse false JsonSchema.sampleDoubles
      (fun _ _ => []) EventManager.doubled (fun _ => true)) {} [.request subscribeRequest] =
        some m ∧
    m.subscribers.map Element.destUrl = [String.ofList "events".toList] := by
  obtain ⟨router, hval⟩ := pluginRules_validate
  let m := ({} : EventServiceManager).addSubscription EventManager.doubled
    (String.ofList "events".toList)
  have hcall : registerSubscriberUrl sampleParse false JsonSchema.sampleDoubles (fun _ _ => [])
      EventManager.doubled subscribeRequest.toRequest {} {} = .ok ({}, m) :=
    EventService.posted_accepted EventManager.doubled (sampleParse_unique _) {} {}
      sampleRequest_subscribes
  have hrun : GuardedRuns.run (step decimalParsers router sampleParse false JsonSchema.sampleDoubles
      (fun _ _ => []) EventManager.doubled (fun _ => true)) {} [.request subscribeRequest] =
        some m := by
    rw [GuardedRuns.run_cons, step, if_neg nofun, answered_served hval rfl subscribeRequest_served]
    dsimp only [runHandler]
    rw [hcall]
    rfl
  have hdestinations := (app_runs_manager hval sampleParse_unique hrun).2 rfl
  rw [List.filterMap_cons_some subscribeRequest_posted] at hdestinations
  exact ⟨router, m, hval, hrun, hdestinations⟩

end Samples

end CrowCore.EventRoutes
