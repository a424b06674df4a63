import CrowCore.Routing
import CrowCore.Sessions

set_option autoImplicit false

/-!
# Handling a request

`handle` looks the path up under every method. The route of the request's own
method is taken; without one, what the other methods have decides between the
rules for 404 and for 405.
-/
namespace CrowCore.RequestHandling
open RoutingTrie RoutingTrieBuild RoutingTrieCorrect RoutingTrieOptimize Routing

inductive Verb where
  | unknown | delete_ | get | head | post | put | connect | options | trace | copy | lock
  | mkcol | move | propfind | proppatch | search | unlock | bind | rebind | unbind | acl | report
  | mkactivity | checkout | merge | msearch | notify | subscribe | unsubscribe | patch | purge
  | mkcalendar | link | unlink
deriving DecidableEq, Repr

def httpVerbFromBoost : Verb → Option HttpVerb
  | .delete_ => some .delete
  | .get => some .get
  | .head => some .head
  | .options => some .options
  | .patch => some .patch
  | .post => some .post
  | .put => some .put
  | _ => none

def httpVerbToString : HttpVerb → String
  | .delete => "DELETE"
  | .get => "GET"
  | .head => "HEAD"
  | .patch => "PATCH"
  | .post => "POST"
  | .put => "PUT"
  | .options => "OPTIONS"

/-- `HttpVerb` in the order of its values. -/
def verbs : List HttpVerb := [.delete, .get, .head, .options, .patch, .post, .put]

theorem toIndex_verbs : verbs.map HttpVerb.toIndex = List.range (maxVerbIndex + 1) := rfl

structure Request where
  method : Verb
  encodedPath : Text
  session : Option Sessions.UserSession := none

inductive Status where
  | not_found
  | method_not_allowed
deriving DecidableEq, Repr

/-- What `handle` sets in the response, and the rules whose handler it calls. -/
structure Response (D : Type) where
  result : Option Status := none
  allow : Option String := none
  handled : List (ℕ × RoutingParams D) := []
deriving DecidableEq

structure FindRouteResponse (D : Type) where
  allowHeader : String := ""
  route : FindRoute D := {}

section Handle
variable {D : Type} (P : NumberParsers D) (router : Router)

def findRouteLoop (url : Text) (reqMethodIndex : ℕ) :
    List HttpVerb → FindRouteResponse D → Except String (FindRouteResponse D)
  | [], findRoute => return findRoute
  | thisVerb :: verbs, findRoute => do
    let route ← router.findRouteByIndex P url thisVerb.toIndex
    if route.rule = none then findRouteLoop url reqMethodIndex verbs findRoute
    else
      let allowHeader :=
        if findRoute.allowHeader.isEmpty then findRoute.allowHeader
        else findRoute.allowHeader ++ ", "
      findRouteLoop url reqMethodIndex verbs
        { allowHeader := allowHeader ++ httpVerbToString thisVerb
          route := if thisVerb.toIndex = reqMethodIndex then route else findRoute.route }

def findRoute (req : Request) : Except String (FindRouteResponse D) :=
  match httpVerbFromBoost req.method with
  | none => return {}
  | some verb => findRouteLoop P router req.encodedPath verb.toIndex verbs {}

/-- The part of `handle` after the lookups. A session without `bypassAuth` ends
the call: the rest is commented out. -/
def respond (req : Request) (bypassAuth : Bool) (allowHeader : String) (route : FindRoute D) :
    Response D :=
  let allow := if allowHeader.isEmpty then none else some allowHeader
  match route.rule with
  | none =>
    { result := some (if allowHeader.isEmpty then .not_found else .method_not_allowed), allow }
  | some rule =>
    if req.session.isNone || bypassAuth then { allow, handled := [(rule, route.params)] }
    else { allow }

def handle (req : Request) (bypassAuth : Bool) : Except String (Response D) :=
  match httpVerbFromBoost req.method with
  | none => return { result := some .not_found }
  | some verb =>
    if router.perMethods.length ≤ verb.toIndex then return { result := some .not_found }
    else do
      let foundRoute ← findRoute P router req
      let route ←
        if foundRoute.route.rule = none then
          if foundRoute.allowHeader.isEmpty then
            router.findRouteByIndex P req.encodedPath notFoundIndex
          else router.findRouteByIndex P req.encodedPath methodNotAllowedIndex
        else pure foundRoute.route
      return respond req bypassAuth foundRoute.allowHeader route

end Handle

section Classes
variable {D : Type} (P : NumberParsers D) (allRules : List BaseRule) (router : Router) (url : Text)

/-- The rule at this place is one of the method and matches the url with these
values. -/
def Captured (index place : ℕ) (params : RoutingParams D) : Prop :=
  ∃ rule entry values, allRules[place]? = some rule ∧ rule.methodsBitfield.testBit index ∧
    EntryUrl rule.rule entry ∧ RuleCaptures P entry url values ∧ params = paramsOf values

def Matched (index : ℕ) : Prop := ∃ place params, Captured P allRules url index place params

/-- The rule found for the method is run once, with what it captured. -/
def RunsRule (index : ℕ) (res : Response D) : Prop :=
  ∃ place params, router.findRouteByIndex P url index = .ok ⟨some place, params⟩ ∧
    Captured P allRules url index place params ∧ res.handled = [(place, params)] ∧
      res.result = none

/-- A rule of the pseudo method is run, or else the status is set. -/
def FallsBack (index : ℕ) (status : Status) (res : Response D) : Prop :=
  (Matched P allRules url index → RunsRule P allRules router url index res) ∧
    (¬Matched P allRules url index → res.handled = [] ∧ res.result = some status)

open Classical in
structure Classified (verb : HttpVerb) (res : Response D) : Prop where
  found : Matched P allRules url verb.toIndex → RunsRule P allRules router url verb.toIndex res
  not_found : (∀ v : HttpVerb, ¬Matched P allRules url v.toIndex) →
    FallsBack P allRules router url notFoundIndex .not_found res
  not_allowed : ¬Matched P allRules url verb.toIndex →
    (∃ v : HttpVerb, Matched P allRules url v.toIndex) →
      FallsBack P allRules router url methodNotAllowedIndex .method_not_allowed res
  allow : res.allow = if ∃ v : HttpVerb, Matched P allRules url v.toIndex then
    some (", ".intercalate ((verbs.filter fun v => Matched P allRules url v.toIndex).map
      httpVerbToString)) else none

end Classes

variable {D : Type} {P : NumberParsers D} {allRules : List BaseRule} {router : Router} {url : Text}

theorem findRouteByIndex_isSome (P : NumberParsers D)
    (hval : (Router.validate { allRules }).Returns router) (url : Text) {index : ℕ}
    (hindex : index ≤ methodNotAllowedIndex) : ∃ route : FindRoute D,
      router.findRouteByIndex P url index = .ok route ∧
        (route.rule.isSome ↔ Matched P allRules url index) := by
  obtain ⟨hlen, hmethods⟩ := perMethods_validate hval
  obtain ⟨pm', hpm'⟩ : ∃ pm', router.perMethods[index]? = some pm' :=
    ⟨_, List.getElem?_eq_getElem (by omega)⟩
  obtain ⟨pm, entries, hs, henters, hrules, hsame⟩ := hmethods index pm' hpm'
  have hfinds := finds_of_represents P hs.represents url
  by_cases h0 : (pm.trie.find P url).1 = 0
  · refine ⟨{}, ?_, iff_of_false (by simp) ?_⟩
    · simp [Router.findRouteByIndex, hpm', find_sameRoutes hsame P url, hrules, h0, hs.no_rule]
    · rintro ⟨place, params, rule, entry, values, hplace, hbit, hentry, hcap, -⟩
      obtain ⟨k, hk⟩ := henters rule (List.mem_of_getElem? hplace) hbit entry hentry
      exact hfinds.none_matches h0 (entry, k) hk (hs.entry entry k hk).1 ⟨values, hcap⟩
  · obtain ⟨entry, values, hmem, -, -⟩ := hfinds.captured h0
    obtain ⟨-, place, -, hplace, -⟩ := hs.entry entry _ hmem
    have hfind : router.findRouteByIndex P url index =
        .ok ⟨some place, (pm.trie.find P url).2⟩ := by
      simp [Router.findRouteByIndex, hpm', find_sameRoutes hsame P url, hrules, hplace, h0]
    exact ⟨_, hfind, iff_of_true rfl ⟨place, _, findRouteByIndex_spec P hval hfind⟩⟩

theorem toIndex_le (verb : HttpVerb) : verb.toIndex ≤ maxVerbIndex := by
  cases verb <;> decide

theorem toIndex_injective : Function.Injective HttpVerb.toIndex := by
  intro v w h
  cases v <;> cases w <;> first | rfl | cases h

theorem mem_verbs (verb : HttpVerb) : verb ∈ verbs := by cases verb <;> decide

theorem httpVerbToString_ne_empty (verb : HttpVerb) : httpVerbToString verb ≠ "" := by
  cases verb <;> decide

def allowHeader (found : List HttpVerb) : String := ", ".intercalate (found.map httpVerbToString)

theorem allowHeader_isEmpty (found : List HttpVerb) :
    (allowHeader found).isEmpty ↔ found = [] := by
  rw [String.isEmpty_iff]
  rcases found with _ | ⟨verb, _ | ⟨verb', found⟩⟩
  · simp [allowHeader]
  · simp [allowHeader, httpVerbToString_ne_empty]
  · simp [allowHeader]

theorem allowHeader_concat (found : List HttpVerb) (verb : HttpVerb) :
    allowHeader (found ++ [verb]) =
      (if (allowHeader found).isEmpty then allowHeader found else allowHeader found ++ ", ") ++
        httpVerbToString verb := by
  by_cases h : found = []
  · subst h
    simp [allowHeader]
  · rw [if_neg fun he => h ((allowHeader_isEmpty found).1 he)]
    rw [allowHeader, List.map_append,
      String.intercalate_append_of_ne_nil (by simpa using h) (by simp)]
    simp [allowHeader]

theorem findRouteLoop_spec {route : HttpVerb → FindRoute D}
    (hroute : ∀ verb, router.findRouteByIndex P url verb.toIndex = .ok (route verb))
    (verb : HttpVerb) (rest found : List HttpVerb) (start : FindRoute D) :
    findRouteLoop P router url verb.toIndex rest ⟨allowHeader found, start⟩ =
      .ok ⟨allowHeader (found ++ rest.filter fun v => (route v).rule.isSome),
        if verb ∈ rest ∧ (route verb).rule.isSome then route verb else start⟩ := by
  induction rest generalizing found start with
  | nil => simp [findRouteLoop, pure, Except.pure]
  | cons this rest ih =>
    rw [findRouteLoop, hroute]
    change (if (route this).rule = none then _ else _) = _
    by_cases hnone : (route this).rule = none
    · rw [if_pos hnone, ih]
      congr 2
      · simp [hnone]
      · by_cases hv : verb = this
        · simp [hv, hnone]
        · simp [hv]
    · have hsome : (route this).rule.isSome := Option.isSome_iff_ne_none.2 hnone
      rw [if_neg hnone, ← allowHeader_concat, ih]
      congr 2
      · simp [hsome]
      · by_cases hv : verb = this
        · simp [hv, hsome]
        · have hne : this.toIndex ≠ verb.toIndex := fun he => hv (toIndex_injective he).symm
          simp [hv, hne]

theorem handle_eq {req : Request} {verb : HttpVerb}
    (hverb : httpVerbFromBoost req.method = some verb)
    (hlen : verb.toIndex < router.perMethods.length) {route : HttpVerb → FindRoute D}
    (hroute : ∀ v, router.findRouteByIndex P req.encodedPath v.toIndex = .ok (route v))
    (bypassAuth : Bool) {found : List HttpVerb}
    (hfound : found = verbs.filter fun v => (route v).rule.isSome) {last : FindRoute D}
    (hlast : router.findRouteByIndex P req.encodedPath
      (if found = [] then notFoundIndex else methodNotAllowedIndex) = .ok last) :
    handle P router req bypassAuth = .ok (respond req bypassAuth (allowHeader found)
      (if (route verb).rule.isSome then route verb else last)) := by
  have hloop := findRouteLoop_spec hroute verb verbs [] {}
  rw [List.nil_append, ← hfound] at hloop
  have hfindRoute : findRoute P router req = .ok ⟨allowHeader found,
      if verb ∈ verbs ∧ (route verb).rule.isSome then route verb else {}⟩ := by
    rw [findRoute, hverb]
    exact hloop
  rw [handle, hverb]
  dsimp only
  rw [if_neg (not_le.2 hlen), hfindRoute]
  simp only [mem_verbs, true_and, bind, Except.bind]
  by_cases hsome : (route verb).rule.isSome
  · have hne : (route verb).rule ≠ none := Option.isSome_iff_ne_none.1 hsome
    simp only [if_pos hsome, if_neg hne]
    rfl
  · simp only [if_neg hsome]
    by_cases hnil : found = []
    · rw [if_pos hnil] at hlast
      simp only [if_pos ((allowHeader_isEmpty found).2 hnil), hlast]
      rfl
    · rw [if_neg hnil] at hlast
      simp only [if_neg fun he => hnil ((allowHeader_isEmpty found).1 he), hlast]
      rfl

theorem respond_allow (req : Request) (bypassAuth : Bool) (allowHeader : String)
    (route : FindRoute D) : (respond req bypassAuth allowHeader route).allow =
      if allowHeader.isEmpty then none else some allowHeader := by
  rcases hrule : route.rule with _ | rule
  · simp [respond, hrule]
  · simp only [respond, hrule]
    split_ifs <;> rfl

theorem respond_none {route : FindRoute D} (hrule : route.rule = none) (req : Request)
    (bypassAuth : Bool) (allowHeader : String) :
    (respond req bypassAuth allowHeader route).handled = [] ∧
      (respond req bypassAuth allowHeader route).result =
        some (if allowHeader.isEmpty then .not_found else .method_not_allowed) := by
  simp [respond, hrule]

theorem runsRule_respond (hval : (Router.validate { allRules }).Returns router) {index : ℕ}
    {route : FindRoute D} (hroute : router.findRouteByIndex P url index = .ok route)
    (hsome : route.rule.isSome) {req : Request} {bypassAuth : Bool}
    (hauth : req.session = none ∨ bypassAuth = true) (allowHeader : String) :
    RunsRule P allRules router url index (respond req bypassAuth allowHeader route) := by
  obtain ⟨place, hplace⟩ := Option.isSome_iff_exists.1 hsome
  have hfind : router.findRouteByIndex P url index = .ok ⟨some place, route.params⟩ := by
    rw [hroute, ← hplace]
  have hopen : (req.session.isNone || bypassAuth) = true := by
    rcases hauth with h | h <;> simp [h]
  refine ⟨place, route.params, hfind, findRouteByIndex_spec P hval hfind, ?_, ?_⟩
  · simp [respond, hplace, hopen]
  · simp [respond, hplace, hopen]

theorem fallsBack_respond (hval : (Router.validate { allRules }).Returns router) {index : ℕ}
    {route : FindRoute D} (hroute : router.findRouteByIndex P url index = .ok route)
    (hmatched : route.rule.isSome ↔ Matched P allRules url index) {req : Request}
    {bypassAuth : Bool} (hauth : req.session = none ∨ bypassAuth = true) {allowHeader : String}
    {status : Status} (hstatus :
      (if allowHeader.isEmpty then Status.not_found else .method_not_allowed) = status) :
    FallsBack P allRules router url index status (respond req bypassAuth allowHeader route) := by
  constructor
  · intro hm
    exact runsRule_respond hval hroute (hmatched.2 hm) hauth allowHeader
  · intro hm
    have hnone : route.rule = none := by
      rw [← Option.not_isSome_iff_eq_none]
      exact fun hsome => hm (hmatched.1 hsome)
    rw [← hstatus]
    exact respond_none hnone req bypassAuth allowHeader

/-- What a router finds for a path: the rule of every verb, the verbs that have one, and
the rule of the pseudo method that fits. -/
structure Lookups (P : NumberParsers D) (allRules : List BaseRule) (router : Router) (url : Text)
    (route : HttpVerb → FindRoute D) (found : List HttpVerb) (last : FindRoute D) : Prop where
  finds : ∀ verb, router.findRouteByIndex P url verb.toIndex = .ok (route verb)
  matched : ∀ verb, (route verb).rule.isSome ↔ Matched P allRules url verb.toIndex
  found_eq : found = verbs.filter fun verb => (route verb).rule.isSome
  findsLast : router.findRouteByIndex P url
    (if found = [] then notFoundIndex else methodNotAllowedIndex) = .ok last
  lastMatched : last.rule.isSome ↔
    Matched P allRules url (if found = [] then notFoundIndex else methodNotAllowedIndex)

theorem lookups_validate (P : NumberParsers D)
    (hval : (Router.validate { allRules }).Returns router) (url : Text) :
    ∃ route found last, Lookups P allRules router url route found last := by
  have hlookup := fun verb : HttpVerb => findRouteByIndex_isSome P hval url
    ((toIndex_le verb).trans (by decide : maxVerbIndex ≤ methodNotAllowedIndex))
  choose route hroute hmatched using hlookup
  generalize hfound : (verbs.filter fun verb => (route verb).rule.isSome) = found
  obtain ⟨last, hlast, hlastMatched⟩ := findRouteByIndex_isSome P hval url
    (show (if found = [] then notFoundIndex else methodNotAllowedIndex) ≤ methodNotAllowedIndex by
      split_ifs <;> decide)
  exact ⟨route, found, last, hroute, hmatched, hfound.symm, hlast, hlastMatched⟩

section Lookups
variable {req : Request} {verb : HttpVerb} {route : HttpVerb → FindRoute D}
  {found : List HttpVerb} {last : FindRoute D}

theorem Lookups.handle_eq (h : Lookups P allRules router req.encodedPath route found last)
    (hval : (Router.validate { allRules }).Returns router)
    (hverb : httpVerbFromBoost req.method = some verb) (bypassAuth : Bool) :
    handle P router req bypassAuth = .ok (respond req bypassAuth (allowHeader found)
      (if (route verb).rule.isSome then route verb else last)) := by
  have hlen : verb.toIndex < router.perMethods.length := by
    rw [(perMethods_validate hval).1]
    exact Nat.lt_succ_of_le ((toIndex_le verb).trans (by decide))
  exact RequestHandling.handle_eq hverb hlen h.finds bypassAuth h.found_eq h.findsLast

theorem Lookups.found_eq_nil_iff (h : Lookups P allRules router url route found last) :
    found = [] ↔ ∀ verb : HttpVerb, ¬ Matched P allRules url verb.toIndex := by
  rw [h.found_eq, List.filter_eq_nil_iff]
  constructor
  · exact fun hnone verb => (h.matched verb).not.1 (hnone verb (mem_verbs verb))
  · exact fun hnone verb _ => (h.matched verb).not.2 (hnone verb)

open Classical in
theorem Lookups.allow (h : Lookups P allRules router url route found last) :
    (if (allowHeader found).isEmpty then none else some (allowHeader found)) =
      if ∃ v : HttpVerb, Matched P allRules url v.toIndex then
        some (", ".intercalate ((verbs.filter fun v => Matched P allRules url v.toIndex).map
          httpVerbToString)) else none := by
  by_cases hempty : found = []
  · have hnone : ¬ ∃ v : HttpVerb, Matched P allRules url v.toIndex :=
      not_exists.2 (h.found_eq_nil_iff.1 hempty)
    rw [if_neg hnone, if_pos ((allowHeader_isEmpty found).2 hempty)]
  · have hsome : ∃ v : HttpVerb, Matched P allRules url v.toIndex := by
      by_contra hnone
      exact hempty (h.found_eq_nil_iff.2 (not_exists.1 hnone))
    rw [if_pos hsome, if_neg fun he => hempty ((allowHeader_isEmpty found).1 he)]
    simp only [h.found_eq, allowHeader, ← h.matched, Bool.decide_eq_true]

end Lookups

/-- A validated router runs the rule found for the method of the request, or
falls back on the pseudo method that fits, and lists the methods it has. -/
theorem handle_classifies (P : NumberParsers D) {allRules : List BaseRule} {router : Router}
    (hval : (Router.validate { allRules }).Returns router) (req : Request) {verb : HttpVerb}
    (hverb : httpVerbFromBoost req.method = some verb) (bypassAuth : Bool)
    (hauth : req.session = none ∨ bypassAuth = true) :
    ∃ res, handle P router req bypassAuth = .ok res ∧
      Classified P allRules router req.encodedPath verb res := by
  obtain ⟨route, found, last, h⟩ := lookups_validate P hval req.encodedPath
  refine ⟨_, h.handle_eq hval hverb bypassAuth, ?_⟩
  have hlast := h.findsLast
  have hlastMatched := h.lastMatched
  constructor
  · intro hm
    rw [if_pos ((h.matched verb).2 hm)]
    exact runsRule_respond hval (h.finds verb) ((h.matched verb).2 hm) hauth _
  · intro hnone
    have hempty := h.found_eq_nil_iff.2 hnone
    rw [if_pos hempty] at hlast hlastMatched
    rw [if_neg ((h.matched verb).not.2 (hnone verb))]
    exact fallsBack_respond hval hlast hlastMatched hauth
      (if_pos ((allowHeader_isEmpty found).2 hempty))
  · rintro hnone ⟨v, hv⟩
    have hne : found ≠ [] := fun hempty => h.found_eq_nil_iff.1 hempty v hv
    rw [if_neg hne] at hlast hlastMatched
    rw [if_neg ((h.matched verb).not.2 hnone)]
    exact fallsBack_respond hval hlast hlastMatched hauth
      (if_neg fun hempty => hne ((allowHeader_isEmpty found).1 hempty))
  · rw [respond_allow]
    exact h.allow

def sampleRules : List BaseRule :=
  [{ rule := ['/', 'a', '/', '<', 's', 't', 'r', '>'], kind := .dynamic, hasHandler := true },
    { rule := ['/', '<', 'p', 'a', 't', 'h', '>'], kind := .dynamic, hasHandler := true,
      methodsBitfield := 1 <<< methodNotAllowedIndex }]

def sampleRequest : Request := { method := .post, encodedPath := ['/', 'a', '/', 'b'] }

theorem handle_classifies_sample : ∃ router res,
    (Router.validate { allRules := sampleRules }).Returns router ∧
      handle decimalParsers router sampleRequest false = .ok res ∧
      res.handled = [(1, ⟨[], [], [], [['a', '/', 'b']]⟩)] ∧ res.allow = some "GET" ∧
      Classified decimalParsers sampleRules router sampleRequest.encodedPath .post res := by
  obtain ⟨router, hval, hhandle⟩ : ∃ router,
      (Router.validate { allRules := sampleRules }).Returns router ∧
        handle decimalParsers router sampleRequest false = .ok
          { allow := some "GET", handled := [(1, ⟨[], [], [], [['a', '/', 'b']]⟩)] } :=
    ⟨_, rfl, by decide +kernel⟩
  obtain ⟨res, hres, hclass⟩ :=
    handle_classifies decimalParsers hval sampleRequest rfl false (.inl rfl)
  obtain rfl := Except.ok.inj (hhandle.symm.trans hres)
  exact ⟨router, _, hval, hhandle, rfl, rfl, hclass⟩

/-- The same rules are run as in the other response, or an error is reported. -/
def NotSwallowed (res res' : Response D) : Prop :=
  res.handled = res'.handled ∨ ∃ status, res.result = some status

/-- A request with a session whose verb has a rule for the path is answered with
neither, though the rule is run without the session. -/
theorem session_swallows (P : NumberParsers D) {allRules : List BaseRule} {router : Router}
    (hval : (Router.validate { allRules }).Returns router) (req : Request) {verb : HttpVerb}
    (hverb : httpVerbFromBoost req.method = some verb) (hsession : req.session.isSome)
    (hmatch : Matched P allRules req.encodedPath verb.toIndex) :
    ∃ res res', handle P router req false = .ok res ∧
      handle P router { req with session := none } false = .ok res' ∧
        RunsRule P allRules router req.encodedPath verb.toIndex res' ∧ ¬ NotSwallowed res res' := by
  obtain ⟨route, found, last, h⟩ := lookups_validate P hval req.encodedPath
  have hsome := (h.matched verb).2 hmatch
  obtain ⟨place, hplace⟩ := Option.isSome_iff_exists.1 hsome
  have hnone : req.session.isNone = false := by simpa using hsession
  have hwithout : Lookups P allRules router ({ req with session := none } : Request).encodedPath
      route found last := h
  refine ⟨_, _, h.handle_eq hval hverb false, hwithout.handle_eq hval hverb false, ?_, ?_⟩
  · rw [if_pos hsome]
    exact runsRule_respond hval (h.finds verb) hsome (.inl rfl) _
  · rw [if_pos hsome]
    simp [NotSwallowed, respond, hplace, hnone]

def sampleSession : Sessions.UserSession := { uniqueId := "U1", username := "root" }

def sessionRequest : Request :=
  { method := .get, encodedPath := ['/', 'a', '/', 'b'], session := some sampleSession }

theorem session_swallows_sample : ∃ router res res',
    (Router.validate { allRules := sampleRules }).Returns router ∧
      handle decimalParsers router sessionRequest false = .ok res ∧
      handle decimalParsers router { sessionRequest with session := none } false = .ok res' ∧
      ¬ NotSwallowed res res' := by
  obtain ⟨router, hval⟩ : ∃ router, (Router.validate { allRules := sampleRules }).Returns router :=
    ⟨_, rfl⟩
  have hmatch : Matched decimalParsers sampleRules sessionRequest.encodedPath
      HttpVerb.get.toIndex := by
    obtain ⟨router', hval', hfind⟩ : ∃ router',
        (Router.validate { allRules := sampleRules }).Returns router' ∧
          router'.findRouteByIndex decimalParsers sessionRequest.encodedPath
            HttpVerb.get.toIndex = .ok ⟨some 0, ⟨[], [], [], [['b']]⟩⟩ :=
              ⟨_, rfl, by decide +kernel⟩
    exact ⟨0, _, findRouteByIndex_spec decimalParsers hval' hfind⟩
  obtain ⟨res, res', hres, hres', -, hswallowed⟩ :=
    session_swallows decimalParsers hval sessionRequest rfl rfl hmatch
  exact ⟨router, res, res', hval, hres, hres', hswallowed⟩

/-- The request is answered with neither the handler nor a status. -/
theorem session_request_swallowed : ∃ router : Router,
    (Router.validate { allRules := sampleRules }).Returns router ∧
      handle decimalParsers router sessionRequest false = .ok { allow := some "GET" } ∧
      handle decimalParsers router { sessionRequest with session := none } false =
        .ok { allow := some "GET", handled := [(0, ⟨[], [], [], [['b']]⟩)] } ∧
      ¬ NotSwallowed (D := Unit) { allow := some "GET" }
        { allow := some "GET", handled := [(0, ⟨[], [], [], [['b']]⟩)] } := by
  refine ⟨_, rfl, by decide +kernel, by decide +kernel, ?_⟩
  simp [NotSwallowed]

end CrowCore.RequestHandling
