import CrowCore.PersistentData

set_option autoImplicit false

/-!
# The persistent round trip

What `readData` restores from the file that `writeData` wrote. An empty UUID is
the only value that is not taken from the file.
-/
namespace CrowCore.PersistentRoundTrip
open JsonValue EventSubscriptions PersistentData
open Sessions hiding readData

/-- Equal up to ASCII case. -/
def Iequals (a b : String) : Prop := a.toList.map Char.toLower = b.toList.map Char.toLower

variable {H D : Type}

/-- `set` appends a field that other fields already hold, unless there is one of its
name. -/
structure LawfulFields (L : FieldsLibrary H) : Prop where
  elements_empty : L.elements L.empty = []
  elements_set : ∀ (fields others : H) (name value : String), (name, value) ∈ L.elements others →
    (∀ field ∈ L.elements fields, ¬ Iequals field.1 name) →
    (L.elements (L.set fields name value)).Perm ((name, value) :: L.elements fields)

theorem items_reread_object (members : List (String × Json String D)) :
    (reread (.object members)).items = members.map fun member => (member.1, reread member.2) := by
  rw [reread, rereadMembers_eq]
  rfl

theorem items_reread_array (elements : List (Json String D)) :
    (reread (.array elements)).items.map Prod.snd = elements.map reread := by
  rw [reread, rereadElements_eq, Json.items, List.map_map]
  exact List.zipIdx_map_fst 0 (elements.map reread)

theorem foldl_items_reread_array {β : Type} (f : β → Json String D → β) (init : β)
    (elements : List (Json String D)) :
    (reread (.array elements)).items.foldl (fun b item => f b item.2) init =
      elements.foldl (fun b elem => f b (reread elem)) init := by
  calc (reread (.array elements)).items.foldl (fun b item => f b item.2) init
      = ((reread (.array elements)).items.map Prod.snd).foldl f init := List.foldl_map.symm
    _ = (elements.map reread).foldl f init := by rw [items_reread_array]
    _ = elements.foldl (fun b elem => f b (reread elem)) init := List.foldl_map

theorem readString_reread (s old : String) :
    readString (reread (.string s : Json String D)) old = s :=
  rfl

theorem readStrings_reread (strings : List String) :
    readStrings (reread (stringsJson strings : Json String D)) [] = strings := by
  have hitems := items_reread_array (strings.map Json.string : List (Json String D))
  rw [readStrings, List.nil_append, stringsJson]
  change List.filterMap (Json.getString ∘ Prod.snd) _ = strings
  rw [← List.filterMap_map, hitems, List.map_map, List.filterMap_map]
  exact List.filterMap_some

theorem fromJson_authConfig (c defaults : AuthConfigMethods) :
    defaults.fromJson (boolMembers (reread (authConfigJson c : Json String D))) = c := by
  simp [boolMembers, authConfigJson, reread, rereadMembers, Json.items, Json.getBool,
    AuthConfigMethods.fromJson, AuthConfigMethods.readMember]

theorem readUint32_toUInt64 (n old : UInt32) :
    readUint32 (.number_unsigned n.toUInt64 : Json String D) old = n := by
  have hfits : ¬ n.toUInt64.toNat > 2 ^ 32 - 1 := by
    have := n.toNat_lt
    simp
    omega
  simp only [readUint32, Json.getUint64]
  rw [if_neg hfits, UInt32.toUInt32_toUInt64]

theorem fromJson_eventserviceConfig (config old : EventServiceConfig) :
    old.fromJson (reread (eventserviceConfigJson config : Json String D)) = config := by
  simp [eventserviceConfigJson, reread, rereadMembers, Json.items, Json.getBool,
    EventServiceConfig.fromJson, EventServiceConfig.readMember, readUint32_toUInt64]

def persistsSession (session : UserSession) : Bool := session.persistence ≠ .singleRequest

def savedSession (session : UserSession) : SavedSession :=
  { unique_id := session.uniqueId, session_token := session.sessionToken
    username := session.username, csrf_token := session.csrfToken, client_ip := session.clientIp
    client_id := session.clientId }

theorem writeData_sessions (store : SessionStore) : store.writeData.sessions =
    ((store.authTokens.map Prod.snd).filter persistsSession).map savedSession := by
  change store.authTokens.filterMap (fun p => saveSession p.2) = _
  induction store.authTokens with
  | nil => rfl
  | cons p authTokens ih =>
    rw [List.filterMap_cons, List.map_cons, List.filter_cons, ih, saveSession, persistsSession]
    by_cases hpersists : p.2.persistence = .singleRequest
    · simp [hpersists]
    · simp [hpersists, savedSession]

def restoredSession (now : ℤ) (session : UserSession) : UserSession :=
  { uniqueId := session.uniqueId, sessionToken := session.sessionToken
    username := session.username, csrfToken := session.csrfToken, clientId := session.clientId
    clientIp := session.clientIp, lastUpdated := now }

/-- What `fromJson` asks of a session. -/
structure CompleteSession (session : UserSession) : Prop where
  uniqueId : session.uniqueId ≠ ""
  sessionToken : session.sessionToken ≠ ""
  username : session.username ≠ ""
  csrfToken : session.csrfToken ≠ ""

theorem fromJson_session {session : UserSession} (h : CompleteSession session) (now : ℤ) :
    UserSession.fromJson
      (stringMembers (reread (sessionJson (savedSession session) : Json String D))) now =
      some (restoredSession now session) := by
  have hmembers :
      (stringMembers (reread (sessionJson (savedSession session) : Json String D))).foldl
      UserSession.readMember {} =
      { restoredSession 0 session with lastUpdated := 0 } := by
    rcases hclientId : session.clientId with _ | clientId <;>
      simp [stringMembers, sessionJson, savedSession, reread, rereadMembers, Json.items,
        Json.getString,
        UserSession.readMember, restoredSession, hclientId]
  simp only [UserSession.fromJson, hmembers]
  simp [restoredSession, h.uniqueId, h.sessionToken, h.username, h.csrfToken]

def NodupKeys {α : Type} (map : List (String × α)) : Prop := (map.map Prod.fst).Nodup

theorem emplace_of_notMem {α : Type} {map : List (String × α)} {key : String}
    (h : key ∉ map.map Prod.fst) (value : α) : emplace map key value = map ++ [(key, value)] := by
  refine if_neg fun hany => h ?_
  obtain ⟨p, hp, hkey⟩ := List.any_eq_true.1 hany
  exact List.mem_map.2 ⟨p, hp, of_decide_eq_true hkey⟩

theorem foldl_emplace {α β : Type} (key : α → String) (value : α → β) (l : List α)
    (map : List (String × β)) (h : NodupKeys (map ++ l.map fun x => (key x, value x))) :
    l.foldl (fun map x => emplace map (key x) (value x)) map =
      map ++ l.map fun x => (key x, value x) := by
  induction l generalizing map with
  | nil => simp
  | cons x l ih =>
    have hnew : key x ∉ map.map Prod.fst := by
      rw [NodupKeys, List.map_append, List.map_cons] at h
      exact fun hmem => List.disjoint_of_nodup_append h hmem List.mem_cons_self
    rw [List.map_cons, List.append_cons] at h
    rw [List.foldl_cons, emplace_of_notMem hnew, ih _ h, List.map_cons, ← List.append_cons]

theorem foldl_emplace_kept {α β : Type} {entries : List (String × α)} (h : NodupKeys entries)
    {key : α → String} (hkey : ∀ p ∈ entries, p.1 = key p.2) (keep : α → Bool) (value : α → β) :
    ((entries.map Prod.snd).filter keep).foldl (fun map x => emplace map (key x) (value x)) [] =
      (entries.filter fun p => keep p.2).map fun p => (p.1, value p.2) := by
  have hpairs : ((entries.map Prod.snd).filter keep).map (fun x => (key x, value x)) =
      (entries.filter fun p => keep p.2).map fun p => (p.1, value p.2) := by
    rw [List.filter_map, List.map_map]
    refine List.map_congr_left fun p hp => ?_
    rw [hkey p (List.mem_filter.1 hp).1]
    rfl
  rw [foldl_emplace key value _ [] ?_, List.nil_append, hpairs]
  rw [List.nil_append, hpairs, NodupKeys, List.map_map]
  exact h.sublist (List.filter_sublist.map _)

structure Keyed (store : SessionStore) : Prop where
  key_eq : ∀ p ∈ store.authTokens, p.1 = p.2.sessionToken
  nodup : NodupKeys store.authTokens

theorem foldl_restoreSession (now : ℤ) (sessions : List UserSession)
    (hcomplete : ∀ session ∈ sessions, CompleteSession session) (store : SessionStore) :
    sessions.foldl (fun store session =>
        restoreSession now store
          (stringMembers (reread (sessionJson (savedSession session) : Json String D)))) store =
      { store with
        authTokens := sessions.foldl (fun authTokens session =>
          emplace authTokens session.sessionToken (restoredSession now session))
          store.authTokens } := by
  induction sessions generalizing store with
  | nil => rfl
  | cons session sessions ih =>
    rw [List.foldl_cons, ih fun s hs => hcomplete s (List.mem_cons_of_mem _ hs)]
    rw [restoreSession, fromJson_session (hcomplete session List.mem_cons_self)]
    rfl

theorem setMember_perm {α : Type} {key : String} {members : List (String × α)}
    (h : key ∉ members.map Prod.fst) (val : α) :
    (setMember key val members).Perm ((key, val) :: members) := by
  induction members with
  | nil => exact .refl _
  | cons member members ih =>
    obtain ⟨name, old⟩ := member
    rw [List.map_cons, List.mem_cons, not_or] at h
    rw [setMember, if_neg h.1]
    split_ifs
    · exact .refl _
    · exact ((ih h.2).cons _).trans (.swap _ _ _)

theorem foldl_setMember_perm {α : Type} (pairs members : List (String × α))
    (h : NodupKeys (members ++ pairs)) :
    (pairs.foldl (fun members p => setMember p.1 p.2 members) members).Perm (members ++ pairs) := by
  induction pairs generalizing members with
  | nil => simp
  | cons p pairs ih =>
    have hnew : p.1 ∉ members.map Prod.fst := by
      rw [NodupKeys, List.map_append, List.map_cons] at h
      exact fun hmem => List.disjoint_of_nodup_append h hmem List.mem_cons_self
    have hset := setMember_perm hnew p.2
    have hmiddle : (setMember p.1 p.2 members ++ pairs).Perm (members ++ p :: pairs) :=
      (hset.append_right pairs).trans List.perm_middle.symm
    rw [List.foldl_cons]
    exact (ih _ ((hmiddle.map Prod.fst).nodup_iff.2 h)).trans hmiddle

section Headers
variable {L : FieldsLibrary H}

def NamesApart (fields : List (String × String)) : Prop :=
  fields.Pairwise fun a b => ¬ Iequals a.1 b.1

theorem NamesApart.nodupKeys {fields : List (String × String)} (h : NamesApart fields) :
    NodupKeys fields := by
  refine List.pairwise_map.2 (h.imp fun hne heq => hne ?_)
  rw [Iequals, heq]

theorem headersOf_perm {httpHeaders : H} (h : NamesApart (L.elements httpHeaders)) :
    (headersOf L httpHeaders).Perm (L.elements httpHeaders) :=
  foldl_setMember_perm _ [] h.nodupKeys

theorem foldl_set_perm (hL : LawfulFields L) (others : H) (headers : List (String × String))
    (hmem : ∀ header ∈ headers, header ∈ L.elements others) (fields : H)
    (hapart : NamesApart (L.elements fields ++ headers)) :
    (L.elements (headers.foldl (fun fields header => L.set fields header.1 header.2) fields)).Perm
      (L.elements fields ++ headers) := by
  induction headers generalizing fields with
  | nil => simp
  | cons header headers ih =>
    rw [List.forall_mem_cons] at hmem
    have hnew : ∀ field ∈ L.elements fields, ¬ Iequals field.1 header.1 := fun field hfield =>
      (List.pairwise_append.1 hapart).2.2 field hfield header List.mem_cons_self
    have hset := hL.elements_set fields others header.1 header.2 hmem.1 hnew
    have hmiddle : (L.elements (L.set fields header.1 header.2) ++ headers).Perm
        (L.elements fields ++ header :: headers) :=
      (hset.append_right headers).trans List.perm_middle.symm
    rw [List.foldl_cons]
    refine (ih hmem.2 _ ?_).trans hmiddle
    exact (hmiddle.pairwise_iff fun hne heq => hne heq.symm).2 hapart

theorem readHeaders_reread (hL : LawfulFields L) {httpHeaders : H}
    (h : NamesApart (L.elements httpHeaders)) :
    (L.elements (readHeaders L (reread (headersJson L httpHeaders : Json String D)) L.empty)).Perm
      (L.elements httpHeaders) := by
  have hperm := headersOf_perm h
  have hfold : readHeaders L (reread (headersJson L httpHeaders : Json String D)) L.empty =
      (headersOf L httpHeaders).foldl (fun fields header => L.set fields header.1 header.2)
        L.empty := by
    rw [readHeaders, headersJson, items_reread_object, List.map_map, List.foldl_map]
    rfl
  have hapart : NamesApart (L.elements L.empty ++ headersOf L httpHeaders) := by
    rw [hL.elements_empty, List.nil_append]
    exact (hperm.pairwise_iff fun hne heq => hne heq.symm).2 h
  rw [hfold]
  refine (foldl_set_perm hL httpHeaders _ (fun header => hperm.mem_iff.1) L.empty hapart).trans ?_
  rwa [hL.elements_empty, List.nil_append]

structure CompleteSubscription (subValue : UserSubscription H) : Prop where
  id : subValue.id ≠ ""
  destinationUrl : subValue.destinationUrl ≠ ""
  protocol : subValue.protocol ≠ ""
  retryPolicy : subValue.retryPolicy ≠ ""
  eventFormatType : subValue.eventFormatType ≠ ""
  subscriptionType : subValue.subscriptionType ≠ ""

variable (L) in
/-- Equal but for the order of the header fields. -/
structure SameSubscription (a b : UserSubscription H) : Prop where
  headers : (L.elements a.httpHeaders).Perm (L.elements b.httpHeaders)
  others : { a with httpHeaders := b.httpHeaders } = b

variable (L D) in
def restoredSubscription (subValue : UserSubscription H) : UserSubscription H :=
  { subValue with
    httpHeaders :=
      readHeaders L (reread (headersJson L subValue.httpHeaders : Json String D)) L.empty }

theorem restoredSubscription_same (hL : LawfulFields L) {subValue : UserSubscription H}
    (h : NamesApart (L.elements subValue.httpHeaders)) :
    SameSubscription L (restoredSubscription D L subValue) subValue :=
  ⟨readHeaders_reread hL h, rfl⟩

theorem fromJson_subscription {subValue : UserSubscription H} (h : CompleteSubscription subValue) :
    UserSubscription.fromJson L (reread (subscriptionJson L subValue : Json String D)) =
      some (restoredSubscription D L subValue) := by
  have hread : (reread (subscriptionJson L subValue : Json String D)).items.foldl
      (UserSubscription.readMember L) { httpHeaders := L.empty } =
      restoredSubscription D L subValue := by
    rw [subscriptionJson, items_reread_object]
    simp [UserSubscription.readMember, readString_reread, readStrings_reread, restoredSubscription]
  simp only [UserSubscription.fromJson, hread]
  simp [restoredSubscription, h.id, h.destinationUrl, h.protocol, h.retryPolicy,
    h.eventFormatType, h.subscriptionType]

theorem foldl_restoreSubscription (subscriptions : List (UserSubscription H))
    (hcomplete : ∀ subValue ∈ subscriptions, CompleteSubscription subValue)
    (store : EventServiceStore H) :
    subscriptions.foldl (fun store subValue =>
        restoreSubscription L store (reread (subscriptionJson L subValue : Json String D))) store =
      { store with
        subscriptionsConfigMap := subscriptions.foldl (fun subscriptionsConfigMap subValue =>
          emplace subscriptionsConfigMap subValue.id (restoredSubscription D L subValue))
          store.subscriptionsConfigMap } := by
  induction subscriptions generalizing store with
  | nil => rfl
  | cons subValue subscriptions ih =>
    rw [List.foldl_cons, ih fun s hs => hcomplete s (List.mem_cons_of_mem _ hs)]
    rw [restoreSubscription, fromJson_subscription (hcomplete subValue List.mem_cons_self)]
    rfl

end Headers

/-- What a round trip assumes of the stores. -/
structure Restorable (L : FieldsLibrary H) (stores : Stores H) : Prop where
  timeout_fits : -2 ^ 63 ≤ stores.sessionStore.timeoutInSeconds ∧
    stores.sessionStore.timeoutInSeconds < 2 ^ 63
  keyed : Keyed stores.sessionStore
  sessions : ∀ p ∈ stores.sessionStore.authTokens, persistsSession p.2 → CompleteSession p.2
  subscriptions_keyed : ∀ p ∈ stores.eventServiceStore.subscriptionsConfigMap, p.1 = p.2.id
  subscriptions_nodup : NodupKeys stores.eventServiceStore.subscriptionsConfigMap
  subscriptions : ∀ p ∈ stores.eventServiceStore.subscriptionsConfigMap,
    persistsSubscription p.2 → CompleteSubscription p.2 ∧ NamesApart (L.elements p.2.httpHeaders)

/-- All but the UUID was restored at `now`. -/
structure Restored (L : FieldsLibrary H) (now : ℤ) (stores restored : Stores H) : Prop where
  timeoutInSeconds :
    restored.sessionStore.timeoutInSeconds = stores.sessionStore.timeoutInSeconds
  authMethodsConfig :
    restored.sessionStore.authMethodsConfig = stores.sessionStore.authMethodsConfig
  eventServiceConfig :
    restored.eventServiceStore.eventServiceConfig = stores.eventServiceStore.eventServiceConfig
  sessions : restored.sessionStore.authTokens =
    (stores.sessionStore.authTokens.filter fun p => persistsSession p.2).map fun p =>
      (p.1, restoredSession now p.2)
  subscriptions : List.Forall₂ (fun p q => p.1 = q.1 ∧ SameSubscription L p.2 q.2)
    restored.eventServiceStore.subscriptionsConfigMap
    (stores.eventServiceStore.subscriptionsConfigMap.filter fun p => persistsSubscription p.2)

section RoundTrip
variable {L : FieldsLibrary H} {stores : Stores H}

theorem getString_reread (value : String) :
    (reread (.string value) : Json String D).getString = some value := rfl

theorem getUint64_reread (n : UInt64) :
    (reread (.number_unsigned n) : Json String D).getUint64 = some n := rfl

variable (D L) in
/-- Exactly what is read from the file. -/
def restoredStores (now : ℤ) (stores : Stores H) : Stores H where
  systemUuid := stores.systemUuid
  sessionStore :=
    { authTokens := (stores.sessionStore.authTokens.filter fun p => persistsSession p.2).map
        fun p => (p.1, restoredSession now p.2)
      needWrite := true
      timeoutInSeconds := stores.sessionStore.timeoutInSeconds
      authMethodsConfig := stores.sessionStore.authMethodsConfig }
  eventServiceStore :=
    { subscriptionsConfigMap :=
        (stores.eventServiceStore.subscriptionsConfigMap.filter
          fun p => persistsSubscription p.2).map fun p => (p.1, restoredSubscription D L p.2)
      eventServiceConfig := stores.eventServiceStore.eventServiceConfig }

theorem readItem_data (h : Restorable L stores) (defaults : AuthConfigMethods) (now : ℤ) :
    (reread (data L stores : Json String D)).items.foldl (readItem L now)
      (freshStores H defaults, 0) = (restoredStores D L now stores, jsonRevision) := by
  have hsessions : ∀ session ∈ (stores.sessionStore.authTokens.map Prod.snd).filter
      persistsSession, CompleteSession session := by
    intro session hsession
    obtain ⟨hmem, hpersists⟩ := List.mem_filter.1 hsession
    obtain ⟨p, hp, rfl⟩ := List.mem_map.1 hmem
    exact h.sessions p hp hpersists
  have hsubscriptions : ∀ subValue ∈ (stores.eventServiceStore.subscriptionsConfigMap.map
      Prod.snd).filter persistsSubscription, CompleteSubscription subValue := by
    intro subValue hsubValue
    obtain ⟨hmem, hpersists⟩ := List.mem_filter.1 hsubValue
    obtain ⟨p, hp, rfl⟩ := List.mem_map.1 hmem
    exact (h.subscriptions p hp hpersists).1
  rw [data, items_reread_object, writeData_sessions]
  simp only [SessionStore.writeData, List.map_cons, List.map_nil, List.foldl_cons, List.foldl_nil,
    readItem, freshStores,
    String.reduceEq, if_true, if_false, getString_reread, getUint64_reread, getInt64_reread,
    fromJson_authConfig, fromJson_eventserviceConfig, Option.getD_some,
    foldl_items_reread_array fun store elem => restoreSession now store (stringMembers elem),
    foldl_items_reread_array (restoreSubscription L), List.foldl_map,
    foldl_restoreSession now _ hsessions, foldl_restoreSubscription _ hsubscriptions]
  rw [foldl_emplace_kept h.keyed.nodup h.keyed.key_eq,
    foldl_emplace_kept h.subscriptions_nodup h.subscriptions_keyed,
    Int64.toInt_ofInt_of_le h.timeout_fits.1 h.timeout_fits.2]
  rfl

theorem restored_restoredStores (hL : LawfulFields L) (h : Restorable L stores) (now : ℤ)
    (systemUuid : String) :
    Restored L now stores { restoredStores D L now stores with systemUuid } where
  timeoutInSeconds := rfl
  authMethodsConfig := rfl
  eventServiceConfig := rfl
  sessions := rfl
  subscriptions := by
    refine List.forall₂_map_left_iff.2 (List.forall₂_same.2 fun p hp => ⟨rfl, ?_⟩)
    obtain ⟨hmem, hpersists⟩ := List.mem_filter.1 hp
    exact restoredSubscription_same hL (h.subscriptions p hmem hpersists).2

/-- From the file that was written everything is restored, but an empty UUID is
replaced by a random one. Dumping and parsing are only used on what was written. -/
theorem readData_writeData (T : JsonText D) (hL : LawfulFields L) (h : Restorable L stores)
    (hparse : T.parse (writeData L T stores) = reread (data L stores))
    (randomUUID : String) (defaults : AuthConfigMethods) (now : ℤ) :
    let restored :=
      (readData L T randomUUID now (freshStores H defaults) (some (writeData L T stores))).1
    restored.systemUuid = (if stores.systemUuid = "" then randomUUID else stores.systemUuid) ∧
      Restored L now stores restored := by
  have hitems : readItems L T now (freshStores H defaults) (some (writeData L T stores)) =
      (restoredStores D L now stores, jsonRevision) := by
    rw [readItems, hparse]
    exact readItem_data h defaults now
  have hfst : (readData L T randomUUID now (freshStores H defaults)
      (some (writeData L T stores))).1 = { restoredStores D L now stores with
        systemUuid := if stores.systemUuid = "" then randomUUID else stores.systemUuid } := by
    simp only [readData, hitems]
    by_cases huuid : stores.systemUuid = "" <;> simp [restoredStores, huuid]
  rw [hfst]
  exact ⟨rfl, restored_restoredStores hL h now _⟩

end RoundTrip

section Keyed
variable {store : SessionStore}

theorem Keyed.congr {store' : SessionStore} (h : Keyed store)
    (hsame : store'.authTokens = store.authTokens) : Keyed store' :=
  ⟨hsame ▸ h.key_eq, hsame ▸ h.nodup⟩

theorem Keyed.filter (h : Keyed store) (keep : String × UserSession → Bool) {store' : SessionStore}
    (hkeep : store'.authTokens = store.authTokens.filter keep) : Keyed store' where
  key_eq p hp := h.key_eq p (List.mem_filter.1 (hkeep ▸ hp)).1
  nodup := by
    rw [hkeep]
    exact h.nodup.sublist (List.filter_sublist.map _)

theorem Keyed.emplace (h : Keyed store) {token : String} {session : UserSession}
    {store' : SessionStore}
    (hstore : store'.authTokens = SessionStore.emplace store.authTokens token session)
    (htoken : token = session.sessionToken) : Keyed store' := by
  unfold SessionStore.emplace at hstore
  split_ifs at hstore with hany
  · exact h.congr hstore
  · have hnew : token ∉ store.authTokens.map Prod.fst := by
      intro hmem
      obtain ⟨p, hp, hkey⟩ := List.mem_map.1 hmem
      exact hany (List.any_eq_true.2 ⟨p, hp, decide_eq_true hkey⟩)
    refine ⟨fun p hp => ?_, ?_⟩
    · rw [hstore] at hp
      rcases List.mem_append.1 hp with hp | hp
      · exact h.key_eq p hp
      · obtain rfl := List.mem_singleton.1 hp
        exact htoken
    · rw [NodupKeys, hstore, List.map_append]
      refine h.nodup.append (List.nodup_singleton token) fun key hkey hsingle => hnew ?_
      obtain rfl : key = token := List.mem_singleton.1 hsingle
      exact hkey

theorem Keyed.touch (h : Keyed store) (token : String) (now : ℤ) :
    Keyed (store.touch token now) where
  key_eq p hp := by
    obtain ⟨q, hq, rfl⟩ := List.mem_map.1 hp
    have hkey := h.key_eq q hq
    split_ifs <;> exact hkey
  nodup := by
    have hkeys : (store.touch token now).authTokens.map Prod.fst =
        store.authTokens.map Prod.fst := by
      rw [SessionStore.touch, List.map_map]
      refine List.map_congr_left fun p _ => ?_
      rw [Function.comp_apply]
      split_ifs <;> rfl
    rw [NodupKeys, hkeys]
    exact h.nodup

theorem Keyed.applySessionTimeouts (h : Keyed store) (timeNow : ℤ) :
    Keyed (store.applySessionTimeouts timeNow) := by
  unfold SessionStore.applySessionTimeouts
  split_ifs
  · exact h.filter _ rfl
  · exact h

theorem Keyed.perform (h : Keyed store) (op : Operation) : Keyed (store.perform op) := by
  cases op with
  | generateUserSession username clientIp clientId persistence isConfigureSelfOnly generated now =>
    cases generated with
    | none => exact h
    | some ids => exact h.emplace rfl rfl
  | loginSessionByToken token timeNow now =>
    have ht := h.applySessionTimeouts timeNow
    simp only [SessionStore.perform, SessionStore.loginSessionByToken]
    split_ifs
    · exact ht
    · split
      · exact ht
      · exact ht.touch token now
  | getSessionByUid uid timeNow => exact h.applySessionTimeouts timeNow
  | removeSession session => exact h.filter _ rfl
  | removeSessionsByUsername username => exact h.filter _ rfl
  | updateAuthMethodsConfig config => exact h.congr rfl
  | updateSessionTimeout newTimeoutInSeconds => exact h.congr rfl
  | applySessionTimeouts timeNow => exact h.applySessionTimeouts timeNow

theorem Keyed.performs (h : Keyed store) (ops : List Operation) :
    Keyed (ops.foldl SessionStore.perform store) := by
  induction ops generalizing store with
  | nil => exact h
  | cons op ops ih => exact ih (h.perform op)

end Keyed

instance (a b : String) : Decidable (Iequals a b) := inferInstanceAs (Decidable (_ = _))

def listFields : FieldsLibrary (List (String × String)) where
  empty := []
  elements := id
  set fields name value := fields.filter (fun field => ¬ Iequals field.1 name) ++ [(name, value)]

theorem listFields_lawful : LawfulFields listFields where
  elements_empty := rfl
  elements_set fields others name value _ h := by
    have hkeep : fields.filter (fun field => ¬ Iequals field.1 name) = fields :=
      List.filter_eq_self.2 fun field hfield => decide_eq_true (h field hfield)
    change (fields.filter _ ++ [(name, value)]).Perm ((name, value) :: fields)
    rw [hkeep]
    exact List.perm_append_singleton _ _

def textOf (stores : Stores (List (String × String))) : JsonText Unit where
  dump _ := "data"
  parse _ := reread (data listFields stores)

def sampleAuthConfig : AuthConfigMethods :=
  { basic := true, sessionToken := true, xtoken := false, cookie := true, tls := false }

theorem freshStores_restorable (defaults : AuthConfigMethods) :
    Restorable listFields (freshStores (List (String × String)) defaults) where
  timeout_fits := by
    change -2 ^ 63 ≤ (1800 : ℤ) ∧ (1800 : ℤ) < 2 ^ 63
    decide
  keyed := ⟨nofun, List.nodup_nil⟩
  sessions := nofun
  subscriptions_keyed := nofun
  subscriptions_nodup := List.nodup_nil
  subscriptions := nofun

/-- The stores of a new process have an empty UUID, which does not come back. -/
theorem empty_uuid_not_restored :
    ¬ ∀ (T : JsonText Unit) (stores : Stores (List (String × String))) (randomUUID : String)
      (defaults : AuthConfigMethods) (now : ℤ), Restorable listFields stores →
      T.parse (writeData listFields T stores) = reread (data listFields stores) →
      (readData listFields T randomUUID now (freshStores _ defaults)
        (some (writeData listFields T stores))).1.systemUuid = stores.systemUuid := by
  intro h
  have hfresh := freshStores_restorable sampleAuthConfig
  have huuid := h (textOf (freshStores _ sampleAuthConfig)) (freshStores _ sampleAuthConfig)
    "ec5ab9a5" sampleAuthConfig 0 hfresh rfl
  rw [(readData_writeData _ listFields_lawful hfresh rfl _ _ _).1] at huuid
  revert huuid
  decide

def sampleStores : Stores (List (String × String)) where
  systemUuid := "0c9ab7be"
  sessionStore :=
    { authTokens :=
        [("T1", { uniqueId := "U1", sessionToken := "T1", username := "root", csrfToken := "C1" }),
          ("T2", { sessionToken := "T2", persistence := .singleRequest })]
      timeoutInSeconds := 600
      authMethodsConfig := sampleAuthConfig }
  eventServiceStore :=
    { subscriptionsConfigMap :=
        [("7", { id := "7", destinationUrl := "https://collector", protocol := "Redfish"
                 retryPolicy := "RetryForever", eventFormatType := "Event"
                 subscriptionType := "RedfishEvent"
                 httpHeaders := [("X-Trace", "on"), ("Accept", "*/*")] })] }

theorem sampleStores_restorable : Restorable listFields sampleStores where
  timeout_fits := by decide
  keyed := ⟨by decide, by unfold NodupKeys; decide⟩
  sessions := by
    intro p hp hpersists
    have hcases : p ∈ [_, _] := hp
    rw [List.mem_pair] at hcases
    rcases hcases with rfl | rfl
    · exact ⟨by decide, by decide, by decide, by decide⟩
    · cases hpersists
  subscriptions_keyed := by decide
  subscriptions_nodup := by unfold NodupKeys; decide
  subscriptions := by
    intro p hp _
    obtain rfl := List.mem_singleton.1 hp
    refine ⟨⟨by decide, by decide, by decide, by decide, by decide, by decide⟩, ?_⟩
    unfold NamesApart
    decide

theorem readData_writeData_sample :
    let restored := (readData listFields (textOf sampleStores) "ec5ab9a5" 0
      (freshStores _ sampleAuthConfig) (some (writeData listFields (textOf sampleStores)
        sampleStores))).1
    restored.systemUuid = "0c9ab7be" ∧ Restored listFields 0 sampleStores restored :=
  readData_writeData (textOf sampleStores) listFields_lawful sampleStores_restorable rfl
    "ec5ab9a5" sampleAuthConfig 0

end CrowCore.PersistentRoundTrip
