import CrowCore.EventSubscriptions
import CrowCore.Sessions

set_option autoImplicit false

/-!
# The persistent file

`ConfigFile` writes both stores into one JSON document and reads them from it
when the process starts again.
-/
namespace CrowCore.PersistentData
open JsonValue Sessions EventSubscriptions

/-- `operator<<` and `parse` without exceptions. -/
structure JsonText (D : Type) where
  dump : Json String D → String
  parse : String → Json String D

def jsonRevision : UInt64 := 1

/-- What a `ConfigFile` writes and reads: its own UUID and the two stores. -/
structure Stores (H : Type) where
  systemUuid : String := ""
  sessionStore : SessionStore
  eventServiceStore : EventServiceStore H := {}

/-- `emplace`: a key that is present keeps its value. -/
def emplace {α : Type} (map : List (String × α)) (key : String) (value : α) : List (String × α) :=
  if map.any fun p => p.1 = key then map else map ++ [(key, value)]

/-- `object[key] = val`; the members are in the order of their names. -/
def setMember {α : Type} (key : String) (val : α) : List (String × α) → List (String × α)
  | [] => [(key, val)]
  | (name, old) :: members =>
    if key = name then (key, val) :: members
    else if key < name then (key, val) :: (name, old) :: members
    else (name, old) :: setMember key val members

section Document
variable {H D : Type} (L : FieldsLibrary H)

def authConfigJson (c : AuthConfigMethods) : Json String D :=
  .object [("BasicAuth", .boolean c.basic), ("Cookie", .boolean c.cookie),
    ("SessionToken", .boolean c.sessionToken), ("TLS", .boolean c.tls),
    ("XToken", .boolean c.xtoken)]

def eventserviceConfigJson (config : EventServiceConfig) : Json String D :=
  .object [("DeliveryRetryAttempts", .number_unsigned config.retryAttempts.toUInt64),
    ("DeliveryRetryIntervalSeconds", .number_unsigned config.retryTimeoutInterval.toUInt64),
    ("ServiceEnabled", .boolean config.enabled)]

def sessionJson (session : SavedSession) : Json String D :=
  .object ((session.client_id.map fun clientId => ("client_id", .string clientId)).toList ++
    [("client_ip", .string session.client_ip), ("csrf_token", .string session.csrf_token),
      ("session_token", .string session.session_token), ("unique_id", .string session.unique_id),
      ("username", .string session.username)])

def headersOf (httpHeaders : H) : List (String × String) :=
  (L.elements httpHeaders).foldl (fun headers header => setMember header.1 header.2 headers) []

def headersJson (httpHeaders : H) : Json String D :=
  .object ((headersOf L httpHeaders).map fun header => (header.1, .string header.2))

def stringsJson (strings : List String) : Json String D := .array (strings.map .string)

def subscriptionJson (subValue : UserSubscription H) : Json String D :=
  .object [("Context", .string subValue.customText),
    ("DeliveryRetryPolicy", .string subValue.retryPolicy),
    ("Destination", .string subValue.destinationUrl),
    ("EventFormatType", .string subValue.eventFormatType),
    ("HttpHeaders", headersJson L subValue.httpHeaders),
    ("Id", .string subValue.id),
    ("MessageIds", stringsJson subValue.registryMsgIds),
    ("MetricReportDefinitions", stringsJson subValue.metricReportDefinitions),
    ("Protocol", .string subValue.protocol),
    ("RegistryPrefixes", stringsJson subValue.registryPrefixes),
    ("ResourceTypes", stringsJson subValue.resourceTypes),
    ("SubscriptionType", .string subValue.subscriptionType)]

def persistsSubscription (subValue : UserSubscription H) : Bool := subValue.subscriptionType ≠ "SSE"

/-- The document of `writeData`. -/
def data (stores : Stores H) : Json String D :=
  let storeData := stores.sessionStore.writeData
  let subscriptions :=
    (stores.eventServiceStore.subscriptionsConfigMap.map Prod.snd).filter persistsSubscription
  .object [("auth_config", authConfigJson storeData.authConfig),
    ("eventservice_config", eventserviceConfigJson stores.eventServiceStore.eventServiceConfig),
    ("revision", .number_unsigned jsonRevision),
    ("sessions", .array (storeData.sessions.map sessionJson)),
    ("subscriptions", .array (subscriptions.map (subscriptionJson L))),
    ("system_uuid", .string stores.systemUuid),
    ("timeout", .number_integer (.ofInt storeData.timeout))]

def writeData (T : JsonText D) (stores : Stores H) : String := T.dump (data L stores)

end Document

section Read
variable {H D : Type} (L : FieldsLibrary H)

/-- `UserSession::fromJson` passes over members that are not strings. -/
def stringMembers (j : Json String D) : List (String × String) :=
  j.items.filterMap fun element => element.2.getString.map fun value => (element.1, value)

def boolMembers (j : Json String D) : List (String × Bool) :=
  j.items.filterMap fun element => element.2.getBool.map fun value => (element.1, value)

def restoreSubscription (store : EventServiceStore H) (elem : Json String D) :
    EventServiceStore H :=
  match UserSubscription.fromJson L elem with
  | none => store
  | some newSubscription =>
    { store with
      subscriptionsConfigMap :=
        emplace store.subscriptionsConfigMap newSubscription.id newSubscription }

/-- One item of the document; the second component is the revision of the file. -/
def readItem (now : ℤ) (s : Stores H × UInt64) (item : String × Json String D) :
    Stores H × UInt64 :=
  let (stores, fileRevision) := s
  let (key, value) := item
  if key = "revision" then (stores, value.getUint64.getD 0)
  else if key = "system_uuid" then
    ({ stores with systemUuid := value.getString.getD stores.systemUuid }, fileRevision)
  else if key = "auth_config" then
    let authMethodsConfig := stores.sessionStore.authMethodsConfig.fromJson (boolMembers value)
    ({ stores with sessionStore := { stores.sessionStore with authMethodsConfig } }, fileRevision)
  else if key = "sessions" then
    let sessionStore := value.items.foldl
      (fun store elem => restoreSession now store (stringMembers elem.2)) stores.sessionStore
    ({ stores with sessionStore }, fileRevision)
  else if key = "timeout" then
    match value.getInt64 with
    | none => (stores, fileRevision)
    | some jTimeout =>
      ({ stores with sessionStore := stores.sessionStore.updateSessionTimeout jTimeout.toInt },
        fileRevision)
  else if key = "eventservice_config" then
    let eventServiceConfig := stores.eventServiceStore.eventServiceConfig.fromJson value
    ({ stores with eventServiceStore := { stores.eventServiceStore with eventServiceConfig } },
      fileRevision)
  else if key = "subscriptions" then
    let eventServiceStore := value.items.foldl
      (fun store elem => restoreSubscription L store elem.2) stores.eventServiceStore
    ({ stores with eventServiceStore }, fileRevision)
  else (stores, fileRevision)

def readItems (T : JsonText D) (now : ℤ) (stores : Stores H) :
    Option String → Stores H × UInt64
  | none => (stores, 0)
  | some persistentFile =>
    match T.parse persistentFile with
    | .discarded => (stores, 0)
    | data => data.items.foldl (readItem L now) (stores, 0)

/-- The stores afterwards, and the file. -/
def readData (T : JsonText D) (randomUUID : String) (now : ℤ) (stores : Stores H)
    (persistentFile : Option String) : Stores H × Option String :=
  let (stores, fileRevision) := readItems L T now stores persistentFile
  let needWrite := stores.systemUuid.isEmpty || fileRevision < jsonRevision
  let stores :=
    if stores.systemUuid.isEmpty then { stores with systemUuid := randomUUID } else stores
  (stores, if needWrite then some (writeData L T stores) else persistentFile)

def freshStores (H : Type) (authMethodsConfig : AuthConfigMethods) : Stores H :=
  { sessionStore := { authMethodsConfig } }

end Read

end CrowCore.PersistentData
