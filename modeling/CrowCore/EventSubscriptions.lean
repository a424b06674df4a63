import CrowCore.JsonValue

set_option autoImplicit false

/-!
# The event service store

The subscriptions by their id, and how a subscription is read from JSON. Header
fields are those of a library, of which only three operations are used.
-/
namespace CrowCore.EventSubscriptions
open JsonValue

/-- `boost::beast::http::fields`: without fields, what is iterated over, and `set`. -/
structure FieldsLibrary (H : Type) where
  empty : H
  elements : H → List (String × String)
  set : H → String → String → H

structure UserSubscription (H : Type) where
  id : String := ""
  destinationUrl : String := ""
  protocol : String := ""
  retryPolicy : String := ""
  customText : String := ""
  eventFormatType : String := ""
  subscriptionType : String := ""
  registryMsgIds : List String := []
  registryPrefixes : List String := []
  resourceTypes : List String := []
  httpHeaders : H
  metricReportDefinitions : List String := []

section Read
variable {H D : Type} (L : FieldsLibrary H)

/-- A value that is not a string is passed over. -/
def readString (value : Json String D) (old : String) : String := value.getString.getD old

def readStrings (obj : Json String D) (old : List String) : List String :=
  old ++ obj.items.filterMap fun val => val.2.getString

def readHeaders (obj : Json String D) (httpHeaders : H) : H :=
  obj.items.foldl (fun httpHeaders val =>
    match val.2.getString with
    | none => httpHeaders
    | some value => L.set httpHeaders val.1 value) httpHeaders

namespace UserSubscription

def readMember (subvalue : UserSubscription H) (element : String × Json String D) :
    UserSubscription H :=
  let (key, value) := element
  if key = "Id" then { subvalue with id := readString value subvalue.id }
  else if key = "Destination" then
    { subvalue with destinationUrl := readString value subvalue.destinationUrl }
  else if key = "Protocol" then { subvalue with protocol := readString value subvalue.protocol }
  else if key = "DeliveryRetryPolicy" then
    { subvalue with retryPolicy := readString value subvalue.retryPolicy }
  else if key = "Context" then { subvalue with customText := readString value subvalue.customText }
  else if key = "EventFormatType" then
    { subvalue with eventFormatType := readString value subvalue.eventFormatType }
  else if key = "SubscriptionType" then
    { subvalue with subscriptionType := readString value subvalue.subscriptionType }
  else if key = "MessageIds" then
    { subvalue with registryMsgIds := readStrings value subvalue.registryMsgIds }
  else if key = "RegistryPrefixes" then
    { subvalue with registryPrefixes := readStrings value subvalue.registryPrefixes }
  else if key = "ResourceTypes" then
    { subvalue with resourceTypes := readStrings value subvalue.resourceTypes }
  else if key = "HttpHeaders" then
    { subvalue with httpHeaders := readHeaders L value subvalue.httpHeaders }
  else if key = "MetricReportDefinitions" then
    { subvalue with
      metricReportDefinitions := readStrings value subvalue.metricReportDefinitions }
  else subvalue

def fromJson (j : Json String D) (loadFromOldConfig : Bool := false) :
    Option (UserSubscription H) :=
  let subvalue := j.items.foldl (readMember L) { httpHeaders := L.empty }
  if (subvalue.id.isEmpty && !loadFromOldConfig) || subvalue.destinationUrl.isEmpty ||
      subvalue.protocol.isEmpty || subvalue.retryPolicy.isEmpty ||
      subvalue.eventFormatType.isEmpty || subvalue.subscriptionType.isEmpty then none
  else some subvalue

end UserSubscription

structure EventServiceConfig where
  enabled : Bool := true
  retryAttempts : UInt32 := 3
  retryTimeoutInterval : UInt32 := 30
deriving DecidableEq, Repr

/-- A number that does not fit is passed over. -/
def readUint32 (value : Json String D) (old : UInt32) : UInt32 :=
  match value.getUint64 with
  | none => old
  | some n => if n.toNat > 2 ^ 32 - 1 then old else n.toUInt32

namespace EventServiceConfig

def readMember (config : EventServiceConfig) (element : String × Json String D) :
    EventServiceConfig :=
  let (key, value) := element
  if key = "ServiceEnabled" then { config with enabled := value.getBool.getD config.enabled }
  else if key = "DeliveryRetryAttempts" then
    { config with retryAttempts := readUint32 value config.retryAttempts }
  else if key = "DeliveryRetryIntervalSeconds" then
    { config with retryTimeoutInterval := readUint32 value config.retryTimeoutInterval }
  else config

def fromJson (config : EventServiceConfig) (j : Json String D) : EventServiceConfig :=
  j.items.foldl readMember config

end EventServiceConfig

end Read

structure EventServiceStore (H : Type) where
  subscriptionsConfigMap : List (String × UserSubscription H) := []
  eventServiceConfig : EventServiceConfig := {}

end CrowCore.EventSubscriptions
