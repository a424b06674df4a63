import CrowCore.BaseRegistry
import CrowCore.ErrorAggregation
import CrowCore.MessageTemplates

set_option autoImplicit false

/-!
# Message builders

Each builder of a Redfish message takes an entry of the base registry and an array
of arguments to `getLog`. The JSON of a message lists its members by their names.
-/
namespace CrowCore.MessageBuilders
open BaseRegistry DecimalRuns JsonValue MessageTemplates

def to_string (n : ℤ) : Text := (toString n).toList

section Builders
variable {D : Type}

def getLogFromRegistry (header : Header) (registry : List MessageEntry)
    (index : Fin registry.length) (args : List Text) : Json Text D :=
  let entry := registry.get index
  let msg := fillMessageArgs args entry.2.message.toList
  let jArgs := args.map Json.string
  let msgId := header.id.toList ++ ".".toList ++ entry.1.toList
  .object [
    ("@odata.type".toList, .string "#Message.v1_1_1.Message".toList),
    ("Message".toList, .string msg),
    ("MessageArgs".toList, .array jArgs),
    ("MessageId".toList, .string msgId),
    ("MessageSeverity".toList, .string entry.2.messageSeverity.toList),
    ("Resolution".toList, .string entry.2.resolution.toList)]

/-- Null if there is no such entry. -/
def getLog (name : Index) (args : List Text) : Json Text D :=
  if h : name.value < registry.length then
    getLogFromRegistry header registry ⟨name.value, h⟩ args
  else .null

-- `dump` with this indentation; what is not UTF-8 is replaced
variable (dump : ℤ → Json Text D → Text)

def resourceInUse : Json Text D := getLog .resourceInUse []

def malformedJSON : Json Text D := getLog .malformedJSON []

def resourceMissingAtURI (arg1 : Text) : Json Text D := getLog .resourceMissingAtURI [arg1]

def actionParameterValueFormatError (arg1 : Json Text D) (arg2 arg3 : Text) : Json Text D :=
  getLog .actionParameterValueFormatError [dump 2 arg1, arg2, arg3]

def actionParameterValueNotInList (arg1 arg2 arg3 : Text) : Json Text D :=
  getLog .actionParameterValueNotInList [arg1, arg2, arg3]

def internalError : Json Text D := getLog .internalError []

def unrecognizedRequestBody : Json Text D := getLog .unrecognizedRequestBody []

def resourceAtUriUnauthorized (arg1 arg2 : Text) : Json Text D :=
  getLog .resourceAtUriUnauthorized [arg1, arg2]

def actionParameterUnknown (arg1 arg2 : Text) : Json Text D :=
  getLog .actionParameterUnknown [arg1, arg2]

def resourceCannotBeDeleted : Json Text D := getLog .resourceCannotBeDeleted []

def propertyDuplicate (arg1 : Text) : Json Text D := getLog .propertyDuplicate [arg1]

def serviceTemporarilyUnavailable (arg1 : Text) : Json Text D :=
  getLog .serviceTemporarilyUnavailable [arg1]

def resourceAlreadyExists (arg1 arg2 arg3 : Text) : Json Text D :=
  getLog .resourceAlreadyExists [arg1, arg2, arg3]

def accountForSessionNoLongerExists : Json Text D := getLog .accountForSessionNoLongerExists []

def createFailedMissingReqProperties (arg1 : Text) : Json Text D :=
  getLog .createFailedMissingReqProperties [arg1]

def propertyValueFormatError (arg1 : Json Text D) (arg2 : Text) : Json Text D :=
  getLog .propertyValueFormatError [dump 2 arg1, arg2]

def propertyValueNotInList (arg1 : Json Text D) (arg2 : Text) : Json Text D :=
  getLog .propertyValueNotInList [dump (-1) arg1, arg2]

def propertyValueOutOfRange (arg1 : Json Text D) (arg2 : Text) : Json Text D :=
  getLog .propertyValueOutOfRange [dump 2 arg1, arg2]

def resourceAtUriInUnknownFormat (arg1 : Text) : Json Text D :=
  getLog .resourceAtUriInUnknownFormat [arg1]

def serviceDisabled (arg1 : Text) : Json Text D := getLog .serviceDisabled [arg1]

def serviceInUnknownState : Json Text D := getLog .serviceInUnknownState []

def eventSubscriptionLimitExceeded : Json Text D := getLog .eventSubscriptionLimitExceeded []

def actionParameterMissing (arg1 arg2 : Text) : Json Text D :=
  getLog .actionParameterMissing [arg1, arg2]

def stringValueTooLong (arg1 : Text) (arg2 : ℤ) : Json Text D :=
  getLog .stringValueTooLong [arg1, to_string arg2]

def sessionTerminated : Json Text D := getLog .sessionTerminated []

def subscriptionTerminated : Json Text D := getLog .subscriptionTerminated []

def resourceTypeIncompatible (arg1 arg2 : Text) : Json Text D :=
  getLog .resourceTypeIncompatible [arg1, arg2]

def resetRequired (arg1 arg2 : Text) : Json Text D := getLog .resetRequired [arg1, arg2]

def chassisPowerStateOnRequired (arg1 : Text) : Json Text D := getLog .resetRequired [arg1]

def chassisPowerStateOffRequired (arg1 : Text) : Json Text D :=
  getLog .chassisPowerStateOffRequired [arg1]

def propertyValueConflict (arg1 arg2 : Text) : Json Text D :=
  getLog .propertyValueConflict [arg1, arg2]

def propertyValueResourceConflict (arg1 : Text) (arg2 : Json Text D) (arg3 : Text) : Json Text D :=
  getLog .propertyValueResourceConflict [arg1, dump 2 arg2, arg3]

def propertyValueExternalConflict (arg1 : Text) (arg2 : Json Text D) : Json Text D :=
  getLog .propertyValueExternalConflict [arg1, dump 2 arg2]

def propertyValueIncorrect (arg1 : Json Text D) (arg2 : Text) : Json Text D :=
  getLog .propertyValueIncorrect [dump 2 arg1, arg2]

def resourceCreationConflict (arg1 : Text) : Json Text D := getLog .resourceCreationConflict [arg1]

def maximumErrorsExceeded : Json Text D := getLog .maximumErrorsExceeded []

def preconditionFailed : Json Text D := getLog .preconditionFailed []

def preconditionRequired : Json Text D := getLog .preconditionRequired []

def operationFailed : Json Text D := getLog .operationFailed []

def operationTimeout : Json Text D := getLog .operationTimeout []

def propertyValueTypeError (arg1 : Json Text D) (arg2 : Text) : Json Text D :=
  getLog .propertyValueTypeError [dump 2 arg1, arg2]

def resourceNotFound (arg1 arg2 : Text) : Json Text D := getLog .resourceNotFound [arg1, arg2]

def couldNotEstablishConnection (arg1 : Text) : Json Text D :=
  getLog .couldNotEstablishConnection [arg1]

def propertyNotWritable (arg1 : Text) : Json Text D := getLog .propertyNotWritable [arg1]

def queryParameterValueTypeError (arg1 : Json Text D) (arg2 : Text) : Json Text D :=
  getLog .queryParameterValueTypeError [dump 2 arg1, arg2]

def serviceShuttingDown : Json Text D := getLog .serviceShuttingDown []

def actionParameterDuplicate (arg1 arg2 : Text) : Json Text D :=
  getLog .actionParameterDuplicate [arg1, arg2]

def actionParameterNotSupported (arg1 arg2 : Text) : Json Text D :=
  getLog .actionParameterNotSupported [arg1, arg2]

def sourceDoesNotSupportProtocol (arg1 arg2 : Text) : Json Text D :=
  getLog .sourceDoesNotSupportProtocol [arg1, arg2]

def strictAccountTypes (arg1 : Text) : Json Text D := getLog .strictAccountTypes [arg1]

def accountRemoved : Json Text D := getLog .accountRemoved []

def accessDenied (arg1 : Text) : Json Text D := getLog .accessDenied [arg1]

def queryNotSupported : Json Text D := getLog .queryNotSupported []

def createLimitReachedForResource : Json Text D := getLog .createLimitReachedForResource []

def generalError : Json Text D := getLog .generalError []

def success : Json Text D := getLog .success []

def created : Json Text D := getLog .created []

def noOperation : Json Text D := getLog .noOperation []

def propertyUnknown (arg1 : Text) : Json Text D := getLog .propertyUnknown [arg1]

def noValidSession : Json Text D := getLog .noValidSession []

def invalidObject (arg1 : Text) : Json Text D := getLog .invalidObject [arg1]

def resourceInStandby : Json Text D := getLog .resourceInStandby []

def actionParameterValueTypeError (arg1 : Json Text D) (arg2 arg3 : Text) : Json Text D :=
  getLog .actionParameterValueTypeError [dump 2 arg1, arg2, arg3]

def sessionLimitExceeded : Json Text D := getLog .sessionLimitExceeded []

def actionNotSupported (arg1 : Text) : Json Text D := getLog .actionNotSupported [arg1]

def invalidIndex (arg1 : ℤ) : Json Text D := getLog .invalidIndex [to_string arg1]

def emptyJSON : Json Text D := getLog .emptyJSON []

def queryNotSupportedOnResource : Json Text D := getLog .queryNotSupportedOnResource []

def queryNotSupportedOnOperation : Json Text D := getLog .queryNotSupportedOnOperation []

def queryCombinationInvalid : Json Text D := getLog .queryCombinationInvalid []

def insufficientPrivilege : Json Text D := getLog .insufficientPrivilege []

def propertyValueModified (arg1 : Text) (arg2 : Json Text D) : Json Text D :=
  getLog .propertyValueModified [arg1, dump 2 arg2]

def accountNotModified : Json Text D := getLog .accountNotModified []

def queryParameterValueFormatError (arg1 : Json Text D) (arg2 : Text) : Json Text D :=
  getLog .queryParameterValueFormatError [dump 2 arg1, arg2]

def propertyMissing (arg1 : Text) : Json Text D := getLog .propertyMissing [arg1]

def resourceExhaustion (arg1 : Text) : Json Text D := getLog .resourceExhaustion [arg1]

def accountModified : Json Text D := getLog .accountModified []

def queryParameterOutOfRange (arg1 arg2 arg3 : Text) : Json Text D :=
  getLog .queryParameterOutOfRange [arg1, arg2, arg3]

def passwordChangeRequired (arg1 : Text) : Json Text D := getLog .passwordChangeRequired [arg1]

def insufficientStorage : Json Text D := getLog .insufficientStorage []

def operationNotAllowed : Json Text D := getLog .operationNotAllowed []

def arraySizeTooLong (property : Text) (length : ℕ) : Json Text D :=
  getLog .arraySizeTooLong [property, to_string length]

end Builders

inductive Builder (D : Type) where
  | resourceInUse
  | malformedJSON
  | resourceMissingAtURI (arg1 : Text)
  | actionParameterValueFormatError (arg1 : Json Text D) (arg2 arg3 : Text)
  | actionParameterValueNotInList (arg1 arg2 arg3 : Text)
  | internalError
  | unrecognizedRequestBody
  | resourceAtUriUnauthorized (arg1 arg2 : Text)
  | actionParameterUnknown (arg1 arg2 : Text)
  | resourceCannotBeDeleted
  | propertyDuplicate (arg1 : Text)
  | serviceTemporarilyUnavailable (arg1 : Text)
  | resourceAlreadyExists (arg1 arg2 arg3 : Text)
  | accountForSessionNoLongerExists
  | createFailedMissingReqProperties (arg1 : Text)
  | propertyValueFormatError (arg1 : Json Text D) (arg2 : Text)
  | propertyValueNotInList (arg1 : Json Text D) (arg2 : Text)
  | propertyValueOutOfRange (arg1 : Json Text D) (arg2 : Text)
  | resourceAtUriInUnknownFormat (arg1 : Text)
  | serviceDisabled (arg1 : Text)
  | serviceInUnknownState
  | eventSubscriptionLimitExceeded
  | actionParameterMissing (arg1 arg2 : Text)
  | stringValueTooLong (arg1 : Text) (arg2 : ℤ)
  | sessionTerminated
  | subscriptionTerminated
  | resourceTypeIncompatible (arg1 arg2 : Text)
  | resetRequired (arg1 arg2 : Text)
  | chassisPowerStateOnRequired (arg1 : Text)
  | chassisPowerStateOffRequired (arg1 : Text)
  | propertyValueConflict (arg1 arg2 : Text)
  | propertyValueResourceConflict (arg1 : Text) (arg2 : Json Text D) (arg3 : Text)
  | propertyValueExternalConflict (arg1 : Text) (arg2 : Json Text D)
  | propertyValueIncorrect (arg1 : Json Text D) (arg2 : Text)
  | resourceCreationConflict (arg1 : Text)
  | maximumErrorsExceeded
  | preconditionFailed
  | preconditionRequired
  | operationFailed
  | operationTimeout
  | propertyValueTypeError (arg1 : Json Text D) (arg2 : Text)
  | resourceNotFound (arg1 arg2 : Text)
  | couldNotEstablishConnection (arg1 : Text)
  | propertyNotWritable (arg1 : Text)
  | queryParameterValueTypeError (arg1 : Json Text D) (arg2 : Text)
  | serviceShuttingDown
  | actionParameterDuplicate (arg1 arg2 : Text)
  | actionParameterNotSupported (arg1 arg2 : Text)
  | sourceDoesNotSupportProtocol (arg1 arg2 : Text)
  | strictAccountTypes (arg1 : Text)
  | accountRemoved
  | accessDenied (arg1 : Text)
  | queryNotSupported
  | createLimitReachedForResource
  | generalError
  | success
  | created
  | noOperation
  | propertyUnknown (arg1 : Text)
  | noValidSession
  | invalidObject (arg1 : Text)
  | resourceInStandby
  | actionParameterValueTypeError (arg1 : Json Text D) (arg2 arg3 : Text)
  | sessionLimitExceeded
  | actionNotSupported (arg1 : Text)
  | invalidIndex (arg1 : ℤ)
  | emptyJSON
  | queryNotSupportedOnResource
  | queryNotSupportedOnOperation
  | queryCombinationInvalid
  | insufficientPrivilege
  | propertyValueModified (arg1 : Text) (arg2 : Json Text D)
  | accountNotModified
  | queryParameterValueFormatError (arg1 : Json Text D) (arg2 : Text)
  | propertyMissing (arg1 : Text)
  | resourceExhaustion (arg1 : Text)
  | accountModified
  | queryParameterOutOfRange (arg1 arg2 arg3 : Text)
  | passwordChangeRequired (arg1 : Text)
  | insufficientStorage
  | operationNotAllowed
  | arraySizeTooLong (property : Text) (length : ℕ)

namespace Builder
variable {D : Type} (dump : ℤ → Json Text D → Text)

def message : Builder D → Json Text D
  | .resourceInUse => MessageBuilders.resourceInUse
  | .malformedJSON => MessageBuilders.malformedJSON
  | .resourceMissingAtURI arg1 => MessageBuilders.resourceMissingAtURI arg1
  | .actionParameterValueFormatError arg1 arg2 arg3 =>
    MessageBuilders.actionParameterValueFormatError dump arg1 arg2 arg3
  | .actionParameterValueNotInList arg1 arg2 arg3 =>
    MessageBuilders.actionParameterValueNotInList arg1 arg2 arg3
  | .internalError => MessageBuilders.internalError
  | .unrecognizedRequestBody => MessageBuilders.unrecognizedRequestBody
  | .resourceAtUriUnauthorized arg1 arg2 => MessageBuilders.resourceAtUriUnauthorized arg1 arg2
  | .actionParameterUnknown arg1 arg2 => MessageBuilders.actionParameterUnknown arg1 arg2
  | .resourceCannotBeDeleted => MessageBuilders.resourceCannotBeDeleted
  | .propertyDuplicate arg1 => MessageBuilders.propertyDuplicate arg1
  | .serviceTemporarilyUnavailable arg1 => MessageBuilders.serviceTemporarilyUnavailable arg1
  | .resourceAlreadyExists arg1 arg2 arg3 => MessageBuilders.resourceAlreadyExists arg1 arg2 arg3
  | .accountForSessionNoLongerExists => MessageBuilders.accountForSessionNoLongerExists
  | .createFailedMissingReqProperties arg1 => MessageBuilders.createFailedMissingReqProperties arg1
  | .propertyValueFormatError arg1 arg2 => MessageBuilders.propertyValueFormatError dump arg1 arg2
  | .propertyValueNotInList arg1 arg2 => MessageBuilders.propertyValueNotInList dump arg1 arg2
  | .propertyValueOutOfRange arg1 arg2 => MessageBuilders.propertyValueOutOfRange dump arg1 arg2
  | .resourceAtUriInUnknownFormat arg1 => MessageBuilders.resourceAtUriInUnknownFormat arg1
  | .serviceDisabled arg1 => MessageBuilders.serviceDisabled arg1
  | .serviceInUnknownState => MessageBuilders.serviceInUnknownState
  | .eventSubscriptionLimitExceeded => MessageBuilders.eventSubscriptionLimitExceeded
  | .actionParameterMissing arg1 arg2 => MessageBuilders.actionParameterMissing arg1 arg2
  | .stringValueTooLong arg1 arg2 => MessageBuilders.stringValueTooLong arg1 arg2
  | .sessionTerminated => MessageBuilders.sessionTerminated
  | .subscriptionTerminated => MessageBuilders.subscriptionTerminated
  | .resourceTypeIncompatible arg1 arg2 => MessageBuilders.resourceTypeIncompatible arg1 arg2
  | .resetRequired arg1 arg2 => MessageBuilders.resetRequired arg1 arg2
  | .chassisPowerStateOnRequired arg1 => MessageBuilders.chassisPowerStateOnRequired arg1
  | .chassisPowerStateOffRequired arg1 => MessageBuilders.chassisPowerStateOffRequired arg1
  | .propertyValueConflict arg1 arg2 => MessageBuilders.propertyValueConflict arg1 arg2
  | .propertyValueResourceConflict arg1 arg2 arg3 =>
    MessageBuilders.propertyValueResourceConflict dump arg1 arg2 arg3
  | .propertyValueExternalConflict arg1 arg2 =>
    MessageBuilders.propertyValueExternalConflict dump arg1 arg2
  | .propertyValueIncorrect arg1 arg2 => MessageBuilders.propertyValueIncorrect dump arg1 arg2
  | .resourceCreationConflict arg1 => MessageBuilders.resourceCreationConflict arg1
  | .maximumErrorsExceeded => MessageBuilders.maximumErrorsExceeded
  | .preconditionFailed => MessageBuilders.preconditionFailed
  | .preconditionRequired => MessageBuilders.preconditionRequired
  | .operationFailed => MessageBuilders.operationFailed
  | .operationTimeout => MessageBuilders.operationTimeout
  | .propertyValueTypeError arg1 arg2 => MessageBuilders.propertyValueTypeError dump arg1 arg2
  | .resourceNotFound arg1 arg2 => MessageBuilders.resourceNotFound arg1 arg2
  | .couldNotEstablishConnection arg1 => MessageBuilders.couldNotEstablishConnection arg1
  | .propertyNotWritable arg1 => MessageBuilders.propertyNotWritable arg1
  | .queryParameterValueTypeError arg1 arg2 =>
    MessageBuilders.queryParameterValueTypeError dump arg1 arg2
  | .serviceShuttingDown => MessageBuilders.serviceShuttingDown
  | .actionParameterDuplicate arg1 arg2 => MessageBuilders.actionParameterDuplicate arg1 arg2
  | .actionParameterNotSupported arg1 arg2 => MessageBuilders.actionParameterNotSupported arg1 arg2
  | .sourceDoesNotSupportProtocol arg1 arg2 =>
    MessageBuilders.sourceDoesNotSupportProtocol arg1 arg2
  | .strictAccountTypes arg1 => MessageBuilders.strictAccountTypes arg1
  | .accountRemoved => MessageBuilders.accountRemoved
  | .accessDenied arg1 => MessageBuilders.accessDenied arg1
  | .queryNotSupported => MessageBuilders.queryNotSupported
  | .createLimitReachedForResource => MessageBuilders.createLimitReachedForResource
  | .generalError => MessageBuilders.generalError
  | .success => MessageBuilders.success
  | .created => MessageBuilders.created
  | .noOperation => MessageBuilders.noOperation
  | .propertyUnknown arg1 => MessageBuilders.propertyUnknown arg1
  | .noValidSession => MessageBuilders.noValidSession
  | .invalidObject arg1 => MessageBuilders.invalidObject arg1
  | .resourceInStandby => MessageBuilders.resourceInStandby
  | .actionParameterValueTypeError arg1 arg2 arg3 =>
    MessageBuilders.actionParameterValueTypeError dump arg1 arg2 arg3
  | .sessionLimitExceeded => MessageBuilders.sessionLimitExceeded
  | .actionNotSupported arg1 => MessageBuilders.actionNotSupported arg1
  | .invalidIndex arg1 => MessageBuilders.invalidIndex arg1
  | .emptyJSON => MessageBuilders.emptyJSON
  | .queryNotSupportedOnResource => MessageBuilders.queryNotSupportedOnResource
  | .queryNotSupportedOnOperation => MessageBuilders.queryNotSupportedOnOperation
  | .queryCombinationInvalid => MessageBuilders.queryCombinationInvalid
  | .insufficientPrivilege => MessageBuilders.insufficientPrivilege
  | .propertyValueModified arg1 arg2 => MessageBuilders.propertyValueModified dump arg1 arg2
  | .accountNotModified => MessageBuilders.accountNotModified
  | .queryParameterValueFormatError arg1 arg2 =>
    MessageBuilders.queryParameterValueFormatError dump arg1 arg2
  | .propertyMissing arg1 => MessageBuilders.propertyMissing arg1
  | .resourceExhaustion arg1 => MessageBuilders.resourceExhaustion arg1
  | .accountModified => MessageBuilders.accountModified
  | .queryParameterOutOfRange arg1 arg2 arg3 =>
    MessageBuilders.queryParameterOutOfRange arg1 arg2 arg3
  | .passwordChangeRequired arg1 => MessageBuilders.passwordChangeRequired arg1
  | .insufficientStorage => MessageBuilders.insufficientStorage
  | .operationNotAllowed => MessageBuilders.operationNotAllowed
  | .arraySizeTooLong property length => MessageBuilders.arraySizeTooLong property length

/-- The entry of the name of the builder, and the texts of the arguments. -/
def entryOf : Builder D → String × List Text
  | .resourceInUse => ("ResourceInUse", [])
  | .malformedJSON => ("MalformedJSON", [])
  | .resourceMissingAtURI arg1 => ("ResourceMissingAtURI", [arg1])
  | .actionParameterValueFormatError arg1 arg2 arg3 =>
    ("ActionParameterValueFormatError", [dump 2 arg1, arg2, arg3])
  | .actionParameterValueNotInList arg1 arg2 arg3 =>
    ("ActionParameterValueNotInList", [arg1, arg2, arg3])
  | .internalError => ("InternalError", [])
  | .unrecognizedRequestBody => ("UnrecognizedRequestBody", [])
  | .resourceAtUriUnauthorized arg1 arg2 => ("ResourceAtUriUnauthorized", [arg1, arg2])
  | .actionParameterUnknown arg1 arg2 => ("ActionParameterUnknown", [arg1, arg2])
  | .resourceCannotBeDeleted => ("ResourceCannotBeDeleted", [])
  | .propertyDuplicate arg1 => ("PropertyDuplicate", [arg1])
  | .serviceTemporarilyUnavailable arg1 => ("ServiceTemporarilyUnavailable", [arg1])
  | .resourceAlreadyExists arg1 arg2 arg3 => ("ResourceAlreadyExists", [arg1, arg2, arg3])
  | .accountForSessionNoLongerExists => ("AccountForSessionNoLongerExists", [])
  | .createFailedMissingReqProperties arg1 => ("CreateFailedMissingReqProperties", [arg1])
  | .propertyValueFormatError arg1 arg2 => ("PropertyValueFormatError", [dump 2 arg1, arg2])
  | .propertyValueNotInList arg1 arg2 => ("PropertyValueNotInList", [dump (-1) arg1, arg2])
  | .propertyValueOutOfRange arg1 arg2 => ("PropertyValueOutOfRange", [dump 2 arg1, arg2])
  | .resourceAtUriInUnknownFormat arg1 => ("ResourceAtUriInUnknownFormat", [arg1])
  | .serviceDisabled arg1 => ("ServiceDisabled", [arg1])
  | .serviceInUnknownState => ("ServiceInUnknownState", [])
  | .eventSubscriptionLimitExceeded => ("EventSubscriptionLimitExceeded", [])
  | .actionParameterMissing arg1 arg2 => ("ActionParameterMissing", [arg1, arg2])
  | .stringValueTooLong arg1 arg2 => ("StringValueTooLong", [arg1, to_string arg2])
  | .sessionTerminated => ("SessionTerminated", [])
  | .subscriptionTerminated => ("SubscriptionTerminated", [])
  | .resourceTypeIncompatible arg1 arg2 => ("ResourceTypeIncompatible", [arg1, arg2])
  | .resetRequired arg1 arg2 => ("ResetRequired", [arg1, arg2])
  | .chassisPowerStateOnRequired arg1 => ("ChassisPowerStateOnRequired", [arg1])
  | .chassisPowerStateOffRequired arg1 => ("ChassisPowerStateOffRequired", [arg1])
  | .propertyValueConflict arg1 arg2 => ("PropertyValueConflict", [arg1, arg2])
  | .propertyValueResourceConflict arg1 arg2 arg3 =>
    ("PropertyValueResourceConflict", [arg1, dump 2 arg2, arg3])
  | .propertyValueExternalConflict arg1 arg2 =>
    ("PropertyValueExternalConflict", [arg1, dump 2 arg2])
  | .propertyValueIncorrect arg1 arg2 => ("PropertyValueIncorrect", [dump 2 arg1, arg2])
  | .resourceCreationConflict arg1 => ("ResourceCreationConflict", [arg1])
  | .maximumErrorsExceeded => ("MaximumErrorsExceeded", [])
  | .preconditionFailed => ("PreconditionFailed", [])
  | .preconditionRequired => ("PreconditionRequired", [])
  | .operationFailed => ("OperationFailed", [])
  | .operationTimeout => ("OperationTimeout", [])
  | .propertyValueTypeError arg1 arg2 => ("PropertyValueTypeError", [dump 2 arg1, arg2])
  | .resourceNotFound arg1 arg2 => ("ResourceNotFound", [arg1, arg2])
  | .couldNotEstablishConnection arg1 => ("CouldNotEstablishConnection", [arg1])
  | .propertyNotWritable arg1 => ("PropertyNotWritable", [arg1])
  | .queryParameterValueTypeError arg1 arg2 => ("QueryParameterValueTypeError", [dump 2 arg1, arg2])
  | .serviceShuttingDown => ("ServiceShuttingDown", [])
  | .actionParameterDuplicate arg1 arg2 => ("ActionParameterDuplicate", [arg1, arg2])
  | .actionParameterNotSupported arg1 arg2 => ("ActionParameterNotSupported", [arg1, arg2])
  | .sourceDoesNotSupportProtocol arg1 arg2 => ("SourceDoesNotSupportProtocol", [arg1, arg2])
  | .strictAccountTypes arg1 => ("StrictAccountTypes", [arg1])
  | .accountRemoved => ("AccountRemoved", [])
  | .accessDenied arg1 => ("AccessDenied", [arg1])
  | .queryNotSupported => ("QueryNotSupported", [])
  | .createLimitReachedForResource => ("CreateLimitReachedForResource", [])
  | .generalError => ("GeneralError", [])
  | .success => ("Success", [])
  | .created => ("Created", [])
  | .noOperation => ("NoOperation", [])
  | .propertyUnknown arg1 => ("PropertyUnknown", [arg1])
  | .noValidSession => ("NoValidSession", [])
  | .invalidObject arg1 => ("InvalidObject", [arg1])
  | .resourceInStandby => ("ResourceInStandby", [])
  | .actionParameterValueTypeError arg1 arg2 arg3 =>
    ("ActionParameterValueTypeError", [dump 2 arg1, arg2, arg3])
  | .sessionLimitExceeded => ("SessionLimitExceeded", [])
  | .actionNotSupported arg1 => ("ActionNotSupported", [arg1])
  | .invalidIndex arg1 => ("InvalidIndex", [to_string arg1])
  | .emptyJSON => ("EmptyJSON", [])
  | .queryNotSupportedOnResource => ("QueryNotSupportedOnResource", [])
  | .queryNotSupportedOnOperation => ("QueryNotSupportedOnOperation", [])
  | .queryCombinationInvalid => ("QueryCombinationInvalid", [])
  | .insufficientPrivilege => ("InsufficientPrivilege", [])
  | .propertyValueModified arg1 arg2 => ("PropertyValueModified", [arg1, dump 2 arg2])
  | .accountNotModified => ("AccountNotModified", [])
  | .queryParameterValueFormatError arg1 arg2 =>
    ("QueryParameterValueFormatError", [dump 2 arg1, arg2])
  | .propertyMissing arg1 => ("PropertyMissing", [arg1])
  | .resourceExhaustion arg1 => ("ResourceExhaustion", [arg1])
  | .accountModified => ("AccountModified", [])
  | .queryParameterOutOfRange arg1 arg2 arg3 => ("QueryParameterOutOfRange", [arg1, arg2, arg3])
  | .passwordChangeRequired arg1 => ("PasswordChangeRequired", [arg1])
  | .insufficientStorage => ("InsufficientStorage", [])
  | .operationNotAllowed => ("OperationNotAllowed", [])
  | .arraySizeTooLong property length => ("ArraySizeTooLong", [property, to_string length])

end Builder

/-- Each placeholder is one digit, the number of an argument, and none is at the start. -/
def coversTemplate (numberOfArgs : ℕ) (msg : Text) : Bool :=
  numberOfArgs < 2 ^ 64 && msg.head?.any (· ≠ '%') && (placeholders msg).all fun run =>
    run.length = 1 ∧ 1 ≤ numberOf id run ∧ numberOf id run ≤ numberOfArgs

def Covered (entry : MessageEntry) : Prop :=
  coversTemplate entry.2.numberOfArgs entry.2.message.toList = true

theorem covered_of_eq {entry : MessageEntry} (msg : Text) (h : entry.2.message = String.ofList msg)
    (hmsg : coversTemplate entry.2.numberOfArgs msg = true) : Covered entry := by
  rw [Covered, h, String.toList_ofList, hmsg]

set_option maxRecDepth 4000 in
theorem registry_covered : ∀ entry ∈ registry, Covered entry := by
  unfold registry
  simp only [List.forall_mem_cons, List.not_mem_nil, false_imp_iff, implies_true, and_true]
  and_intros
  all_goals exact covered_of_eq _ rfl rfl

theorem fill_of_covers {args : List Text} {msg : Text} (h : coversTemplate args.length msg = true) :
    (∀ run ∈ placeholders msg, Names args run) ∧
      fillMessageArgs args msg = substitute args msg ∧ substitute args msg ≠ [] := by
  unfold coversTemplate at h
  rw [Bool.and_eq_true, Bool.and_eq_true] at h
  obtain ⟨⟨hargs, hhead⟩, hall⟩ := h
  have hruns : ∀ run ∈ placeholders msg, Names args run ∧ run.drop 1 = [] := by
    intro run hrun
    have hrun' := List.all_eq_true.1 hall run hrun
    obtain ⟨hone, hpos, hle⟩ := of_decide_eq_true hrun'
    have hne : run ≠ [] := List.ne_nil_of_length_eq_add_one hone
    have hdrop : run.drop 1 = [] := List.drop_eq_nil_iff.2 hone.le
    exact ⟨⟨hne, hpos, hle⟩, hdrop⟩
  have hnames : ∀ run ∈ placeholders msg, Names args run := fun run hrun => (hruns run hrun).1
  refine ⟨hnames, ?_, ?_⟩
  · rw [fillMessageArgs, (fillLoop_eq (of_decide_eq_true hargs) [] msg).1 hnames, List.nil_append]
    exact replaced_eq_substitute fun run hrun => (hruns run hrun).2
  · cases msg with
    | nil => cases hhead
    | cons ch msg =>
      have hch : ch ≠ '%' := of_decide_eq_true hhead
      rw [substitute, replaced, if_neg hch]
      exact List.cons_ne_nil _ _

section Messages
variable {D : Type}

theorem toList_beq {key name : String} (h : key ≠ name) : (key.toList == name.toList) = false :=
  beq_false_of_ne fun heq => h (String.toList_inj.1 heq)

theorem getLog_eq {name : Index} {entry : MessageEntry}
    (hentry : registry[name.value]? = some entry) (args : List Text) : entry ∈ registry ∧
      (getLog name args : Json Text D).find "MessageId".toList =
        some (.string (header.id.toList ++ ".".toList ++ entry.1.toList)) ∧
      (getLog name args : Json Text D).find "Message".toList =
        some (.string (fillMessageArgs args entry.2.message.toList)) := by
  obtain ⟨hindex, rfl⟩ := List.getElem?_eq_some_iff.1 hentry
  refine ⟨List.getElem_mem hindex, ?_, ?_⟩
  · rw [getLog, dif_pos hindex, getLogFromRegistry, Json.find]
    simp only [List.lookup, toList_beq (by decide : "MessageId" ≠ "@odata.type"),
      toList_beq (by decide : "MessageId" ≠ "Message"),
      toList_beq (by decide : "MessageId" ≠ "MessageArgs"), beq_self_eq_true]
    rfl
  · rw [getLog, dif_pos hindex, getLogFromRegistry, Json.find]
    simp only [List.lookup, toList_beq (by decide : "Message" ≠ "@odata.type"), beq_self_eq_true]
    rfl

/-- The message names the entry, whose template it has with all placeholders filled. -/
structure Complete (message : Json Text D) (entryName : String) (args : List Text) : Prop where
  messageId : message.find "MessageId".toList =
    some (.string (header.id.toList ++ ".".toList ++ entryName.toList))
  filled : ∃ entry ∈ registry, entry.1 = entryName ∧
    (∀ run ∈ placeholders entry.2.message.toList, Names args run) ∧
    message.find "Message".toList = some (.string (substitute args entry.2.message.toList)) ∧
    substitute args entry.2.message.toList ≠ []

def Pairs (name : Index) (entryName : String) (args : List Text) : Prop :=
  (registry[name.value]?).map (fun entry => (entry.1, entry.2.numberOfArgs)) =
    some (entryName, args.length)

theorem complete_getLog {name : Index} {entryName : String} {args : List Text}
    (h : Pairs name entryName args) : Complete (getLog name args : Json Text D) entryName args := by
  obtain ⟨entry, hentry, hpair⟩ := Option.map_eq_some_iff.1 h
  obtain ⟨rfl, hargs⟩ := Prod.mk.inj hpair
  obtain ⟨hmem, hid, hmessage⟩ := getLog_eq (D := D) hentry args
  have hcovered : coversTemplate args.length entry.2.message.toList = true := by
    rw [← hargs]
    exact registry_covered entry hmem
  obtain ⟨hnames, hfill, hne⟩ := fill_of_covers hcovered
  rw [hfill] at hmessage
  exact ⟨hid, entry, hmem, rfl, hnames, hmessage, hne⟩

theorem value_lt (name : Index) : name.value < registry.length := by
  have hlength : registry.length = 110 := rfl
  rw [hlength]
  cases name <;> decide

theorem getLog_complete (name : Index) : ∃ entry ∈ registry, ∀ args : List Text,
    args.length = entry.2.numberOfArgs →
      Complete (getLog name args : Json Text D) entry.1 args := by
  have hentry := List.getElem?_eq_getElem (value_lt name)
  refine ⟨_, List.getElem_mem (value_lt name), fun args hargs => complete_getLog ?_⟩
  rw [Pairs, hentry, Option.map_some, hargs]

theorem message_eq_getLog (dump : ℤ → Json Text D → Text) (b : Builder D)
    (h : ∀ arg1, b ≠ .chassisPowerStateOnRequired arg1) : ∃ name : Index,
      b.message dump = getLog name (b.entryOf dump).2 ∧
        Pairs name (b.entryOf dump).1 (b.entryOf dump).2 := by
  cases b with
  | chassisPowerStateOnRequired arg1 => exact (h arg1 rfl).elim
  | _ =>
    unfold Builder.message
    exact ⟨_, rfl, rfl⟩

theorem fill_of_not_names {args : List Text} {template : String} (msg : Text)
    (htemplate : template = String.ofList msg) (hargs : args.length < 2 ^ 64) (run : List Char)
    (hrun : run ∈ placeholders msg) (hbad : ¬ Names args run) :
    fillMessageArgs args template.toList = [] := by
  rw [htemplate, String.toList_ofList]
  exact (fillLoop_eq hargs [] msg).2 ⟨run, hrun, hbad⟩

set_option maxRecDepth 4000 in
theorem registry_resetRequired : ∃ entry msg,
    registry[Index.resetRequired.value]? = some ("ResetRequired", entry) ∧
      entry.message = String.ofList msg ∧ ['2'] ∈ placeholders msg :=
  ⟨_, _, rfl, rfl, by decide⟩

theorem getLog_resetRequired (arg1 : Text) :
    (getLog .resetRequired [arg1] : Json Text D).find "MessageId".toList =
        some (.string (header.id.toList ++ ".".toList ++ "ResetRequired".toList)) ∧
      (getLog .resetRequired [arg1] : Json Text D).find "Message".toList = some (.string []) := by
  obtain ⟨entry, msg, hentry, htemplate, hrun⟩ := registry_resetRequired
  obtain ⟨-, hid, hmessage⟩ := getLog_eq (D := D) hentry [arg1]
  have hargs : [arg1].length < 2 ^ 64 := Nat.one_lt_two_pow (by decide)
  have hbad : ¬ Names [arg1] ['2'] := by
    intro h
    have hle : 2 ≤ 1 := h.le
    omega
  rw [fill_of_not_names msg htemplate hargs ['2'] hrun hbad] at hmessage
  exact ⟨hid, hmessage⟩

/-- A message is complete if and only if its builder is not the one that takes the entry
of another message. -/
theorem builder_complete_iff (dump : ℤ → Json Text D → Text) (b : Builder D) :
    Complete (b.message dump) (b.entryOf dump).1 (b.entryOf dump).2 ↔
      ∀ arg1, b ≠ .chassisPowerStateOnRequired arg1 := by
  constructor
  · rintro h arg1 rfl
    obtain ⟨hid, -⟩ := getLog_resetRequired (D := D) arg1
    have heq := Json.string.inj (Option.some.inj (hid.symm.trans h.messageId))
    have hname : "ResetRequired" = "ChassisPowerStateOnRequired" :=
      String.toList_inj.1 (List.append_cancel_left heq)
    exact absurd hname (by decide)
  · intro h
    obtain ⟨name, hmessage, hentry⟩ := message_eq_getLog dump b h
    rw [hmessage]
    exact complete_getLog hentry

/-- Its message names the other entry and is empty. -/
theorem chassisPowerStateOnRequired_empty (arg1 : Text) :
    (chassisPowerStateOnRequired arg1 : Json Text D).find "MessageId".toList =
        some (.string (header.id.toList ++ ".".toList ++ "ResetRequired".toList)) ∧
      (chassisPowerStateOnRequired arg1 : Json Text D).find "Message".toList =
        some (.string []) :=
  getLog_resetRequired arg1

theorem isMessage_getLog (name : Index) (args : List Text) :
    ErrorAggregation.IsMessage (getLog name args : Json Text D) := by
  have hentry := List.getElem?_eq_getElem (value_lt name)
  obtain ⟨-, hid, hmessage⟩ := getLog_eq (D := D) hentry args
  exact ⟨hid ▸ rfl, hmessage ▸ rfl⟩

def indexOf : ErrorMessages.Index → Index
  | .unrecognizedRequestBody => .unrecognizedRequestBody
  | .propertyUnknown => .propertyUnknown
  | .propertyValueTypeError => .propertyValueTypeError
  | .propertyValueNotInList => .propertyValueNotInList
  | .propertyMissing => .propertyMissing

def baseRegistry (dump : ℤ → Json Text D → Text) : ErrorMessages.Registry D where
  getLog name := getLog (indexOf name)
  dump := dump

theorem baseRegistry_complete (dump : ℤ → Json Text D → Text) (name : ErrorMessages.Index) :
    ∃ entry ∈ registry, ∀ args : List Text, args.length = entry.2.numberOfArgs →
      Complete ((baseRegistry dump).getLog name args) entry.1 args :=
  getLog_complete (indexOf name)

theorem isMessage_baseRegistry (dump : ℤ → Json Text D → Text) (name : ErrorMessages.Index)
    (args : List Text) : ErrorAggregation.IsMessage ((baseRegistry dump).getLog name args) :=
  isMessage_getLog (indexOf name) args

end Messages

theorem chassisPowerStateOnRequired_incomplete :
    ¬ ∀ (dump : ℤ → Json Text ℕ → Text) (b : Builder ℕ),
      Complete (b.message dump) (b.entryOf dump).1 (b.entryOf dump).2 := by
  intro h
  have hcomplete := h (fun _ _ => []) (.chassisPowerStateOnRequired "/redfish/v1/Chassis/1".toList)
  obtain ⟨entry, -, -, -, hmessage, hne⟩ := hcomplete.filled
  obtain ⟨-, hempty⟩ := getLog_resetRequired (D := ℕ) "/redfish/v1/Chassis/1".toList
  exact hne (Json.string.inj (Option.some.inj (hmessage.symm.trans hempty)))

end CrowCore.MessageBuilders
