import CrowCore.ErrorAggregation
import CrowCore.MessageBuilders

set_option autoImplicit false

/-!
# Reporting messages

Each reporter sets the status of a response and adds the message of the builder of its
name, under "error", beside a property or at the root.
-/
namespace CrowCore.ErrorReporters
open JsonValue ErrorMessages ErrorAggregation
open MessageBuilders (Builder getLog)

namespace Status

def ok : ℕ := 200
def created : ℕ := 201
def badRequest : ℕ := 400
def unauthorized : ℕ := 401
def forbidden : ℕ := 403
def notFound : ℕ := 404
def methodNotAllowed : ℕ := 405
def conflict : ℕ := 409
def preconditionFailed : ℕ := 412
def internalServerError : ℕ := 500
def badGateway : ℕ := 502
def serviceUnavailable : ℕ := 503
def insufficientStorage : ℕ := 507

end Status

section Reports
variable {D : Type}

/-- The part of `crow::Response` that reporters change, with its Retry-After headers. -/
structure Reported (D : Type) extends Response D where
  retryAfter : List Text := []

inductive Place where
  | error
  | root
  | property (fieldPath : Text)

def addMessageToJsonRoot (target message : Json Text D) : Except JsonError (Json Text D) := do
  let target ← target.modify messageAnnotation fun annotation =>
    return if annotation.isArray then annotation else .array []
  target.modify messageAnnotation fun annotation => annotation.pushBack message

def Place.add (target message : Json Text D) : Place → Except JsonError (Json Text D)
  | .error => addMessageToErrorJson target message
  | .root => addMessageToJsonRoot target message
  | .property fieldPath => addMessageToJson target message fieldPath

/-- What a reporter does: the header it adds, the status it sets, and its message. -/
structure Report (D : Type) where
  retryAfter : Option Text := none
  result : Option ℕ
  place : Place
  message : Json Text D

def Report.perform (report : Report D) (res : Reported D) : Except JsonError (Reported D) := do
  let jsonValue ← report.place.add res.jsonValue report.message
  return {
    result := report.result.getD res.result, jsonValue
    retryAfter := res.retryAfter ++ report.retryAfter.toList }

def errorReport (result : ℕ) (message : Json Text D) : Report D :=
  { result := some result, place := .error, message }

def rootReport (result : Option ℕ) (message : Json Text D) : Report D :=
  { result, place := .root, message }

def propertyReport (result : ℕ) (message : Json Text D) (fieldPath : Text) : Report D :=
  { result := some result, place := .property fieldPath, message }

def invalidUploadMessage (arg1 arg2 : Text) : Json Text D :=
  .object [
    ("@odata.type".toList, .string "/redfish/v1/$metadata#Message.v1_1_1.Message".toList),
    ("Message".toList, .string
      ("Invalid file uploaded to ".toList ++ arg1 ++ ": ".toList ++ arg2 ++ ".".toList)),
    ("MessageArgs".toList, .array [.string arg1, .string arg2]),
    ("MessageId".toList, .string "OpenBMC.0.2.InvalidUpload".toList),
    ("MessageSeverity".toList, .string "Warning".toList),
    ("Resolution".toList, .string "None.".toList)]

variable (dump : ℤ → Json Text D → Text)

def resourceInUse : Report D := errorReport Status.serviceUnavailable MessageBuilders.resourceInUse

def malformedJSON : Report D := errorReport Status.badRequest MessageBuilders.malformedJSON

def resourceMissingAtURI (arg1 : Text) : Report D :=
  errorReport Status.badRequest (MessageBuilders.resourceMissingAtURI arg1)

def actionParameterValueFormatError (arg1 : Json Text D) (arg2 arg3 : Text) : Report D :=
  errorReport Status.badRequest
    (MessageBuilders.actionParameterValueFormatError dump arg1 arg2 arg3)

def actionParameterValueNotInList (arg1 arg2 arg3 : Text) : Report D :=
  errorReport Status.badRequest (MessageBuilders.actionParameterValueNotInList arg1 arg2 arg3)

def internalError : Report D := errorReport Status.internalServerError MessageBuilders.internalError

def unrecognizedRequestBody : Report D :=
  errorReport Status.badRequest MessageBuilders.unrecognizedRequestBody

def resourceAtUriUnauthorized (arg1 arg2 : Text) : Report D :=
  errorReport Status.unauthorized (MessageBuilders.resourceAtUriUnauthorized arg1 arg2)

def actionParameterUnknown (arg1 arg2 : Text) : Report D :=
  errorReport Status.badRequest (MessageBuilders.actionParameterUnknown arg1 arg2)

def resourceCannotBeDeleted : Report D :=
  errorReport Status.methodNotAllowed MessageBuilders.resourceCannotBeDeleted

def propertyDuplicate (arg1 : Text) : Report D :=
  propertyReport Status.badRequest (MessageBuilders.propertyDuplicate arg1) arg1

def serviceTemporarilyUnavailable (arg1 : Text) : Report D :=
  { errorReport Status.serviceUnavailable
    (MessageBuilders.serviceTemporarilyUnavailable arg1) with retryAfter := some arg1 }

def resourceAlreadyExists (arg1 arg2 arg3 : Text) : Report D :=
  propertyReport Status.badRequest (MessageBuilders.resourceAlreadyExists arg1 arg2 arg3) arg2

def accountForSessionNoLongerExists : Report D :=
  errorReport Status.forbidden MessageBuilders.accountForSessionNoLongerExists

def createFailedMissingReqProperties (arg1 : Text) : Report D :=
  propertyReport Status.badRequest (MessageBuilders.createFailedMissingReqProperties arg1) arg1

def propertyValueFormatError (arg1 : Json Text D) (arg2 : Text) : Report D :=
  propertyReport Status.badRequest (MessageBuilders.propertyValueFormatError dump arg1 arg2) arg2

def propertyValueNotInList (arg1 : Json Text D) (arg2 : Text) : Report D :=
  propertyReport Status.badRequest (MessageBuilders.propertyValueNotInList dump arg1 arg2) arg2

def propertyValueOutOfRange (arg1 : Json Text D) (arg2 : Text) : Report D :=
  errorReport Status.badRequest (MessageBuilders.propertyValueOutOfRange dump arg1 arg2)

def resourceAtUriInUnknownFormat (arg1 : Text) : Report D :=
  errorReport Status.badRequest (MessageBuilders.resourceAtUriInUnknownFormat arg1)

def serviceDisabled (arg1 : Text) : Report D :=
  errorReport Status.serviceUnavailable (MessageBuilders.serviceDisabled arg1)

def serviceInUnknownState : Report D :=
  errorReport Status.serviceUnavailable MessageBuilders.serviceInUnknownState

def eventSubscriptionLimitExceeded : Report D :=
  errorReport Status.serviceUnavailable MessageBuilders.eventSubscriptionLimitExceeded

def actionParameterMissing (arg1 arg2 : Text) : Report D :=
  errorReport Status.badRequest (MessageBuilders.actionParameterMissing arg1 arg2)

def stringValueTooLong (arg1 : Text) (arg2 : ℤ) : Report D :=
  errorReport Status.badRequest (MessageBuilders.stringValueTooLong arg1 arg2)

def sessionTerminated : Report D := rootReport (some Status.ok) MessageBuilders.sessionTerminated

def subscriptionTerminated : Report D :=
  rootReport (some Status.ok) MessageBuilders.subscriptionTerminated

def resourceTypeIncompatible (arg1 arg2 : Text) : Report D :=
  errorReport Status.badRequest (MessageBuilders.resourceTypeIncompatible arg1 arg2)

def resetRequired (arg1 arg2 : Text) : Report D :=
  errorReport Status.badRequest (MessageBuilders.resetRequired arg1 arg2)

def chassisPowerStateOnRequired (arg1 : Text) : Report D :=
  errorReport Status.badRequest (MessageBuilders.chassisPowerStateOnRequired arg1)

def chassisPowerStateOffRequired (arg1 : Text) : Report D :=
  errorReport Status.badRequest (MessageBuilders.chassisPowerStateOffRequired arg1)

def propertyValueConflict (arg1 arg2 : Text) : Report D :=
  errorReport Status.badRequest (MessageBuilders.propertyValueConflict arg1 arg2)

def propertyValueResourceConflict (arg1 : Text) (arg2 : Json Text D) (arg3 : Text) : Report D :=
  errorReport Status.conflict (MessageBuilders.propertyValueResourceConflict dump arg1 arg2 arg3)

def propertyValueExternalConflict (arg1 : Text) (arg2 : Json Text D) : Report D :=
  errorReport Status.conflict (MessageBuilders.propertyValueExternalConflict dump arg1 arg2)

def propertyValueIncorrect (arg1 : Json Text D) (arg2 : Text) : Report D :=
  errorReport Status.badRequest (MessageBuilders.propertyValueIncorrect dump arg1 arg2)

def resourceCreationConflict (arg1 : Text) : Report D :=
  errorReport Status.badRequest (MessageBuilders.resourceCreationConflict arg1)

def maximumErrorsExceeded : Report D :=
  errorReport Status.internalServerError MessageBuilders.maximumErrorsExceeded

def preconditionFailed : Report D :=
  errorReport Status.preconditionFailed MessageBuilders.preconditionFailed

def preconditionRequired : Report D :=
  errorReport Status.badRequest MessageBuilders.preconditionRequired

def operationFailed : Report D := errorReport Status.badGateway MessageBuilders.operationFailed

def operationTimeout : Report D :=
  errorReport Status.internalServerError MessageBuilders.operationTimeout

def propertyValueTypeError (arg1 : Json Text D) (arg2 : Text) : Report D :=
  propertyReport Status.badRequest (MessageBuilders.propertyValueTypeError dump arg1 arg2) arg2

def resourceNotFound (arg1 arg2 : Text) : Report D :=
  errorReport Status.notFound (MessageBuilders.resourceNotFound arg1 arg2)

def couldNotEstablishConnection (arg1 : Text) : Report D :=
  errorReport Status.notFound (MessageBuilders.couldNotEstablishConnection arg1)

def propertyNotWritable (arg1 : Text) : Report D :=
  propertyReport Status.forbidden (MessageBuilders.propertyNotWritable arg1) arg1

def queryParameterValueTypeError (arg1 : Json Text D) (arg2 : Text) : Report D :=
  errorReport Status.badRequest (MessageBuilders.queryParameterValueTypeError dump arg1 arg2)

def serviceShuttingDown : Report D :=
  errorReport Status.serviceUnavailable MessageBuilders.serviceShuttingDown

def actionParameterDuplicate (arg1 arg2 : Text) : Report D :=
  errorReport Status.badRequest (MessageBuilders.actionParameterDuplicate arg1 arg2)

def actionParameterNotSupported (arg1 arg2 : Text) : Report D :=
  errorReport Status.badRequest (MessageBuilders.actionParameterNotSupported arg1 arg2)

def sourceDoesNotSupportProtocol (arg1 arg2 : Text) : Report D :=
  errorReport Status.badRequest (MessageBuilders.sourceDoesNotSupportProtocol arg1 arg2)

def strictAccountTypes (arg1 : Text) : Report D :=
  errorReport Status.badRequest (MessageBuilders.strictAccountTypes arg1)

def accountRemoved : Report D := rootReport (some Status.ok) MessageBuilders.accountRemoved

def accessDenied (arg1 : Text) : Report D :=
  errorReport Status.forbidden (MessageBuilders.accessDenied arg1)

def queryNotSupported : Report D := errorReport Status.badRequest MessageBuilders.queryNotSupported

def createLimitReachedForResource : Report D :=
  errorReport Status.badRequest MessageBuilders.createLimitReachedForResource

def generalError : Report D := errorReport Status.internalServerError MessageBuilders.generalError

def success : Report D := rootReport none MessageBuilders.success

def created : Report D := rootReport (some Status.created) MessageBuilders.created

def noOperation : Report D := errorReport Status.badRequest MessageBuilders.noOperation

def propertyUnknown (arg1 : Text) : Report D :=
  errorReport Status.badRequest (MessageBuilders.propertyUnknown arg1)

def noValidSession : Report D := errorReport Status.forbidden MessageBuilders.noValidSession

def invalidObject (arg1 : Text) : Report D :=
  errorReport Status.badRequest (MessageBuilders.invalidObject arg1)

def resourceInStandby : Report D :=
  errorReport Status.serviceUnavailable MessageBuilders.resourceInStandby

def actionParameterValueTypeError (arg1 : Json Text D) (arg2 arg3 : Text) : Report D :=
  errorReport Status.badRequest (MessageBuilders.actionParameterValueTypeError dump arg1 arg2 arg3)

def sessionLimitExceeded : Report D :=
  errorReport Status.serviceUnavailable MessageBuilders.sessionLimitExceeded

def actionNotSupported (arg1 : Text) : Report D :=
  errorReport Status.badRequest (MessageBuilders.actionNotSupported arg1)

def invalidIndex (arg1 : ℤ) : Report D :=
  errorReport Status.badRequest (MessageBuilders.invalidIndex arg1)

def emptyJSON : Report D := errorReport Status.badRequest MessageBuilders.emptyJSON

def queryNotSupportedOnResource : Report D :=
  errorReport Status.badRequest MessageBuilders.queryNotSupportedOnResource

def queryNotSupportedOnOperation : Report D :=
  errorReport Status.badRequest MessageBuilders.queryNotSupportedOnOperation

def queryCombinationInvalid : Report D :=
  errorReport Status.badRequest MessageBuilders.queryCombinationInvalid

def insufficientPrivilege : Report D :=
  errorReport Status.forbidden MessageBuilders.insufficientPrivilege

def propertyValueModified (arg1 : Text) (arg2 : Json Text D) : Report D :=
  propertyReport Status.ok (MessageBuilders.propertyValueModified dump arg1 arg2) arg1

def accountNotModified : Report D :=
  errorReport Status.badRequest MessageBuilders.accountNotModified

def queryParameterValueFormatError (arg1 : Json Text D) (arg2 : Text) : Report D :=
  errorReport Status.badRequest (MessageBuilders.queryParameterValueFormatError dump arg1 arg2)

def propertyMissing (arg1 : Text) : Report D :=
  propertyReport Status.badRequest (MessageBuilders.propertyMissing arg1) arg1

def resourceExhaustion (arg1 : Text) : Report D :=
  errorReport Status.serviceUnavailable (MessageBuilders.resourceExhaustion arg1)

def accountModified : Report D := errorReport Status.ok MessageBuilders.accountModified

def queryParameterOutOfRange (arg1 arg2 arg3 : Text) : Report D :=
  errorReport Status.badRequest (MessageBuilders.queryParameterOutOfRange arg1 arg2 arg3)

def passwordChangeRequired (arg1 : Text) : Report D :=
  rootReport none (MessageBuilders.passwordChangeRequired arg1)

def insufficientStorage : Report D :=
  errorReport Status.insufficientStorage MessageBuilders.insufficientStorage

def operationNotAllowed : Report D :=
  errorReport Status.methodNotAllowed MessageBuilders.operationNotAllowed

def arraySizeTooLong (property : Text) (length : ℕ) : Report D :=
  errorReport Status.badRequest (MessageBuilders.arraySizeTooLong property length)

def invalidUpload (arg1 arg2 : Text) : Report D :=
  errorReport Status.badRequest (invalidUploadMessage arg1 arg2)

inductive Reporter (D : Type) where
  | builder (b : Builder D)
  | invalidUpload (arg1 arg2 : Text)

def Reporter.report : Reporter D → Report D
  | .builder .resourceInUse => ErrorReporters.resourceInUse
  | .builder .malformedJSON => ErrorReporters.malformedJSON
  | .builder (.resourceMissingAtURI arg1) => ErrorReporters.resourceMissingAtURI arg1
  | .builder (.actionParameterValueFormatError arg1 arg2 arg3) =>
    ErrorReporters.actionParameterValueFormatError dump arg1 arg2 arg3
  | .builder (.actionParameterValueNotInList arg1 arg2 arg3) =>
    ErrorReporters.actionParameterValueNotInList arg1 arg2 arg3
  | .builder .internalError => ErrorReporters.internalError
  | .builder .unrecognizedRequestBody => ErrorReporters.unrecognizedRequestBody
  | .builder (.resourceAtUriUnauthorized arg1 arg2) =>
    ErrorReporters.resourceAtUriUnauthorized arg1 arg2
  | .builder (.actionParameterUnknown arg1 arg2) => ErrorReporters.actionParameterUnknown arg1 arg2
  | .builder .resourceCannotBeDeleted => ErrorReporters.resourceCannotBeDeleted
  | .builder (.propertyDuplicate arg1) => ErrorReporters.propertyDuplicate arg1
  | .builder (.serviceTemporarilyUnavailable arg1) =>
    ErrorReporters.serviceTemporarilyUnavailable arg1
  | .builder (.resourceAlreadyExists arg1 arg2 arg3) =>
    ErrorReporters.resourceAlreadyExists arg1 arg2 arg3
  | .builder .accountForSessionNoLongerExists => ErrorReporters.accountForSessionNoLongerExists
  | .builder (.createFailedMissingReqProperties arg1) =>
    ErrorReporters.createFailedMissingReqProperties arg1
  | .builder (.propertyValueFormatError arg1 arg2) =>
    ErrorReporters.propertyValueFormatError dump arg1 arg2
  | .builder (.propertyValueNotInList arg1 arg2) =>
    ErrorReporters.propertyValueNotInList dump arg1 arg2
  | .builder (.propertyValueOutOfRange arg1 arg2) =>
    ErrorReporters.propertyValueOutOfRange dump arg1 arg2
  | .builder (.resourceAtUriInUnknownFormat arg1) =>
    ErrorReporters.resourceAtUriInUnknownFormat arg1
  | .builder (.serviceDisabled arg1) => ErrorReporters.serviceDisabled arg1
  | .builder .serviceInUnknownState => ErrorReporters.serviceInUnknownState
  | .builder .eventSubscriptionLimitExceeded => ErrorReporters.eventSubscriptionLimitExceeded
  | .builder (.actionParameterMissing arg1 arg2) => ErrorReporters.actionParameterMissing arg1 arg2
  | .builder (.stringValueTooLong arg1 arg2) => ErrorReporters.stringValueTooLong arg1 arg2
  | .builder .sessionTerminated => ErrorReporters.sessionTerminated
  | .builder .subscriptionTerminated => ErrorReporters.subscriptionTerminated
  | .builder (.resourceTypeIncompatible arg1 arg2) =>
    ErrorReporters.resourceTypeIncompatible arg1 arg2
  | .builder (.resetRequired arg1 arg2) => ErrorReporters.resetRequired arg1 arg2
  | .builder (.chassisPowerStateOnRequired arg1) => ErrorReporters.chassisPowerStateOnRequired arg1
  | .builder (.chassisPowerStateOffRequired arg1) =>
    ErrorReporters.chassisPowerStateOffRequired arg1
  | .builder (.propertyValueConflict arg1 arg2) => ErrorReporters.propertyValueConflict arg1 arg2
  | .builder (.propertyValueResourceConflict arg1 arg2 arg3) =>
    ErrorReporters.propertyValueResourceConflict dump arg1 arg2 arg3
  | .builder (.propertyValueExternalConflict arg1 arg2) =>
    ErrorReporters.propertyValueExternalConflict dump arg1 arg2
  | .builder (.propertyValueIncorrect arg1 arg2) =>
    ErrorReporters.propertyValueIncorrect dump arg1 arg2
  | .builder (.resourceCreationConflict arg1) => ErrorReporters.resourceCreationConflict arg1
  | .builder .maximumErrorsExceeded => ErrorReporters.maximumErrorsExceeded
  | .builder .preconditionFailed => ErrorReporters.preconditionFailed
  | .builder .preconditionRequired => ErrorReporters.preconditionRequired
  | .builder .operationFailed => ErrorReporters.operationFailed
  | .builder .operationTimeout => ErrorReporters.operationTimeout
  | .builder (.propertyValueTypeError arg1 arg2) =>
    ErrorReporters.propertyValueTypeError dump arg1 arg2
  | .builder (.resourceNotFound arg1 arg2) => ErrorReporters.resourceNotFound arg1 arg2
  | .builder (.couldNotEstablishConnection arg1) => ErrorReporters.couldNotEstablishConnection arg1
  | .builder (.propertyNotWritable arg1) => ErrorReporters.propertyNotWritable arg1
  | .builder (.queryParameterValueTypeError arg1 arg2) =>
    ErrorReporters.queryParameterValueTypeError dump arg1 arg2
  | .builder .serviceShuttingDown => ErrorReporters.serviceShuttingDown
  | .builder (.actionParameterDuplicate arg1 arg2) =>
    ErrorReporters.actionParameterDuplicate arg1 arg2
  | .builder (.actionParameterNotSupported arg1 arg2) =>
    ErrorReporters.actionParameterNotSupported arg1 arg2
  | .builder (.sourceDoesNotSupportProtocol arg1 arg2) =>
    ErrorReporters.sourceDoesNotSupportProtocol arg1 arg2
  | .builder (.strictAccountTypes arg1) => ErrorReporters.strictAccountTypes arg1
  | .builder .accountRemoved => ErrorReporters.accountRemoved
  | .builder (.accessDenied arg1) => ErrorReporters.accessDenied arg1
  | .builder .queryNotSupported => ErrorReporters.queryNotSupported
  | .builder .createLimitReachedForResource => ErrorReporters.createLimitReachedForResource
  | .builder .generalError => ErrorReporters.generalError
  | .builder .success => ErrorReporters.success
  | .builder .created => ErrorReporters.created
  | .builder .noOperation => ErrorReporters.noOperation
  | .builder (.propertyUnknown arg1) => ErrorReporters.propertyUnknown arg1
  | .builder .noValidSession => ErrorReporters.noValidSession
  | .builder (.invalidObject arg1) => ErrorReporters.invalidObject arg1
  | .builder .resourceInStandby => ErrorReporters.resourceInStandby
  | .builder (.actionParameterValueTypeError arg1 arg2 arg3) =>
    ErrorReporters.actionParameterValueTypeError dump arg1 arg2 arg3
  | .builder .sessionLimitExceeded => ErrorReporters.sessionLimitExceeded
  | .builder (.actionNotSupported arg1) => ErrorReporters.actionNotSupported arg1
  | .builder (.invalidIndex arg1) => ErrorReporters.invalidIndex arg1
  | .builder .emptyJSON => ErrorReporters.emptyJSON
  | .builder .queryNotSupportedOnResource => ErrorReporters.queryNotSupportedOnResource
  | .builder .queryNotSupportedOnOperation => ErrorReporters.queryNotSupportedOnOperation
  | .builder .queryCombinationInvalid => ErrorReporters.queryCombinationInvalid
  | .builder .insufficientPrivilege => ErrorReporters.insufficientPrivilege
  | .builder (.propertyValueModified arg1 arg2) =>
    ErrorReporters.propertyValueModified dump arg1 arg2
  | .builder .accountNotModified => ErrorReporters.accountNotModified
  | .builder (.queryParameterValueFormatError arg1 arg2) =>
    ErrorReporters.queryParameterValueFormatError dump arg1 arg2
  | .builder (.propertyMissing arg1) => ErrorReporters.propertyMissing arg1
  | .builder (.resourceExhaustion arg1) => ErrorReporters.resourceExhaustion arg1
  | .builder .accountModified => ErrorReporters.accountModified
  | .builder (.queryParameterOutOfRange arg1 arg2 arg3) =>
    ErrorReporters.queryParameterOutOfRange arg1 arg2 arg3
  | .builder (.passwordChangeRequired arg1) => ErrorReporters.passwordChangeRequired arg1
  | .builder .insufficientStorage => ErrorReporters.insufficientStorage
  | .builder .operationNotAllowed => ErrorReporters.operationNotAllowed
  | .builder (.arraySizeTooLong property length) => ErrorReporters.arraySizeTooLong property length
  | .invalidUpload arg1 arg2 => ErrorReporters.invalidUpload arg1 arg2

def Reporter.succeeds : Reporter D → Bool
  | .builder .sessionTerminated | .builder .subscriptionTerminated | .builder .accountRemoved
  | .builder .created | .builder (.propertyValueModified _ _) | .builder .accountModified => true
  | _ => false

def Reporter.leavesResult : Reporter D → Bool
  | .builder .success | .builder (.passwordChangeRequired _) => true
  | _ => false

end Reports

end CrowCore.ErrorReporters
