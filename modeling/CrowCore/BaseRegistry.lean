import Mathlib

set_option autoImplicit false

/-!
# The base message registry

The entries of `redfish::registries::base::registry` as the code reads them.
-/
namespace CrowCore.BaseRegistry

structure Header where
  id : String
deriving DecidableEq, Repr

structure Message where
  message : String
  messageSeverity : String
  numberOfArgs : ℕ
  resolution : String
deriving DecidableEq, Repr

/-- The name of a message comes first. -/
abbrev MessageEntry := String × Message

def header : Header where
  id := "Base.1.16.0"

def registry : List MessageEntry := [
  ("AccessDenied", {
    message := "While attempting to establish a connection to '%1', the service denied access."
    messageSeverity := "Critical"
    numberOfArgs := 1
    resolution := "Attempt to ensure that the URI is correct and that the service has the appropriate credentials." }),
  ("AccountForSessionNoLongerExists", {
    message := "The account for the current session has been removed, thus the current session has been removed as well."
    messageSeverity := "OK"
    numberOfArgs := 0
    resolution := "Attempt to connect with a valid account." }),
  ("AccountModified", {
    message := "The account was successfully modified."
    messageSeverity := "OK"
    numberOfArgs := 0
    resolution := "No resolution is required." }),
  ("AccountNotModified", {
    message := "The account modification request failed."
    messageSeverity := "Warning"
    numberOfArgs := 0
    resolution := "The modification may have failed due to permission issues or issues with the request body." }),
  ("AccountRemoved", {
    message := "The account was successfully removed."
    messageSeverity := "OK"
    numberOfArgs := 0
    resolution := "No resolution is required." }),
  ("ActionDeprecated", {
    message := "The action %1 is deprecated."
    messageSeverity := "Warning"
    numberOfArgs := 1
    resolution := "Refer to the schema guide for more information." }),
  ("ActionNotSupported", {
    message := "The action %1 is not supported by the resource."
    messageSeverity := "Critical"
    numberOfArgs := 1
    resolution := "The action supplied cannot be resubmitted to the implementation.  Perhaps the action was invalid, the wrong resource was the target or the implementation documentation may be of assistance." }),
  ("ActionParameterDuplicate", {
    message := "The action %1 was submitted with more than one value for the parameter %2."
    messageSeverity := "Warning"
    numberOfArgs := 2
    resolution := "Resubmit the action with only one instance of the action parameter in the request body if the operation failed." }),
  ("ActionParameterMissing", {
    message := "The action %1 requires the parameter %2 to be present in the request body."
    messageSeverity := "Critical"
    numberOfArgs := 2
    resolution := "Supply the action with the required parameter in the request body when the request is resubmitted." }),
  ("ActionParameterNotSupported", {
    message := "The parameter %1 for the action %2 is not supported on the target resource."
    messageSeverity := "Warning"
    numberOfArgs := 2
    resolution := "Remove the parameter supplied and resubmit the request if the operation failed." }),
  ("ActionParameterUnknown", {
    message := "The action %1 was submitted with the invalid parameter %2."
    messageSeverity := "Warning"
    numberOfArgs := 2
    resolution := "Correct the invalid action parameter and resubmit the request if the operation failed." }),
  ("ActionParameterValueConflict", {
    message := "The parameter '%1' with the requested value of '%2' does not meet the constraints of the implementation."
    messageSeverity := "Warning"
    numberOfArgs := 2
    resolution := "No resolution is required." }),
  ("ActionParameterValueError", {
    message := "The value for the parameter %1 in the action %2 is invalid."
    messageSeverity := "Warning"
    numberOfArgs := 2
    resolution := "Correct the value for the parameter in the request body and resubmit the request if the operation failed." }),
  ("ActionParameterValueFormatError", {
    message := "The value '%1' for the parameter %2 in the action %3 is of a different format than the parameter can accept."
    messageSeverity := "Warning"
    numberOfArgs := 3
    resolution := "Correct the value for the parameter in the request body and resubmit the request if the operation failed." }),
  ("ActionParameterValueNotInList", {
    message := "The value '%1' for the parameter %2 in the action %3 is not in the list of acceptable values."
    messageSeverity := "Warning"
    numberOfArgs := 3
    resolution := "Choose a value from the enumeration list that the implementation can support and resubmit the request if the operation failed." }),
  ("ActionParameterValueTypeError", {
    message := "The value '%1' for the parameter %2 in the action %3 is of a different type than the parameter can accept."
    messageSeverity := "Warning"
    numberOfArgs := 3
    resolution := "Correct the value for the parameter in the request body and resubmit the request if the operation failed." }),
  ("ArraySizeTooLong", {
    message := "The array provided for property %1 exceeds the size limit %2."
    messageSeverity := "Warning"
    numberOfArgs := 2
    resolution := "Resubmit the request with an appropriate array size." }),
  ("ArraySizeTooShort", {
    message := "The array provided for property %1 is under the minimum size limit %2."
    messageSeverity := "Warning"
    numberOfArgs := 2
    resolution := "Resubmit the request with an appropriate array size." }),
  ("AuthenticationTokenRequired", {
    message := "The request could not be performed because an authentication token was not provided."
    messageSeverity := "Critical"
    numberOfArgs := 0
    resolution := "Obtain an authentication token and resubmit the request." }),
  ("ChassisPowerStateOffRequired", {
    message := "The Chassis with Id '%1' requires to be powered off to perform this request."
    messageSeverity := "Warning"
    numberOfArgs := 1
    resolution := "Power off the specified chassis and resubmit the request." }),
  ("ChassisPowerStateOnRequired", {
    message := "The chassis with Id '%1' requires to be powered on to perform this request."
    messageSeverity := "Warning"
    numberOfArgs := 1
    resolution := "Power on the specified chassis and resubmit the request." }),
  ("ConditionInRelatedResource", {
    message := "One or more conditions exist in a related resource.  See the OriginOfCondition property."
    messageSeverity := "Warning"
    numberOfArgs := 0
    resolution := "Check the Conditions array in the resource shown in the OriginOfCondition property to determine the conditions that need attention." }),
  ("CouldNotEstablishConnection", {
    message := "The service failed to establish a connection with the URI '%1'."
    messageSeverity := "Critical"
    numberOfArgs := 1
    resolution := "Ensure that the URI contains a valid and reachable node name, protocol information and other URI components." }),
  ("CreateFailedMissingReqProperties", {
    message := "The create operation failed because the required property %1 was missing from the request."
    messageSeverity := "Critical"
    numberOfArgs := 1
    resolution := "Correct the body to include the required property with a valid value and resubmit the request if the operation failed." }),
  ("CreateLimitReachedForResource", {
    message := "The create operation failed because the resource has reached the limit of possible resources."
    messageSeverity := "Critical"
    numberOfArgs := 0
    resolution := "Either delete resources and resubmit the request if the operation failed or do not resubmit the request." }),
  ("Created", {
    message := "The resource has been created successfully."
    messageSeverity := "OK"
    numberOfArgs := 0
    resolution := "None." }),
  ("EmptyJSON", {
    message := "The request body submitted contained an empty JSON object and the service is unable to process it."
    messageSeverity := "Warning"
    numberOfArgs := 0
    resolution := "Add properties in the JSON object and resubmit the request." }),
  ("EventBufferExceeded", {
    message := "Undelivered events may have been lost due to exceeding the event buffer."
    messageSeverity := "Warning"
    numberOfArgs := 0
    resolution := "None." }),
  ("EventSubscriptionLimitExceeded", {
    message := "The event subscription failed due to the number of simultaneous subscriptions exceeding the limit of the implementation."
    messageSeverity := "Critical"
    numberOfArgs := 0
    resolution := "Reduce the number of other subscriptions before trying to establish the event subscription or increase the limit of simultaneous subscriptions, if supported." }),
  ("GeneralError", {
    message := "A general error has occurred.  See Resolution for information on how to resolve the error, or @Message.ExtendedInfo if Resolution is not provided."
    messageSeverity := "Critical"
    numberOfArgs := 0
    resolution := "None." }),
  ("HeaderInvalid", {
    message := "Header '%1' is invalid."
    messageSeverity := "Critical"
    numberOfArgs := 1
    resolution := "Resubmit the request with a valid request header." }),
  ("HeaderMissing", {
    message := "Required header '%1' is missing in the request."
    messageSeverity := "Critical"
    numberOfArgs := 1
    resolution := "Resubmit the request with the required request header." }),
  ("InsufficientPrivilege", {
    message := "There are insufficient privileges for the account or credentials associated with the current session to perform the requested operation."
    messageSeverity := "Critical"
    numberOfArgs := 0
    resolution := "Either abandon the operation or change the associated access rights and resubmit the request if the operation failed." }),
  ("InsufficientStorage", {
    message := "Insufficent storage or memory available to complete the request."
    messageSeverity := "Critical"
    numberOfArgs := 0
    resolution := "Increase the free storage space available to the service and resubmit the request." }),
  ("InternalError", {
    message := "The request failed due to an internal service error.  The service is still operational."
    messageSeverity := "Critical"
    numberOfArgs := 0
    resolution := "Resubmit the request.  If the problem persists, consider resetting the service." }),
  ("InvalidIndex", {
    message := "The index %1 is not a valid offset into the array."
    messageSeverity := "Warning"
    numberOfArgs := 1
    resolution := "Verify the index value provided is within the bounds of the array." }),
  ("InvalidJSON", {
    message := "The request body submitted is invalid JSON starting at line %1 and could not be parsed by the receiving service."
    messageSeverity := "Critical"
    numberOfArgs := 1
    resolution := "Ensure that the request body is valid JSON and resubmit the request." }),
  ("InvalidObject", {
    message := "The object at '%1' is invalid."
    messageSeverity := "Critical"
    numberOfArgs := 1
    resolution := "Either the object is malformed or the URI is not correct.  Correct the condition and resubmit the request if it failed." }),
  ("InvalidURI", {
    message := "The URI %1 was not found."
    messageSeverity := "Critical"
    numberOfArgs := 1
    resolution := "Provide a valid URI and resubmit the request." }),
  ("LicenseRequired", {
    message := "A license is required for this operation: %1."
    messageSeverity := "Critical"
    numberOfArgs := 1
    resolution := "Install the requested license and resubmit the request." }),
  ("MalformedJSON", {
    message := "The request body submitted was malformed JSON and could not be parsed by the receiving service."
    messageSeverity := "Critical"
    numberOfArgs := 0
    resolution := "Ensure that the request body is valid JSON and resubmit the request." }),
  ("MaximumErrorsExceeded", {
    message := "Too many errors have occurred to report them all."
    messageSeverity := "Critical"
    numberOfArgs := 0
    resolution := "Resolve other reported errors and retry the current operation." }),
  ("MissingOrMalformedPart", {
    message := "The multipart request contains malformed parts or is missing required parts."
    messageSeverity := "Critical"
    numberOfArgs := 0
    resolution := "Add any missing required parts or correct the malformed parts and resubmit the request." }),
  ("NetworkNameResolutionNotConfigured", {
    message := "Network name resolution has not been configured on this service."
    messageSeverity := "Warning"
    numberOfArgs := 0
    resolution := "Configure the network name resolution protocol support on this service, or update any URI values to include an IP address instead of a network name and resubmit the request." }),
  ("NetworkNameResolutionNotSupported", {
    message := "Resolution of network-based names is not supported by this service."
    messageSeverity := "Warning"
    numberOfArgs := 0
    resolution := "Update any URI values to include an IP address instead of a network name and resubmit the request." }),
  ("NoOperation", {
    message := "The request body submitted contain no data to act upon and no changes to the resource took place."
    messageSeverity := "Warning"
    numberOfArgs := 0
    resolution := "Add properties in the JSON object and resubmit the request." }),
  ("NoValidSession", {
    message := "There is no valid session established with the implementation."
    messageSeverity := "Critical"
    numberOfArgs := 0
    resolution := "Establish a session before attempting any operations." }),
  ("OperationFailed", {
    message := "An error occurred internal to the service as part of the overall request.  Partial results may have been returned."
    messageSeverity := "Warning"
    numberOfArgs := 0
    resolution := "Resubmit the request.  If the problem persists, consider resetting the service or provider." }),
  ("OperationNotAllowed", {
    message := "The HTTP method is not allowed on this resource."
    messageSeverity := "Critical"
    numberOfArgs := 0
    resolution := "None." }),
  ("OperationTimeout", {
    message := "A timeout internal to the service occured as part of the request.  Partial results may have been returned."
    messageSeverity := "Warning"
    numberOfArgs := 0
    resolution := "Resubmit the request.  If the problem persists, consider resetting the service or provider." }),
  ("PasswordChangeRequired", {
    message := "The password provided for this account must be changed before access is granted.  PATCH the Password property for this account located at the target URI '%1' to complete this process."
    messageSeverity := "Critical"
    numberOfArgs := 1
    resolution := "Change the password for this account using a PATCH to the Password property at the URI provided." }),
  ("PayloadTooLarge", {
    message := "The supplied payload exceeds the maximum size supported by the service."
    messageSeverity := "Critical"
    numberOfArgs := 0
    resolution := "Check that the supplied payload is correct and supported by this service." }),
  ("PreconditionFailed", {
    message := "The ETag supplied did not match the ETag required to change this resource."
    messageSeverity := "Critical"
    numberOfArgs := 0
    resolution := "Try the operation again using the appropriate ETag." }),
  ("PreconditionRequired", {
    message := "A precondition header or annotation is required to change this resource."
    messageSeverity := "Critical"
    numberOfArgs := 0
    resolution := "Try the operation again using an If-Match or If-None-Match header and appropriate ETag." }),
  ("PropertyDeprecated", {
    message := "The deprecated property %1 was included in the request body."
    messageSeverity := "Warning"
    numberOfArgs := 1
    resolution := "Refer to the schema guide for more information." }),
  ("PropertyDuplicate", {
    message := "The property %1 was duplicated in the request."
    messageSeverity := "Warning"
    numberOfArgs := 1
    resolution := "Remove the duplicate property from the request body and resubmit the request if the operation failed." }),
  ("PropertyMissing", {
    message := "The property %1 is a required property and must be included in the request."
    messageSeverity := "Warning"
    numberOfArgs := 1
    resolution := "Ensure that the property is in the request body and has a valid value and resubmit the request if the operation failed." }),
  ("PropertyNotUpdated", {
    message := "The property %1 was not updated due to an internal service error.  The service is still operational."
    messageSeverity := "Critical"
    numberOfArgs := 1
    resolution := "Resubmit the request.  If the problem persists, check for additional messages and consider resetting the service." }),
  ("PropertyNotWritable", {
    message := "The property %1 is a read only property and cannot be assigned a value."
    messageSeverity := "Warning"
    numberOfArgs := 1
    resolution := "Remove the property from the request body and resubmit the request if the operation failed." }),
  ("PropertyUnknown", {
    message := "The property %1 is not in the list of valid properties for the resource."
    messageSeverity := "Warning"
    numberOfArgs := 1
    resolution := "Remove the unknown property from the request body and resubmit the request if the operation failed." }),
  ("PropertyValueConflict", {
    message := "The property '%1' could not be written because its value would conflict with the value of the '%2' property."
    messageSeverity := "Warning"
    numberOfArgs := 2
    resolution := "No resolution is required." }),
  ("PropertyValueDeprecated", {
    message := "The value '%1' for the property %2 is deprecated."
    messageSeverity := "Warning"
    numberOfArgs := 2
    resolution := "Refer to the schema guide for more information." }),
  ("PropertyValueError", {
    message := "The value provided for the property %1 is not valid."
    messageSeverity := "Warning"
    numberOfArgs := 1
    resolution := "Correct the value for the property in the request body and resubmit the request if the operation failed." }),
  ("PropertyValueExternalConflict", {
    message := "The property '%1' with the requested value of '%2' could not be written because the value is not available due to a configuration conflict."
    messageSeverity := "Warning"
    numberOfArgs := 2
    resolution := "No resolution is required." }),
  ("PropertyValueFormatError", {
    message := "The value '%1' for the property %2 is of a different format than the property can accept."
    messageSeverity := "Warning"
    numberOfArgs := 2
    resolution := "Correct the value for the property in the request body and resubmit the request if the operation failed." }),
  ("PropertyValueIncorrect", {
    message := "The property '%1' with the requested value of '%2' could not be written because the value does not meet the constraints of the implementation."
    messageSeverity := "Warning"
    numberOfArgs := 2
    resolution := "No resolution is required." }),
  ("PropertyValueModified", {
    message := "The property %1 was assigned the value '%2' due to modification by the service."
    messageSeverity := "Warning"
    numberOfArgs := 2
    resolution := "No resolution is required." }),
  ("PropertyValueNotInList", {
    message := "The value '%1' for the property %2 is not in the list of acceptable values."
    messageSeverity := "Warning"
    numberOfArgs := 2
    resolution := "Choose a value from the enumeration list that the implementation can support and resubmit the request if the operation failed." }),
  ("PropertyValueOutOfRange", {
    message := "The value '%1' for the property %2 is not in the supported range of acceptable values."
    messageSeverity := "Warning"
    numberOfArgs := 2
    resolution := "Correct the value for the property in the request body and resubmit the request if the operation failed." }),
  ("PropertyValueResourceConflict", {
    message := "The property '%1' with the requested value of '%2' could not be written because the value conflicts with the state or configuration of the resource at '%3'."
    messageSeverity := "Warning"
    numberOfArgs := 3
    resolution := "No resolution is required." }),
  ("PropertyValueTypeError", {
    message := "The value '%1' for the property %2 is of a different type than the property can accept."
    messageSeverity := "Warning"
    numberOfArgs := 2
    resolution := "Correct the value for the property in the request body and resubmit the request if the operation failed." }),
  ("QueryCombinationInvalid", {
    message := "Two or more query parameters in the request cannot be used together."
    messageSeverity := "Warning"
    numberOfArgs := 0
    resolution := "Remove one or more of the query parameters and resubmit the request if the operation failed." }),
  ("QueryNotSupported", {
    message := "Querying is not supported by the implementation."
    messageSeverity := "Warning"
    numberOfArgs := 0
    resolution := "Remove the query parameters and resubmit the request if the operation failed." }),
  ("QueryNotSupportedOnOperation", {
    message := "Querying is not supported with the requested operation."
    messageSeverity := "Warning"
    numberOfArgs := 0
    resolution := "Remove the query parameters and resubmit the request if the operation failed." }),
  ("QueryNotSupportedOnResource", {
    message := "Querying is not supported on the requested resource."
    messageSeverity := "Warning"
    numberOfArgs := 0
    resolution := "Remove the query parameters and resubmit the request if the operation failed." }),
  ("QueryParameterOutOfRange", {
    message := "The value '%1' for the query parameter %2 is out of range %3."
    messageSeverity := "Warning"
    numberOfArgs := 3
    resolution := "Reduce the value for the query parameter to a value that is within range, such as a start or count value that is within bounds of the number of resources in a collection or a page that is within the range of valid pages." }),
  ("QueryParameterUnsupported", {
    message := "Query parameter '%1' is not supported."
    messageSeverity := "Warning"
    numberOfArgs := 1
    resolution := "Correct or remove the query parameter and resubmit the request." }),
  ("QueryParameterValueError", {
    message := "The value for the parameter %1 is invalid."
    messageSeverity := "Warning"
    numberOfArgs := 1
    resolution := "Correct the value for the query parameter in the request and resubmit the request if the operation failed." }),
  ("QueryParameterValueFormatError", {
    message := "The value '%1' for the parameter %2 is of a different format than the parameter can accept."
    messageSeverity := "Warning"
    numberOfArgs := 2
    resolution := "Correct the value for the query parameter in the request and resubmit the request if the operation failed." }),
  ("QueryParameterValueTypeError", {
    message := "The value '%1' for the query parameter %2 is of a different type than the parameter can accept."
    messageSeverity := "Warning"
    numberOfArgs := 2
    resolution := "Correct the value for the query parameter in the request and resubmit the request if the operation failed." }),
  ("ResetRecommended", {
    message := "In order to recover from errors, a component reset is recommended with the Reset action URI '%1' and ResetType '%2'."
    messageSeverity := "Warning"
    numberOfArgs := 2
    resolution := "Perform the recommended reset action on the specified component." }),
  ("ResetRequired", {
    message := "In order to apply changes, recover from errors, or complete the operation, a component reset is required with the Reset action URI '%1' and ResetType '%2'."
    messageSeverity := "Warning"
    numberOfArgs := 2
    resolution := "Perform the required reset action on the specified component." }),
  ("ResourceAlreadyExists", {
    message := "The requested resource of type %1 with the property %2 with the value '%3' already exists."
    messageSeverity := "Critical"
    numberOfArgs := 3
    resolution := "Do not repeat the create operation as the resource has already been created." }),
  ("ResourceAtUriInUnknownFormat", {
    message := "The resource at '%1' is in a format not recognized by the service."
    messageSeverity := "Critical"
    numberOfArgs := 1
    resolution := "Place an image or resource or file that is recognized by the service at the URI." }),
  ("ResourceAtUriUnauthorized", {
    message := "While accessing the resource at '%1', the service received an authorization error '%2'."
    messageSeverity := "Critical"
    numberOfArgs := 2
    resolution := "Ensure that the appropriate access is provided for the service in order for it to access the URI." }),
  ("ResourceCannotBeDeleted", {
    message := "The delete request failed because the resource requested cannot be deleted."
    messageSeverity := "Critical"
    numberOfArgs := 0
    resolution := "Do not attempt to delete a non-deletable resource." }),
  ("ResourceCreationConflict", {
    message := "The resource could not be created.  The service has a resource at URI '%1' that conflicts with the creation request."
    messageSeverity := "Warning"
    numberOfArgs := 1
    resolution := "No resolution is required." }),
  ("ResourceDeprecated", {
    message := "The operation was performed on a deprecated resource '%1'."
    messageSeverity := "Warning"
    numberOfArgs := 1
    resolution := "Refer to the schema guide for more information." }),
  ("ResourceExhaustion", {
    message := "The resource '%1' was unable to satisfy the request due to unavailability of resources."
    messageSeverity := "Critical"
    numberOfArgs := 1
    resolution := "Ensure that the resources are available and resubmit the request." }),
  ("ResourceInStandby", {
    message := "The request could not be performed because the resource is in standby."
    messageSeverity := "Critical"
    numberOfArgs := 0
    resolution := "Ensure that the resource is in the correct power state and resubmit the request." }),
  ("ResourceInUse", {
    message := "The change to the requested resource failed because the resource is in use or in transition."
    messageSeverity := "Warning"
    numberOfArgs := 0
    resolution := "Remove the condition and resubmit the request if the operation failed." }),
  ("ResourceMissingAtURI", {
    message := "The resource at the URI '%1' was not found."
    messageSeverity := "Critical"
    numberOfArgs := 1
    resolution := "Place a valid resource at the URI or correct the URI and resubmit the request." }),
  ("ResourceNotFound", {
    message := "The requested resource of type %1 named '%2' was not found."
    messageSeverity := "Critical"
    numberOfArgs := 2
    resolution := "Provide a valid resource identifier and resubmit the request." }),
  ("ResourceTypeIncompatible", {
    message := "The @odata.type of the request body %1 is incompatible with the @odata.type of the resource, which is %2."
    messageSeverity := "Critical"
    numberOfArgs := 2
    resolution := "Resubmit the request with a payload compatible with the resource's schema." }),
  ("RestrictedPrivilege", {
    message := "The operation was not successful because the privilege '%1' is restricted."
    messageSeverity := "Warning"
    numberOfArgs := 1
    resolution := "Remove restricted privileges from the request body and resubmit the request." }),
  ("RestrictedRole", {
    message := "The operation was not successful because the role '%1' is restricted."
    messageSeverity := "Warning"
    numberOfArgs := 1
    resolution := "No resolution is required.  For standard roles, consider using the role specified in the AlternateRoleId property in the Role resource." }),
  ("ServiceDisabled", {
    message := "The operation failed because the service at %1 is disabled and cannot accept requests."
    messageSeverity := "Warning"
    numberOfArgs := 1
    resolution := "Enable the service and resubmit the request if the operation failed." }),
  ("ServiceInUnknownState", {
    message := "The operation failed because the service is in an unknown state and can no longer take incoming requests."
    messageSeverity := "Critical"
    numberOfArgs := 0
    resolution := "Restart the service and resubmit the request if the operation failed." }),
  ("ServiceShuttingDown", {
    message := "The operation failed because the service is shutting down and can no longer take incoming requests."
    messageSeverity := "Critical"
    numberOfArgs := 0
    resolution := "When the service becomes available, resubmit the request if the operation failed." }),
  ("ServiceTemporarilyUnavailable", {
    message := "The service is temporarily unavailable.  Retry in %1 seconds."
    messageSeverity := "Critical"
    numberOfArgs := 1
    resolution := "Wait for the indicated retry duration and retry the operation." }),
  ("SessionLimitExceeded", {
    message := "The session establishment failed due to the number of simultaneous sessions exceeding the limit of the implementation."
    messageSeverity := "Critical"
    numberOfArgs := 0
    resolution := "Reduce the number of other sessions before trying to establish the session or increase the limit of simultaneous sessions, if supported." }),
  ("SessionTerminated", {
    message := "The session was successfully terminated."
    messageSeverity := "OK"
    numberOfArgs := 0
    resolution := "No resolution is required." }),
  ("SourceDoesNotSupportProtocol", {
    message := "The other end of the connection at '%1' does not support the specified protocol %2."
    messageSeverity := "Critical"
    numberOfArgs := 2
    resolution := "Change protocols or URIs." }),
  ("StrictAccountTypes", {
    message := "The request was not possible to fulfill with the account types included in property '%1' and property StrictAccountTypes set to true."
    messageSeverity := "Warning"
    numberOfArgs := 1
    resolution := "Resubmit the request either with an acceptable set of AccountTypes and OEMAccountTypes or with StrictAccountTypes set to false." }),
  ("StringValueTooLong", {
    message := "The string '%1' exceeds the length limit %2."
    messageSeverity := "Warning"
    numberOfArgs := 2
    resolution := "Resubmit the request with an appropriate string length." }),
  ("StringValueTooShort", {
    message := "The string '%1' was under the minimum required length %2."
    messageSeverity := "Warning"
    numberOfArgs := 2
    resolution := "Resubmit the request with an appropriate string length." }),
  ("SubscriptionTerminated", {
    message := "The event subscription has been terminated."
    messageSeverity := "OK"
    numberOfArgs := 0
    resolution := "No resolution is required." }),
  ("Success", {
    message := "The request completed successfully."
    messageSeverity := "OK"
    numberOfArgs := 0
    resolution := "None" }),
  ("UndeterminedFault", {
    message := "A undetermined fault condition has been reported by '%1'."
    messageSeverity := "Critical"
    numberOfArgs := 1
    resolution := "None." }),
  ("UnrecognizedRequestBody", {
    message := "The service detected a malformed request body that it was unable to interpret."
    messageSeverity := "Warning"
    numberOfArgs := 0
    resolution := "Correct the request body and resubmit the request if it failed." })]

inductive Index where
  | accessDenied
  | accountForSessionNoLongerExists
  | accountModified
  | accountNotModified
  | accountRemoved
  | actionDeprecated
  | actionNotSupported
  | actionParameterDuplicate
  | actionParameterMissing
  | actionParameterNotSupported
  | actionParameterUnknown
  | actionParameterValueConflict
  | actionParameterValueError
  | actionParameterValueFormatError
  | actionParameterValueNotInList
  | actionParameterValueTypeError
  | arraySizeTooLong
  | arraySizeTooShort
  | authenticationTokenRequired
  | chassisPowerStateOffRequired
  | chassisPowerStateOnRequired
  | conditionInRelatedResource
  | couldNotEstablishConnection
  | createFailedMissingReqProperties
  | createLimitReachedForResource
  | created
  | emptyJSON
  | eventBufferExceeded
  | eventSubscriptionLimitExceeded
  | generalError
  | headerInvalid
  | headerMissing
  | insufficientPrivilege
  | insufficientStorage
  | internalError
  | invalidIndex
  | invalidJSON
  | invalidObject
  | invalidURI
  | licenseRequired
  | malformedJSON
  | maximumErrorsExceeded
  | missingOrMalformedPart
  | networkNameResolutionNotConfigured
  | networkNameResolutionNotSupported
  | noOperation
  | noValidSession
  | operationFailed
  | operationNotAllowed
  | operationTimeout
  | passwordChangeRequired
  | payloadTooLarge
  | preconditionFailed
  | preconditionRequired
  | propertyDeprecated
  | propertyDuplicate
  | propertyMissing
  | propertyNotUpdated
  | propertyNotWritable
  | propertyUnknown
  | propertyValueConflict
  | propertyValueDeprecated
  | propertyValueError
  | propertyValueExternalConflict
  | propertyValueFormatError
  | propertyValueIncorrect
  | propertyValueModified
  | propertyValueNotInList
  | propertyValueOutOfRange
  | propertyValueResourceConflict
  | propertyValueTypeError
  | queryCombinationInvalid
  | queryNotSupported
  | queryNotSupportedOnOperation
  | queryNotSupportedOnResource
  | queryParameterOutOfRange
  | queryParameterUnsupported
  | queryParameterValueError
  | queryParameterValueFormatError
  | queryParameterValueTypeError
  | resetRecommended
  | resetRequired
  | resourceAlreadyExists
  | resourceAtUriInUnknownFormat
  | resourceAtUriUnauthorized
  | resourceCannotBeDeleted
  | resourceCreationConflict
  | resourceDeprecated
  | resourceExhaustion
  | resourceInStandby
  | resourceInUse
  | resourceMissingAtURI
  | resourceNotFound
  | resourceTypeIncompatible
  | restrictedPrivilege
  | restrictedRole
  | serviceDisabled
  | serviceInUnknownState
  | serviceShuttingDown
  | serviceTemporarilyUnavailable
  | sessionLimitExceeded
  | sessionTerminated
  | sourceDoesNotSupportProtocol
  | strictAccountTypes
  | stringValueTooLong
  | stringValueTooShort
  | subscriptionTerminated
  | success
  | undeterminedFault
  | unrecognizedRequestBody
deriving DecidableEq, Repr

def Index.value (name : Index) : ℕ := name.ctorIdx

end CrowCore.BaseRegistry
