import CrowCore.Base64
import CrowCore.EventSubscriptions
import CrowCore.HttpConnection
import CrowCore.JsonValue

set_option autoImplicit false

/-!
# Responses

A response with its contents: the header fields, the body in one of three
variants, and the JSON that is written into the body when the request is
completed.
-/
namespace CrowCore.HttpResponse
open Base64 EventSubscriptions JsonValue

/-- A file in the parts in which it is read. -/
structure File where
  parts : List (List UInt8)
  size_lt : parts.flatten.length < 2 ^ 63

inductive Body where
  | string (body : List UInt8)
  | file (f : File)
  | base64File (f : File)

def toBytes (text : Text) : List UInt8 := text.map fun ch => ch.toNat.toUInt8

namespace Body

/-- `payload_size`: each of the variants knows its size. -/
def payloadSize : Body → Option ℕ
  | .string body => some body.length
  | .file f => some f.parts.flatten.length
  | .base64File f => some (Base64FileBody.size f.parts.flatten)

/-- The body as the serializer emits it, whatever the status. -/
def emit : Body → List UInt8
  | .string body => body
  | .file f => f.parts.flatten
  | .base64File f => toBytes (serializeInParts f.parts)

end Body

/-- What is used of the libraries. `content_length` and `keep_alive` are those of a
response with these fields; `known` are the statuses that have a name. -/
structure Library (F D : Type) extends FieldsLibrary F where
  insert : F → String → String → F
  content_length : F → ℕ → F
  keep_alive : F → Bool → F
  known : ℕ → Bool
  hash : Json String D → UInt64
  dump : Json String D → List UInt8
  to_cbor : Json String D → List UInt8
  insecureDisableXssPrevention : Bool := false

variable {F D : Type}

def Library.values (L : Library F D) (fields : F) (name : String) : List String :=
  ((L.elements fields).filter fun field => field.1.toLower == name.toLower).map Prod.snd

/-- `insert` keeps the fields there are, and the other two set one field. `content_length` also
takes `chunked` out of Transfer-Encoding, of which nothing is said. -/
structure Library.Lawful (L : Library F D) : Prop where
  values_insert : ∀ fields name value other, L.values (L.insert fields name value) other =
    L.values fields other ++ if name.toLower = other.toLower then [value] else []
  values_content_length : ∀ fields n other, other.toLower ≠ "transfer-encoding" →
    L.values (L.content_length fields n) other =
      if other.toLower = "content-length" then [toString n] else L.values fields other
  values_keep_alive : ∀ fields value other, other.toLower ≠ "connection" →
    L.values (L.keep_alive fields value) other = L.values fields other

/-- What a response holds beside the members that steer its completion. -/
structure Contents (F D : Type) where
  fields : F
  body : Body := .string []
  jsonValue : Json String D := .null

structure Response (F D : Type) extends HttpConnection.Response, Contents F D

def jsonEmpty : Json String D → Bool
  | .null => true
  | .array elements => elements.isEmpty
  | .object members => members.isEmpty
  | _ => false

def digitsArray : List Char := "0123456789ABCDEF".toList

def intToHexString (value : UInt64) (digits : ℕ) : String :=
  String.ofList ((List.range digits).map fun digitIndex =>
    digitsArray.getD (value.toNat >>> ((digits - 1 - digitIndex) * 4) % 16) '0')

def Library.etag (L : Library F D) (jsonValue : Json String D) : String :=
  "\"" ++ intToHexString (L.hash jsonValue) 8 ++ "\""

namespace Response
variable (L : Library F D) (res : Response F D)

def addHeader (name value : String) : Response F D :=
  { res with fields := L.insert res.fields name value }

def setKeepAlive (k : Bool) : Response F D :=
  { res with keepAlive := k, fields := L.keep_alive res.fields k }

def getContentLength (pSize : Option ℕ) : ℕ :=
  match pSize with
  | none => 0
  | some size =>
    let is1XXReturn := L.known res.result && res.result / 100 == 1
    if 0 < size ∧ (is1XXReturn ∨ res.result = 204 ∨ res.result = 304) then 0 else size

def preparePayload : Response F D :=
  { res with
    fields := L.content_length res.fields (res.getContentLength L res.body.payloadSize) }

def generator : List UInt8 := res.body.emit

def clear : Response F D := { toResponse := res.toResponse.clear, fields := L.empty }

/-- A value that is not for a string response replaces the body. -/
def write (bodyPart : List UInt8) : Response F D :=
  match res.body with
  | .string body => { res with body := .string (body ++ bodyPart) }
  | _ => { res with body := .string bodyPart }

def computeEtag : String :=
  if res.result ≠ 200 then "" else if jsonEmpty res.jsonValue then "" else L.etag res.jsonValue

/-- `end` as far as the call of the completion handler. -/
def markEnded : Response F D :=
  let etag := res.computeEtag L
  let res := if etag.isEmpty then res else res.addHeader L "ETag" etag
  { res with completed := true }

def setHashAndHandleNotModified : Response F D :=
  if jsonEmpty res.jsonValue ∨ res.result ≠ 200 then res
  else
    let hexVal := L.etag res.jsonValue
    let res := res.addHeader L "ETag" hexVal
    if res.expectedHash = some hexVal then { res with jsonValue := .null, result := 304 } else res

/-- `operator=` from another response, and what is left of that one. -/
def moveAssign (r : Response F D) : Response F D × Response F D :=
  let moved := res.toResponse.moveAssign r.toResponse
  ({ toResponse := moved.1, toContents := r.toContents },
    { toResponse := moved.2, fields := L.empty })

end Response

inductive ContentType where
  | NoMatch
  | ANY
  | CBOR
  | HTML
  | JSON
  | OctetStream
  | EventStream
deriving DecidableEq, Repr

def contentTypes : List (String × ContentType) :=
  [("application/cbor", .CBOR), ("application/json", .JSON),
    ("application/octet-stream", .OctetStream), ("text/html", .HTML),
    ("text/event-stream", .EventStream)]

def beforeSeparator : List Char → List Char
  | [] => []
  | ch :: rest => if ";q=".toList.isPrefixOf (ch :: rest) then [] else ch :: beforeSeparator rest

/-- The loop drops a character of the header in each turn, and counts the length
of an encoding from the start of the header. -/
def preferedFrom (preferedOrder : List ContentType) (header : List Char) (lastIndex : ℕ) :
    ContentType :=
  if lastIndex < header.length + 1 then
    let index := lastIndex + (header.drop lastIndex).findIdx (· == ',')
    let encoding := String.ofList (beforeSeparator ((header.drop lastIndex).take index))
    if encoding = "*/*" then .ANY
    else
      match contentTypes.lookup encoding with
      | some contentType =>
        if contentType ∈ preferedOrder then contentType
        else preferedFrom preferedOrder (header.drop 1) (index + 1)
      | none => preferedFrom preferedOrder (header.drop 1) (index + 1)
  else .NoMatch
termination_by header.length + 1 - lastIndex
decreasing_by all_goals simp only [List.length_drop]; omega

def getPreferedContentType (header : String) (preferedOrder : List ContentType) : ContentType :=
  preferedFrom preferedOrder header.toList 0

def contentSecurityPolicy (insecureDisableXssPrevention : Bool) : String :=
  if insecureDisableXssPrevention then
    "default-src 'none'; img-src *; font-src *; style-src *; script-src *; connect-src *; " ++
      "form-action *; frame-ancestors *; object-src *; base-uri *"
  else
    "default-src 'none'; img-src 'self' data:; font-src 'self'; style-src 'self'; " ++
      "script-src 'self'; connect-src 'self' wss:; form-action 'none'; " ++
      "frame-ancestors 'none'; object-src 'none'; base-uri 'none' "

def securityHeaders (insecureDisableXssPrevention : Bool) (origin : String) :
    List (String × String) :=
  [("Strict-Transport-Security", "max-age=31536000; includeSubdomains; preload"),
    ("X-Frame-Options", "DENY"), ("Pragma", "no-cache"),
    ("Cache-Control", "no-Store,no-Cache"), ("X-XSS-Protection", "1; mode=block"),
    ("X-Content-Type-Options", "nosniff"),
    ("Content-Security-Policy", contentSecurityPolicy insecureDisableXssPrevention)] ++
  if insecureDisableXssPrevention then
    [("Access-Control-Allow-Origin", origin),
      ("Access-Control-Allow-Methods", "GET, POST, PUT, PATCH, DELETE"),
      ("Access-Control-Allow-Credentials", "true"),
      ("Access-Control-Allow-Headers", "Origin, Content-Type, Accept, Cookie, X-XSRF-TOKEN")]
  else []

section Complete
variable (L : Library F D) (getHeaderValue : String → String)

def addSecurityHeaders (res : Response F D) : Response F D :=
  (securityHeaders L.insecureDisableXssPrevention (getHeaderValue "Origin")).foldl
    (fun res header => res.addHeader L header.1 header.2) res

def isStructured (j : Json String D) : Bool := j.isObject || j.isArray

/-- The JSON in the format that the client prefers; as HTML it is not written. -/
def writeJson (res : Response F D) : Response F D :=
  if isStructured res.jsonValue then
    match getPreferedContentType (getHeaderValue "Accept") [.CBOR, .JSON, .HTML] with
    | .HTML => res
    | .CBOR => (res.addHeader L "Content-Type" "application/cbor").write (L.to_cbor res.jsonValue)
    | _ => (res.addHeader L "Content-Type" "application/json").write (L.dump res.jsonValue)
  else res

def completeResponseFields (res : Response F D) : Response F D :=
  let res := addSecurityHeaders L getHeaderValue res
  let res := res.setHashAndHandleNotModified L
  writeJson L getHeaderValue res

/-- `completeRequest` as far as the write: the response of the connection, and what
is left of the one that is moved into it. -/
def completeRequest (keepAlive : Bool) (res thisRes : Response F D) :
    Response F D × Response F D :=
  let moved := res.moveAssign L thisRes
  (completeResponseFields L getHeaderValue (moved.1.setKeepAlive L keepAlive), moved.2)

end Complete

end CrowCore.HttpResponse
