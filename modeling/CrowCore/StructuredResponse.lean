import CrowCore.AcceptHeader
import CrowCore.ConditionalRequests

set_option autoImplicit false

/-!
# Structured JSON of a response

What `completeResponseFields` writes of an object or an array. The branch of a
client that prefers HTML writes nothing: its call is commented out.
-/
namespace CrowCore.StructuredResponse
open HttpResponse ResponseHeaders ConditionalRequests JsonValue

variable {F D : Type} {L : Library F D}

def NotModified (L : Library F D) (res : Response F D) : Prop :=
  Tagged res ∧ res.expectedHash = some (L.etag res.jsonValue)

/-- The formats by the value of `Content-Type`; for `html` stands any rendering. -/
def formats (L : Library F D) (html : Json String D → List UInt8) :
    List (String × (Json String D → List UInt8)) :=
  [("application/cbor", L.to_cbor), ("application/json", L.dump),
    ("text/html;charset=UTF-8", html)]

/-- A body that ends in the JSON of `res`, in the format that was announced. -/
def Carries (L : Library F D) (html : Json String D → List UInt8) (res completed : Response F D) :
    Prop :=
  ∃ format ∈ formats L html,
    L.values completed.fields "Content-Type" =
      L.values res.fields "Content-Type" ++ [format.1] ∧
    ∃ before, completed.body = .string (before ++ format.2 res.jsonValue)

theorem otherName_contentType : OtherName "Content-Type" := by
  unfold OtherName
  decide +kernel

theorem write_body (res : Response F D) (bodyPart : List UInt8) :
    ∃ before, (res.write bodyPart).body = .string (before ++ bodyPart) := by
  unfold Response.write
  split
  · exact ⟨_, rfl⟩
  · exact ⟨[], rfl⟩

theorem values_setHash (hL : L.Lawful) (res : Response F D) :
    L.values (res.setHashAndHandleNotModified L).fields "Content-Type" =
      L.values res.fields "Content-Type" := by
  have hne : "ETag".toLower ≠ "Content-Type".toLower := by decide +kernel
  unfold Response.setHashAndHandleNotModified
  dsimp only
  split_ifs
  · rfl
  · exact values_addHeader_ne hL res _ hne
  · exact values_addHeader_ne hL res _ hne

theorem before_writeJson (hL : L.Lawful) (getHeaderValue : String → String) {res : Response F D}
    (hnot : ¬ NotModified L res) :
    let r := (addSecurityHeaders L getHeaderValue res).setHashAndHandleNotModified L
    completeResponseFields L getHeaderValue res = writeJson L getHeaderValue r ∧
    r.jsonValue = res.jsonValue ∧
    L.values r.fields "Content-Type" = L.values res.fields "Content-Type" := by
  intro r
  have hjson := ((completeResponseFields_spec (L := L) getHeaderValue res).2 hnot).2
  have hwrite := (writeJson_spec (L := L) getHeaderValue r).2
  refine ⟨rfl, hwrite.symm.trans hjson, ?_⟩
  rw [values_setHash hL, values_addSecurityHeaders hL getHeaderValue otherName_contentType]

theorem values_write_contentType (hL : L.Lawful) (res : Response F D) (value : String)
    (bodyPart : List UInt8) :
    L.values ((res.addHeader L "Content-Type" value).write bodyPart).fields "Content-Type" =
      L.values res.fields "Content-Type" ++ [value] := by
  rw [fields_write, values_addHeader hL, if_pos rfl]

theorem not_carries_html (hL : L.Lawful) (html : Json String D → List UInt8)
    (getHeaderValue : String → String) {res : Response F D} (hnot : ¬ NotModified L res)
    (hhtml : getPreferedContentType (getHeaderValue "Accept") [.CBOR, .JSON, .HTML] = .HTML) :
    ¬ Carries L html res (completeResponseFields L getHeaderValue res) := by
  obtain ⟨hcomplete, -, hvalues⟩ := before_writeJson hL getHeaderValue hnot
  rintro ⟨format, -, htype, -⟩
  have hsame : completeResponseFields L getHeaderValue res =
      (addSecurityHeaders L getHeaderValue res).setHashAndHandleNotModified L := by
    rw [hcomplete, writeJson, hhtml]
    exact ite_self _
  rw [hsame, hvalues] at htype
  simpa using congrArg List.length htype

/-- Structured JSON reaches the client if and only if the client does not prefer HTML. -/
theorem structured_reaches_iff (hL : L.Lawful) (html : Json String D → List UInt8)
    (getHeaderValue : String → String) {res : Response F D}
    (hstructured : isStructured res.jsonValue = true) (hnot : ¬ NotModified L res) :
    Carries L html res (completeResponseFields L getHeaderValue res) ↔
      getPreferedContentType (getHeaderValue "Accept") [.CBOR, .JSON, .HTML] ≠ .HTML := by
  constructor
  · exact fun h hhtml => not_carries_html hL html getHeaderValue hnot hhtml h
  · intro hhtml
    obtain ⟨hcomplete, hjson, hvalues⟩ := before_writeJson hL getHeaderValue hnot
    rw [hcomplete]
    generalize (addSecurityHeaders L getHeaderValue res).setHashAndHandleNotModified L = r at *
    have hadds := fun value bodyPart => values_write_contentType hL r value bodyPart
    rw [hvalues] at hadds
    rw [writeJson, hjson, if_pos hstructured]
    split
    case h_1 h => exact (hhtml h).elim
    case h_2 =>
      exact ⟨("application/cbor", L.to_cbor), by simp [formats], hadds _ _, write_body _ _⟩
    case h_3 =>
      exact ⟨("application/json", L.dump), by simp [formats], hadds _ _, write_body _ _⟩

def sampleResponse : Response (List (String × String)) Unit :=
  { fields := [], jsonValue := sampleJson }

theorem sampleResponse_modified : ¬ NotModified listLibrary sampleResponse := by
  rintro ⟨-, h⟩
  cases h

/-- A request without an `Accept` header. -/
theorem structured_reaches_iff_sample :
    Carries listLibrary (fun _ => []) sampleResponse
      (completeResponseFields listLibrary (fun _ => "") sampleResponse) := by
  have hnone : getPreferedContentType "" [.CBOR, .JSON, .HTML] = .NoMatch :=
    AcceptHeader.getPreferedContentType_eq []
  refine (structured_reaches_iff listLibrary_lawful _ _ rfl sampleResponse_modified).2 ?_
  rw [hnone]
  decide

def acceptHtml (name : String) : String := if name = "Accept" then "text/html" else ""

theorem html_client_gets_nothing :
    isStructured sampleResponse.jsonValue = true ∧ ¬ NotModified listLibrary sampleResponse ∧
    ∀ html : Json String Unit → List UInt8, ¬ Carries listLibrary html sampleResponse
      (completeResponseFields listLibrary acceptHtml sampleResponse) := by
  have hhtml : getPreferedContentType (acceptHtml "Accept") [.CBOR, .JSON, .HTML] = .HTML := by
    let e : AcceptHeader.Element :=
      { spaced := false, range := "text/html".toList, q := none, range_ne_nil := by decide
        not_space := by decide, comma_notMem := by decide, no_separator := by decide
        comma_notMem_q := by simp }
    have htext : acceptHtml "Accept" = String.ofList (AcceptHeader.headerText [e]) := by decide
    rw [htext, AcceptHeader.getPreferedContentType_eq]
    decide
  refine ⟨rfl, sampleResponse_modified, fun html => ?_⟩
  exact not_carries_html listLibrary_lawful html acceptHtml sampleResponse_modified hhtml

end CrowCore.StructuredResponse
