import CrowCore.HttpResponse

set_option autoImplicit false

/-!
# The header fields of a response

What `Content-Length` announces, and how many entity tags a response gets.
-/
namespace CrowCore.ResponseHeaders
open Base64 HttpResponse JsonValue

variable {F D : Type} {L : Library F D}

/-- A status for which `getContentLength` announces no body. -/
def Bodiless (L : Library F D) (result : ℕ) : Prop :=
  (L.known result ∧ result / 100 = 1) ∨ result = 204 ∨ result = 304

theorem payloadSize_eq (body : Body) : body.payloadSize = some body.emit.length := by
  cases body with
  | string body => rfl
  | file f => rfl
  | base64File f =>
    simp only [Body.payloadSize, Body.emit, toBytes, List.length_map, serializeInParts_eq,
      size_eq f.size_lt]

theorem getContentLength_eq (res : Response F D) (size : ℕ) [Decidable (Bodiless L res.result)] :
    res.getContentLength L (some size) = if Bodiless L res.result then 0 else size := by
  unfold Response.getContentLength
  by_cases hbodiless : Bodiless L res.result
  · rw [if_pos hbodiless]
    dsimp only
    split_ifs with h
    · rfl
    · have hsize : ¬ 0 < size := by
        intro hpos
        exact h ⟨hpos, by simpa [Bodiless] using hbodiless⟩
      omega
  · rw [if_neg hbodiless]
    refine if_neg fun h => hbodiless ?_
    simpa [Bodiless] using h.2

/-- The announced length is that of the body that is written if and only if the
body is empty or the status allows one. -/
theorem content_length_iff (hL : L.Lawful) (res : Response F D) :
    L.values (res.preparePayload L).fields "Content-Length" =
        [toString (res.preparePayload L).generator.length] ↔
      res.body.payloadSize = some 0 ∨ ¬ Bodiless L res.result := by
  classical
  have hvalues : L.values (res.preparePayload L).fields "Content-Length" =
      [toString (res.getContentLength L res.body.payloadSize)] := by
    rw [Response.preparePayload, hL.values_content_length _ _ _ (by decide +kernel)]
    exact if_pos (by decide +kernel)
  have hbody : (res.preparePayload L).generator = res.body.emit := rfl
  rw [hvalues, hbody, payloadSize_eq, getContentLength_eq, List.singleton_inj,
    Nat.toString_eq_repr, Nat.toString_eq_repr, Nat.repr_inj, Option.some.injEq]
  split_ifs with h
  · simp [h, eq_comm]
  · simp [h]

def sameName (name : String) (field : String × String) : Bool :=
  field.1.toLower == name.toLower

def insertField (fields : List (String × String)) (name value : String) :
    List (String × String) :=
  let back := (fields.reverse.takeWhile fun field => !sameName name field).reverse
  let front := (fields.reverse.dropWhile fun field => !sameName name field).reverse
  if front.isEmpty then fields ++ [(name, value)] else front ++ (name, value) :: back

def setField (fields : List (String × String)) (name value : String) : List (String × String) :=
  (fields.filter fun field => !sameName name field) ++ [(name, value)]

/-- The JSON of the examples is one object, so that its texts are constants. -/
def listLibrary : Library (List (String × String)) Unit where
  empty := []
  elements := id
  set := setField
  insert := insertField
  content_length fields n := setField fields "Content-Length" (toString n)
  keep_alive fields k :=
    if k then fields.filter fun field => !sameName "Connection" field
    else setField fields "Connection" "close"
  known status :=
    [100, 101, 102, 200, 201, 202, 204, 304, 400, 401, 403, 404, 405, 500].contains status
  hash _ := 0x9E3779B97F4A7C15
  dump _ := HttpConnection.ascii "\x7b\n  \"Id\": 7\n\x7d"
  to_cbor _ := [0xA1, 0x62, 0x49, 0x64, 0x07]

theorem values_listLibrary (fields : List (String × String)) (name : String) :
    listLibrary.values fields name = (fields.filter (sameName name)).map Prod.snd := rfl

theorem filter_sameName_other {name other : String} (hne : name.toLower ≠ other.toLower)
    (fields : List (String × String)) :
    (fields.filter fun field => !sameName name field).filter (sameName other) =
      fields.filter (sameName other) := by
  rw [List.filter_filter]
  refine List.filter_congr fun field _ => ?_
  by_cases hother : field.1.toLower = other.toLower
  · have hname : field.1.toLower ≠ name.toLower := fun h => hne (h.symm.trans hother)
    simp [sameName, hother, hne.symm]
  · simp [sameName, hother]

theorem filter_sameName_self (name : String) (fields : List (String × String)) :
    (fields.filter fun field => !sameName name field).filter (sameName name) = [] := by
  rw [List.filter_filter, List.filter_eq_nil_iff]
  intro field _
  simp

theorem values_setField (fields : List (String × String)) (name value other : String) :
    listLibrary.values (setField fields name value) other =
      if other.toLower = name.toLower then [value] else listLibrary.values fields other := by
  rw [values_listLibrary, setField, List.filter_append]
  split_ifs with h
  · have hsame : sameName other = sameName name := by
      funext field
      rw [sameName, sameName, h]
    rw [hsame, filter_sameName_self]
    simp [sameName]
  · rw [filter_sameName_other (Ne.symm h), values_listLibrary]
    have hnot : [(name, value)].filter (sameName other) = [] := by
      simpa [sameName] using Ne.symm h
    rw [hnot, List.append_nil]

theorem values_insertField (fields : List (String × String)) (name value other : String) :
    listLibrary.values (insertField fields name value) other =
      listLibrary.values fields other ++ if name.toLower = other.toLower then [value] else [] := by
  have hsplit : (fields.reverse.dropWhile fun field => !sameName name field).reverse ++
      (fields.reverse.takeWhile fun field => !sameName name field).reverse = fields := by
    rw [← List.reverse_append, List.takeWhile_append_dropWhile, List.reverse_reverse]
  have hback : ∀ field ∈ (fields.reverse.takeWhile fun field => !sameName name field).reverse,
      sameName name field = false := by
    intro field hfield
    simpa using List.mem_takeWhile_imp (List.mem_reverse.1 hfield)
  have hnew : [(name, value)].filter (sameName other) =
      if name.toLower = other.toLower then [(name, value)] else [] := by
    by_cases h : name.toLower = other.toLower <;> simp [sameName, h]
  simp only [values_listLibrary]
  unfold insertField
  dsimp only
  split_ifs with hempty hsame hsame
  · rw [List.filter_append, hnew, if_pos hsame]
    simp
  · rw [List.filter_append, hnew, if_neg hsame]
    simp
  · have hnone : (fields.reverse.takeWhile fun field => !sameName name field).reverse.filter
        (sameName other) = [] := by
      rw [List.filter_eq_nil_iff]
      intro field hfield
      have := hback field hfield
      rw [sameName, hsame] at this
      simpa [sameName] using this
    conv_rhs => rw [← hsplit]
    rw [List.filter_append, List.filter_append, List.filter_cons, hnone, List.append_nil]
    simp [sameName, hsame]
  · conv_rhs => rw [← hsplit]
    rw [List.filter_append, List.filter_append, List.filter_cons, if_neg]
    · simp
    · simpa [sameName] using hsame

theorem listLibrary_lawful : listLibrary.Lawful where
  values_insert := values_insertField
  values_content_length fields n other _ := by
    have h := values_setField fields "Content-Length" (toString n) other
    have hname : "Content-Length".toLower = "content-length" := by decide +kernel
    rw [hname] at h
    exact h
  values_keep_alive fields k other hne := by
    have hname : "Connection".toLower = "connection" := by decide +kernel
    cases k
    · have h := values_setField fields "Connection" "close" other
      rw [hname, if_neg hne] at h
      exact h
    · exact congrArg (List.map Prod.snd)
        (filter_sameName_other (by rw [hname]; exact Ne.symm hne) fields)

/-- A short text with the status of success. -/
theorem content_length_sample :
    let res : Response (List (String × String)) Unit := { fields := [], body := .string [104, 105] }
    listLibrary.values (res.preparePayload listLibrary).fields "Content-Length" =
      [toString (res.preparePayload listLibrary).generator.length] := by
  intro res
  exact (content_length_iff listLibrary_lawful res).2 (.inr (by simp [Bodiless, res]))

/-- The body of a 204 is announced as empty and written. -/
theorem no_content_with_body :
    let res : Response (List (String × String)) Unit :=
      { result := 204, fields := [], body := .string [104, 105] }
    listLibrary.values (res.preparePayload listLibrary).fields "Content-Length" ≠
      [toString (res.preparePayload listLibrary).generator.length] := by
  decide +kernel

/-- The handler succeeded and has JSON to be tagged. -/
def Tagged (built : Response F D) : Prop := built.result = 200 ∧ jsonEmpty built.jsonValue = false

theorem values_addHeader (hL : L.Lawful) (res : Response F D) (name value other : String) :
    L.values (res.addHeader L name value).fields other =
      L.values res.fields other ++ if name.toLower = other.toLower then [value] else [] :=
  hL.values_insert res.fields name value other

theorem values_addHeader_ne (hL : L.Lawful) (res : Response F D) {name other : String}
    (value : String) (hne : name.toLower ≠ other.toLower) :
    L.values (res.addHeader L name value).fields other = L.values res.fields other := by
  rw [values_addHeader hL, if_neg hne, List.append_nil]

theorem fields_write (res : Response F D) (bodyPart : List UInt8) :
    (res.write bodyPart).fields = res.fields := by
  unfold Response.write
  split <;> rfl

def securityNames : List String :=
  ["Strict-Transport-Security", "X-Frame-Options", "Pragma", "Cache-Control", "X-XSS-Protection",
    "X-Content-Type-Options", "Content-Security-Policy", "Access-Control-Allow-Origin",
    "Access-Control-Allow-Methods", "Access-Control-Allow-Credentials",
    "Access-Control-Allow-Headers"]

/-- A name that no security header has. -/
def OtherName (other : String) : Prop := ∀ name ∈ securityNames, name.toLower ≠ other.toLower

theorem otherName_etag : OtherName "ETag" := by
  unfold OtherName
  decide +kernel

theorem name_mem_securityNames (insecure : Bool) (origin : String) :
    ∀ header ∈ securityHeaders insecure origin, header.1 ∈ securityNames := by
  have hsublist : ((securityHeaders insecure origin).map Prod.fst).Sublist securityNames := by
    cases insecure
    · exact List.sublist_append_left (securityNames.take 7) (securityNames.drop 7)
    · exact List.Sublist.refl securityNames
  exact fun header hheader => hsublist.subset (List.mem_map_of_mem hheader)

theorem etag_ne_empty (jsonValue : Json String D) : (L.etag jsonValue).isEmpty = false := by
  simp [Library.etag]

theorem computeEtag_of_tagged {res : Response F D} (h : Tagged res) :
    res.computeEtag L = L.etag res.jsonValue := by
  simp [Response.computeEtag, h.1, h.2]

theorem computeEtag_of_not_tagged {res : Response F D} (h : ¬ Tagged res) :
    res.computeEtag L = "" := by
  unfold Response.computeEtag
  split_ifs with hresult hempty
  · rfl
  · rfl
  · exact (h ⟨not_not.1 hresult, by simpa using hempty⟩).elim

theorem markEnded_spec (hL : L.Lawful) (res : Response F D) :
    (res.markEnded L).result = res.result ∧ (res.markEnded L).jsonValue = res.jsonValue ∧
      (Tagged res → L.values (res.markEnded L).fields "ETag" =
        L.values res.fields "ETag" ++ [L.etag res.jsonValue]) ∧
      (¬ Tagged res → L.values (res.markEnded L).fields "ETag" = L.values res.fields "ETag") := by
  unfold Response.markEnded
  by_cases h : Tagged res
  · rw [computeEtag_of_tagged h]
    simp only [etag_ne_empty, Bool.false_eq_true, if_false]
    refine ⟨rfl, rfl, fun _ => ?_, fun hnot => (hnot h).elim⟩
    exact (values_addHeader hL res "ETag" (L.etag res.jsonValue) "ETag").trans (by rw [if_pos rfl])
  · rw [computeEtag_of_not_tagged h]
    exact ⟨rfl, rfl, fun htagged => (h htagged).elim, fun _ => rfl⟩

theorem setHash_spec (hL : L.Lawful) (res : Response F D) :
    (Tagged res → L.values (res.setHashAndHandleNotModified L).fields "ETag" =
      L.values res.fields "ETag" ++ [L.etag res.jsonValue]) ∧
    (¬ Tagged res → res.setHashAndHandleNotModified L = res) := by
  unfold Response.setHashAndHandleNotModified
  constructor
  · intro h
    have hnot : ¬ (jsonEmpty res.jsonValue = true ∨ res.result ≠ 200) := by simp [h.1, h.2]
    have hvalues := values_addHeader hL res "ETag" (L.etag res.jsonValue) "ETag"
    rw [if_pos rfl] at hvalues
    rw [if_neg hnot]
    dsimp only
    split_ifs
    · exact hvalues
    · exact hvalues
  · intro h
    refine if_pos ?_
    by_contra hnot
    simp only [not_or, not_not, Bool.not_eq_true] at hnot
    exact h ⟨hnot.2, hnot.1⟩

theorem foldl_addHeader (headers : List (String × String)) (res : Response F D) :
    let r := headers.foldl (fun res header => res.addHeader L header.1 header.2) res
    r.toResponse = res.toResponse ∧ r.jsonValue = res.jsonValue := by
  induction headers generalizing res with
  | nil => exact ⟨rfl, rfl⟩
  | cons header headers ih => exact ih (res.addHeader L header.1 header.2)

theorem addSecurityHeaders_keeps (getHeaderValue : String → String) (res : Response F D) :
    (addSecurityHeaders L getHeaderValue res).toResponse = res.toResponse ∧
      (addSecurityHeaders L getHeaderValue res).jsonValue = res.jsonValue :=
  foldl_addHeader _ res

theorem values_foldl_addHeader (hL : L.Lawful) {other : String} (headers : List (String × String))
    (hne : ∀ header ∈ headers, header.1.toLower ≠ other.toLower) (res : Response F D) :
    L.values (headers.foldl (fun res header => res.addHeader L header.1 header.2) res).fields
      other = L.values res.fields other := by
  induction headers generalizing res with
  | nil => rfl
  | cons header headers ih =>
    have hrest := ih (fun h hh => hne h (.tail _ hh)) (res.addHeader L header.1 header.2)
    exact hrest.trans (values_addHeader_ne hL res header.2 (hne header (.head _)))

theorem values_addSecurityHeaders (hL : L.Lawful) (getHeaderValue : String → String)
    {other : String} (hother : OtherName other) (res : Response F D) :
    L.values (addSecurityHeaders L getHeaderValue res).fields other = L.values res.fields other :=
  values_foldl_addHeader hL _
    (fun header hheader => hother header.1 (name_mem_securityNames _ _ header hheader)) res

theorem values_writeJson (hL : L.Lawful) (getHeaderValue : String → String)
    (res : Response F D) : L.values (writeJson L getHeaderValue res).fields "ETag" =
      L.values res.fields "ETag" := by
  have hne : "Content-Type".toLower ≠ "ETag".toLower := by decide +kernel
  unfold writeJson
  split_ifs
  · split
    · rfl
    · rw [fields_write]
      exact values_addHeader_ne hL res _ hne
    · rw [fields_write]
      exact values_addHeader_ne hL res _ hne
  · rfl

/-- The response that is written for what the handler built: ended, moved into the
response `own` of the connection, and completed. -/
def written (L : Library F D) (getHeaderValue : String → String) (keepAlive : Bool)
    (own built : Response F D) : Response F D :=
  (completeRequest L getHeaderValue keepAlive own (built.markEnded L)).1.preparePayload L

theorem values_completeResponseFields (hL : L.Lawful) (getHeaderValue : String → String)
    (res : Response F D) :
    (Tagged res → L.values (completeResponseFields L getHeaderValue res).fields "ETag" =
      L.values res.fields "ETag" ++ [L.etag res.jsonValue]) ∧
    (¬ Tagged res → L.values (completeResponseFields L getHeaderValue res).fields "ETag" =
      L.values res.fields "ETag") := by
  obtain ⟨hresp, hjson⟩ := addSecurityHeaders_keeps (L := L) getHeaderValue res
  have hvalues := values_addSecurityHeaders hL getHeaderValue otherName_etag res
  have hiff : Tagged (addSecurityHeaders L getHeaderValue res) ↔ Tagged res := by
    rw [Tagged, hresp, hjson, Tagged]
  obtain ⟨htagged, hnot⟩ := setHash_spec hL (addSecurityHeaders L getHeaderValue res)
  unfold completeResponseFields
  dsimp only
  rw [values_writeJson hL]
  refine ⟨fun h => ?_, fun h => ?_⟩
  · rw [htagged (hiff.2 h), hvalues, hjson]
  · rw [hnot (fun h' => h (hiff.1 h')), hvalues]

theorem values_written (hL : L.Lawful) (getHeaderValue : String → String) (keepAlive : Bool)
    (own built : Response F D) :
    (Tagged built → L.values (written L getHeaderValue keepAlive own built).fields "ETag" =
      L.values built.fields "ETag" ++ [L.etag built.jsonValue, L.etag built.jsonValue]) ∧
    (¬ Tagged built → L.values (written L getHeaderValue keepAlive own built).fields "ETag" =
      L.values built.fields "ETag") := by
  obtain ⟨hresult, hjson, hended, hnot_ended⟩ := markEnded_spec hL built
  let moved := (own.moveAssign L (built.markEnded L)).1.setKeepAlive L keepAlive
  have hiff : Tagged moved ↔ Tagged built := by
    change (built.markEnded L).result = 200 ∧ jsonEmpty (built.markEnded L).jsonValue = false ↔ _
    rw [hresult, hjson, Tagged]
  have hmoved : L.values moved.fields "ETag" = L.values (built.markEnded L).fields "ETag" :=
    hL.values_keep_alive _ _ _ (by decide +kernel)
  have hmoved_json : moved.jsonValue = built.jsonValue := hjson
  have hpayload : L.values (written L getHeaderValue keepAlive own built).fields "ETag" =
      L.values (completeResponseFields L getHeaderValue moved).fields "ETag" := by
    rw [written, Response.preparePayload, hL.values_content_length _ _ _ (by decide +kernel)]
    exact if_neg (by decide +kernel)
  obtain ⟨htagged, hnot⟩ := values_completeResponseFields hL getHeaderValue moved
  refine ⟨fun h => ?_, fun h => ?_⟩
  · rw [hpayload, htagged (hiff.2 h), hmoved, hended h, hmoved_json, List.append_assoc]
    rfl
  · rw [hpayload, hnot (fun h' => h (hiff.1 h')), hmoved, hnot_ended h]

/-- The entity tag of the handler's JSON, if the response is to be tagged, and no
other. -/
def OneETag (L : Library F D) (built written : Response F D) : Prop :=
  (Tagged built → L.values written.fields "ETag" = [L.etag built.jsonValue]) ∧
    (¬ Tagged built → L.values written.fields "ETag" = [])

/-- A response without a tag of its own gets the right ones if and only if it is
not to be tagged. -/
theorem one_etag_iff (hL : L.Lawful) (getHeaderValue : String → String) (keepAlive : Bool)
    (own built : Response F D) (hown : L.values built.fields "ETag" = []) :
    OneETag L built (written L getHeaderValue keepAlive own built) ↔
      built.result ≠ 200 ∨ jsonEmpty built.jsonValue := by
  obtain ⟨htagged, hnot⟩ := values_written hL getHeaderValue keepAlive own built
  rw [hown] at htagged hnot
  by_cases h : Tagged built
  · refine iff_of_false (fun hone => ?_) (by simp [h.1, h.2])
    have htwo := hone.1 h
    rw [htagged h] at htwo
    cases htwo
  · refine iff_of_true ⟨fun h' => (h h').elim, fun _ => hnot h⟩ ?_
    by_contra hcond
    simp only [ne_eq, not_or, not_not, Bool.not_eq_true] at hcond
    exact h hcond

def sampleJson : Json String Unit := .object [("Id", .number_unsigned 7)]

theorem one_etag_sample :
    let built : Response (List (String × String)) Unit :=
      { result := 404, fields := [], jsonValue := sampleJson }
    OneETag listLibrary built (written listLibrary (fun _ => "") true { fields := [] } built) := by
  intro built
  refine (one_etag_iff listLibrary_lawful _ true _ built ?_).2 (.inl ?_)
  · rfl
  · decide

theorem two_etags :
    let built : Response (List (String × String)) Unit := { fields := [], jsonValue := sampleJson }
    listLibrary.values built.fields "ETag" = [] ∧
      ¬ OneETag listLibrary built
        (written listLibrary (fun _ => "") true { fields := [] } built) := by
  intro built
  have htwo : listLibrary.values
      (written listLibrary (fun _ => "") true { fields := [] } built).fields "ETag" =
        ["\"7F4A7C15\"", "\"7F4A7C15\""] := by decide +kernel
  refine ⟨rfl, fun h => ?_⟩
  have hone := h.1 ⟨rfl, rfl⟩
  rw [htwo] at hone
  cases congrArg List.length hone

end CrowCore.ResponseHeaders
