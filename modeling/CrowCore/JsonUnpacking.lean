import CrowCore.JsonUtils

set_option autoImplicit false

/-!
# What unpacking decides

A call either succeeds and leaves the response as it is, or it says that the
request was bad. Calls of this kind compose.
-/
namespace CrowCore.JsonUnpacking
open JsonValue ErrorMessages JsonUtils

variable {α β D : Type}

/-- The call succeeds if and only if `good`. It is seen through `view`, which gives
its verdict and the response. -/
structure Decides (call : Except JsonError α) (view : α → Bool × Response D) (res : Response D)
    (good : Prop) (post : α → Prop) : Prop where
  accepts : good → ∃ a, call = .ok a ∧ view a = (true, res) ∧ post a
  rejects : ¬ good → ∀ a, call = .ok a → (view a).1 = false ∧ (view a).2.result = badRequest
  returns : TakesMessages res.jsonValue →
    ∃ a, call = .ok a ∧ TakesMessages (view a).2.jsonValue

abbrev Fails (call : Except JsonError α) (view : α → Bool × Response D) (res : Response D) :
    Prop := Decides call view res False fun _ => False

variable {call : Except JsonError α} {view : α → Bool × Response D} {res : Response D}
  {good : Prop} {post : α → Prop}

theorem Decides.weaken {good' : Prop} {post' : α → Prop} (h : Decides call view res good' post')
    (hgood : good' ↔ good) (hpost : ∀ a, post' a → post a) :
    Decides call view res good post where
  accepts hg := by
    obtain ⟨a, hcall, hview, ha⟩ := h.accepts (hgood.2 hg)
    exact ⟨a, hcall, hview, hpost a ha⟩
  rejects hg := h.rejects (hg ∘ hgood.1)
  returns := h.returns

theorem Fails.decides (h : Fails call view res) (hgood : ¬ good) :
    Decides call view res good post :=
  h.weaken (iff_of_false id hgood) fun _ => False.elim

theorem decides_pure {a : α} (hgood : good) (hview : view a = (true, res)) (ha : post a) :
    Decides (.ok a) view res good post where
  accepts _ := ⟨a, rfl, hview, ha⟩
  rejects hg := (hg hgood).elim
  returns htakes := ⟨a, rfl, by rwa [hview]⟩

theorem fails_pure {a : α} (hverdict : (view a).1 = false)
    (hbad : (view a).2.result = badRequest) : Fails (.ok a) view (view a).2 where
  accepts := False.elim
  rejects _ a' ha' := by
    obtain rfl := Except.ok.inj ha'
    exact ⟨hverdict, hbad⟩
  returns htakes := ⟨a, rfl, htakes⟩

theorem fails_report {message : Except JsonError (Response D)} (h : Reports res message)
    {f : Response D → Except JsonError α}
    (hf : ∀ res', res'.result = badRequest → Fails (f res') view res') :
    Fails (message >>= f) view res where
  accepts := False.elim
  rejects _ a ha := by
    obtain ⟨res', hmessage, hf'⟩ := bind_ok.1 ha
    exact (hf res' (h.badRequest res' hmessage)).rejects id a hf'
  returns htakes := by
    obtain ⟨res', hmessage, htakes'⟩ := h.returns htakes
    obtain ⟨a, ha, htakes''⟩ := (hf res' (h.badRequest res' hmessage)).returns htakes'
    exact ⟨a, bind_ok.2 ⟨res', hmessage, ha⟩, htakes''⟩

theorem Decides.bind (h : Decides call view res good post) {f : α → Except JsonError β}
    {view' : β → Bool × Response D} {good' : Prop} {post' : β → Prop}
    (hsuccess : ∀ a, view a = (true, res) → post a → Decides (f a) view' res good' post')
    (hfailure : ∀ a, (view a).1 = false → (view a).2.result = badRequest →
      Fails (f a) view' (view a).2) :
    Decides (call >>= f) view' res (good ∧ good') post' where
  accepts hg := by
    obtain ⟨a, hcall, hview, ha⟩ := h.accepts hg.1
    obtain ⟨b, hf, hview', hb⟩ := (hsuccess a hview ha).accepts hg.2
    exact ⟨b, bind_ok.2 ⟨a, hcall, hf⟩, hview', hb⟩
  rejects hg b hb := by
    obtain ⟨a, hcall, hf⟩ := bind_ok.1 hb
    by_cases hgood : good
    · obtain ⟨a', hcall', hview, ha⟩ := h.accepts hgood
      obtain rfl := Except.ok.inj (hcall'.symm.trans hcall)
      exact (hsuccess a' hview ha).rejects (fun hgood' => hg ⟨hgood, hgood'⟩) b hf
    · obtain ⟨hverdict, hbad⟩ := h.rejects hgood a hcall
      exact (hfailure a hverdict hbad).rejects id b hf
  returns htakes := by
    obtain ⟨a, hcall, htakes'⟩ := h.returns htakes
    by_cases hgood : good
    · obtain ⟨a', hcall', hview, ha⟩ := h.accepts hgood
      obtain rfl := Except.ok.inj (hcall'.symm.trans hcall)
      obtain ⟨b, hf, htakes''⟩ := (hsuccess a' hview ha).returns htakes
      exact ⟨b, bind_ok.2 ⟨a', hcall, hf⟩, htakes''⟩
    · obtain ⟨hverdict, hbad⟩ := h.rejects hgood a hcall
      obtain ⟨b, hf, htakes''⟩ := (hfailure a hverdict hbad).returns htakes'
      exact ⟨b, bind_ok.2 ⟨a, hcall, hf⟩, htakes''⟩

theorem Fails.bind (h : Fails call view res) {f : α → Except JsonError β}
    {view' : β → Bool × Response D}
    (hf : ∀ a, (view a).1 = false → (view a).2.result = badRequest →
      Fails (f a) view' (view a).2) : Fails (call >>= f) view' res :=
  (Decides.bind h (fun _ _ hpost => hpost.elim) hf).weaken (and_self_iff (a := False))
    fun _ => id

theorem Decides.bind_bad (h : Decides call view res good post) (hres : res.result = badRequest)
    {f : α → Except JsonError β} {view' : β → Bool × Response D}
    (hf : ∀ a, (view a).2.result = badRequest → Fails (f a) view' (view a).2) :
    Fails (call >>= f) view' res := by
  refine (h.bind (fun a hview _ => ?_) fun a _ hbad => hf a hbad).weaken
    (iff_of_false And.right id) fun _ => id
  have hsame : (view a).2 = res := by rw [hview]
  have hnext := hf a (hsame ▸ hres)
  rwa [hsame] at hnext

section Values
variable (F : Doubles D)

/-- What a JSON value is as a value of a type. -/
def unpackedScalar (t : Scalar) (jsonValue : Json Text D) : Option (ScalarValue D) :=
  (unpackValueWithErrorCode F t jsonValue).toOption

def unpackedVector (t : Scalar) : Json Text D → Option (List (ScalarValue D))
  | .array elements => elements.mapM (unpackedScalar F t)
  | _ => none

def unpacked (type : UnpackType) (jsonValue : Json Text D) : Option (Output D) :=
  match type with
  | .one t => (unpackedScalar F t jsonValue).map fun value => .plain (.one value)
  | .vector t _ => (unpackedVector F t jsonValue).map fun values => .plain (.vector values)
  | .optional t => (unpackedScalar F t jsonValue).map fun value => .optional (some (.one value))
  | .optionalVector t _ =>
    (unpackedVector F t jsonValue).map fun values => .optional (some (.vector values))

def isVector : UnpackType → Bool
  | .vector _ _ => true
  | _ => false

variable (R : Registry D)

def outcome {γ : Type} (a : Bool × Response D × γ) : Bool × Response D := (a.1, a.2.1)

theorem unpackScalar_decides (t : Scalar) (jsonValue : Json Text D) (key : Text)
    (res : Response D) (value : ScalarValue D) :
    Decides (unpackScalar F R t jsonValue key res value) outcome res
      (unpackedScalar F t jsonValue).isSome
      (fun a => unpackedScalar F t jsonValue = some a.2.2) := by
  unfold unpackScalar unpackedScalar
  rcases unpackValueWithErrorCode F t jsonValue with code | value'
  · refine Fails.decides ?_ (by simp [Except.toOption])
    cases code with
    | invalidType =>
      exact fails_report (reports_propertyValueTypeError R res jsonValue key)
        fun res' hbad => fails_pure rfl hbad
    | outOfRange =>
      exact fails_report (reports_propertyValueNotInList R res jsonValue key)
        fun res' hbad => fails_pure rfl hbad
  · exact decides_pure rfl rfl rfl

theorem unpackElements_fails (t : Scalar) (key : Text) (elements : List (Json Text D))
    {res : Response D} (hres : res.result = badRequest) (values : List (ScalarValue D)) :
    Fails (unpackElements F R t key elements false res values) outcome res := by
  induction elements generalizing res values with
  | nil => exact fails_pure rfl hres
  | cons val elements ih =>
    rw [unpackElements]
    refine (unpackScalar_decides F R t val key res (t.initial F)).bind_bad hres ?_
    rintro ⟨ok, res', value⟩ hbad
    simp only [Bool.and_false]
    exact ih hbad _

theorem unpackElements_decides (t : Scalar) (key : Text) (elements : List (Json Text D))
    (res : Response D) (values : List (ScalarValue D)) :
    Decides (unpackElements F R t key elements true res values) outcome res
      (elements.mapM (unpackedScalar F t)).isSome
      (fun a => (elements.mapM (unpackedScalar F t)).map (values ++ ·) = some a.2.2) := by
  induction elements generalizing values with
  | nil => exact decides_pure rfl rfl (by simp)
  | cons val elements ih =>
    rw [unpackElements, List.mapM_cons]
    have hval := unpackScalar_decides F R t val key res (t.initial F)
    have hbind : Decides (unpackScalar F R t val key res (t.initial F) >>= fun a =>
        unpackElements F R t key elements (a.1 && true) a.2.1 (values ++ [a.2.2])) outcome res
        ((unpackedScalar F t val).isSome ∧ (elements.mapM (unpackedScalar F t)).isSome)
        (fun a => (unpackedScalar F t val).bind (fun value =>
          (elements.mapM (unpackedScalar F t)).map (values ++ [value] ++ ·)) = some a.2.2) := by
      refine hval.bind ?_ ?_
      · rintro ⟨ok, res', value⟩ hview hvalue
        obtain ⟨rfl, rfl⟩ := Prod.mk.inj hview
        refine (ih (values ++ [value])).weaken Iff.rfl fun a ha => ?_
        rw [hvalue]
        exact ha
      · rintro ⟨ok, res', value⟩ hverdict hbad
        obtain rfl : ok = false := hverdict
        exact unpackElements_fails F R t key elements hbad _
    refine hbind.weaken ?_ fun a ha => ?_
    · cases unpackedScalar F t val <;> cases elements.mapM (unpackedScalar F t) <;> simp
    · cases hvalue : unpackedScalar F t val <;>
        cases hvalues : elements.mapM (unpackedScalar F t) <;> simp_all

theorem unpackVector_decides (t : Scalar) (jsonValue : Json Text D) (key : Text)
    (res : Response D) (values : List (ScalarValue D)) :
    Decides (unpackVector F R t jsonValue key res values) outcome res
      (unpackedVector F t jsonValue).isSome
      (fun a => (unpackedVector F t jsonValue).map (values ++ ·) = some a.2.2) := by
  cases jsonValue with
  | array elements => exact unpackElements_decides F R t key elements res values
  | _ =>
    refine Fails.decides ?_ (by simp [unpackedVector])
    exact fails_report (reports_propertyValueTypeError R res res.jsonValue key)
      fun res' hbad => fails_pure rfl hbad

theorem Decides.map {γ δ : Type} (f : γ → δ) {call : Except JsonError (Bool × Response D × γ)}
    {res : Response D} {good : Prop} {post : Bool × Response D × γ → Prop}
    (h : Decides call outcome res good post) :
    Decides (call >>= fun a => .ok (a.1, a.2.1, f a.2.2)) outcome res good
      (fun b => ∃ a, post a ∧ f a.2.2 = b.2.2) := by
  refine Decides.weaken (h.bind (fun a hview ha => ?_) fun a hverdict hbad => ?_)
    (and_iff_left trivial) fun _ => id
  · exact decides_pure trivial hview ⟨a, ha, rfl⟩
  · exact @fails_pure _ _ outcome _ hverdict hbad

theorem unpackValue_decides (type : UnpackType) (jsonValue : Json Text D) (key : Text)
    (res : Response D) (value : Output D) :
    Decides (unpackValue F R type jsonValue key res value) outcome res
      (unpacked F type jsonValue).isSome
      (fun a => (isVector type → value.elements = []) →
        unpacked F type jsonValue = some a.2.2) := by
  cases type with
  | one t =>
    simp only [unpacked, Option.isSome_map]
    refine ((unpackScalar_decides F R t jsonValue key res _).map fun value =>
      Output.plain (.one value)).weaken Iff.rfl ?_
    rintro b ⟨a, ha, hb⟩ -
    rw [ha, Option.map_some, hb]
  | vector t ht =>
    simp only [unpacked, Option.isSome_map]
    have h := unpackVector_decides F R t jsonValue key res value.elements
    refine (h.map fun values => Output.plain (.vector values)).weaken Iff.rfl ?_
    rintro b ⟨a, ha, hb⟩ hempty
    simp only [hempty rfl, List.nil_append, Option.map_id'] at ha
    rw [ha, Option.map_some, hb]
  | optional t =>
    simp only [unpacked, Option.isSome_map]
    have h := unpackScalar_decides F R t jsonValue key res (t.initial F)
    refine (h.map fun value => Output.optional (some (.one value))).weaken Iff.rfl ?_
    rintro b ⟨a, ha, hb⟩ -
    rw [ha, Option.map_some, hb]
  | optionalVector t ht =>
    simp only [unpacked, Option.isSome_map]
    have h := unpackVector_decides F R t jsonValue key res []
    refine (h.map fun values => Output.optional (some (.vector values))).weaken Iff.rfl ?_
    rintro b ⟨a, ha, hb⟩ -
    simp only [List.nil_append, Option.map_id'] at ha
    rw [ha, Option.map_some, hb]

end Values

section Missing
variable (R : Registry D)

theorem checkMissing_fails (toUnpack : List PerUnpack) {res : Response D}
    (hres : res.result = badRequest) : Fails (checkMissing R toUnpack false res) id res := by
  induction toUnpack generalizing res with
  | nil => exact @fails_pure _ _ id _ rfl hres
  | cons perUnpack toUnpack ih =>
    rw [checkMissing]
    split
    · exact fails_report (reports_propertyMissing R res perUnpack.key) fun res' hbad => ih hbad
    · exact ih hres

theorem checkMissing_decides (toUnpack : List PerUnpack) (res : Response D) :
    Decides (checkMissing R toUnpack true res) id res
      (∀ p ∈ toUnpack, p.complete = false → p.type.isOptional) (fun _ => True) := by
  induction toUnpack with
  | nil => exact decides_pure (by simp) rfl trivial
  | cons perUnpack toUnpack ih =>
    rw [checkMissing]
    split
    · refine Fails.decides ?_ fun hall => ?_
      · exact fails_report (reports_propertyMissing R res perUnpack.key)
          fun res' hbad => checkMissing_fails R toUnpack hbad
      · simp_all
    · refine ih.weaken ?_ fun _ => id
      simp_all

end Missing

end CrowCore.JsonUnpacking
