import CrowCore.ErrorAggregation

set_option autoImplicit false

/-!
# Messages that are refused

A message that is not added may still change the target, and may be lost to the
source.
-/
namespace CrowCore.RefusedMessages
open JsonValue ErrorMessages ErrorAggregation

section Definitions
variable {D : Type} (target message : Json Text D)

/-- `target["error"]` -/
def errorOf : Json Text D := (target.find "error".toList).getD .null

def extendedInfo : List (Json Text D) := errorMessages (errorOf target)

/-- The target takes the message: it has an error already, or the message can begin one. -/
def Takes : Prop := IsMessage message ∨ (errorOf target).isObject

end Definitions

variable {D : Type} {target target' source source' message : Json Text D}

/-- When a move takes some message of the source, or else has nothing to lose. -/
inductive TakesOrKeeps (target : Json Text D) : Json Text D → Prop where
  | notObject {source : Json Text D} (hnot : source.isObject = false) : TakesOrKeeps target source
  | root {source : Json Text D} (hnone : source.find "error".toList = none)
      (htakes : Takes target source) : TakesOrKeeps target source
  | empty (herror : (target.find "error".toList).isSome) : TakesOrKeeps target (.object [])
  | notAnnotated {source error : Json Text D} (hsome : source.find "error".toList = some error)
      (hnone : error.find messageAnnotation = none) : TakesOrKeeps target source
  | array {source error message : Json Text D} (hsome : source.find "error".toList = some error)
      (hmessage : message ∈ errorMessages error) (htakes : Takes target message) :
      TakesOrKeeps target source

theorem addToError_refused {error : Json Text D} (hmessage : ¬ IsMessage message)
    (herror : error.isObject = false) : addToError message error = .ok error := by
  rw [addToError, herror]
  cases hid : message.find "MessageId".toList with
  | none => rfl
  | some messageId =>
    cases hfield : message.find "Message".toList with
    | none => rfl
    | some messageField =>
      exact absurd ⟨by rw [hid]; rfl, by rw [hfield]; rfl⟩ hmessage

theorem eq_null_of_addToError {error error' : Json Text D} (hmessage : IsMessage message)
    (herror : error.isObject = false) (hadd : addToError message error = .ok error') :
    error = .null := by
  obtain ⟨messageId, hid⟩ := Option.isSome_iff_exists.1 hmessage.messageId
  obtain ⟨messageField, hfield⟩ := Option.isSome_iff_exists.1 hmessage.message
  rw [addToError, herror, hid, hfield] at hadd
  obtain ⟨error₁, hset, -⟩ := bind_ok.1 hadd
  cases error with
  | null => rfl
  | object => cases herror
  | _ => cases hset

section Members
variable {key : Text} {f : Json Text D → Except JsonError (Json Text D)}
  {val : Json Text D} {members members' : List (Text × Json Text D)}

theorem modifyMember_same (hval : members.lookup key = some val) (hf : f val = .ok val) :
    Json.modifyMember key f members = .ok members := by
  induction members with
  | nil => cases hval
  | cons member members ih =>
    obtain ⟨name, old⟩ := member
    by_cases hkey : key = name
    · subst hkey
      rw [List.lookup_cons_self] at hval
      obtain rfl := Option.some.inj hval
      rw [Json.modifyMember, if_pos (beq_self_eq_true key)]
      exact bind_ok.2 ⟨old, hf, rfl⟩
    · have hne : (key == name) = false := by simpa using hkey
      simp only [List.lookup, hne] at hval
      rw [Json.modifyMember, if_neg (by simpa using hkey)]
      exact bind_ok.2 ⟨members, ih hval, rfl⟩

theorem modifyMember_missing (hnone : members.lookup key = none) (hf : f .null = .ok val) :
    Json.modifyMember key f members = .ok (members ++ [(key, val)]) := by
  induction members with
  | nil => exact bind_ok.2 ⟨val, hf, rfl⟩
  | cons member members ih =>
    obtain ⟨name, old⟩ := member
    by_cases hkey : key = name
    · subst hkey
      rw [List.lookup_cons_self] at hnone
      cases hnone
    · have hne : (key == name) = false := by simpa using hkey
      simp only [List.lookup, hne] at hnone
      rw [Json.modifyMember, if_neg (by simpa using hkey)]
      exact bind_ok.2 ⟨_, ih hnone, rfl⟩

theorem modifyMember_calls (hrun : Json.modifyMember key f members = .ok members') :
    ∃ val, f ((members.lookup key).getD .null) = .ok val := by
  induction members generalizing members' with
  | nil =>
    obtain ⟨val, hf, -⟩ := bind_ok.1 hrun
    exact ⟨val, hf⟩
  | cons member members ih =>
    obtain ⟨name, old⟩ := member
    rw [Json.modifyMember] at hrun
    by_cases hkey : key = name
    · subst hkey
      rw [if_pos (beq_self_eq_true key)] at hrun
      obtain ⟨val, hf, -⟩ := bind_ok.1 hrun
      rw [List.lookup_cons_self]
      exact ⟨val, hf⟩
    · rw [if_neg (by simpa using hkey)] at hrun
      obtain ⟨rest, hrest, -⟩ := bind_ok.1 hrun
      have hne : (key == name) = false := by simpa using hkey
      simp only [List.lookup, hne]
      exact ih hrest

theorem modify_calls (hrun : target.modify key f = .ok target') : ∃ members val,
    target' = .object members ∧ f ((target.find key).getD .null) = .ok val ∧
      members.lookup key = some val ∧
      ∀ name, name ≠ key → members.lookup name = target.find name := by
  have hcalls : Indexable target ∧ ∃ val, f ((target.find key).getD .null) = .ok val := by
    cases target with
    | null =>
      obtain ⟨members, hmembers, -⟩ := bind_ok.1 hrun
      exact ⟨.inl rfl, modifyMember_calls hmembers⟩
    | object old =>
      obtain ⟨members, hmembers, -⟩ := bind_ok.1 hrun
      exact ⟨.inr rfl, modifyMember_calls hmembers⟩
    | _ => cases hrun
  obtain ⟨htarget, val, hf⟩ := hcalls
  obtain ⟨members, hmodify, hself, hothers⟩ := modify_returns htarget f hf
  exact ⟨members, val, Except.ok.inj (hrun.symm.trans hmodify), hf, hself, hothers⟩

end Members

theorem addToError_taken {error' : Json Text D} (htakes : Takes target message)
    (hadd : addToError message (errorOf target) = .ok error') : error'.isObject ∧
      error'.find messageAnnotation = some (.array (extendedInfo target ++ [message])) := by
  cases hisObject : (errorOf target).isObject with
  | true =>
    obtain ⟨error₁, h₁, hobject₁, -, -, hinfo⟩ := addToError_object hisObject message
    rw [← Except.ok.inj (h₁.symm.trans hadd)]
    exact ⟨hobject₁, hinfo⟩
  | false =>
    have hmessage : IsMessage message := htakes.resolve_right (by simp [hisObject])
    have hnull := eq_null_of_addToError hmessage hisObject hadd
    rw [hnull] at hadd
    obtain ⟨error₁, h₁, hobject₁, -, -, hinfo⟩ := addToError_first hmessage
    rw [← Except.ok.inj (h₁.symm.trans hadd), extendedInfo, hnull]
    exact ⟨hobject₁, hinfo⟩

inductive Adds (target target' message : Json Text D) : Prop where
  | taken (htakes : Takes target message) (hobject : (errorOf target').isObject)
      (hmessages : extendedInfo target' = extendedInfo target ++ [message])
  | refused (hnot : ¬ Takes target message) (herror : errorOf target' = errorOf target)
      (hsome : (target'.find "error".toList).isSome)
      (hsame : target' = target ↔ (target.find "error".toList).isSome)

theorem adds (hobject : target.isObject)
    (hadd : addMessageToErrorJson target message = .ok target') :
    target'.isObject ∧ Adds target target' message := by
  cases target with
  | object members =>
    obtain ⟨members', hrun, hreturn⟩ := bind_ok.1 hadd
    obtain rfl : .object members' = target' := Except.ok.inj hreturn
    refine ⟨rfl, ?_⟩
    by_cases htakes : Takes (.object members) message
    · obtain ⟨members₁, error', hmembers, herror', hself, -⟩ := modify_calls hadd
      have hnew : errorOf (.object members') = error' := by
        rw [hmembers, errorOf, Json.find, hself, Option.getD_some]
      obtain ⟨hobject', hinfo⟩ := addToError_taken htakes herror'
      refine .taken htakes (by rw [hnew]; exact hobject') ?_
      rw [extendedInfo, hnew, errorMessages, hinfo]
    · have hmessage : ¬ IsMessage message := fun h => htakes (.inl h)
      have hisObject : (errorOf (.object members)).isObject = false := by
        simpa using fun h => htakes (.inr h)
      have hf := addToError_refused hmessage hisObject
      cases hlookup : members.lookup "error".toList with
      | some error =>
        have herror : errorOf (.object members) = error := by
          rw [errorOf, Json.find, hlookup, Option.getD_some]
        rw [herror] at hf
        obtain rfl := Except.ok.inj ((modifyMember_same hlookup hf).symm.trans hrun)
        have hsome : ((Json.object members).find "error".toList).isSome := by
          rw [Json.find, hlookup]
          rfl
        exact .refused htakes rfl hsome (iff_of_true rfl hsome)
      | none =>
        have herror : errorOf (.object members) = .null := by
          rw [errorOf, Json.find, hlookup, Option.getD_none]
        rw [herror] at hf
        obtain rfl := Except.ok.inj ((modifyMember_missing hlookup hf).symm.trans hrun)
        have hself : (members ++ [("error".toList, Json.null)]).lookup "error".toList =
            some .null := by
          rw [List.lookup_append, hlookup]
          rfl
        refine .refused htakes ?_ ?_ (iff_of_false ?_ ?_)
        · rw [herror, errorOf, Json.find, hself, Option.getD_some]
        · rw [Json.find, hself]
          rfl
        · simp
        · rw [Json.find, hlookup]
          simp
  | _ => cases hobject

theorem adds_foldlM {messages : List (Json Text D)} (hobject : target.isObject)
    (hrun : messages.foldlM addMessageToErrorJson target = .ok target') :
    extendedInfo target <+: extendedInfo target' ∧
      (extendedInfo target' = extendedInfo target ↔
        ∀ message ∈ messages, ¬ Takes target message) := by
  induction messages generalizing target with
  | nil =>
    obtain rfl := Except.ok.inj hrun
    simp
  | cons message messages ih =>
    obtain ⟨target₁, hadd, hrun⟩ := bind_ok.1 hrun
    obtain ⟨hobject₁, hadds⟩ := adds hobject hadd
    obtain ⟨hbegins, hiff⟩ := ih hobject₁ hrun
    cases hadds with
    | taken htakes hisObject hmessages =>
      have hlength := hbegins.length_le
      rw [hmessages] at hbegins
      rw [hmessages, List.length_append, List.length_singleton] at hlength
      refine ⟨(List.prefix_append _ _).trans hbegins, iff_of_false (fun heq => ?_) fun hnone => ?_⟩
      · rw [heq] at hlength
        omega
      · exact hnone message List.mem_cons_self htakes
    | refused hnot herror =>
      have hsame : ∀ message, Takes target₁ message ↔ Takes target message := by
        intro message
        rw [Takes, Takes, herror]
      have hinfo : extendedInfo target₁ = extendedInfo target := by
        rw [extendedInfo, herror, ← extendedInfo]
      rw [hinfo] at hbegins hiff
      refine ⟨hbegins, hiff.trans ?_⟩
      rw [List.forall_mem_cons]
      simp only [hsame]
      exact (and_iff_right hnot).symm

theorem eraseMember_ne {error : Json Text D} (hsome : source.find "error".toList = some error) :
    eraseMember "error".toList source ≠ source := by
  intro heq
  have hnone := find_eraseMember "error".toList source
  rw [heq, hsome] at hnone
  cases hnone

theorem add_harmless_iff (hobject : target.isObject)
    (hadd : addMessageToErrorJson target message = .ok target') :
    (extendedInfo target' = extendedInfo target → target' = target) ↔
      IsMessage message ∨ (target.find "error".toList).isSome := by
  cases (adds hobject hadd).2 with
  | taken htakes hisObject hmessages =>
    refine iff_of_true (fun heq => ?_) (htakes.imp_right fun hold => ?_)
    · rw [heq, List.self_eq_append_right] at hmessages
      cases hmessages
    · rw [errorOf] at hold
      cases hfind : target.find "error".toList with
      | none =>
        rw [hfind] at hold
        cases hold
      | some error => rfl
  | refused hnot herror hsome hsame =>
    have hinfo : extendedInfo target' = extendedInfo target := by
      rw [extendedInfo, herror, ← extendedInfo]
    rw [forall_prop_of_true hinfo, hsame]
    exact (or_iff_right fun hmessage => hnot (.inl hmessage)).symm

theorem takesOrKeeps_root (hobject : source.isObject) (hnone : source.find "error".toList = none)
    (hnot : ¬ Takes target source) :
    TakesOrKeeps target source ↔ (target.find "error".toList).isSome ∧ source = .object [] := by
  constructor
  · intro h
    cases h with
    | notObject hnotObject =>
      rw [hobject] at hnotObject
      cases hnotObject
    | root _ htakes => exact absurd htakes hnot
    | empty herror => exact ⟨herror, rfl⟩
    | notAnnotated hsome =>
      rw [hnone] at hsome
      cases hsome
    | array hsome =>
      rw [hnone] at hsome
      cases hsome
  · rintro ⟨herror, rfl⟩
    exact .empty herror

theorem takesOrKeeps_moved {error : Json Text D} (hobject : source.isObject)
    (hsome : source.find "error".toList = some error)
    (hinfo : (error.find messageAnnotation).isSome) :
    TakesOrKeeps target source ↔ ∃ message ∈ errorMessages error, Takes target message := by
  constructor
  · intro h
    cases h with
    | notObject hnotObject =>
      rw [hobject] at hnotObject
      cases hnotObject
    | root hnone =>
      rw [hsome] at hnone
      cases hnone
    | empty => cases hsome
    | notAnnotated hsome' hnone =>
      rw [Option.some.inj (hsome.symm.trans hsome'), hnone] at hinfo
      cases hinfo
    | array hsome' hmessage htakes =>
      rw [Option.some.inj (hsome.symm.trans hsome')]
      exact ⟨_, hmessage, htakes⟩
  · rintro ⟨message, hmessage, htakes⟩
    exact .array hsome hmessage htakes

theorem move_harmless_iff (hobject : target.isObject)
    (hmove : moveErrorsToErrorJson target source = .ok (target', source')) :
    (extendedInfo target' = extendedInfo target → target' = target ∧ source' = source) ↔
      TakesOrKeeps target source := by
  cases moves target source with
  | kept hkept _ hkeeps =>
    obtain ⟨rfl, rfl⟩ := Prod.mk.inj (Except.ok.inj (hkeeps.symm.trans hmove))
    refine iff_of_true (fun _ => ⟨rfl, rfl⟩) ?_
    rcases hkept with hnot | ⟨error, hsome, hnone⟩
    · exact .notObject hnot
    · exact .notAnnotated hsome hnone
  | root hsource hnone _ hroot =>
    rw [hroot] at hmove
    obtain ⟨target₁, hadd, hreturn⟩ := bind_ok.1 hmove
    obtain ⟨rfl, rfl⟩ := Prod.mk.inj (Except.ok.inj hreturn)
    cases (adds hobject hadd).2 with
    | taken htakes _ hmessages =>
      refine iff_of_true (fun heq => ?_) (.root hnone htakes)
      rw [heq, List.self_eq_append_right] at hmessages
      cases hmessages
    | refused hnot herror _ hsame =>
      have hinfo : extendedInfo target₁ = extendedInfo target := by
        rw [extendedInfo, herror, ← extendedInfo]
      rw [forall_prop_of_true hinfo, takesOrKeeps_root hsource hnone hnot, hsame,
        eq_comm (b := source)]
  | moved error hsource hsome hinfo _ hmoved =>
    rw [hmoved] at hmove
    obtain ⟨target₁, hrun, hreturn⟩ := bind_ok.1 hmove
    obtain ⟨rfl, rfl⟩ := Prod.mk.inj (Except.ok.inj hreturn)
    have hnone := (adds_foldlM hobject hrun).2
    rw [takesOrKeeps_moved hsource hsome hinfo]
    constructor
    · intro hkeeps
      by_contra hnot
      push Not at hnot
      exact eraseMember_ne hsome (hkeeps (hnone.2 hnot)).2
    · rintro ⟨message, hmessage, htakes⟩ heq
      exact absurd htakes (hnone.1 heq message hmessage)

/-- A refused message is harmless exactly if the target has an error already, and a
move that takes no message exactly if there is nothing to lose. -/
theorem refused_changes_nothing_iff (hobject : target.isObject) :
    (∀ message target', addMessageToErrorJson target message = .ok target' →
      ((extendedInfo target' = extendedInfo target → target' = target) ↔
        IsMessage message ∨ (target.find "error".toList).isSome)) ∧
    (∀ source target' source', moveErrorsToErrorJson target source = .ok (target', source') →
      ((extendedInfo target' = extendedInfo target → target' = target ∧ source' = source) ↔
        TakesOrKeeps target source)) :=
  ⟨fun _ _ hadd => add_harmless_iff hobject hadd, fun _ _ _ hmove =>
    move_harmless_iff hobject hmove⟩

def sampleSource : Json Text Unit := .object [("Members".toList, .array [])]

theorem refused_changes_nothing_iff_sample :
    moveErrorsToErrorJson (.object []) sampleSource =
        .ok (.object [("error".toList, .null)], .object []) ∧
      ¬ TakesOrKeeps (.object []) sampleSource := by
  have hmove : moveErrorsToErrorJson (.object []) sampleSource =
      .ok (.object [("error".toList, .null)], .object []) := rfl
  have hobject : (.object [] : Json Text Unit).isObject := rfl
  refine ⟨hmove, fun hkeeps => ?_⟩
  have h := ((refused_changes_nothing_iff hobject).2 _ _ _ hmove).2 hkeeps rfl
  cases h.1

/-- No message is added, but the target has a member more and the source has lost its own. -/
theorem refused_source_erased :
    moveErrorsToErrorJson (.object []) sampleSource =
        .ok (.object [("error".toList, .null)], .object []) ∧
      extendedInfo (.object [("error".toList, .null)] : Json Text Unit) = [] ∧
      extendedInfo (.object [] : Json Text Unit) = [] ∧
      (.object [("error".toList, .null)] : Json Text Unit) ≠ .object [] ∧
      (.object [] : Json Text Unit) ≠ sampleSource :=
  ⟨rfl, rfl, rfl, nofun, nofun⟩

end CrowCore.RefusedMessages
