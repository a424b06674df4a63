import CrowCore.JsonSchema
import CrowCore.ListSplits
import CrowCore.MessageBuilders
import CrowCore.ReportedMessages

set_option autoImplicit false

/-!
# Reports that are skipped

The helper goes on after a problem, so that all of them are reported. It only
stops at a member with deeper keys: the result of taking that member as it is
comes with the problems before.
-/
namespace CrowCore.SkippedReports
open JsonValue ErrorMessages ErrorAggregation JsonUtils JsonUnpacking ListSplits
  ReportedMessages
open JsonSchema (sampleDoubles)

section Definitions
variable {D : Type} (F : Doubles D)

mutual

/-- The body fits the keys, whatever the response and the outputs are. -/
def accepts (toUnpack : List PerUnpack) : Json Text D → Bool
  | .object members => acceptsMembers toUnpack members
  | _ => false

def acceptsMembers (toUnpack : List PerUnpack) : List (Text × Json Text D) → Bool
  | [] => toUnpack.all fun p => p.complete || p.type.isOptional
  | (name, val) :: members =>
    match findSpec name toUnpack with
    | none => false
    | some (unpackSpec, found) =>
      if unpackSpec.leftover ≠ [] then
        let key := unpackSpec.first ++ ['/']
        accepts (nextLevel key toUnpack) val && acceptsMembers (completeLevel key toUnpack) members
      else (unpacked F unpackSpec.type val).isSome && acceptsMembers found members

end

def named (name : Text) (toUnpack : List PerUnpack) : Option PerUnpack :=
  toUnpack.find? fun p => p.first = name

/-- The member is there for keys below it. -/
def Deeper (toUnpack : List PerUnpack) (name : Text) : Prop :=
  ∃ p, named name toUnpack = some p ∧ p.leftover ≠ []

def memberAccepts (toUnpack : List PerUnpack) (name : Text) (val : Json Text D) : Bool :=
  match named name toUnpack with
  | none => false
  | some p =>
    if p.leftover ≠ [] then accepts F (nextLevel (name ++ ['/']) toUnpack) val
    else (unpacked F p.type val).isSome

/-- What is to be reported of the members of an object. -/
inductive MemberProblem (toUnpack : List PerUnpack) (members : List (Text × Json Text D)) :
    Report → Prop where
  | unknown {name : Text} {val : Json Text D} (hmem : (name, val) ∈ members)
      (hnone : ∀ p ∈ toUnpack, p.first ≠ name) : MemberProblem toUnpack members (.unknown name)
  | unpack {p : PerUnpack} {val : Json Text D} (hp : p ∈ toUnpack) (hleaf : '/' ∉ p.key)
      (hmem : (p.key, val) ∈ members) (hbad : unpacked F p.type val = none) :
      MemberProblem toUnpack members (.unpack p.key)

structure Missing (toUnpack : List PerUnpack) (members : List (Text × Json Text D))
    (p : PerUnpack) : Prop where
  mem : p ∈ toUnpack
  required : p.type.isOptional = false
  absent : p.first ∉ members.map Prod.fst

/-- All that is to be reported at the top level. -/
inductive Problem (toUnpack : List PerUnpack) (members : List (Text × Json Text D)) :
    Report → Prop where
  | member {report : Report} (h : MemberProblem F toUnpack members report) :
      Problem toUnpack members report
  | missing {p : PerUnpack} (h : Missing toUnpack members p) :
      Problem toUnpack members (.missing p.key)

/-- Nothing is left to report wherever a member with deeper keys comes after one that
is not accepted. -/
def NothingSkipped (toUnpack : List PerUnpack) (members : List (Text × Json Text D)) : Prop :=
  ∀ before name val after, members = before ++ (name, val) :: after → Deeper toUnpack name →
    (∃ member ∈ before, memberAccepts F toUnpack member.1 member.2 = false) →
    (∀ report, ¬ MemberProblem F toUnpack after report) ∧ ∀ p, ¬ Missing toUnpack members p

end Definitions

/-- The locals of the helper and the reports it has made itself. -/
structure LoggedProgress (D : Type) extends Progress D where
  log : List Report := []

section Logged
variable {D : Type} (F : Doubles D) (R : Registry D)

def turn (p : LoggedProgress D) (name : Text) (val : Json Text D) :
    Except JsonError (LoggedProgress D) :=
  match findSpec name p.toUnpack with
  | none => do
    let res ← propertyUnknown R p.res name
    return { p with result := false, res, log := p.log ++ [.unknown name] }
  | some (unpackSpec, toUnpack) =>
    if unpackSpec.leftover ≠ [] then
      if p.result = false then return { p with returned := true }
      else do
        let key := unpackSpec.first ++ ['/']
        let (result, res, outputs) ←
          readJsonHelper F R p.res p.outputs (nextLevel key p.toUnpack) val
        return { p with
          result := result && p.result, res, outputs
          toUnpack := completeLevel key p.toUnpack }
    else do
      let (result, res, value) ← unpackValue F R unpackSpec.type val unpackSpec.key p.res
        (p.outputs unpackSpec.pointer)
      return { p with
        result := result && p.result, res, toUnpack
        outputs := Function.update p.outputs unpackSpec.pointer value
        log := if result then p.log else p.log ++ [.unpack unpackSpec.key] }

def readMembersLogged (p : LoggedProgress D) :
    List (Text × Json Text D) → Except JsonError (LoggedProgress D)
  | [] => return p
  | (name, val) :: members => do
    let p ← turn F R p name val
    if p.returned then return p else readMembersLogged p members

def checkMissingLogged : List PerUnpack → Bool → Response D → List Report →
    Except JsonError (Bool × Response D × List Report)
  | [], result, res, log => return (result, res, log)
  | perUnpack :: toUnpack, result, res, log =>
    if perUnpack.complete = false ∧ perUnpack.type.isOptional = false then do
      let res ← propertyMissing R res perUnpack.key
      checkMissingLogged toUnpack false res (log ++ [.missing perUnpack.key])
    else checkMissingLogged toUnpack result res log

def readJsonHelperLogged (res : Response D) (outputs : Outputs D) (toUnpack : List PerUnpack)
    (members : List (Text × Json Text D)) :
    Except JsonError ((Bool × Response D × Outputs D) × List Report) := do
  let p ← readMembersLogged F R { result := true, res, outputs, toUnpack } members
  if p.returned then return ((p.result, p.res, p.outputs), p.log)
  else do
    let (result, res, log) ← checkMissingLogged R p.toUnpack p.result p.res p.log
    return ((result, res, p.outputs), log)

variable {F R}

theorem map_bind_eq {α β γ ε : Type} {x : Except ε α} {f : α → Except ε β} {h : β → γ}
    {g : α → Except ε γ} (hfg : ∀ a, (f a).map h = g a) : (x >>= f).map h = x >>= g := by
  cases x with
  | error e => rfl
  | ok a => exact hfg a

/-- The log changes nothing else. -/
theorem readMembersLogged_erase (members : List (Text × Json Text D)) {p : LoggedProgress D}
    (hreturned : p.returned = false) :
    (readMembersLogged F R p members).map LoggedProgress.toProgress =
      readMembers F R p.toProgress members := by
  induction members generalizing p with
  | nil =>
    rw [readMembersLogged, readMembers]
    rfl
  | cons member members ih =>
    obtain ⟨name, val⟩ := member
    have hnext : ∀ p' : LoggedProgress D, p'.returned = false →
        (if p'.returned then .ok p' else readMembersLogged F R p' members).map
          LoggedProgress.toProgress = readMembers F R p'.toProgress members := by
      intro p' hp'
      rw [if_neg (by simp [hp'])]
      exact ih hp'
    rw [readMembersLogged, readMembers, turn]
    cases findSpec name p.toUnpack with
    | none =>
      rw [bind_assoc]
      exact map_bind_eq fun res => hnext _ hreturned
    | some found =>
      dsimp only
      split_ifs
      · rfl
      · rw [bind_assoc]
        exact map_bind_eq fun a => hnext _ hreturned
      · rw [bind_assoc]
        exact map_bind_eq fun a => hnext _ hreturned

theorem checkMissingLogged_erase (toUnpack : List PerUnpack) (result : Bool) (res : Response D)
    (log : List Report) :
    (checkMissingLogged R toUnpack result res log).map (fun a => (a.1, a.2.1)) =
      checkMissing R toUnpack result res := by
  induction toUnpack generalizing result res log with
  | nil => rfl
  | cons perUnpack toUnpack ih =>
    rw [checkMissingLogged, checkMissing]
    split_ifs
    · exact map_bind_eq fun res => ih false res _
    · exact ih result res log

theorem readJsonHelperLogged_erase (res : Response D) (outputs : Outputs D)
    (toUnpack : List PerUnpack) (members : List (Text × Json Text D)) :
    (readJsonHelperLogged F R res outputs toUnpack members).map Prod.fst =
      readJsonHelper F R res outputs toUnpack (.object members) := by
  rw [readJsonHelperLogged, readJsonHelper,
    ← readMembersLogged_erase members (p := { result := true, res, outputs, toUnpack }) rfl]
  cases readMembersLogged F R { result := true, res, outputs, toUnpack } members with
  | error e => rfl
  | ok p =>
    change Except.map Prod.fst (if p.returned then _ else _) = if p.returned then _ else _
    split_ifs
    · rfl
    · rw [← checkMissingLogged_erase p.toUnpack p.result p.res p.log]
      cases checkMissingLogged R p.toUnpack p.result p.res p.log <;> rfl

end Logged

section Verdicts
variable {D : Type} {F : Doubles D} {R : Registry D}

theorem decides_verdict {α : Type} {call : Except JsonError α} {view : α → Bool × Response D}
    {res : Response D} {good : Prop} {post : α → Prop} (h : Decides call view res good post) {a : α}
    (hcall : call = .ok a) : (view a).1 = true ↔ good := by
  constructor
  · intro hverdict
    by_contra hgood
    rw [(h.rejects hgood a hcall).1] at hverdict
    cases hverdict
  · intro hgood
    obtain ⟨a', hcall', hview, -⟩ := h.accepts hgood
    obtain rfl := Except.ok.inj (hcall'.symm.trans hcall)
    rw [hview]

def allRead (toUnpack : List PerUnpack) : Bool :=
  toUnpack.all fun p => p.complete || p.type.isOptional

theorem checkMissing_verdict {toUnpack : List PerUnpack} {result ok : Bool} {res res' : Response D}
    (hcall : checkMissing R toUnpack result res = .ok (ok, res')) :
    ok = true ↔ result = true ∧ allRead toUnpack = true := by
  induction toUnpack generalizing result res with
  | nil =>
    obtain ⟨rfl, -⟩ := Prod.mk.inj (Except.ok.inj hcall)
    exact (and_iff_left rfl).symm
  | cons perUnpack toUnpack ih =>
    rw [checkMissing] at hcall
    split_ifs at hcall with h
    · obtain ⟨res₁, -, hrest⟩ := bind_ok.1 hcall
      rw [ih hrest]
      simp [allRead, h.1, h.2]
    · rw [ih hcall]
      have hread : (perUnpack.complete || perUnpack.type.isOptional) = true := by
        cases hcomplete : perUnpack.complete <;> simp_all
      simp [allRead, hread]

def HelperVerdict (F : Doubles D) (R : Registry D) (json : Json Text D) : Prop :=
  ∀ res outputs toUnpack ok res' outputs',
    readJsonHelper F R res outputs toUnpack json = .ok (ok, res', outputs') →
      (ok = true ↔ accepts F toUnpack json = true)

structure LoopVerdict (F : Doubles D) (p : Progress D) (members : List (Text × Json Text D))
    (p' : Progress D) : Prop where
  fails : p.result = false → p'.result = false
  decides : p.result = true →
    (acceptsMembers F p.toUnpack members = true ↔ p'.result = true ∧ allRead p'.toUnpack = true)
  returned : p'.result = true → p'.returned = p.returned

theorem loopVerdict_step {p p₁ p' : Progress D} {member : Text × Json Text D}
    {members : List (Text × Json Text D)} {ok good : Bool} (hrest : LoopVerdict F p₁ members p')
    (hok : ok = true ↔ good = true) (hresult : p₁.result = (ok && p.result))
    (hreturned : p₁.returned = p.returned)
    (haccepts : acceptsMembers F p.toUnpack (member :: members) =
      (good && acceptsMembers F p₁.toUnpack members)) :
    LoopVerdict F p (member :: members) p' := by
  obtain rfl : ok = good := Bool.eq_iff_iff.2 hok
  refine ⟨fun hp => hrest.fails (by rw [hresult, hp, Bool.and_false]), fun hp => ?_,
    fun hp' => (hrest.returned hp').trans hreturned⟩
  rw [hp, Bool.and_true] at hresult
  rw [haccepts]
  cases ok with
  | true => exact hrest.decides hresult
  | false => simp [hrest.fails hresult]

theorem loopVerdict_cons {name : Text} {val : Json Text D} {members : List (Text × Json Text D)}
    (hval : HelperVerdict F R val)
    (hloop : ∀ p p' : Progress D, readMembers F R p members = .ok p' → LoopVerdict F p members p')
    {p p' : Progress D} (hrun : readMembers F R p ((name, val) :: members) = .ok p') :
    LoopVerdict F p ((name, val) :: members) p' := by
  rw [readMembers] at hrun
  split at hrun
  case h_1 hfind =>
    obtain ⟨res, -, hrest⟩ := bind_ok.1 hrun
    have hok : false = true ↔ false = true := Iff.rfl
    refine loopVerdict_step (hloop _ p' hrest) hok rfl rfl ?_
    rw [acceptsMembers, hfind]
    rfl
  case h_2 unpackSpec toUnpack hfind =>
    split_ifs at hrun with hleft hresult
    · -- the early return: the verdict was false before
      obtain rfl := Except.ok.inj hrun
      have hcontra : ∀ {P : Prop}, p.result = true → P := by
        intro P hp
        rw [hresult] at hp
        cases hp
      exact ⟨id, hcontra, hcontra⟩
    · obtain ⟨⟨result, res, outputs⟩, hnested, hrest⟩ := bind_ok.1 hrun
      refine loopVerdict_step (hloop _ p' hrest) (hval _ _ _ _ _ _ hnested) rfl rfl ?_
      rw [acceptsMembers, hfind]
      exact if_pos hleft
    · obtain ⟨⟨result, res, value⟩, hleaf, hrest⟩ := bind_ok.1 hrun
      have hverdict := decides_verdict (unpackValue_decides F R _ val _ p.res _) hleaf
      refine loopVerdict_step (hloop _ p' hrest) hverdict rfl rfl ?_
      rw [acceptsMembers, hfind]
      exact if_neg hleft

theorem helperVerdict_object {members : List (Text × Json Text D)}
    (hloop : ∀ p p' : Progress D, readMembers F R p members = .ok p' → LoopVerdict F p members p') :
    HelperVerdict F R (.object members) := by
  intro res outputs toUnpack ok res' outputs' hcall
  rw [readJsonHelper] at hcall
  obtain ⟨p, hrun, hcall⟩ := bind_ok.1 hcall
  have hverdict := hloop _ p hrun
  have hdecides := hverdict.decides rfl
  rw [accepts, hdecides]
  split_ifs at hcall with hreturned
  · obtain ⟨rfl, -⟩ : p.result = ok ∧ p.res = res' ∧ _ := by simpa using Except.ok.inj hcall
    have hfalse : p.result ≠ true := by
      intro hresult
      rw [hverdict.returned hresult] at hreturned
      cases hreturned
    exact iff_of_false hfalse fun h => hfalse h.1
  · obtain ⟨⟨result, res₁⟩, hmissing, hreturn⟩ := bind_ok.1 hcall
    obtain ⟨rfl, -⟩ : result = ok ∧ res₁ = res' ∧ _ := by simpa using Except.ok.inj hreturn
    exact checkMissing_verdict hmissing

theorem helperVerdict_not_object {json : Json Text D} (hobject : json.isObject = false) :
    HelperVerdict F R json := by
  intro res outputs toUnpack ok res' outputs' hcall
  cases json with
  | object members => cases hobject
  | _ =>
    simp only [readJsonHelper] at hcall
    obtain ⟨res₁, -, hreturn⟩ := bind_ok.1 hcall
    obtain ⟨rfl, -⟩ : false = ok ∧ res₁ = res' ∧ _ := by simpa using Except.ok.inj hreturn
    simp [accepts]

mutual

theorem readJsonHelper_verdict : ∀ json : Json Text D, HelperVerdict F R json
  | .object members => helperVerdict_object fun _ _ hrun => readMembers_verdict members hrun
  | .null | .boolean _ | .number_integer _ | .number_unsigned _ | .number_float _ | .string _
  | .array _ | .discarded | .binary => helperVerdict_not_object rfl

theorem readMembers_verdict : ∀ (members : List (Text × Json Text D)) {p p' : Progress D},
    readMembers F R p members = .ok p' → LoopVerdict F p members p'
  | [], p, p', hrun => by
    rw [readMembers] at hrun
    obtain rfl := Except.ok.inj hrun
    refine ⟨id, fun hp => ?_, fun _ => rfl⟩
    rw [acceptsMembers, hp]
    exact (and_iff_right rfl).symm
  | (_, val) :: members, _, _, hrun =>
    loopVerdict_cons (readJsonHelper_verdict val)
      (fun _ _ hrun => readMembers_verdict members hrun) hrun

end

theorem accepts_iff_fits {toUnpack : List PerUnpack} (hkeys : JsonSchema.KeysApart toUnpack)
    (hcomplete : ∀ p ∈ toUnpack, p.complete = false) {json : Json Text D} (hunique : Unique json) :
    accepts F toUnpack json = true ↔ JsonSchema.Fits F (toUnpack.map JsonSchema.spec) json ∧
      JsonSchema.Required (toUnpack.map JsonSchema.spec) json := by
  have hregistry : Registry D := { getLog := fun _ _ => .null, dump := fun _ _ => [] }
  have houtputs : Outputs D := fun _ => .optional none
  have h := JsonSchema.readJsonHelper_decides (F := F) (R := hregistry) json hunique _ hkeys.valid
    {} houtputs
  rw [JsonSchema.marked_nil hcomplete] at h
  obtain ⟨⟨ok, res', outputs'⟩, hcall, -⟩ := h.returns (.inl rfl)
  rw [← readJsonHelper_verdict json _ _ _ _ _ _ hcall]
  exact decides_verdict h hcall

end Verdicts

section Marks
variable {done : List Text} {toUnpack₀ toUnpack : List PerUnpack} {name : Text}

/-- The keys of the call, some of which are complete: only those whose first component
is the name of a member that was read. -/
def Marks (done : List Text) (toUnpack₀ toUnpack : List PerUnpack) : Prop :=
  List.Forall₂ (fun q p => ∃ complete, p = { q with complete := complete } ∧
    (complete = true → q.first ∈ done)) toUnpack₀ toUnpack

theorem marks_refl (hcomplete : ∀ p ∈ toUnpack, p.complete = false) :
    Marks done toUnpack toUnpack := by
  refine List.forall₂_same.2 fun p hp => ⟨p.complete, rfl, fun htrue => ?_⟩
  rw [hcomplete p hp] at htrue
  cases htrue

theorem Marks.mono (h : Marks done toUnpack₀ toUnpack) (name : Text) :
    Marks (name :: done) toUnpack₀ toUnpack := by
  refine h.imp ?_
  rintro q p ⟨complete, rfl, hdone⟩
  exact ⟨complete, rfl, fun htrue => List.mem_cons_of_mem name (hdone htrue)⟩

theorem named_cons (q : PerUnpack) : named name (q :: toUnpack) =
    if q.first = name then some q else named name toUnpack := by
  rw [named, List.find?_cons, named]
  by_cases hfirst : q.first = name <;> simp [hfirst]

theorem findSpec_marks (h : Marks done toUnpack₀ toUnpack) (hname : name ∉ done)
    (hcomplete : ∀ p ∈ toUnpack₀, p.complete = false) :
    (named name toUnpack₀ = none ∧ findSpec name toUnpack = none) ∨
      ∃ p found, named name toUnpack₀ = some p ∧ findSpec name toUnpack = some (p, found) ∧
        Marks (name :: done) toUnpack₀ found := by
  induction h with
  | nil => exact .inl ⟨rfl, rfl⟩
  | @cons q p toUnpack₀ toUnpack hqp h ih =>
    obtain ⟨complete, rfl, hdone⟩ := hqp
    have ih := ih fun p hp => hcomplete p (List.mem_cons_of_mem q hp)
    rw [named_cons, findSpec]
    by_cases hfirst : q.first = name
    · have hfalse : complete = false := by
        cases complete with
        | false => rfl
        | true => exact (hname (hfirst ▸ hdone rfl)).elim
      subst hfalse
      have hq : { q with complete := false } = q := by
        rw [← hcomplete q List.mem_cons_self]
      refine .inr ⟨q, { q with complete := true } :: toUnpack, ?_, ?_, ?_⟩
      · rw [if_pos hfirst]
      · rw [hq, if_pos ⟨hfirst, hcomplete q List.mem_cons_self⟩]
      · refine .cons ⟨true, rfl, fun _ => ?_⟩ (Marks.mono h name)
        rw [hfirst]
        exact List.mem_cons_self
    · have hne : ¬ ({ q with complete := complete }.first = name ∧ complete = false) :=
        fun hand => hfirst hand.1
      rw [if_neg hne, if_neg hfirst]
      rcases ih with ⟨hnone, hfind⟩ | ⟨p, found, hsome, hfind, hmarks⟩
      · exact .inl ⟨hnone, by rw [hfind]; rfl⟩
      · refine .inr ⟨p, { q with complete := complete } :: found, hsome, by rw [hfind]; rfl, ?_⟩
        exact .cons ⟨complete, rfl, fun htrue => List.mem_cons_of_mem name (hdone htrue)⟩ hmarks

theorem nextLevel_marks (h : Marks done toUnpack₀ toUnpack) (key : Text) :
    nextLevel key toUnpack = nextLevel key toUnpack₀ := by
  induction h with
  | nil => rfl
  | @cons q p toUnpack₀ toUnpack hqp h ih =>
    obtain ⟨complete, rfl, -⟩ := hqp
    simp only [nextLevel, List.filter_cons] at ih ⊢
    split_ifs
    · rw [List.map_cons, List.map_cons, ih]
    · exact ih

theorem first_of_isPrefixOf {q : PerUnpack} (hslash : '/' ∉ name)
    (h : (name ++ ['/']).isPrefixOf q.key = true) : q.first = name := by
  obtain ⟨rest, hrest⟩ := List.isPrefixOf_iff_prefix.1 h
  have htake : ∀ c ∈ name, decide (c ≠ '/') = true := by
    intro c hc
    exact decide_eq_true fun heq => hslash (heq ▸ hc)
  rw [PerUnpack.first, ← hrest, List.append_assoc, List.takeWhile_append_of_pos htake]
  simp

theorem completeLevel_marks (h : Marks done toUnpack₀ toUnpack) (hslash : '/' ∉ name) :
    Marks (name :: done) toUnpack₀ (completeLevel (name ++ ['/']) toUnpack) := by
  induction h with
  | nil => exact .nil
  | @cons q p toUnpack₀ toUnpack hqp h ih =>
    obtain ⟨complete, rfl, hdone⟩ := hqp
    rw [completeLevel, List.map_cons]
    refine .cons ?_ ih
    split_ifs with hbegins
    · refine ⟨true, rfl, fun _ => ?_⟩
      have hfirst : q.first = name := first_of_isPrefixOf hslash hbegins
      rw [hfirst]
      exact List.mem_cons_self
    · exact ⟨complete, rfl, fun htrue => List.mem_cons_of_mem name (hdone htrue)⟩

theorem named_first {p : PerUnpack} (h : named name toUnpack = some p) :
    p ∈ toUnpack ∧ p.first = name :=
  ⟨List.mem_of_find?_eq_some h, by simpa using List.find?_some h⟩

theorem named_none : named name toUnpack = none ↔ ∀ p ∈ toUnpack, p.first ≠ name := by
  simp [named]

theorem slash_notMem_first (p : PerUnpack) : '/' ∉ p.first := by
  intro h
  simpa using List.mem_takeWhile_imp h

end Marks

section Turns
variable {D : Type} {F : Doubles D} {R : Registry D} {done : List Text}
  {toUnpack₀ : List PerUnpack} {name : Text} {val : Json Text D} {p p₁ p' : LoggedProgress D}
  {members : List (Text × Json Text D)}

inductive TurnReport (F : Doubles D) (toUnpack : List PerUnpack) (name : Text)
    (val : Json Text D) : Report → Prop where
  | unknown (hnone : named name toUnpack = none) : TurnReport F toUnpack name val (.unknown name)
  | unpack {p : PerUnpack} (hp : named name toUnpack = some p) (hleaf : p.leftover = [])
      (hbad : unpacked F p.type val = none) : TurnReport F toUnpack name val (.unpack p.key)

structure Turned (F : Doubles D) (R : Registry D) (toUnpack₀ : List PerUnpack) (done : List Text)
    (name : Text) (val : Json Text D) (p p₁ : LoggedProgress D) : Prop where
  returned : p₁.returned = false
  marks : Marks (name :: done) toUnpack₀ p₁.toUnpack
  result : p₁.result = true ↔ p.result = true ∧ memberAccepts F toUnpack₀ name val = true
  deeper : Deeper toUnpack₀ name → p.result = true
  log : ∀ report, report ∈ p₁.log ↔ report ∈ p.log ∨ TurnReport F toUnpack₀ name val report
  grows : Grows p.res.jsonValue p₁.res.jsonValue
  shown : ∀ report, TurnReport F toUnpack₀ name val report → Shown R p₁.res.jsonValue report

theorem turned_unknown (hR : ∀ index args, IsMessage (R.getLog index args))
    (hnamed : named name toUnpack₀ = none) (hmarks : Marks done toUnpack₀ p.toUnpack)
    (hreturned : p.returned = false) {res : Response D}
    (hreport : propertyUnknown R p.res name = .ok res) :
    Turned F R toUnpack₀ done name val p
      { p with result := false, res, log := p.log ++ [.unknown name] } := by
  have honly : ∀ report, TurnReport F toUnpack₀ name val report ↔ report = .unknown name := by
    intro report
    constructor
    · rintro (hnone | ⟨hp, -, -⟩)
      · rfl
      · rw [hnamed] at hp
        cases hp
    · rintro rfl
      exact .unknown hnamed
  obtain ⟨hgrows, hshown⟩ := propertyUnknown_shown hR hreport
  refine ⟨hreturned, hmarks.mono name, ?_, ?_, ?_, hgrows, ?_⟩
  · simp [memberAccepts, hnamed]
  · rintro ⟨q, hq, -⟩
    rw [hnamed] at hq
    cases hq
  · intro report
    rw [honly, List.mem_append, List.mem_singleton]
  · intro report h
    rw [(honly report).1 h]
    exact hshown

theorem turned_nested (hR : ∀ index args, IsMessage (R.getLog index args)) {q : PerUnpack}
    (hnamed : named name toUnpack₀ = some q) (hleft : q.leftover ≠ [])
    (hmarks : Marks done toUnpack₀ p.toUnpack) (hreturned : p.returned = false)
    (hresult : p.result = true) {result : Bool} {res : Response D} {outputs : Outputs D}
    (hcall : readJsonHelper F R p.res p.outputs (nextLevel (name ++ ['/']) p.toUnpack) val =
      .ok (result, res, outputs)) :
    Turned F R toUnpack₀ done name val p
      { p with
        result := result && p.result, res, outputs
        toUnpack := completeLevel (name ++ ['/']) p.toUnpack } := by
  have hnone : ∀ report, ¬ TurnReport F toUnpack₀ name val report := by
    rintro report (h | ⟨hp, hleaf, -⟩)
    · rw [hnamed] at h
      cases h
    · obtain rfl := Option.some.inj (hnamed.symm.trans hp)
      exact hleft hleaf
  have hslash : '/' ∉ name := (named_first hnamed).2 ▸ slash_notMem_first q
  have hverdict := readJsonHelper_verdict val _ _ _ _ _ _ hcall
  rw [nextLevel_marks hmarks] at hverdict
  refine ⟨hreturned, completeLevel_marks hmarks hslash, ?_, fun _ => hresult, ?_,
    readJsonHelper_grows hR val _ _ _ _ _ _ hcall, fun report h => (hnone report h).elim⟩
  · simp [memberAccepts, hnamed, hleft, hresult, hverdict]
  · intro report
    exact (or_iff_left (hnone report)).symm

theorem turned_leaf {q : PerUnpack} (hnamed : named name toUnpack₀ = some q)
    (hleaf : q.leftover = []) {found : List PerUnpack}
    (hmarks : Marks (name :: done) toUnpack₀ found) (hreturned : p.returned = false)
    {result : Bool} {res : Response D} {value : Output D}
    (hcall : unpackValue F R q.type val q.key p.res (p.outputs q.pointer) =
      .ok (result, res, value)) :
    Turned F R toUnpack₀ done name val p
      { p with
        result := result && p.result, res, toUnpack := found
        outputs := Function.update p.outputs q.pointer value
        log := if result then p.log else p.log ++ [.unpack q.key] } := by
  have hverdict : result = true ↔ (unpacked F q.type val).isSome :=
    decides_verdict (unpackValue_decides F R _ val _ p.res _) hcall
  have honly : ∀ report, TurnReport F toUnpack₀ name val report ↔
      result = false ∧ report = .unpack q.key := by
    intro report
    rw [← Bool.not_eq_true, hverdict, Bool.not_eq_true, Option.isSome_eq_false_iff,
      Option.isNone_iff_eq_none]
    constructor
    · rintro (h | ⟨hp, -, hbad⟩)
      · rw [hnamed] at h
        cases h
      · obtain rfl := Option.some.inj (hnamed.symm.trans hp)
        exact ⟨hbad, rfl⟩
    · rintro ⟨hbad, rfl⟩
      exact .unpack hnamed hleaf hbad
  obtain ⟨hgrows, hshown⟩ := unpackValue_shown hcall
  refine ⟨hreturned, hmarks, ?_, ?_, ?_, hgrows, ?_⟩
  · simp [memberAccepts, hnamed, hleaf, hverdict, and_comm]
  · rintro ⟨q', hq', hleft⟩
    obtain rfl := Option.some.inj (hnamed.symm.trans hq')
    exact (hleft hleaf).elim
  · intro report
    rw [honly]
    cases result <;> simp
  · intro report h
    obtain ⟨hresult, rfl⟩ := (honly report).1 h
    exact hshown hresult

/-- A turn returns at a member with deeper keys that comes after a problem, or it reads
the member. -/
theorem turn_cases (hR : ∀ index args, IsMessage (R.getLog index args))
    (hcomplete : ∀ q ∈ toUnpack₀, q.complete = false) (hmarks : Marks done toUnpack₀ p.toUnpack)
    (hname : name ∉ done) (hreturned : p.returned = false) (hturn : turn F R p name val = .ok p₁) :
    (p₁ = { p with returned := true } ∧ Deeper toUnpack₀ name ∧ p.result = false) ∨
      Turned F R toUnpack₀ done name val p p₁ := by
  rw [turn] at hturn
  rcases findSpec_marks hmarks hname hcomplete with ⟨hnamed, hfind⟩ | ⟨q, found, hnamed, hfind,
    hfound⟩
  · rw [hfind] at hturn
    obtain ⟨res, hreport, hreturn⟩ := bind_ok.1 hturn
    obtain rfl := Except.ok.inj hreturn
    exact .inr (turned_unknown hR hnamed hmarks hreturned hreport)
  · rw [hfind] at hturn
    dsimp only at hturn
    rw [(named_first hnamed).2] at hturn
    split_ifs at hturn with hleft hresult
    · obtain rfl := Except.ok.inj hturn
      exact .inl ⟨rfl, ⟨q, hnamed, hleft⟩, hresult⟩
    · obtain ⟨⟨result, res, outputs⟩, hcall, hreturn⟩ := bind_ok.1 hturn
      obtain rfl := Except.ok.inj hreturn
      exact .inr (turned_nested hR hnamed hleft hmarks hreturned (by simpa using hresult) hcall)
    · obtain ⟨⟨result, res, value⟩, hcall, hreturn⟩ := bind_ok.1 hturn
      obtain rfl := Except.ok.inj hreturn
      exact .inr (turned_leaf hnamed (not_not.1 hleft) hfound hreturned hcall)

/-- The loop as far as it came: over the members `handled`, which it read, and up to
`rest`, which it did not. -/
structure Came (F : Doubles D) (R : Registry D) (toUnpack₀ : List PerUnpack) (done : List Text)
    (p : LoggedProgress D) (handled rest : List (Text × Json Text D)) (p' : LoggedProgress D) :
    Prop where
  log : ∀ report, report ∈ p'.log ↔ report ∈ p.log ∨
    ∃ member ∈ handled, TurnReport F toUnpack₀ member.1 member.2 report
  deeper : ∀ before name val after, handled = before ++ (name, val) :: after →
    Deeper toUnpack₀ name → p.result = true ∧
      ∀ member ∈ before, memberAccepts F toUnpack₀ member.1 member.2 = true
  goesOn : p'.returned = false → rest = [] ∧ ∃ done', Marks done' toUnpack₀ p'.toUnpack ∧
    ∀ name ∈ done', name ∈ handled.map Prod.fst ∨ name ∈ done
  returns : p'.returned = true → ∃ name val after, rest = (name, val) :: after ∧
    Deeper toUnpack₀ name ∧ (p.result = false ∨
      ∃ member ∈ handled, memberAccepts F toUnpack₀ member.1 member.2 = false)
  grows : Grows p.res.jsonValue p'.res.jsonValue
  shown : ∀ report ∈ p'.log, report ∈ p.log ∨ Shown R p'.res.jsonValue report

theorem came_nil (hmarks : Marks done toUnpack₀ p.toUnpack) (hreturned : p.returned = false) :
    Came F R toUnpack₀ done p [] [] p where
  log report := by simp
  deeper before name val after h := by simp at h
  goesOn _ := ⟨rfl, done, hmarks, fun _ => .inr⟩
  returns h := by
    rw [hreturned] at h
    cases h
  grows := Grows.refl _
  shown report h := .inl h

theorem came_return (hdeeper : Deeper toUnpack₀ name) (hresult : p.result = false) :
    Came F R toUnpack₀ done p [] ((name, val) :: members) { p with returned := true } where
  log report := by simp
  deeper before name val after h := by simp at h
  goesOn h := by cases h
  returns _ := ⟨name, val, members, rfl, hdeeper, .inl hresult⟩
  grows := Grows.refl _
  shown report h := .inl h

theorem came_turn {handled rest : List (Text × Json Text D)}
    (hturned : Turned F R toUnpack₀ done name val p p₁)
    (hcame : Came F R toUnpack₀ (name :: done) p₁ handled rest p') :
    Came F R toUnpack₀ done p ((name, val) :: handled) rest p' where
  log report := by
    rw [hcame.log, hturned.log, or_assoc]
    simp
  deeper before name' val' after h hdeeper := by
    cases before with
    | nil =>
      obtain ⟨hmember, -⟩ := List.cons.inj h
      obtain ⟨rfl, -⟩ := Prod.mk.inj hmember
      exact ⟨hturned.deeper hdeeper, fun _ hmem => by cases hmem⟩
    | cons member before =>
      obtain ⟨rfl, hrest⟩ := List.cons.inj h
      obtain ⟨hresult, hbefore⟩ := hcame.deeper before name' val' after hrest hdeeper
      obtain ⟨hp, haccepts⟩ := hturned.result.1 hresult
      exact ⟨hp, List.forall_mem_cons.2 ⟨haccepts, hbefore⟩⟩
  goesOn h := by
    obtain ⟨hrest, done', hmarks, hdone'⟩ := hcame.goesOn h
    refine ⟨hrest, done', hmarks, fun name' hname' => ?_⟩
    rw [List.map_cons, List.mem_cons]
    rcases hdone' name' hname' with hhandled | hdone
    · exact .inl (.inr hhandled)
    · exact (List.mem_cons.1 hdone).imp_left .inl
  returns h := by
    obtain ⟨name', val', after, hrest, hdeeper, hproblem⟩ := hcame.returns h
    refine ⟨name', val', after, hrest, hdeeper, ?_⟩
    rcases hproblem with hresult | ⟨member, hmem, hrejects⟩
    · by_cases hp : p.result = true
      · refine .inr ⟨(name, val), List.mem_cons_self, ?_⟩
        by_contra haccepts
        rw [hturned.result.2 ⟨hp, by simpa using haccepts⟩] at hresult
        cases hresult
      · exact .inl (by simpa using hp)
    · exact .inr ⟨member, List.mem_cons_of_mem _ hmem, hrejects⟩
  grows := hturned.grows.trans hcame.grows
  shown report h := by
    rcases hcame.shown report h with hlog | hshown
    · exact ((hturned.log report).1 hlog).imp_right fun hturn =>
        (hturned.shown report hturn).mono hcame.grows
    · exact .inr hshown

theorem readMembersLogged_came (hR : ∀ index args, IsMessage (R.getLog index args))
    (hcomplete : ∀ q ∈ toUnpack₀, q.complete = false) (hmarks : Marks done toUnpack₀ p.toUnpack)
    (hnodup : (members.map Prod.fst).Nodup) (hdone : ∀ name ∈ members.map Prod.fst, name ∉ done)
    (hreturned : p.returned = false) (hrun : readMembersLogged F R p members = .ok p') :
    ∃ handled rest, members = handled ++ rest ∧ Came F R toUnpack₀ done p handled rest p' := by
  induction members generalizing p done with
  | nil =>
    rw [readMembersLogged] at hrun
    obtain rfl := Except.ok.inj hrun
    exact ⟨[], [], rfl, came_nil hmarks hreturned⟩
  | cons member members ih =>
    obtain ⟨name, val⟩ := member
    rw [List.map_cons, List.nodup_cons] at hnodup
    rw [List.map_cons, List.forall_mem_cons] at hdone
    rw [readMembersLogged] at hrun
    obtain ⟨p₁, hturn, hrun⟩ := bind_ok.1 hrun
    rcases turn_cases hR hcomplete hmarks hdone.1 hreturned hturn with
      ⟨rfl, hdeeper, hresult⟩ | hturned
    · rw [if_pos rfl] at hrun
      obtain rfl := Except.ok.inj hrun
      exact ⟨[], (name, val) :: members, rfl, came_return hdeeper hresult⟩
    · rw [if_neg (by simp [hturned.returned])] at hrun
      have hdone' : ∀ name' ∈ members.map Prod.fst, name' ∉ name :: done := by
        intro name' hname'
        rw [List.mem_cons, not_or]
        exact ⟨fun heq => hnodup.1 (heq ▸ hname'), hdone.2 name' hname'⟩
      obtain ⟨handled, rest, rfl, hcame⟩ :=
        ih hturned.marks hnodup.2 hdone' hturned.returned hrun
      exact ⟨(name, val) :: handled, rest, rfl, came_turn hturned hcame⟩

theorem checkMissingLogged_spec {toUnpack : List PerUnpack} {result ok : Bool}
    {res res' : Response D} {log log' : List Report}
    (hcall : checkMissingLogged R toUnpack result res log = .ok (ok, res', log')) :
    Grows res.jsonValue res'.jsonValue ∧ (∀ report ∈ log, report ∈ log') ∧
      (∀ q ∈ toUnpack, q.complete = false → q.type.isOptional = false → .missing q.key ∈ log') ∧
      ∀ report ∈ log', report ∈ log ∨ Shown R res'.jsonValue report := by
  induction toUnpack generalizing result res log with
  | nil =>
    obtain ⟨-, rfl, rfl⟩ : result = ok ∧ res = res' ∧ log = log' := by
      simpa using Except.ok.inj hcall
    exact ⟨Grows.refl _, fun _ => id, by simp, fun report hmem => .inl hmem⟩
  | cons perUnpack toUnpack ih =>
    rw [checkMissingLogged] at hcall
    split_ifs at hcall with h
    · obtain ⟨res₁, hreport, hrest⟩ := bind_ok.1 hcall
      obtain ⟨hgrows₁, hshown₁⟩ := propertyMissing_shown hreport
      obtain ⟨hgrows, hlog, hmissing, hshown⟩ := ih hrest
      refine ⟨hgrows₁.trans hgrows, fun report hmem => hlog report (List.mem_append_left _ hmem),
        ?_, fun report hmem => ?_⟩
      · rintro q hq hcomplete hrequired
        rcases List.mem_cons.1 hq with rfl | hq
        · exact hlog _ (List.mem_append_right _ List.mem_cons_self)
        · exact hmissing q hq hcomplete hrequired
      · rcases hshown report hmem with hmem | hshown
        · rcases List.mem_append.1 hmem with hmem | hmem
          · exact .inl hmem
          · rw [List.mem_singleton.1 hmem]
            exact .inr (hshown₁.mono hgrows)
        · exact .inr hshown
    · obtain ⟨hgrows, hlog, hmissing, hshown⟩ := ih hcall
      refine ⟨hgrows, hlog, ?_, hshown⟩
      rintro q hq hcomplete hrequired
      rcases List.mem_cons.1 hq with rfl | hq
      · exact (h ⟨hcomplete, hrequired⟩).elim
      · exact hmissing q hq hcomplete hrequired

structure Finishes (R : Registry D) (p : LoggedProgress D) (res' : Response D)
    (log : List Report) : Prop where
  keeps : ∀ report ∈ p.log, report ∈ log
  returns : p.returned = true → log = p.log
  missing : p.returned = false → ∀ q ∈ p.toUnpack, q.complete = false →
    q.type.isOptional = false → .missing q.key ∈ log
  grows : Grows p.res.jsonValue res'.jsonValue
  shown : ∀ report ∈ log, report ∈ p.log ∨ Shown R res'.jsonValue report

theorem readJsonHelperLogged_finishes {res res' : Response D} {outputs outputs' : Outputs D}
    {ok : Bool} {log : List Report}
    (hcall : readJsonHelperLogged F R res outputs toUnpack₀ members =
      .ok ((ok, res', outputs'), log)) :
    ∃ p', readMembersLogged F R { result := true, res, outputs, toUnpack := toUnpack₀ } members =
      .ok p' ∧ Finishes R p' res' log := by
  rw [readJsonHelperLogged] at hcall
  obtain ⟨p', hrun, hreturn⟩ := bind_ok.1 hcall
  refine ⟨p', hrun, ?_⟩
  split_ifs at hreturn with hreturned
  · obtain ⟨-, rfl, -, rfl⟩ :
        p'.result = ok ∧ p'.res = res' ∧ p'.outputs = outputs' ∧ p'.log = log := by
      simpa [and_assoc] using Except.ok.inj hreturn
    refine ⟨fun _ => id, fun _ => rfl, fun h => ?_, Grows.refl _, fun _ => .inl⟩
    rw [hreturned] at h
    cases h
  · obtain ⟨⟨result, res₁, log₁⟩, hmissing, hreturn⟩ := bind_ok.1 hreturn
    obtain ⟨-, rfl, -, rfl⟩ :
        result = ok ∧ res₁ = res' ∧ p'.outputs = outputs' ∧ log₁ = log := by
      simpa [and_assoc] using Except.ok.inj hreturn
    obtain ⟨hgrows, hkeeps, hmissing, hshown⟩ := checkMissingLogged_spec hmissing
    exact ⟨hkeeps, fun h => (hreturned h).elim, fun _ => hmissing, hgrows, hshown⟩

end Turns

section Problems
variable {D : Type} {F : Doubles D} {toUnpack : List PerUnpack} {name : Text} {val : Json Text D}
  {members : List (Text × Json Text D)} {report : Report}

def PathsApart (toUnpack : List PerUnpack) : Prop :=
  toUnpack.Pairwise fun p q =>
    ¬ p.key.splitOn '/' <+: q.key.splitOn '/' ∧ ¬ q.key.splitOn '/' <+: p.key.splitOn '/'

theorem splitOn_first (key : Text) :
    ∃ rest, key.splitOn '/' = key.takeWhile (· ≠ '/') :: rest := by
  induction key with
  | nil => exact ⟨[], rfl⟩
  | cons c key ih =>
    obtain ⟨rest, hrest⟩ := ih
    rw [List.splitOn_cons_eq_if_modifyHead, hrest, List.takeWhile_cons]
    by_cases hc : c = '/' <;> simp [hc]

theorem first_of_leaf {p : PerUnpack} (hleaf : '/' ∉ p.key) : p.first = p.key := by
  refine List.takeWhile_eq_self_iff.2 fun c hc => ?_
  exact decide_eq_true fun heq => hleaf (heq ▸ hc)

theorem leftover_of_leaf {p : PerUnpack} (hleaf : '/' ∉ p.key) : p.leftover = [] := by
  have hnil : p.key.dropWhile (· ≠ '/') = [] := by
    refine List.dropWhile_eq_nil_iff.2 fun c hc => ?_
    exact decide_eq_true fun heq => hleaf (heq ▸ hc)
  rw [PerUnpack.leftover, hnil, List.drop_nil]

theorem named_leaf (hapart : PathsApart toUnpack) {p : PerUnpack} (hp : p ∈ toUnpack)
    (hleaf : '/' ∉ p.key) : named p.key toUnpack = some p := by
  cases hnamed : named p.key toUnpack with
  | none => exact (named_none.1 hnamed p hp (first_of_leaf hleaf)).elim
  | some q =>
    obtain ⟨hq, hfirst⟩ := named_first hnamed
    by_contra hne
    have hne : p ≠ q := fun heq => hne (heq ▸ rfl)
    have hsymm : Std.Symm fun p q : PerUnpack =>
        ¬ p.key.splitOn '/' <+: q.key.splitOn '/' ∧ ¬ q.key.splitOn '/' <+: p.key.splitOn '/' :=
      ⟨fun _ _ h => h.symm⟩
    refine (hapart.forall hp hq hne).1 ?_
    obtain ⟨rest, hrest⟩ := splitOn_first q.key
    rw [List.splitOn_eq_singleton hleaf, hrest, ← PerUnpack.first, hfirst]
    exact ⟨rest, rfl⟩

theorem MemberProblem.mono {members' : List (Text × Json Text D)} (hsubset : members ⊆ members')
    (h : MemberProblem F toUnpack members report) : MemberProblem F toUnpack members' report := by
  cases h with
  | unknown hmem hnone => exact .unknown (hsubset hmem) hnone
  | unpack hp hleaf hmem hbad => exact .unpack hp hleaf (hsubset hmem) hbad

theorem turnReport_of_memberProblem (hapart : PathsApart toUnpack)
    (h : MemberProblem F toUnpack members report) :
    ∃ member ∈ members, TurnReport F toUnpack member.1 member.2 report := by
  cases h with
  | unknown hmem hnone => exact ⟨_, hmem, .unknown (named_none.2 hnone)⟩
  | unpack hp hleaf hmem hbad =>
    exact ⟨_, hmem, .unpack (named_leaf hapart hp hleaf) (leftover_of_leaf hleaf) hbad⟩

theorem named_of_turnReport {key : Text} (h : TurnReport F toUnpack name val (.unpack key)) :
    ∃ q, named name toUnpack = some q ∧ q.key = key := by
  cases h with
  | unpack hq => exact ⟨_, hq, rfl⟩

theorem name_of_turnReport (hturn : TurnReport F toUnpack name val report)
    (h : MemberProblem F toUnpack members report) : name ∈ members.map Prod.fst := by
  cases h with
  | unknown hmem hnone =>
    cases hturn
    exact List.mem_map.2 ⟨_, hmem, rfl⟩
  | @unpack p val' hp hleaf hmem hbad =>
    obtain ⟨q, hq, hkey⟩ := named_of_turnReport hturn
    have hfirst : q.first = p.first := by rw [PerUnpack.first, hkey, PerUnpack.first]
    rw [first_of_leaf hleaf, (named_first hq).2] at hfirst
    exact List.mem_map.2 ⟨_, hmem, hfirst.symm⟩

theorem memberProblem_deeper (hapart : PathsApart toUnpack) (hdeeper : Deeper toUnpack name)
    (h : MemberProblem F toUnpack ((name, val) :: members) report) :
    MemberProblem F toUnpack members report := by
  obtain ⟨q, hnamed, hleft⟩ := hdeeper
  cases h with
  | unknown hmem hnone =>
    refine .unknown ((List.mem_cons.1 hmem).resolve_left fun heq => ?_) hnone
    obtain ⟨rfl, -⟩ := Prod.mk.inj heq
    exact hnone q (named_first hnamed).1 (named_first hnamed).2
  | unpack hp hleaf hmem hbad =>
    refine .unpack hp hleaf ((List.mem_cons.1 hmem).resolve_left fun heq => ?_) hbad
    obtain ⟨rfl, -⟩ := Prod.mk.inj heq
    rw [named_leaf hapart hp hleaf] at hnamed
    obtain rfl := Option.some.inj hnamed
    exact hleft (leftover_of_leaf hleaf)

variable {R : Registry D} {p p' : LoggedProgress D} {handled rest : List (Text × Json Text D)}
  {log : List Report}

theorem nothingSkipped_of_reported
    (hnodup : ((handled ++ rest).map Prod.fst).Nodup)
    (hcame : Came F R toUnpack [] p handled rest p') (hempty : p.log = [])
    (hreturns : p'.returned = true → log = p'.log)
    (hall : ∀ report, Problem F toUnpack (handled ++ rest) report → report ∈ log) :
    NothingSkipped F toUnpack (handled ++ rest) := by
  intro before name val after hsplit hdeeper hproblem
  have hnot : ∀ between, handled ≠ before ++ (name, val) :: between := by
    intro between hhandled
    obtain ⟨member, hmem, hrejects⟩ := hproblem
    rw [(hcame.deeper before name val between hhandled hdeeper).2 member hmem] at hrejects
    cases hrejects
  obtain ⟨between, -, hrest⟩ := (split_append hsplit).resolve_left
    fun ⟨between, _, hhandled⟩ => hnot between hhandled
  have hreturned : p'.returned = true := by
    by_contra hgoesOn
    have hnil := (hcame.goesOn (by simpa using hgoesOn)).1
    rw [hrest] at hnil
    simp at hnil
  -- the log holds reports of the members before the return only
  have hlogged : ∀ report ∈ log,
      ∃ member ∈ handled, TurnReport F toUnpack member.1 member.2 report := by
    intro report hmem
    rw [hreturns hreturned, hcame.log, hempty] at hmem
    exact hmem.resolve_left List.not_mem_nil
  constructor
  · intro report hreport
    have hafter : after ⊆ rest := by
      rw [hrest]
      exact fun member hmem => List.mem_append_right _ (List.mem_cons_of_mem _ hmem)
    have hwhole : Problem F toUnpack (handled ++ rest) report :=
      .member (hreport.mono fun member hmem => List.mem_append_right _ (hafter hmem))
    obtain ⟨member, hmem, hturn⟩ := hlogged report (hall report hwhole)
    have hname := name_of_turnReport hturn (hreport.mono hafter)
    rw [List.map_append, List.nodup_append] at hnodup
    exact hnodup.2.2 member.1 (List.mem_map.2 ⟨member, hmem, rfl⟩) member.1 hname rfl
  · intro q hq
    obtain ⟨member, -, hturn⟩ := hlogged _ (hall _ (.missing hq))
    cases hturn

theorem missing_reported (hcame : Came F R toUnpack [] p handled rest p')
    (hgoesOn : p'.returned = false)
    (hreports : ∀ q ∈ p'.toUnpack, q.complete = false → q.type.isOptional = false →
      .missing q.key ∈ log) {q : PerUnpack} (hq : Missing toUnpack (handled ++ rest) q) :
    .missing q.key ∈ log := by
  obtain ⟨rfl, done, hmarks, hdone⟩ := hcame.goesOn hgoesOn
  obtain ⟨i, hi, rfl⟩ := List.mem_iff_getElem.1 hq.mem
  have hi' : i < p'.toUnpack.length := hmarks.length_eq ▸ hi
  obtain ⟨complete, heq, hcomplete⟩ := hmarks.get hi hi'
  have hfalse : complete = false := by
    by_contra htrue
    have hname := hdone _ (hcomplete (by simpa using htrue))
    refine hq.absent ?_
    rw [List.append_nil]
    exact hname.resolve_right List.not_mem_nil
  have hmem : p'.toUnpack.get ⟨i, hi'⟩ ∈ p'.toUnpack := List.get_mem _ _
  have hreport := hreports _ hmem
  rw [heq] at hreport
  exact hreport hfalse hq.required

theorem reported_of_nothingSkipped (hapart : PathsApart toUnpack)
    (hcame : Came F R toUnpack [] p handled rest p') (hresult : p.result = true)
    (hlog : ∀ report ∈ p'.log, report ∈ log)
    (hgoesOn : p'.returned = false →
      ∀ q, Missing toUnpack (handled ++ rest) q → .missing q.key ∈ log)
    (hnothing : NothingSkipped F toUnpack (handled ++ rest)) {report : Report}
    (hreport : Problem F toUnpack (handled ++ rest) report) : report ∈ log := by
  have hhandled : MemberProblem F toUnpack handled report → report ∈ log := fun h =>
    hlog report ((hcame.log report).2 (.inr (turnReport_of_memberProblem hapart h)))
  cases hreturned : p'.returned with
  | false =>
    obtain ⟨rfl, -⟩ := hcame.goesOn hreturned
    cases hreport with
    | member h => exact hhandled (by rwa [List.append_nil] at h)
    | missing h => exact hgoesOn hreturned _ h
  | true =>
    obtain ⟨name, val, after, rfl, hdeeper, hproblem⟩ := hcame.returns hreturned
    have hproblem : ∃ member ∈ handled, memberAccepts F toUnpack member.1 member.2 = false :=
      hproblem.resolve_left (by simp [hresult])
    obtain ⟨hmembers, hmissing⟩ := hnothing handled name val after rfl hdeeper hproblem
    cases hreport with
    | member h =>
      have hsplit : MemberProblem F toUnpack handled report ∨
          MemberProblem F toUnpack ((name, val) :: after) report := by
        cases h with
        | unknown hmem hnone =>
          exact (List.mem_append.1 hmem).imp (.unknown · hnone) (.unknown · hnone)
        | unpack hp hleaf hmem hbad =>
          exact (List.mem_append.1 hmem).imp (.unpack hp hleaf · hbad) (.unpack hp hleaf · hbad)
      rcases hsplit with h | h
      · exact hhandled h
      · exact (hmembers report (memberProblem_deeper hapart hdeeper h)).elim
    | missing h => exact (hmissing _ h).elim

end Problems

section Main
variable {D : Type} (F : Doubles D) {R : Registry D} {toUnpack : List PerUnpack}
  {members : List (Text × Json Text D)} {res res' : Response D} {outputs outputs' : Outputs D}

/-- A call that fails has reported every problem if and only if nothing is skipped. Its
log is that of the reports it makes itself, not of those for the values below. -/
theorem reports_every_problem_iff (hR : ∀ index args, IsMessage (R.getLog index args))
    (hapart : PathsApart toUnpack) (hcomplete : ∀ q ∈ toUnpack, q.complete = false)
    (hnodup : (members.map Prod.fst).Nodup)
    (hcall : readJsonHelper F R res outputs toUnpack (.object members) =
      .ok (false, res', outputs')) :
    ∃ log, readJsonHelperLogged F R res outputs toUnpack members =
        .ok ((false, res', outputs'), log) ∧
      ((∀ report, Problem F toUnpack members report →
          report ∈ log ∧ Shown R res'.jsonValue report) ↔ NothingSkipped F toUnpack members) := by
  rw [← readJsonHelperLogged_erase] at hcall
  cases hlogged : readJsonHelperLogged F R res outputs toUnpack members with
  | error e =>
    rw [hlogged] at hcall
    cases hcall
  | ok out =>
    obtain ⟨out, log⟩ := out
    rw [hlogged] at hcall
    obtain rfl : out = (false, res', outputs') := Except.ok.inj hcall
    refine ⟨log, rfl, ?_⟩
    obtain ⟨p', hrun, hfinishes⟩ := readJsonHelperLogged_finishes hlogged
    obtain ⟨handled, rest, rfl, hcame⟩ := readMembersLogged_came hR hcomplete
      (marks_refl hcomplete) hnodup (fun _ _ => List.not_mem_nil) rfl hrun
    have hshown : ∀ report ∈ log, Shown R res'.jsonValue report := by
      intro report hmem
      rcases hfinishes.shown report hmem with hmem | hshown
      · exact ((hcame.shown report hmem).resolve_left List.not_mem_nil).mono hfinishes.grows
      · exact hshown
    constructor
    · intro hall
      exact nothingSkipped_of_reported hnodup hcame rfl hfinishes.returns
        fun report h => (hall report h).1
    · intro hnothing report hreport
      have hmem := reported_of_nothingSkipped hapart hcame rfl hfinishes.keeps
        (fun hgoesOn q hq => missing_reported hcame hgoesOn (hfinishes.missing hgoesOn) hq)
        hnothing hreport
      exact ⟨hmem, hshown report hmem⟩

end Main

def sampleRegistry : Registry Unit where
  getLog _ args := .object [("MessageId".toList, .string []), ("Message".toList, .string []),
    ("MessageArgs".toList, .array (args.map .string))]
  dump _ _ := []

def baseRegistrySample : Registry Unit := MessageBuilders.baseRegistry fun _ _ => []

def sampleOutputs : Outputs Unit := fun _ => .plain (.one (.integer 0))

def sampleKeys : List PerUnpack :=
  [{ key := "a".toList, type := .one .int64, pointer := 0 },
    { key := "b/c".toList, type := .one .int64, pointer := 1 },
    { key := "d".toList, type := .one .int64, pointer := 2 }]

def sampleDeeper : Json Text Unit := .object [("c".toList, .number_unsigned 1)]

theorem sampleKeys_apart : PathsApart sampleKeys := by
  unfold PathsApart
  decide

def sampleMembers : List (Text × Json Text Unit) :=
  [("b".toList, sampleDeeper), ("d".toList, .boolean true), ("e".toList, .null)]

theorem nothingSkipped_sample : NothingSkipped sampleDoubles sampleKeys sampleMembers := by
  intro before name val after hsplit hdeeper hproblem
  obtain ⟨p, hp, hleft⟩ := hdeeper
  obtain ⟨hmem, rfl⟩ := named_first hp
  have hname : p.first = "b".toList := by
    simp only [sampleKeys, List.mem_cons, List.not_mem_nil, or_false] at hmem
    rcases hmem with rfl | rfl | rfl
    · exact (hleft rfl).elim
    · rfl
    · exact (hleft rfl).elim
  cases before with
  | nil =>
    obtain ⟨member, hmem, -⟩ := hproblem
    cases hmem
  | cons member before =>
    have hrest := (List.cons.inj hsplit).2
    have hmem : (p.first, val) ∈ [("d".toList, Json.boolean true), ("e".toList, .null)] := by
      rw [hrest]
      exact List.mem_append_right _ List.mem_cons_self
    rw [hname] at hmem
    simp at hmem

set_option maxRecDepth 4000 in
theorem sampleMembers_refused : ∃ res' outputs', readJsonHelper sampleDoubles baseRegistrySample {}
    sampleOutputs sampleKeys (.object sampleMembers) = .ok (false, res', outputs') := ⟨_, _, rfl⟩

theorem reports_every_problem_iff_sample : ∃ res' outputs' log,
    readJsonHelperLogged sampleDoubles baseRegistrySample {} sampleOutputs sampleKeys
      sampleMembers = .ok ((false, res', outputs'), log) ∧
    ∀ report, Problem sampleDoubles sampleKeys sampleMembers report →
      report ∈ log ∧ Shown baseRegistrySample res'.jsonValue report := by
  obtain ⟨res', outputs', hcall⟩ := sampleMembers_refused
  obtain ⟨log, hlogged, hiff⟩ := reports_every_problem_iff sampleDoubles
    (MessageBuilders.isMessage_baseRegistry _) sampleKeys_apart (by decide) (by decide) hcall
  exact ⟨res', outputs', log, hlogged, hiff.2 nothingSkipped_sample⟩

def sampleMembers' : List (Text × Json Text Unit) :=
  [("a".toList, .boolean true), ("b".toList, sampleDeeper), ("d".toList, .boolean true)]

theorem leaf_behind_deeper_unreported : ∃ res' outputs',
    readJsonHelper sampleDoubles sampleRegistry {} sampleOutputs sampleKeys
      (.object sampleMembers') = .ok (false, res', outputs') ∧
    Problem sampleDoubles sampleKeys sampleMembers' (.unpack "d".toList) ∧
    ¬ Shown sampleRegistry res'.jsonValue (.unpack "d".toList) := by
  refine ⟨_, _, rfl, .member ?_, ?_⟩
  · have hp : { key := "d".toList, type := .one .int64, pointer := 2 } ∈ sampleKeys := by
      simp [sampleKeys]
    exact .unpack hp (by decide) (.tail _ (.tail _ (.head _))) rfl
  · rintro ⟨value, h | h⟩ <;> cases h

end CrowCore.SkippedReports
