import CrowCore.GuardedRuns
import CrowCore.Sessions

set_option autoImplicit false

/-!
# When `needWrite` can be trusted

`needWrite` has to be set whenever the store would be saved differently from
what was loaded. Two operations break this: the creation of a session for a
single request resets the flag, and removing the sessions of a user does not
set it.
-/
namespace CrowCore.DirtyFlag
open GuardedRuns Sessions

/-- The order of the sessions is that of a hash map and means nothing. -/
structure Same (a b : StoreData) : Prop where
  authConfig_eq : a.authConfig = b.authConfig
  timeout_eq : a.timeout = b.timeout
  sessions_perm : a.sessions.Perm b.sessions

theorem Same.refl (a : StoreData) : Same a a := ⟨rfl, rfl, .refl _⟩

theorem Same.symm {a b : StoreData} (h : Same a b) : Same b a :=
  ⟨h.authConfig_eq.symm, h.timeout_eq.symm, h.sessions_perm.symm⟩

theorem Same.trans {a b c : StoreData} (h : Same a b) (h' : Same b c) : Same a c :=
  ⟨h.authConfig_eq.trans h'.authConfig_eq, h.timeout_eq.trans h'.timeout_eq,
    h.sessions_perm.trans h'.sessions_perm⟩

/-- The flag is set if the store differs from what is in the file. -/
def FlagSound (saved : StoreData) (store : SessionStore) : Prop :=
  ¬ Same store.writeData saved → store.needWrite

/-- The operation does not reset the flag over a change, nor make one without it. -/
def Noticed (saved : StoreData) (store : SessionStore) : Operation → Prop
  | .generateUserSession _ _ _ .singleRequest _ (some _) _ => Same store.writeData saved
  | .removeSessionsByUsername username => store.needWrite ∨
      ∀ p ∈ store.authTokens, p.2.username = username → p.2.persistence = .singleRequest
  | _ => True

def step (store : SessionStore) (op : Operation) : Option SessionStore := some (store.perform op)

theorem flagSound_of_needWrite {saved : StoreData} {store : SessionStore}
    (h : store.needWrite = true) : FlagSound saved store := fun _ => h

theorem flagSound_congr {saved : StoreData} {store store' : SessionStore}
    (hdata : Same store'.writeData store.writeData) (hflag : store'.needWrite = store.needWrite) :
    FlagSound saved store' ↔ FlagSound saved store := by
  have hsame : Same store'.writeData saved ↔ Same store.writeData saved :=
    ⟨hdata.symm.trans, hdata.trans⟩
  rw [FlagSound, FlagSound, hsame, hflag]

theorem flagSound_applySessionTimeouts {saved : StoreData} {store : SessionStore}
    (h : FlagSound saved store) (timeNow : ℤ) :
    FlagSound saved (store.applySessionTimeouts timeNow) := by
  unfold SessionStore.applySessionTimeouts
  split_ifs with hdue
  · by_cases hexp : store.authTokens.any fun p => store.expired timeNow p.2
    · exact flagSound_of_needWrite (by simp [hexp])
    · have hkeep : store.authTokens.filter (fun p => !store.expired timeNow p.2) =
          store.authTokens := by
        rw [List.filter_eq_self]
        intro p hp
        simp only [List.any_eq_true, not_exists, not_and] at hexp
        simpa using hexp p hp
      refine (flagSound_congr ?_ ?_).2 h
      · simp only [SessionStore.writeData, hkeep]
        exact Same.refl _
      · simp [hexp]
  · exact h

theorem writeData_touch (store : SessionStore) (token : String) (now : ℤ) :
    (store.touch token now).writeData = store.writeData := by
  simp only [SessionStore.writeData, SessionStore.touch, List.filterMap_map]
  congr 2
  funext p
  simp only [Function.comp_apply]
  split_ifs <;> rfl

theorem flagSound_login {saved : StoreData} {store : SessionStore} (h : FlagSound saved store)
    (token : String) (timeNow now : ℤ) :
    FlagSound saved (store.loginSessionByToken token timeNow now).1 := by
  have ht := flagSound_applySessionTimeouts h timeNow
  unfold SessionStore.loginSessionByToken
  generalize store.applySessionTimeouts timeNow = store at ht
  dsimp only
  split_ifs
  · exact ht
  · split
    · exact ht
    · have hsame : Same (store.touch token now).writeData store.writeData := by
        rw [writeData_touch]
        exact Same.refl _
      exact (flagSound_congr hsame rfl).2 ht

theorem writeData_emplace_singleRequest (store : SessionStore) (token : String)
    {session : UserSession} (h : session.persistence = .singleRequest) :
    (SessionStore.emplace store.authTokens token session).filterMap (fun p => saveSession p.2) =
      store.authTokens.filterMap fun p => saveSession p.2 := by
  unfold SessionStore.emplace
  split_ifs
  · rfl
  · simp [saveSession, h]

theorem flagSound_generate_iff {saved : StoreData} {store : SessionStore}
    (h : FlagSound saved store) (username clientIp : String) (clientId : Option String)
    (persistence : PersistenceType) (selfOnly : Bool) (generated : Option Identifiers) (now : ℤ) :
    FlagSound saved (store.generateUserSession username clientIp clientId persistence selfOnly
      generated now).1 ↔ Noticed saved store
        (.generateUserSession username clientIp clientId persistence selfOnly generated now) := by
  cases generated with
  | none => exact iff_of_true h (by cases persistence <;> trivial)
  | some ids =>
    cases persistence with
    | timeout => exact iff_of_true (flagSound_of_needWrite rfl) trivial
    | singleRequest =>
      have hdata : (store.generateUserSession username clientIp clientId .singleRequest selfOnly
          (some ids) now).1.writeData = store.writeData := by
        simp only [SessionStore.generateUserSession, SessionStore.writeData]
        rw [writeData_emplace_singleRequest store ids.sessionToken rfl]
      change (¬ Same _ saved → false = true) ↔ Same store.writeData saved
      rw [hdata]
      simp

theorem removed_iff (store : SessionStore) (username : String) :
    Same (store.removeSessionsByUsername username).writeData store.writeData ↔
      ∀ p ∈ store.authTokens, p.2.username = username → p.2.persistence = .singleRequest := by
  constructor
  · intro h p hp hname
    by_contra hne
    have hmem : (⟨p.2.uniqueId, p.2.sessionToken, p.2.username, p.2.csrfToken, p.2.clientIp,
        p.2.clientId⟩ : SavedSession) ∈ store.writeData.sessions :=
      List.mem_filterMap.2 ⟨p, hp, if_pos hne⟩
    obtain ⟨q, hq, hsave⟩ := List.mem_filterMap.1 (h.sessions_perm.mem_iff.2 hmem)
    have hkept := (List.mem_filter.1 hq).2
    unfold saveSession at hsave
    split_ifs at hsave
    have heq := congrArg SavedSession.username (Option.some.inj hsave)
    exact (of_decide_eq_true hkept) (heq.trans hname)
  · intro h
    refine ⟨rfl, rfl, .of_eq ?_⟩
    simp only [SessionStore.writeData, SessionStore.removeSessionsByUsername,
      List.filterMap_filter]
    apply List.filterMap_congr
    intro p hp
    by_cases hname : p.2.username = username
    · simp [hname, saveSession, h p hp hname]
    · simp [hname]

theorem flagSound_removeSessionsByUsername_iff {saved : StoreData} {store : SessionStore}
    (h : FlagSound saved store) (username : String) :
    FlagSound saved (store.removeSessionsByUsername username) ↔
      Noticed saved store (.removeSessionsByUsername username) := by
  change (¬ Same _ saved → store.needWrite = true) ↔ (store.needWrite = true ∨ _)
  by_cases hflag : store.needWrite = true
  · simp [hflag]
  · have hsaved : Same store.writeData saved := by
      by_contra hne
      exact hflag (h hne)
    rw [← removed_iff]
    simp only [hflag, Bool.false_eq_true, imp_false, not_not, false_or]
    exact ⟨fun h' => h'.trans hsaved.symm, fun h' => h'.trans hsaved⟩

theorem flagSound_perform_iff {saved : StoreData} {store : SessionStore} (h : FlagSound saved store)
    (op : Operation) : FlagSound saved (store.perform op) ↔ Noticed saved store op := by
  cases op with
  | generateUserSession username clientIp clientId persistence selfOnly generated now =>
    exact flagSound_generate_iff h username clientIp clientId persistence selfOnly generated now
  | loginSessionByToken token timeNow now => exact iff_of_true (flagSound_login h _ _ _) trivial
  | getSessionByUid uid timeNow => exact iff_of_true (flagSound_applySessionTimeouts h _) trivial
  | removeSession session => exact iff_of_true (flagSound_of_needWrite rfl) trivial
  | removeSessionsByUsername username => exact flagSound_removeSessionsByUsername_iff h username
  | updateAuthMethodsConfig config => exact iff_of_true (flagSound_of_needWrite rfl) trivial
  | updateSessionTimeout seconds => exact iff_of_true (flagSound_of_needWrite rfl) trivial
  | applySessionTimeouts timeNow => exact iff_of_true (flagSound_applySessionTimeouts h _) trivial

/-- Throughout a run from a load, the flag is sound if and only if every
operation of the run is noticed. -/
theorem flag_sound_iff_noticed (defaults : AuthConfigMethods) (file : PersistentFile) (now : ℤ)
    (ops : List Operation) :
    let store := readData defaults file now
    Always step (FlagSound store.writeData) store ops ↔
      Guarded step (Noticed store.writeData) store ops := by
  refine always_iff_guarded ?_ fun hne => (hne (Same.refl _)).elim
  intro s op s' hs hstep
  obtain rfl := Option.some.inj hstep
  exact flagSound_perform_iff hs op

theorem destroyConfigFile_same {saved : StoreData} {store : SessionStore}
    (h : FlagSound saved store) (now : ℤ) : Same (destroyConfigFile store saved now)
      (store.applySessionTimeouts now).writeData := by
  have ht := flagSound_applySessionTimeouts h now
  unfold destroyConfigFile
  dsimp only
  split_ifs with hflag
  · exact Same.refl _
  · exact (not_not.1 fun hne => hflag (ht hne)).symm

def sampleIdentifiers : Identifiers where
  sessionToken := "0123456789abcdefghij"
  csrfToken := "ABCDEFGHIJ0123456789"
  uniqueId := "9876543210"
  sessionToken_size := by decide

def sampleOperations : List Operation :=
  [.generateUserSession "root" "::1" none .timeout false (some sampleIdentifiers) 0,
    .generateUserSession "root" "::1" none .singleRequest false
      (some { sampleIdentifiers with sessionToken := "jihgfedcba9876543210"
                                     sessionToken_size := by decide }) 1]

theorem flag_lost :
    let store := readData ⟨true, true, true, true, true⟩ {} 0
    ¬ Always step (FlagSound store.writeData) store sampleOperations := by
  intro store h
  have hflag := (h.2 _ rfl).2 _ rfl
  refine Bool.false_ne_true (hflag fun hsame => ?_)
  exact absurd hsame.sessions_perm.length_eq (by decide)

end CrowCore.DirtyFlag
