import CrowCore.GuardedRuns
import CrowCore.Sessions

set_option autoImplicit false

/-!
# The expiry of sessions

Expired sessions are only looked for when the last search is more than a second
old. Each session was younger than the timeout at the last search, or is newer
than it, so that none is handed out more than a second late. That none goes too
early depends on the timeout, whose nanoseconds may not fit in 64 bits.
-/
namespace CrowCore.SessionExpiry
open GuardedRuns Sessions

def step (store : SessionStore) (op : Operation) : Option SessionStore := some (store.perform op)

def readings : Operation → List ℤ
  | .generateUserSession _ _ _ _ _ _ now => [now]
  | .loginSessionByToken _ timeNow now => [timeNow, now]
  | .getSessionByUid _ timeNow | .applySessionTimeouts timeNow => [timeNow]
  | _ => []

/-- The clock starts at its epoch and never goes back; it has 64 bits. -/
structure MonotoneClock (start : ℤ) (ops : List Operation) : Prop where
  pairwise : (0 :: start :: ops.flatMap readings).Pairwise (· ≤ ·)
  fits : ∀ reading ∈ start :: ops.flatMap readings, reading < 2 ^ 63

def FixedTimeout (timeout : ℤ) (ops : List Operation) : Prop :=
  ∀ seconds, .updateSessionTimeout seconds ∈ ops → seconds = timeout

/-- Last used at most the timeout and a second before. -/
def Recent (store : SessionStore) (timeNow : ℤ) (session : UserSession) : Prop :=
  session.lastUpdated ≤ timeNow ∧
    timeNow - session.lastUpdated ≤ (store.timeoutInSeconds + 1) * 10 ^ 9

/-- A session that was idle for less than the timeout stays in the store. -/
def KeepsActive (store : SessionStore) (timeNow : ℤ) : Prop :=
  ∀ p ∈ store.authTokens, timeNow - p.2.lastUpdated < store.timeoutInSeconds * 10 ^ 9 →
    p ∈ (store.applySessionTimeouts timeNow).authTokens

/-- What an operation returns and removes, by the store before it. -/
def Expires (store : SessionStore) : Operation → Prop
  | .loginSessionByToken token timeNow now => KeepsActive store timeNow ∧
      ∀ session, (store.loginSessionByToken token timeNow now).2 = some session →
        ∃ userSession, (token, userSession) ∈ store.authTokens ∧ Recent store timeNow userSession ∧
          session = { userSession with lastUpdated := now }
  | .getSessionByUid uid timeNow => KeepsActive store timeNow ∧
      ∀ session, (store.getSessionByUid uid timeNow).2 = some session →
        ∃ token, (token, session) ∈ store.authTokens ∧ Recent store timeNow session
  | .applySessionTimeouts timeNow => KeepsActive store timeNow
  | _ => True

/-- The longest timeout in seconds whose nanoseconds fit in 64 bits. -/
def longestTimeout : ℤ := 9223372036

theorem nanoseconds_of_le {seconds : ℤ} (hpos : 0 < seconds) (hle : seconds ≤ longestTimeout) :
    (nanoseconds seconds).toInt = seconds * 10 ^ 9 := by
  have hfits : (Int64.ofInt seconds).toInt = seconds :=
    Int64.toInt_ofInt_of_le (by omega) (by rw [longestTimeout] at hle; omega)
  have hbillion : (1000000000 : Int64).toInt = 10 ^ 9 := by decide
  rw [nanoseconds, Int64.toInt_mul, hfits, hbillion]
  rw [longestTimeout] at hle
  apply Int.bmod_eq_of_le
  · omega
  · omega

/-- At the last search no session of the store had expired. -/
structure Searched (timeout clock : ℤ) (store : SessionStore) : Prop where
  timeout_eq : store.timeoutInSeconds = timeout
  search_le : store.lastTimeoutUpdate ≤ clock
  updated_le : ∀ p ∈ store.authTokens, p.2.lastUpdated ≤ clock
  not_expired : ∀ p ∈ store.authTokens,
    store.lastTimeoutUpdate < p.2.lastUpdated + timeout * 10 ^ 9

variable {timeout clock : ℤ} {store : SessionStore}

theorem Searched.later (h : Searched timeout clock store) {clock' : ℤ} (hle : clock ≤ clock') :
    Searched timeout clock' store :=
  ⟨h.timeout_eq, h.search_le.trans hle, fun p hp => (h.updated_le p hp).trans hle, h.not_expired⟩

theorem mem_applySessionTimeouts {timeNow : ℤ} {p : String × UserSession}
    (hp : p ∈ (store.applySessionTimeouts timeNow).authTokens) : p ∈ store.authTokens := by
  unfold SessionStore.applySessionTimeouts at hp
  split_ifs at hp
  · exact List.mem_of_mem_filter hp
  · exact hp

theorem expired_iff (h : Searched timeout clock store) (hpos : 0 < timeout)
    (hle : timeout ≤ longestTimeout) (timeNow : ℤ) (session : UserSession) :
    store.expired timeNow session ↔ timeout * 10 ^ 9 ≤ timeNow - session.lastUpdated := by
  unfold SessionStore.expired
  rw [h.timeout_eq, nanoseconds_of_le hpos hle, decide_eq_true_iff, ge_iff_le]

theorem lt_of_kept (h : Searched timeout clock store) (hpos : 0 < timeout)
    (hle : timeout ≤ longestTimeout) {timeNow : ℤ} {p : String × UserSession}
    (hp : p ∈ store.authTokens.filter fun p => !store.expired timeNow p.2) :
    timeNow - p.2.lastUpdated < timeout * 10 ^ 9 := by
  have hkeep := (List.mem_filter.1 hp).2
  rw [Bool.not_eq_true', ← Bool.not_eq_true, expired_iff h hpos hle] at hkeep
  exact not_le.1 hkeep

theorem keepsActive (h : Searched timeout clock store) (hpos : 0 < timeout)
    (hle : timeout ≤ longestTimeout) (timeNow : ℤ) : KeepsActive store timeNow := by
  intro p hp hidle
  rw [h.timeout_eq] at hidle
  unfold SessionStore.applySessionTimeouts
  split_ifs
  · refine List.mem_filter.2 ⟨hp, ?_⟩
    rw [Bool.not_eq_true', ← Bool.not_eq_true, expired_iff h hpos hle]
    exact not_le.2 hidle
  · exact hp

theorem searched_applySessionTimeouts (h : Searched timeout clock store) (hpos : 0 < timeout)
    (hlong : timeout ≤ longestTimeout) {timeNow : ℤ} (hle : clock ≤ timeNow) :
    Searched timeout timeNow (store.applySessionTimeouts timeNow) := by
  unfold SessionStore.applySessionTimeouts
  split_ifs
  · refine ⟨h.timeout_eq, le_refl _, ?_, ?_⟩
    · intro p hp
      exact (h.updated_le p (List.mem_of_mem_filter hp)).trans hle
    · intro p hp
      have hkeep := lt_of_kept h hpos hlong hp
      dsimp only
      omega
  · exact h.later hle

theorem recent_of_mem (h : Searched timeout clock store) (hpos : 0 < timeout)
    (hlong : timeout ≤ longestTimeout) {timeNow : ℤ} (hle : clock ≤ timeNow)
    {p : String × UserSession} (hp : p ∈ (store.applySessionTimeouts timeNow).authTokens) :
    Recent store timeNow p.2 := by
  refine ⟨(h.updated_le p (mem_applySessionTimeouts hp)).trans hle, ?_⟩
  rw [h.timeout_eq]
  unfold SessionStore.applySessionTimeouts at hp
  split_ifs at hp with hdue
  · have hkeep := lt_of_kept h hpos hlong hp
    omega
  · have := h.not_expired p hp
    omega

theorem mem_of_lookup {token : String} {userSession : UserSession}
    {authTokens : List (String × UserSession)}
    (hfind : authTokens.lookup token = some userSession) :
    (token, userSession) ∈ authTokens := by
  obtain ⟨front, rest, rfl, -⟩ := List.lookup_eq_some_iff.1 hfind
  simp

theorem expires_of_searched (h : Searched timeout clock store) (hpos : 0 < timeout)
    (hlong : timeout ≤ longestTimeout) {op : Operation}
    (hclock : (clock :: readings op).Pairwise (· ≤ ·)) : Expires store op := by
  cases op with
  | loginSessionByToken token timeNow now =>
    have hle : clock ≤ timeNow := List.rel_of_pairwise_cons hclock (by simp [readings])
    refine ⟨keepsActive h hpos hlong timeNow, fun session hsession => ?_⟩
    unfold SessionStore.loginSessionByToken at hsession
    dsimp only at hsession
    split_ifs at hsession with hsize
    · cases hfind : (store.applySessionTimeouts timeNow).authTokens.lookup token with
      | none => simp [hfind] at hsession
      | some userSession =>
        have hmem := mem_of_lookup hfind
        simp only [hfind, Option.some.injEq] at hsession
        exact ⟨userSession, mem_applySessionTimeouts hmem, recent_of_mem h hpos hlong hle hmem,
          hsession.symm⟩
  | getSessionByUid uid timeNow =>
    have hle : clock ≤ timeNow := List.rel_of_pairwise_cons hclock (by simp [readings])
    refine ⟨keepsActive h hpos hlong timeNow, fun session hsession => ?_⟩
    obtain ⟨p, hp, rfl⟩ := Option.map_eq_some_iff.1 hsession
    have hmem := List.mem_of_find?_eq_some hp
    exact ⟨p.1, mem_applySessionTimeouts hmem, recent_of_mem h hpos hlong hle hmem⟩
  | applySessionTimeouts timeNow => exact keepsActive h hpos hlong timeNow
  | _ => trivial

theorem mem_emplace {authTokens : List (String × UserSession)} {token : String}
    {session : UserSession} {p : String × UserSession}
    (hp : p ∈ SessionStore.emplace authTokens token session) : p ∈ authTokens ∨ p.2 = session := by
  unfold SessionStore.emplace at hp
  split_ifs at hp
  · exact .inl hp
  · rcases List.mem_append.1 hp with hp | hp
    · exact .inl hp
    · exact .inr (by rw [List.mem_singleton.1 hp])

theorem searched_emplace (h : Searched timeout clock store) (htimeout : 0 < timeout) {now : ℤ}
    (hle : clock ≤ now) (token : String) {session : UserSession} (hnow : session.lastUpdated = now)
    (needWrite : Bool) :
    Searched timeout now
      { store with
        authTokens := SessionStore.emplace store.authTokens token session
        needWrite } := by
  have hsearch := h.search_le
  refine ⟨h.timeout_eq, hsearch.trans hle, fun p hp => ?_, fun p hp => ?_⟩
  · rcases mem_emplace hp with hold | hnew
    · exact (h.updated_le p hold).trans hle
    · rw [hnew, hnow]
  · rcases mem_emplace hp with hold | hnew
    · exact h.not_expired p hold
    · rw [hnew, hnow]
      dsimp only
      omega

theorem searched_touch (h : Searched timeout clock store) {now : ℤ} (hle : clock ≤ now)
    (htimeout : 0 < timeout) (token : String) : Searched timeout now (store.touch token now) := by
  have hmem : ∀ p ∈ (store.touch token now).authTokens,
      p ∈ store.authTokens ∨ p.2.lastUpdated = now := by
    intro p hp
    obtain ⟨q, hq, rfl⟩ := List.mem_map.1 hp
    split_ifs
    · exact .inr rfl
    · exact .inl hq
  have hsearch := h.search_le
  refine ⟨h.timeout_eq, hsearch.trans hle, fun p hp => ?_, fun p hp => ?_⟩
  · rcases hmem p hp with hold | hnew
    · exact (h.updated_le p hold).trans hle
    · exact hnew.le
  · rcases hmem p hp with hold | hnew
    · exact h.not_expired p hold
    · rw [hnew]
      dsimp only [SessionStore.touch]
      omega

theorem Searched.withdraw (h : Searched timeout clock store) {store' : SessionStore}
    (htimeout : store'.timeoutInSeconds = timeout)
    (hsearch : store'.lastTimeoutUpdate = store.lastTimeoutUpdate)
    (hsub : ∀ p ∈ store'.authTokens, p ∈ store.authTokens) : Searched timeout clock store' where
  timeout_eq := htimeout
  search_le := hsearch ▸ h.search_le
  updated_le p hp := h.updated_le p (hsub p hp)
  not_expired p hp := hsearch ▸ h.not_expired p (hsub p hp)

def clockAfter (clock : ℤ) (op : Operation) : ℤ := (readings op).getLastD clock

theorem searched_perform (h : Searched timeout clock store) (htimeout : 0 < timeout)
    (hlong : timeout ≤ longestTimeout) {op : Operation}
    (hclock : (clock :: readings op).Pairwise (· ≤ ·))
    (hfixed : ∀ seconds, op = .updateSessionTimeout seconds → seconds = timeout) :
    Searched timeout (clockAfter clock op) (store.perform op) := by
  cases op with
  | generateUserSession username clientIp clientId persistence isConfigureSelfOnly generated now =>
    have hle : clock ≤ now := List.rel_of_pairwise_cons hclock (by simp [readings])
    cases generated with
    | none => exact h.later hle
    | some ids => exact searched_emplace h htimeout hle ids.sessionToken rfl _
  | loginSessionByToken token timeNow now =>
    have hle : clock ≤ timeNow := List.rel_of_pairwise_cons hclock (by simp [readings])
    have hagain : timeNow ≤ now :=
      List.rel_of_pairwise_cons (List.Pairwise.of_cons hclock) (by simp)
    have hkept := searched_applySessionTimeouts h htimeout hlong hle
    change Searched timeout now (store.loginSessionByToken token timeNow now).1
    unfold SessionStore.loginSessionByToken
    dsimp only
    split_ifs with hsize
    · exact hkept.later hagain
    · cases hfind : (store.applySessionTimeouts timeNow).authTokens.lookup token with
      | none => exact hkept.later hagain
      | some userSession => exact searched_touch hkept hagain htimeout token
  | getSessionByUid uid timeNow =>
    have hle : clock ≤ timeNow := List.rel_of_pairwise_cons hclock (by simp [readings])
    exact searched_applySessionTimeouts h htimeout hlong hle
  | removeSession session =>
    exact h.withdraw h.timeout_eq rfl fun p hp => List.mem_of_mem_filter hp
  | removeSessionsByUsername username =>
    exact h.withdraw h.timeout_eq rfl fun p hp => List.mem_of_mem_filter hp
  | updateAuthMethodsConfig config => exact h.withdraw h.timeout_eq rfl fun p hp => hp
  | updateSessionTimeout seconds => exact h.withdraw (hfixed seconds rfl) rfl fun p hp => hp
  | applySessionTimeouts timeNow =>
    have hle : clock ≤ timeNow := List.rel_of_pairwise_cons hclock (by simp [readings])
    exact searched_applySessionTimeouts h htimeout hlong hle

theorem pairwise_clockAfter {op : Operation} {later : List ℤ}
    (h : (clock :: (readings op ++ later)).Pairwise (· ≤ ·)) :
    (clockAfter clock op :: later).Pairwise (· ≤ ·) := by
  unfold clockAfter
  cases op with
  | generateUserSession => exact h.of_cons
  | loginSessionByToken => exact h.of_cons.of_cons
  | getSessionByUid => exact h.of_cons
  | applySessionTimeouts => exact h.of_cons
  | _ => exact h

theorem expires_of_run (htimeout : 0 < timeout) (hlong : timeout ≤ longestTimeout)
    {ops : List Operation} : ∀ {clock : ℤ} {store : SessionStore}, Searched timeout clock store →
      (clock :: ops.flatMap readings).Pairwise (· ≤ ·) → FixedTimeout timeout ops →
        Guarded step Expires store ops := by
  induction ops with
  | nil => exact fun _ _ _ => trivial
  | cons op ops ih =>
    intro clock store h hclock hfixed store' hstep
    obtain rfl := Option.some.inj hstep
    rw [List.flatMap_cons] at hclock
    have hop : (clock :: readings op).Pairwise (· ≤ ·) :=
      hclock.sublist ((List.sublist_append_left _ _).cons_cons _)
    refine ⟨expires_of_searched h htimeout hlong hop,
      ih (searched_perform h htimeout hlong hop ?_)
      (pairwise_clockAfter hclock) fun seconds hseconds => hfixed seconds (.tail _ hseconds)⟩
    exact fun seconds heq => hfixed seconds (heq ▸ .head _)

theorem restored_now {now : ℤ} (elem : List (String × String))
    (hsearch : store.lastTimeoutUpdate = 0)
    (hupdated : ∀ p ∈ store.authTokens, p.2.lastUpdated = now) :
    (restoreSession now store elem).lastTimeoutUpdate = 0 ∧
      ∀ p ∈ (restoreSession now store elem).authTokens, p.2.lastUpdated = now := by
  unfold restoreSession
  cases hsession : UserSession.fromJson elem now with
  | none => exact ⟨hsearch, hupdated⟩
  | some newSession =>
    refine ⟨hsearch, fun p hp => ?_⟩
    rcases mem_emplace hp with hold | hnew
    · exact hupdated p hold
    · rw [hnew]
      unfold UserSession.fromJson at hsession
      dsimp only at hsession
      split_ifs at hsession
      rw [← Option.some.inj hsession]

theorem restored_timeout (now : ℤ) (elem : List (String × String)) :
    (restoreSession now store elem).timeoutInSeconds = store.timeoutInSeconds := by
  unfold restoreSession
  cases UserSession.fromJson elem now <;> rfl

theorem restored_all {now : ℤ} (elems : List (List (String × String)))
    (hsearch : store.lastTimeoutUpdate = 0)
    (hupdated : ∀ p ∈ store.authTokens, p.2.lastUpdated = now) :
    let restored := elems.foldl (restoreSession now) store
    restored.lastTimeoutUpdate = 0 ∧ (∀ p ∈ restored.authTokens, p.2.lastUpdated = now) ∧
      restored.timeoutInSeconds = store.timeoutInSeconds := by
  induction elems generalizing store with
  | nil => exact ⟨hsearch, hupdated, rfl⟩
  | cons elem elems ih =>
    obtain ⟨hsearch', hupdated'⟩ := restored_now elem hsearch hupdated
    obtain ⟨hsearch'', hupdated'', htimeout⟩ := ih hsearch' hupdated'
    exact ⟨hsearch'', hupdated'', htimeout.trans (restored_timeout now elem)⟩

def fileTimeout (file : PersistentFile) : ℤ := file.timeout.getD 1800

theorem readData_now (defaults : AuthConfigMethods) (file : PersistentFile) (now : ℤ) :
    (readData defaults file now).lastTimeoutUpdate = 0 ∧
      (∀ p ∈ (readData defaults file now).authTokens, p.2.lastUpdated = now) ∧
        (readData defaults file now).timeoutInSeconds = fileTimeout file := by
  let store : SessionStore := { authMethodsConfig := defaults.fromJson file.auth_config }
  have hfresh : ∀ p ∈ store.authTokens, p.2.lastUpdated = now := nofun
  obtain ⟨hsearch, hupdated, htimeout⟩ := restored_all file.sessions rfl hfresh
  unfold readData fileTimeout
  cases file.timeout with
  | none => exact ⟨hsearch, hupdated, htimeout⟩
  | some timeout => exact ⟨hsearch, hupdated, rfl⟩

theorem searched_readData (defaults : AuthConfigMethods) (file : PersistentFile) {now : ℤ}
    (hnow : 0 ≤ now) (htimeout : 0 < fileTimeout file) :
    Searched (fileTimeout file) now (readData defaults file now) := by
  obtain ⟨hsearch, hupdated, heq⟩ := readData_now defaults file now
  refine ⟨heq, hsearch ▸ hnow, fun p hp => (hupdated p hp).le, fun p hp => ?_⟩
  rw [hsearch, hupdated p hp]
  omega

def sampleIdentifiers : Identifiers where
  sessionToken := "aaaaaaaaaaaaaaaaaaaa"
  csrfToken := "bbbbbbbbbbbbbbbbbbbb"
  uniqueId := "cccccccccc"
  sessionToken_size := by decide +kernel

def longIdle : List Operation :=
  [.generateUserSession "user" "::1" none .timeout false (some sampleIdentifiers) 0,
    .applySessionTimeouts (2 ^ 63 - 1)]

theorem monotoneClock_longIdle : MonotoneClock 0 longIdle where
  pairwise := by simp [longIdle, readings]
  fits := by simp [longIdle, readings]

theorem exists_mem_emplace (authTokens : List (String × UserSession)) (token : String)
    (session : UserSession) : ∃ p, p ∈ SessionStore.emplace authTokens token session := by
  unfold SessionStore.emplace
  split_ifs with hany
  · obtain ⟨p, hp, -⟩ := List.any_eq_true.1 hany
    exact ⟨p, hp⟩
  · exact ⟨_, List.mem_append_right _ (List.mem_singleton.2 rfl)⟩

/-- No timeout of 64 bits reaches beyond the last reading of the clock. -/
theorem expired_at_last (store : SessionStore) {session : UserSession}
    (hupdated : session.lastUpdated = 0) : store.expired (2 ^ 63 - 1) session = true := by
  have hfits := (nanoseconds store.timeoutInSeconds).toInt_lt
  rw [SessionStore.expired, hupdated, decide_eq_true_iff]
  omega

theorem not_keepsActive {p : String × UserSession} (hp : p ∈ store.authTokens)
    (hupdated : p.2.lastUpdated = 0) (hsearch : store.lastTimeoutUpdate = 0)
    (hlong : longestTimeout < store.timeoutInSeconds) : ¬ KeepsActive store (2 ^ 63 - 1) := by
  intro hkeeps
  have hidle : 2 ^ 63 - 1 - p.2.lastUpdated < store.timeoutInSeconds * 10 ^ 9 := by
    rw [longestTimeout] at hlong
    omega
  have hkept := hkeeps p hp hidle
  unfold SessionStore.applySessionTimeouts at hkept
  rw [if_pos (by omega)] at hkept
  have hnot := (List.mem_filter.1 hkept).2
  rw [expired_at_last store hupdated] at hnot
  cases hnot

theorem not_expires_longIdle (defaults : AuthConfigMethods) (file : PersistentFile)
    (hlong : longestTimeout < fileTimeout file) :
    ¬ Guarded step Expires (readData defaults file 0) longIdle := by
  intro h
  obtain ⟨hsearch, hupdated, htimeout⟩ := readData_now defaults file 0
  obtain ⟨-, hrest⟩ := h _ rfl
  obtain ⟨hkeeps, -⟩ := hrest _ rfl
  let made := (readData defaults file 0).perform
    (.generateUserSession "user" "::1" none .timeout false (some sampleIdentifiers) 0)
  obtain ⟨p, hp⟩ : ∃ p, p ∈ made.authTokens := exists_mem_emplace _ _ _
  have hnow : p.2.lastUpdated = 0 := by
    rcases mem_emplace hp with hold | hnew
    · exact hupdated p hold
    · rw [hnew]
  have hmade : made.lastTimeoutUpdate = 0 := hsearch
  have hnot := not_keepsActive hp hnow hmade (hlong.trans_eq htimeout.symm)
  exact hnot hkeeps

/-- In all runs with a timeout a session is returned at most a second after it has expired and
none is removed before that, if and only if the nanoseconds of the timeout fit in 64 bits. -/
theorem sessions_expire_iff (defaults : AuthConfigMethods) (file : PersistentFile)
    (htimeout : 0 < fileTimeout file) :
    (∀ (now : ℤ) (ops : List Operation), MonotoneClock now ops →
      FixedTimeout (fileTimeout file) ops → Guarded step Expires (readData defaults file now) ops) ↔
        fileTimeout file ≤ longestTimeout := by
  constructor
  · intro h
    by_contra hlong
    refine not_expires_longIdle defaults file (not_le.1 hlong)
      (h 0 longIdle monotoneClock_longIdle ?_)
    intro seconds hseconds
    simp [longIdle] at hseconds
  · intro hlong now ops hclock hfixed
    have hnow : 0 ≤ now := List.rel_of_pairwise_cons hclock.pairwise (by simp)
    exact expires_of_run htimeout hlong (searched_readData defaults file hnow htimeout)
      hclock.pairwise.of_cons hfixed

def defaults : AuthConfigMethods :=
  { basic := true, sessionToken := true, xtoken := true, cookie := true, tls := false }

def sampleOps : List Operation :=
  [.generateUserSession "user" "::1" none .timeout false (some sampleIdentifiers) (5 * 10 ^ 9),
    .loginSessionByToken "aaaaaaaaaaaaaaaaaaaa" (6 * 10 ^ 9) (6 * 10 ^ 9 + 1),
    .getSessionByUid "cccccccccc" (900 * 10 ^ 9), .updateSessionTimeout 1800,
    .getSessionByUid "cccccccccc" (3000 * 10 ^ 9)]

theorem sessions_expire_iff_sample :
    Guarded step Expires (readData defaults {} 0) sampleOps ∧
      (run step (readData defaults {} 0) sampleOps).map SessionStore.authTokens = some [] := by
  have hclock : MonotoneClock 0 sampleOps :=
    ⟨by simp [sampleOps, readings], by simp [sampleOps, readings]⟩
  refine ⟨(sessions_expire_iff defaults {} (by decide)).2 (by decide) 0 sampleOps hclock ?_,
    by decide +kernel⟩
  intro seconds hseconds
  obtain rfl : seconds = 1800 := by simpa [sampleOps] using hseconds
  rfl

theorem active_session_removed :
    let file : PersistentFile := { timeout := some 9223372037 }
    let ops : List Operation :=
      [.generateUserSession "user" "::1" none .timeout false (some sampleIdentifiers) (5 * 10 ^ 9),
        .applySessionTimeouts (7 * 10 ^ 9)]
    MonotoneClock 0 ops ∧ FixedTimeout (fileTimeout file) ops ∧
      ¬ Guarded step Expires (readData defaults file 0) ops ∧
        (run step (readData defaults file 0) ops).map SessionStore.authTokens = some [] := by
  intro file ops
  refine ⟨⟨by simp [ops, readings], by simp [ops, readings]⟩, by simp [FixedTimeout, ops], ?_,
    by decide +kernel⟩
  intro h
  let store := (readData defaults file 0).perform (.generateUserSession "user" "::1" none .timeout
    false (some sampleIdentifiers) (5 * 10 ^ 9))
  obtain ⟨-, hrest⟩ := h store rfl
  obtain ⟨hkeeps, -⟩ := hrest _ rfl
  have hempty : (store.applySessionTimeouts (7 * 10 ^ 9)).authTokens = [] := by decide +kernel
  have hkept := hkeeps ("aaaaaaaaaaaaaaaaaaaa", _) (List.mem_singleton.2 rfl) (by decide)
  rw [hempty] at hkept
  exact List.not_mem_nil hkept

end CrowCore.SessionExpiry
