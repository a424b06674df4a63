import CrowCore.SessionFiles

set_option autoImplicit false

/-!
# Sessions over the lifetimes of processes

One process after the other loads the persistent file, runs operations of the session
store and writes the file when it exits. To a client this is a table of sessions that
does not know of processes.
-/
namespace CrowCore.SessionLifetimes
open Sessions hiding readData destroyConfigFile
open GuardedRuns EventSubscriptions PersistentData PersistentRoundTrip SessionFiles
open DirtyFlag (Same FlagSound Noticed)

structure System (H : Type) where
  process : Option (Stores H) := none
  file : Option String := none

inductive Event where
  | boot (randomUUID : String) (now : ℤ)
  | perform (op : Operation)
  | exit (now : ℤ)
  | crash

section Processes
variable {H D : Type} (L : FieldsLibrary H) (T : JsonText D) (defaults : AuthConfigMethods)

/-- `~ConfigFile`: the file afterwards. -/
def destroyConfigFile (stores : Stores H) (file : Option String) (now : ℤ) : Option String :=
  let sessionStore := stores.sessionStore.applySessionTimeouts now
  if sessionStore.needWrite then some (writeData L T { stores with sessionStore }) else file

/-- A process that crashes leaves the file as it was last written. -/
def step (s : System H) : Event → Option (System H)
  | .boot randomUUID now =>
    if s.process.isSome then none
    else
      let (stores, file) := readData L T randomUUID now (freshStores H defaults) s.file
      some { process := some stores, file }
  | .perform op => s.process.map fun stores =>
    { s with process := some { stores with sessionStore := stores.sessionStore.perform op } }
  | .exit now => s.process.map fun stores =>
    { process := none, file := destroyConfigFile L T stores s.file now }
  | .crash => s.process.map fun _ => { s with process := none }

/-- What the event writes can be parsed. -/
def Parses (s : System H) : Event → Prop
  | .boot randomUUID now =>
    Undone L T (readData L T randomUUID now (freshStores H defaults) s.file).1
  | .exit now => ∀ stores, s.process = some stores →
    Undone L T { stores with sessionStore := stores.sessionStore.applySessionTimeouts now }
  | _ => True

end Processes

abbrev Entry := SavedSession × PersistenceType

def entry (session : UserSession) : Entry := (savedSession session, session.persistence)

namespace Event

def creates : Event → Set Entry
  | .perform (.generateUserSession username clientIp clientId persistence _ (some ids) _) =>
    {({ unique_id := ids.uniqueId, session_token := ids.sessionToken, username
        csrf_token := ids.csrfToken, client_ip := clientIp, client_id := clientId }, persistence)}
  | _ => ∅

def revokes : Event → Set Entry
  | .perform (.removeSession session) => {e | e.1.session_token = session.sessionToken}
  | .perform (.removeSessionsByUsername username) => {e | e.1.username = username}
  | _ => ∅

/-- Sessions for a single request end with their process. -/
def ends : Event → Set Entry
  | .exit _ => {e | e.2 = .singleRequest}
  | .crash => {e | e.2 = .singleRequest}
  | _ => ∅

end Event

def made (table : Set Entry) (event : Event) : Set Entry := (table ∪ event.creates) \ event.ends

def granted (table : Set Entry) (event : Event) : Set Entry := made table event \ event.revokes

def entriesOf (store : SessionStore) : Set Entry := {e | ∃ p ∈ store.authTokens, entry p.2 = e}

/-- The sessions that can be restored. -/
def entriesIn (data : StoreData) : Set Entry := {e | e.1 ∈ data.sessions ∧ e.2 = .timeout}

section Operations
variable {store : SessionStore}

def NoneExpires (store : SessionStore) (timeNow : ℤ) : Prop :=
  ∀ p ∈ store.authTokens, store.expired timeNow p.2 = false

theorem entriesIn_writeData (store : SessionStore) :
    entriesIn store.writeData = {e ∈ entriesOf store | e.2 = .timeout} := by
  ext ⟨session, persistence⟩
  constructor
  · rintro ⟨hmem, htimeout⟩
    obtain rfl : persistence = .timeout := htimeout
    obtain ⟨p, hp, hpersistence, rfl⟩ := mem_writeData_sessions.1 hmem
    exact ⟨⟨p, hp, congrArg (Prod.mk _) hpersistence⟩, rfl⟩
  · rintro ⟨⟨p, hp, heq⟩, htimeout⟩
    obtain ⟨rfl, rfl⟩ := Prod.mk.inj heq
    exact ⟨mem_writeData_sessions.2 ⟨p, hp, htimeout, rfl⟩, htimeout⟩

theorem entriesIn_congr {data data' : StoreData} (h : Same data data') :
    entriesIn data = entriesIn data' := by
  ext e
  exact and_congr_left fun _ => h.sessions_perm.mem_iff

theorem entriesOf_applySessionTimeouts_subset (store : SessionStore) (timeNow : ℤ) :
    entriesOf (store.applySessionTimeouts timeNow) ⊆ entriesOf store :=
  fun _ ⟨p, hp, heq⟩ => ⟨p, SessionExpiry.mem_applySessionTimeouts hp, heq⟩

theorem entriesOf_touch (store : SessionStore) (token : String) (now : ℤ) :
    entriesOf (store.touch token now) = entriesOf store := by
  have hentry : ∀ p : String × UserSession,
      entry (if p.1 = token then (p.1, { p.2 with lastUpdated := now }) else p).2 = entry p.2 := by
    intro p
    split_ifs <;> rfl
  ext e
  constructor
  · rintro ⟨q, hq, rfl⟩
    obtain ⟨p, hp, rfl⟩ := List.mem_map.1 hq
    exact ⟨p, hp, (hentry p).symm⟩
  · rintro ⟨p, hp, rfl⟩
    exact ⟨_, List.mem_map_of_mem hp, hentry p⟩

theorem entriesOf_login (store : SessionStore) (token : String) (timeNow now : ℤ) :
    entriesOf (store.loginSessionByToken token timeNow now).1 =
      entriesOf (store.applySessionTimeouts timeNow) := by
  unfold SessionStore.loginSessionByToken
  dsimp only
  split_ifs
  · rfl
  · split
    · rfl
    · exact entriesOf_touch ..

theorem entriesOf_filter {keep : String × UserSession → Bool} {removed : Set Entry}
    (hremoved : ∀ p ∈ store.authTokens, keep p = false ↔ entry p.2 ∈ removed)
    {store' : SessionStore} (hstore : store'.authTokens = store.authTokens.filter keep) :
    entriesOf store' = entriesOf store \ removed := by
  ext e
  rw [entriesOf, hstore]
  constructor
  · rintro ⟨p, hp, rfl⟩
    obtain ⟨hp, hkeep⟩ := List.mem_filter.1 hp
    refine ⟨⟨p, hp, rfl⟩, fun hmem => ?_⟩
    rw [(hremoved p hp).2 hmem] at hkeep
    cases hkeep
  · rintro ⟨⟨p, hp, rfl⟩, hmem⟩
    have hkeep : keep p = true := Bool.of_not_eq_false fun hkeep => hmem ((hremoved p hp).1 hkeep)
    exact ⟨p, List.mem_filter.2 ⟨hp, hkeep⟩, rfl⟩

theorem entriesOf_emplace_subset {token : String} {session : UserSession} {store' : SessionStore}
    (hstore : store'.authTokens = SessionStore.emplace store.authTokens token session) :
    entriesOf store' ⊆ entriesOf store ∪ {entry session} := by
  rintro e ⟨p, hp, rfl⟩
  rw [hstore] at hp
  rcases SessionExpiry.mem_emplace hp with hp | rfl
  · exact .inl ⟨p, hp, rfl⟩
  · exact .inr rfl

def Lasts (store : SessionStore) : Operation → Prop
  | .generateUserSession _ _ _ _ _ (some ids) _ =>
    ids.sessionToken ∉ store.authTokens.map Prod.fst
  | .loginSessionByToken _ timeNow _ => NoneExpires store timeNow
  | .getSessionByUid _ timeNow => NoneExpires store timeNow
  | .applySessionTimeouts timeNow => NoneExpires store timeNow
  | _ => True

theorem granted_creates {event : Event} (hends : event.ends = ∅) (hrevokes : event.revokes = ∅)
    (table : Set Entry) : granted table event = table ∪ event.creates := by
  rw [granted, made, hends, hrevokes, Set.sdiff_empty, Set.sdiff_empty]

theorem granted_revokes {event : Event} (hcreates : event.creates = ∅) (hends : event.ends = ∅)
    (table : Set Entry) : granted table event = table \ event.revokes := by
  rw [granted, made, hcreates, hends, Set.union_empty, Set.sdiff_empty]

theorem granted_quiet {event : Event} (hcreates : event.creates = ∅) (hends : event.ends = ∅)
    (hrevokes : event.revokes = ∅) (table : Set Entry) : granted table event = table := by
  rw [granted_revokes hcreates hends, hrevokes, Set.sdiff_empty]

theorem entriesOf_removeSession (hkeyed : Keyed store) (session : UserSession) :
    entriesOf (store.removeSession session) =
      entriesOf store \ {e | e.1.session_token = session.sessionToken} := by
  refine entriesOf_filter (fun p hp => ?_) rfl
  rw [decide_eq_false_iff_not, not_not, hkeyed.key_eq p hp]
  rfl

theorem entriesOf_removeSessionsByUsername (store : SessionStore) (username : String) :
    entriesOf (store.removeSessionsByUsername username) =
      entriesOf store \ {e | e.1.username = username} := by
  refine entriesOf_filter (fun p _ => ?_) rfl
  rw [decide_eq_false_iff_not, not_not]
  rfl

theorem entriesOf_perform_subset (hkeyed : Keyed store) (op : Operation) :
    entriesOf (store.perform op) ⊆ granted (entriesOf store) (.perform op) := by
  cases op with
  | generateUserSession username clientIp clientId persistence selfOnly generated now =>
    cases generated with
    | none => exact (granted_quiet rfl rfl rfl _).ge
    | some ids =>
      have hstore : (store.perform (.generateUserSession username clientIp clientId persistence
          selfOnly (some ids) now)).authTokens =
            SessionStore.emplace store.authTokens ids.sessionToken _ := rfl
      rw [granted_creates rfl rfl]
      exact entriesOf_emplace_subset hstore
  | loginSessionByToken token timeNow now =>
    rw [granted_quiet rfl rfl rfl]
    exact (entriesOf_login ..).le.trans (entriesOf_applySessionTimeouts_subset ..)
  | removeSession session =>
    rw [granted_revokes rfl rfl]
    exact (entriesOf_removeSession hkeyed session).le
  | removeSessionsByUsername username =>
    rw [granted_revokes rfl rfl]
    exact (entriesOf_removeSessionsByUsername store username).le
  | updateAuthMethodsConfig config => exact (granted_quiet rfl rfl rfl _).ge
  | updateSessionTimeout seconds => exact (granted_quiet rfl rfl rfl _).ge
  | getSessionByUid uid timeNow =>
    rw [granted_quiet rfl rfl rfl]
    exact entriesOf_applySessionTimeouts_subset ..
  | applySessionTimeouts timeNow =>
    rw [granted_quiet rfl rfl rfl]
    exact entriesOf_applySessionTimeouts_subset ..

end Operations

section Steps
variable {H D : Type} {L : FieldsLibrary H} {T : JsonText D} {defaults : AuthConfigMethods}
  {s s' : System H} {event : Event}

variable (L T defaults) in
inductive Steps (s : System H) : Event → System H → Prop where
  | boot (hprocess : s.process = none) (randomUUID : String) (now : ℤ) :
    Steps s (.boot randomUUID now)
      { process := some (readData L T randomUUID now (freshStores H defaults) s.file).1
        file := (readData L T randomUUID now (freshStores H defaults) s.file).2 }
  | perform {stores : Stores H} (hprocess : s.process = some stores) (op : Operation) :
    Steps s (.perform op)
      { s with process := some { stores with sessionStore := stores.sessionStore.perform op } }
  | exit {stores : Stores H} (hprocess : s.process = some stores) (now : ℤ) :
    Steps s (.exit now) { process := none, file := destroyConfigFile L T stores s.file now }
  | crash {stores : Stores H} (hprocess : s.process = some stores) :
    Steps s .crash { s with process := none }

theorem steps_of_step (h : step L T defaults s event = some s') :
    Steps L T defaults s event s' := by
  cases event with
  | boot randomUUID now =>
    obtain ⟨hrunning, h⟩ := Option.ite_none_left_eq_some.1 h
    obtain rfl := Option.some.inj h
    exact .boot (Option.not_isSome_iff_eq_none.1 hrunning) randomUUID now
  | perform op =>
    obtain ⟨stores, hprocess, rfl⟩ := Option.map_eq_some_iff.1 h
    exact .perform hprocess op
  | exit now =>
    obtain ⟨stores, hprocess, rfl⟩ := Option.map_eq_some_iff.1 h
    exact .exit hprocess now
  | crash =>
    obtain ⟨stores, hprocess, rfl⟩ := Option.map_eq_some_iff.1 h
    exact .crash hprocess

theorem sessionStore_readData (randomUUID : String) (now : ℤ) (file : Option String) :
    (readData L T randomUUID now (freshStores H defaults) file).1.sessionStore =
      (readItems L T now (freshStores H defaults) file).1.sessionStore := by
  unfold readData
  dsimp only
  split_ifs <;> rfl

theorem loaded_readData (randomUUID : String) (now : ℤ) (file : Option String) :
    Loaded (readData L T randomUUID now (freshStores H defaults) file).1.sessionStore := by
  rw [sessionStore_readData]
  exact loaded_readItems ..

theorem writeData_readData (randomUUID : String) (now : ℤ) (file : Option String) :
    (readData L T randomUUID now (freshStores H defaults) file).1.sessionStore.writeData =
      saved L T defaults file := by
  rw [sessionStore_readData]
  exact saved_eq ..

theorem saved_readData {randomUUID : String} {now : ℤ} {file : Option String}
    (h : Undone L T (readData L T randomUUID now (freshStores H defaults) file).1) :
    saved L T defaults (readData L T randomUUID now (freshStores H defaults) file).2 =
      saved L T defaults file := by
  have hfile : (readData L T randomUUID now (freshStores H defaults) file).2 = file ∨
      (readData L T randomUUID now (freshStores H defaults) file).2 =
        some (writeData L T (readData L T randomUUID now (freshStores H defaults) file).1) := by
    unfold readData
    dsimp only
    split_ifs
    · exact .inr rfl
    · exact .inr rfl
    · exact .inl rfl
    · exact .inl rfl
  cases hfile with
  | inl hkept => rw [hkept]
  | inr hwritten =>
    rw [hwritten, saved_written_loaded (loaded_readData ..) h]
    exact writeData_readData ..

theorem entriesOf_loaded {store : SessionStore} (h : Loaded store) :
    entriesOf store = entriesIn store.writeData := by
  rw [entriesIn_writeData]
  ext e
  refine ⟨?_, fun he => he.1⟩
  rintro ⟨p, hp, rfl⟩
  exact ⟨⟨p, hp, rfl⟩, h.persistence_eq p hp⟩

theorem entriesOf_readData (randomUUID : String) (now : ℤ) (file : Option String) :
    entriesOf (readData L T randomUUID now (freshStores H defaults) file).1.sessionStore =
      entriesIn (saved L T defaults file) := by
  rw [entriesOf_loaded (loaded_readData ..), writeData_readData]

theorem entriesIn_saved_written {stores : Stores H} (hkeyed : Keyed stores.sessionStore)
    (h : Undone L T stores) : entriesIn (saved L T defaults (some (writeData L T stores))) =
      {e | ∃ p ∈ stores.sessionStore.authTokens,
        CompleteSession p.2 ∧ p.2.persistence = .timeout ∧ entry p.2 = e} := by
  ext ⟨session, persistence⟩
  constructor
  · rintro ⟨hmem, htimeout⟩
    obtain rfl : persistence = .timeout := htimeout
    obtain ⟨p, hp, hcomplete, hpersistence, rfl⟩ := (mem_saved_written hkeyed h).1 hmem
    exact ⟨p, hp, hcomplete, hpersistence, congrArg (Prod.mk _) hpersistence⟩
  · rintro ⟨p, hp, hcomplete, hpersistence, heq⟩
    obtain ⟨rfl, rfl⟩ := Prod.mk.inj heq
    exact ⟨(mem_saved_written hkeyed h).2 ⟨p, hp, hcomplete, hpersistence, rfl⟩, hpersistence⟩

theorem timeout_iff {e : Entry} : e.2 = .timeout ↔ e.2 ≠ .singleRequest := by
  cases e.2 <;> decide

theorem made_of_creates {event : Event} (hcreates : event.creates = ∅) (table : Set Entry) :
    made table event = table \ event.ends := by
  rw [made, hcreates, Set.union_empty]

theorem made_boot (table : Set Entry) (randomUUID : String) (now : ℤ) :
    made table (.boot randomUUID now) = table := by
  rw [made_of_creates rfl]
  exact Set.sdiff_empty

theorem mem_made_exit {table : Set Entry} {now : ℤ} {e : Entry} :
    e ∈ made table (.exit now) ↔ e ∈ table ∧ e.2 = .timeout := by
  rw [made_of_creates rfl, timeout_iff]
  rfl

theorem mem_made_crash {table : Set Entry} {e : Entry} :
    e ∈ made table .crash ↔ e ∈ table ∧ e.2 = .timeout := by
  rw [made_of_creates rfl, timeout_iff]
  rfl

theorem granted_of_revokes {event : Event} (hrevokes : event.revokes = ∅) (table : Set Entry) :
    granted table event = made table event := by
  rw [granted, hrevokes, Set.sdiff_empty]

theorem made_mono {table table' : Set Entry} (h : table ⊆ table') (event : Event) :
    made table event ⊆ made table' event :=
  Set.sdiff_subset_sdiff_left (Set.union_subset_union_left _ h)

theorem granted_mono {table table' : Set Entry} (h : table ⊆ table') (event : Event) :
    granted table event ⊆ granted table' event :=
  Set.sdiff_subset_sdiff_left (made_mono h event)

theorem granted_subset_made (table : Set Entry) (event : Event) :
    granted table event ⊆ made table event := Set.sdiff_subset

theorem destroyConfigFile_cases (defaults : AuthConfigMethods) {stores : Stores H}
    (hkeyed : Keyed stores.sessionStore) (file : Option String) {now : ℤ}
    (h : Undone L T
      { stores with sessionStore := stores.sessionStore.applySessionTimeouts now }) :
    entriesIn (saved L T defaults (destroyConfigFile L T stores file now)) =
        {e | ∃ p ∈ (stores.sessionStore.applySessionTimeouts now).authTokens,
          CompleteSession p.2 ∧ p.2.persistence = .timeout ∧ entry p.2 = e} ∨
      (stores.sessionStore.applySessionTimeouts now).needWrite = false ∧
        destroyConfigFile L T stores file now = file := by
  unfold destroyConfigFile
  dsimp only
  split_ifs with hflag
  · exact .inl (entriesIn_saved_written (hkeyed.applySessionTimeouts now) h)
  · exact .inr ⟨Bool.eq_false_of_not_eq_true hflag, rfl⟩

end Steps

section Origin
variable {H D : Type} {L : FieldsLibrary H} {T : JsonText D} {defaults : AuthConfigMethods}
  {s s' : System H} {event : Event} {table : Set Entry}

variable (L T defaults) in
structure Known (s : System H) (table : Set Entry) : Prop where
  keyed : ∀ stores, s.process = some stores → Keyed stores.sessionStore
  process : ∀ stores, s.process = some stores → entriesOf stores.sessionStore ⊆ table
  file : entriesIn (saved L T defaults s.file) ⊆ table

theorem known_of_stopped (hprocess : s.process = none)
    (hfile : entriesIn (saved L T defaults s.file) ⊆ table) : Known L T defaults s table where
  keyed stores h := by
    rw [hprocess] at h
    cases h
  process stores h := by
    rw [hprocess] at h
    cases h
  file := hfile

theorem known_step (h : Known L T defaults s table) (hparses : Parses L T defaults s event)
    (hstep : step L T defaults s event = some s') : Known L T defaults s' (made table event) := by
  cases steps_of_step hstep with
  | boot hprocess randomUUID now =>
    rw [made_boot]
    refine ⟨?_, ?_, ?_⟩
    · rintro stores ⟨⟩
      exact (loaded_readData ..).keyed
    · rintro stores ⟨⟩
      exact (entriesOf_readData ..).le.trans h.file
    · rw [saved_readData hparses]
      exact h.file
  | perform hprocess op =>
    have hkeyed := h.keyed _ hprocess
    refine ⟨?_, ?_, ?_⟩
    · rintro stores ⟨⟩
      exact hkeyed.perform op
    · rintro stores ⟨⟩
      calc entriesOf (_ : SessionStore)
          ⊆ granted (entriesOf _) (.perform op) := entriesOf_perform_subset hkeyed op
        _ ⊆ granted table (.perform op) := granted_mono (h.process _ hprocess) _
        _ ⊆ made table (.perform op) := granted_subset_made ..
    · exact h.file.trans fun e he => ⟨.inl he, Set.notMem_empty e⟩
  | exit hprocess now =>
    refine known_of_stopped rfl fun e he => ?_
    have hdestroy := destroyConfigFile_cases defaults (h.keyed _ hprocess) s.file
      (hparses _ hprocess)
    refine mem_made_exit.2 ⟨?_, he.2⟩
    cases hdestroy with
    | inl hwritten =>
      obtain ⟨p, hp, -, -, rfl⟩ := hwritten ▸ he
      exact h.process _ hprocess ⟨p, SessionExpiry.mem_applySessionTimeouts hp, rfl⟩
    | inr hkept => exact h.file (hkept.2 ▸ he)
  | crash hprocess =>
    exact known_of_stopped rfl fun e he => mem_made_crash.2 ⟨h.file he, he.2⟩

variable (L T defaults) in
/-- The sessions that a client can use now, or could after a start. -/
def held (s : System H) : Set Entry :=
  match s.process with
  | some stores => entriesOf stores.sessionStore
  | none => entriesIn (saved L T defaults s.file)

/-- Whatever happens, crashes included, a session that is there was in the file at the
beginning or was created by an operation, with the user that this was given; and one for
a single request was created by an operation of this process. -/
theorem sessions_have_origin (file : Option String) {events : List Event}
    (h : Guarded (step L T defaults) (Parses L T defaults) { file } events)
    (hrun : run (step L T defaults) { file } events = some s) :
    held L T defaults s ∪ entriesIn (saved L T defaults s.file) ⊆
      events.foldl made (entriesIn (saved L T defaults file)) := by
  have hknown : Known L T defaults s (events.foldl made (entriesIn (saved L T defaults file))) :=
    simulated_of_guarded (fun _ _ _ _ => known_step) (known_of_stopped rfl subset_rfl) h hrun
  refine Set.union_subset ?_ hknown.file
  unfold held
  split
  · exact hknown.process _ ‹_›
  · exact hknown.file

end Origin

section Table
variable {H D : Type} {L : FieldsLibrary H} {T : JsonText D} {defaults : AuthConfigMethods}
  {s s' : System H} {event : Event} {table : Set Entry}

variable (L T defaults) in
/-- No process crashes, and its flag can be trusted. -/
def Orderly (s : System H) (event : Event) : Prop :=
  Parses L T defaults s event ∧ event ≠ .crash ∧ ∀ op, event = .perform op →
    ∀ stores, s.process = some stores →
      Noticed (saved L T defaults s.file) stores.sessionStore op

variable (L T defaults) in
structure Tracks (s : System H) : Prop where
  keyed : ∀ stores, s.process = some stores → Keyed stores.sessionStore
  flagSound : ∀ stores, s.process = some stores →
    FlagSound (saved L T defaults s.file) stores.sessionStore

theorem tracks_of_stopped (hprocess : s.process = none) : Tracks L T defaults s where
  keyed stores h := by
    rw [hprocess] at h
    cases h
  flagSound stores h := by
    rw [hprocess] at h
    cases h

theorem tracks_step (h : Tracks L T defaults s) (horderly : Orderly L T defaults s event)
    (hstep : step L T defaults s event = some s') : Tracks L T defaults s' := by
  cases steps_of_step hstep with
  | boot hprocess randomUUID now =>
    refine ⟨?_, ?_⟩
    · rintro stores ⟨⟩
      exact (loaded_readData ..).keyed
    · rintro stores ⟨⟩ hdiffers
      refine absurd ?_ hdiffers
      rw [saved_readData horderly.1, writeData_readData]
      exact Same.refl _
  | perform hprocess op =>
    have hnoticed := horderly.2.2 op rfl _ hprocess
    refine ⟨?_, ?_⟩
    · rintro stores ⟨⟩
      exact (h.keyed _ hprocess).perform op
    · rintro stores ⟨⟩
      exact (DirtyFlag.flagSound_perform_iff (h.flagSound _ hprocess) op).2 hnoticed
  | exit hprocess now => exact tracks_of_stopped rfl
  | crash hprocess => exact absurd rfl horderly.2.1

theorem entriesIn_destroyConfigFile {stores : Stores H} {file : Option String} {now : ℤ}
    (hkeyed : Keyed stores.sessionStore)
    (hsound : FlagSound (saved L T defaults file) stores.sessionStore)
    (hundone : Undone L T
      { stores with sessionStore := stores.sessionStore.applySessionTimeouts now }) :
    entriesIn (saved L T defaults (destroyConfigFile L T stores file now)) =
        {e | ∃ p ∈ (stores.sessionStore.applySessionTimeouts now).authTokens,
          CompleteSession p.2 ∧ p.2.persistence = .timeout ∧ entry p.2 = e} ∨
      entriesIn (saved L T defaults (destroyConfigFile L T stores file now)) =
        {e ∈ entriesOf (stores.sessionStore.applySessionTimeouts now) | e.2 = .timeout} := by
  refine (destroyConfigFile_cases defaults hkeyed file hundone).imp_right ?_
  rintro ⟨hflag, hkept⟩
  have hsame : Same (stores.sessionStore.applySessionTimeouts now).writeData
      (saved L T defaults file) := by
    by_contra hdiffers
    have hneeded := DirtyFlag.flagSound_applySessionTimeouts hsound now hdiffers
    rw [hflag] at hneeded
    cases hneeded
  rw [hkept, ← entriesIn_congr hsame, entriesIn_writeData]

theorem entriesIn_destroyConfigFile_subset {stores : Stores H} {file : Option String} {now : ℤ}
    (hkeyed : Keyed stores.sessionStore)
    (hsound : FlagSound (saved L T defaults file) stores.sessionStore)
    (hundone : Undone L T
      { stores with sessionStore := stores.sessionStore.applySessionTimeouts now }) :
    entriesIn (saved L T defaults (destroyConfigFile L T stores file now)) ⊆
      {e ∈ entriesOf (stores.sessionStore.applySessionTimeouts now) | e.2 = .timeout} := by
  obtain hwritten | hkept := entriesIn_destroyConfigFile hkeyed hsound hundone
  · rw [hwritten]
    rintro e ⟨p, hp, -, hpersistence, rfl⟩
    exact ⟨⟨p, hp, rfl⟩, hpersistence⟩
  · exact hkept.le

theorem held_step (h : Tracks L T defaults s) (horderly : Orderly L T defaults s event)
    (hstep : step L T defaults s event = some s') :
    held L T defaults s' ⊆ granted (held L T defaults s) event := by
  cases steps_of_step hstep with
  | boot hprocess randomUUID now =>
    rw [granted_of_revokes rfl, made_boot, held, held, hprocess]
    exact (entriesOf_readData ..).le
  | @perform stores hprocess op =>
    have hheld : held L T defaults s = entriesOf stores.sessionStore := by rw [held, hprocess]
    rw [hheld]
    exact entriesOf_perform_subset (h.keyed _ hprocess) op
  | @exit stores hprocess now =>
    have hheld : held L T defaults s = entriesOf stores.sessionStore := by rw [held, hprocess]
    rw [hheld, granted_of_revokes rfl]
    intro e he
    have hsaved := entriesIn_destroyConfigFile_subset (h.keyed _ hprocess)
      (h.flagSound _ hprocess) (horderly.1 _ hprocess) he
    exact mem_made_exit.2 ⟨entriesOf_applySessionTimeouts_subset _ _ hsaved.1, hsaved.2⟩
  | crash hprocess => exact absurd rfl horderly.2.1

theorem held_run (file : Option String) {events : List Event}
    (h : Guarded (step L T defaults) (Orderly L T defaults) { file } events)
    (hrun : run (step L T defaults) { file } events = some s) : Tracks L T defaults s ∧
      held L T defaults s ⊆ events.foldl granted (entriesIn (saved L T defaults file)) := by
  refine simulated_of_guarded (R := fun s table => Tracks L T defaults s ∧
    held L T defaults s ⊆ table) ?_ ⟨tracks_of_stopped rfl, subset_rfl⟩ h hrun
  rintro s event s' table ⟨htracks, htable⟩ horderly hstep
  exact ⟨tracks_step htracks horderly hstep,
    (held_step htracks horderly hstep).trans (granted_mono htable event)⟩

theorem login_sound {store : SessionStore} (hkeyed : Keyed store) {token : String}
    {timeNow now : ℤ} {session : UserSession}
    (h : (store.loginSessionByToken token timeNow now).2 = some session) :
    session.sessionToken = token ∧ entry session ∈ entriesOf store := by
  unfold SessionStore.loginSessionByToken at h
  dsimp only at h
  split_ifs at h
  cases hfind : (store.applySessionTimeouts timeNow).authTokens.lookup token with
  | none => simp [hfind] at h
  | some userSession =>
    have hmem := SessionExpiry.mem_applySessionTimeouts (SessionExpiry.mem_of_lookup hfind)
    simp only [hfind, Option.some.injEq] at h
    subst h
    exact ⟨(hkeyed.key_eq _ hmem).symm, _, hmem, rfl⟩

/-- While no process crashes, a session that was revoked is gone for all later
processes: who logs in has a session that was created and not revoked since. -/
theorem logins_granted (file : Option String) {events : List Event}
    (h : Guarded (step L T defaults) (Orderly L T defaults) { file } events)
    (hrun : run (step L T defaults) { file } events = some s) :
    let table := events.foldl granted (entriesIn (saved L T defaults file))
    held L T defaults s ⊆ table ∧ ∀ stores, s.process = some stores →
      ∀ token timeNow now session,
        (stores.sessionStore.loginSessionByToken token timeNow now).2 = some session →
          session.sessionToken = token ∧ entry session ∈ table := by
  obtain ⟨htracks, hheld⟩ := held_run file h hrun
  refine ⟨hheld, fun stores hprocess token timeNow now session hlogin => ?_⟩
  obtain ⟨htoken, hmem⟩ := login_sound (htracks.keyed stores hprocess) hlogin
  rw [held, hprocess] at hheld
  exact ⟨htoken, hheld hmem⟩

/-- The saved ones of these sessions are accepted when they are read. -/
def Restores (table : Set Entry) : Prop :=
  ∀ e ∈ table, e.2 = .timeout →
    e.1.unique_id ≠ "" ∧ e.1.session_token ≠ "" ∧ e.1.username ≠ "" ∧ e.1.csrf_token ≠ ""

variable (L T defaults) in
/-- No session expires either, and the new ones can be restored. -/
def Lasting (s : System H) (event : Event) : Prop :=
  Orderly L T defaults s event ∧ Restores event.creates ∧
    ∀ stores, s.process = some stores →
      (∀ op, event = .perform op → Lasts stores.sessionStore op) ∧
        ∀ now, event = .exit now → NoneExpires stores.sessionStore now

theorem restores_empty : Restores ∅ := fun e he => (Set.notMem_empty e he).elim

theorem lasting_boot (hprocess : s.process = none) {randomUUID : String} {now : ℤ}
    (h : Undone L T (readData L T randomUUID now (freshStores H defaults) s.file).1) :
    Lasting L T defaults s (.boot randomUUID now) := by
  refine ⟨⟨h, nofun, fun op hop => by cases hop⟩, restores_empty, fun stores hstores => ?_⟩
  rw [hprocess] at hstores
  cases hstores

theorem lasting_perform {stores : Stores H} (hprocess : s.process = some stores) {op : Operation}
    (hnoticed : Noticed (saved L T defaults s.file) stores.sessionStore op)
    (hrestores : Restores (Event.perform op).creates) (hlasts : Lasts stores.sessionStore op) :
    Lasting L T defaults s (.perform op) := by
  refine ⟨⟨trivial, nofun, ?_⟩, hrestores, ?_⟩
  · rintro _ ⟨⟩ stores' hstores
    obtain rfl := Option.some.inj (hprocess.symm.trans hstores)
    exact hnoticed
  · intro stores' hstores
    obtain rfl := Option.some.inj (hprocess.symm.trans hstores)
    refine ⟨?_, fun now hnow => by cases hnow⟩
    rintro _ ⟨⟩
    exact hlasts

theorem lasting_exit {stores : Stores H} (hprocess : s.process = some stores) {now : ℤ}
    (h : Undone L T
      { stores with sessionStore := stores.sessionStore.applySessionTimeouts now })
    (hnone : NoneExpires stores.sessionStore now) : Lasting L T defaults s (.exit now) := by
  refine ⟨⟨?_, nofun, fun op hop => by cases hop⟩, restores_empty, ?_⟩
  · intro stores' hstores
    obtain rfl := Option.some.inj (hprocess.symm.trans hstores)
    exact h
  · intro stores' hstores
    obtain rfl := Option.some.inj (hprocess.symm.trans hstores)
    refine ⟨fun op hop => (by cases hop), ?_⟩
    rintro _ ⟨⟩
    exact hnone

end Table

def storesOf (authTokens : List (String × UserSession)) : Stores (List (String × String)) where
  systemUuid := "0c9ab7be"
  sessionStore := { authTokens, authMethodsConfig := sampleAuthConfig }

def sampleSession : UserSession :=
  { uniqueId := "9876543210", sessionToken := "0123456789abcdefghij", username := "root"
    csrfToken := "ABCDEFGHIJ0123456789", clientIp := "::1", lastUpdated := 5 }

def sampleText : JsonText Unit where
  dump
    | .object members =>
      match members.lookup "sessions" with
      | some (.array []) => "empty"
      | _ => "full"
    | _ => ""
  parse text :=
    if text = "full" then
      JsonValue.reread (data listFields (storesOf [("0123456789abcdefghij", sampleSession)]))
    else JsonValue.reread (data listFields (storesOf []))

def bootSample : Event := .boot "0c9ab7be" 0

def generateSample : Event :=
  .perform (.generateUserSession "root" "::1" none .timeout false
    (some DirtyFlag.sampleIdentifiers) 5)

def keptEvents : List Event := [bootSample, generateSample, .exit 10, bootSample]

def sampleEvents : List Event :=
  keptEvents ++ [.perform (.removeSession sampleSession), .exit 10, bootSample]

theorem lasting_sample :
    Guarded (step listFields sampleText sampleAuthConfig)
      (Lasting listFields sampleText sampleAuthConfig) {} sampleEvents := by
  have hrestores : Restores generateSample.creates := by
    rintro e rfl -
    decide
  intro s₁ h₁
  obtain rfl := Option.some.inj h₁
  refine ⟨lasting_boot rfl rfl, fun s₂ h₂ => ?_⟩
  obtain rfl := Option.some.inj h₂
  refine ⟨lasting_perform rfl ?_ hrestores ?_, fun s₃ h₃ => ?_⟩
  · trivial
  · exact List.not_mem_nil
  obtain rfl := Option.some.inj h₃
  refine ⟨lasting_exit rfl ?_ ?_, fun s₄ h₄ => ?_⟩
  · rfl
  · unfold NoneExpires
    decide +kernel
  obtain rfl := Option.some.inj h₄
  refine ⟨lasting_boot rfl rfl, fun s₅ h₅ => ?_⟩
  obtain rfl := Option.some.inj h₅
  refine ⟨lasting_perform rfl ?_ restores_empty ?_, fun s₆ h₆ => ?_⟩
  · trivial
  · trivial
  obtain rfl := Option.some.inj h₆
  refine ⟨lasting_exit rfl ?_ ?_, fun s₇ h₇ => ?_⟩
  · rfl
  · unfold NoneExpires
    decide +kernel
  obtain rfl := Option.some.inj h₇
  exact ⟨lasting_boot rfl rfl, trivial⟩

theorem logins_granted_sample : ∃ s,
    run (step listFields sampleText sampleAuthConfig) {} sampleEvents = some s ∧
      let table := sampleEvents.foldl granted
        (entriesIn (saved listFields sampleText sampleAuthConfig none))
      held listFields sampleText sampleAuthConfig s ⊆ table ∧
        ∀ stores, s.process = some stores → ∀ token timeNow now session,
          (stores.sessionStore.loginSessionByToken token timeNow now).2 = some session →
            session.sessionToken = token ∧ entry session ∈ table :=
  ⟨_, rfl, logins_granted none (lasting_sample.mono fun _ _ h => h.1) rfl⟩

def crashEvents : List Event := [bootSample, generateSample, .crash, bootSample]

theorem parses_crash : Guarded (step listFields sampleText sampleAuthConfig)
    (Parses listFields sampleText sampleAuthConfig) {} crashEvents := by
  intro s₁ h₁
  obtain rfl := Option.some.inj h₁
  refine ⟨rfl, fun s₂ h₂ => ⟨trivial, fun s₃ h₃ => ⟨trivial, fun s₄ h₄ => ?_⟩⟩⟩
  obtain rfl := Option.some.inj h₂
  obtain rfl := Option.some.inj h₃
  exact ⟨rfl, trivial⟩

theorem sessions_have_origin_sample : ∃ s,
    run (step listFields sampleText sampleAuthConfig) {} crashEvents = some s ∧
      held listFields sampleText sampleAuthConfig s ∪
          entriesIn (saved listFields sampleText sampleAuthConfig s.file) ⊆
        crashEvents.foldl made
          (entriesIn (saved listFields sampleText sampleAuthConfig none)) :=
  ⟨_, rfl, sessions_have_origin none parses_crash rfl⟩

end CrowCore.SessionLifetimes
