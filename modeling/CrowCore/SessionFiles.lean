import CrowCore.DirtyFlag
import CrowCore.PersistentRoundTrip
import CrowCore.SessionExpiry

set_option autoImplicit false

/-!
# Sessions in the persistent file

The sessions that a process would read from a file: whatever the file holds they are
well formed, and from what a store has written they are its complete sessions.
-/
namespace CrowCore.SessionFiles
open JsonValue Sessions EventSubscriptions PersistentData PersistentRoundTrip

variable {H D : Type} {L : FieldsLibrary H}

instance (session : UserSession) : Decidable (CompleteSession session) :=
  decidable_of_iff (session.uniqueId ≠ "" ∧ session.sessionToken ≠ "" ∧ session.username ≠ "" ∧
      session.csrfToken ≠ "")
    ⟨fun h => ⟨h.1, h.2.1, h.2.2.1, h.2.2.2⟩,
      fun h => ⟨h.uniqueId, h.sessionToken, h.username, h.csrfToken⟩⟩

structure Loaded (store : SessionStore) : Prop where
  keyed : Keyed store
  complete : ∀ p ∈ store.authTokens, CompleteSession p.2
  persistence_eq : ∀ p ∈ store.authTokens, p.2.persistence = .timeout
  timeout_fits : -2 ^ 63 ≤ store.timeoutInSeconds ∧ store.timeoutInSeconds < 2 ^ 63

theorem fromJson_eq_some {elem : List (String × String)} {now : ℤ} {session : UserSession}
    (h : UserSession.fromJson elem now = some session) :
    CompleteSession session ∧ session.persistence = .timeout := by
  unfold UserSession.fromJson at h
  dsimp only at h
  split_ifs at h with hempty
  obtain rfl := Option.some.inj h
  simp only [Bool.or_eq_true, String.isEmpty_iff, not_or] at hempty
  obtain ⟨⟨⟨huniqueId, husername⟩, hsessionToken⟩, hcsrfToken⟩ := hempty
  exact ⟨⟨huniqueId, hsessionToken, husername, hcsrfToken⟩, rfl⟩

theorem loaded_restoreSession {store : SessionStore} (h : Loaded store) (now : ℤ)
    (elem : List (String × String)) : Loaded (restoreSession now store elem) := by
  unfold restoreSession
  cases hsession : UserSession.fromJson elem now with
  | none => exact h
  | some session =>
    obtain ⟨hcomplete, hpersistence⟩ := fromJson_eq_some hsession
    refine ⟨h.keyed.emplace rfl rfl, fun p hp => ?_, fun p hp => ?_, h.timeout_fits⟩
    · rcases SessionExpiry.mem_emplace hp with hp | hp
      · exact h.complete p hp
      · exact hp ▸ hcomplete
    · rcases SessionExpiry.mem_emplace hp with hp | hp
      · exact h.persistence_eq p hp
      · exact hp ▸ hpersistence

theorem loaded_foldl {store : SessionStore} (h : Loaded store) (now : ℤ)
    (elems : List (String × Json String D)) : Loaded (elems.foldl
      (fun store elem => restoreSession now store (stringMembers elem.2)) store) := by
  induction elems generalizing store with
  | nil => exact h
  | cons elem elems ih => exact ih (loaded_restoreSession h now _)

theorem loaded_readItem {s : Stores H × UInt64} (h : Loaded s.1.sessionStore) (now : ℤ)
    (item : String × Json String D) : Loaded (readItem L now s item).1.sessionStore := by
  unfold readItem
  dsimp only
  split_ifs
  · exact h
  · exact h
  · exact ⟨h.keyed.congr rfl, h.complete, h.persistence_eq, h.timeout_fits⟩
  · exact loaded_foldl h now _
  · cases hint : item.2.getInt64 with
    | none => exact h
    | some jTimeout =>
      exact ⟨h.keyed.congr rfl, h.complete, h.persistence_eq, jTimeout.le_toInt, jTimeout.toInt_lt⟩
  · exact h
  · exact h
  · exact h

theorem loaded_freshStores (defaults : AuthConfigMethods) :
    Loaded (freshStores H defaults).sessionStore where
  keyed := ⟨nofun, List.nodup_nil⟩
  complete := nofun
  persistence_eq := nofun
  timeout_fits := by
    change -2 ^ 63 ≤ (1800 : ℤ) ∧ (1800 : ℤ) < 2 ^ 63
    decide

theorem exists_items (L : FieldsLibrary H) (T : JsonText D) (file : Option String) :
    ∃ items : List (String × Json String D), ∀ (now : ℤ) (stores : Stores H),
      readItems L T now stores file = items.foldl (readItem L now) (stores, 0) := by
  cases file with
  | none => exact ⟨[], fun now stores => rfl⟩
  | some text =>
    by_cases hdata : T.parse text = .discarded
    · refine ⟨[], fun now stores => ?_⟩
      rw [readItems, hdata]
      rfl
    · refine ⟨(T.parse text).items, fun now stores => ?_⟩
      rw [readItems]
      split
      · contradiction
      · rfl

theorem loaded_foldl_readItem (now : ℤ) (items : List (String × Json String D))
    {s : Stores H × UInt64} (h : Loaded s.1.sessionStore) :
    Loaded (items.foldl (readItem L now) s).1.sessionStore := by
  induction items generalizing s with
  | nil => exact h
  | cons item items ih => exact ih (loaded_readItem h now item)

theorem loaded_readItems (T : JsonText D) (now : ℤ) (defaults : AuthConfigMethods)
    (file : Option String) :
    Loaded (readItems L T now (freshStores H defaults) file).1.sessionStore := by
  obtain ⟨items, hitems⟩ := exists_items L T file
  rw [hitems]
  exact loaded_foldl_readItem now items (loaded_freshStores defaults)

/-- The store with no reading of the clock in its sessions. -/
def timeless (store : SessionStore) : SessionStore :=
  { store with
    authTokens := store.authTokens.map fun p => (p.1, { p.2 with lastUpdated := 0 }) }

theorem writeData_timeless (store : SessionStore) :
    (timeless store).writeData = store.writeData := by
  simp only [SessionStore.writeData, timeless, List.filterMap_map]
  rfl

theorem timeless_restoreSession (now : ℤ) (store : SessionStore) (elem : List (String × String)) :
    timeless (restoreSession now store elem) = restoreSession 0 (timeless store) elem := by
  unfold restoreSession UserSession.fromJson
  dsimp only
  split_ifs
  · rfl
  · simp only [timeless, SessionStore.emplace, List.any_map, Function.comp_def]
    split_ifs
    · rfl
    · rw [List.map_append]
      rfl

theorem timeless_foldl (now : ℤ) (elems : List (String × Json String D)) (store : SessionStore) :
    timeless (elems.foldl
        (fun store elem => restoreSession now store (stringMembers elem.2)) store) =
      elems.foldl (fun store elem => restoreSession 0 store (stringMembers elem.2))
        (timeless store) := by
  induction elems generalizing store with
  | nil => rfl
  | cons elem elems ih => rw [List.foldl_cons, ih, timeless_restoreSession, List.foldl_cons]

def timelessStores (s : Stores H × UInt64) : Stores H × UInt64 :=
  ({ s.1 with sessionStore := timeless s.1.sessionStore }, s.2)

theorem timeless_readItem (now : ℤ) (s : Stores H × UInt64) (item : String × Json String D) :
    timelessStores (readItem L now s item) = readItem L 0 (timelessStores s) item := by
  unfold readItem
  dsimp only [timelessStores]
  split_ifs
  · rfl
  · rfl
  · rfl
  · rw [timeless_foldl]
  · cases item.2.getInt64 <;> rfl
  · rfl
  · rfl
  · rfl

theorem timeless_foldl_readItem (now : ℤ) (items : List (String × Json String D))
    (s : Stores H × UInt64) : timelessStores (items.foldl (readItem L now) s) =
      items.foldl (readItem L 0) (timelessStores s) := by
  induction items generalizing s with
  | nil => rfl
  | cons item items ih => rw [List.foldl_cons, ih, timeless_readItem, List.foldl_cons]

variable (L) in
/-- The data that a process reads from the file when it starts. -/
def saved (T : JsonText D) (defaults : AuthConfigMethods) (file : Option String) : StoreData :=
  (readItems L T 0 (freshStores H defaults) file).1.sessionStore.writeData

theorem saved_eq (T : JsonText D) (now : ℤ) (defaults : AuthConfigMethods) (file : Option String) :
    (readItems L T now (freshStores H defaults) file).1.sessionStore.writeData =
      saved L T defaults file := by
  obtain ⟨items, hitems⟩ := exists_items L T file
  have htimeless := timeless_foldl_readItem (L := L) now items (freshStores H defaults, 0)
  have hfresh : timelessStores (freshStores H defaults, (0 : UInt64)) =
      (freshStores H defaults, 0) := rfl
  rw [saved, hitems, hitems, ← writeData_timeless]
  rw [hfresh] at htimeless
  rw [← htimeless]
  rfl

variable (L) in
/-- Parsing undoes dumping on the document of the stores. -/
def Undone (T : JsonText D) (stores : Stores H) : Prop :=
  T.parse (writeData L T stores) = reread (data L stores)

def comesBack (session : UserSession) : Bool :=
  decide (CompleteSession session) && persistsSession session

theorem foldl_readMember (session : UserSession) :
    (stringMembers (reread (sessionJson (savedSession session) : Json String D))).foldl
      UserSession.readMember {} = restoredSession 0 session := by
  cases hclientId : session.clientId <;>
    simp [stringMembers, sessionJson, savedSession, reread, rereadMembers, Json.items,
      Json.getString, UserSession.readMember, restoredSession, hclientId]

theorem restoreSession_incomplete {session : UserSession} (h : ¬ CompleteSession session) (now : ℤ)
    (store : SessionStore) :
    restoreSession now store
      (stringMembers (reread (sessionJson (savedSession session) : Json String D))) = store := by
  have hnone : UserSession.fromJson
      (stringMembers (reread (sessionJson (savedSession session) : Json String D))) now = none := by
    rw [UserSession.fromJson, foldl_readMember]
    refine if_pos (Classical.byContradiction fun hfilled => h ?_)
    simp only [restoredSession, Bool.or_eq_true, String.isEmpty_iff, not_or] at hfilled
    obtain ⟨⟨⟨huniqueId, husername⟩, hsessionToken⟩, hcsrfToken⟩ := hfilled
    exact ⟨huniqueId, hsessionToken, husername, hcsrfToken⟩
  rw [restoreSession, hnone]

theorem foldl_restoreSession_complete (now : ℤ) (sessions : List UserSession)
    (store : SessionStore) :
    sessions.foldl (fun store session => restoreSession now store
        (stringMembers (reread (sessionJson (savedSession session) : Json String D)))) store =
      { store with
        authTokens := (sessions.filter fun session => CompleteSession session).foldl
          (fun authTokens session =>
            emplace authTokens session.sessionToken (restoredSession now session))
          store.authTokens } := by
  have hcomplete : ∀ session ∈ sessions.filter fun session => CompleteSession session,
      CompleteSession session := fun session hsession =>
    of_decide_eq_true (List.mem_filter.1 hsession).2
  rw [← foldl_restoreSession (D := D) now _ hcomplete, List.foldl_filter]
  congr 1
  funext store session
  by_cases h : CompleteSession session
  · rw [decide_eq_true h, if_pos rfl]
  · rw [decide_eq_false h, if_neg Bool.false_ne_true, restoreSession_incomplete h]

theorem saved_written {T : JsonText D} {stores : Stores H} (hkeyed : Keyed stores.sessionStore)
    (h : Undone L T stores) (defaults : AuthConfigMethods) :
    saved L T defaults (some (writeData L T stores)) =
      { authConfig := stores.sessionStore.authMethodsConfig
        timeout := (Int64.ofInt stores.sessionStore.timeoutInSeconds).toInt
        sessions := ((stores.sessionStore.authTokens.map Prod.snd).filter comesBack).map
          savedSession } := by
  have hread : (readItems L T 0 (freshStores H defaults)
      (some (writeData L T stores))).1.sessionStore =
        { authTokens := (stores.sessionStore.authTokens.filter fun p => comesBack p.2).map
            fun p => (p.1, restoredSession 0 p.2)
          needWrite := true
          timeoutInSeconds := (Int64.ofInt stores.sessionStore.timeoutInSeconds).toInt
          authMethodsConfig := stores.sessionStore.authMethodsConfig } := by
    have hitems : readItems L T 0 (freshStores H defaults) (some (writeData L T stores)) =
        (reread (data L stores : Json String D)).items.foldl (readItem L 0)
          (freshStores H defaults, 0) := by
      rw [readItems, h]
      rfl
    rw [hitems, data, items_reread_object, writeData_sessions]
    simp only [SessionStore.writeData, List.map_cons, List.map_nil, List.foldl_cons,
      List.foldl_nil, readItem, freshStores, String.reduceEq, if_true, if_false, getString_reread,
      getUint64_reread, getInt64_reread, fromJson_authConfig,
      foldl_items_reread_array fun store elem => restoreSession 0 store (stringMembers elem),
      List.foldl_map, foldl_restoreSession_complete, SessionStore.updateSessionTimeout,
      List.filter_filter]
    rw [foldl_emplace_kept hkeyed.nodup hkeyed.key_eq]
    rfl
  have hsaved : ∀ p ∈ stores.sessionStore.authTokens.filter fun p => comesBack p.2,
      saveSession (restoredSession 0 p.2) = some (savedSession p.2) := fun p _ => rfl
  rw [saved, hread, SessionStore.writeData, List.filterMap_map, List.filter_map, List.map_map]
  congr 1
  rw [← List.filterMap_eq_map]
  exact List.filterMap_congr hsaved

theorem persistsSession_iff {session : UserSession} :
    persistsSession session = true ↔ session.persistence = .timeout := by
  cases h : session.persistence <;> simp [persistsSession, h]

theorem mem_writeData_sessions {store : SessionStore} {session : SavedSession} :
    session ∈ store.writeData.sessions ↔
      ∃ p ∈ store.authTokens, p.2.persistence = .timeout ∧ savedSession p.2 = session := by
  rw [writeData_sessions, List.mem_map]
  constructor
  · rintro ⟨userSession, hmem, rfl⟩
    obtain ⟨hmem, hpersists⟩ := List.mem_filter.1 hmem
    obtain ⟨p, hp, rfl⟩ := List.mem_map.1 hmem
    exact ⟨p, hp, persistsSession_iff.1 hpersists, rfl⟩
  · rintro ⟨p, hp, hpersistence, rfl⟩
    have hpersists := persistsSession_iff.2 hpersistence
    exact ⟨p.2, List.mem_filter.2 ⟨List.mem_map_of_mem hp, hpersists⟩, rfl⟩

theorem mem_saved_written {T : JsonText D} {stores : Stores H} (hkeyed : Keyed stores.sessionStore)
    (h : Undone L T stores) {defaults : AuthConfigMethods} {session : SavedSession} :
    session ∈ (saved L T defaults (some (writeData L T stores))).sessions ↔
      ∃ p ∈ stores.sessionStore.authTokens, CompleteSession p.2 ∧ p.2.persistence = .timeout ∧
        savedSession p.2 = session := by
  rw [saved_written hkeyed h, List.mem_map]
  constructor
  · rintro ⟨userSession, hmem, rfl⟩
    obtain ⟨hmem, hback⟩ := List.mem_filter.1 hmem
    obtain ⟨p, hp, rfl⟩ := List.mem_map.1 hmem
    rw [comesBack, Bool.and_eq_true, decide_eq_true_iff, persistsSession_iff] at hback
    exact ⟨p, hp, hback.1, hback.2, rfl⟩
  · rintro ⟨p, hp, hcomplete, hpersistence, rfl⟩
    have hback : comesBack p.2 = true := by
      rw [comesBack, decide_eq_true hcomplete, persistsSession_iff.2 hpersistence]
      rfl
    exact ⟨p.2, List.mem_filter.2 ⟨List.mem_map_of_mem hp, hback⟩, rfl⟩

theorem saved_written_loaded {T : JsonText D} {stores : Stores H}
    (hloaded : Loaded stores.sessionStore) (h : Undone L T stores) (defaults : AuthConfigMethods) :
    saved L T defaults (some (writeData L T stores)) = stores.sessionStore.writeData := by
  have hback : (stores.sessionStore.authTokens.map Prod.snd).filter comesBack =
      (stores.sessionStore.authTokens.map Prod.snd).filter persistsSession := by
    refine List.filter_congr fun session hmem => ?_
    obtain ⟨p, hp, rfl⟩ := List.mem_map.1 hmem
    rw [comesBack, decide_eq_true (hloaded.complete p hp), Bool.true_and]
  rw [saved_written hloaded.keyed h, hback, ← writeData_sessions,
    Int64.toInt_ofInt_of_le hloaded.timeout_fits.1 hloaded.timeout_fits.2]
  rfl

end CrowCore.SessionFiles
