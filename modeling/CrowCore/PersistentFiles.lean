import CrowCore.SessionFiles

set_option autoImplicit false

/-!
# Any persistent file

A process may find any file, from an earlier revision, edited or damaged. What it reads is
well formed all the same, and the file that it writes afterwards comes back unchanged.
-/
namespace CrowCore.PersistentFiles
open JsonValue EventSubscriptions PersistentData PersistentRoundTrip SessionFiles
open Sessions hiding readData destroyConfigFile

variable {H D : Type} {L : FieldsLibrary H}

section Members
variable {α : Type}

end Members

/-- `set` leaves one field of a name. -/
def KeepsApart (L : FieldsLibrary H) : Prop :=
  ∀ (fields : H) (name value : String), NamesApart (L.elements fields) →
    NamesApart (L.elements (L.set fields name value))

theorem apart_readHeaders (hset : KeepsApart L) {fields : H} (h : NamesApart (L.elements fields))
    (obj : Json String D) : NamesApart (L.elements (readHeaders L obj fields)) := by
  refine List.foldlRecOn (motive := fun fields => NamesApart (L.elements fields)) obj.items _ h
    fun fields h val _ => ?_
  cases val.2.getString with
  | none => exact h
  | some value => exact hset fields val.1 value h

theorem apart_readMember (hset : KeepsApart L) {subvalue : UserSubscription H}
    (h : NamesApart (L.elements subvalue.httpHeaders)) (element : String × Json String D) :
    NamesApart (L.elements (subvalue.readMember L element).httpHeaders) := by
  unfold UserSubscription.readMember
  dsimp only
  repeat' refine iteInduction (motive := fun subvalue : UserSubscription H =>
    NamesApart (L.elements subvalue.httpHeaders)) (fun _ => ?_) fun _ => ?_
  all_goals first | exact h | exact apart_readHeaders hset h _

theorem fromJson_loaded (hL : LawfulFields L) (hset : KeepsApart L) {elem : Json String D}
    {newSubscription : UserSubscription H}
    (h : UserSubscription.fromJson L elem = some newSubscription) :
    CompleteSubscription newSubscription ∧ NamesApart (L.elements newSubscription.httpHeaders) := by
  unfold UserSubscription.fromJson at h
  dsimp only at h
  split_ifs at h with hempty
  obtain rfl := Option.some.inj h
  simp only [Bool.or_eq_true, Bool.and_eq_true, Bool.not_false, and_true, String.isEmpty_iff,
    not_or] at hempty
  obtain ⟨⟨⟨⟨⟨hid, hdestination⟩, hprotocol⟩, hretry⟩, hformat⟩, htype⟩ := hempty
  refine ⟨⟨hid, hdestination, hprotocol, hretry, hformat, htype⟩, ?_⟩
  refine List.foldlRecOn (motive := fun subvalue : UserSubscription H =>
    NamesApart (L.elements subvalue.httpHeaders)) elem.items (UserSubscription.readMember L) ?_
    fun subvalue h element _ => apart_readMember hset h element
  change NamesApart (L.elements L.empty)
  rw [hL.elements_empty]
  exact .nil

/-- What reading a file makes of the stores. -/
structure LoadedStores (L : FieldsLibrary H) (stores : Stores H) : Prop where
  sessions : Loaded stores.sessionStore
  keyed : ∀ p ∈ stores.eventServiceStore.subscriptionsConfigMap, p.1 = p.2.id
  nodup : NodupKeys stores.eventServiceStore.subscriptionsConfigMap
  subscriptions : ∀ p ∈ stores.eventServiceStore.subscriptionsConfigMap,
    CompleteSubscription p.2 ∧ NamesApart (L.elements p.2.httpHeaders)

theorem emplace_of_mem {α : Type} {map : List (String × α)} {key : String}
    (h : key ∈ map.map Prod.fst) (value : α) : PersistentData.emplace map key value = map := by
  obtain ⟨p, hp, hkey⟩ := List.mem_map.1 h
  exact if_pos (List.any_eq_true.2 ⟨p, hp, decide_eq_true hkey⟩)

theorem loaded_restoreSubscription (hL : LawfulFields L) (hset : KeepsApart L) {stores : Stores H}
    (h : LoadedStores L stores) (elem : Json String D) :
    LoadedStores L { stores with
      eventServiceStore := restoreSubscription L stores.eventServiceStore elem } := by
  unfold restoreSubscription
  cases hread : UserSubscription.fromJson L elem with
  | none => exact h
  | some newSubscription =>
    by_cases hnew : newSubscription.id ∈
        stores.eventServiceStore.subscriptionsConfigMap.map Prod.fst
    · dsimp only
      rw [emplace_of_mem hnew]
      exact h
    · dsimp only
      rw [emplace_of_notMem hnew]
      refine ⟨h.sessions, fun p hp => ?_, ?_, fun p hp => ?_⟩
      · rcases List.mem_append.1 hp with hp | hp
        · exact h.keyed p hp
        · obtain rfl := List.mem_singleton.1 hp
          rfl
      · change NodupKeys (stores.eventServiceStore.subscriptionsConfigMap ++ [_])
        rw [NodupKeys, List.map_append]
        refine h.nodup.append (List.nodup_singleton _) fun key hkey hsingle => hnew ?_
        obtain rfl : key = newSubscription.id := List.mem_singleton.1 hsingle
        exact hkey
      · rcases List.mem_append.1 hp with hp | hp
        · exact h.subscriptions p hp
        · obtain rfl := List.mem_singleton.1 hp
          exact fromJson_loaded hL hset hread

theorem loaded_foldl_subscriptions (hL : LawfulFields L) (hset : KeepsApart L) {stores : Stores H}
    (h : LoadedStores L stores) (elems : List (String × Json String D)) :
    LoadedStores L { stores with
      eventServiceStore := elems.foldl (fun store elem => restoreSubscription L store elem.2)
        stores.eventServiceStore } := by
  induction elems generalizing stores with
  | nil => exact h
  | cons elem elems ih => exact ih (loaded_restoreSubscription hL hset h elem.2)

theorem LoadedStores.readItem (hL : LawfulFields L) (hset : KeepsApart L) {s : Stores H × UInt64}
    (h : LoadedStores L s.1) (now : ℤ) (item : String × Json String D) :
    LoadedStores L (readItem L now s item).1 := by
  have hsessions := loaded_readItem (L := L) h.sessions now item
  by_cases hkey : item.1 = "subscriptions"
  · unfold PersistentData.readItem
    dsimp only
    simp only [hkey, String.reduceEq, if_true, if_false]
    exact loaded_foldl_subscriptions hL hset h item.2.items
  · have hsame : (PersistentData.readItem L now s item).1.eventServiceStore.subscriptionsConfigMap =
        s.1.eventServiceStore.subscriptionsConfigMap := by
      unfold PersistentData.readItem
      dsimp only
      split_ifs <;> first | rfl | (split <;> rfl)
    refine ⟨hsessions, ?_, ?_, ?_⟩
    · rw [hsame]
      exact h.keyed
    · rw [hsame]
      exact h.nodup
    · rw [hsame]
      exact h.subscriptions

section Restored
variable {stores : Stores H} {T : JsonText D}

end Restored

/-- The same stores, with the entries of both maps in any order: the one of the tokens is not
ordered, and a file may name the subscriptions as it likes. -/
structure Reordered (stores stores' : Stores H) : Prop where
  systemUuid : stores'.systemUuid = stores.systemUuid
  timeoutInSeconds :
    stores'.sessionStore.timeoutInSeconds = stores.sessionStore.timeoutInSeconds
  authMethodsConfig :
    stores'.sessionStore.authMethodsConfig = stores.sessionStore.authMethodsConfig
  eventServiceConfig :
    stores'.eventServiceStore.eventServiceConfig = stores.eventServiceStore.eventServiceConfig
  sessions : stores'.sessionStore.authTokens.Perm stores.sessionStore.authTokens
  subscriptions : stores'.eventServiceStore.subscriptionsConfigMap.Perm
    stores.eventServiceStore.subscriptionsConfigMap

section Settled
variable {stores stores' : Stores H} {T : JsonText D}

theorem Reordered.refl (stores : Stores H) : Reordered stores stores :=
  ⟨rfl, rfl, rfl, rfl, .refl _, .refl _⟩

structure Boot where
  randomUUID : String
  now : ℤ
  defaults : AuthConfigMethods

variable (L T) in
def Boot.started (boot : Boot) (file : Option String) : Stores H × Option String :=
  readData L T boot.randomUUID boot.now (freshStores H boot.defaults) file

end Settled

end CrowCore.PersistentFiles
