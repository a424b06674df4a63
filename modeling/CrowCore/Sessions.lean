import Mathlib

set_option autoImplicit false

/-!
# The session store

`SessionStore` keeps the sessions by token and remembers in `needWrite` whether
the persistent file has to be written again. `readData` and `writeData` are the
parts of `ConfigFile` that concern the store.
-/
namespace CrowCore.Sessions

def sessionTokenSize : ℕ := 20

inductive PersistenceType where
  | timeout
  | singleRequest
deriving DecidableEq, Repr

/-- Times are readings of the steady clock in nanoseconds. Their differences fit in 64 bits. -/
structure UserSession where
  uniqueId : String := ""
  sessionToken : String := ""
  username : String := ""
  csrfToken : String := ""
  clientId : Option String := none
  clientIp : String := ""
  lastUpdated : ℤ := 0
  persistence : PersistenceType := .timeout
  cookieAuth : Bool := false
  isConfigureSelfOnly : Bool := false
deriving DecidableEq, Repr

/-- One string member of the JSON of a session; other names are ignored. -/
def UserSession.readMember (session : UserSession) (element : String × String) : UserSession :=
  if element.1 = "unique_id" then { session with uniqueId := element.2 }
  else if element.1 = "session_token" then { session with sessionToken := element.2 }
  else if element.1 = "csrf_token" then { session with csrfToken := element.2 }
  else if element.1 = "username" then { session with username := element.2 }
  else if element.1 = "client_id" then { session with clientId := some element.2 }
  else if element.1 = "client_ip" then { session with clientIp := element.2 }
  else session

/-- `UserSession::fromJson` on the string members of the object. -/
def UserSession.fromJson (j : List (String × String)) (now : ℤ) : Option UserSession :=
  let userSession := j.foldl UserSession.readMember {}
  if userSession.uniqueId.isEmpty || userSession.username.isEmpty ||
      userSession.sessionToken.isEmpty || userSession.csrfToken.isEmpty then none
  else some { userSession with lastUpdated := now, persistence := .timeout }

structure AuthConfigMethods where
  basic : Bool
  sessionToken : Bool
  xtoken : Bool
  cookie : Bool
  tls : Bool
deriving DecidableEq, Repr

def AuthConfigMethods.readMember (c : AuthConfigMethods) (element : String × Bool) :
    AuthConfigMethods :=
  if element.1 = "XToken" then { c with xtoken := element.2 }
  else if element.1 = "Cookie" then { c with cookie := element.2 }
  else if element.1 = "SessionToken" then { c with sessionToken := element.2 }
  else if element.1 = "BasicAuth" then { c with basic := element.2 }
  else if element.1 = "TLS" then { c with tls := element.2 }
  else c

/-- `AuthConfigMethods::fromJson` on the Boolean members of the object. -/
def AuthConfigMethods.fromJson (c : AuthConfigMethods) (j : List (String × Bool)) :
    AuthConfigMethods :=
  j.foldl AuthConfigMethods.readMember c

structure SessionStore where
  authTokens : List (String × UserSession) := []
  lastTimeoutUpdate : ℤ := 0
  needWrite : Bool := false
  timeoutInSeconds : ℤ := 1800
  authMethodsConfig : AuthConfigMethods
deriving DecidableEq, Repr

structure Identifiers where
  sessionToken : String
  csrfToken : String
  uniqueId : String
  sessionToken_size : sessionToken.utf8ByteSize = sessionTokenSize

/-- `duration_cast` of seconds to nanoseconds; the 64 bits of the product wrap around. -/
def nanoseconds (seconds : ℤ) : Int64 := Int64.ofInt seconds * 1000000000

namespace SessionStore

/-- `authTokens.emplace`: a key that is present keeps its session. -/
def emplace (authTokens : List (String × UserSession)) (token : String) (session : UserSession) :
    List (String × UserSession) :=
  if authTokens.any (fun p => p.1 = token) then authTokens else authTokens ++ [(token, session)]

/-- `generated` is `none` where the generator reports an error. -/
def generateUserSession (store : SessionStore) (username clientIp : String)
    (clientId : Option String) (persistence : PersistenceType) (isConfigureSelfOnly : Bool)
    (generated : Option Identifiers) (now : ℤ) : SessionStore × Option UserSession :=
  match generated with
  | none => (store, none)
  | some ids =>
    let session : UserSession :=
      { uniqueId := ids.uniqueId, sessionToken := ids.sessionToken, username
        csrfToken := ids.csrfToken, clientId, clientIp, lastUpdated := now, persistence
        isConfigureSelfOnly }
    let authTokens := emplace store.authTokens ids.sessionToken session
    ({ store with authTokens, needWrite := persistence == .timeout },
      (authTokens.lookup ids.sessionToken))

/-- Idle for the whole timeout, by the nanoseconds of both durations. -/
def expired (store : SessionStore) (timeNow : ℤ) (session : UserSession) : Bool :=
  timeNow - session.lastUpdated ≥ (nanoseconds store.timeoutInSeconds).toInt

def applySessionTimeouts (store : SessionStore) (timeNow : ℤ) : SessionStore :=
  if timeNow - store.lastTimeoutUpdate > 10 ^ 9 then
    { store with
      lastTimeoutUpdate := timeNow
      authTokens := store.authTokens.filter fun p => !store.expired timeNow p.2
      needWrite := store.needWrite || store.authTokens.any fun p => store.expired timeNow p.2 }
  else store

/-- A session found by its token is changed in place. -/
def touch (store : SessionStore) (token : String) (now : ℤ) : SessionStore :=
  { store with
    authTokens := store.authTokens.map fun p =>
      if p.1 = token then (p.1, { p.2 with lastUpdated := now }) else p }

/-- The clock is read again when the session is found. -/
def loginSessionByToken (store : SessionStore) (token : String) (timeNow now : ℤ) :
    SessionStore × Option UserSession :=
  let store := store.applySessionTimeouts timeNow
  if token.utf8ByteSize ≠ sessionTokenSize then (store, none)
  else
    match store.authTokens.lookup token with
    | none => (store, none)
    | some userSession => (store.touch token now, some { userSession with lastUpdated := now })

def getSessionByUid (store : SessionStore) (uid : String) (timeNow : ℤ) :
    SessionStore × Option UserSession :=
  let store := store.applySessionTimeouts timeNow
  (store, (store.authTokens.find? fun p => p.2.uniqueId = uid).map Prod.snd)

def removeSession (store : SessionStore) (session : UserSession) : SessionStore :=
  { store with
    authTokens := store.authTokens.filter fun p => p.1 ≠ session.sessionToken
    needWrite := true }

def removeSessionsByUsername (store : SessionStore) (username : String) : SessionStore :=
  { store with authTokens := store.authTokens.filter fun p => p.2.username ≠ username }

/-- The second component says whether `SIGHUP` is raised. -/
def updateAuthMethodsConfig (store : SessionStore) (config : AuthConfigMethods) :
    SessionStore × Bool :=
  ({ store with authMethodsConfig := config, needWrite := true },
    store.authMethodsConfig.tls != config.tls)

def updateSessionTimeout (store : SessionStore) (newTimeoutInSeconds : ℤ) : SessionStore :=
  { store with timeoutInSeconds := newTimeoutInSeconds, needWrite := true }

end SessionStore

structure SavedSession where
  unique_id : String
  session_token : String
  username : String
  csrf_token : String
  client_ip : String
  client_id : Option String
deriving DecidableEq, Repr

structure StoreData where
  authConfig : AuthConfigMethods
  timeout : ℤ
  sessions : List SavedSession
deriving DecidableEq, Repr

def saveSession (session : UserSession) : Option SavedSession :=
  if session.persistence ≠ .singleRequest then
    some
      { unique_id := session.uniqueId, session_token := session.sessionToken
        username := session.username, csrf_token := session.csrfToken
        client_ip := session.clientIp, client_id := session.clientId }
  else none

def SessionStore.writeData (store : SessionStore) : StoreData where
  authConfig := store.authMethodsConfig
  timeout := store.timeoutInSeconds
  sessions := store.authTokens.filterMap fun p => saveSession p.2

structure PersistentFile where
  auth_config : List (String × Bool) := []
  sessions : List (List (String × String)) := []
  timeout : Option ℤ := none

def restoreSession (now : ℤ) (store : SessionStore) (elem : List (String × String)) :
    SessionStore :=
  match UserSession.fromJson elem now with
  | none => store
  | some newSession =>
    { store with
      authTokens := SessionStore.emplace store.authTokens newSession.sessionToken newSession }

/-- `readData` into the store of a new process; the members come in the order of
their names. `defaults` are the authentication methods that the build enables. -/
def readData (defaults : AuthConfigMethods) (file : PersistentFile) (now : ℤ) : SessionStore :=
  let store : SessionStore := { authMethodsConfig := defaults.fromJson file.auth_config }
  let store := file.sessions.foldl (restoreSession now) store
  match file.timeout with
  | none => store
  | some timeout => store.updateSessionTimeout timeout

/-- `~ConfigFile`: the data in the file afterwards, which held `data` before. -/
def destroyConfigFile (store : SessionStore) (data : StoreData) (now : ℤ) : StoreData :=
  let store := store.applySessionTimeouts now
  if store.needWrite then store.writeData else data

inductive Operation where
  | generateUserSession (username clientIp : String) (clientId : Option String)
      (persistence : PersistenceType) (isConfigureSelfOnly : Bool)
      (generated : Option Identifiers) (now : ℤ)
  | loginSessionByToken (token : String) (timeNow now : ℤ)
  | getSessionByUid (uid : String) (timeNow : ℤ)
  | removeSession (session : UserSession)
  | removeSessionsByUsername (username : String)
  | updateAuthMethodsConfig (config : AuthConfigMethods)
  | updateSessionTimeout (newTimeoutInSeconds : ℤ)
  | applySessionTimeouts (timeNow : ℤ)

def SessionStore.perform (store : SessionStore) : Operation → SessionStore
  | .generateUserSession username clientIp clientId persistence isConfigureSelfOnly generated now =>
    (store.generateUserSession username clientIp clientId persistence isConfigureSelfOnly generated
      now).1
  | .loginSessionByToken token timeNow now => (store.loginSessionByToken token timeNow now).1
  | .getSessionByUid uid timeNow => (store.getSessionByUid uid timeNow).1
  | .removeSession session => store.removeSession session
  | .removeSessionsByUsername username => store.removeSessionsByUsername username
  | .updateAuthMethodsConfig config => (store.updateAuthMethodsConfig config).1
  | .updateSessionTimeout newTimeoutInSeconds => store.updateSessionTimeout newTimeoutInSeconds
  | .applySessionTimeouts timeNow => store.applySessionTimeouts timeNow

end CrowCore.Sessions
