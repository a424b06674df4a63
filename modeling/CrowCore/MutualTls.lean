import CrowCore.KeepAlive
import CrowCore.Sessions

set_option autoImplicit false

/-!
# Mutual TLS

`verifyMtlsUser` makes a session for the user that a client certificate names. It is
called by `tlsVerifyCallback`, for the address of the request; but there is no
request before the handshake is over.
-/
namespace CrowCore.MutualTls
open IncrementalParser GuardedRuns HttpConnection ConnectionExchange KeepAlive Sessions

def X509_V_OK : ℤ := 0
def KU_DIGITAL_SIGNATURE : UInt8 := 0x80
def KU_KEY_AGREEMENT : UInt8 := 0x08
def NID_client_auth : ℕ := 130

/-- What is read of a certificate; an extension that is absent is `none`. -/
structure Certificate where
  /-- the bytes of the bit string -/
  key_usage : Option (List UInt8)
  ext_key_usage : Option (List ℕ)
  commonName : Option (List UInt8)
deriving DecidableEq, Repr

structure StoreContext where
  current_cert : Option Certificate
  error : ℤ := X509_V_OK
  error_depth : ℤ := 0
deriving DecidableEq, Repr

/-- A buffer of zeros into which `X509_NAME_get_text_by_NID` has copied a text. -/
def textBuffer (size : ℕ) (text : List UInt8) : List UInt8 :=
  let copied := text.take (size - 1)
  copied ++ List.replicate (size - copied.length) 0

/-- The checks of `verifyMtlsUser`, and the user that they yield. -/
def certifiedUser (tls : Bool) (ctx : Option StoreContext) : Option (List UInt8) := do
  guard tls
  let cts ← ctx
  let peerCert ← cts.current_cert
  guard (cts.error = X509_V_OK)
  guard (cts.error_depth = 0)
  let usage ← peerCert.key_usage
  let isKeyUsageDigitalSignature := usage.any fun usageChar =>
    KU_DIGITAL_SIGNATURE &&& usageChar != 0
  let isKeyUsageKeyAgreement := usage.any fun usageChar => KU_KEY_AGREEMENT &&& usageChar != 0
  guard (isKeyUsageDigitalSignature && isKeyUsageKeyAgreement)
  let extUsage ← peerCert.ext_key_usage
  guard (NID_client_auth ∈ extUsage)
  let commonName ← peerCert.commonName
  let sslUser := textBuffer 256 commonName
  let lastChar := sslUser.findIdx (· = 0)
  guard (lastChar ≠ sslUser.length ∧ lastChar ≠ 0)
  return sslUser.take lastChar

def ofBytes (bytes : List UInt8) : String := String.ofList (bytes.map fun b => Char.ofNat b.toNat)

def verifyMtlsUser (store : SessionStore) (clientIp : String) (ctx : Option StoreContext)
    (generated : Option Identifiers) (now : ℤ) : SessionStore × Option UserSession :=
  match certifiedUser store.authMethodsConfig.tls ctx with
  | none => (store, none)
  | some sslUser =>
    store.generateUserSession (ofBytes sslUser) clientIp (some "") .timeout false generated now

/-- A connection with its callback set. -/
structure TlsConnection (P : Type) where
  conn : Connection P
  mtlsSession : Option UserSession := none

structure VerifyCall where
  preverified : Bool
  ctx : Option StoreContext
  store : SessionStore
  clientIp : String := ""
  generated : Option Identifiers
  now : ℤ := 0

inductive TlsEvent where
  | connection (event : Event)
  | verify (call : VerifyCall)

namespace TlsConnection
variable {P : Type}

/-- What the callback does to the connection, and what it returns. -/
def tlsVerifyCallback (c : TlsConnection P) (call : VerifyCall) : TlsConnection P × Bool :=
  if call.preverified then
    match c.conn.req with
    | none => (c, false)
    | some _ =>
      let mtlsSession :=
        (verifyMtlsUser call.store call.clientIp call.ctx call.generated call.now).2
      ({ c with mtlsSession }, true)
  else (c, true)

/-- OpenSSL calls the callback during the handshake. -/
def step (parser : RequestParser P) (c : TlsConnection P) : TlsEvent → Option (TlsConnection P)
  | .connection event => (c.conn.step parser event).map fun conn => { c with conn }
  | .verify call =>
    if .handshake ∈ c.conn.outstanding then some (c.tlsVerifyCallback call).1 else none

def opened (parser : RequestParser P) (build : Build) (connectionCount : ℕ) : TlsConnection P where
  conn := HttpConnection.opened parser build connectionCount

end TlsConnection

variable {P : Type}

/-- The call accepts the certificate, and makes a session if it passes the checks. -/
def Accepts (c : TlsConnection P) (call : VerifyCall) : Prop :=
  (c.tlsVerifyCallback call).2 = true ∧
    ((certifiedUser call.store.authMethodsConfig.tls call.ctx).isSome → call.generated.isSome →
      (c.tlsVerifyCallback call).1.mtlsSession.isSome)

def AcceptsVerified (c : TlsConnection P) : Prop :=
  .handshake ∈ c.conn.outstanding → ∀ call : VerifyCall, call.preverified → Accepts c call

def RefusesVerified (c : TlsConnection P) : Prop :=
  .handshake ∈ c.conn.outstanding → ∀ call : VerifyCall, call.preverified →
    (c.tlsVerifyCallback call).2 = false ∧ ¬ Accepts c call

theorem callback_without_request {c : TlsConnection P} (hreq : c.conn.req = none)
    {call : VerifyCall} (hpreverified : call.preverified) :
    c.tlsVerifyCallback call = (c, false) := by
  rw [TlsConnection.tlsVerifyCallback, if_pos hpreverified, hreq]

theorem conn_tlsVerifyCallback (c : TlsConnection P) (call : VerifyCall) :
    (c.tlsVerifyCallback call).1.conn = c.conn := by
  unfold TlsConnection.tlsVerifyCallback
  split_ifs
  · split <;> rfl
  · rfl

variable (parser : RequestParser P)

theorem carried_tls_step {c c' : TlsConnection P} {event : TlsEvent} (hexch : Exchanging c.conn)
    (hcarried : Carried c.conn) (hstep : c.step parser event = some c') :
    Exchanging c'.conn ∧ Carried c'.conn := by
  cases event with
  | connection event =>
    obtain ⟨conn, hconn, rfl⟩ := Option.map_eq_some_iff.1 hstep
    exact ⟨exchanging_step parser hexch hconn, (carried_step parser hexch hcarried hconn).1⟩
  | verify call =>
    obtain ⟨-, hstep⟩ := Option.ite_none_right_eq_some.1 hstep
    rw [← Option.some.inj hstep, conn_tlsVerifyCallback]
    exact ⟨hexch, hcarried⟩

/-- In every run every verified certificate is refused during the handshake. -/
theorem verified_refused (build : Build) (connectionCount : ℕ) (events : List TlsEvent) :
    Always (TlsConnection.step parser) RefusesVerified
      (TlsConnection.opened parser build connectionCount) events := by
  have hrun : Always (TlsConnection.step parser) (fun c => Exchanging c.conn ∧ Carried c.conn)
      (TlsConnection.opened parser build connectionCount) events := by
    refine always_of_step ?_ ?_ events
    · intro c event c' hc hstep
      exact carried_tls_step parser hc.1 hc.2 hstep
    · exact ⟨exchanging_opened parser build connectionCount,
        (carried_opened parser build connectionCount).1⟩
  refine hrun.mono fun c hc hop call hpreverified => ?_
  have hrefused := callback_without_request (hc.2.opening hop) hpreverified
  refine ⟨by rw [hrefused], fun haccepts => ?_⟩
  rw [Accepts, hrefused] at haccepts
  cases haccepts.1

def sampleCertificate : Certificate where
  key_usage := some [0x88]
  ext_key_usage := some [NID_client_auth]
  commonName := some [0x72, 0x6F, 0x6F, 0x74]

def sampleCall : VerifyCall where
  preverified := true
  ctx := some { current_cert := some sampleCertificate }
  store :=
    { authMethodsConfig :=
        { basic := true, sessionToken := true, xtoken := true, cookie := true, tls := true } }
  generated := none

/-- The certificate passes all checks, and the first handshake fails on it. -/
theorem valid_certificate_refused :
    let parser := requestParser [0x47] (by decide) 0 { target := "/", host := "a" }
    certifiedUser sampleCall.store.authMethodsConfig.tls sampleCall.ctx =
        some [0x72, 0x6F, 0x6F, 0x74] ∧
      ¬ Always (TlsConnection.step parser) AcceptsVerified
        (TlsConnection.opened parser { ssl := true } 0) [] := by
  intro parser
  refine ⟨by decide +kernel, fun h => ?_⟩
  have haccepts := h.head (by decide) sampleCall rfl
  cases haccepts.1

end CrowCore.MutualTls
