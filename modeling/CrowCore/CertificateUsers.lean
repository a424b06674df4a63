import CrowCore.MutualTls

set_option autoImplicit false

/-!
# Users of certificates

`verifyMtlsUser` looks for the flags of a key usage in every byte of the bit string,
and takes the user from a buffer of 256 bytes up to the first NUL.
-/
namespace CrowCore.CertificateUsers
open MutualTls Sessions

def keyUsageChecks (peerCert : Certificate) : Option Unit := do
  let usage ← peerCert.key_usage
  let isKeyUsageDigitalSignature :=
    usage.any fun usageChar => KU_DIGITAL_SIGNATURE &&& usageChar != 0
  let isKeyUsageKeyAgreement := usage.any fun usageChar => KU_KEY_AGREEMENT &&& usageChar != 0
  guard (isKeyUsageDigitalSignature && isKeyUsageKeyAgreement)
  let extUsage ← peerCert.ext_key_usage
  guard (NID_client_auth ∈ extUsage)

def certifiedName (peerCert : Certificate) : Option (List UInt8) := do
  let commonName ← peerCert.commonName
  let sslUser := textBuffer 256 commonName
  let lastChar := sslUser.findIdx (· = 0)
  guard (lastChar ≠ sslUser.length ∧ lastChar ≠ 0)
  return sslUser.take lastChar

/-- The certificate that is verified without an error at the end of its chain. -/
def verifiedCert (tls : Bool) (ctx : Option StoreContext) : Option Certificate := do
  guard tls
  let cts ← ctx
  let peerCert ← cts.current_cert
  guard (cts.error = X509_V_OK)
  guard (cts.error_depth = 0)
  return peerCert

theorem certifiedUser_eq (tls : Bool) (ctx : Option StoreContext) :
    certifiedUser tls ctx = (do
      let peerCert ← verifiedCert tls ctx
      keyUsageChecks peerCert
      certifiedName peerCert) := by
  simp only [certifiedUser, verifiedCert, keyUsageChecks, certifiedName, bind_assoc, pure_bind]

/-- A bit of a bit string; bit 0 is the most significant one of the first byte. -/
def bitAt (usage : List UInt8) (bit : ℕ) : Bool :=
  (usage.getD (bit / 8) 0).toNat.testBit (7 - bit % 8)

/-- The key usage asserts digitalSignature and keyAgreement, the extended key usage
lists clientAuth. -/
def AllowsClientAuth (peerCert : Certificate) : Prop :=
  ∃ usage extUsage, peerCert.key_usage = some usage ∧ peerCert.ext_key_usage = some extUsage ∧
    bitAt usage 0 ∧ bitAt usage 4 ∧ NID_client_auth ∈ extUsage

def keyUsageFlags : List UInt8 := [KU_DIGITAL_SIGNATURE, KU_KEY_AGREEMENT]

/-- Each flag is set in some byte, but not both are set in the first. -/
def LaterBytesStandIn (peerCert : Certificate) : Prop :=
  ∃ usage extUsage, peerCert.key_usage = some usage ∧ peerCert.ext_key_usage = some extUsage ∧
    NID_client_auth ∈ extUsage ∧ (∀ flag ∈ keyUsageFlags, ∃ byte ∈ usage, flag &&& byte ≠ 0) ∧
      ∃ flag ∈ keyUsageFlags, flag &&& usage.headD 0 = 0

theorem flag_iff {i : ℕ} (hi : i < 8) (byte : UInt8) :
    UInt8.ofNat (2 ^ i) &&& byte ≠ 0 ↔ byte.toNat.testBit i := by
  have hlt : 2 ^ i < 2 ^ 8 := Nat.pow_lt_pow_right (by decide) hi
  rw [Ne, ← UInt8.toNat_inj, UInt8.toNat_and, UInt8.toNat_ofNat_of_lt' hlt, Nat.two_pow_and]
  cases byte.toNat.testBit i <;> simp

theorem bitAt_iff (usage : List UInt8) :
    (bitAt usage 0 ↔ KU_DIGITAL_SIGNATURE &&& usage.headD 0 ≠ 0) ∧
      (bitAt usage 4 ↔ KU_KEY_AGREEMENT &&& usage.headD 0 ≠ 0) := by
  have hhead : usage.getD 0 0 = usage.headD 0 := by cases usage <;> rfl
  rw [bitAt, bitAt, ← hhead]
  exact ⟨(flag_iff (i := 7) (by decide) _).symm, (flag_iff (i := 3) (by decide) _).symm⟩

theorem keyUsageChecks_isSome {peerCert : Certificate} : (keyUsageChecks peerCert).isSome ↔
    ∃ usage extUsage, peerCert.key_usage = some usage ∧ peerCert.ext_key_usage = some extUsage ∧
      NID_client_auth ∈ extUsage ∧ ∀ flag ∈ keyUsageFlags, ∃ byte ∈ usage, flag &&& byte ≠ 0 := by
  unfold keyUsageChecks
  rcases peerCert.key_usage with _ | usage
  · simp
  rcases peerCert.ext_key_usage with _ | extUsage
  · simp
  · have hflags : ((usage.any fun usageChar => KU_DIGITAL_SIGNATURE &&& usageChar != 0) &&
        usage.any fun usageChar => KU_KEY_AGREEMENT &&& usageChar != 0) = true ↔
          ∀ flag ∈ keyUsageFlags, ∃ byte ∈ usage, flag &&& byte ≠ 0 := by
      simp [keyUsageFlags]
    simp only [guard, Option.bind_eq_bind, Option.bind_some, hflags]
    by_cases hall : ∀ flag ∈ keyUsageFlags, ∃ byte ∈ usage, flag &&& byte ≠ 0
    · rw [if_pos hall, Option.pure_def, Option.bind_some]
      by_cases hmem : NID_client_auth ∈ extUsage
      · rw [if_pos hmem]
        exact iff_of_true rfl ⟨usage, extUsage, rfl, rfl, hmem, hall⟩
      · rw [if_neg hmem]
        refine iff_of_false (by simp) ?_
        rintro ⟨_, _, -, hext, h, -⟩
        exact hmem (Option.some.inj hext ▸ h)
    · rw [if_neg hall]
      refine iff_of_false (by simp) ?_
      rintro ⟨_, _, husage, -, -, h⟩
      exact hall (Option.some.inj husage ▸ h)

/-- The checks are passed by just the certificates that allow client authentication,
if and only if no later byte stands in for a flag. -/
theorem key_usage_gate_iff (peerCert : Certificate) :
    ((keyUsageChecks peerCert).isSome ↔ AllowsClientAuth peerCert) ↔
      ¬ LaterBytesStandIn peerCert := by
  rw [keyUsageChecks_isSome]
  constructor
  · rintro h ⟨usage, extUsage, husage, hext, hmem, hflags, flag, hflag, hfirst⟩
    obtain ⟨usage', -, husage', -, h₀, h₄, -⟩ := h.1 ⟨usage, extUsage, husage, hext, hmem, hflags⟩
    obtain rfl := Option.some.inj (husage'.symm.trans husage)
    obtain ⟨hdigital, hagreement⟩ := bitAt_iff usage'
    rcases List.mem_pair.1 hflag with rfl | rfl
    · exact hdigital.1 h₀ hfirst
    · exact hagreement.1 h₄ hfirst
  · intro h
    constructor
    · rintro ⟨usage, extUsage, husage, hext, hmem, hflags⟩
      have hfirst : ∀ flag ∈ keyUsageFlags, flag &&& usage.headD 0 ≠ 0 := fun flag hflag hzero =>
        h ⟨usage, extUsage, husage, hext, hmem, hflags, flag, hflag, hzero⟩
      obtain ⟨hdigital, hagreement⟩ := bitAt_iff usage
      exact ⟨usage, extUsage, husage, hext, hdigital.2 (hfirst _ List.mem_cons_self),
        hagreement.2 (hfirst _ (List.mem_cons_of_mem _ List.mem_cons_self)), hmem⟩
    · rintro ⟨usage, extUsage, husage, hext, h₀, h₄, hmem⟩
      obtain ⟨hdigital, hagreement⟩ := bitAt_iff usage
      obtain ⟨byte, rest, rfl⟩ : ∃ byte rest, usage = byte :: rest := by
        cases usage with
        | nil => exact absurd h₀ (by decide)
        | cons byte rest => exact ⟨byte, rest, rfl⟩
      refine ⟨_, extUsage, husage, hext, hmem, fun flag hflag => ⟨byte, List.mem_cons_self, ?_⟩⟩
      rcases List.mem_pair.1 hflag with rfl | rfl
      · exact hdigital.1 h₀
      · exact hagreement.1 h₄

/-- keyAgreement and decipherOnly, which is the first bit of the second byte. -/
def decipherOnlyCertificate : Certificate :=
  { sampleCertificate with key_usage := some [0x08, 0x80] }

theorem decipherOnly_stands_in :
    ¬ ((keyUsageChecks decipherOnlyCertificate).isSome ↔
      AllowsClientAuth decipherOnlyCertificate) := by
  intro h
  obtain ⟨usage, -, husage, -, hbit, -⟩ := h.1 (by decide)
  obtain rfl := Option.some.inj husage
  revert hbit
  decide

def shortened (name : List UInt8) : List UInt8 := (name.take 255).takeWhile (· ≠ 0)

theorem textBuffer_eq (name : List UInt8) :
    ∃ rest, textBuffer 256 name = name.take 255 ++ 0 :: rest := by
  have hlength : (name.take 255).length ≤ 255 := List.length_take_le 255 name
  refine ⟨List.replicate (255 - (name.take 255).length) 0, ?_⟩
  have hsucc : 256 - (name.take 255).length = 255 - (name.take 255).length + 1 := by omega
  rw [← List.replicate_succ]
  exact congrArg (fun n => name.take 255 ++ List.replicate n 0) hsucc

theorem takeWhile_append_cons {α : Type} {p : α → Bool} {a : α} (h : ¬ p a) (l rest : List α) :
    (l ++ a :: rest).takeWhile p = l.takeWhile p := by
  rw [List.takeWhile_append, List.takeWhile_cons_of_neg h, List.append_nil]
  split_ifs with hall
  · exact ((List.takeWhile_prefix p).eq_of_length hall).symm
  · rfl

theorem textBuffer_take (name : List UInt8) :
    (textBuffer 256 name).take ((textBuffer 256 name).findIdx (· = 0)) = shortened name ∧
      (textBuffer 256 name).findIdx (· = 0) ≠ (textBuffer 256 name).length := by
  obtain ⟨rest, hbuffer⟩ := textBuffer_eq name
  rw [hbuffer]
  constructor
  · have hnot : (fun byte : UInt8 => decide (byte = 0)) = fun byte => !decide (byte ≠ 0) := by
      funext byte
      simp
    rw [hnot, ← List.takeWhile_eq_take_findIdx_not, takeWhile_append_cons (by simp)]
    rfl
  · rw [Ne, List.findIdx_eq_length]
    intro h
    exact absurd (h 0 (by simp)) (by simp)

theorem certifiedName_eq_some {peerCert : Certificate} {user : List UInt8} :
    certifiedName peerCert = some user ↔
      ∃ name, peerCert.commonName = some name ∧ user = shortened name ∧ user ≠ [] := by
  unfold certifiedName
  rcases peerCert.commonName with _ | name
  · simp
  · obtain ⟨htake, hfound⟩ := textBuffer_take name
    have hpos : (textBuffer 256 name).findIdx (· = 0) ≠ 0 ↔ shortened name ≠ [] := by
      have hlength := congrArg List.length htake
      rw [List.length_take, min_eq_left List.findIdx_le_length] at hlength
      rw [hlength, Ne, List.length_eq_zero_iff]
    simp only [guard, Option.bind_eq_bind, Option.bind_some, htake, hpos]
    by_cases hempty : shortened name = []
    · rw [if_neg fun h => h.2 hempty]
      refine iff_of_false (by simp) ?_
      rintro ⟨_, hname, rfl, hne⟩
      exact hne (Option.some.inj hname ▸ hempty)
    · rw [if_pos ⟨hfound, hempty⟩, Option.pure_def, Option.pure_def, Option.bind_some]
      constructor
      · intro h
        obtain rfl := Option.some.inj h
        exact ⟨name, rfl, rfl, hempty⟩
      · rintro ⟨_, hname, rfl, -⟩
        rw [Option.some.inj hname]

theorem shortened_eq_nil {name : List UInt8} :
    shortened name = [] ↔ name = [] ∨ name.head? = some 0 := by
  unfold shortened
  cases name with
  | nil => simp
  | cons byte name =>
    rw [List.take_succ_cons, List.head?_cons]
    by_cases h : byte = 0
    · simp [h]
    · simp [h]

theorem shortened_eq_self {name : List UInt8} :
    shortened name = name ↔ name.length < 256 ∧ 0 ∉ name := by
  unfold shortened
  constructor
  · intro h
    have hlength : name.length < 256 := by
      have hle := (List.takeWhile_prefix (· ≠ 0)).length_le.trans (List.length_take_le 255 name)
      rw [h] at hle
      omega
    refine ⟨hlength, fun hzero => ?_⟩
    rw [← h] at hzero
    simpa using List.mem_takeWhile_imp hzero
  · rintro ⟨hlength, hzero⟩
    rw [List.take_of_length_le (by omega), List.takeWhile_eq_self_iff]
    intro byte hbyte
    have hne : byte ≠ 0 := by
      rintro rfl
      exact hzero hbyte
    simpa using hne

theorem ofBytes_injective : Function.Injective ofBytes := by
  intro bytes bytes' h
  have hchars := String.ofList_injective h
  refine (List.map_inj_right ?_).1 hchars
  intro b b' hb
  have htoNat : ∀ byte : UInt8, (Char.ofNat byte.toNat).toNat = byte.toNat := by
    intro byte
    have hlt := byte.toNat_lt
    have hvalid : byte.toNat.isValidChar := .inl (by omega)
    rw [Char.ofNat, dif_pos hvalid]
    rfl
  apply UInt8.toNat_inj.1
  rw [← htoNat b, ← htoNat b', hb]

def Creates (store store' : SessionStore) (session : UserSession) : Prop :=
  ∃ token, (token, session) ∈ store'.authTokens ∧ (token, session) ∉ store.authTokens

/-- A session that is created is one for the full common name of the certificate. -/
def ExactIdentity (store : SessionStore) (clientIp : String) (ctx : Option StoreContext)
    (generated : Option Identifiers) (now : ℤ) : Prop :=
  ∀ session, Creates store (verifyMtlsUser store clientIp ctx generated now).1 session →
    ∃ cts cert name, ctx = some cts ∧ cts.current_cert = some cert ∧ cert.commonName = some name ∧
      session.username = ofBytes name

/-- The certificate passes the checks before its name is read, it has this name, and
a session can be made for it. -/
structure Admitted (store : SessionStore) (ctx : Option StoreContext)
    (generated : Option Identifiers) (name : List UInt8) : Prop where
  cert : ∃ cert, verifiedCert store.authMethodsConfig.tls ctx = some cert ∧
    (keyUsageChecks cert).isSome ∧ cert.commonName = some name
  token : ∃ ids, generated = some ids ∧ ∀ p ∈ store.authTokens, p.1 ≠ ids.sessionToken

theorem current_of_verifiedCert {tls : Bool} {ctx : Option StoreContext} {cert : Certificate}
    (h : verifiedCert tls ctx = some cert) :
    ∃ cts, ctx = some cts ∧ cts.current_cert = some cert := by
  unfold verifiedCert at h
  obtain ⟨-, -, h⟩ := Option.bind_eq_some_iff.1 h
  obtain ⟨cts, hctx, h⟩ := Option.bind_eq_some_iff.1 h
  obtain ⟨peerCert, hcert, h⟩ := Option.bind_eq_some_iff.1 h
  obtain ⟨-, -, h⟩ := Option.bind_eq_some_iff.1 h
  obtain ⟨-, -, h⟩ := Option.bind_eq_some_iff.1 h
  obtain rfl := Option.some.inj h
  exact ⟨cts, hctx, hcert⟩

theorem certifiedUser_eq_some {tls : Bool} {ctx : Option StoreContext} {user : List UInt8} :
    certifiedUser tls ctx = some user ↔ ∃ cert, verifiedCert tls ctx = some cert ∧
      (keyUsageChecks cert).isSome ∧ certifiedName cert = some user := by
  rw [certifiedUser_eq, Option.bind_eq_bind, Option.bind_eq_some_iff]
  refine exists_congr fun cert => and_congr_right fun _ => ?_
  cases keyUsageChecks cert with
  | none => simp
  | some => simp

theorem creates_generateUserSession {store : SessionStore} {username clientIp : String}
    {clientId : Option String} {generated : Option Identifiers} {now : ℤ} {session : UserSession} :
    Creates store (store.generateUserSession username clientIp clientId .timeout false generated
      now).1 session ↔
    ∃ ids, generated = some ids ∧ (∀ p ∈ store.authTokens, p.1 ≠ ids.sessionToken) ∧
      session =
        { uniqueId := ids.uniqueId, sessionToken := ids.sessionToken, username
          csrfToken := ids.csrfToken, clientId, clientIp, lastUpdated := now } := by
  cases generated with
  | none =>
    refine iff_of_false ?_ (by simp)
    rintro ⟨token, hmem, hnot⟩
    exact hnot hmem
  | some ids =>
    unfold Creates
    simp only [SessionStore.generateUserSession, SessionStore.emplace, Option.some.injEq,
      exists_eq_left', List.any_eq_true, decide_eq_true_eq]
    by_cases hpresent : ∃ p ∈ store.authTokens, p.1 = ids.sessionToken
    · rw [if_pos hpresent]
      refine iff_of_false ?_ ?_
      · rintro ⟨token, hmem, hnot⟩
        exact hnot hmem
      · rintro ⟨hfresh, -⟩
        obtain ⟨p, hp, heq⟩ := hpresent
        exact hfresh p hp heq
    · rw [if_neg hpresent]
      have hfresh : ∀ p ∈ store.authTokens, p.1 ≠ ids.sessionToken := fun p hp heq =>
        hpresent ⟨p, hp, heq⟩
      constructor
      · rintro ⟨token, hmem, hnot⟩
        rcases List.mem_append.1 hmem with hmem | hmem
        · exact (hnot hmem).elim
        · exact ⟨hfresh, (Prod.mk.inj (List.mem_singleton.1 hmem)).2⟩
      · rintro ⟨-, rfl⟩
        exact ⟨ids.sessionToken, List.mem_append_right _ List.mem_cons_self, fun hmem =>
          hfresh _ hmem rfl⟩

theorem creates_iff {store : SessionStore} {clientIp : String} {ctx : Option StoreContext}
    {generated : Option Identifiers} {now : ℤ} {username : String} :
    (∃ session, Creates store (verifyMtlsUser store clientIp ctx generated now).1 session ∧
      session.username = username) ↔
    ∃ name, Admitted store ctx generated name ∧ shortened name ≠ [] ∧
      username = ofBytes (shortened name) := by
  constructor
  · rintro ⟨session, hcreates, rfl⟩
    unfold verifyMtlsUser at hcreates
    cases huser : certifiedUser store.authMethodsConfig.tls ctx with
    | none =>
      rw [huser] at hcreates
      obtain ⟨token, hmem, hnot⟩ := hcreates
      exact (hnot hmem).elim
    | some user =>
      rw [huser] at hcreates
      obtain ⟨ids, hgenerated, hfresh, rfl⟩ := creates_generateUserSession.1 hcreates
      obtain ⟨cert, hcert, husage, hname⟩ := certifiedUser_eq_some.1 huser
      obtain ⟨name, hcommonName, rfl, hne⟩ := certifiedName_eq_some.1 hname
      exact ⟨name, ⟨⟨cert, hcert, husage, hcommonName⟩, ids, hgenerated, hfresh⟩, hne, rfl⟩
  · rintro ⟨name, ⟨⟨cert, hcert, husage, hcommonName⟩, ids, hgenerated, hfresh⟩, hne, rfl⟩
    have huser : certifiedUser store.authMethodsConfig.tls ctx = some (shortened name) :=
      certifiedUser_eq_some.2
        ⟨cert, hcert, husage, certifiedName_eq_some.2 ⟨name, hcommonName, rfl, hne⟩⟩
    unfold verifyMtlsUser
    rw [huser]
    exact ⟨_, creates_generateUserSession.2 ⟨ids, hgenerated, hfresh, rfl⟩, rfl⟩

theorem ExactIdentity.shortened_eq {store : SessionStore} {clientIp : String}
    {ctx : Option StoreContext} {generated : Option Identifiers} {now : ℤ} {name : List UInt8}
    (h : ExactIdentity store clientIp ctx generated now)
    (hadmitted : Admitted store ctx generated name) (hne : shortened name ≠ []) :
    shortened name = name := by
  obtain ⟨session, hcreates, husername⟩ := creates_iff.2 ⟨name, hadmitted, hne, rfl⟩
  obtain ⟨cts, cert, name', hctx, hcert, hname', hexact⟩ := h session hcreates
  obtain ⟨cert', hcert', -, hname⟩ := hadmitted.cert
  obtain ⟨cts', hctx', hcurrent⟩ := current_of_verifiedCert hcert'
  obtain rfl := Option.some.inj (hctx.symm.trans hctx')
  obtain rfl := Option.some.inj (hcert.symm.trans hcurrent)
  obtain rfl := Option.some.inj (hname.symm.trans hname')
  exact ofBytes_injective (husername.symm.trans hexact)

/-- The users are those of the certificates if and only if no name that makes a
session is longer than 255 bytes or has a NUL behind its first byte. -/
theorem exact_identity_iff (store : SessionStore) (clientIp : String) (ctx : Option StoreContext)
    (generated : Option Identifiers) (now : ℤ) :
    ExactIdentity store clientIp ctx generated now ↔
      ∀ name, Admitted store ctx generated name → name.head? ≠ some 0 →
        name.length < 256 ∧ 0 ∉ name := by
  constructor
  · intro h name hadmitted hhead
    by_cases hnil : name = []
    · subst hnil
      exact ⟨by decide, List.not_mem_nil⟩
    have hne : shortened name ≠ [] := fun hempty => (shortened_eq_nil.1 hempty).elim hnil hhead
    exact shortened_eq_self.1 (h.shortened_eq hadmitted hne)
  · intro h session hcreates
    obtain ⟨name, hadmitted, hne, husername⟩ := creates_iff.1 ⟨session, hcreates, rfl⟩
    have hself := shortened_eq_self.2 (h name hadmitted fun hhead =>
      hne (shortened_eq_nil.2 (.inr hhead)))
    obtain ⟨cert, hcert, -, hname⟩ := hadmitted.cert
    obtain ⟨cts, hctx, hcurrent⟩ := current_of_verifiedCert hcert
    exact ⟨cts, cert, name, hctx, hcurrent, hname, by rw [husername, hself]⟩

def namedCertificate (name : List UInt8) : Certificate :=
  { sampleCertificate with commonName := some name }

def sampleIdentifiers : Identifiers where
  sessionToken := "certificateSession01"
  csrfToken := "ABCDEFGHIJ0123456789"
  uniqueId := "9876543210"
  sessionToken_size := by decide

theorem admitted_named (name : List UInt8) : Admitted sampleCall.store
    (some { current_cert := some (namedCertificate name) }) (some sampleIdentifiers) name where
  cert := ⟨namedCertificate name, rfl, (by decide : (keyUsageChecks sampleCertificate).isSome), rfl⟩
  token := ⟨sampleIdentifiers, rfl, fun _ hmem => (List.not_mem_nil hmem).elim⟩

theorem not_exactIdentity_named {name : List UInt8} (hhead : name.head? ≠ some 0) (hnil : name ≠ [])
    (hlong : ¬ (name.length < 256 ∧ 0 ∉ name)) : ¬ ExactIdentity sampleCall.store ""
      (some { current_cert := some (namedCertificate name) }) (some sampleIdentifiers) 0 := by
  intro h
  have hne : shortened name ≠ [] := fun hempty => (shortened_eq_nil.1 hempty).elim hnil hhead
  exact hlong (shortened_eq_self.1 (h.shortened_eq (admitted_named name) hne))

/-- A NUL behind "root", and a name of 256 bytes. -/
theorem names_shortened :
    ¬ ExactIdentity sampleCall.store ""
      (some { current_cert := some (namedCertificate [0x72, 0x6F, 0x6F, 0x74, 0, 0x78]) })
      (some sampleIdentifiers) 0 ∧
    ¬ ExactIdentity sampleCall.store ""
      (some { current_cert := some (namedCertificate (List.replicate 256 0x61)) })
      (some sampleIdentifiers) 0 := by
  refine ⟨not_exactIdentity_named (by decide) (by decide) (by decide),
    not_exactIdentity_named ?_ ?_ ?_⟩
  · rw [List.head?_replicate]
    decide
  · exact List.cons_ne_nil _ _
  · exact fun h => absurd h.1 (by rw [List.length_replicate]; decide)

end CrowCore.CertificateUsers
