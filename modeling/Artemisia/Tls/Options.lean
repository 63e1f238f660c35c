/-
  Artemisia.Tls.Options — the TLS options: the calls that `setupMosquitto` makes when `tlsCert` is set
  (`Mosquitto.swift`), and what each does to `struct mosquitto` (`options.c`), in every build.

  OpenSSL is built with engines. What it decides, and the file system and the allocator, is in `OptEnv`.

  Proved:
  - `applyOption_plain`:   without `WITH_TLS` no call changes anything.
  - `setupTls_configured`: with it, if the call for `tlsCert` succeeds, a CA or a PSK is stored after all the
                           calls, whatever becomes of the others.
-/
import Artemisia.Client.Connect

namespace Artemisia.Tls

open Artemisia.Property Artemisia.Client

/-! ## What is stored -/

structure Build where
  /-- `WITH_TLS`. -/
  tls : Bool
  /-- `WITH_TLS_PSK`, and OpenSSL has PSK. -/
  psk : Bool

/-- `Package.swift` defines `WITH_THREADING` only. -/
def Build.package : Build := ⟨false, false⟩

def Build.finalPsk (b : Build) : Bool := b.tls && b.psk

/-- The Swift enumeration; its raw values are what `mosquitto_tls_opts_set` is given. -/
inductive TLSVersion where
  | tlsv1 | tlsv1_1 | tlsv1_2
  deriving DecidableEq, Repr

def TLSVersion.rawValue : TLSVersion → Bytes
  | .tlsv1 => [116, 108, 115, 118, 49]
  | .tlsv1_1 => [116, 108, 115, 118, 49, 46, 49]
  | .tlsv1_2 => [116, 108, 115, 118, 49, 46, 50]

inductive Keyform where
  | pem | engine
  deriving DecidableEq, Repr

/-- Where `mosq->ssl_ctx` comes from. -/
inductive SslCtx where
  /-- `MOSQ_OPT_SSL_CTX`. -/
  | given
  /-- `SSL_CTX_new`. -/
  | created
  deriving DecidableEq, Repr

/-- A session, `mosq->ssl`, and the socket its BIO was made for. -/
structure Ssl where
  bio : Option Nat
  deriving DecidableEq

/-- The fields of `struct mosquitto` under `WITH_TLS`. -/
structure TlsData where
  ssl : Option Ssl
  sslCtx : Option SslCtx
  tlsCafile : Option Bytes
  tlsCapath : Option Bytes
  tlsCertfile : Option Bytes
  tlsKeyfile : Option Bytes
  tlsVersion : Option TLSVersion
  tlsCiphers : Option Bytes
  tlsPsk : Option Bytes
  tlsPskIdentity : Option Bytes
  tlsCertReqs : Int
  tlsInsecure : Bool
  sslCtxDefaults : Bool
  tlsOcspRequired : Bool
  tlsEngine : Option Bytes
  tlsEngineKpassSha1 : Option Bytes
  tlsKeyform : Keyform
  tlsAlpn : Option Bytes

/-- `mosquitto_reinitialise`; `SSL_VERIFY_PEER` is 1. -/
def TlsData.new : TlsData :=
  ⟨none, none, none, none, none, none, none, none, none, none, 1, false, false, false, none, none, .pem, none⟩

/-- There is a CA file, a CA path or a PSK. -/
def TlsData.configured (t : TlsData) : Bool := t.tlsCafile.isSome || t.tlsCapath.isSome || t.tlsPsk.isSome

/-! ## The calls -/

/-- What the calls depend on. -/
structure OptEnv where
  /-- The files that can be opened. -/
  fopen : Bytes → Bool
  /-- The strings there is memory to copy. -/
  strdup : Bytes → Bool
  /-- The engines that `ENGINE_by_id` finds. -/
  engineById : Bytes → Bool
  /-- `mosquitto__hex2bin_sha1`, `none` if it fails. -/
  hex2binSha1 : Bytes → Option Bytes

/-- `mosquitto__strdup`, and `MOSQ_ERR_NOMEM` if it fails. A NULL is not copied. -/
def copy (env : OptEnv) : Option Bytes → Except Rc (Option Bytes)
  | none => .ok none
  | some s => if env.strdup s then .ok (some s) else .error .nomem

/-- A file name is copied if the file can be opened. -/
def copyFile (env : OptEnv) : Option Bytes → Except Rc (Option Bytes)
  | none => .ok none
  | some f => if env.fopen f then copy env (some f) else .error .inval

/-- `mosquitto_tls_set`, with no password callback. -/
def mosquittoTlsSet (b : Build) (env : OptEnv) (t : TlsData) (cafile capath certfile keyfile : Option Bytes) :
    TlsData × Rc :=
  if !b.tls then (t, .notSupported)
  else if (cafile = none ∧ capath = none) ∨ (certfile.isSome ∧ keyfile = none) ∨
    (certfile = none ∧ keyfile.isSome) then
    (t, .inval)
  else
    let t := { t with tlsCafile := none }
    match copyFile env cafile with
    | .error rc => (t, rc)
    | .ok cafile =>
      let t := { t with tlsCafile := cafile, tlsCapath := none }
      match copy env capath with
      | .error rc => (t, rc)
      | .ok capath =>
        let t := { t with tlsCapath := capath, tlsCertfile := none }
        match copyFile env certfile with
        | .error .inval => ({ t with tlsCafile := none, tlsCapath := none }, .inval)
        | .error rc => (t, rc)
        | .ok certfile =>
          let t := { t with tlsCertfile := certfile, tlsKeyfile := none }
          match copyFile env keyfile with
          | .error .inval => ({ t with tlsCafile := none, tlsCapath := none, tlsCertfile := none }, .inval)
          | .error rc => (t, rc)
          | .ok keyfile => ({ t with tlsKeyfile := keyfile }, .success)

/-- The ciphers are stored last, in two of the calls. -/
def setCiphers (env : OptEnv) (t : TlsData) (ciphers : Option Bytes) : TlsData × Rc :=
  match copy env ciphers with
  | .error rc => ({ t with tlsCiphers := none }, rc)
  | .ok ciphers => ({ t with tlsCiphers := ciphers }, .success)

/-- `mosquitto_tls_opts_set`. It takes "tlsv1.3", "tlsv1.2" and "tlsv1.1". -/
def mosquittoTlsOptsSet (b : Build) (env : OptEnv) (t : TlsData) (certReqs : Int) (tlsVersion : TLSVersion)
    (ciphers : Option Bytes) : TlsData × Rc :=
  if !b.tls then (t, .notSupported)
  else
    let t := { t with tlsCertReqs := certReqs }
    match tlsVersion with
    | .tlsv1 => (t, .inval)
    | v =>
      if !env.strdup v.rawValue then ({ t with tlsVersion := none }, .nomem)
      else setCiphers env { t with tlsVersion := some v } ciphers

def isHexDigit (c : UInt8) : Bool := (48 ≤ c && c ≤ 57) || (97 ≤ c && c ≤ 102) || (65 ≤ c && c ≤ 70)

def mosquittoTlsPskSet (b : Build) (env : OptEnv) (t : TlsData) (psk identity : Bytes) (ciphers : Option Bytes) :
    TlsData × Rc :=
  if !b.finalPsk then (t, .notSupported)
  else if !psk.all isHexDigit then (t, .inval)
  else if !env.strdup psk then ({ t with tlsPsk := none }, .nomem)
  -- the PSK is freed here, and `mosq->tls_psk` left as it is
  else if !env.strdup identity then ({ t with tlsPsk := some psk, tlsPskIdentity := none }, .nomem)
  else setCiphers env { t with tlsPsk := some psk, tlsPskIdentity := some identity } ciphers

def pem : Bytes := [112, 101, 109]
def engine : Bytes := [101, 110, 103, 105, 110, 101]

/-- `strcasecmp`, for a second string in lower case. -/
def strcasecmp (s lower : Bytes) : Bool := s.map (fun c => if 65 ≤ c ∧ c ≤ 90 then c + 32 else c) = lower

inductive StringOption where
  | tlsEngine | tlsKeyform | tlsEngineKpassSha1 | tlsAlpn
  deriving DecidableEq, Repr

def mosquittoStringOption (b : Build) (env : OptEnv) (t : TlsData) (option : StringOption) (value : Bytes) :
    TlsData × Rc :=
  if !b.tls then (t, .notSupported)
  else match option with
  | .tlsEngine =>
    if !env.engineById value then (t, .inval)
    else if env.strdup value then ({ t with tlsEngine := some value }, .success)
    else ({ t with tlsEngine := none }, .nomem)
  | .tlsKeyform =>
    if strcasecmp value pem then ({ t with tlsKeyform := .pem }, .success)
    else if strcasecmp value engine then ({ t with tlsKeyform := .engine }, .success)
    else (t, .inval)
  | .tlsEngineKpassSha1 =>
    match env.hex2binSha1 value with
    | some sha => ({ t with tlsEngineKpassSha1 := some sha }, .success)
    | none => (t, .inval)
  | .tlsAlpn =>
    if env.strdup value then ({ t with tlsAlpn := some value }, .success)
      else ({ t with tlsAlpn := none }, .nomem)

/-! ## `setupMosquitto` -/

inductive TLSCert where
  | cafile (path : Bytes)
  | psk (psk identity : Bytes) (ciphers : Option Bytes)

/-- The Swift object's fields about TLS. -/
structure TlsConfig where
  tlsCert : Option TLSCert
  tlsVersion : TLSVersion
  tlsCiphers : Option Bytes
  tlsClientCert : Option (Bytes × Bytes)
  sslContext : Bool
  sslContextWithDefaults : Bool
  tlsOCSPRequired : Bool
  tlsEngine : Option Bytes
  tlsKeyform : Option Bytes
  tlsKeyPassSHA1 : Option Bytes
  tlsALPN : Option Bytes
  tlsInsecure : Bool
  tlsCertRequired : Bool

inductive OptionCall where
  | tlsSet (cafile : Bytes) (certfile keyfile : Option Bytes)
  | tlsPskSet (psk identity : Bytes) (ciphers : Option Bytes)
  | sslCtx
  | sslCtxWithDefaults (value : Bool)
  | tlsOcspRequired (value : Bool)
  | string (option : StringOption) (value : Bytes)
  | tlsInsecureSet (value : Bool)
  | tlsOptsSet (certReqs : Int) (tlsVersion : TLSVersion) (ciphers : Option Bytes)

def TLSCert.call (c : TlsConfig) : TLSCert → OptionCall
  | .cafile path => .tlsSet path (c.tlsClientCert.map Prod.fst) (c.tlsClientCert.map Prod.snd)
  | .psk key identity ciphers => .tlsPskSet key identity ciphers

/-- The TLS calls of `setupMosquitto` after the one for `tlsCert`. -/
def otherCalls (c : TlsConfig) : List OptionCall :=
  (if c.sslContext then [.sslCtx] else []) ++
    [.sslCtxWithDefaults c.sslContextWithDefaults, .tlsOcspRequired c.tlsOCSPRequired] ++
    (c.tlsEngine.map (.string .tlsEngine)).toList ++ (c.tlsKeyform.map (.string .tlsKeyform)).toList ++
    (c.tlsKeyPassSHA1.map (.string .tlsEngineKpassSha1)).toList ++ (c.tlsALPN.map (.string .tlsAlpn)).toList ++
    [.tlsInsecureSet c.tlsInsecure, .tlsOptsSet (if c.tlsCertRequired then 1 else 0) c.tlsVersion c.tlsCiphers]

def setupCalls (c : TlsConfig) : List OptionCall :=
  match c.tlsCert with
  | none => []
  | some tls => tls.call c :: otherCalls c

/-- What a call does. Its result goes unused. -/
def applyOption (b : Build) (env : OptEnv) (t : TlsData) : OptionCall → TlsData × Rc
  | .tlsSet cafile certfile keyfile => mosquittoTlsSet b env t (some cafile) none certfile keyfile
  | .tlsPskSet psk identity ciphers => mosquittoTlsPskSet b env t psk identity ciphers
  | .sslCtx => if b.tls then ({ t with sslCtx := some .given }, .success) else (t, .notSupported)
  | .sslCtxWithDefaults value => if b.tls then ({ t with sslCtxDefaults := value }, .success)
      else (t, .notSupported)
  | .tlsOcspRequired value => if b.tls then ({ t with tlsOcspRequired := value }, .success)
      else (t, .notSupported)
  | .string option value => mosquittoStringOption b env t option value
  | .tlsInsecureSet value => if b.tls then ({ t with tlsInsecure := value }, .success) else (t, .notSupported)
  | .tlsOptsSet certReqs tlsVersion ciphers => mosquittoTlsOptsSet b env t certReqs tlsVersion ciphers

/-! ## What the calls leave behind -/

section Calls

variable {b : Build} {env : OptEnv} {t : TlsData}

theorem applyOption_plain (hb : b.tls = false) (o : OptionCall) : applyOption b env t o = (t, .notSupported) := by
  cases o <;> simp [applyOption, mosquittoTlsSet, mosquittoTlsPskSet, Build.finalPsk, mosquittoStringOption,
    mosquittoTlsOptsSet, hb]

theorem setCiphers_frame (ciphers : Option Bytes) : (setCiphers env t ciphers).1.configured = t.configured ∧
    (setCiphers env t ciphers).1.ssl = t.ssl := by
  unfold setCiphers
  split <;> exact ⟨rfl, rfl⟩

/-- No call touches the session. -/
theorem applyOption_ssl (o : OptionCall) : (applyOption b env t o).1.ssl = t.ssl := by
  cases o with
  | tlsOptsSet certReqs tlsVersion ciphers =>
    simp only [applyOption, mosquittoTlsOptsSet]
    repeat' split
    all_goals first
      | rfl
      | exact (setCiphers_frame _).2
  | tlsPskSet psk identity ciphers =>
    simp only [applyOption, mosquittoTlsPskSet]
    repeat' split
    all_goals first
      | rfl
      | exact (setCiphers_frame _).2
  | _ =>
    simp only [applyOption, mosquittoTlsSet, mosquittoStringOption]
    repeat' split
    all_goals rfl

/-- The calls for `tlsCert`. -/
def OptionCall.isCert : OptionCall → Bool
  | .tlsSet .. | .tlsPskSet .. => true
  | _ => false

theorem otherCalls_isCert (c : TlsConfig) : ∀ o ∈ otherCalls c, o.isCert = false := by
  intro o ho
  simp only [otherCalls, List.mem_append, List.mem_cons, Option.mem_toList, Option.map_eq_some_iff,
    List.not_mem_nil,
    or_false] at ho
  rcases ho with ((((((ho | ho) | ho) | ho) | ho) | ho) | ho)
  · split at ho
    · rw [List.mem_singleton.mp ho]
      rfl
    · cases ho
  · rcases ho with rfl | rfl <;> rfl
  · obtain ⟨v, -, rfl⟩ := ho
    rfl
  · obtain ⟨v, -, rfl⟩ := ho
    rfl
  · obtain ⟨v, -, rfl⟩ := ho
    rfl
  · obtain ⟨v, -, rfl⟩ := ho
    rfl
  · rcases ho with rfl | rfl <;> rfl

/-- The other calls keep the CA and the PSK. -/
theorem applyOption_configured {o : OptionCall} (ho : o.isCert = false) :
    (applyOption b env t o).1.configured = t.configured := by
  cases o with
  | tlsSet cafile certfile keyfile => cases ho
  | tlsPskSet psk identity ciphers => cases ho
  | tlsOptsSet certReqs tlsVersion ciphers =>
    simp only [applyOption, mosquittoTlsOptsSet]
    repeat' split
    all_goals first
      | rfl
      | exact (setCiphers_frame _).1
  | _ =>
    simp only [applyOption, mosquittoStringOption]
    repeat' split
    all_goals rfl

theorem copy_ok {s : Bytes} {r : Option Bytes} (h : copy env (some s) = .ok r) : r = some s := by
  simp only [copy] at h
  split at h <;> cases h
  rfl

theorem copyFile_ok {f : Bytes} {r : Option Bytes} (h : copyFile env (some f) = .ok r) : r = some f := by
  simp only [copyFile] at h
  split at h
  · exact copy_ok h
  · cases h

theorem copyFile_error {f : Option Bytes} {rc : Rc} (h : copyFile env f = .error rc) : rc ≠ .success := by
  intro hx
  obtain rfl := hx
  simp only [copyFile, copy] at h
  repeat' split at h
  all_goals cases h

/-- The call for `tlsCert`, if it succeeds. -/
theorem cert_configured {c : TlsConfig} {tls : TLSCert} (h : (applyOption b env t (tls.call c)).2 = .success) :
    (applyOption b env t (tls.call c)).1.configured = true := by
  revert h
  cases tls with
  | cafile path =>
    simp only [TLSCert.call, applyOption, mosquittoTlsSet]
    split
    · intro h
      cases h
    split
    · intro h
      cases h
    split
    · rename_i rc e
      exact fun h => absurd h (copyFile_error e)
    · rename_i cafile e
      -- whatever else happens, the CA file is stored, or the result says that it is not
      have hc := copyFile_ok e
      repeat' split
      all_goals
        intro h
        first
          | (simp [TlsData.configured, hc]; done)
          | cases h
  | psk key identity ciphers =>
    simp only [TLSCert.call, applyOption, mosquittoTlsPskSet]
    repeat' split
    all_goals
      intro h
      first
        | cases h
        | (rw [(setCiphers_frame _).1]; simp [TlsData.configured])

def setupTls (b : Build) (env : OptEnv) (t : TlsData) (c : TlsConfig) : TlsData :=
  (setupCalls c).foldl (fun t o => (applyOption b env t o).1) t

theorem foldl_configured {calls : List OptionCall} (hc : ∀ o ∈ calls, o.isCert = false) :
    (calls.foldl (fun t o => (applyOption b env t o).1) t).configured = t.configured := by
  induction calls generalizing t with
  | nil => rfl
  | cons o rest ih =>
    obtain ⟨ho, hrest⟩ := List.forall_mem_cons.mp hc
    rw [List.foldl_cons, ih hrest, applyOption_configured ho]

/-- If the call for `tlsCert` succeeds, a CA or a PSK is stored in the end. -/
theorem setupTls_configured {c : TlsConfig} {tls : TLSCert} (hc : c.tlsCert = some tls)
    (h : (applyOption b env t (tls.call c)).2 = .success) : (setupTls b env t c).configured = true := by
  unfold setupTls setupCalls
  rw [hc, List.foldl_cons, foldl_configured (otherCalls_isCert c)]
  exact cert_configured h

end Calls

end Artemisia.Tls
