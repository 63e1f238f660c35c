/-
  Artemisia.Tls.Connect — connecting with TLS: `net__init_ssl_ctx`, `net__socket_connect_step3` and
  `net__socket_connect` (`net_mosq.c`), in every build, and the pieces of `mosquitto__reconnect` that they
  change. What OpenSSL answers is in `SslEnv`.

  Proved:
  - `netSocketConnect_covered`:   with TLS compiled in and configured, a socket that is left open has its session.
  - `netSocketConnect_uncovered`: else the socket is left open, and no session is made.
-/
import Artemisia.Tls.Options

namespace Artemisia.Tls

open Artemisia.Property Artemisia.Client

/-! ## OpenSSL -/

inductive SslConnect where
  | done | syscall | wantRead | wantWrite | failed
  deriving DecidableEq, Repr

/-- The answers of OpenSSL: whether each call succeeds. -/
structure SslEnv where
  /-- `SSL_CTX_new`. -/
  ctxNew : Bool
  /-- `ENGINE_by_id` and `ENGINE_init`. -/
  engine : Bool
  /-- `SSL_CTX_set_cipher_list`. -/
  cipherList : Bool
  /-- `SSL_CTX_load_verify_locations`, or the two calls that replace it. -/
  loadCa : Bool
  /-- `SSL_CTX_use_certificate_chain_file`. -/
  certificate : Bool
  /-- `ENGINE_ctrl_cmd`, twice. -/
  enginePin : Bool
  /-- `ENGINE_load_private_key` and `SSL_CTX_use_PrivateKey`. -/
  engineKey : Bool
  /-- `SSL_CTX_use_PrivateKey_file`. -/
  keyFile : Bool
  /-- `SSL_CTX_check_private_key`. -/
  checkKey : Bool
  /-- `SSL_new`. -/
  sslNew : Bool
  /-- `BIO_new_socket`. -/
  bioNew : Bool
  /-- `SSL_set_tlsext_host_name`. -/
  hostName : Bool
  /-- The three calls that activate OCSP. -/
  ocsp : Bool
  sslConnect : SslConnect

structure TlsMosq where
  m : Mosq
  tls : TlsData

/-- `COMPAT_CLOSE`: the session stays. -/
def TlsMosq.compatClose (c : TlsMosq) : TlsMosq := { c with m := c.m.socketClose }

def TlsMosq.socketClose (b : Build) (c : TlsMosq) : TlsMosq :=
  { m := c.m.socketClose, tls := if b.tls then { c.tls with ssl := none } else c.tls }

def loadKey (env : SslEnv) (t : TlsData) : Bool :=
  match t.tlsKeyform with
  | .engine => (t.tlsEngineKpassSha1.isNone || env.enginePin) && env.engineKey
  | .pem => env.keyFile

/-- The default settings after the version, each made if its field is set. The first that fails ends it. -/
def ctxSettings (env : SslEnv) (t : TlsData) : Bool :=
  (t.tlsEngine.isNone || env.engine) && (t.tlsCiphers.isNone || env.cipherList) &&
    ((t.tlsCafile.isNone && t.tlsCapath.isNone) ||
      (env.loadCa && (t.tlsCertfile.isNone || env.certificate) &&
        (t.tlsKeyfile.isNone || (loadKey env t && env.checkKey))))

def netInitSslCtx (env : SslEnv) (c : TlsMosq) : TlsMosq × Rc :=
  if c.tls.sslCtx.isSome ∧ !c.tls.sslCtxDefaults then (c, .success)
  else if c.tls.sslCtx.isSome ∧ !c.tls.configured then (c, .inval)
  else if !c.tls.configured then (c, .success)
  else if c.tls.sslCtx = none ∧ !env.ctxNew then (c.compatClose, .tls)
  else
    let c := { c with tls := { c.tls with sslCtx := some (c.tls.sslCtx.getD .created) } }
    if c.tls.tlsVersion = some .tlsv1 then (c.compatClose, .inval)
    else if !ctxSettings env c.tls then (c.compatClose, .tls)
    else (c, .success)

def netSocketConnectTls (env : SslEnv) (c : TlsMosq) : TlsMosq × Rc :=
  if c.tls.tlsOcspRequired ∧ !env.ocsp then (c, .ocsp)
  else match env.sslConnect with
  | .failed => (c.compatClose, .tls)
  | _ => (c, .success)

def netSocketConnectStep3 (b : Build) (env : SslEnv) (c : TlsMosq) : TlsMosq × Rc :=
  if !b.tls then (c, .success)
  else match netInitSslCtx env c with
  | (c, .success) =>
    if c.tls.sslCtx = none then (c, .success)
    else if !env.sslNew then ({ c with tls := { c.tls with ssl := none } }.compatClose, .tls)
    else if !env.bioNew then ({ c with tls := { c.tls with ssl := some ⟨none⟩ } }.compatClose, .tls)
    else
      let c := { c with tls := { c.tls with ssl := some ⟨c.m.sock⟩ } }
      if !env.hostName then (c.compatClose, .tls)
      else match netSocketConnectTls env c with
      | (c, .success) => (c, .success)
      | (c, _) => (c, .tls)
  | r => r

/-- What the environment decides while a thread connects. -/
structure Env where
  opt : OptEnv
  rec_ : RecEnv
  ssl : SslEnv

def netSocketConnect (b : Build) (env : Env) (c : TlsMosq) : TlsMosq × Rc :=
  if c.m.port % 65536 = 0 then (c, .inval)
  -- `net__try_connect` begins with `INVALID_SOCKET`
  else if env.rec_.tryConnect ≠ .success then ({ c with m := { c.m with sock := none } }, env.rec_.tryConnect)
  else netSocketConnectStep3 b env.ssl { c with m := c.m.socketOpen }

/-- `mosquitto__reconnect`: the pieces that are about the socket; the others are as they are without TLS. -/
def reconnectStep (b : Build) (env : Env) (properties : List MosquittoProperty) (c : TlsMosq) : RecPc →
    TlsMosq × (RecPc ⊕ Rc)
  | .close => (if c.m.sock = none then c else c.socketClose b, .inl .connect)
  | .connect =>
    let r := netSocketConnect b env c
    (r.1, .inl (if r.2 = .success then .setConnected else .pending r.2))
  | .failed rc => ({ (c.socketClose b) with m := (packetCleanupAll c.m).socketClose.setState .new }, .inr rc)
  | pc =>
    let r := Client.reconnectStep env.rec_ properties c.m pc
    ({ c with m := r.1 }, r.2)

/-! ## Sessions -/

def session (c : TlsMosq) : Option Nat := c.tls.ssl.bind Ssl.bio

def connects (env : Env) (c : TlsMosq) : Bool := c.m.port % 65536 ≠ 0 ∧ env.rec_.tryConnect = .success

/-- TLS is compiled in, and there is a CA, a path to one or a PSK, or an `SSL_CTX` to be used as it is. -/
def covered (b : Build) (t : TlsData) : Bool := b.tls && (t.configured || (t.sslCtx.isSome && !t.sslCtxDefaults))

section Sessions

variable {b : Build} {env : SslEnv} {c : TlsMosq}

/-- With a CA, a path to one, a PSK or an `SSL_CTX` of its own, there is a context in the end, or no socket. -/
theorem netInitSslCtx_covered (env : SslEnv)
    (h : c.tls.configured = true ∨ (c.tls.sslCtx.isSome = true ∧ c.tls.sslCtxDefaults = false)) :
    ((netInitSslCtx env c).2 = .success ∧ (netInitSslCtx env c).1.tls.sslCtx.isSome = true ∧
      (netInitSslCtx env c).1.m = c.m) ∨
    ((netInitSslCtx env c).2 ≠ .success ∧ (netInitSslCtx env c).1.m = c.m.socketClose) := by
  unfold netInitSslCtx
  split
  · rename_i h1
    exact .inl ⟨rfl, h1.1, rfl⟩
  rename_i h1
  have hc : c.tls.configured = true := h.resolve_right (fun h2 => h1 ⟨h2.1, by simp [h2.2]⟩)
  rw [if_neg (by simp [hc]), if_neg (by simp [hc])]
  split
  · exact .inr ⟨by simp, rfl⟩
  · dsimp only
    split
    · exact .inr ⟨by simp, rfl⟩
    · split
      · exact .inr ⟨by simp, rfl⟩
      · exact .inl ⟨rfl, rfl, rfl⟩

/-- Without, there is no context to be had, and the socket stays. -/
theorem netInitSslCtx_uncovered (h : c.tls.configured = false)
    (h' : c.tls.sslCtx.isSome = true → c.tls.sslCtxDefaults = true) :
    netInitSslCtx env c = (c, if c.tls.sslCtx.isSome then .inval else .success) := by
  unfold netInitSslCtx
  cases hs : c.tls.sslCtx with
  | none => simp [h]
  | some x => simp [h, h' (by simp [hs])]

/-- The session is not touched until there is a context. -/
theorem netInitSslCtx_ssl (env : SslEnv) (c : TlsMosq) : (netInitSslCtx env c).1.tls.ssl = c.tls.ssl := by
  unfold netInitSslCtx
  dsimp only
  repeat' split
  all_goals rfl

theorem netSocketConnectTls_frame (env : SslEnv) (c : TlsMosq) : (netSocketConnectTls env c).1.tls = c.tls ∧
    ((netSocketConnectTls env c).1.m = c.m ∨ (netSocketConnectTls env c).1.m = c.m.socketClose) := by
  unfold netSocketConnectTls
  split
  · exact ⟨rfl, .inl rfl⟩
  · split
    · exact ⟨rfl, .inr rfl⟩
    · exact ⟨rfl, .inl rfl⟩

/-- Either the socket is left open, and the session is its own, or it is closed, and whatever session is
    left is of no later socket. -/
def Outcome (c r : TlsMosq) : Prop :=
  (r.m = c.m ∧ session r = c.m.sock) ∨
    (r.m = c.m.socketClose ∧ (session r = session c ∨ session r = none ∨ session r = c.m.sock))

theorem netSocketConnectStep3_covered (h : covered b c.tls = true) :
    Outcome c (netSocketConnectStep3 b env c).1 := by
  simp only [covered, Bool.and_eq_true, Bool.or_eq_true, Bool.not_eq_true'] at h
  have hi := netInitSslCtx_covered env h.2
  have hssl := netInitSslCtx_ssl env c
  unfold netSocketConnectStep3
  rw [if_neg (by simp [h.1])]
  split
  · rename_i c' e
    rw [e] at hi
    rcases hi with ⟨-, hctx, hm⟩ | ⟨hrc, -⟩
    · dsimp only at hctx hm
      have hclose : c'.m.socketClose = c.m.socketClose := by rw [hm]
      rw [if_neg (fun e => by simp [e] at hctx)]
      split
      · exact .inr ⟨hclose, .inr (.inl rfl)⟩
      split
      · exact .inr ⟨hclose, .inr (.inl rfl)⟩
      split
      · exact .inr ⟨hclose, .inr (.inr (congrArg Mosq.sock hm))⟩
      · -- the session is there, whatever becomes of the handshake
        have hf := netSocketConnectTls_frame env { c' with tls := { c'.tls with ssl := some ⟨c'.m.sock⟩ } }
        have hstay (x : TlsMosq) (ht : x.tls = { c'.tls with ssl := some ⟨c'.m.sock⟩ })
            (hx : x.m = c'.m ∨ x.m = c'.m.socketClose) : Outcome c x := by
          rw [hm] at ht hx
          have hs : session x = c.m.sock := by
            rw [session, ht]
            rfl
          exact hx.imp (fun e => ⟨e, hs⟩) (fun e => ⟨e, .inr (.inr hs)⟩)
        cases hr : netSocketConnectTls env { c' with tls := { c'.tls with ssl := some ⟨c'.m.sock⟩ } } with
        | mk x rc =>
          rw [hr] at hf
          simp only [hr]
          cases rc <;> exact hstay x hf.1 hf.2
    · exact absurd rfl hrc
  · rename_i hne
    rcases hi with ⟨hrc, -⟩ | ⟨-, hm⟩
    · exact absurd (Prod.ext rfl hrc : netInitSslCtx env c = (_, .success)) (hne _)
    · exact .inr ⟨hm, .inl (by rw [session, hssl]; rfl)⟩

/-- The socket is left open, and the session is the one there was. -/
theorem netSocketConnectStep3_uncovered (h : covered b c.tls = false) :
    (netSocketConnectStep3 b env c).1 = c := by
  unfold netSocketConnectStep3
  split
  · rfl
  rename_i hb
  have hb : b.tls = true := by simpa using hb
  simp only [covered, hb, Bool.true_and, Bool.or_eq_false_iff, Bool.and_eq_false_imp, Bool.not_eq_false'] at h
  rw [netInitSslCtx_uncovered h.1 h.2]
  cases hs : c.tls.sslCtx with
  | none => simp [hs]
  | some x => simp

variable {env' : Env}

theorem netSocketConnect_covered (hc : connects env' c = true) (h : covered b c.tls = true) :
    Outcome { c with m := c.m.socketOpen } (netSocketConnect b env' c).1 := by
  simp only [connects, decide_eq_true_eq] at hc
  unfold netSocketConnect
  rw [if_neg hc.1, if_neg (not_not.mpr hc.2)]
  exact netSocketConnectStep3_covered (c := { c with m := c.m.socketOpen }) h

theorem netSocketConnect_uncovered (hc : connects env' c = true) (h : covered b c.tls = false) :
    (netSocketConnect b env' c).1 = { c with m := c.m.socketOpen } := by
  simp only [connects, decide_eq_true_eq] at hc
  unfold netSocketConnect
  rw [if_neg hc.1, if_neg (not_not.mpr hc.2)]
  exact netSocketConnectStep3_uncovered (c := { c with m := c.m.socketOpen }) h

theorem netSocketConnect_failed (hc : connects env' c = false) :
    (netSocketConnect b env' c).1 = c ∨
      (netSocketConnect b env' c).1 = { c with m := { c.m with sock := none } } := by
  simp only [connects, decide_eq_false_iff_not, not_and_or, not_not] at hc
  unfold netSocketConnect
  split
  · exact .inl rfl
  · rename_i hp
    rw [if_pos (hc.resolve_left hp)]
    exact .inr rfl

end Sessions

end Artemisia.Tls
