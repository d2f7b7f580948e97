import EchTunnel.Config.FromOptions
import EchTunnel.Ech.GenKeys
import EchTunnel.Tls.Alpn
import EchTunnel.Tls.Rotation

/-! The TLS contexts of a server and how they are built: the acceptor of `tls_server.rs`, and the context that
`quic.rs` makes for HTTP/3. -/
namespace EchTunnel
open Wire

def H3 : Bytes := utf8 "h3"

/-- `alpn_wire`; the length is cut to a byte. -/
def alpnWire (protos : List Bytes) : Bytes := protos.flatMap (block 1)

/-- An entry of `SSL_ECH_KEYS`. -/
structure EchKeys where
  key : EchServerKey
  config : Bytes
  isRetryConfig : Bool
  deriving Repr, DecidableEq

/-- What a context is set up with. -/
structure ServerContext where
  leaf : Bytes
  chain : List Bytes
  privateKey : Bytes
  alpn : Bytes
  echKeys : Option EchKeys
  deriving Repr, DecidableEq

/-- Calls to BoringSSL and `quiche` that only succeed or fail. -/
inductive ServerStep
  | sslContext
  | setCertificate (leaf : Bytes)
  | addExtraChainCert (ca : Bytes)
  | setPrivateKey (key : Bytes)
  | alpnProtos (wire : Bytes)
  | echKeysNew
  | echKeysAdd (config : Bytes) (isRetryConfig : Bool)
  | setEchKeys
  | quicheConfig
  | applicationProtos (protos : List Bytes)
  deriving Repr, DecidableEq

inductive TlsError
  | step (s : ServerStep)
  | read (path : String)
  | loadCert (path : String)
  | loadKey (path : String)
  | parseChain
  | emptyChain
  | parseKey
  | keyMismatch
  | readEchKey (path : String) (e : EchError)
  | installEchKey (e : EchError)
  | selfSigned
  | notStatic
  deriving Repr, DecidableEq

/-- `ok_or_else`. -/
def okOr {ε α : Type} (x : Option α) (e : ε) : Except ε α := x.elim (.error e) .ok

theorem okOr_eq_ok {ε α : Type} {x : Option α} {e : ε} {a : α} : okOr x e = .ok a ↔ x = some a := by
  cases x <;> simp [okOr]

/-- What files and third parties answer while a context is built. The two functions for files are what
BoringSSL makes of their content. -/
structure TlsEnv where
  files : String → Option Bytes
  succeeds : ServerStep → Bool
  certificateChainFile : Bytes → Option (Bytes × List Bytes)
  privateKeyFile : Bytes → Option Bytes
  stackFromPem : String → Option (List Bytes)
  privateKeyFromPem : String → Option Bytes
  checkPrivateKey : Bytes → Bytes → Bool
  selfSigned : String → Option CertMaterial

namespace EchServerKey

theorem readFrom_isSome (files : String → Option Bytes) (path : String) : (readFrom files path).isSome := by
  cases hb : files path with
  | none => simp [readFrom, hb]
  | some b =>
    rw [readFrom_some _ _ hb]
    obtain ⟨e,he⟩ | ⟨k,hk⟩ := parse_cases b
    · simp [he]
    · simp [hk]

/-- `read_from`, which does not panic. -/
def read (files : String → Option Bytes) (path : String) : Except EchError EchServerKey :=
  (readFrom files path).get (readFrom_isSome files path)

theorem read_eq_ok {files : String → Option Bytes} {path : String} {k : EchServerKey} :
    read files path = .ok k ↔ readFrom files path = some (.ok k) := by
  rw [read, Option.eq_some_iff_get_eq]
  exact ⟨fun h => ⟨_,h⟩,fun ⟨_,h⟩ => h⟩

end EchServerKey

section Build
variable (boring : Boring) (env : TlsEnv)

def TlsEnv.call (s : ServerStep) : Except TlsError Unit :=
  if env.succeeds s then .ok () else .error (.step s)

def TlsEnv.readToString (path : String) : Except TlsError String :=
  okOr ((env.files path).bind fromUtf8) (.read path)

def TlsEnv.check (leaf privateKey : Bytes) : Except TlsError Unit :=
  if env.checkPrivateKey leaf privateKey then .ok () else .error .keyMismatch

/-- `HpkeKey::from_private`. -/
def fromPrivate (raw : Bytes) : Except EchError Unit :=
  if boring.hpkeKeyInit raw then .ok () else .error .keyInit

def EchServerKey.installOnCtxBuilder (k : EchServerKey) (b : ServerContext) :
    Except TlsError ServerContext := do
  let config ← (k.marshalConfig boring).mapError .installEchKey
  (fromPrivate boring k.privateKey).mapError .installEchKey
  env.call .echKeysNew
  env.call (.echKeysAdd config true)
  env.call .setEchKeys
  return { b with echKeys := some ⟨k,config,true⟩ }

/-- A public name that is not the one of the key is only logged. -/
def installEchIfConfigured (ech : Option ServerEch) (b : ServerContext) : Except TlsError ServerContext :=
  match ech with
  | none => .ok b
  | some cfg => do
    let key ← (EchServerKey.read env.files cfg.keyFile).mapError (.readEchKey cfg.keyFile)
    key.installOnCtxBuilder boring env b

/-- The protocols that are announced; what is selected is up to the callback. -/
def installAlpnCallback (b : ServerContext) : Except TlsError ServerContext := do
  let wire := alpnWire [H2,HTTP11]
  env.call (.alpnProtos wire)
  return { b with alpn := wire }

/-- The part that the two builders from PEM texts have in common. -/
def setPem (certPem keyPem : String) : Except TlsError ServerContext := do
  let x509s ← okOr (env.stackFromPem certPem) .parseChain
  let leaf ← okOr x509s.head? .emptyChain
  env.call (.setCertificate leaf)
  x509s.tail.forM fun ca => env.call (.addExtraChainCert ca)
  let pkey ← okOr (env.privateKeyFromPem keyPem) .parseKey
  env.call (.setPrivateKey pkey)
  env.check leaf pkey
  return ⟨leaf,x509s.tail,pkey,[],none⟩

def buildAcceptorFromPem (cert key : String) (ech : Option ServerEch) : Except TlsError ServerContext := do
  env.call .sslContext
  let certs ← okOr ((env.files cert).bind env.certificateChainFile) (.loadCert cert)
  let pkey ← okOr ((env.files key).bind env.privateKeyFile) (.loadKey key)
  env.check certs.1 pkey
  let b ← installAlpnCallback env ⟨certs.1,certs.2,pkey,[],none⟩
  installEchIfConfigured boring env ech b

def buildAcceptorFromPemStrs (certPem keyPem : String) (ech : Option ServerEch) :
    Except TlsError ServerContext := do
  env.call .sslContext
  let b ← setPem env certPem keyPem
  let b ← installAlpnCallback env b
  installEchIfConfigured boring env ech b

/-- `server_ssl_ctx` of `quic.rs`, which leaves ALPN to `quiche`. -/
def serverSslCtx (certPem keyPem : String) (ech : Option ServerEch) : Except TlsError ServerContext := do
  env.call .sslContext
  let b ← setPem env certPem keyPem
  installEchIfConfigured boring env ech b

/-- `server_config` of `quic.rs`. -/
def serverConfig (certPem keyPem : String) (ech : Option ServerEch) : Except TlsError ServerContext := do
  let ctx ← serverSslCtx boring env certPem keyPem ech
  env.call .quicheConfig
  env.call (.applicationProtos [H3])
  return { ctx with alpn := alpnWire [H3] }

namespace TlsServer

def buildStaticWith (cfg : ServerCfg) : Except TlsError ServerContext :=
  match cfg.tls with
  | .static certFile keyFile => buildAcceptorFromPem boring env certFile keyFile cfg.ech
  | .acme .. => .error .notStatic

def buildBootstrapWith (cfg : ServerCfg) : Except TlsError ServerContext := do
  let kp ← okOr (env.selfSigned cfg.domain) .selfSigned
  buildAcceptorFromPemStrs boring env kp.certPem kp.keyPem cfg.ech

end TlsServer

def CertSource.fromStaticCfg (cfg : ServerCfg) : Except TlsError CertSource :=
  match cfg.tls with
  | .static certFile keyFile => do
    let certPem ← env.readToString certFile
    let keyPem ← env.readToString keyFile
    return .new certPem keyPem
  | .acme .. => .error .notStatic

def buildInitialTls (cfg : ServerCfg) : Except TlsError ServerContext :=
  match cfg.tls with
  | .static .. => TlsServer.buildStaticWith boring env cfg
  | .acme .. => TlsServer.buildBootstrapWith boring env cfg

def buildInitialH3Certs (cfg : ServerCfg) : Except TlsError CertSource :=
  match cfg.tls with
  | .static .. => CertSource.fromStaticCfg env cfg
  | .acme .. => do
    let kp ← okOr (env.selfSigned cfg.domain) .selfSigned
    return .new kp.certPem kp.keyPem

end Build

/-- The ECH key of the configuration, as its file was in `env`, with the config that clients are told; or no
key, if none is configured. -/
structure KeysIn (boring : Boring) (env : TlsEnv) (ech : Option ServerEch) (keys : Option EchKeys) :
    Prop where
  off : ech = none → keys = none
  on : ∀ e ∈ ech, ∃ key config, EchServerKey.readFrom env.files e.keyFile = some (.ok key) ∧
    key.marshalConfig boring = .ok config ∧ keys = some ⟨key,config,true⟩

/-- A context that has been built in `env`. -/
structure ServerContext.BuiltIn (boring : Boring) (env : TlsEnv) (ech : Option ServerEch)
    (protos : List Bytes) (c : ServerContext) : Prop where
  pair : env.checkPrivateKey c.leaf c.privateKey = true
  alpn : c.alpn = alpnWire protos
  keys : KeysIn boring env ech c.echKeys

section Spec
variable {boring : Boring} {env : TlsEnv} {cfg : ServerCfg} {ech : Option ServerEch} {b c : ServerContext}

theorem TlsEnv.check_eq_ok {leaf privateKey : Bytes} :
    env.check leaf privateKey = .ok () ↔ env.checkPrivateKey leaf privateKey = true := by
  simp [check]

/-- The key goes in together with its config, and nothing else changes. -/
theorem EchServerKey.installOnCtxBuilder_eq_ok {k : EchServerKey}
    (h : k.installOnCtxBuilder boring env b = .ok c) :
    ∃ config, k.marshalConfig boring = .ok config ∧ c = { b with echKeys := some ⟨k,config,true⟩ } := by
  obtain ⟨config,hconfig,h⟩ := bind_eq_ok.mp h
  obtain ⟨-,-,h⟩ := bind_eq_ok.mp h
  obtain ⟨-,-,h⟩ := bind_eq_ok.mp h
  obtain ⟨-,-,h⟩ := bind_eq_ok.mp h
  obtain ⟨-,-,h⟩ := bind_eq_ok.mp h
  cases h
  exact ⟨config,mapError_eq_ok.mp hconfig,rfl⟩

/-- The last step of every builder. -/
theorem installEchIfConfigured_eq_ok (hb : b.echKeys = none)
    (h : installEchIfConfigured boring env ech b = .ok c) :
    ∃ keys, c = { b with echKeys := keys } ∧ KeysIn boring env ech keys := by
  cases ech with
  | none =>
    cases h
    exact ⟨none,by rw [← hb],fun _ => rfl,by simp⟩
  | some e =>
    obtain ⟨key,hkey,h⟩ := bind_eq_ok.mp h
    obtain ⟨config,hconfig,rfl⟩ := EchServerKey.installOnCtxBuilder_eq_ok h
    refine ⟨_,rfl,by simp,?_⟩
    intro e he
    cases he
    exact ⟨key,config,EchServerKey.read_eq_ok.mp (mapError_eq_ok.mp hkey),hconfig,rfl⟩

theorem installAlpnCallback_eq_ok (h : installAlpnCallback env b = .ok c) :
    c = { b with alpn := alpnWire [H2,HTTP11] } := by
  obtain ⟨-,-,h⟩ := bind_eq_ok.mp h
  cases h
  rfl

theorem setPem_eq_ok {certPem keyPem : String} (h : setPem env certPem keyPem = .ok b) :
    env.checkPrivateKey b.leaf b.privateKey = true ∧ b.echKeys = none := by
  obtain ⟨x509s,-,h⟩ := bind_eq_ok.mp h
  obtain ⟨leaf,-,h⟩ := bind_eq_ok.mp h
  obtain ⟨-,-,h⟩ := bind_eq_ok.mp h
  obtain ⟨-,-,h⟩ := bind_eq_ok.mp h
  obtain ⟨pkey,-,h⟩ := bind_eq_ok.mp h
  obtain ⟨-,-,h⟩ := bind_eq_ok.mp h
  obtain ⟨_,hcheck,h⟩ := bind_eq_ok.mp h
  cases h
  exact ⟨TlsEnv.check_eq_ok.mp hcheck,rfl⟩

theorem buildAcceptorFromPem_builtIn {cert key : String}
    (h : buildAcceptorFromPem boring env cert key ech = .ok c) : c.BuiltIn boring env ech [H2,HTTP11] := by
  obtain ⟨-,-,h⟩ := bind_eq_ok.mp h
  obtain ⟨certs,-,h⟩ := bind_eq_ok.mp h
  obtain ⟨pkey,-,h⟩ := bind_eq_ok.mp h
  obtain ⟨_,hcheck,h⟩ := bind_eq_ok.mp h
  obtain ⟨b,hb,h⟩ := bind_eq_ok.mp h
  obtain rfl := installAlpnCallback_eq_ok hb
  obtain ⟨keys,rfl,hkeys⟩ := installEchIfConfigured_eq_ok rfl h
  exact ⟨TlsEnv.check_eq_ok.mp hcheck,rfl,hkeys⟩

theorem buildAcceptorFromPemStrs_builtIn {certPem keyPem : String}
    (h : buildAcceptorFromPemStrs boring env certPem keyPem ech = .ok c) :
    c.BuiltIn boring env ech [H2,HTTP11] := by
  obtain ⟨-,-,h⟩ := bind_eq_ok.mp h
  obtain ⟨b,hb,h⟩ := bind_eq_ok.mp h
  obtain ⟨b',hb',h⟩ := bind_eq_ok.mp h
  obtain ⟨hpair,hnone⟩ := setPem_eq_ok hb
  obtain rfl := installAlpnCallback_eq_ok hb'
  obtain ⟨keys,rfl,hkeys⟩ := installEchIfConfigured_eq_ok (b := { b with alpn := alpnWire [H2,HTTP11] }) hnone h
  exact ⟨hpair,rfl,hkeys⟩

theorem serverConfig_builtIn {certPem keyPem : String}
    (h : serverConfig boring env certPem keyPem ech = .ok c) : c.BuiltIn boring env ech [H3] := by
  obtain ⟨ctx,hctx,h⟩ := bind_eq_ok.mp h
  obtain ⟨-,-,h⟩ := bind_eq_ok.mp h
  obtain ⟨-,-,h⟩ := bind_eq_ok.mp h
  cases h
  obtain ⟨-,-,hctx⟩ := bind_eq_ok.mp hctx
  obtain ⟨b,hb,hctx⟩ := bind_eq_ok.mp hctx
  obtain ⟨hpair,hnone⟩ := setPem_eq_ok hb
  obtain ⟨keys,rfl,hkeys⟩ := installEchIfConfigured_eq_ok hnone hctx
  exact ⟨hpair,rfl,hkeys⟩

theorem buildInitialTls_builtIn (h : buildInitialTls boring env cfg = .ok c) :
    c.BuiltIn boring env cfg.ech [H2,HTTP11] := by
  unfold buildInitialTls TlsServer.buildStaticWith TlsServer.buildBootstrapWith at h
  cases htls : cfg.tls with
  | static certFile keyFile =>
    simp only [htls] at h
    exact buildAcceptorFromPem_builtIn h
  | acme email staging cacheDir =>
    simp only [htls] at h
    obtain ⟨kp,-,h⟩ := bind_eq_ok.mp h
    exact buildAcceptorFromPemStrs_builtIn h

theorem buildInitialH3Certs_eq_ok {certs : CertSource} (h : buildInitialH3Certs env cfg = .ok certs) :
    ∃ certPem keyPem, certs = .new certPem keyPem := by
  unfold buildInitialH3Certs CertSource.fromStaticCfg at h
  cases htls : cfg.tls with
  | static certFile keyFile =>
    simp only [htls] at h
    obtain ⟨certPem,-,h⟩ := bind_eq_ok.mp h
    obtain ⟨keyPem,-,h⟩ := bind_eq_ok.mp h
    cases h
    exact ⟨certPem,keyPem,rfl⟩
  | acme email staging cacheDir =>
    simp only [htls] at h
    obtain ⟨kp,-,h⟩ := bind_eq_ok.mp h
    cases h
    exact ⟨kp.certPem,kp.keyPem,rfl⟩

end Spec
end EchTunnel
