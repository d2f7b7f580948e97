import EchTunnel.Ech.PrintedOptions
import EchTunnel.H3.Requests

/-! What a client does before its ClientHello leaves, on both transports: the certificates it trusts, and
the ECHConfigList it installs. -/
namespace EchTunnel
open Wire

/-- Certificates that a store trusts: those of the system, or the first one of a PEM file. -/
inductive Root
  | system
  | pem (bytes : Bytes)
  deriving Repr, DecidableEq

/-- What a context decides of a handshake. -/
structure SslContext where
  roots : List Root
  verifyPeer : Bool
  deriving Repr, DecidableEq

/-- A call on the connection to the server. `ssl` makes its TLS state for a server name, `handshake` is
the handshake over TCP. -/
inductive DialCall
  | ssl (sni : String) (ctx : SslContext)
  | setEchConfigList (list : Bytes) (ok : Bool)
  | handshake (ok : Bool)
  | recv (peer : SocketAddr) (pkt : Bytes)
  | onTimeout
  | flushPackets (ok : Bool)
  | withTransport (ok : Bool)
  deriving Repr, DecidableEq

/-- Newest call first. -/
abbrev DialTrace := List DialCall

/-- Whether something may leave the socket in a call, also in one that fails. -/
def DialCall.sends : DialCall → Bool
  | .handshake _ | .flushPackets _ => true
  | _ => false

def DialCall.opens : DialCall → Bool
  | .ssl .. | .setEchConfigList .. => true
  | _ => false

/-- Calls to BoringSSL, `quiche` and the system that only succeed or fail. -/
inductive DialStep
  | sslContext
  | verifyPaths
  | addCert (pem : Bytes)
  | alpn
  | fingerprint (params : FingerprintParams)
  | configure
  | intoSsl (sni : String)
  | quicheConfig
  | bind
  | connectUdp (peer : SocketAddr)
  | localAddr
  | quicheConnect
  | h3Config
  deriving Repr, DecidableEq

inductive DialError
  | step (s : DialStep)
  | read (path : String)
  | configList (e : ConfigListError)
  | unknownFingerprint (name : String)
  | resolve (upstream : String)
  | noAddress (upstream : String)
  | installEch
  | handshake
  | flush
  | recv
  | timedOut
  | failed
  | h3Init
  deriving Repr, DecidableEq

/-- What files and third parties answer while a client dials, and the surroundings of the session that
comes of it. `connector` is what a fresh `SslConnector` builder holds. -/
structure DialEnv where
  files : String → Option Bytes
  decodeB64 : String → Option Bytes
  random : UInt8
  succeeds : DialStep → Bool
  connector : SslContext
  connector_verifies : connector.verifyPeer = true
  lookupHost : String → Option (List SocketAddr)
  setEchConfigList : Bytes → Bool
  handshake : DialTrace → Bool
  isEstablished : DialTrace → Bool
  isClosed : DialTrace → Bool
  flushPackets : DialTrace → Bool
  withTransport : DialTrace → Bool
  session : OrderedEnv

namespace DialEnv
variable (env : DialEnv)

def call (s : DialStep) : Except DialError Unit := if env.succeeds s then .ok () else .error (.step s)

def read (path : String) : Except DialError Bytes :=
  match env.files path with
  | none => .error (.read path)
  | some bytes => .ok bytes

def configList (src : ClientEch) : Except DialError Bytes :=
  (loadClientConfigList env.decodeB64 env.files src).mapError .configList

/-- The result of `install_client_ech_config_list`, and the call. -/
def installClientEchConfigList (t : DialTrace) (list : Bytes) : DialTrace × Except DialError Unit :=
  let ok := env.setEchConfigList list
  (.setEchConfigList list ok :: t,if ok then .ok () else .error .installEch)

end DialEnv

structure TlsClient where
  context : SslContext
  alpn : List Bytes
  fingerprint : Option FingerprintParams
  echConfigList : Option Bytes
  deriving Repr, DecidableEq

namespace TlsClient

def trust (env : DialEnv) : ClientTrust → Except DialError SslContext
  | .systemRoots => do
    env.call .verifyPaths
    return { env.connector with roots := env.connector.roots ++ [.system] }
  | .caFile path => do
    let pem ← env.read path
    env.call (.addCert pem)
    return ⟨env.connector.roots ++ [.pem pem],true⟩
  | .insecureSkipVerify => .ok { env.connector with verifyPeer := false }

def shape (env : DialEnv) : Option String → Except DialError (Option FingerprintParams)
  | none => .ok none
  | some name =>
    match resolveFingerprint env.random name with
    | none => .error (.unknownFingerprint name)
    | some params => do
      env.call (.fingerprint params)
      return some params

def loadList (env : DialEnv) : Option ClientEch → Except DialError (Option Bytes)
  | none => .ok none
  | some src => (env.configList src).map some

def build (env : DialEnv) (cfg : ClientCfg) : Except DialError TlsClient := do
  env.call .sslContext
  let context ← trust env cfg.trust
  env.call .alpn
  let fingerprint ← shape env cfg.fingerprint
  let list ← loadList env cfg.ech
  return ⟨context,[utf8 "h2",utf8 "http/1.1"],fingerprint,list⟩

/-- A handshake over an established TCP connection, and the calls it takes. -/
def connect (env : DialEnv) (tls : TlsClient) (sni : String) : DialTrace × Except DialError Unit :=
  match env.call .configure, env.call (.intoSsl sni) with
  | .error e, _ => ([],.error e)
  | .ok (), .error e => ([],.error e)
  | .ok (), .ok () =>
    let (t,armed) : DialTrace × Except DialError Unit :=
      match tls.echConfigList with
      | none => ([.ssl sni tls.context],.ok ())
      | some list => env.installClientEchConfigList [.ssl sni tls.context] list
    match armed with
    | .error e => (t,.error e)
    | .ok () =>
      let ok := env.handshake t
      (.handshake ok :: t,if ok then .ok () else .error .handshake)

end TlsClient

/-- The roots that the option for trust names. -/
def ClientTrust.Names (files : String → Option Bytes) : ClientTrust → Root → Prop
  | .systemRoots, root => root = .system
  | .caFile path, root => ∃ pem ∈ files path, root = .pem pem
  | .insecureSkipVerify, _ => False

/-- The certificates of a handshake are checked as the configuration says: unless the checks are off, against
the roots that the option names, and those that the builder of the context came with. -/
structure ClientTrust.Holds (trust : ClientTrust) (files : String → Option Bytes) (builder : List Root)
    (ctx : SslContext) : Prop where
  verifies : ctx.verifyPeer = true ↔ trust ≠ .insecureSkipVerify
  roots : ∀ root, root ∈ ctx.roots ↔ root ∈ builder ∨ trust.Names files root

/-- The list that the option for ECH stands for, if there is one. -/
def DialEnv.Lists (env : DialEnv) (ech : Option ClientEch) (list : Option Bytes) : Prop :=
  (ech = none ∧ list = none) ∨ ∃ src bytes, ech = some src ∧
    loadClientConfigList env.decodeB64 env.files src = .ok bytes ∧ list = some bytes

/-- A connection on which nothing has been sent yet and which is ready for it: it is for the configured
name, and where ECH is configured it has the list that the option stands for. -/
def Ready (env : DialEnv) (cfg : ClientCfg) (builder : List Root) (t : DialTrace) : Prop :=
  ∃ ctx list, cfg.trust.Holds env.files builder ctx ∧ env.Lists cfg.ech list ∧
    t = (list.map (.setEchConfigList · true)).toList ++ [.ssl cfg.sni ctx]

/-- A connection that was ready before anything else happened on it. -/
def Prepared (env : DialEnv) (cfg : ClientCfg) (builder : List Root) (t : DialTrace) : Prop :=
  ∃ hs o, t = hs ++ o ∧ Ready env cfg builder o ∧ ∀ call ∈ hs, call.opens = false

/-- Nothing has left a connection that is not prepared. -/
def Guarded (env : DialEnv) (cfg : ClientCfg) (builder : List Root) (t : DialTrace) : Prop :=
  Prepared env cfg builder t ∨ ∀ call ∈ t, call.sends = false

section Prepared
variable {env : DialEnv} {cfg : ClientCfg} {builder : List Root} {t : DialTrace} {call : DialCall}

theorem Ready.prepared (h : Ready env cfg builder t) : Prepared env cfg builder t := ⟨[],t,rfl,h,by simp⟩

theorem Ready.silent (h : Ready env cfg builder t) : ∀ call ∈ t, call.sends = false := by
  obtain ⟨ctx,list,-,-,rfl⟩ := h
  cases list with
  | none => simp [DialCall.sends]
  | some bytes => simp [DialCall.sends]

theorem Prepared.cons (h : Prepared env cfg builder t) (hc : call.opens = false) :
    Prepared env cfg builder (call :: t) := by
  obtain ⟨hs,o,rfl,ho,hh⟩ := h
  refine ⟨call :: hs,o,rfl,ho,?_⟩
  intro c hm
  obtain rfl | hm := List.mem_cons.mp hm
  · exact hc
  · exact hh c hm

theorem Prepared.guarded (h : Prepared env cfg builder t) : Guarded env cfg builder t := Or.inl h

/-- At the time something leaves, the connection is prepared. -/
theorem Guarded.sends {u : DialTrace} (h : Guarded env cfg builder u) (hu : call :: t <:+ u)
    (hc : call.sends = true) : Prepared env cfg builder t := by
  obtain ⟨hs,o,rfl,ho,hh⟩ | h := h
  · induction hs with
    | nil =>
      have hno := ho.silent call (hu.subset List.mem_cons_self)
      exact absurd hc (by simp [hno])
    | cons d hs ih =>
      obtain he | hu := List.suffix_cons_iff.mp hu
      · obtain ⟨rfl,rfl⟩ := List.cons.inj he
        exact ⟨hs,o,rfl,ho,fun c hm => hh c (List.mem_cons_of_mem _ hm)⟩
      · exact ih hu fun c hm => hh c (List.mem_cons_of_mem _ hm)
  · exact absurd hc (by simp [h call (hu.subset List.mem_cons_self)])

end Prepared

section Tcp
variable {env env' : DialEnv} {cfg : ClientCfg} {tls : TlsClient}

theorem DialEnv.read_eq_ok {path : String} {bytes : Bytes} :
    env.read path = .ok bytes ↔ env.files path = some bytes := by
  unfold read
  cases env.files path <;> simp

theorem DialEnv.configList_eq_ok {src : ClientEch} {list : Bytes} : env.configList src = .ok list ↔
    loadClientConfigList env.decodeB64 env.files src = .ok list := mapError_eq_ok

/-- Over TCP the option adds to the roots of the connector. -/
theorem TlsClient.trust_holds {trust : ClientTrust} {ctx : SslContext}
    (h : TlsClient.trust env trust = .ok ctx) : trust.Holds env.files env.connector.roots ctx := by
  cases trust with
  | systemRoots =>
    obtain ⟨-,-,h⟩ := bind_eq_ok.mp h
    cases h
    exact ⟨by simp [env.connector_verifies],by simp [ClientTrust.Names]⟩
  | caFile path =>
    obtain ⟨pem,hp,h⟩ := bind_eq_ok.mp h
    obtain ⟨-,-,h⟩ := bind_eq_ok.mp h
    cases h
    exact ⟨by simp,by simp [ClientTrust.Names, DialEnv.read_eq_ok.mp hp]⟩
  | insecureSkipVerify =>
    cases h
    exact ⟨by simp,by simp [ClientTrust.Names]⟩

theorem TlsClient.loadList_lists {ech : Option ClientEch} {list : Option Bytes}
    (h : loadList env ech = .ok list) : env.Lists ech list := by
  cases ech with
  | none =>
    cases h
    exact Or.inl ⟨rfl,rfl⟩
  | some src =>
    rw [loadList] at h
    cases hl : env.configList src with
    | error e => simp [hl, Except.map] at h
    | ok bytes =>
      simp only [hl, Except.map, Except.ok.injEq] at h
      exact Or.inr ⟨src,bytes,rfl,DialEnv.configList_eq_ok.mp hl,h.symm⟩

theorem TlsClient.build_holds (h : TlsClient.build env cfg = .ok tls) :
    cfg.trust.Holds env.files env.connector.roots tls.context ∧ env.Lists cfg.ech tls.echConfigList := by
  obtain ⟨-,-,h⟩ := bind_eq_ok.mp h
  obtain ⟨ctx,hctx,h⟩ := bind_eq_ok.mp h
  obtain ⟨-,-,h⟩ := bind_eq_ok.mp h
  obtain ⟨fp,-,h⟩ := bind_eq_ok.mp h
  obtain ⟨list,hlist,h⟩ := bind_eq_ok.mp h
  cases h
  exact ⟨trust_holds hctx,loadList_lists hlist⟩

/-- A client keeps the list that it has loaded at its start. -/
theorem TlsClient.connect_guarded (h : TlsClient.build env cfg = .ok tls) :
    Guarded env cfg env.connector.roots (tls.connect env' cfg.sni).1 := by
  obtain ⟨htrust,hlist⟩ := build_holds h
  unfold connect
  cases env'.call .configure with
  | error e => exact Or.inr (by simp)
  | ok =>
    cases env'.call (.intoSsl cfg.sni) with
    | error e => exact Or.inr (by simp)
    | ok =>
      cases hl : tls.echConfigList with
      | none =>
        have hready : Ready env cfg env.connector.roots [.ssl cfg.sni tls.context] :=
          ⟨_,_,htrust,hlist,by simp [hl]⟩
        exact (hready.prepared.cons rfl).guarded
      | some list =>
        by_cases hs : env'.setEchConfigList list = true
        · have hready : Ready env cfg env.connector.roots
              [.setEchConfigList list true,.ssl cfg.sni tls.context] := ⟨_,_,htrust,hlist,by simp [hl]⟩
          simp only [DialEnv.installClientEchConfigList, hs, if_true]
          exact (hready.prepared.cons rfl).guarded
        · simp only [DialEnv.installClientEchConfigList, hs]
          exact Or.inr (by simp [DialCall.sends])

end Tcp
end EchTunnel
