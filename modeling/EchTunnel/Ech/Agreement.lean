import EchTunnel.H3.Dial
import EchTunnel.Tls.Contexts

/-! What `ech-gen-keys` has written, in use: the key in the contexts of a server, and the list on the
connections of its clients. -/
namespace EchTunnel
open Wire

section GenKeys
variable {boring : Boring} {publicName out : String} {env : GenKeysEnv}
  {files files' : String → Option Bytes} {lines : List String}

theorem write_eq_true {path : String} {content : Bytes} {w : Files.Write}
    (h : Files.write files path content w = (files',true)) :
    files' = Function.update files path (some content) := by
  cases w with
  | done =>
    cases h
    rfl
  | refused => cases h
  | torn n => cases h

theorem marshalConfigList_eq_ok {k : EchServerKey} {list : Bytes} (h : k.marshalConfigList boring = .ok list) :
    ∃ config, k.marshalConfig boring = .ok config ∧ list = toBe 2 config.length ++ config := by
  unfold EchServerKey.marshalConfigList at h
  split at h
  · cases h
  rename_i config hconfig
  split_ifs at h
  cases h
  exact ⟨config,hconfig,rfl⟩

/-- A run that succeeds leaves a pair. -/
theorem echGenKeys_holdsPair (h : echGenKeys boring publicName out env files = (files',.ok lines)) :
    ∃ k, HoldsPair boring out files' k := by
  unfold echGenKeys at h
  split at h
  · cases h
  split at h
  · cases h
  rename_i key hkey
  split at h
  · cases h
  rename_i files₁ hwrite
  split at h
  · cases h
  rename_i list hlist
  split at h
  · cases h
  rename_i files₂ hwritten
  obtain ⟨rfl,-⟩ := Prod.mk.inj h
  obtain rfl := write_eq_true hwritten
  unfold EchServerKey.writeTo at hwrite
  split at hwrite
  · cases hwrite
  rename_i buf hbuf
  split at hwrite
  · rename_i files₃ hw
    obtain ⟨rfl,-⟩ := Prod.mk.inj hwrite
    obtain rfl := write_eq_true hw
    refine ⟨key,buf,list,hbuf,hlist,?_,Function.update_self ..⟩
    rw [Function.update_of_ne (keyPath_ne_listPath out), Function.update_self]
  · cases hwrite

end GenKeys

/-- Nothing leaves a connection before it has the list. -/
def Armed (list : Bytes) (t : DialTrace) : Prop :=
  ∀ call u, call :: u <:+ t → call.sends = true → .setEchConfigList list true ∈ u

section Armed
variable {env : DialEnv} {cfg : ClientCfg} {builder : List Root} {src : ClientEch} {list : Bytes}
  {t : DialTrace}

theorem Ready.mem (h : Ready env cfg builder t) (hsrc : cfg.ech = some src)
    (hload : loadClientConfigList env.decodeB64 env.files src = .ok list) :
    .setEchConfigList list true ∈ t := by
  obtain ⟨ctx,_,-,⟨hnone,-⟩ | ⟨src',bytes,hsome,hbytes,rfl⟩,rfl⟩ := h
  · rw [hsrc] at hnone
    cases hnone
  · rw [hsrc, Option.some.injEq] at hsome
    rw [← hsome, hload, Except.ok.injEq] at hbytes
    simp [hbytes]

theorem Guarded.armed (h : Guarded env cfg builder t) (hsrc : cfg.ech = some src)
    (hload : loadClientConfigList env.decodeB64 env.files src = .ok list) : Armed list t := by
  intro call u hu hc
  obtain ⟨hs,o,rfl,ho,-⟩ := h.sends hu hc
  exact List.mem_append_right hs (ho.mem hsrc hload)

end Armed

section Server
variable {boring : Boring} {cfg : ServerCfg} {s : Contexts} {e : ServerEch} {buf config : Bytes}
  {key : EchServerKey}

/-- From one key file, one key. -/
theorem KeysIn.eq {env : TlsEnv} {keys : Option EchKeys} (h : KeysIn boring env cfg.ech keys)
    (hech : cfg.ech = some e) (hfile : env.files e.keyFile = some buf) (hbuf : key.buf = .ok buf)
    (hconfig : key.marshalConfig boring = .ok config) : keys = some ⟨key,config,true⟩ := by
  obtain ⟨key',config',hread,hconfig',hkeys⟩ := h.on e hech
  rw [EchServerKey.readFrom_some _ _ hfile, EchServerKey.parse_eq_ok_iff.mpr hbuf] at hread
  cases hread
  rw [hconfig] at hconfig'
  cases hconfig'
  exact hkeys

end Server

/-- Keys that have been generated once and stay where they are: every connection that the server accepts,
over TCP and over QUIC, before and after any installation of a certificate, is accepted with a context for
one and the same config, and nothing leaves a client with the list before the list with this very config has
been given to the connection. -/
theorem ech_config_agrees (boring : Boring) {publicName out : String} {env : GenKeysEnv}
    {files files' : String → Option Bytes} {lines : List String}
    (hrun : echGenKeys boring publicName out env files = (files',.ok lines)) {cfg : ServerCfg}
    {name : String} (hech : cfg.ech = some ⟨name,keyPath out⟩) {tlsEnv h3Env acmeEnv : TlsEnv} {x : X509}
    {now : ℕ} {cache : Cache} {s₀ : Contexts}
    (hstart : Contexts.start boring tlsEnv h3Env acmeEnv x now cache cfg = .ok s₀)
    (acts : List Contexts.Act)
    (hfile : ∀ env ∈ tlsEnv :: acmeEnv :: acts.flatMap Contexts.Act.envs,
      env.files (keyPath out) = files' (keyPath out))
    {clientCfg : ClientCfg} {src : ClientEch} (hsrc : clientCfg.ech = some src) (upstream : String)
    (dials : List Dialer.Act) :
    let s := Run.run (Contexts.step boring) s₀ acts
    let d := Run.run Dialer.step (.new clientCfg upstream) dials
    ∃ key config list, list = toBe 2 config.length ++ config ∧ files' (listPath out) = some list ∧
      (∀ c ∈ s.acceptor :: s.tcp, c.echKeys = some ⟨key,config,true⟩) ∧
      (∀ c, some c ∈ s.cached :: s.quic → c.context.echKeys = some ⟨key,config,true⟩) ∧
      (∀ a ∈ d.attempts, loadClientConfigList a.env.decodeB64 a.env.files src = .ok list →
        Armed list a.conn) ∧
      ∀ env tls, loadClientConfigList env.decodeB64 env.files src = .ok list →
        TlsClient.build env clientCfg = .ok tls → ∀ env', Armed list (tls.connect env' clientCfg.sni).1 := by
  intro s d
  obtain ⟨key,buf,list,hbuf,hlist,hkeyFile,hlistFile⟩ := echGenKeys_holdsPair hrun
  obtain ⟨config,hconfig,hlist⟩ := marshalConfigList_eq_ok hlist
  have hkept : s.Kept boring (fun env => env.files (keyPath out) = files' (keyPath out)) cfg :=
    .reached hstart acts hfile
  have hkeys : ∀ {env : TlsEnv} {keys}, env.files (keyPath out) = files' (keyPath out) →
      KeysIn boring env cfg.ech keys → keys = some ⟨key,config,true⟩ :=
    fun henv h => h.eq hech (henv.trans hkeyFile) hbuf hconfig
  refine ⟨key,config,list,hlist,hlistFile,?_,?_,?_,?_⟩
  · intro c hc
    obtain ⟨env,henv,hbuilt⟩ := hkept.acceptors hc
    exact hkeys henv hbuilt.keys
  · intro c hc
    obtain ⟨env,henv,hbuilt⟩ := hkept.h3Contexts hc
    exact hkeys henv hbuilt.keys
  · intro a ha hload
    have hd : d.Kept clientCfg := Run.induction (fun _ a hd => hd.step a) dials (.new clientCfg upstream)
    exact (hd.attempts a ha).guarded.armed hsrc hload
  · intro env tls hload hbuild env'
    exact (TlsClient.connect_guarded hbuild).armed hsrc hload

def ClientCfg.listed : ClientCfg := { ClientCfg.plain with ech := some (.file (listPath ".")) }

/-- Surroundings in which the server answers, and the client has got a copy of the files. -/
def DialEnv.copied : DialEnv := { DialEnv.answered fun _ => true with files := zeroFiles }

/-- The first session of a client. -/
def Dialer.first : List Dialer.Act := [.queue .arrive,.dial .copied [],.handshake (.packet [2])]

theorem ech_config_agrees_zero :
    let acts : List Contexts.Act := [.acceptTcp,.install (.willing zeroFiles) ⟨"c","k"⟩,.swapTls,.acceptTcp,
      .swapCerts,.load,.configured (.willing zeroFiles)]
    let s := Run.run (Contexts.step zeroBoring) .bootstrap acts
    let d := Run.run Dialer.step (.new .listed "example.com:443") Dialer.first
    s.tcp.length = 2 ∧ s.quic.length = 1 ∧ d.attempts.map (fun a => a.conn.length) = [6] ∧
      ∃ key config list, list = toBe 2 config.length ++ config ∧ zeroFiles (listPath ".") = some list ∧
        (∀ c ∈ s.acceptor :: s.tcp, c.echKeys = some ⟨key,config,true⟩) ∧
        (∀ c, some c ∈ s.cached :: s.quic → c.context.echKeys = some ⟨key,config,true⟩) ∧
        (∀ a ∈ d.attempts, loadClientConfigList a.env.decodeB64 a.env.files (.file (listPath ".")) = .ok list →
          Armed list a.conn) ∧
        ∀ env tls, loadClientConfigList env.decodeB64 env.files (.file (listPath ".")) = .ok list →
          TlsClient.build env .listed = .ok tls → ∀ env', Armed list (tls.connect env' ClientCfg.listed.sni).1 := by
  intro acts s d
  refine ⟨by decide,by decide,by decide,?_⟩
  have hrun : ∃ lines, echGenKeys zeroBoring "a.example" "."
      ⟨true,some (Vector.replicate 32 0),7,.done,.done⟩ (fun _ => none) = (zeroFiles,.ok lines) := ⟨_,rfl⟩
  obtain ⟨lines,hrun⟩ := hrun
  exact ech_config_agrees zeroBoring hrun (rfl : ServerCfg.keyed.ech = _) Contexts.start_bootstrap acts
    (by simp [acts, Contexts.Act.envs, TlsEnv.willing]) rfl "example.com:443" Dialer.first

end EchTunnel
