import EchTunnel.Tls.Server

/-! The contexts of a running server: those it starts with, those that certificates are installed in, and
those that connections are accepted with. -/
namespace EchTunnel
open Wire

/-- A cached configuration together with its context. -/
structure CachedContext extends CachedConfig where
  context : ServerContext
  deriving Repr, DecidableEq

/-- How far an installation has got: the acceptor has been built; it is live, and the HTTP/3 listener has
not been told yet. -/
inductive Installing
  | idle
  | built (material : CertMaterial) (acceptor : ServerContext)
  | live (material : CertMaterial)
  deriving Repr, DecidableEq

/-- The contexts of a server. `loaded` is the PEM that a call of `ensure_config` works on; `tcp` and `quic`
tell of the connections, each by the context it was accepted with, if it was not refused. -/
structure Contexts where
  cfg : ServerCfg
  acceptor : ServerContext
  certs : Option CertSource
  cached : Option CachedContext
  installing : Installing
  loaded : Option Pem
  tcp : List ServerContext
  quic : List (Option CachedContext)
  deriving Repr, DecidableEq

namespace Contexts
variable (boring : Boring)

def new (cfg : ServerCfg) (acceptor : ServerContext) (certs : Option CertSource) : Contexts :=
  ⟨cfg,acceptor,certs,none,.idle,none,[],[]⟩

/-- `install_material`. -/
def install (env : TlsEnv) (s : Contexts) (material : CertMaterial) : Except TlsError Contexts := do
  let acceptor ← buildAcceptorFromPemStrs boring env material.certPem material.keyPem s.cfg.ech
  return { s with acceptor, certs := s.certs.map fun certs => certs.swap material.certPem material.keyPem }

/-- What there is to be swapped for HTTP/3, if that is on. -/
def h3Certs (env : TlsEnv) (cfg : ServerCfg) : Except TlsError (Option CertSource) :=
  if cfg.http3 then (buildInitialH3Certs env cfg).map some else .ok none

/-- `run` up to the accept loop. The acceptor, the certificate for HTTP/3 and the cached certificate each
have surroundings of their own, since all three read files and the first two draw keys. -/
def start (tlsEnv h3Env acmeEnv : TlsEnv) (x : X509) (now : ℕ) (cache : Cache) (cfg : ServerCfg) :
    Except TlsError Contexts := do
  let acceptor ← buildInitialTls boring tlsEnv cfg
  let certs ← h3Certs h3Env cfg
  let s := new cfg acceptor certs
  match cfg.tls, loadCached x now cache with
  | .acme .., some material => s.install boring acmeEnv material
  | _, _ => return s

/-- `ensure_config` once it has loaded `pem`. -/
def ensureConfig (env : TlsEnv) (cfg : ServerCfg) (cached : Option CachedContext) (pem : Pem) :
    Except TlsError CachedContext :=
  let build := do
    let context ← serverConfig boring env pem.certPem pem.keyPem cfg.ech
    return ⟨⟨pem.generation,pem.config cfg⟩,context⟩
  match cached with
  | some c => if c.generation = pem.generation then .ok c else build
  | none => build

/-- The ACME task installs a certificate: it builds the acceptor, swaps it in, and tells the HTTP/3
listener. A TCP connection takes the acceptor. `ensure_config` loads the PEM, and returns. -/
inductive Act
  | install (env : TlsEnv) (material : CertMaterial)
  | swapTls
  | swapCerts
  | acceptTcp
  | load
  | configured (env : TlsEnv)

def step (s : Contexts) : Act → Contexts
  | .install env material =>
    match s.cfg.tls, s.installing with
    | .acme .., .idle =>
      match buildAcceptorFromPemStrs boring env material.certPem material.keyPem s.cfg.ech with
      | .error _ => s
      | .ok acceptor => { s with installing := .built material acceptor }
    | _, _ => s
  | .swapTls =>
    match s.installing with
    | .built material acceptor => { s with acceptor, installing := .live material }
    | _ => s
  | .swapCerts =>
    match s.installing with
    | .live material =>
      { s with
        certs := s.certs.map fun certs => certs.swap material.certPem material.keyPem
        installing := .idle }
    | _ => s
  | .acceptTcp => { s with tcp := s.tcp ++ [s.acceptor] }
  | .load =>
    match s.loaded, s.certs with
    | none, some certs => { s with loaded := some certs.current }
    | _, _ => s
  | .configured env =>
    match s.loaded with
    | none => s
    | some pem =>
      match ensureConfig boring env s.cfg s.cached pem with
      | .error _ => { s with loaded := none, quic := s.quic ++ [none] }
      | .ok c => { s with cached := some c, loaded := none, quic := s.quic ++ [some c] }

/-- The installation at the start, of a cached certificate. -/
def first (env : TlsEnv) (x : X509) (now : ℕ) (cache : Cache) (cfg : ServerCfg) : List Act :=
  match cfg.tls, loadCached x now cache with
  | .acme .., some material => [.install env material,.swapTls,.swapCerts]
  | _, _ => []

section Abstract
variable {boring} {s : Contexts} {env : TlsEnv}

/-- Whether an acceptor can be built from a material. -/
def builds (boring : Boring) (env : TlsEnv) (ech : Option ServerEch) (material : CertMaterial) : Bool :=
  (buildAcceptorFromPemStrs boring env material.certPem material.keyPem ech).isOk

/-- Of the acceptors all that matters for the certificates is whether they can be built. -/
theorem install_installMaterial (tls : TlsServer) (material : CertMaterial) :
    installMaterial (builds boring env s.cfg.ech) tls s.certs material =
      (s.install boring env material).toOption.map fun s' => (tls.swap material,s'.certs) := by
  unfold installMaterial builds install
  cases buildAcceptorFromPemStrs boring env material.certPem material.keyPem s.cfg.ech with
  | error e => rfl
  | ok acceptor => rfl

/-- An installation that nothing comes between is `install_material`, or nothing. -/
theorem run_install {email cacheDir : String} {staging : Bool} (htls : s.cfg.tls = .acme email staging cacheDir)
    (h : s.installing = .idle) (material : CertMaterial) :
    Run.run (step boring) s [.install env material,.swapTls,.swapCerts] =
      (s.install boring env material).toOption.getD s := by
  unfold install
  cases hb : buildAcceptorFromPemStrs boring env material.certPem material.keyPem s.cfg.ech with
  | error e => simp [Run.run, step, htls, h, hb, Except.toOption, bind, Except.bind]
  | ok acceptor => simp [Run.run, step, htls, h, hb, Except.toOption, bind, Except.bind, pure, Except.pure]

/-- The cache forgets the contexts. -/
theorem ensureConfig_refresh (cfg : ServerCfg) (cached : Option CachedContext) (pem : Pem) :
    refresh cfg (cached.map CachedContext.toCachedConfig) pem
        (serverConfig boring env pem.certPem pem.keyPem cfg.ech).isOk =
      (ensureConfig boring env cfg cached pem).toOption.map CachedContext.toCachedConfig := by
  have hbuild : ∀ r : Except TlsError ServerContext,
      (if r.isOk then some (⟨pem.generation,pem.config cfg⟩ : CachedConfig) else none) =
        (r >>= fun context => pure (⟨⟨pem.generation,pem.config cfg⟩,context⟩ : CachedContext)).toOption.map
          CachedContext.toCachedConfig := by
    intro r
    cases r with
    | error e => rfl
    | ok context => rfl
  unfold refresh ensureConfig
  cases cached with
  | none => exact hbuild _
  | some c =>
    by_cases hg : c.generation = pem.generation
    · simp only [Option.map_some, if_pos hg]
      rfl
    · simp only [Option.map_some, if_neg hg]
      exact hbuild _

end Abstract

/-- The surroundings in which something is built. -/
def Act.envs : Act → List TlsEnv
  | .install env _ | .configured env => [env]
  | _ => []

/-- An acceptor that has been built in surroundings of the kind `P`. -/
def Keyed (P : TlsEnv → Prop) (cfg : ServerCfg) (c : ServerContext) : Prop :=
  ∃ env, P env ∧ c.BuiltIn boring env cfg.ech [H2,HTTP11]

/-- A context for HTTP/3 that is what its configuration says. -/
def Made (P : TlsEnv → Prop) (cfg : ServerCfg) (c : CachedContext) : Prop :=
  c.config.ech = cfg.ech ∧ ∃ env, P env ∧
    serverConfig boring env c.config.certPem c.config.keyPem cfg.ech = .ok c.context

/-- All contexts have been built for `cfg`. -/
structure Kept (P : TlsEnv → Prop) (cfg : ServerCfg) (s : Contexts) : Prop where
  config : s.cfg = cfg
  acceptor : Keyed boring P cfg s.acceptor
  built : ∀ material acceptor, s.installing = .built material acceptor → Keyed boring P cfg acceptor
  cached : ∀ c ∈ s.cached, Made boring P cfg c
  tcp : ∀ c ∈ s.tcp, Keyed boring P cfg c
  quic : ∀ c, some c ∈ s.quic → Made boring P cfg c

section Kept
variable {boring} {P : TlsEnv → Prop} {cfg : ServerCfg} {s : Contexts} {env : TlsEnv}

/-- What is asked for is in the cache, or it is built. -/
theorem ensureConfig_eq_ok {cached : Option CachedContext} {pem : Pem} {c : CachedContext}
    (h : ensureConfig boring env cfg cached pem = .ok c) :
    cached = some c ∨ c.toCachedConfig = ⟨pem.generation,pem.config cfg⟩ ∧
      serverConfig boring env pem.certPem pem.keyPem cfg.ech = .ok c.context := by
  have hbuild : (do
      let context ← serverConfig boring env pem.certPem pem.keyPem cfg.ech
      return ⟨⟨pem.generation,pem.config cfg⟩,context⟩ : Except TlsError CachedContext) = .ok c →
      c.toCachedConfig = ⟨pem.generation,pem.config cfg⟩ ∧
        serverConfig boring env pem.certPem pem.keyPem cfg.ech = .ok c.context := by
    intro h
    obtain ⟨context,hcontext,h⟩ := bind_eq_ok.mp h
    cases h
    exact ⟨rfl,hcontext⟩
  unfold ensureConfig at h
  cases cached with
  | none => exact Or.inr (hbuild h)
  | some c' =>
    simp only at h
    split_ifs at h
    · cases h
      exact Or.inl rfl
    · exact Or.inr (hbuild h)

theorem Made.ensureConfig {cached : Option CachedContext} {pem : Pem} {c : CachedContext}
    (hcached : ∀ c ∈ cached, Made boring P cfg c) (he : P env)
    (h : ensureConfig boring env cfg cached pem = .ok c) : Made boring P cfg c := by
  obtain hc | ⟨hconfig,hbuilt⟩ := ensureConfig_eq_ok h
  · exact hcached c hc
  · rw [Made, hconfig]
    exact ⟨rfl,env,he,hbuilt⟩

theorem Kept.step (h : s.Kept boring P cfg) {a : Act} (ha : ∀ env ∈ a.envs, P env) :
    (step boring s a).Kept boring P cfg := by
  cases a with
  | install env material =>
    rw [Contexts.step]
    split
    · split
      · exact h
      · rename_i acceptor hacceptor
        rw [h.config] at hacceptor
        refine { h with built := ?_ }
        intro m c hm
        cases hm
        exact ⟨env,ha env List.mem_cons_self,buildAcceptorFromPemStrs_builtIn hacceptor⟩
    · exact h
  | swapTls =>
    rw [Contexts.step]
    split
    · rename_i material acceptor hi
      exact { h with acceptor := h.built material acceptor hi, built := nofun }
    · exact h
  | swapCerts =>
    rw [Contexts.step]
    split
    · exact { h with built := nofun }
    · exact h
  | acceptTcp =>
    refine { h with tcp := ?_ }
    intro c hc
    obtain hc | hc := List.mem_append.mp hc
    · exact h.tcp c hc
    · rw [List.mem_singleton.mp hc]
      exact h.acceptor
  | load =>
    rw [Contexts.step]
    split
    · exact { h with }
    · exact h
  | configured env =>
    rw [Contexts.step]
    split
    · exact h
    · rename_i pem hl
      split
      · refine { h with quic := ?_ }
        intro c hc
        exact h.quic c (by simpa using hc)
      · rename_i c hc
        rw [h.config] at hc
        have hmade := Made.ensureConfig h.cached (ha env List.mem_cons_self) hc
        refine { h with cached := ?_, quic := ?_ }
        · intro c' hc'
          cases hc'
          exact hmade
        · intro c' hc'
          obtain hc' | he := List.mem_append.mp hc'
          · exact h.quic c' hc'
          · cases List.mem_singleton.mp he
            exact hmade

theorem Kept.run (h : s.Kept boring P cfg) {acts : List Act} (ha : ∀ env ∈ acts.flatMap Act.envs, P env) :
    (Run.run (Contexts.step boring) s acts).Kept boring P cfg := by
  have hmem : ∀ a ∈ acts, ∀ env ∈ a.envs, P env := fun a ha' env he => ha env (List.mem_flatMap_of_mem ha' he)
  exact Run.Meets.induction (C := fun _ a => ∀ env ∈ a.envs, P env) (fun _ _ hs ha => hs.step ha) h
    (Run.Meets.of_mem (fun _ => hmem) s)

/-- A server comes up with the acceptor for its first certificate, and has installed a cached one. -/
theorem start_eq_ok {tlsEnv h3Env acmeEnv : TlsEnv} {x : X509} {now : ℕ} {cache : Cache}
    (h : start boring tlsEnv h3Env acmeEnv x now cache cfg = .ok s) :
    ∃ acceptor certs, buildInitialTls boring tlsEnv cfg = .ok acceptor ∧ h3Certs h3Env cfg = .ok certs ∧
      s = Run.run (step boring) (new cfg acceptor certs) (first acmeEnv x now cache cfg) := by
  obtain ⟨acceptor,hacceptor,h⟩ := bind_eq_ok.mp h
  obtain ⟨certs,hcerts,h⟩ := bind_eq_ok.mp h
  refine ⟨acceptor,certs,hacceptor,hcerts,?_⟩
  unfold first
  simp only at h
  split at h
  · rename_i email staging cacheDir material htls hm
    have hup : (new cfg acceptor certs).cfg.tls = .acme email staging cacheDir := htls
    rw [run_install hup rfl, h]
    rfl
  · cases h
    rfl

theorem Kept.reached {tlsEnv h3Env acmeEnv : TlsEnv} {x : X509} {now : ℕ} {cache : Cache}
    (h : Contexts.start boring tlsEnv h3Env acmeEnv x now cache cfg = .ok s) (acts : List Act)
    (hP : ∀ env ∈ tlsEnv :: acmeEnv :: acts.flatMap Act.envs, P env) :
    (Run.run (Contexts.step boring) s acts).Kept boring P cfg := by
  obtain ⟨acceptor,certs,hacceptor,-,rfl⟩ := start_eq_ok h
  have htls := hP tlsEnv List.mem_cons_self
  have hacme := hP acmeEnv (List.mem_cons_of_mem _ List.mem_cons_self)
  have hup : (new cfg acceptor certs).Kept boring P cfg :=
    ⟨rfl,⟨tlsEnv,htls,buildInitialTls_builtIn hacceptor⟩,nofun,nofun,nofun,nofun⟩
  refine (hup.run ?_).run fun env he => hP env (List.mem_cons_of_mem _ (List.mem_cons_of_mem _ he))
  intro env he
  unfold first at he
  split at he
  · simp only [List.flatMap_cons, List.flatMap_nil, Act.envs, List.append_nil, List.mem_singleton] at he
    exact he ▸ hacme
  · cases he

theorem Kept.acceptors (h : s.Kept boring P cfg) {c : ServerContext} (hc : c ∈ s.acceptor :: s.tcp) :
    ∃ env, P env ∧ c.BuiltIn boring env cfg.ech [H2,HTTP11] := by
  obtain rfl | hc := List.mem_cons.mp hc
  · exact h.acceptor
  · exact h.tcp c hc

theorem Kept.made (h : s.Kept boring P cfg) {c : CachedContext} (hc : some c ∈ s.cached :: s.quic) :
    Made boring P cfg c := by
  obtain hc | hc := List.mem_cons.mp hc
  · exact h.cached c hc.symm
  · exact h.quic c hc

theorem Kept.h3Contexts (h : s.Kept boring P cfg) {c : CachedContext} (hc : some c ∈ s.cached :: s.quic) :
    ∃ env, P env ∧ c.context.BuiltIn boring env cfg.ech [H3] := by
  obtain ⟨-,env,he,hcontext⟩ := h.made hc
  exact ⟨env,he,serverConfig_builtIn hcontext⟩

end Kept

/-- The first acceptor, and what it is built from: the files of a static certificate, or the pair that the
server has drawn for itself. A file that is not text has no material to stand for it. -/
def Initial (env : TlsEnv) (cfg : ServerCfg) (material : CertMaterial) (c : ServerContext) : Prop :=
  match cfg.tls with
  | .static certFile keyFile =>
    buildAcceptorFromPem boring env certFile keyFile cfg.ech = .ok c ∧
      (∀ text, env.readToString certFile = .ok text → material.certPem = text) ∧
      ∀ text, env.readToString keyFile = .ok text → material.keyPem = text
  | .acme .. =>
    env.selfSigned cfg.domain = some material ∧
      buildAcceptorFromPemStrs boring env material.certPem material.keyPem cfg.ech = .ok c

/-- What a step installs, and in which surroundings. -/
def installs (s : Contexts) : Act → List (TlsEnv × CertMaterial)
  | .install env material =>
    match s.cfg.tls with
    | .acme .. => [(env,material)]
    | .static .. => []
  | _ => []

/-- An acceptor that has been built from a material: one of those that have been `made`, or the first. -/
def Behind (tlsEnv : TlsEnv) (made : List (TlsEnv × CertMaterial)) (cfg : ServerCfg)
    (material : CertMaterial) (c : ServerContext) : Prop :=
  Initial boring tlsEnv cfg material c ∨ ∃ env, (env,material) ∈ made ∧
    buildAcceptorFromPemStrs boring env material.certPem material.keyPem cfg.ech = .ok c

/-- What the rotation of the certificates does at a step. -/
def seen (s : Contexts) : Act → List Rotation.Act
  | .install env material =>
    match s.cfg.tls with
    | .acme .. => [.install material,.built (builds boring env s.cfg.ech material)]
    | .static .. => []
  | .swapTls => [.swapTls]
  | .swapCerts => [.fetchAdd,.store]
  | .acceptTcp => [.acceptTcp]
  | .load => [.load]
  | .configured env =>
    [.configured (s.loaded.any fun pem =>
      (serverConfig boring env pem.certPem pem.keyPem s.cfg.ech).isOk)]

/-- The rotation of the certificates has come as far as the server. -/
structure Refines (tlsEnv : TlsEnv) (made : List (TlsEnv × CertMaterial)) (s : Contexts) (r : Rotation) :
    Prop where
  config : r.cfg = s.cfg
  certs : s.certs = some r.certs
  swaps : r.certs.nextGeneration = r.swaps + 1
  cached : r.cached = s.cached.map CachedContext.toCachedConfig
  installing : match s.installing with
    | .idle => r.install = .idle
    | .built material acceptor =>
      r.install = .built material ∧ Behind boring tlsEnv made s.cfg material acceptor
    | .live material => r.install = .live material
  loaded : r.loaded = s.loaded
  tls : Behind boring tlsEnv made s.cfg r.tls.acceptor s.acceptor
  tcp : List.Forall₂ (Behind boring tlsEnv made s.cfg) r.tcp s.tcp
  quic : r.quic = s.quic.map (Option.map fun c => c.config)

section Refines
variable {boring} {tlsEnv : TlsEnv} {made made' : List (TlsEnv × CertMaterial)} {s : Contexts} {r : Rotation}

theorem initial_of_build {env : TlsEnv} {cfg : ServerCfg} {c : ServerContext}
    (h : buildInitialTls boring env cfg = .ok c) : ∃ material, Initial boring env cfg material c := by
  unfold buildInitialTls TlsServer.buildStaticWith TlsServer.buildBootstrapWith at h
  unfold Initial
  cases htls : cfg.tls with
  | static certFile keyFile =>
    simp only [htls] at h ⊢
    refine ⟨⟨(env.readToString certFile).toOption.getD "",(env.readToString keyFile).toOption.getD ""⟩,h,?_,?_⟩
    · intro text ht
      simp [ht, Except.toOption]
    · intro text ht
      simp [ht, Except.toOption]
  | acme email staging cacheDir =>
    simp only [htls] at h ⊢
    obtain ⟨kp,hkp,h⟩ := bind_eq_ok.mp h
    exact ⟨kp,okOr_eq_ok.mp hkp,h⟩

theorem Behind.mono {cfg : ServerCfg} {material : CertMaterial} {c : ServerContext} (hm : made ⊆ made')
    (h : Behind boring tlsEnv made cfg material c) : Behind boring tlsEnv made' cfg material c :=
  h.imp_right fun ⟨env,he,hb⟩ => ⟨env,hm he,hb⟩

theorem Refines.mono (h : s.Refines boring tlsEnv made r) (hm : made ⊆ made') :
    s.Refines boring tlsEnv made' r := by
  refine { h with installing := ?_, tls := h.tls.mono hm, tcp := h.tcp.imp fun _ _ hb => hb.mono hm }
  have hi := h.installing
  split at hi
  · exact hi
  · exact hi.imp_right fun hb => hb.mono hm
  · exact hi

/-- An installation begins with its acceptor, unless another one is under way. -/
theorem Refines.install (h : s.Refines boring tlsEnv made r) (env : TlsEnv) (material : CertMaterial) :
    (step boring s (.install env material)).Refines boring tlsEnv (made ++ s.installs (.install env material))
      (Run.run Rotation.step r (s.seen boring (.install env material))) := by
  have hmono := h.mono (List.subset_append_left made (s.installs (.install env material)))
  have hinstall := hmono.installing
  unfold step seen installs at *
  cases htls : s.cfg.tls with
  | static certFile keyFile => simpa [htls] using hmono
  | acme email staging cacheDir =>
    simp only [htls] at hmono hinstall ⊢
    cases hi : s.installing with
    | idle =>
      simp only [hi] at hinstall ⊢
      unfold builds
      cases hb : buildAcceptorFromPemStrs boring env material.certPem material.keyPem s.cfg.ech with
      | error e =>
        simp only [Run.run_cons, Run.run_nil, Rotation.step, hinstall, Except.isOk, Except.toBool,
          Bool.false_eq_true, if_false]
        exact { hmono with installing := by simp only [hi] }
      | ok acceptor =>
        simp only [Run.run_cons, Run.run_nil, Rotation.step, hinstall, Except.isOk, Except.toBool, if_true]
        exact { hmono with
          installing := ⟨rfl,Or.inr ⟨env,List.mem_append_right _ (List.mem_singleton_self _),hb⟩⟩ }
    | built material' acceptor =>
      simp only [hi] at hinstall ⊢
      simpa only [Run.run_cons, Run.run_nil, Rotation.step, hinstall.1] using hmono
    | live material' =>
      simp only [hi] at hinstall ⊢
      simpa only [Run.run_cons, Run.run_nil, Rotation.step, hinstall] using hmono

theorem Refines.swapTls (h : s.Refines boring tlsEnv made r) :
    (step boring s .swapTls).Refines boring tlsEnv made (r.step .swapTls) := by
  have hinstall := h.installing
  unfold Contexts.step
  cases hi : s.installing with
  | idle =>
    simp only [hi] at hinstall ⊢
    simpa only [Rotation.step, hinstall] using h
  | built material acceptor =>
    simp only [hi] at hinstall ⊢
    simp only [Rotation.step, hinstall.1]
    exact { h with installing := rfl, tls := hinstall.2 }
  | live material =>
    simp only [hi] at hinstall ⊢
    simpa only [Rotation.step, hinstall] using h

/-- The counter must have a generation left. -/
theorem Refines.swapCerts (h : s.Refines boring tlsEnv made r)
    (hw : ∀ certs ∈ (step boring s .swapCerts).certs, certs.nextGeneration < 2^64) :
    (step boring s .swapCerts).Refines boring tlsEnv made (Run.run Rotation.step r [.fetchAdd,.store]) := by
  have hinstall := h.installing
  rw [Contexts.step] at hw ⊢
  simp only [Run.run_cons, Run.run_nil]
  cases hi : s.installing with
  | idle =>
    simp only [hi] at hinstall ⊢
    simpa only [Rotation.step, hinstall] using h
  | built material acceptor =>
    simp only [hi] at hinstall ⊢
    simpa only [Rotation.step, hinstall.1] using h
  | live material =>
    simp only [hi] at hinstall hw ⊢
    have hn : r.certs.nextGeneration + 1 < 2^64 :=
      hw (r.certs.swap material.certPem material.keyPem) (by simp [h.certs])
    simp only [Rotation.step, hinstall]
    refine { h with certs := ?_, swaps := ?_, installing := rfl }
    · simp [h.certs, r.certs.swap_eq hn]
    · change (r.certs.nextGeneration + 1) % 2^64 = _
      rw [Nat.mod_eq_of_lt hn, h.swaps]

theorem Refines.load (h : s.Refines boring tlsEnv made r) :
    (step boring s .load).Refines boring tlsEnv made (r.step .load) := by
  have hr := h.loaded
  cases hl : s.loaded with
  | none =>
    rw [hl] at hr
    simp only [Contexts.step, Rotation.step, hl, hr, h.certs]
    exact { h with certs := rfl, loaded := rfl }
  | some pem =>
    rw [hl] at hr
    simpa only [Contexts.step, Rotation.step, hl, hr] using h

/-- `ensure_config` of the one machine is that of the other. -/
theorem Refines.configured (h : s.Refines boring tlsEnv made r) (env : TlsEnv) :
    (step boring s (.configured env)).Refines boring tlsEnv made
      (Run.run Rotation.step r (s.seen boring (.configured env))) := by
  unfold Contexts.step seen
  simp only [Run.run_cons, Run.run_nil, Rotation.step, h.loaded]
  cases hl : s.loaded with
  | none => exact h
  | some pem =>
    have hr : refresh r.cfg r.cached pem (serverConfig boring env pem.certPem pem.keyPem s.cfg.ech).isOk =
        (ensureConfig boring env s.cfg s.cached pem).toOption.map CachedContext.toCachedConfig := by
      rw [h.config, h.cached]
      exact ensureConfig_refresh s.cfg s.cached pem
    simp only [Option.any_some, hr]
    cases hc : ensureConfig boring env s.cfg s.cached pem with
    | error e => exact { h with loaded := rfl, quic := by simp [Except.toOption, h.quic] }
    | ok c => exact { h with cached := rfl, loaded := rfl, quic := by simp [Except.toOption, h.quic] }

/-- The rotation follows every step, until the counter wraps around. -/
theorem Refines.step (h : s.Refines boring tlsEnv made r) (a : Act)
    (hw : ∀ certs ∈ (step boring s a).certs, certs.nextGeneration < 2^64) :
    (Contexts.step boring s a).Refines boring tlsEnv (made ++ s.installs a)
      (Run.run Rotation.step r (s.seen boring a)) := by
  have hnone : ∀ {s' r'}, Refines boring tlsEnv made s' r' → Refines boring tlsEnv (made ++ []) s' r' :=
    fun h => h.mono (List.subset_append_left ..)
  cases a with
  | install env material => exact h.install env material
  | swapTls => exact hnone h.swapTls
  | swapCerts => exact hnone (h.swapCerts hw)
  | acceptTcp => exact hnone { h with tcp := List.rel_append h.tcp (.cons h.tls .nil) }
  | load => exact hnone h.load
  | configured env => exact hnone (h.configured env)

/-- The counter for the generations never goes back. -/
theorem nextGeneration_step {n : ℕ} (h : ∃ certs ∈ s.certs, n ≤ certs.nextGeneration) (a : Act) :
    ∃ certs ∈ (Contexts.step boring s a).certs, n ≤ certs.nextGeneration := by
  obtain ⟨certs,hc,hn⟩ := h
  have hsame : ∀ s' : Contexts, s'.certs = s.certs → ∃ certs ∈ s'.certs, n ≤ certs.nextGeneration :=
    fun s' he => ⟨certs,he ▸ hc,hn⟩
  cases a with
  | swapCerts =>
    rw [Contexts.step]
    split
    · rename_i material hi
      refine ⟨certs.swap material.certPem material.keyPem,?_,?_⟩
      · simp [Option.mem_def.mp hc]
      · exact hn.trans (Nat.le_succ _)
    · exact hsame _ rfl
  | acceptTcp => exact hsame _ rfl
  | _ =>
    rw [Contexts.step]
    repeat' split
    all_goals exact hsame _ rfl

theorem Refines.run (h : s.Refines boring tlsEnv made r) {acts : List Act}
    (hw : ∀ certs ∈ (Run.run (Contexts.step boring) s acts).certs, certs.nextGeneration < 2^64) :
    (Run.run (Contexts.step boring) s acts).Refines boring tlsEnv
      (made ++ Run.history (Contexts.step boring) installs s acts)
      (Run.run Rotation.step r (Run.history (Contexts.step boring) (seen boring) s acts)) := by
  induction acts generalizing s r made with
  | nil => simpa [Run.history] using h
  | cons a as ih =>
    have hnow : ∀ certs ∈ (Contexts.step boring s a).certs, certs.nextGeneration < 2^64 := by
      by_contra hno
      push Not at hno
      obtain ⟨certs,hc,hn⟩ : ∃ certs ∈ (Run.run (Contexts.step boring) s (a :: as)).certs,
          2^64 ≤ certs.nextGeneration :=
        Run.induction (I := fun s : Contexts => ∃ certs ∈ s.certs, 2^64 ≤ certs.nextGeneration)
          (fun _ a hs => nextGeneration_step hs a) as hno
      exact absurd (hw certs hc) (by omega)
    have hrun := ih (h.step a hnow) hw
    rwa [List.append_assoc, ← Run.run_append] at hrun

/-- A rotation comes up with a server. -/
theorem Refines.new {cfg : ServerCfg} {material : CertMaterial} {acceptor : ServerContext}
    (h : Initial boring tlsEnv cfg material acceptor) (certPem keyPem : String) :
    (new cfg acceptor (some (.new certPem keyPem))).Refines boring tlsEnv []
      (.new cfg ⟨material⟩ certPem keyPem) :=
  ⟨rfl,rfl,rfl,rfl,rfl,rfl,Or.inl h,.nil,rfl⟩

theorem h3Certs_eq_some {env : TlsEnv} {cfg : ServerCfg} {certs : Option CertSource} (hh3 : cfg.http3 = true)
    (h : h3Certs env cfg = .ok certs) : ∃ certPem keyPem, certs = some (.new certPem keyPem) ∧
      buildInitialH3Certs env cfg = .ok (.new certPem keyPem) := by
  rw [h3Certs, if_pos hh3] at h
  cases hc : buildInitialH3Certs env cfg with
  | error e => simp [hc, Except.map] at h
  | ok source =>
    obtain ⟨certPem,keyPem,rfl⟩ := buildInitialH3Certs_eq_ok hc
    simp only [hc, Except.map, Except.ok.injEq] at h
    exact ⟨certPem,keyPem,h.symm,rfl⟩

end Refines
end Contexts

/-- Whenever a certificate is installed, and whatever becomes of the files meanwhile, every connection is
accepted with a context that has been built for the configuration: its certificate goes with its private key,
it announces the protocols of its listener, and where ECH is configured it has the key that was in the file
when it was built, along with the config that clients with another one are told. -/
theorem contexts_keyed (boring : Boring) {tlsEnv h3Env acmeEnv : TlsEnv} {x : X509} {now : ℕ} {cache : Cache}
    {cfg : ServerCfg} {s₀ : Contexts}
    (h : Contexts.start boring tlsEnv h3Env acmeEnv x now cache cfg = .ok s₀) (acts : List Contexts.Act) :
    let s := Run.run (Contexts.step boring) s₀ acts
    let envs := tlsEnv :: acmeEnv :: acts.flatMap Contexts.Act.envs
    (∀ c ∈ s.acceptor :: s.tcp, ∃ env ∈ envs, c.BuiltIn boring env cfg.ech [H2,HTTP11]) ∧
      ∀ c, some c ∈ s.cached :: s.quic → ∃ env ∈ envs, c.context.BuiltIn boring env cfg.ech [H3] := by
  intro s envs
  have hkept : s.Kept boring (· ∈ envs) cfg := .reached h acts fun _ he => he
  exact ⟨fun c hc => hkept.acceptors hc,fun c hc => hkept.h3Contexts hc⟩

/-- Surroundings in which nothing fails, and a text is the only certificate in it. -/
def TlsEnv.willing (files : String → Option Bytes) : TlsEnv where
  files := files
  succeeds _ := true
  certificateChainFile content := some (content,[])
  privateKeyFile content := some content
  stackFromPem text := some [utf8 text]
  privateKeyFromPem text := some (utf8 text)
  checkPrivateKey _ _ := true
  selfSigned domain := some ⟨domain,domain⟩

def ServerCfg.keyed : ServerCfg :=
  ⟨"a.test","/ws",false,.acme "m@a.test" false "/c",some ⟨"a.example","./ech.key"⟩,false,true,"nginx",true⟩

/-- A server that has a bootstrap certificate, and a key of zeros. -/
def Contexts.bootstrap : Contexts :=
  .new .keyed ⟨utf8 "a.test",[],utf8 "a.test",alpnWire [H2,HTTP11],
    (zeroKey.marshalConfig zeroBoring).toOption.map (⟨zeroKey,·,true⟩)⟩ (some (.new "a.test" "a.test"))

theorem Contexts.start_bootstrap : Contexts.start zeroBoring (.willing zeroFiles) (.willing zeroFiles)
    (.willing zeroFiles) .lasting 0 .empty .keyed = .ok .bootstrap := rfl

/-- Connections before, during and after an installation; the key file is gone when one of them comes. -/
def Contexts.renewal : List Contexts.Act :=
  [.acceptTcp,.install (.willing zeroFiles) ⟨"c","k"⟩,.load,.swapTls,.acceptTcp,.swapCerts,
    .configured (.willing zeroFiles),.load,.configured (.willing fun _ => none),.load,
    .configured (.willing zeroFiles)]

theorem contexts_keyed_renewal :
    let s := Run.run (Contexts.step zeroBoring) .bootstrap Contexts.renewal
    let envs := TlsEnv.willing zeroFiles :: .willing zeroFiles :: Contexts.renewal.flatMap Contexts.Act.envs
    s.tcp.map ServerContext.leaf = [utf8 "a.test",utf8 "c"] ∧
      s.quic.map (Option.map fun c => c.context.leaf) = [some (utf8 "a.test"),none,some (utf8 "c")] ∧
      (∀ c ∈ s.acceptor :: s.tcp, ∃ env ∈ envs, c.BuiltIn zeroBoring env ServerCfg.keyed.ech [H2,HTTP11]) ∧
      ∀ c, some c ∈ s.cached :: s.quic →
        ∃ env ∈ envs, c.context.BuiltIn zeroBoring env ServerCfg.keyed.ech [H3] :=
  ⟨by decide,by decide,contexts_keyed zeroBoring Contexts.start_bootstrap Contexts.renewal⟩

/-- With an HTTP/3 listener beside it the server does, step for step, what the rotation of its certificates
does, until the counter for the generations wraps around. Every acceptor is built from the material that the
rotation has it for, in the surroundings in which that was installed, and every QUIC context from the PEM of
its own configuration; between installations the two listeners have one certificate. -/
theorem contexts_refine (boring : Boring) {tlsEnv h3Env acmeEnv : TlsEnv} {x : X509} {now : ℕ} {cache : Cache}
    {cfg : ServerCfg} {s₀ : Contexts} (hh3 : cfg.http3 = true)
    (h : Contexts.start boring tlsEnv h3Env acmeEnv x now cache cfg = .ok s₀) (acts : List Contexts.Act)
    (hw : ∀ certs ∈ (Run.run (Contexts.step boring) s₀ acts).certs, certs.nextGeneration < 2^64) :
    let s := Run.run (Contexts.step boring) s₀ acts
    let envs := tlsEnv :: acmeEnv :: acts.flatMap Contexts.Act.envs
    let all := Contexts.first acmeEnv x now cache cfg ++ acts
    ∃ acceptor material certPem keyPem, Contexts.Initial boring tlsEnv cfg material acceptor ∧
      buildInitialH3Certs h3Env cfg = .ok (.new certPem keyPem) ∧
      let up := Contexts.new cfg acceptor (some (.new certPem keyPem))
      let r := Run.run Rotation.step (.new cfg ⟨material⟩ certPem keyPem)
        (Run.history (Contexts.step boring) (Contexts.seen boring) up all)
      s = Run.run (Contexts.step boring) up all ∧
        s.Refines boring tlsEnv (Run.history (Contexts.step boring) Contexts.installs up all) r ∧
        r.OneCertificate ∧ ∀ c, some c ∈ s.cached :: s.quic → Contexts.Made boring (· ∈ envs) cfg c := by
  intro s envs all
  obtain ⟨acceptor,certs,hacceptor,hcerts,hs₀⟩ := Contexts.start_eq_ok h
  obtain ⟨material,hinitial⟩ := Contexts.initial_of_build hacceptor
  obtain ⟨certPem,keyPem,rfl,hfirst⟩ := Contexts.h3Certs_eq_some hh3 hcerts
  refine ⟨acceptor,material,certPem,keyPem,hinitial,hfirst,?_⟩
  intro up r
  have hs : s = Run.run (Contexts.step boring) up all := by
    rw [Run.run_append, ← hs₀]
  have hrefines : s.Refines boring tlsEnv (Run.history (Contexts.step boring) Contexts.installs up all) r := by
    rw [hs]
    exact (Contexts.Refines.new hinitial certPem keyPem).run (hs ▸ hw)
  have hkept : s.Kept boring (· ∈ envs) cfg := .reached h acts fun _ he => he
  refine ⟨hs,hrefines,?_,fun c hc => hkept.made hc⟩
  have hrotation : r.Kept := Run.induction (I := Rotation.Kept) (fun _ a hk => hk.step a) _
    (.new cfg ⟨material⟩ certPem keyPem)
  apply hrotation.oneCertificate
  have hn := hw _ hrefines.certs
  rw [hrefines.swaps] at hn
  omega

/-- A server that has drawn a pair for each listener renews its certificate. -/
theorem contexts_refine_renewal :
    let s := Run.run (Contexts.step zeroBoring) .bootstrap Contexts.renewal
    let envs := TlsEnv.willing zeroFiles :: .willing zeroFiles :: Contexts.renewal.flatMap Contexts.Act.envs
    let all := Contexts.first (.willing zeroFiles) .lasting 0 .empty .keyed ++ Contexts.renewal
    ∃ acceptor material certPem keyPem,
      Contexts.Initial zeroBoring (.willing zeroFiles) .keyed material acceptor ∧
      buildInitialH3Certs (.willing zeroFiles) .keyed = .ok (.new certPem keyPem) ∧
      let up := Contexts.new .keyed acceptor (some (.new certPem keyPem))
      let r := Run.run Rotation.step (.new .keyed ⟨material⟩ certPem keyPem)
        (Run.history (Contexts.step zeroBoring) (Contexts.seen zeroBoring) up all)
      s = Run.run (Contexts.step zeroBoring) up all ∧
        s.Refines zeroBoring (.willing zeroFiles)
          (Run.history (Contexts.step zeroBoring) Contexts.installs up all) r ∧
        r.OneCertificate ∧
        ∀ c, some c ∈ s.cached :: s.quic → Contexts.Made zeroBoring (· ∈ envs) .keyed c :=
  contexts_refine zeroBoring rfl Contexts.start_bootstrap Contexts.renewal (by decide)

end EchTunnel
