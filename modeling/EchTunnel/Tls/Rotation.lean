import EchTunnel.Acme.Cache
import EchTunnel.H3.Server
import EchTunnel.Library.Run

/-! Certificate rotation: the task that gets certificates installs them one after another, first into the
TCP acceptor and then for the HTTP/3 listener, and connections are accepted meanwhile. -/
namespace EchTunnel

/-- The live acceptor, given by the material it was built from. -/
structure TlsServer where
  acceptor : CertMaterial
  deriving Repr, DecidableEq

def TlsServer.swap (_ : TlsServer) (new : CertMaterial) : TlsServer := ⟨new⟩

namespace CertSource

/-- The first half of `swap` draws a generation; the counter wraps around. -/
def fetchAdd (s : CertSource) : CertSource :=
  { s with nextGeneration := (s.nextGeneration + 1) % 2^64 }

/-- The second half publishes under it. -/
def store (s : CertSource) (pem : Pem) : CertSource := { s with current := pem }

theorem swap_eq (s : CertSource) (h : s.nextGeneration + 1 < 2^64) (certPem keyPem : String) :
    s.swap certPem keyPem = s.fetchAdd.store ⟨s.nextGeneration,certPem,keyPem⟩ := by
  rw [swap, fetchAdd, store, Nat.mod_eq_of_lt h]

end CertSource

/-- `builds` tells which material an acceptor can be built from. -/
def installMaterial (builds : CertMaterial → Bool) (tls : TlsServer) (h3Certs : Option CertSource)
    (material : CertMaterial) : Option (TlsServer × Option CertSource) :=
  if builds material then
    some (tls.swap material,h3Certs.map fun certs => certs.swap material.certPem material.keyPem)
  else none

/-- The callback of the renewal task: a failure is logged. -/
def swapCb (builds : CertMaterial → Bool) (tls : TlsServer) (h3Certs : Option CertSource)
    (material : CertMaterial) : TlsServer × Option CertSource :=
  match installMaterial builds tls h3Certs material with
  | some live => live
  | none => (tls,h3Certs)

/-- `ensure_config` once it has loaded `pem`; `builds` tells whether a configuration can be built. -/
def refresh (cfg : ServerCfg) (cached : Option CachedConfig) (pem : Pem) (builds : Bool) :
    Option CachedConfig :=
  let build := if builds then some ⟨pem.generation,⟨pem.certPem,pem.keyPem,cfg.ech⟩⟩ else none
  match cached with
  | some c => if c.generation = pem.generation then some c else build
  | none => build

/-- The configuration that a PEM makes. -/
def Pem.config (pem : Pem) (cfg : ServerCfg) : QuicConfig := ⟨pem.certPem,pem.keyPem,cfg.ech⟩

/-- The cached configuration is good, or one is built, or that fails. -/
theorem refresh_cases (cfg : ServerCfg) (cached : Option CachedConfig) (pem : Pem) (builds : Bool) :
    (∃ c ∈ cached, c.generation = pem.generation ∧ refresh cfg cached pem builds = some c) ∨
      builds = true ∧ refresh cfg cached pem builds = some ⟨pem.generation,pem.config cfg⟩ ∨
      builds = false ∧ refresh cfg cached pem builds = none := by
  have hbuild : builds = true ∧ (if builds then some (⟨pem.generation,pem.config cfg⟩ : CachedConfig)
        else none) = some ⟨pem.generation,pem.config cfg⟩ ∨
      builds = false ∧ (if builds then some (⟨pem.generation,pem.config cfg⟩ : CachedConfig)
        else none) = none := by
    cases builds with
    | true => exact Or.inl ⟨rfl,rfl⟩
    | false => exact Or.inr ⟨rfl,rfl⟩
  unfold refresh
  cases cached with
  | none => exact Or.inr hbuild
  | some c =>
    by_cases hg : c.generation = pem.generation
    · exact Or.inl ⟨c,rfl,hg,if_pos hg⟩
    · simp only [if_neg hg]
      exact Or.inr hbuild

theorem Listener.ensureConfig_eq (env : ServerEnv) (l : Listener) :
    l.ensureConfig env =
      refresh l.cfg l.cached l.certs.current (env.serverConfig (l.certs.current.config l.cfg)) := rfl

/-- How far an installation has got: the acceptor is being built, is there, is live; `CertSource::swap`
has drawn its generation. -/
inductive Install
  | idle
  | building (material : CertMaterial)
  | built (material : CertMaterial)
  | live (material : CertMaterial)
  | drawn (material : CertMaterial) (generation : ℕ)
  deriving Repr, DecidableEq

/-- Both listeners. `loaded` is what a call of `ensure_config` works on, `installed` is the material of the
last completed installation, `swaps` and `published` tell of `certs`, and `tcp` and `quic` of the
connections: the acceptor used for each, and the configuration, if it was not refused. -/
structure Rotation where
  cfg : ServerCfg
  tls : TlsServer
  certs : CertSource
  cached : Option CachedConfig
  install : Install
  loaded : Option Pem
  installed : Option CertMaterial
  swaps : ℕ
  published : List Pem
  tcp : List CertMaterial
  quic : List (Option QuicConfig)

namespace Rotation

/-- The listeners come up, each with its own reading of the first material. -/
def new (cfg : ServerCfg) (tls : TlsServer) (certPem keyPem : String) : Rotation :=
  let certs := CertSource.new certPem keyPem
  ⟨cfg,tls,certs,none,.idle,none,none,0,[certs.current],[],[]⟩

/-- An installation starts, its acceptor is built or not, the acceptor is swapped, the generation is drawn,
the PEM is stored. A TCP connection loads the acceptor; `ensure_config` loads the PEM, and returns. -/
inductive Act
  | install (material : CertMaterial)
  | built (ok : Bool)
  | swapTls
  | fetchAdd
  | store
  | acceptTcp
  | load
  | configured (ok : Bool)
  deriving Repr, DecidableEq

def step (r : Rotation) : Act → Rotation
  | .install material =>
    match r.install with
    | .idle => { r with install := .building material }
    | _ => r
  | .built ok =>
    match r.install with
    | .building material => { r with install := if ok then .built material else .idle }
    | _ => r
  | .swapTls =>
    match r.install with
    | .built material => { r with tls := r.tls.swap material, install := .live material }
    | _ => r
  | .fetchAdd =>
    match r.install with
    | .live material =>
      { r with
        certs := r.certs.fetchAdd
        install := .drawn material r.certs.nextGeneration
        swaps := r.swaps + 1 }
    | _ => r
  | .store =>
    match r.install with
    | .drawn material generation =>
      let pem : Pem := ⟨generation,material.certPem,material.keyPem⟩
      { r with
        certs := r.certs.store pem
        install := .idle
        installed := some material
        published := r.published ++ [pem] }
    | _ => r
  | .acceptTcp => { r with tcp := r.tcp ++ [r.tls.acceptor] }
  | .load =>
    match r.loaded with
    | none => { r with loaded := some r.certs.current }
    | some _ => r
  | .configured ok =>
    match r.loaded with
    | some pem =>
      let c := refresh r.cfg r.cached pem ok
      { r with
        cached := c.orElse fun _ => r.cached
        loaded := none
        quic := r.quic ++ [c.map CachedConfig.config] }
    | none => r

variable {r : Rotation}

/-- An installation that nothing comes between is the callback, and `install_material` if it succeeds. -/
theorem run_swapCb (h : r.install = .idle) (hn : r.certs.nextGeneration + 1 < 2^64)
    (builds : CertMaterial → Bool) (material : CertMaterial) :
    let r' := Run.run step r [.install material,.built (builds material),.swapTls,.fetchAdd,.store]
    swapCb builds r.tls (some r.certs) material = (r'.tls,some r'.certs) ∧
      ∀ live ∈ installMaterial builds r.tls (some r.certs) material, live = (r'.tls,some r'.certs) := by
  cases hb : builds material with
  | false => simp [Run.run, step, h, hb, swapCb, installMaterial]
  | true =>
    simp [Run.run, step, h, hb, swapCb, installMaterial, r.certs.swap_eq hn]

/-- A call of `ensure_config` that nothing comes between is that of the event loop. -/
theorem run_load (h : r.loaded = none) (env : ServerEnv) {l : Listener} (hcfg : l.cfg = r.cfg)
    (hcached : l.cached = r.cached) (hcerts : l.certs = r.certs) :
    (Run.run step r [.load,.configured (env.serverConfig (r.certs.current.config r.cfg))]).quic =
      r.quic ++ [(l.ensureConfig env).map CachedConfig.config] := by
  rw [l.ensureConfig_eq, hcfg, hcached, hcerts]
  simp [Run.run, step, h]

/-- The step has to do with a connection. -/
def Act.Accepts : Act → Prop
  | .acceptTcp | .load | .configured _ => True
  | _ => False

/-- What the listeners keep to. A generation is the number of its swap, as far as the counter goes. -/
structure Kept (r : Rotation) : Prop where
  generations : r.published.map Pem.generation = (List.range r.published.length).map (· % 2^64)
  next : r.certs.nextGeneration = (r.swaps + 1) % 2^64
  count : match r.install with
    | .drawn _ generation => r.published.length = r.swaps ∧ generation = r.swaps % 2^64
    | _ => r.published.length = r.swaps + 1
  current : r.certs.current ∈ r.published
  loaded : ∀ pem ∈ r.loaded, pem ∈ r.published
  cached : ∀ c ∈ r.cached, ∃ pem ∈ r.published, c.generation = pem.generation ∧ c.config = pem.config r.cfg
  tls : match r.install with
    | .live material | .drawn material _ => r.tls.acceptor = material
    | _ => ∀ material ∈ r.installed, r.tls.acceptor = material
  certs : ∀ material ∈ r.installed,
    r.certs.current.certPem = material.certPem ∧ r.certs.current.keyPem = material.keyPem

namespace Kept

theorem new (cfg : ServerCfg) (tls : TlsServer) (certPem keyPem : String) :
    (Rotation.new cfg tls certPem keyPem).Kept where
  generations := by simp [Rotation.new, CertSource.new]
  next := by simp [Rotation.new, CertSource.new]
  count := rfl
  current := List.mem_singleton_self _
  loaded := nofun
  cached := nofun
  tls := nofun
  certs := nofun

/-- No two PEMs share a generation, as long as the counter has not come around. -/
theorem distinct (h : r.Kept) (hs : r.swaps < 2^64) : (r.published.map Pem.generation).Nodup := by
  have hlen : r.published.length ≤ 2^64 := by
    have hcount := h.count
    split at hcount <;> omega
  have hid : (List.range r.published.length).map (· % 2^64) = List.range r.published.length := by
    refine (List.map_congr_left fun i hi => ?_).trans (List.map_id _)
    exact Nat.mod_eq_of_lt (lt_of_lt_of_le (List.mem_range.mp hi) hlen)
  rw [h.generations, hid]
  exact List.nodup_range

/-- What `ensure_config` returns is made of the PEM it has loaded. -/
theorem refreshed (h : r.Kept) (hs : r.swaps < 2^64) {pem : Pem} (hp : pem ∈ r.published) (ok : Bool) :
    (refresh r.cfg r.cached pem ok).map CachedConfig.config = some (pem.config r.cfg) ∨
      refresh r.cfg r.cached pem ok = none ∧ ok = false := by
  obtain ⟨c,hc,hg,he⟩ | ⟨_,he⟩ | ⟨hok,he⟩ := refresh_cases r.cfg r.cached pem ok
  · obtain ⟨pem',hp',hg',hconfig⟩ := h.cached c hc
    obtain rfl := List.inj_on_of_nodup_map (h.distinct hs) hp hp' (hg.symm.trans hg')
    rw [he, ← hconfig]
    exact Or.inl rfl
  · rw [he]
    exact Or.inl rfl
  · exact Or.inr ⟨he,hok⟩

theorem step (h : r.Kept) (a : Act) : (r.step a).Kept := by
  obtain ⟨hgen,hnext,hcount,hcurrent,hloaded,hcached,htls,hcerts⟩ := id h
  cases a with
  | install material =>
    rw [Rotation.step]
    split
    · rename_i hi
      simp only [hi] at hcount htls
      exact ⟨hgen,hnext,hcount,hcurrent,hloaded,hcached,htls,hcerts⟩
    · exact h
  | built ok =>
    rw [Rotation.step]
    split
    · rename_i material hi
      simp only [hi] at hcount htls
      cases ok with
      | true => exact ⟨hgen,hnext,hcount,hcurrent,hloaded,hcached,htls,hcerts⟩
      | false => exact ⟨hgen,hnext,hcount,hcurrent,hloaded,hcached,htls,hcerts⟩
    · exact h
  | swapTls =>
    rw [Rotation.step]
    split
    · rename_i material hi
      simp only [hi] at hcount
      exact ⟨hgen,hnext,hcount,hcurrent,hloaded,hcached,rfl,hcerts⟩
    · exact h
  | fetchAdd =>
    rw [Rotation.step]
    split
    · rename_i material hi
      simp only [hi] at hcount htls
      refine ⟨hgen,?_,⟨hcount,hnext⟩,hcurrent,hloaded,hcached,htls,hcerts⟩
      rw [CertSource.fetchAdd, hnext, Nat.mod_add_mod]
    · exact h
  | store =>
    rw [Rotation.step]
    split
    · rename_i material generation hi
      simp only [hi] at hcount htls
      obtain ⟨hlen,hg⟩ := hcount
      refine ⟨?_,hnext,by simp [hlen],by simp [CertSource.store],?_,?_,?_,?_⟩
      · simp [hgen, List.range_succ, hlen, hg]
      · exact fun pem hp => List.mem_append_left _ (hloaded pem hp)
      · exact fun c hc => (hcached c hc).imp fun _ hp => hp.imp_left (List.mem_append_left _)
      · simp [htls]
      · simp [CertSource.store]
    · exact h
  | acceptTcp => exact ⟨hgen,hnext,hcount,hcurrent,hloaded,hcached,htls,hcerts⟩
  | load =>
    rw [Rotation.step]
    split
    · exact ⟨hgen,hnext,hcount,hcurrent,by simpa using hcurrent,hcached,htls,hcerts⟩
    · exact h
  | configured ok =>
    rw [Rotation.step]
    split
    · rename_i pem hl
      refine ⟨hgen,hnext,hcount,hcurrent,nofun,?_,htls,hcerts⟩
      intro c hc
      obtain ⟨c',hc',_,he⟩ | ⟨_,he⟩ | ⟨_,he⟩ := refresh_cases r.cfg r.cached pem ok
      · simp only [he, Option.orElse_some, Option.mem_def, Option.some.injEq] at hc
        exact hcached c (hc ▸ hc')
      · simp only [he, Option.orElse_some, Option.mem_def, Option.some.injEq] at hc
        exact ⟨pem,hloaded pem hl,by rw [← hc],by rw [← hc]⟩
      · simp only [he, Option.orElse_none] at hc
        exact hcached c hc
    · exact h

end Kept

@[simp] theorem step_cfg (a : Act) : (r.step a).cfg = r.cfg := by
  cases a <;> rw [step] <;> split <;> rfl

/-- Connections take no notice of how far an installation has got. -/
theorem step_accepts {a : Act} (ha : a.Accepts) (install : Install) :
    { r with install }.step a = { r.step a with install } ∧ (r.step a).install = r.install := by
  cases a with
  | acceptTcp => exact ⟨rfl,rfl⟩
  | load =>
    simp only [step]
    split <;> exact ⟨rfl,rfl⟩
  | configured ok =>
    simp only [step]
    split <;> exact ⟨rfl,rfl⟩
  | _ => exact ha.elim

/-- An installation whose acceptor cannot be built might as well not have started. -/
theorem run_failed (h : r.install = .idle) (material : CertMaterial) {acts : List Act}
    (ha : ∀ a ∈ acts, a.Accepts) :
    Run.run step r (.install material :: acts ++ [.built false]) = Run.run step r acts := by
  obtain ⟨hrun,hidle⟩ := (Run.Meets.of_mem (fun _ => ha) r).simulates
    (fun r : Rotation => { r with install := .building material }) (I := fun r => r.install = .idle)
    (fun r a hi ha => ⟨(step_accepts ha _).1,(step_accepts ha .idle).2.trans hi⟩) h
  have hstart : r.step (.install material) = { r with install := .building material } := by
    simp only [step, h]
  have hend : ∀ r' : Rotation, r'.install = .idle →
      { r' with install := .building material }.step (.built false) = r' := by
    rintro r' hi
    simp only [step, Bool.false_eq_true, if_false, ← hi]
  rw [List.cons_append, Run.run_cons, hstart, Run.run_append, hrun]
  exact hend _ hidle

/-- The PEM stays loaded until `ensure_config` returns. -/
theorem run_loaded {pem : Pem} (h : r.loaded = some pem) {acts : List Act}
    (ha : ∀ a ∈ acts, ∀ ok, a ≠ .configured ok) :
    (Run.run step r acts).loaded = some pem ∧ (Run.run step r acts).cfg = r.cfg := by
  refine Run.Meets.induction (C := fun _ a => ∀ ok, a ≠ .configured ok)
    (I := fun r' : Rotation => r'.loaded = some pem ∧ r'.cfg = r.cfg) ?_ ⟨h,rfl⟩
    (Run.Meets.of_mem (fun _ => ha) r)
  rintro r' a ⟨hl,hc⟩ hne
  refine ⟨?_,(step_cfg a).trans hc⟩
  cases a with
  | configured ok => exact absurd rfl (hne ok)
  | acceptTcp => exact hl
  | _ =>
    rw [step]
    split <;> simp_all

/-- A new QUIC connection uses `q`, or is refused because no configuration could be built, whatever happens
while `ensure_config` is at work. -/
def Serves (r : Rotation) (q : QuicConfig) : Prop :=
  ∀ acts ok, (∀ a ∈ acts, ∀ ok, a ≠ .configured ok) →
    let r' := Run.run step r (.load :: acts)
    r'.swaps < 2^64 → ∃ answer, (r'.step (.configured ok)).quic = r'.quic ++ [answer] ∧
      (answer = some q ∨ answer = none ∧ ok = false)

theorem Kept.serves (h : r.Kept) (hl : r.loaded = none) : r.Serves (r.certs.current.config r.cfg) := by
  intro acts ok ha r' hs
  have hload : r.step .load = { r with loaded := some r.certs.current } := by simp only [Rotation.step, hl]
  obtain ⟨hloaded,hcfg⟩ : r'.loaded = some r.certs.current ∧ r'.cfg = r.cfg := by
    simp only [r', Run.run_cons, hload]
    exact run_loaded rfl ha
  have hkept : r'.Kept := Run.induction (fun _ a hk => hk.step a) (.load :: acts) h
  refine ⟨(refresh r'.cfg r'.cached r.certs.current ok).map CachedConfig.config,by simp [Rotation.step, hloaded],?_⟩
  rw [← hcfg]
  obtain he | ⟨he,hok⟩ := hkept.refreshed hs (hkept.loaded _ hloaded) ok
  · exact Or.inl he
  · exact Or.inr ⟨by rw [he, Option.map_none],hok⟩

/-- Both listeners serve the same certificate. -/
structure OneCertificate (r : Rotation) : Prop where
  /-- The first PEM is among the published. -/
  distinct : (r.published.map Pem.generation).Nodup
  current : r.certs.current ∈ r.published
  /-- A configuration is made of the PEM that was current when it was loaded. -/
  configs : r.loaded = none → r.Serves (r.certs.current.config r.cfg)
  tcp : r.install = .idle → ∀ material ∈ r.installed, (r.step .acceptTcp).tcp = r.tcp ++ [material]
  quic : r.install = .idle → r.loaded = none → ∀ material ∈ r.installed,
    r.Serves ⟨material.certPem,material.keyPem,r.cfg.ech⟩
  /-- A failed installation changes neither listener. -/
  failed : r.install = .idle → ∀ material acts, (∀ a ∈ acts, a.Accepts) →
    Run.run step r (.install material :: acts ++ [.built false]) = Run.run step r acts

theorem Kept.oneCertificate (h : r.Kept) (hs : r.swaps < 2^64) : r.OneCertificate where
  distinct := h.distinct hs
  current := h.current
  configs := h.serves
  tcp hi material hm := by
    have htls := h.tls
    simp only [hi] at htls
    exact congrArg (r.tcp ++ [·]) (htls material hm)
  quic hi hl material hm := by
    obtain ⟨hcert,hkey⟩ := h.certs material hm
    have hserves := h.serves hl
    rwa [Pem.config, hcert, hkey] at hserves
  failed hi material _ ha := run_failed hi material ha

end Rotation

/-- However installations and connections interleave, the two listeners serve the same certificate between
installations, and no configuration goes with another certificate than the one it is taken for. -/
theorem same_certificate (cfg : ServerCfg) (tls : TlsServer) (certPem keyPem : String)
    (acts : List Rotation.Act)
    (h : (Run.run Rotation.step (.new cfg tls certPem keyPem) acts).swaps < 2^64) :
    (Run.run Rotation.step (.new cfg tls certPem keyPem) acts).OneCertificate :=
  (Run.induction (I := Rotation.Kept) (fun _ a hk => hk.step a) acts (.new cfg tls certPem keyPem)).oneCertificate h

/-- A QUIC connection comes during an installation, and one of each kind after it. -/
theorem same_certificate_renewed :
    let r := Run.run Rotation.step (.new Listener.fresh.cfg ⟨⟨"a","k"⟩⟩ "b" "l")
      [.install ⟨"c","m"⟩,.built true,.swapTls,.load,.fetchAdd,.store,.configured true,.load,
        .configured true,.acceptTcp]
    r.OneCertificate ∧ r.quic = [some ⟨"b","l",none⟩,some ⟨"c","m",none⟩] ∧ r.tcp = [⟨"c","m"⟩] :=
  ⟨same_certificate Listener.fresh.cfg ⟨⟨"a","k"⟩⟩ "b" "l" _ (by decide),by decide,by decide⟩

end EchTunnel
