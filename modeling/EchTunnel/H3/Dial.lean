import EchTunnel.Tls.Client

/-! How a session of `h3_client.rs` comes up: what it does before its loop, and the manager that starts
one session after another. -/
namespace EchTunnel
open Wire

def clientTrust (env : DialEnv) : ClientTrust → Except DialError SslContext
  | .systemRoots => do
    env.call .verifyPaths
    return ⟨[.system],true⟩
  | .caFile path => do
    let pem ← env.read path
    env.call (.addCert pem)
    return ⟨[.pem pem],true⟩
  | .insecureSkipVerify => .ok ⟨[],false⟩

/-- `client_config` of `quic.rs`. -/
def clientConfig (env : DialEnv) (cfg : ClientCfg) : Except DialError SslContext := do
  env.call .sslContext
  let ctx ← clientTrust env cfg.trust
  env.call .quicheConfig
  env.call .alpn
  return ctx

def installClientEch (env : DialEnv) (cfg : ClientCfg) (t : DialTrace) :
    DialTrace × Except DialError Unit :=
  match cfg.ech with
  | none => (t,.ok ())
  | some src =>
    match env.configList src with
    | .error e => (t,.error e)
    | .ok list => env.installClientEchConfigList t list

def resolvePeer (env : DialEnv) (upstream : String) : Except DialError SocketAddr :=
  match env.lookupHost upstream with
  | none => .error (.resolve upstream)
  | some [] => .error (.noAddress upstream)
  | some (peer :: _) => .ok peer

/-- A list goes in, or nothing is sent. -/
theorem installClientEch_cases {env : DialEnv} {cfg : ClientCfg} {ctx : SslContext}
    (h : cfg.trust.Holds env.files [] ctx) :
    let r := installClientEch env cfg [.ssl cfg.sni ctx]
    (r.2 = .ok () ∧ Ready env cfg [] r.1) ∨ ∃ e, r.2 = .error e ∧ ∀ call ∈ r.1, call.sends = false := by
  unfold installClientEch
  cases hech : cfg.ech with
  | none => exact Or.inl ⟨rfl,ctx,none,h,Or.inl ⟨hech,rfl⟩,rfl⟩
  | some src =>
    simp only
    cases hl : env.configList src with
    | error e => exact Or.inr ⟨e,rfl,by simp [DialCall.sends]⟩
    | ok list =>
      simp only [DialEnv.installClientEchConfigList]
      cases env.setEchConfigList list with
      | false => exact Or.inr ⟨.installEch,rfl,by simp [DialCall.sends]⟩
      | true =>
        have hlist : env.Lists cfg.ech (some list) :=
          Or.inr ⟨src,list,hech,DialEnv.configList_eq_ok.mp hl,rfl⟩
        exact Or.inl ⟨rfl,ctx,some list,h,hlist,rfl⟩

inductive Outcome
  | waiting
  | up
  | failed (e : DialError)
  deriving Repr, DecidableEq

/-- A connection that `session` has made, waiting in `handshake`, or about to enter its loop, or given
up. -/
structure Attempt where
  env : DialEnv
  peer : SocketAddr
  scid : Bytes
  conn : DialTrace
  outcome : Outcome

/-- The branches of `select!` in `handshake`. -/
inductive DialAct
  | packet (pkt : Bytes)
  | recvError
  | timeout
  | deadline

namespace Attempt

def note (a : Attempt) (call : DialCall) : Attempt := { a with conn := call :: a.conn }

def fail (a : Attempt) (e : DialError) : Attempt := { a with outcome := .failed e }

def flush (a : Attempt) : Attempt :=
  let ok := a.env.flushPackets a.conn
  let a := a.note (.flushPackets ok)
  if ok then a else a.fail .flush

/-- The condition of the loop in `handshake`, and what follows the loop. -/
def top (a : Attempt) : Attempt :=
  if a.outcome ≠ .waiting ∨ a.env.isEstablished a.conn = false then a
  else
    match a.env.call .h3Config with
    | .error e => a.fail e
    | .ok () =>
      let ok := a.env.withTransport a.conn
      { a.note (.withTransport ok) with outcome := if ok then .up else .failed .h3Init }

/-- The part of the loop after `select!`. -/
def service (a : Attempt) : Attempt :=
  let a := a.flush
  if a.outcome = .waiting ∧ a.env.isClosed a.conn = true then a.fail .failed else a.top

def step (a : Attempt) (b : DialAct) : Attempt :=
  if a.outcome ≠ .waiting then a
  else
    match b with
    | .packet pkt => (a.note (.recv a.peer pkt)).service
    | .recvError => a.fail .recv
    | .timeout => (a.note .onTimeout).service
    | .deadline => a.fail .timedOut

/-- The list goes in before the first flush. -/
def arm (cfg : ClientCfg) (a : Attempt) : Attempt :=
  let r := installClientEch a.env cfg a.conn
  let a := { a with conn := r.1 }
  match r.2 with
  | .error e => a.fail e
  | .ok () => a.flush.top

/-- `session` up to the first wait. -/
def start (env : DialEnv) (cfg : ClientCfg) (upstream : String) (scid : Bytes) :
    Except DialError Attempt := do
  let peer ← resolvePeer env upstream
  env.call .bind
  env.call (.connectUdp peer)
  env.call .localAddr
  let ctx ← clientConfig env cfg
  env.call .quicheConnect
  return arm cfg ⟨env,peer,scid,[.ssl cfg.sni ctx],.waiting⟩

/-- What the manager notices of it. -/
def ends (a : Attempt) : List OpenQueue.Act :=
  match a.outcome with
  | .waiting => []
  | .up => [.connected a.env.session a.peer a.scid]
  | .failed _ => [.failed]

/-- The HTTP/3 layer stands on an established connection. -/
def Up (a : Attempt) : Prop :=
  a.outcome = .up ∧ ∃ t, a.conn = .withTransport true :: t ∧ a.env.isEstablished t = true

/-- An attempt is prepared, or it was given up before anything left. -/
structure Kept (cfg : ClientCfg) (a : Attempt) : Prop where
  prepared : Prepared a.env cfg [] a.conn ∨
    (∃ e, a.outcome = .failed e) ∧ ∀ call ∈ a.conn, call.sends = false
  up : a.outcome = .up → a.Up

section Kept
variable {cfg : ClientCfg} {a : Attempt}

theorem Kept.guarded (h : a.Kept cfg) : Guarded a.env cfg [] a.conn := h.prepared.imp_right And.right

theorem Kept.fail (h : Guarded a.env cfg [] a.conn) (e : DialError) : (a.fail e).Kept cfg where
  prepared := h.imp_right fun hs => ⟨⟨e,rfl⟩,hs⟩
  up he := by cases he

theorem flush_cases (a : Attempt) : ∃ ok, a.flush.conn = .flushPackets ok :: a.conn ∧
    a.flush.env = a.env ∧ (a.flush.outcome = a.outcome ∨ ∃ e, a.flush.outcome = .failed e) := by
  unfold flush
  refine ⟨a.env.flushPackets a.conn,?_⟩
  simp only
  split_ifs
  · exact ⟨rfl,rfl,Or.inl rfl⟩
  · exact ⟨rfl,rfl,Or.inr ⟨.flush,rfl⟩⟩

theorem top_kept (h : Prepared a.env cfg [] a.conn) (hup : a.outcome ≠ .up) : a.top.Kept cfg := by
  unfold top
  split_ifs with hw
  · exact ⟨Or.inl h,fun he => absurd he hup⟩
  · obtain ⟨-,he⟩ := not_or.mp hw
    rw [Bool.not_eq_false] at he
    cases a.env.call .h3Config with
    | error e => exact .fail h.guarded e
    | ok =>
      refine ⟨Or.inl (h.cons rfl),?_⟩
      intro hup
      refine ⟨hup,a.conn,?_,he⟩
      have hok : a.env.withTransport a.conn = true := by simpa using hup
      simp only [note, hok]

theorem flush_top_kept (h : Prepared a.env cfg [] a.conn) (hup : a.outcome ≠ .up) :
    a.flush.top.Kept cfg := by
  obtain ⟨ok,hc,he,ho⟩ := a.flush_cases
  apply top_kept
  · rw [he, hc]
    exact h.cons rfl
  · obtain ho | ⟨e,ho⟩ := ho
    · rwa [ho]
    · simp [ho]

theorem service_kept (h : Prepared a.env cfg [] a.conn) (hup : a.outcome ≠ .up) : a.service.Kept cfg := by
  unfold service
  simp only
  split_ifs
  · obtain ⟨ok,hc,he,-⟩ := a.flush_cases
    apply Kept.fail
    rw [he, hc]
    exact (h.cons rfl).guarded
  · exact flush_top_kept h hup

theorem Kept.step (h : a.Kept cfg) (b : DialAct) : (a.step b).Kept cfg := by
  unfold Attempt.step
  split_ifs with hw
  · exact h
  · rw [not_not] at hw
    have hup : a.outcome ≠ .up := by simp [hw]
    have hp : Prepared a.env cfg [] a.conn := by
      obtain hp | ⟨⟨e,he⟩,-⟩ := h.prepared
      · exact hp
      · simp [hw] at he
    cases b with
    | packet pkt => exact service_kept (hp.cons rfl) hup
    | recvError => exact .fail h.guarded .recv
    | timeout => exact service_kept (hp.cons rfl) hup
    | deadline => exact .fail h.guarded .timedOut

theorem arm_kept {ctx : SslContext} (hctx : cfg.trust.Holds a.env.files [] ctx)
    (hc : a.conn = [.ssl cfg.sni ctx]) (hup : a.outcome ≠ .up) : (a.arm cfg).Kept cfg := by
  unfold arm
  simp only [hc]
  obtain ⟨hr,hready⟩ | ⟨e,hr,hs⟩ := installClientEch_cases hctx
  · rw [hr]
    exact flush_top_kept (a := { a with conn := _ }) hready.prepared hup
  · rw [hr]
    exact .fail (a := { a with conn := _ }) (Or.inr hs) e

end Kept
end Attempt

section Start
variable {env : DialEnv} {cfg : ClientCfg} {upstream : String} {scid : Bytes} {a : Attempt}

/-- Over HTTP/3 nothing is trusted but what the option names. -/
theorem clientTrust_holds {trust : ClientTrust} {ctx : SslContext}
    (h : clientTrust env trust = .ok ctx) : trust.Holds env.files [] ctx := by
  cases trust with
  | systemRoots =>
    obtain ⟨-,-,h⟩ := bind_eq_ok.mp h
    cases h
    exact ⟨by simp,by simp [ClientTrust.Names]⟩
  | caFile path =>
    obtain ⟨pem,hp,h⟩ := bind_eq_ok.mp h
    obtain ⟨-,-,h⟩ := bind_eq_ok.mp h
    cases h
    exact ⟨by simp,by simp [ClientTrust.Names, DialEnv.read_eq_ok.mp hp]⟩
  | insecureSkipVerify =>
    cases h
    exact ⟨by simp,by simp [ClientTrust.Names]⟩

theorem clientConfig_holds {ctx : SslContext} (h : clientConfig env cfg = .ok ctx) :
    cfg.trust.Holds env.files [] ctx := by
  obtain ⟨-,-,h⟩ := bind_eq_ok.mp h
  obtain ⟨ctx',hctx,h⟩ := bind_eq_ok.mp h
  obtain ⟨-,-,h⟩ := bind_eq_ok.mp h
  obtain ⟨-,-,h⟩ := bind_eq_ok.mp h
  cases h
  exact clientTrust_holds hctx

/-- A CA file pins the server over HTTP/3 only: `SslConnector` comes with the roots of the system, and the
file adds to them. -/
theorem caFile_differs {path : String} (ht : cfg.trust = .caFile path) (hs : .system ∈ env.connector.roots)
    {tls : TlsClient} (hb : TlsClient.build env cfg = .ok tls) {ctx : SslContext}
    (hc : clientConfig env cfg = .ok ctx) : .system ∈ tls.context.roots ∧ .system ∉ ctx.roots := by
  have htcp := (TlsClient.build_holds hb).1.roots .system
  have hquic := (clientConfig_holds hc).roots .system
  rw [ht] at htcp hquic
  exact ⟨htcp.mpr (Or.inl hs),by simp [hquic, ClientTrust.Names]⟩

theorem Attempt.start_kept (h : Attempt.start env cfg upstream scid = .ok a) : a.Kept cfg := by
  obtain ⟨peer,-,h⟩ := bind_eq_ok.mp h
  obtain ⟨-,-,h⟩ := bind_eq_ok.mp h
  obtain ⟨-,-,h⟩ := bind_eq_ok.mp h
  obtain ⟨-,-,h⟩ := bind_eq_ok.mp h
  obtain ⟨ctx,hctx,h⟩ := bind_eq_ok.mp h
  obtain ⟨-,-,h⟩ := bind_eq_ok.mp h
  cases h
  exact arm_kept (clientConfig_holds hctx) rfl (by simp)

end Start

/-- The manager, and the connections its sessions have made, newest first. -/
structure Dialer where
  upstream : String
  queue : OpenQueue
  attempts : List Attempt

namespace Dialer

def new (cfg : ClientCfg) (upstream : String) : Dialer := ⟨upstream,.new cfg,[]⟩

/-- The manager starts a session, or a session waits in its handshake, or something else happens. -/
inductive Act
  | dial (env : DialEnv) (scid : Bytes)
  | handshake (b : DialAct)
  | queue (a : OpenQueue.Act)

/-- The steps of the manager in which no session comes up. -/
def Elsewhere : OpenQueue.Act → Prop
  | .arrive | .take | .session _ => True
  | .dial | .failed | .connected .. => False

instance : (a : OpenQueue.Act) → Decidable (Elsewhere a)
  | .arrive | .take | .session _ => isTrue trivial
  | .dial | .failed | .connected .. => isFalse not_false

def settle (d : Dialer) (a : Attempt) : Dialer :=
  { d with queue := Run.run OpenQueue.step d.queue a.ends, attempts := a :: d.attempts }

def step (d : Dialer) : Act → Dialer
  | .dial env scid =>
    match d.queue.phase, d.queue.channel with
    | .idle, _ :: _ =>
      let d := { d with queue := d.queue.step .dial }
      match Attempt.start env d.queue.cfg d.upstream scid with
      | .error _ => { d with queue := d.queue.step .failed }
      | .ok a => d.settle a
    | _, _ => d
  | .handshake b =>
    match d.queue.phase, d.attempts with
    | .connecting _, a :: rest => { d with attempts := rest }.settle (a.step b)
    | _, _ => d
  | .queue a => if Elsewhere a then { d with queue := d.queue.step a } else d

section Step
variable {d : Dialer} {cfg : ClientCfg} {q : OpenQueue} {env : OrderedEnv} {s : Session}

theorem step_cfg (q : OpenQueue) (a : OpenQueue.Act) : (q.step a).cfg = q.cfg := by
  have hsession : ∀ (q : OpenQueue) env s b, (q.stepSession env s b).cfg = q.cfg := by
    intro q env s b
    unfold OpenQueue.stepSession
    simp only
    split_ifs
    · rfl
    · rfl
  obtain he | he | ⟨_,_,_,_,he⟩ | ⟨_,_,he⟩ | ⟨_,_,_,_,_,he⟩ | ⟨_,_,_,_,_,_,_,he⟩ | ⟨_,_,_,_,_,he⟩ :=
    q.step_cases a
  · rw [he]
  · rw [he]
  · rw [he]
  · rw [he, OpenQueue.close]
  · rw [he]
  · rw [he, hsession]
  · rw [he, hsession]

theorem stepSession_phase {env' : OrderedEnv} {s' : Session} {b : Session.Act}
    (h : (q.stepSession env s b).phase = .up env' s') : env' = env := by
  unfold OpenQueue.stepSession at h
  simp only at h
  split_ifs at h
  · cases h
    rfl
  · cases h

/-- A session that goes on has been there before. -/
theorem elsewhere_phase {a : OpenQueue.Act} (ha : Elsewhere a) (h : (q.step a).phase = .up env s) :
    ∃ s₀, q.phase = .up env s₀ := by
  cases a with
  | arrive => exact ⟨s,h⟩
  | take =>
    rw [OpenQueue.step] at h
    split at h
    · rename_i env₀ s₀ req rest hp hc
      split_ifs at h
      · obtain rfl := stepSession_phase h
        exact ⟨s₀,hp⟩
      · exact ⟨s,h⟩
    · exact ⟨s,h⟩
  | session b =>
    by_cases hb : ∃ req, b = .openReq req
    · obtain ⟨req,rfl⟩ := hb
      exact ⟨s,h⟩
    · rw [OpenQueue.step] at h
      · split at h
        · rename_i env₀ s₀ hp
          obtain rfl := stepSession_phase h
          exact ⟨s₀,hp⟩
        · exact ⟨s,h⟩
      · exact fun req he => hb ⟨req,he⟩
  | dial => exact ha.elim
  | failed => exact ha.elim
  | connected env' peer scid => exact ha.elim

/-- What the manager has to show for a session. -/
structure Kept (cfg : ClientCfg) (d : Dialer) : Prop where
  coarse : ∃ acts, d.queue = Run.run OpenQueue.step (.new cfg) acts
  config : d.queue.cfg = cfg
  attempts : ∀ a ∈ d.attempts, a.Kept cfg
  session : ∀ env s, d.queue.phase = .up env s →
    ∃ a rest, d.attempts = a :: rest ∧ a.env.session = env ∧ a.Up

theorem coarse_run {q q' : OpenQueue} (h : ∃ acts, q = Run.run OpenQueue.step (.new cfg) acts)
    (acts : List OpenQueue.Act) (hq : q' = Run.run OpenQueue.step q acts) :
    ∃ acts, q' = Run.run OpenQueue.step (.new cfg) acts := by
  obtain ⟨acts₀,rfl⟩ := h
  exact ⟨acts₀ ++ acts,by rw [hq, Run.run_append]⟩

theorem Kept.run_config (h : d.Kept cfg) (acts : List OpenQueue.Act) :
    (Run.run OpenQueue.step d.queue acts).cfg = cfg :=
  Run.induction (I := fun q => q.cfg = cfg) (fun q a hq => (step_cfg q a).trans hq) acts h.config

/-- A session comes up with the attempt that the manager has been waiting for. -/
theorem Kept.settle (h : d.Kept cfg) {first : OpenReq} (hp : d.queue.phase = .connecting first)
    {a : Attempt} (ha : a.Kept cfg) : (d.settle a).Kept cfg where
  coarse := coarse_run h.coarse a.ends rfl
  config := h.run_config a.ends
  attempts b hb := by
    obtain rfl | hb := List.mem_cons.mp hb
    · exact ha
    · exact h.attempts b hb
  session env s hs := by
    refine ⟨a,d.attempts,rfl,?_⟩
    unfold Dialer.settle Attempt.ends at hs
    cases ho : a.outcome with
    | waiting => simp [ho, hp] at hs
    | failed e => simp [ho, hp, OpenQueue.step, OpenQueue.close] at hs
    | up =>
      simp only [ho, Run.run_cons, Run.run_nil, OpenQueue.step, hp, ManagerPhase.up.injEq] at hs
      exact ⟨hs.1,ha.up ho⟩

theorem Kept.step (h : d.Kept cfg) (a : Act) : (d.step a).Kept cfg := by
  cases a with
  | dial env scid =>
    rw [Dialer.step]
    split
    · rename_i first rest hp hc
      have hdial : { d with queue := d.queue.step .dial }.Kept cfg := by
        refine ⟨coarse_run h.coarse [.dial] rfl,h.run_config [.dial],h.attempts,?_⟩
        intro env s hs
        simp [OpenQueue.step, hp, hc] at hs
      simp only
      split
      · refine ⟨coarse_run hdial.coarse [.failed] rfl,hdial.run_config [.failed],hdial.attempts,?_⟩
        intro env s hs
        simp [OpenQueue.step, hp, hc, OpenQueue.close] at hs
      · rename_i a ha
        have hq : (d.queue.step .dial).phase = .connecting first := by simp [OpenQueue.step, hp, hc]
        exact hdial.settle hq (Attempt.start_kept (hdial.config ▸ ha))
    · exact h
  | handshake b =>
    rw [Dialer.step]
    split
    · rename_i first a rest hp ha
      have hrest : { d with attempts := rest }.Kept cfg := by
        refine ⟨h.coarse,h.config,fun b hb => h.attempts b (ha ▸ List.mem_cons_of_mem a hb),?_⟩
        intro env s hs
        simp [hp] at hs
      exact hrest.settle hp ((h.attempts a (ha ▸ List.mem_cons_self)).step b)
    · exact h
  | queue a =>
    rw [Dialer.step]
    split_ifs with hq
    · refine ⟨coarse_run h.coarse [a] rfl,h.run_config [a],h.attempts,?_⟩
      intro env s hs
      obtain ⟨s₀,hs₀⟩ := elsewhere_phase hq hs
      exact h.session env s₀ hs₀
    · exact h

theorem Kept.new (cfg : ClientCfg) (upstream : String) : (Dialer.new cfg upstream).Kept cfg := by
  refine ⟨⟨[],rfl⟩,rfl,by simp [Dialer.new],?_⟩
  intro env s hs
  cases hs

end Step
end Dialer

/-- Whatever leaves a client for its server leaves on a connection that is prepared: one for the configured
name, whose certificates are checked as configured, and which has been given, where ECH is configured, the
list that the option stands for, before anything else happened on it. This holds of every connection that
the manager makes, in every order of steps, and of every one over TCP, where the roots of a fresh connector
are trusted besides those that the option names. A session runs only on an HTTP/3 layer over such a
connection, once it is established; and with its sessions' start spelled out the manager does nothing that
it does not do otherwise. -/
theorem nothing_leaves_unprepared (cfg : ClientCfg) (upstream : String) (acts : List Dialer.Act) :
    let d := Run.run Dialer.step (.new cfg upstream) acts
    (∃ acts, d.queue = Run.run OpenQueue.step (.new cfg) acts) ∧
      (∀ a ∈ d.attempts, ∀ call t, call :: t <:+ a.conn → call.sends = true → Prepared a.env cfg [] t) ∧
      (∀ env s, d.queue.phase = .up env s → ∃ a rest, d.attempts = a :: rest ∧ a.env.session = env ∧
        a.Up ∧ Prepared a.env cfg [] a.conn) ∧
      ∀ env tls, TlsClient.build env cfg = .ok tls → ∀ env' call t,
        call :: t <:+ (tls.connect env' cfg.sni).1 → call.sends = true →
          Prepared env cfg env.connector.roots t := by
  intro d
  have h : d.Kept cfg := Run.induction (I := Dialer.Kept cfg) (fun _ a hd => hd.step a) acts (.new cfg upstream)
  refine ⟨h.coarse,fun a ha call t ht hc => (h.attempts a ha).guarded.sends ht hc,?_,
    fun env tls hb env' call t ht hc => (TlsClient.connect_guarded hb).sends ht hc⟩
  intro env s hs
  obtain ⟨a,rest,ha,he,hup⟩ := h.session env s hs
  refine ⟨a,rest,ha,he,hup,?_⟩
  obtain hp | ⟨⟨e,he⟩,-⟩ := (h.attempts a (ha ▸ List.mem_cons_self)).prepared
  · exact hp
  · exact absurd (hup.1.symm.trans he) (by simp)

/-- Surroundings in which the server answers the first datagram, and BoringSSL takes the lists `ok` says. -/
def DialEnv.answered (ok : Bytes → Bool) : DialEnv where
  files _ := none
  decodeB64 _ := some [1]
  random := 0
  succeeds _ := true
  connector := ⟨[.system],true⟩
  connector_verifies := rfl
  lookupHost _ := some [⟨[127,0,0,1],443⟩]
  setEchConfigList := ok
  handshake _ := true
  isEstablished t := t.any fun call => call = .recv ⟨[127,0,0,1],443⟩ [2]
  isClosed _ := false
  flushPackets _ := true
  withTransport _ := true
  session := .dialer

def ClientCfg.hidden : ClientCfg := { ClientCfg.plain with ech := some (.inline "AQ==") }

/-- A list that is refused ends the first session; the next one comes up. -/
example : (Run.run Dialer.step (.new .hidden "example.com:443") [.queue .arrive,.queue .arrive,
      .dial (.answered fun _ => false) [],.dial (.answered fun _ => true) [],.handshake (.packet [2])]).attempts.map
        Attempt.conn =
    [[.withTransport true,.flushPackets true,.recv ⟨[127,0,0,1],443⟩ [2],.flushPackets true,
      .setEchConfigList [1] true,.ssl "example.com" ⟨[.system],true⟩],
     [.setEchConfigList [1] false,.ssl "example.com" ⟨[.system],true⟩]] := by
  decide

end EchTunnel
