import EchTunnel.H3.Flush
import EchTunnel.H3.Watched

/-! What becomes of the requests for a stream: the manager's channel, the sessions it runs one after
another, and the reply that each request gets or does not get. -/
namespace EchTunnel
open Wire

/-- How a request ends: its reply names a stream, or its reply sender is dropped. -/
inductive Fate
  | opened (sid : ℕ)
  | dropped
  deriving Repr, DecidableEq

/-- A request and its end. -/
abbrev Served := OpenReq × Fate

/-- The streams that were opened, in the order of the replies. -/
def opened (l : List Served) : List ℕ := l.filterMap fun r => match r.2 with
  | .opened sid => some sid
  | .dropped => none

theorem opened_append (l l' : List Served) : opened (l ++ l') = opened l ++ opened l' :=
  List.filterMap_append

theorem opened_dropped (reqs : List OpenReq) : opened (reqs.map fun req => (req,.dropped)) = [] := by
  simp [opened]

/-- `quiche` hands out stream ids in increasing order. -/
structure OrderedEnv extends Env where
  sendRequest_lt : ∀ {t headers fin sid}, sendRequest t headers fin = .ok sid →
    ∀ {hs f sid'}, .sendRequest hs f (.ok sid') ∈ t → sid' < sid

namespace Client

/-- What `open_stream` makes of the reply sender; `none` when it hands the request back. -/
def openStreamFate (env : Env) (cfg : ClientCfg) (c : Conn) (req : OpenReq) : Option Fate :=
  let a := env.sendRequest c.quic (requestHeaders cfg) false
  match a with
  | .streamBlocked | .streamLimit => none
  | .err => some .dropped
  | .ok sid =>
    let c := (c.note (.sendRequest (requestHeaders cfg) false a)).enter sid
    if env.requesterGone c.quic req then some .dropped else some (.opened sid)

/-- The request comes back, or it is dropped, or its reply hands over a stream. -/
theorem openStream_fate (env : Env) (cfg : ClientCfg) (c : Conn) (req : OpenReq) :
    let c' := (openStream env cfg c req).1
    (openStreamFate env cfg c req = none ∧ (openStream env cfg c req).2 = some req ∧
      c'.spawned = c.spawned) ∨
    (openStreamFate env cfg c req = some .dropped ∧ (openStream env cfg c req).2 = none ∧
      c'.spawned = c.spawned) ∨
    ∃ sid, openStreamFate env cfg c req = some (.opened sid) ∧ (openStream env cfg c req).2 = none ∧
      env.sendRequest c.quic (requestHeaders cfg) false = .ok sid ∧
      .sendRequest (requestHeaders cfg) false (.ok sid) ∈ c'.quic ∧
      ∃ rx, c'.spawned = c.spawned ++ [.new [] sid rx] := by
  unfold openStream openStreamFate
  generalize requestHeaders cfg = hs
  cases env.sendRequest c.quic hs false with
  | streamBlocked => exact Or.inl ⟨rfl,rfl,rfl⟩
  | streamLimit => exact Or.inl ⟨rfl,rfl,rfl⟩
  | err => exact Or.inr (Or.inl ⟨rfl,rfl,rfl⟩)
  | ok sid =>
    right
    simp only
    split
    · exact Or.inl ⟨rfl,rfl,rfl⟩
    · exact Or.inr ⟨sid,rfl,rfl,rfl,by simp [Conn.enter],_,rfl⟩

theorem handleEvent_quic (c : Conn) (sid : ℕ) (e : H3Event) : c.quic <:+ (handleEvent c sid e).quic := by
  obtain he | he | ⟨_,he⟩ | ⟨_,he⟩ := handleEvent_spec c sid e
  · exact ⟨[],by rw [he]; rfl⟩
  · exact ⟨[],by rw [he, Conn.markReadable_quic]; rfl⟩
  · exact ⟨[],by rw [he]; rfl⟩
  · exact ⟨[.streamShutdown sid .read],by rw [he]; rfl⟩

end Client

namespace Session
open Client
variable (env : Env)

/-- The requests that end at the top of the loop. -/
def servePendingFates (s : Session) : List Served :=
  match s.pending with
  | none => []
  | some req =>
    if env.extendedConnectEnabledByPeer s.conn.quic then
      (openStreamFate env s.cfg s.conn req).toList.map (req,·)
    else []

/-- The requests that end with the session. -/
def finishFates (s : Session) : List Served := s.pending.toList.map (·,.dropped)

def serviceFates (s : Session) : List Served :=
  match s.top env with
  | some s => s.servePendingFates env
  | none => s.finishFates

/-- The requests that end in a step. -/
def stepFates (s : Session) : Act → List Served
  | .bridge .. => []
  | .recvError => if s.running then s.finishFates else []
  | a => match s.select a with
    | some s => s.serviceFates env
    | none => []

/-- A session that enters its loop. -/
def init (cfg : ClientCfg) (peer : SocketAddr) (scid : Bytes) (first : OpenReq) : Session :=
  ⟨cfg,peer,⟨[.withTransport true,.connect scid],true,∅,[]⟩,some first,Hub.new EGRESS_CHANNEL_CAP,true⟩

theorem start_eq (cfg : ClientCfg) (peer : SocketAddr) (scid : Bytes) (first : OpenReq) :
    start env cfg peer scid first = (init cfg peer scid first).servePending env := rfl

/-- What a part of the loop does to the requests: those it is over with, in the order of the replies. The
bridges are those whose reply has been sent. -/
structure Serving (s s' : Session) (new : List Served) : Prop where
  held : new.map Prod.fst ++ s'.pending.toList = s.pending.toList
  bridges : s'.hub.bridges.map (fun b => b.stream.streamId) =
    s.hub.bridges.map (fun b => b.stream.streamId) ++ opened new
  asked : ∀ sid ∈ opened new, (∃ hs f, .sendRequest hs f (.ok sid) ∈ s'.conn.quic) ∧
    ∀ hs f sid', .sendRequest hs f (.ok sid') ∈ s.conn.quic → sid' < sid
  grows : s.conn.quic ⊆ s'.conn.quic
  spawned : s'.conn.spawned = []
  released : s'.running = false → s'.pending = none

section Serving
variable {env : OrderedEnv} {s s₁ s' : Session} {new : List Served}

theorem Serving.after (h : Serving s₁ s' new) (hp : s₁.pending = s.pending)
    (hb : s₁.hub.bridges = s.hub.bridges) (hq : s.conn.quic ⊆ s₁.conn.quic) : Serving s s' new where
  held := by rw [h.held, hp]
  bridges := by rw [h.bridges, hb]
  asked sid hs := (h.asked sid hs).imp_right fun hlt hs f sid' hm => hlt hs f sid' (hq hm)
  grows := List.Subset.trans hq h.grows
  spawned := h.spawned
  released := h.released

theorem servePending_serving (hs : s.conn.spawned = []) (hr : s.running = true) :
    Serving s (s.servePending env.toEnv) (s.servePendingFates env.toEnv) := by
  have hover : (s.servePending env.toEnv).running = false → (s.servePending env.toEnv).pending = none := by
    rw [servePending_running, hr]
    exact nofun
  unfold servePendingFates
  unfold servePending at hover ⊢
  cases hp : s.pending with
  | none => exact ⟨by simp [hp],by simp [opened],nofun,List.Subset.refl _,hs,fun _ => hp⟩
  | some req =>
    cases he : env.extendedConnectEnabledByPeer s.conn.quic with
    | false => exact ⟨by simp [hp],by simp [opened],nofun,List.Subset.refl _,hs,by simp [hr]⟩
    | true =>
      simp only [hp, he, if_true] at hover ⊢
      obtain ⟨t,hq,-,-⟩ := openStream_quic env.toEnv s.cfg s.conn req
      have hgrows : s.conn.quic ⊆ (openStream env.toEnv s.cfg s.conn req).1.quic := by
        rw [hq]
        exact List.subset_append_right t _
      obtain ⟨hf,ho,hsp⟩ | ⟨hf,ho,hsp⟩ | ⟨sid,hf,ho,ha,hm,rx,hsp⟩ :=
        openStream_fate env.toEnv s.cfg s.conn req
      · rw [hs] at hsp
        exact ⟨by simp [hf, ho, hp],by simp [hf, hsp, opened, Hub.spawn],by simp [hf, opened],hgrows,rfl,hover⟩
      · rw [hs] at hsp
        exact ⟨by simp [hf, ho, hp],by simp [hf, hsp, opened, Hub.spawn],by simp [hf, opened],hgrows,rfl,hover⟩
      · rw [hs, List.nil_append] at hsp
        refine ⟨by simp [hf, ho, hp],by simp [hf, hsp, opened, Hub.spawn, QuicStream.new],?_,hgrows,rfl,hover⟩
        intro sid' hsid
        obtain rfl : sid' = sid := by simpa [hf, opened] using hsid
        exact ⟨⟨_,_,hm⟩,fun hs f sid' hold => env.sendRequest_lt ha hold⟩

theorem finish_serving (hs : s.conn.spawned = []) : Serving s s.finish s.finishFates where
  held := by simp [finish, finishFates, Function.comp_def]
  bridges := by simp [finish, finishFates, opened_dropped]
  asked := by simp [finishFates, opened_dropped]
  grows := List.Subset.refl _
  spawned := hs
  released _ := rfl

theorem service_serving (hs : s.conn.spawned = []) (hr : s.running = true) :
    Serving s (s.service env.toEnv) (s.serviceFates env.toEnv) := by
  have hgrows : s.conn.quic ⊆ (flushPackets env.toEnv (exchange env.toEnv handleEvent s.conn)).1.quic :=
    List.subset_cons_of_subset _ (exchange_quic env.toEnv handleEvent_quic s.conn).subset
  have hspawned : (flushPackets env.toEnv (exchange env.toEnv handleEvent s.conn)).1.spawned = [] :=
    (spawned_exchange s.conn).trans hs
  unfold serviceFates service top
  simp only
  split_ifs with hok
  · exact (servePending_serving (s := { s with conn := _ }) hspawned hr).after rfl rfl hgrows
  · exact (finish_serving (s := { s with conn := _ }) hspawned).after rfl rfl hgrows

/-- A branch of `select!` other than the one that takes a request. -/
theorem select_kept {a : Act} (ha : ∀ req, a ≠ .openReq req) (h : s.select a = some s₁) :
    s₁.running = true ∧ s₁.conn.spawned = s.conn.spawned ∧ s₁.pending = s.pending ∧
      s₁.hub.bridges = s.hub.bridges ∧ s.conn.quic ⊆ s₁.conn.quic := by
  have hnote : ∀ call, s.conn.quic ⊆ (s.conn.note call).quic := fun call => List.subset_cons_self call _
  cases a with
  | packet pkt =>
    obtain ⟨hr,⟨⟩⟩ := Option.ite_none_right_eq_some.mp h
    exact ⟨hr,rfl,rfl,rfl,hnote _⟩
  | openReq req => exact absurd rfl (ha req)
  | egress =>
    rw [select] at h
    split at h
    · rename_i m rest hr _
      cases h
      exact ⟨hr,s.conn.queue_spawned _ m.out,rfl,rfl,(s.conn.queue_quic _ m.out).symm ▸ List.Subset.refl _⟩
    · contradiction
  | readCredit =>
    obtain ⟨hr,⟨⟩⟩ := Option.ite_none_right_eq_some.mp h
    exact ⟨hr,rfl,rfl,rfl,List.Subset.refl _⟩
  | timeout =>
    obtain ⟨hr,⟨⟩⟩ := Option.ite_none_right_eq_some.mp h
    exact ⟨hr,rfl,rfl,rfl,hnote _⟩
  | _ => contradiction

theorem step_serving (hs : s.conn.spawned = []) (hr : s.running = true) {a : Act}
    (ha : ∀ req, a ≠ .openReq req) :
    Serving s (s.step env.toEnv a) (s.stepFates env.toEnv a) := by
  have hidle : Serving s s [] :=
    ⟨rfl,by simp [opened],nofun,List.Subset.refl _,hs,by simp [hr]⟩
  have hselect : Serving s
      (match s.select a with
        | some s => service env.toEnv s
        | none => s)
      (match s.select a with
        | some s => s.serviceFates env.toEnv
        | none => []) := by
    cases hsel : s.select a with
    | none => exact hidle
    | some s₁ =>
      obtain ⟨hr₁,hs₁,hp,hb,hq⟩ := select_kept ha hsel
      exact (service_serving (hs₁.trans hs) hr₁).after hp hb hq
  cases a with
  | bridge i b =>
    have htags := congrArg (List.map Prod.snd) (s.hub.act_tags i b)
    simp only [List.map_map] at htags
    exact ⟨rfl,htags.trans (List.append_nil _).symm,nofun,List.Subset.refl _,hs,by simp [step, hr]⟩
  | recvError =>
    simp only [step, stepFates, hr, if_true]
    exact finish_serving hs
  | openReq req => exact absurd rfl (ha req)
  | _ => exact hselect

theorem openReq_serving (hs : s.conn.spawned = []) (hr : s.running = true) (hp : s.pending = none)
    (req : OpenReq) : Serving { s with pending := some req } (s.step env.toEnv (.openReq req))
      (s.stepFates env.toEnv (.openReq req)) := by
  have hsel : s.select (.openReq req) = some { s with pending := some req } :=
    if_pos ⟨hr,Option.isNone_iff_eq_none.mpr hp⟩
  simp only [step, stepFates, hsel]
  exact service_serving (s := { s with pending := some req }) hs hr

end Serving
end Session

/-- What the manager is doing. -/
inductive ManagerPhase
  | idle
  | connecting (first : OpenReq)
  | up (env : OrderedEnv) (s : Session)

/-- The manager and its channel. Requests are numbered as they arrive. `taken` are those that have left
the channel, `ledger` are those that have ended in the current session, and `past` in the earlier ones. -/
structure OpenQueue where
  cfg : ClientCfg
  channel : List OpenReq
  arrived : ℕ
  taken : List OpenReq
  phase : ManagerPhase
  ledger : List Served
  past : List (List Served)

namespace OpenQueue

def new (cfg : ClientCfg) : OpenQueue := ⟨cfg,[],0,[],.idle,[],[]⟩

/-- A request arrives; the manager takes one and dials; the session fails or comes up; it takes another
request; or something else happens in it. -/
inductive Act
  | arrive
  | dial
  | failed
  | connected (env : OrderedEnv) (peer : SocketAddr) (scid : Bytes)
  | take
  | session (a : Session.Act)

/-- The requests that have left the channel and have not ended. -/
def held (q : OpenQueue) : List OpenReq :=
  match q.phase with
  | .idle => []
  | .connecting first => [first]
  | .up _ s => s.pending.toList

/-- The requests that have ended. -/
def ended (q : OpenQueue) : List Served := q.past.flatten ++ q.ledger

/-- The manager is back at the top of its loop. -/
def close (q : OpenQueue) (new : List Served) : OpenQueue :=
  { q with phase := .idle, past := q.past ++ [q.ledger ++ new], ledger := [] }

def stepSession (q : OpenQueue) (env : OrderedEnv) (s : Session) (a : Session.Act) : OpenQueue :=
  let s' := s.step env.toEnv a
  let new := s.stepFates env.toEnv a
  if s'.running then { q with phase := .up env s', ledger := q.ledger ++ new } else q.close new

def step (q : OpenQueue) : Act → OpenQueue
  | .arrive => { q with channel := q.channel ++ [q.arrived], arrived := q.arrived + 1 }
  | .dial =>
    match q.phase, q.channel with
    | .idle, first :: rest =>
      { q with channel := rest, taken := q.taken ++ [first], phase := .connecting first }
    | _, _ => q
  | .failed =>
    match q.phase with
    | .connecting first => q.close [(first,.dropped)]
    | _ => q
  | .connected env peer scid =>
    match q.phase with
    | .connecting first =>
      { q with
        phase := .up env (.start env.toEnv q.cfg peer scid first)
        ledger := (Session.init q.cfg peer scid first).servePendingFates env.toEnv }
    | _ => q
  | .take =>
    match q.phase, q.channel with
    | .up env s, req :: rest =>
      if s.pending.isNone then
        { q with channel := rest, taken := q.taken ++ [req] }.stepSession env s (.openReq req)
      else q
    | _, _ => q
  -- requests come through the channel only
  | .session (.openReq _) => q
  | .session a =>
    match q.phase with
    | .up env s => q.stepSession env s a
    | _ => q

section Step
variable (q : OpenQueue) (env : OrderedEnv) (s : Session) (a : Session.Act)

@[simp] theorem stepSession_taken : (q.stepSession env s a).taken = q.taken := by
  unfold stepSession
  simp only
  split_ifs <;> rfl

@[simp] theorem stepSession_channel : (q.stepSession env s a).channel = q.channel := by
  unfold stepSession
  simp only
  split_ifs <;> rfl

@[simp] theorem close_ended (new : List Served) : (q.close new).ended = q.ended ++ new := by
  simp [ended, close]

@[simp] theorem stepSession_ended :
    (q.stepSession env s a).ended = q.ended ++ s.stepFates env.toEnv a := by
  unfold stepSession
  simp only
  split_ifs
  · exact (List.append_assoc ..).symm
  · exact q.close_ended _

/-- What a step can do. -/
theorem step_cases (a : Act) :
    q.step a = q ∨
    q.step a = { q with channel := q.channel ++ [q.arrived], arrived := q.arrived + 1 } ∨
    (∃ first rest, q.phase = .idle ∧ q.channel = first :: rest ∧
      q.step a = { q with channel := rest, taken := q.taken ++ [first], phase := .connecting first }) ∨
    (∃ first, q.phase = .connecting first ∧ q.step a = q.close [(first,.dropped)]) ∨
    (∃ env peer scid first, q.phase = .connecting first ∧ q.step a = { q with
      phase := .up env (.start env.toEnv q.cfg peer scid first)
      ledger := (Session.init q.cfg peer scid first).servePendingFates env.toEnv }) ∨
    (∃ env s req rest, q.phase = .up env s ∧ q.channel = req :: rest ∧ s.pending = none ∧
      q.step a =
        { q with channel := rest, taken := q.taken ++ [req] }.stepSession env s (.openReq req)) ∨
    ∃ env s b, q.phase = .up env s ∧ (∀ req, b ≠ .openReq req) ∧ q.step a = q.stepSession env s b := by
  cases a with
  | arrive => exact Or.inr (Or.inl rfl)
  | dial =>
    rw [step]
    split
    · rename_i first rest hp hc
      exact Or.inr (Or.inr (Or.inl ⟨first,rest,hp,hc,rfl⟩))
    · exact Or.inl rfl
  | failed =>
    rw [step]
    split
    · rename_i first hp
      exact Or.inr (Or.inr (Or.inr (Or.inl ⟨first,hp,rfl⟩)))
    · exact Or.inl rfl
  | connected env peer scid =>
    rw [step]
    split
    · rename_i first hp
      exact Or.inr (Or.inr (Or.inr (Or.inr (Or.inl ⟨env,peer,scid,first,hp,rfl⟩))))
    · exact Or.inl rfl
  | take =>
    rw [step]
    split
    · rename_i env s req rest hp hc
      split_ifs with hn
      · rw [Option.isNone_iff_eq_none] at hn
        exact Or.inr (Or.inr (Or.inr (Or.inr (Or.inr (Or.inl ⟨env,s,req,rest,hp,hc,hn,rfl⟩)))))
      · exact Or.inl rfl
    · exact Or.inl rfl
  | session b =>
    by_cases hb : ∃ req, b = .openReq req
    · obtain ⟨req,rfl⟩ := hb
      exact Or.inl rfl
    · have hb : ∀ req, b ≠ .openReq req := fun req he => hb ⟨req,he⟩
      rw [step]
      · split
        · rename_i env s hp
          exact Or.inr (Or.inr (Or.inr (Or.inr (Or.inr (Or.inr ⟨env,s,b,hp,hb,rfl⟩)))))
        · exact Or.inl rfl
      · exact hb

/-- A request leaves the channel when the manager takes it, the one at the front first. -/
theorem step_left (a : Act) : ∃ got new, (q.step a).taken = q.taken ++ got ∧
    q.channel ++ new = got ++ (q.step a).channel := by
  obtain he | he | ⟨first,rest,_,hc,he⟩ | ⟨first,_,he⟩ | ⟨env,peer,scid,first,_,he⟩ |
    ⟨env,s,req,rest,_,hc,_,he⟩ | ⟨env,s,b,_,_,he⟩ := q.step_cases a
  · exact ⟨[],[],by simp [he],by simp [he]⟩
  · exact ⟨[],[q.arrived],by simp [he],by simp [he]⟩
  · exact ⟨[first],[],by simp [he],by simp [he, hc]⟩
  · exact ⟨[],[],by simp [he, close],by simp [he, close]⟩
  · exact ⟨[],[],by simp [he],by simp [he]⟩
  · exact ⟨[req],[],by simp [he],by simp [he, hc]⟩
  · exact ⟨[],[],by simp [he],by simp [he]⟩

/-- While a request is held, no other leaves the channel. -/
theorem step_parked (hq : q.held ≠ []) (a : Act) : (q.step a).taken = q.taken := by
  obtain he | he | ⟨first,rest,hp,_,he⟩ | ⟨first,_,he⟩ | ⟨env,peer,scid,first,_,he⟩ |
    ⟨env,s,req,rest,hp,_,hn,he⟩ | ⟨env,s,b,_,_,he⟩ := q.step_cases a
  · rw [he]
  · rw [he]
  · exact absurd (by rw [held, hp]) hq
  · rw [he, close]
  · rw [he]
  · refine absurd ?_ hq
    simp only [held, hp, hn, Option.toList_none]
  · rw [he, stepSession_taken]

end Step

/-- A running session and the requests that have ended in it. -/
structure Tracks (s : Session) (l : List Served) : Prop where
  running : s.running = true
  spawned : s.conn.spawned = []
  bridges : s.hub.bridges.map (fun b => b.stream.streamId) = opened l
  asked : ∀ sid ∈ opened l, ∃ hs f, .sendRequest hs f (.ok sid) ∈ s.conn.quic
  increasing : (opened l).Pairwise (· < ·)

namespace Tracks
variable {s s' : Session} {l new : List Served}

/-- Whether the session goes on or not, the ids increase. -/
theorem increasing_append (h : Tracks s l) (hs : s.Serving s' new) :
    (opened (l ++ new)).Pairwise (· < ·) := by
  rw [opened_append, List.pairwise_append]
  refine ⟨h.increasing,?_,?_⟩
  · -- at most one request is served
    have hlen : (opened new).length ≤ 1 := by
      have hheld := congrArg List.length hs.held
      have hpending : s.pending.toList.length ≤ 1 := by cases s.pending <;> simp
      have hopened : (opened new).length ≤ new.length := List.length_filterMap_le _ _
      simp only [List.length_append, List.length_map] at hheld
      omega
    rw [List.pairwise_iff_getElem]
    intro i j _ hj hij
    omega
  · intro sid hl sid' hnew
    obtain ⟨hs',f,hm⟩ := h.asked sid hl
    exact (hs.asked sid' hnew).2 hs' f sid hm

theorem append (h : Tracks s l) (hs : s.Serving s' new) (hr : s'.running = true) :
    Tracks s' (l ++ new) where
  running := hr
  spawned := hs.spawned
  bridges := by rw [hs.bridges, h.bridges, opened_append]
  asked sid hsid := by
    rw [opened_append, List.mem_append] at hsid
    obtain hsid | hsid := hsid
    · obtain ⟨hs',f,hm⟩ := h.asked sid hsid
      exact ⟨hs',f,hs.grows hm⟩
    · exact (hs.asked sid hsid).1
  increasing := h.increasing_append hs

/-- A session comes up, and may have served its first request. -/
theorem start (env : OrderedEnv) (cfg : ClientCfg) (peer : SocketAddr) (scid : Bytes) (first : OpenReq) :
    let s := Session.init cfg peer scid first
    s.Serving (.start env.toEnv cfg peer scid first) (s.servePendingFates env.toEnv) ∧
      Tracks (.start env.toEnv cfg peer scid first) (s.servePendingFates env.toEnv) := by
  intro s
  have hserving : s.Serving (.start env.toEnv cfg peer scid first) (s.servePendingFates env.toEnv) :=
    Session.start_eq env.toEnv cfg peer scid first ▸ Session.servePending_serving rfl rfl
  have hinit : Tracks s [] := ⟨rfl,rfl,rfl,nofun,List.Pairwise.nil⟩
  exact ⟨hserving,hinit.append hserving (Session.servePending_running env.toEnv s)⟩

end Tracks

/-- What the manager keeps to: a request is in the channel, or is held, or has ended, and each of the three
has them in the order of arrival. -/
structure Kept (q : OpenQueue) : Prop where
  arrivals : q.taken ++ q.channel = List.range q.arrived
  requests : q.ended.map Prod.fst ++ q.held = q.taken
  past : ∀ l ∈ q.past, (opened l).Pairwise (· < ·)
  session : match q.phase with
    | .up _ s => Tracks s q.ledger
    | _ => q.ledger = []

namespace Kept
variable {q : OpenQueue} {env : OrderedEnv} {s : Session} {a : Session.Act}

theorem stepSession (s₁ : Session) (h : Kept { q with phase := .up env s₁ })
    (hs : s₁.Serving (s.step env.toEnv a) (s.stepFates env.toEnv a)) : (q.stepSession env s a).Kept := by
  have htracks : Tracks s₁ q.ledger := h.session
  have hheld : q.ended.map Prod.fst ++ s₁.pending.toList = q.taken := h.requests
  rw [← hs.held, ← List.append_assoc, ← List.map_append] at hheld
  unfold OpenQueue.stepSession
  simp only
  split_ifs with hr
  · refine ⟨h.arrivals,?_,h.past,htracks.append hs hr⟩
    simpa [ended, held] using hheld
  · refine ⟨h.arrivals,?_,?_,rfl⟩
    · simpa [ended, held, close, hs.released (by simpa using hr)] using hheld
    · intro l hl
      obtain hl | hl := List.mem_append.mp hl
      · exact h.past l hl
      · rw [List.mem_singleton.mp hl]
        exact htracks.increasing_append hs

/-- The manager takes the request at the front of its channel. -/
theorem next (h : q.Kept) {req : OpenReq} {rest : List OpenReq} (hc : q.channel = req :: rest) :
    (q.taken ++ [req]) ++ rest = List.range q.arrived := by
  rw [← h.arrivals, hc, List.append_assoc, List.singleton_append]

theorem step (h : q.Kept) (a : Act) : (q.step a).Kept := by
  obtain ⟨hchannel,hheld,hpast,hsession⟩ := id h
  obtain he | he | ⟨first,rest,hp,hc,he⟩ | ⟨first,hp,he⟩ | ⟨env,peer,scid,first,hp,he⟩ |
    ⟨env,s,req,rest,hp,hc,hn,he⟩ | ⟨env,s,b,hp,hb,he⟩ := q.step_cases a <;> rw [he]
  · exact h
  · refine ⟨?_,hheld,hpast,hsession⟩
    rw [List.range_succ, ← hchannel, List.append_assoc]
  · simp only [hp] at hsession
    simp only [held, hp, List.append_nil] at hheld
    exact ⟨h.next hc,congrArg (· ++ [first]) hheld,hpast,hsession⟩
  · simp only [hp] at hsession
    simp only [held, hp] at hheld
    refine ⟨hchannel,?_,?_,rfl⟩
    · rw [close_ended, List.map_append]
      exact (List.append_nil _).trans hheld
    · simpa [close, hsession, or_imp, forall_and, opened] using hpast
  · obtain ⟨hs,ht⟩ := Tracks.start env q.cfg peer scid first
    have hfirst : _ ++ _ = [first] := hs.held
    simp only [hp] at hsession
    simp only [held, hp, ended, hsession, List.append_nil, ← hfirst] at hheld
    refine ⟨hchannel,?_,hpast,ht⟩
    simpa [ended, held] using hheld
  · simp only [hp] at hsession
    refine stepSession { s with pending := some req } ?_
      (Session.openReq_serving hsession.spawned hsession.running hn req)
    simp only [held, hp, hn, Option.toList_none, List.append_nil] at hheld
    refine ⟨h.next hc,congrArg (· ++ [req]) hheld,hpast,?_⟩
    exact ⟨hsession.running,hsession.spawned,hsession.bridges,hsession.asked,hsession.increasing⟩
  · simp only [hp] at hsession
    refine stepSession s ?_ (Session.step_serving hsession.spawned hsession.running hb)
    simp only [held, hp] at hheld
    exact ⟨hchannel,hheld,hpast,hsession⟩

theorem new (cfg : ClientCfg) : (OpenQueue.new cfg).Kept := ⟨rfl,rfl,nofun,rfl⟩

/-- What has ended stays so. -/
theorem ended_step (h : q.Kept) (a : Act) : q.ended <+: (q.step a).ended := by
  obtain he | he | ⟨first,rest,hp,hc,he⟩ | ⟨first,hp,he⟩ | ⟨env,peer,scid,first,hp,he⟩ |
    ⟨env,s,req,rest,hp,hc,hn,he⟩ | ⟨env,s,b,hp,hb,he⟩ := q.step_cases a <;> simp only [he]
  · exact List.prefix_rfl
  · exact List.prefix_rfl
  · exact List.prefix_rfl
  · rw [close_ended]
    exact List.prefix_append ..
  · have hsession := h.session
    simp only [hp] at hsession
    simp [ended, hsession]
  · rw [stepSession_ended]
    exact List.prefix_append ..
  · rw [stepSession_ended]
    exact List.prefix_append ..

theorem ended_run (h : q.Kept) (acts : List Act) : q.ended <+: (Run.run OpenQueue.step q acts).ended := by
  refine (Run.induction (I := fun q' : OpenQueue => q'.Kept ∧ q.ended <+: q'.ended) ?_ acts
    ⟨h,List.prefix_rfl⟩).2
  rintro q' a ⟨h',hpre⟩
  exact ⟨h'.step a,hpre.trans (h'.ended_step a)⟩

/-- A request that has been taken is held, or it has ended in one way. -/
theorem once (h : q.Kept) {req : OpenReq} (hreq : req ∈ q.taken) :
    req ∈ q.held ∧ (∀ fate, (req,fate) ∉ q.ended) ∨
      req ∉ q.held ∧ ∃! fate, (req,fate) ∈ q.ended := by
  have hnodup : (q.ended.map Prod.fst ++ q.held).Nodup := by
    rw [h.requests]
    exact List.Nodup.of_append_left (h.arrivals ▸ List.nodup_range)
  obtain ⟨hended,-,hdisj⟩ := List.nodup_append'.mp hnodup
  rw [← h.requests, List.mem_append] at hreq
  obtain hreq | hreq := hreq
  · refine Or.inr ⟨fun hheld => hdisj hreq hheld,?_⟩
    obtain ⟨⟨_,fate⟩,hm,rfl⟩ := List.mem_map.mp hreq
    refine ⟨fate,hm,fun fate' hm' => ?_⟩
    exact congrArg Prod.snd (List.inj_on_of_nodup_map hended hm' hm rfl)
  · exact Or.inl ⟨hreq,fun fate hm => hdisj (List.mem_map_of_mem hm) hreq⟩

theorem replies (h : q.Kept) {l : List Served} (hl : l ∈ q.past ++ [q.ledger]) :
    (l.map Prod.fst).Pairwise (· < ·) ∧ (opened l).Pairwise (· < ·) := by
  constructor
  · have hsub : l.Sublist q.ended := by
      have := List.sublist_flatten_of_mem hl
      simpa [ended] using this
    have hrange : (q.ended.map Prod.fst ++ (q.held ++ q.channel)).Pairwise (· < ·) := by
      rw [← List.append_assoc, h.requests, h.arrivals]
      exact List.pairwise_lt_range
    exact (List.pairwise_append.mp hrange).1.sublist (hsub.map Prod.fst)
  · obtain hl | hl := List.mem_append.mp hl
    · exact h.past l hl
    · rw [List.mem_singleton.mp hl]
      have hsession := h.session
      split at hsession
      · exact hsession.increasing
      · rw [hsession]
        exact List.Pairwise.nil

end Kept

/-- Requests are served once and in order. -/
structure InOrder (q : OpenQueue) : Prop where
  arrivals : q.taken ++ q.channel = List.range q.arrived
  requests : q.ended.map Prod.fst ++ q.held = q.taken
  once : ∀ req ∈ q.taken, req ∈ q.held ∧ (∀ fate, (req,fate) ∉ q.ended) ∨
    req ∉ q.held ∧ ∃! fate, (req,fate) ∈ q.ended
  /-- No request outlives the session that holds it. -/
  released : q.phase = .idle → q.held = []
  final : ∀ acts, q.ended <+: (Run.run step q acts).ended
  parked : q.held ≠ [] → ∀ a, (q.step a).taken = q.taken
  replies : ∀ l ∈ q.past ++ [q.ledger],
    (l.map Prod.fst).Pairwise (· < ·) ∧ (opened l).Pairwise (· < ·)
  bridges : ∀ env s, q.phase = .up env s →
    s.hub.bridges.map (fun b => b.stream.streamId) = opened q.ledger
  left : ∀ a, ∃ got new, (q.step a).taken = q.taken ++ got ∧
    q.channel ++ new = got ++ (q.step a).channel
  next : q.phase = .idle → ∀ first rest, q.channel = first :: rest →
    (q.step .dial).held = [first] ∧ (q.step .dial).channel = rest

theorem Kept.inOrder {q : OpenQueue} (h : q.Kept) : q.InOrder where
  arrivals := h.arrivals
  requests := h.requests
  once _ hreq := h.once hreq
  released hp := by rw [held, hp]
  final := h.ended_run
  parked hq := q.step_parked hq
  replies _ hl := h.replies hl
  bridges env s hp := by
    have hsession := h.session
    simp only [hp] at hsession
    exact hsession.bridges
  left := q.step_left
  next hp first rest hc := by simp [OpenQueue.step, hp, hc, held]

end OpenQueue

/-- In every run every request is taken once, and is answered once or dropped; a session answers in the
order of arrival, on increasing streams. -/
theorem requests_in_order (cfg : ClientCfg) (acts : List OpenQueue.Act) :
    (Run.run OpenQueue.step (.new cfg) acts).InOrder :=
  (Run.induction (I := OpenQueue.Kept) (fun _ a h => h.step a) acts (.new cfg)).inOrder

/-- Surroundings in which the first request gets stream 0, and later ones wait. -/
def OrderedEnv.dialer : OrderedEnv :=
  { Env.dialer with
    sendRequest_lt := by
      intro t headers fin sid h hs f sid' hm
      simp only [Env.dialer] at h
      split at h
      · contradiction
      · rename_i hno
        exact absurd (List.any_eq_true.mpr ⟨_,hm,rfl⟩) hno }

/-- The session serves one request and dies with another; a third waits for the next session. -/
example :
    let q := Run.run OpenQueue.step (.new .plain)
      [.arrive,.arrive,.arrive,.dial,.connected .dialer ⟨[127,0,0,1],443⟩ [],.take,.session .recvError]
    q.past = [[(0,.opened 0),(1,.dropped)]] ∧ q.channel = [2] := by
  decide

end EchTunnel
