import EchTunnel.H3.Discard

/-! The server loop watched from outside: which connection started a bridge, and which bridge sent a
message. -/
namespace EchTunnel
open Wire

namespace Hub

/-- The message that a step of the `i`-th task puts into the channel. -/
def sent (h : Hub) (i : ℕ) (a : BridgeAct) : Option Egress :=
  match h.bridges[i]? with
  | none => none
  | some b => if ∀ r ∈ a.reserve, h.Answers r then (b.act a).2 else none

variable (h : Hub) (i : ℕ) (a : BridgeAct)

theorem act_egress : (h.act i a).egress = h.egress ++ (h.sent i a).toList := by
  unfold act sent
  cases h.bridges[i]? with
  | none => simp
  | some b =>
    simp only
    split_ifs <;> simp

theorem act_tags : (h.act i a).bridges.map Bridge.tag = h.bridges.map Bridge.tag := by
  unfold act
  split
  · rfl
  · rename_i b hb
    split_ifs
    · exact (Follow.set hb a).tags
    · rfl

/-- Tasks stay where they are. -/
theorem act_bridge {j : ℕ} {t : Bytes × ℕ} (hj : ∃ b, h.bridges[j]? = some b ∧ b.tag = t) :
    ∃ b, (h.act i a).bridges[j]? = some b ∧ b.tag = t := by
  have hmap := congrArg (·[j]?) (h.act_tags i a)
  simp only [List.getElem?_map] at hmap
  obtain ⟨b,hb,rfl⟩ := hj
  rw [hb] at hmap
  exact Option.map_eq_some_iff.mp hmap

theorem act_rxOpen : (h.act i a).rxOpen = h.rxOpen := by
  unfold act
  split
  · rfl
  · split <;> rfl

/-- A closed channel takes no message. -/
theorem sent_of_closed (hc : h.rxOpen = false) : h.sent i a = none := by
  unfold sent
  split
  · rfl
  · rename_i b _
    split_ifs with ha
    · obtain he | ⟨_,_,_,he⟩ | ⟨_,rfl,_⟩ | ⟨r,rfl,_,_,_,he⟩ | ⟨r,rfl,_,_,he⟩ := b.act_cases a
      · rw [he]
      · rw [he]
      · exact absurd (ha .ready rfl).1 (by simp [hc])
      · rw [he]
        cases r with
        | ready => exact absurd (ha .ready rfl).1 (by simp [hc])
        | closed => rfl
        | pending => rfl
      · rw [he]
        cases r with
        | ready => exact absurd (ha .ready rfl).1 (by simp [hc])
        | closed => rfl
        | pending => rfl
    · rfl

/-- A message carries the tag of its sender. -/
theorem sent_tag {m : Egress} (hm : h.sent i a = some m) :
    ∃ b, h.bridges[i]? = some b ∧ b.tag = (m.key,m.streamId) := by
  unfold sent at hm
  split at hm
  · contradiction
  · rename_i b hb
    refine ⟨b,hb,?_⟩
    obtain ⟨_,hm⟩ := Option.ite_none_right_eq_some.mp hm
    obtain he | ⟨_,_,_,he⟩ | ⟨_,_,_,_,he⟩ | ⟨r,_,_,_,_,he⟩ | ⟨r,_,_,_,he⟩ := b.act_cases a
    · simp [he] at hm
    · simp [he] at hm
    · rw [he] at hm
      cases hm
      rfl
    · rw [he] at hm
      obtain ⟨_,⟨⟩⟩ := Option.ite_none_right_eq_some.mp hm
      rfl
    · rw [he] at hm
      obtain ⟨_,⟨⟩⟩ := Option.ite_none_right_eq_some.mp hm
      rfl

end Hub

/-- A datagram that opens a connection. -/
def Listener.Opens (env : ServerEnv) (l : Listener) (peer : SocketAddr) (pkt draw : Bytes) : Prop :=
  (∃ hdr ∈ env.fromSlice pkt, l.conns.lookup hdr.dcid = none) ∧
    (l.routePacket env peer pkt draw).2 ≠ none

instance (env : ServerEnv) (l : Listener) (peer : SocketAddr) (pkt draw : Bytes) :
    Decidable (l.Opens env peer pkt draw) := inferInstanceAs (Decidable (_ ∧ _))

/-- A listener whose connections are numbered in the order in which they are opened. `keys` are their
keys, `number` finds the one under a key, `owners` are the connections that started the bridges, and
`senders` the bridges behind the messages in the channel. -/
structure Watched where
  l : Listener
  keys : List Bytes
  number : Bytes → ℕ
  owners : List ℕ
  senders : List ℕ

namespace Watched
open Listener

def new (cfg : ServerCfg) (certs : CertSource) : Watched := ⟨.new cfg certs,[],fun _ => 0,[],[]⟩

variable (env : ServerEnv)

def routePacket (w : Watched) (peer : SocketAddr) (pkt draw : Bytes) : Watched × Option Bytes :=
  let (l,key) := w.l.routePacket env peer pkt draw
  if w.l.Opens env peer pkt draw then
    ({ w with l, keys := w.keys ++ [draw], number := Function.update w.number draw w.keys.length },key)
  else ({ w with l },key)

def serviceAt (w : Watched) (key : Bytes) : Watched :=
  match w.l.conns.lookup key with
  | none => w
  | some c =>
    { w with
      l := w.l.serviceAt env key
      owners := w.owners ++ (Server.service env w.l.cfg key c).spawned.map fun _ => w.number key }

def dequeue (w : Watched) (m : Egress) (rest : List Egress) : Watched :=
  { w with
    l := { w.l with hub := { w.l.hub with egress := rest } }.queue m
    senders := w.senders.tail }

def act (w : Watched) (i : ℕ) (a : BridgeAct) : Watched :=
  { w with
    l := { w.l with hub := w.l.hub.act i a }
    senders := w.senders ++ (w.l.hub.sent i a).toList.map fun _ => i }

def select (w : Watched) : Act → Watched × Bool
  | .datagram peer pkt draw =>
    match w.routePacket env peer pkt draw with
    | (w,some key) => (w.serviceAt env key,true)
    | (w,none) => (w,false)
  | .recvError => (w,false)
  | .egress =>
    match w.l.hub.egress with
    | [] => (w,false)
    | m :: rest => ((w.dequeue m rest).serviceAt env m.key,true)
  | .readCredit order =>
    if order.Perm w.l.conns.keys then (order.foldl (serviceAt env) w,true) else (w,false)
  | .timeout order =>
    if order.Perm w.l.conns.keys then
      (order.foldl (fun w key => { w with l := w.l.noteTimeout key }.serviceAt env key) w,true)
    else (w,false)
  | .swap certPem keyPem => ({ w with l := { w.l with certs := w.l.certs.swap certPem keyPem } },false)
  | .bridge i a => (w.act i a,false)

def step (w : Watched) (a : Act) : Watched :=
  let (w',go) := w.select env a
  if go then { w' with l := w'.l.retain env } else w'

theorem serviceAt_l (w : Watched) (key : Bytes) : (w.serviceAt env key).l = w.l.serviceAt env key := by
  unfold serviceAt
  split
  · rename_i hl
    rw [Listener.serviceAt, hl]
  · rfl

theorem routePacket_l (w : Watched) (peer : SocketAddr) (pkt draw : Bytes) :
    (w.routePacket env peer pkt draw).1.l = (w.l.routePacket env peer pkt draw).1 ∧
      (w.routePacket env peer pkt draw).2 = (w.l.routePacket env peer pkt draw).2 := by
  unfold routePacket
  split_ifs <;> exact ⟨rfl,rfl⟩

/-- The passes over connections are those of the loop. -/
theorem foldl_l {f : Watched → Bytes → Watched} {g : Listener → Bytes → Listener}
    (h : ∀ w key, (f w key).l = g w.l key) (order : List Bytes) (w : Watched) :
    (order.foldl f w).l = order.foldl g w.l := by
  induction order generalizing w with
  | nil => rfl
  | cons key order ih => rw [List.foldl_cons, List.foldl_cons, ih, h]

theorem select_l (w : Watched) (a : Act) :
    (w.select env a).1.l = (w.l.select env a).1 ∧ (w.select env a).2 = (w.l.select env a).2 := by
  cases a with
  | datagram peer pkt draw =>
    obtain ⟨hl,hk⟩ := routePacket_l env w peer pkt draw
    rw [select, Listener.select]
    cases hw : w.routePacket env peer pkt draw with
    | mk w' key =>
      cases hr : w.l.routePacket env peer pkt draw with
      | mk l' key' =>
        rw [hw, hr] at hl hk
        obtain rfl : w'.l = l' := hl
        obtain rfl : key = key' := hk
        cases key with
        | none => exact ⟨rfl,rfl⟩
        | some key => exact ⟨serviceAt_l env w' key,rfl⟩
  | recvError => exact ⟨rfl,rfl⟩
  | egress =>
    rw [select, Listener.select]
    cases w.l.hub.egress with
    | nil => exact ⟨rfl,rfl⟩
    | cons m rest => exact ⟨serviceAt_l env _ m.key,rfl⟩
  | readCredit order =>
    rw [select, Listener.select]
    split_ifs
    · exact ⟨foldl_l (serviceAt_l env) order w,rfl⟩
    · exact ⟨rfl,rfl⟩
  | timeout order =>
    rw [select, Listener.select]
    split_ifs
    · exact ⟨foldl_l (fun w key => serviceAt_l env { w with l := w.l.noteTimeout key } key) order w,rfl⟩
    · exact ⟨rfl,rfl⟩
  | swap certPem keyPem => exact ⟨rfl,rfl⟩
  | bridge i b => exact ⟨rfl,rfl⟩

/-- Watching a listener does not change what it does. -/
theorem step_l (w : Watched) (a : Act) : (w.step env a).l = w.l.step env a := by
  obtain ⟨hl,hg⟩ := select_l env w a
  simp only [step, Listener.step, hg]
  split_ifs
  · rw [← hl]
  · exact hl

theorem run_l (acts : List Act) (w : Watched) :
    (Run.run (step env) w acts).l = Run.run (Listener.step env) w.l acts := by
  induction acts generalizing w with
  | nil => rfl
  | cons a acts ih => rw [Run.run_cons, Run.run_cons, ih, step_l]

variable {env}

/-- What the parts of a step preserve, the step does. -/
theorem step_induction {P : Watched → Prop} {w : Watched} {a : Act} (h : P w)
    (hroute : ∀ peer pkt draw, a = .datagram peer pkt draw → P (w.routePacket env peer pkt draw).1)
    (hqueue : ∀ m rest, w.l.hub.egress = m :: rest → P (w.dequeue m rest))
    (htimeout : ∀ w key, P w → P { w with l := w.l.noteTimeout key })
    (hservice : ∀ w key, P w → P (w.serviceAt env key))
    (hswap : ∀ certPem keyPem, P { w with l := { w.l with certs := w.l.certs.swap certPem keyPem } })
    (hbridge : ∀ i b, P (w.act i b)) (hretain : ∀ w, P w → P { w with l := w.l.retain env }) :
    P (w.step env a) := by
  have hsel : P (w.select env a).1 := by
    cases a with
    | datagram peer pkt draw =>
      have hr := hroute peer pkt draw rfl
      rw [select]
      cases hw : w.routePacket env peer pkt draw with
      | mk w' key =>
        rw [hw] at hr
        cases key with
        | none => exact hr
        | some key => exact hservice w' key hr
    | recvError => exact h
    | egress =>
      rw [select]
      cases he : w.l.hub.egress with
      | nil => exact h
      | cons m rest => exact hservice _ m.key (hqueue m rest he)
    | readCredit order =>
      rw [select]
      split_ifs
      · exact Run.induction hservice order h
      · exact h
    | timeout order =>
      rw [select]
      split_ifs
      · exact Run.induction (fun w key hw => hservice _ key (htimeout w key hw)) order h
      · exact h
    | swap certPem keyPem => exact hswap certPem keyPem
    | bridge i b => exact hbridge i b
  rw [step]
  split
  rename_i w' go he
  rw [he] at hsel
  split_ifs
  · exact hretain w' hsel
  · exact hsel

end Watched
end EchTunnel
