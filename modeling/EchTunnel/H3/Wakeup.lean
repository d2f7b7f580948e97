import EchTunnel.H3.Alert

/-! No lost wake-up: while bytes of a live tunnel wait in `quiche`, something is bound to bring the loop
back to it. -/
namespace EchTunnel
open Wire

namespace Bridge
variable (b : Bridge) (a : BridgeAct)

theorem act_name : (b.act a).1.name = b.name := by
  obtain he | ⟨_,_,_,he⟩ | ⟨_,_,_,_,he⟩ | ⟨_,_,_,_,_,he⟩ | ⟨_,_,_,_,he⟩ := b.act_cases a <;>
    rw [he] <;> rfl

end Bridge
namespace Hub
variable (h : Hub)

theorem names_set {i : ℕ} {b b' : Bridge} (hb : h.bridges[i]? = some b) (hn : b'.name = b.name) :
    names { h with bridges := h.bridges.set i b' } = h.names := by
  obtain ⟨_,hget⟩ := List.getElem?_eq_some_iff.mp hb
  simp only [names]
  rw [List.map_set, hn, ← List.map_set, ← hget, List.set_getElem_self]

theorem act_names (i : ℕ) (a : BridgeAct) : (h.act i a).names = h.names := by
  unfold act
  split
  · rfl
  · rename_i b hb
    split_ifs
    · exact h.names_set hb (b.act_name a)
    · rfl

theorem names_spawn (qs : List QuicStream) (phase : Phase) :
    (h.spawn (qs.map fun q => ⟨q,phase,[]⟩)).names = h.names ++ qs.map QuicStream.name := by
  simp [names, spawn, Bridge.name, Function.comp_def]

/-- A step of a task leaves every other task alone. -/
theorem act_cases {i j : ℕ} {a : BridgeAct} {b : Bridge} (hb : h.bridges[i]? = some b) :
    (h.act j a).bridges[i]? = some b ∨ i = j ∧ (∀ r ∈ a.reserve, h.Answers r) ∧
      (h.act j a).bridges[i]? = some (b.act a).1 ∧
        (h.act j a).egress = h.egress ++ (b.act a).2.toList := by
  unfold act
  cases hj : h.bridges[j]? with
  | none => exact Or.inl hb
  | some b' =>
    simp only
    split_ifs with ha
    · by_cases hij : i = j
      · subst j
        cases hb.symm.trans hj
        obtain ⟨hi,_⟩ := List.getElem?_eq_some_iff.mp hb
        exact Or.inr ⟨rfl,ha,List.getElem?_set_self hi,rfl⟩
      · exact Or.inl (by rwa [List.getElem?_set_ne (Ne.symm hij)])
    · exact Or.inl hb

end Hub

/-- Whether a part of the turn looks after a stream. -/
def Task.Concerns (key : Bytes) (sid : ℕ) : Task → Prop
  | .service _ k => k = key
  | .visit k i | .turn k i => k = key ∧ i = sid
  | .rest _ | .retain => False

/-- The turn of the loop has yet to look after a stream. -/
def Due (todo : List Task) (key : Bytes) (sid : ℕ) : Prop := ∃ task ∈ todo, task.Concerns key sid

/-- A live tunnel that is marked readable. -/
def Conn.Lit (c : Conn) (sid rx : ℕ) : Prop :=
  ∃ st, c.streams.lookup sid = some st ∧ st.inboundTx = some rx ∧ st.readable = true

theorem Conn.Within.lit {c c' : Conn} (hw : c.Within c') {sid rx : ℕ} (h : c.Lit sid rx) :
    c'.Lit sid rx := by
  obtain ⟨st,hl,hrx,hr⟩ := h
  obtain ⟨st',hl',htx,hr'⟩ := hw sid st hl
  exact ⟨st',hl',htx ▸ hrx,hr' ▸ hr⟩

namespace Loop

/-- Something is bound to bring a parked loop back to a tunnel: its channel is full and has a reader, the
permit is stored, a bridge has yet to call `notify_one`, or the bridge is gone and the loop has yet to
learn of it. -/
def Wakes (s : Loop) (key : Bytes) (sid rx : ℕ) : Prop :=
  s.credit = true ∨ ⟨key,sid,.closed⟩ ∈ s.hub.egress ∨
    ∃ i b, s.hub.reader (key,sid,rx) = some i ∧ s.hub.bridges[i]? = some b ∧
      (b.Live ∧ INBOUND_CHANNEL_CAP ≤ (s.inlets i).queue.length ∨ (s.inlets i).owes = true ∨
        b.phase = .closing)

/-- A loop that will look after every readable tunnel: in what is left of its turn, or in a later one
that is bound to come. -/
structure Awake (r : Role) (todo : List Task) (s : Loop) : Prop where
  channel : s.hub.rxOpen = true
  routed : ∀ key c, s.conns.lookup key = some c → r.route key = key
  conns : ∀ key c, s.conns.lookup key = some c → c.spawned = [] ∧ Alert r key s.hub.names c
  watched : ∀ key c, s.conns.lookup key = some c → ∀ sid rx, c.Lit sid rx →
    Due todo key sid ∨ s.Wakes key sid rx

variable {r : Role} {todo todo' : List Task} {task : Task} {s s' : Loop} {key : Bytes} {sid rx : ℕ}
  {expired : Bool} {c : Conn}

theorem due_cons : Due (task :: todo) key sid ↔ task.Concerns key sid ∨ Due todo key sid := by
  simp [Due]

/-- Other bridges come to the hub. -/
theorem Wakes.adopt (h : s.Wakes key sid rx) {k : Bytes} (hn : (key,sid,rx) ∉ c.spawned.map QuicStream.name) :
    (s.adopt r k c).Wakes key sid rx := by
  obtain hc | hm | ⟨i,b,hi,hb,hcase⟩ := h
  · exact Or.inl hc
  · exact Or.inr (Or.inl hm)
  · refine Or.inr (Or.inr ⟨i,b,?_,?_,hcase⟩)
    · rw [Hub.reader] at hi ⊢
      simp only [Loop.adopt, Hub.names_spawn]
      rwa [newest_append hn]
    · simp only [Loop.adopt, Hub.spawn]
      rw [List.getElem?_append_left (List.getElem?_eq_some_iff.mp hb).1]
      exact hb

theorem wakes_of_full (h : s.slot (key,sid,rx) = .full) : s.Wakes key sid rx := by
  unfold slot at h
  split at h
  · contradiction
  · rename_i i hi
    split at h
    · contradiction
    · rename_i b hb
      split_ifs at h with hlive hfull
      exact Or.inr (Or.inr ⟨i,b,hi,hb,Or.inl ⟨hlive,hfull⟩⟩)

/-- A task that takes a step while it owes no call leaves a reason to come back. -/
theorem Wakes.act (h : s.Wakes key sid rx) (ho : s.hub.rxOpen = true) {j : ℕ}
    (hj : (s.inlets j).owes = false) (a : BridgeAct) :
    Wakes { s with hub := s.hub.act j a } key sid rx := by
  obtain hc | hm | ⟨i,b,hi,hb,hcase⟩ := h
  · exact Or.inl hc
  · refine Or.inr (Or.inl ?_)
    rw [Hub.act_egress]
    exact List.mem_append_left _ hm
  · have hname : b.name = (key,sid,rx) := by
      have hget := getElem?_of_newest hi
      rw [Hub.names, List.getElem?_map, hb] at hget
      exact Option.some.inj hget
    have hi' : (s.hub.act j a).reader (key,sid,rx) = some i := by
      rw [Hub.reader, Hub.act_names]
      exact hi
    obtain hb' | ⟨rfl,hans,hb',he⟩ := s.hub.act_cases (j := j) (a := a) hb
    · exact Or.inr (Or.inr ⟨i,b,hi',hb',hcase⟩)
    · obtain he' | ⟨phase,hlive,hphase,he'⟩ | ⟨buf,_,_,_,he'⟩ | ⟨_,_,_,_,_,he'⟩ | ⟨r,rfl,hr,hclosing,he'⟩ :=
        b.act_cases a
      · rw [he'] at hb'
        exact Or.inr (Or.inr ⟨i,b,hi',hb',hcase⟩)
      · rw [he'] at hb'
        refine Or.inr (Or.inr ⟨i,_,hi',hb',?_⟩)
        obtain ⟨_,hfull⟩ | howes | hclosing := hcase
        · exact hphase.imp (fun hp => ⟨Or.inr hp,hfull⟩) Or.inr
        · exact absurd (hj.symm.trans howes) (by simp)
        · simp [Bridge.Live, hclosing] at hlive
      · rw [he'] at hb'
        exact Or.inr (Or.inr ⟨i,_,hi',hb',hcase⟩)
      · rw [he'] at hb'
        exact Or.inr (Or.inr ⟨i,_,hi',hb',hcase⟩)
      · -- the loop holds its end of the channel, so the notice gets into it
        cases r with
        | ready =>
          obtain ⟨rfl,rfl,rfl⟩ : b.stream.key = key ∧ b.stream.streamId = sid ∧ b.stream.rx = rx := by
            simpa [Bridge.name, QuicStream.name] using hname
          refine Or.inr (Or.inl ?_)
          rw [he, he']
          exact List.mem_append_right _ (List.mem_singleton_self _)
        | closed => exact absurd ho (hans .closed rfl)
        | pending => exact absurd rfl hr

theorem read_running (s : Loop) (i n : ℕ) : (s.read i n).running = s.running := by
  unfold Loop.read
  split
  · rfl
  · split_ifs
    · rfl
    · rfl

theorem notify_running (s : Loop) (i : ℕ) : (s.notify i).running = s.running := by
  unfold Loop.notify
  split_ifs
  · rfl
  · rfl

section Push
variable {name : Bytes × ℕ × ℕ} {chunk : Bytes}

theorem push_hub : (s.push name chunk).hub = s.hub := by
  unfold push
  split <;> rfl

/-- A channel that takes a chunk gets no emptier. -/
theorem Wakes.push (h : s.Wakes key sid rx) : (s.push name chunk).Wakes key sid rx := by
  unfold Loop.push
  split
  · exact h
  · rename_i j hj
    refine h.imp_right (Or.imp_right ?_)
    rintro ⟨i,b,hi,hb,hcase⟩
    refine ⟨i,b,hi,hb,?_⟩
    by_cases hij : i = j
    · subst j
      simp only [Function.update_self, List.length_append]
      refine hcase.imp_left (And.imp_right fun hfull => ?_)
      omega
    · simp only [Function.update_of_ne hij]
      exact hcase

end Push
theorem due_await {keys : List Bytes} (hk : key ∈ keys) : Due (s.await r expired keys).todo key sid :=
  ⟨.service expired key,List.mem_append_left _ (List.mem_map_of_mem hk),rfl⟩

namespace Awake

theorem imp (h : Awake r todo s) (hc : s'.conns = s.conns) (ho : s'.hub.rxOpen = s.hub.rxOpen)
    (hn : s'.hub.names = s.hub.names) (hw : ∀ key sid rx, s.Wakes key sid rx → s'.Wakes key sid rx) :
    Awake r todo s' := by
  refine ⟨ho.trans h.channel,?_,?_,?_⟩
  · rw [hc]
    exact h.routed
  · rw [hc, hn]
    exact h.conns
  · rw [hc]
    exact fun key c hl sid rx hlit => (h.watched key c hl sid rx hlit).imp_right (hw key sid rx)

theorem drop (h : Awake r (task :: todo) s) (hdue : ∀ key c, s.conns.lookup key = some c →
      ∀ sid rx, c.Lit sid rx → task.Concerns key sid → Due todo' key sid)
    (hsub : ∀ key sid, Due todo key sid → Due todo' key sid) : Awake r todo' s := by
  refine ⟨h.channel,h.routed,h.conns,?_⟩
  intro key c hl sid rx hlit
  rcases h.watched key c hl sid rx hlit with hd | hw
  · left
    exact (due_cons.mp hd).elim (hdue key c hl sid rx hlit) (hsub key sid)
  · exact Or.inr hw

/-- A task that concerns one stream is done when there is nothing to do for it. -/
theorem idle (h : Awake r (task :: todo) s)
    (hc : ∀ k i, task.Concerns k i → key = k ∧ sid = i)
    (hno : ∀ st ∈ s.entry key sid, ∀ rx ∈ st.inboundTx, st.readable = false) : Awake r todo s := by
  refine h.drop ?_ fun _ _ => id
  rintro k c hl i rx ⟨st,hst,hrx,hr⟩ hcon
  obtain ⟨rfl,rfl⟩ := hc k i hcon
  have hf := hno st (by simp [entry, hl, hst]) rx hrx
  exact absurd (hr.symm.trans hf) (by simp)

theorem put (h : Awake r todo s) (hr : r.route key = key) (hs : c.spawned = [])
    (ha : Alert r key s.hub.names c)
    (hw : ∀ sid rx, c.Lit sid rx → Due todo' key sid ∨ s.Wakes key sid rx)
    (hdue : ∀ k sid, k ≠ key → Due todo k sid → Due todo' k sid) : Awake r todo' (s.put key c) := by
  refine ⟨h.channel,?_,?_,?_⟩
  · intro k c' hl
    simp only [Loop.put, Assoc.lookup_insert] at hl
    split_ifs at hl with he
    · rw [he, hr]
    · exact h.routed k c' hl
  · intro k c' hl
    simp only [Loop.put, Assoc.lookup_insert] at hl
    split_ifs at hl with he
    · cases hl
      subst k
      exact ⟨hs,ha⟩
    · exact h.conns k c' hl
  · intro k c' hl sid rx hlit
    simp only [Loop.put, Assoc.lookup_insert] at hl
    split_ifs at hl with he
    · cases hl
      subst k
      exact hw sid rx hlit
    · exact (h.watched k c' hl sid rx hlit).imp_left (hdue k sid he)

theorem adopt (h : Awake r todo s) (hr : r.route key = key) (ha : Alert r key s.hub.names c)
    (hw : ∀ sid rx, c.Lit sid rx → Due todo' key sid ∨
      s.Wakes key sid rx ∧ ∀ q ∈ c.spawned, q.streamId ≠ sid)
    (hdue : ∀ k sid, k ≠ key → Due todo k sid → Due todo' k sid) : Awake r todo' (s.adopt r key c) := by
  have hnames : (s.adopt r key c).hub.names = s.hub.names ++ c.spawned.map QuicStream.name :=
    Hub.names_spawn _ _ _
  refine ⟨h.channel,?_,?_,?_⟩
  · intro k c' hl
    simp only [Loop.adopt, Loop.put, Assoc.lookup_insert] at hl
    split_ifs at hl with he
    · rw [he, hr]
    · exact h.routed k c' hl
  · intro k c' hl
    rw [hnames]
    simp only [Loop.adopt, Loop.put, Assoc.lookup_insert] at hl
    split_ifs at hl with he
    · cases hl
      subst k
      exact ⟨rfl,ha.adopt⟩
    · exact (h.conns k c' hl).imp_right fun hc => hc.mono (List.subset_append_left _ _)
  · intro k c' hl sid rx hlit
    simp only [Loop.adopt, Loop.put, Assoc.lookup_insert] at hl
    split_ifs at hl with he
    · cases hl
      subst k
      refine (hw sid rx hlit).imp_right ?_
      rintro ⟨hwake,hne⟩
      apply hwake.adopt
      rw [List.mem_map]
      rintro ⟨q,hq,he⟩
      exact hne q hq (Prod.mk.inj (Prod.mk.inj he).2).1
    · refine (h.watched k c' hl sid rx hlit).imp (hdue k sid he) ?_
      intro hwake
      apply hwake.adopt
      -- the new bridges are on another connection
      rw [List.mem_map]
      rintro ⟨q,hq,hname⟩
      exact he ((Prod.mk.inj hname).1.symm.trans (ha.own q hq))

theorem service (h : Awake r (.service expired key :: s.todo) s) (hr : r.Announces) :
    Awake r (s.service r expired key).todo (s.service r expired key) := by
  have hother : ∀ k sid, k ≠ key → Due (.service expired key :: s.todo) k sid → Due s.todo k sid :=
    fun k sid hk hd => (due_cons.mp hd).resolve_left (Ne.symm hk)
  unfold Loop.service
  cases hl : s.conns.lookup key with
  | none =>
    refine h.drop ?_ fun _ _ => id
    rintro k c' hk sid rx _ rfl
    exact absurd (hl.symm.trans hk) (by simp)
  | some c =>
    obtain ⟨hs,hc⟩ := h.conns key c hl
    have hroute := h.routed key c hl
    have hc' : Alert r key s.hub.names (if expired then c.note .onTimeout else c) := by
      split_ifs
      · exact hc.note rfl
      · exact hc
    have hs' : (if expired then c.note .onTimeout else c).spawned = [] := by
      split_ifs
      · exact hs
      · exact hs
    simp only
    generalize (if expired then c.note .onTimeout else c) = c' at hc' hs'
    cases hp : r.polled c' with
    | none =>
      obtain ⟨hskip,hsk,hno⟩ := Role.alert_skip hc' hp
      refine h.put hroute (hsk.trans hs') hskip ?_ hother
      rintro sid rx ⟨st,hst,_⟩
      exact absurd ((hno sid).symm.trans hst) (by simp)
    | some c'' =>
      have hx := Role.alert_pollH3 hc' hr c'' hp
      simp only
      generalize pollH3 r.env (r.handleEvent key) c'' = cp at hx
      -- every entry of the connection is going to be visited
      have hadopt : Awake r ((r.env.order cp.quic cp.streams.keys).map (.visit key) ++
          .rest key :: s.todo) (s.adopt r key cp) := by
        refine h.adopt hroute hx ?_ ?_
        · rintro sid rx ⟨st,hst,_⟩
          have hmem : sid ∈ cp.streams.keys := AList.lookup_isSome.mp (by simp [hst])
          have hvisit := (r.env.order_perm cp.quic cp.streams.keys).mem_iff.mpr hmem
          exact Or.inl ⟨.visit key sid,List.mem_append_left _ (List.mem_map_of_mem hvisit),rfl,rfl⟩
        · intro k sid hk hd
          obtain ⟨task,ht,hcon⟩ := hother k sid hk hd
          exact ⟨task,List.mem_append_right _ (List.mem_cons_of_mem _ ht),hcon⟩
      exact ⟨hadopt.channel,hadopt.routed,hadopt.conns,hadopt.watched⟩

theorem visit (h : Awake r (.visit key sid :: s.todo) s) :
    Awake r (s.visit key sid).todo (s.visit key sid) := by
  have hkeep : ∀ k i, ¬ (key = k ∧ sid = i) → Due (.visit key sid :: s.todo) k i → Due s.todo k i :=
    fun k i hk hd => (due_cons.mp hd).resolve_left hk
  unfold Loop.visit
  cases hl : s.conns.lookup key with
  | none => exact h.idle (fun _ _ => id) (by simp [entry, hl])
  | some c =>
    simp only
    cases hst : c.streams.lookup sid with
    | none => exact h.idle (fun _ _ => id) (by simp [entry, hl, hst])
    | some st =>
      simp only
      by_cases hread : st.readable = true
      · rw [if_neg (not_not.mpr hread)]
        cases htx : st.inboundTx with
        | none =>
          obtain ⟨hs,hc⟩ := h.conns key c hl
          refine h.put (h.routed key c hl) hs (hc.put (u := []) hst (by simp) (by simp [htx])) ?_ ?_
          · rintro i rx ⟨st',hst',hrx,hr'⟩
            rw [Conn.put_lookup] at hst'
            split_ifs at hst' with hi
            · cases hst'
              simp at hr'
            · exact (h.watched key c hl i rx ⟨st',hst',hrx,hr'⟩).imp_left
                (hkeep key i fun he => hi he.2.symm)
          · exact fun k i hk => hkeep k i fun he => hk he.1.symm
        | some rx =>
          have hturn : Awake r (.turn key sid :: s.todo) s := by
            refine ⟨h.channel,h.routed,h.conns,fun k c' hl' i rx' hlit => ?_⟩
            refine (h.watched k c' hl' i rx' hlit).imp_left ?_
            exact fun hd => (due_cons.mp hd).elim (fun hc => due_cons.mpr (Or.inl hc)) fun hd =>
              due_cons.mpr (Or.inr hd)
          exact ⟨hturn.channel,hturn.routed,hturn.conns,hturn.watched⟩
      · rw [if_pos hread]
        exact h.idle (fun _ _ => id) (by simpa [entry, hl, hst] using fun _ _ => hread)

theorem turn (h : Awake r (.turn key sid :: s.todo) s) :
    Awake r (s.turn r key sid).todo (s.turn r key sid) := by
  have hkeep : ∀ k i, ¬ (key = k ∧ sid = i) → Due (.turn key sid :: s.todo) k i → Due s.todo k i :=
    fun k i hk hd => (due_cons.mp hd).resolve_left hk
  unfold Loop.turn
  cases hl : s.conns.lookup key with
  | none => exact h.idle (fun _ _ => id) (by simp [entry, hl])
  | some c =>
    simp only
    cases hst : c.streams.lookup sid with
    | none => exact h.idle (fun _ _ => id) (by simp [entry, hl, hst])
    | some st =>
      simp only
      cases htx : st.inboundTx with
      | none => exact h.idle (fun _ _ => id) (by simp [entry, hl, hst, htx])
      | some rx =>
        obtain ⟨hs,hc⟩ := h.conns key c hl
        obtain ⟨hx,hlast⟩ := hc.pumpTurn r.env hst (s.slot (key,sid,rx))
        simp only
        generalize pumpTurn r.env sid (s.slot (key,sid,rx)) c.quic st = p at hx hlast
        obtain ⟨t,st',chunk⟩ := p
        have hothers : ∀ i rx', i ≠ sid → (c.put sid t st').Lit i rx' →
            Due s.todo key i ∨ s.Wakes key i rx' := by
          rintro i rx' hi ⟨st'',hst',hrx,hr⟩
          rw [Conn.put_lookup, if_neg hi] at hst'
          exact (h.watched key c hl i rx' ⟨st'',hst',hrx,hr⟩).imp_left
            (hkeep key i fun he => hi he.2.symm)
        cases chunk with
        | none =>
          refine h.put (h.routed key c hl) hs hx ?_ fun k i hk => hkeep k i fun he => hk he.1.symm
          intro i rx' hlit
          by_cases hi : i = sid
          · subst i
            obtain ⟨st'',hst',hrx,hr⟩ := hlit
            rw [Conn.put_lookup, if_pos rfl] at hst'
            cases hst'
            obtain ⟨htx',hfull⟩ := hlast rfl rx' hrx hr
            cases htx.symm.trans htx'
            exact Or.inr (wakes_of_full hfull)
          · exact hothers i rx' hi hlit
        | some chunk =>
          have hput : Awake r (.turn key sid :: s.todo) (s.put key (c.put sid t st')) := by
            refine h.put (h.routed key c hl) hs hx ?_ fun k i _ => id
            intro i rx' hlit
            by_cases hi : i = sid
            · exact Or.inl (due_cons.mpr (Or.inl ⟨rfl,hi.symm⟩))
            · exact (hothers i rx' hi hlit).imp_left fun hd => due_cons.mpr (Or.inr hd)
          have hhub : (s.push (key,sid,rx) chunk).hub = s.hub := push_hub
          refine hput.imp ?_ (congrArg Hub.rxOpen hhub) (congrArg Hub.names hhub) ?_
          · simp only [Loop.put, push_conns]
          · intro k i rx' hwake
            exact Wakes.push (s := s) hwake

/-- A request that is served brings a tunnel on a stream of its own. -/
theorem servePending {env : Env} {cfg : ClientCfg} {peer : SocketAddr} {scid : Bytes} {first : OpenReq}
    (h : Awake (.client env cfg peer scid first) s.todo s) (hl : s.conns.lookup key = some c) :
    let s' := Loop.servePending (.client env cfg peer scid first) env cfg s key c
    Awake (.client env cfg peer scid first) s'.todo s' := by
  have hk : key = [] := (h.routed key c hl).symm
  subst hk
  obtain ⟨hs,hc⟩ := h.conns [] c hl
  unfold Loop.servePending
  split
  · exact h
  · rename_i req _
    split
    · obtain ⟨ho,hold⟩ := Client.alert_openStream hc hs req
      have hopen : Awake (.client env cfg peer scid first) s.todo
          (s.adopt (.client env cfg peer scid first) [] (Client.openStream env cfg c req).1) := by
        refine h.adopt rfl ho ?_ fun k sid _ => id
        rintro sid rx ⟨st,hst,hrx,hr⟩
        obtain ⟨hst',hne⟩ := hold sid st hst hr
        exact (h.watched [] c hl sid rx ⟨st,hst',hrx,hr⟩).imp_right fun hwake => ⟨hwake,hne⟩
      exact ⟨hopen.channel,hopen.routed,hopen.conns,hopen.watched⟩
    · exact h

/-- The loop goes on, or the session has ended. -/
theorem or_ended {p : Prop} [Decidable p] (h : Awake r s.todo s) (he : s'.running = false) :
    (if p then s else s').running = true →
      Awake r (if p then s else s').todo (if p then s else s') := by
  split_ifs
  · exact fun _ => h
  · exact fun hr => absurd (he.symm.trans hr) (by simp)

theorem rest (h : Awake r (.rest key :: s.todo) s) :
    (s.rest r key).running = true → Awake r (s.rest r key).todo (s.rest r key) := by
  have hkeep : ∀ k sid, Due (.rest key :: s.todo) k sid → Due s.todo k sid :=
    fun k sid hd => (due_cons.mp hd).resolve_left id
  unfold Loop.rest
  cases hl : s.conns.lookup key with
  | none =>
    have hdone : Awake r s.todo s := h.drop (fun _ _ _ _ _ _ hc => hc.elim) fun _ _ => id
    exact fun _ => hdone
  | some c =>
    obtain ⟨hs,hc⟩ := h.conns key c hl
    have hroute := h.routed key c hl
    obtain ⟨hx,hs',hw⟩ := hc.outbound r.env
    simp only [flushPackets]
    generalize reapStreams r.env (pumpOutbound r.env c) = c' at hx hs' hw
    have hn : Alert r key s.hub.names (c'.note (.flushPackets (r.env.flushPackets c'.quic))) :=
      hx.note rfl
    have hput : Awake r s.todo (s.put key (c'.note (.flushPackets (r.env.flushPackets c'.quic)))) := by
      refine h.put hroute (hs'.trans hs) hn ?_ fun k sid _ => hkeep k sid
      intro sid rx hlit
      exact (h.watched key c hl sid rx (hw.lit hlit)).imp_left (hkeep key sid)
    cases r with
    | server env cfg => exact fun _ => hput
    | client env cfg peer scid first =>
      exact or_ended (hput.servePending (AList.lookup_insert s.conns)) rfl

/-- A part of the turn leaves the loop awake, unless it ends the session. -/
theorem perform (h : Awake r (task :: s.todo) s) (hr : r.Announces) :
    (s.perform r task).running = true → Awake r (s.perform r task).todo (s.perform r task) := by
  cases task with
  | service expired key => exact fun _ => h.service hr
  | visit key sid => exact fun _ => h.visit
  | turn key sid => exact fun _ => h.turn
  | rest key => exact h.rest
  | retain =>
    intro _
    have hold : ∀ k c, (Assoc.filter (fun c => !r.env.isClosed c.quic) s.conns).lookup k = some c →
        s.conns.lookup k = some c := by
      intro k c hl
      rw [Assoc.lookup_filter] at hl
      exact (Option.mem_filter_iff.mp hl).1
    refine ⟨h.channel,fun k c hl => h.routed k c (hold k c hl),fun k c hl => h.conns k c (hold k c hl),?_⟩
    intro k c hl sid rx hlit
    exact (h.watched k c (hold k c hl) sid rx hlit).imp_left fun hd => (due_cons.mp hd).resolve_left id

/-- The loop waits on, with these connections to look after. -/
theorem await {keys : List Bytes} (h : Awake r (s.await r expired keys).todo s) :
    Awake r (s.await r expired keys).todo (s.await r expired keys) :=
  ⟨h.channel,h.routed,h.conns,h.watched⟩

/-- A pass over all connections looks after every tunnel. -/
theorem all (h : Awake r todo s) {order : List Bytes} (ho : order.Perm s.conns.keys)
    (hc : s'.conns = s.conns) (hh : s'.hub = s.hub) :
    Awake r (s'.await r expired order).todo (s'.await r expired order) := by
  refine await ⟨?_,?_,?_,?_⟩
  · rw [hh]
    exact h.channel
  · rw [hc]
    exact h.routed
  · rw [hc, hh]
    exact h.conns
  · rw [hc]
    intro key c hl sid rx _
    have hmem : key ∈ s.conns.keys := AList.lookup_isSome.mp (by simp [hl])
    exact Or.inl (due_await (ho.mem_iff.mpr hmem))

/-- Where the notice of an ended bridge is taken out of the channel, the loop turns to its tunnel. -/
theorem dequeue (h : Awake r s.todo s) (ht : s.todo = []) {m : Egress} {rest : List Egress}
    (he : s.hub.egress = m :: rest) :
    Awake r ((s.dequeue r m rest).await r false [r.route m.key]).todo
      ((s.dequeue r m rest).await r false [r.route m.key]) := by
  apply await
  have hsub : ∀ x ∈ rest, x ∈ s.hub.egress := by
    rw [he]
    exact fun x hx => List.mem_cons_of_mem _ hx
  have h' : Awake r ((s.dequeue r m rest).await r false [r.route m.key]).todo
      { s with hub := { s.hub with egress := rest } } := by
    refine ⟨h.channel,h.routed,h.conns,?_⟩
    intro key c hl sid rx hlit
    by_cases hk : key = r.route m.key
    · exact Or.inl (due_await (by simp [hk]))
    right
    rcases h.watched key c hl sid rx hlit with hd | hc | hm | hb
    · rw [ht] at hd
      simp [Due] at hd
    · exact Or.inl hc
    · rw [he] at hm
      rcases List.mem_cons.mp hm with rfl | hm
      · exact absurd (h.routed key c hl).symm hk
      · exact Or.inr (Or.inl hm)
    · exact Or.inr (Or.inr hb)
  unfold Loop.dequeue
  simp only
  cases hl : s.conns.lookup (r.route m.key) with
  | none => exact h'
  | some c =>
    obtain ⟨hs,hc⟩ := h.conns _ c hl
    refine h'.put (h.routed _ c hl) ?_ (hc.queue m.streamId m.out) ?_ fun _ _ _ => id
    · exact (c.queue_spawned m.streamId m.out).trans hs
    · exact fun _ _ _ => Or.inl (due_await (List.mem_singleton_self _))

theorem select (h : Awake r s.todo s) (ht : s.todo = []) (a : Act) :
    (s.select r a).running = true → Awake r (s.select r a).todo (s.select r a) := by
  have hnone : ∀ {todo : List Task} {k : Bytes} {sid : ℕ}, Due s.todo k sid → Due todo k sid := by
    intro todo k sid hd
    rw [ht] at hd
    simp [Due] at hd
  cases a with
  | packet key peer pkt =>
    rw [Loop.select]
    cases hl : s.conns.lookup key with
    | none => exact fun _ => h
    | some c =>
      obtain ⟨hs,hc⟩ := h.conns key c hl
      intro _
      refine await (h.put (h.routed key c hl) hs (hc.note rfl) ?_ fun _ _ _ => hnone)
      exact fun _ _ _ => Or.inl (due_await (List.mem_singleton_self key))
  | accept key peer odcid pkt =>
    cases r with
    | server env cfg =>
      intro _
      refine await (h.put rfl rfl Alert.accepted ?_ fun _ _ _ => hnone)
      exact fun _ _ _ => Or.inl (due_await (List.mem_singleton_self key))
    | client env cfg peer scid first => exact fun _ => h
  | recvError =>
    cases r with
    | server env cfg => exact fun _ => h
    | client env cfg peer scid first => exact fun hr => by cases hr
  | egress =>
    rw [Loop.select]
    cases he : s.hub.egress with
    | nil => exact fun _ => h
    | cons m rest => exact fun _ => h.dequeue ht he
  | readCredit order =>
    rw [Loop.select]
    split_ifs with ho
    · exact fun _ => h.all ho.2 rfl rfl
    · exact fun _ => h
  | timeout order =>
    rw [Loop.select]
    split_ifs with ho
    · exact fun _ => h.all ho rfl rfl
    · exact fun _ => h
  | openReq req =>
    cases r with
    | server env cfg => exact fun _ => h
    | client env cfg peer scid first =>
      rw [Loop.select]
      split_ifs
      · intro _
        refine await ⟨h.channel,h.routed,h.conns,fun k c hl sid rx hlit => ?_⟩
        exact (h.watched k c hl sid rx hlit).imp_left hnone
      · exact fun _ => h
  | work => exact fun _ => h
  | bridge i b => exact fun _ => h
  | read i n => exact fun _ => h
  | notify i => exact fun _ => h

theorem read (h : Awake r s.todo s) (i n : ℕ) : Awake r (s.read i n).todo (s.read i n) := by
  unfold Loop.read
  cases hb : s.hub.bridges[i]? with
  | none => exact h
  | some b =>
    simp only
    split_ifs with hread
    · obtain ⟨hphase,howes⟩ := hread
      generalize s.senders i b = senders
      have hname := b.stream.readTurn_name senders n (s.inlets i).queue
      have hkeep := b.stream.readTurn_queue senders n (s.inlets i).queue
      generalize b.stream.readTurn senders n (s.inlets i).queue = p at hname hkeep
      obtain ⟨stream,queue,owes⟩ := p
      have hnames : Hub.names { s.hub with bridges := s.hub.bridges.set i { b with stream } } =
          s.hub.names := s.hub.names_set hb hname
      refine h.imp rfl rfl hnames ?_
      rintro key sid rx (hc | hm | ⟨j,x,hj,hx,hcase⟩)
      · exact Or.inl hc
      · exact Or.inr (Or.inl hm)
      · have hj' : Hub.reader { s.hub with bridges := s.hub.bridges.set i { b with stream } }
            (key,sid,rx) = some j := by
          rw [Hub.reader, hnames]
          exact hj
        by_cases hji : j = i
        · subst j
          cases hb.symm.trans hx
          obtain ⟨hi,_⟩ := List.getElem?_eq_some_iff.mp hb
          refine Or.inr (Or.inr ⟨i,_,hj',List.getElem?_set_self hi,?_⟩)
          simp only [Function.update_self]
          obtain ho | hq := hkeep
          · exact Or.inr (Or.inl ho)
          · obtain ⟨hlive,hfull⟩ | ho | hclosing := hcase
            · have hq : queue = (s.inlets i).queue := hq
              rw [← hq] at hfull
              exact Or.inl ⟨hlive,hfull⟩
            · exact absurd ho howes
            · exact absurd (hphase.symm.trans hclosing) (by simp)
        · refine Or.inr (Or.inr ⟨j,x,hj',?_,?_⟩)
          · rwa [List.getElem?_set_ne (Ne.symm hji)]
          · simp only [Function.update_of_ne hji]
            exact hcase
    · exact h

theorem notify (h : Awake r s.todo s) (i : ℕ) : Awake r (s.notify i).todo (s.notify i) := by
  unfold Loop.notify
  split_ifs
  · exact h.imp rfl rfl rfl fun _ _ _ _ => Or.inl rfl
  · exact h

theorem step (hr : r.Announces) (h : s.running = true → Awake r s.todo s) (a : Act) :
    (s.step r a).running = true → Awake r (s.step r a).todo (s.step r a) := by
  have hselect : (if s.Parked then s.select r a else s).running = true →
      Awake r (if s.Parked then s.select r a else s).todo (if s.Parked then s.select r a else s) := by
    split_ifs with hp
    · exact (h hp.1).select hp.2 a
    · exact h
  cases a with
  | work =>
    rw [Loop.step]
    split
    · rename_i task todo hrun ht
      have h' : Awake r (task :: todo) { s with todo } := by
        rw [← ht]
        exact ⟨(h hrun).channel,(h hrun).routed,(h hrun).conns,(h hrun).watched⟩
      exact h'.perform hr
    · exact h
  | bridge i b =>
    rw [Loop.step]
    split_ifs with ho
    · exact h
    · intro hrun
      have ho : (s.inlets i).owes = false := by simpa using ho
      exact (h hrun).imp rfl (s.hub.act_rxOpen i b) (s.hub.act_names i b)
        fun _ _ _ hw => hw.act (h hrun).channel ho b
  | read i n => exact fun hrun => (h ((read_running s i n).symm.trans hrun)).read i n
  | notify i => exact fun hrun => (h ((notify_running s i).symm.trans hrun)).notify i
  | packet key peer pkt => exact hselect
  | accept key peer odcid pkt => exact hselect
  | recvError => exact hselect
  | egress => exact hselect
  | readCredit order => exact hselect
  | timeout order => exact hselect
  | openReq req => exact hselect

/-- The inbound channel of a live tunnel has its reader. -/
theorem named (h : Awake r todo s) {st : StreamState} (hl : s.conns.lookup key = some c)
    (hst : c.streams.lookup sid = some st) (hrx : st.inboundTx = some rx) :
    (key,sid,rx) ∈ s.hub.names := by
  obtain ⟨hs,hc⟩ := h.conns key c hl
  simpa [hs] using hc.named sid st rx hst hrx

theorem start (r : Role) : Awake r (Loop.start r).todo (Loop.start r) := by
  cases r with
  | server env cfg =>
    refine ⟨rfl,?_,?_,?_⟩
    · exact fun key c hl => by cases hl
    · exact fun key c hl => by cases hl
    · exact fun key c hl => by cases hl
  | client env cfg peer scid first =>
    -- the first request is served as any other
    let c₀ : Conn := ⟨[.withTransport true,.connect scid],true,∅,[]⟩
    let s₀ : Loop := ⟨(∅ : AList _).insert [] c₀,some first,Hub.new Client.EGRESS_CHANNEL_CAP,
      fun _ => ⟨[],false⟩,false,[],true⟩
    have hlook : ∀ key c, s₀.conns.lookup key = some c → key = [] ∧ c = c₀ := by
      intro key c hl
      simp only [s₀, Assoc.lookup_insert] at hl
      split_ifs at hl with hk
      · exact ⟨hk,(Option.some.inj hl).symm⟩
      · cases hl
    have hno : ∀ sid, c₀.streams.lookup sid = none := fun _ => rfl
    have h₀ : Awake (.client env cfg peer scid first) s₀.todo s₀ := by
      refine ⟨rfl,?_,?_,?_⟩
      · intro key c hl
        exact (hlook key c hl).1.symm
      · intro key c hl
        obtain ⟨rfl,rfl⟩ := hlook key c hl
        refine ⟨rfl,by simp [c₀],?_,?_,?_,fun hd => by cases hd⟩
        · exact fun sid st rx hst => absurd ((hno sid).symm.trans hst) (by simp)
        · rintro sid (hs | hu)
          · cases hs
          · cases hu
        · exact fun sid st rx hst => absurd ((hno sid).symm.trans hst) (by simp)
      · rintro key c hl sid rx ⟨st,hst,_⟩
        obtain ⟨rfl,rfl⟩ := hlook key c hl
        exact absurd ((hno sid).symm.trans hst) (by simp)
    have hstart : Loop.start (.client env cfg peer scid first) =
        Loop.servePending (.client env cfg peer scid first) env cfg s₀ [] c₀ := by
      simp only [Loop.start, Session.start, Session.servePending, Loop.servePending, s₀, c₀]
      split_ifs
      · simp only [Loop.adopt, Loop.put, AList.insert_insert, Role.phase]
      · rfl
    rw [hstart]
    exact h₀.servePending (AList.lookup_insert _)

end Awake
end Loop

/-- No lost wake-up: when the loop waits in `select!` and a live tunnel has unread bytes that have been
announced, the tunnel is still marked readable, its channel still has a reader, and something is bound
to bring the loop back to it. -/
theorem no_lost_wakeup (r : Role) (hr : r.Announces) (acts : List Loop.Act) :
    let s := Run.run (Loop.step r) (Loop.start r) acts
    s.Parked → ∀ key, ∀ c ∈ s.conns.lookup key, ∀ sid, ∀ st ∈ c.streams.lookup sid,
      ∀ rx ∈ st.inboundTx, c.quic.unread sid = true →
        st.readable = true ∧ (s.hub.reader (key,sid,rx)).isSome ∧ s.Wakes key sid rx := by
  rintro s ⟨hrun,ht⟩ key c hl sid st hst rx hrx hu
  have hinv : s.running = true → Loop.Awake r s.todo s :=
    Run.induction (I := fun s => s.running = true → Loop.Awake r s.todo s)
      (fun s a h => Loop.Awake.step hr h a) acts fun _ => Loop.Awake.start r
  have h := hinv hrun
  have hread : st.readable = true := (h.conns key c hl).2.lit sid st rx hst hrx hu
  refine ⟨hread,newest_isSome (h.named hl hst hrx),?_⟩
  obtain ⟨task,hm,_⟩ | hw := h.watched key c hl sid rx ⟨st,hst,hrx,hread⟩
  · rw [ht] at hm
    contradiction
  · exact hw

/-- Surroundings in which the first packet brings more data on stream 0 than its channel holds. -/
def Env.flooded : Env :=
  { Env.dialer with
    polls := fun t =>
      if (t.any fun | .sendRequest _ _ (.ok 0) => true | _ => false) ∧
          (t.any fun | .recv .. => true | _ => false) ∧ ¬ t.any fun | .poll .. => true | _ => false then
        [(0,.data)]
      else []
    recvBody := fun _ _ => .ok [7]
    recvBody_le := by
      rintro t sid bytes ⟨⟩
      decide }

def Role.flooded : Role := .client Env.flooded .plain ⟨[127,0,0,1],443⟩ [] 0

theorem Role.flooded_announces : Role.flooded.Announces := by
  intro t sid h
  simp only [Env.flooded] at h
  split_ifs at h with hc
  · obtain ⟨rfl,_⟩ : sid = 0 ∧ True := by simpa using h
    obtain ⟨call,hm,hcall⟩ := List.any_eq_true.mp hc.1
    split at hcall
    · exact ⟨_,hm,_,_,rfl⟩
    · contradiction
  · contradiction

/-- The packet, the whole turn of the loop, and a turn of `poll_read` on the bridge. -/
def Loop.flood : List Loop.Act :=
  .packet [] ⟨[127,0,0,1],443⟩ [1] :: List.replicate 36 .work ++ [.read 0 100]

theorem no_lost_wakeup_flooded :
    let s := Run.run (Loop.step Role.flooded) (Loop.start Role.flooded) Loop.flood
    ∃ c ∈ s.conns.lookup [], ∃ st ∈ c.streams.lookup 0, ∃ rx ∈ st.inboundTx,
      c.quic.unread 0 = true ∧ st.readable = true ∧ (s.hub.reader ([],0,rx)).isSome ∧
        s.Wakes [] 0 rx := by
  intro s
  have hu : ∃ c ∈ s.conns.lookup [], ∃ st ∈ c.streams.lookup 0, ∃ rx ∈ st.inboundTx,
      c.quic.unread 0 = true := by decide
  have hp : s.Parked := by decide
  obtain ⟨c,hc,st,hst,rx,hrx,hu⟩ := hu
  exact ⟨c,hc,st,hst,rx,hrx,hu,no_lost_wakeup Role.flooded Role.flooded_announces Loop.flood hp [] c hc
    0 st hst rx hrx hu⟩

end EchTunnel
