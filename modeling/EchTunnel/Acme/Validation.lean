import EchTunnel.Acme.Issue
import EchTunnel.Tls.Gate

/-! Connections that come in while `issue` is under way. A validator of the ACME server gets the challenge
it asks for, past the probe gate, as long as the order waits for it. -/
namespace EchTunnel
open Wire

/-- Where a call of `issue` stands: in the authorization loop, waiting for `set_ready`, polling the
order, removing its challenges, or back. -/
inductive Issuing (Ctx : Type*)
  | authorizing (rest : List (Except String (Authz Ctx))) (s : Challenges Ctx)
  | answering (ready : Bool) (domain : String) (rest : List (Except String (Authz Ctx)))
      (s : Challenges Ctx)
  | polling (i n : ℕ) (s : Challenges Ctx)
  | cleaning (domains : List String) (s : Challenges Ctx)
  | returned (r : Issued Ctx)

namespace Issuing
variable {Ctx : Type*}

/-- The call up to its first authorization. -/
def begin (env : AcmeEnv Ctx) (domains : List String) (email : String) (staging : Bool)
    (directoryUrl : Option String) (store : ChallengeStore Ctx) (cache : Cache) : Issuing Ctx :=
  let s : Challenges Ctx := ⟨store,[],[]⟩
  if ¬ env.builder then .returned ⟨s,cache,.error .builder⟩
  else if ¬ env.createAccount ("mailto:" ++ email) (directoryUrl.getD (env.letsEncryptUrl staging)) then
    .returned ⟨s,cache,.error .createAccount⟩
  else match env.newOrder domains with
  | none => .returned ⟨s,cache,.error .newOrder⟩
  | some authzs => .authorizing authzs s

variable (env : AcmeEnv Ctx) (domains : List String) (cache : Cache)

/-- The next access to the store, or the next answer of the ACME server. -/
def step : Issuing Ctx → Issuing Ctx
  | .authorizing [] s => .polling 0 60 s
  | .authorizing (.error e :: _) s => .returned ⟨s,cache,.error (.getAuthorization e)⟩
  | .authorizing (.ok authz :: rest) s =>
    if authz.status ≠ .pending then .authorizing rest s
    else match authz.identifier with
    | .other name => .returned ⟨s,cache,.error (.unexpectedIdentifier (.other name))⟩
    | .dns domain =>
      match authz.tlsAlpn01 with
      | none => .returned ⟨s,cache,.error (.noChallenge domain)⟩
      | some keyAuth =>
        match authz.buildChallengeCtx domain keyAuth with
        | none => .returned ⟨s,cache,.error .challengeCtx⟩
        | some ctx => .answering authz.setReady domain rest { s with
            store := s.store.install domain ctx, installed := s.installed ++ [(domain,ctx)] }
  | .answering true domain rest s =>
    .authorizing rest { s with activeDomains := s.activeDomains ++ [domain] }
  | .answering false _ _ s => .returned ⟨s,cache,.error .setReady⟩
  | .polling _ 0 s => .returned ⟨s,cache,.error .orderTimedOut⟩
  | .polling i (n+1) s =>
    match env.refresh i with
    | none => .returned ⟨s,cache,.error .refreshOrder⟩
    | some .ready => .cleaning s.activeDomains s
    | some .invalid => .returned ⟨s,cache,.error .orderInvalid⟩
    | some _ => .polling (i+1) n s
  | .cleaning [] s =>
    let (cache,result) := issueCertificate env domains cache
    .returned ⟨s,cache,result⟩
  | .cleaning (domain :: rest) s => .cleaning rest { s with store := s.store.remove domain }
  | .returned r => .returned r

/-- Some number of steps leads from one state to the other. -/
def Leads (x y : Issuing Ctx) : Prop := ∃ n, (step env domains cache)^[n] x = y

/-- The state while the order is open: challenges are installed, and none has been removed yet. -/
def awaiting : Issuing Ctx → Option (Challenges Ctx)
  | .authorizing _ s | .answering _ _ _ s | .polling _ _ s => some s
  | .cleaning .. | .returned _ => none

/-- What the loop does with an authorization, in one step and in its whole. -/
theorem authorizing_cases (authz : Authz Ctx) (rest : List (Except String (Authz Ctx)))
    (s : Challenges Ctx) :
    let x := step env domains cache (.authorizing (.ok authz :: rest) s)
    let whole := authorize (.ok authz :: rest) s
    (x = .authorizing rest s ∧ whole = authorize rest s) ∨
    (∃ e, x = .returned ⟨s,cache,.error e⟩ ∧ whole = (s,.error e)) ∨
    ∃ domain ctx, let s' := { s with
        store := s.store.install domain ctx, installed := s.installed ++ [(domain,ctx)] }
      x = .answering authz.setReady domain rest s' ∧
        whole = if authz.setReady then
            authorize rest { s' with activeDomains := s'.activeDomains ++ [domain] }
          else (s',.error .setReady) := by
  simp only [step, authorize]
  by_cases hp : authz.status ≠ .pending
  · exact Or.inl ⟨if_pos hp,if_pos hp⟩
  · right
    simp only [if_neg hp]
    cases authz.identifier with
    | other name => exact Or.inl ⟨_,rfl,rfl⟩
    | dns domain =>
      cases authz.tlsAlpn01 with
      | none => exact Or.inl ⟨_,rfl,rfl⟩
      | some keyAuth =>
        cases hctx : authz.buildChallengeCtx domain keyAuth with
        | none => exact Or.inl ⟨.challengeCtx,by simp only [hctx],by simp only [hctx]⟩
        | some ctx => exact Or.inr ⟨domain,ctx,by simp only [hctx],by simp only [hctx]⟩

namespace Leads
variable {env domains cache} {x y z : Issuing Ctx}

theorem refl : Leads env domains cache x x := ⟨0,rfl⟩

theorem head (h : Leads env domains cache (step env domains cache x) y) : Leads env domains cache x y := by
  obtain ⟨n,hn⟩ := h
  exact ⟨n+1,by rw [Function.iterate_succ_apply, hn]⟩

theorem trans (h : Leads env domains cache x y) (h' : Leads env domains cache y z) :
    Leads env domains cache x z := by
  obtain ⟨n,rfl⟩ := h
  obtain ⟨m,rfl⟩ := h'
  exact ⟨m+n,Function.iterate_add_apply ..⟩

variable (env domains cache)

/-- The authorization loop. -/
theorem authorize (authzs : List (Except String (Authz Ctx))) (s : Challenges Ctx) :
    (∃ s', EchTunnel.authorize authzs s = (s',.ok ()) ∧
      Leads env domains cache (.authorizing authzs s) (.polling 0 60 s')) ∨
    ∃ s' e, EchTunnel.authorize authzs s = (s',.error e) ∧
      Leads env domains cache (.authorizing authzs s) (.returned ⟨s',cache,.error e⟩) := by
  induction authzs generalizing s with
  | nil => exact Or.inl ⟨s,rfl,head refl⟩
  | cons r rest ih =>
    cases r with
    | error e => exact Or.inr ⟨s,_,rfl,head refl⟩
    | ok authz =>
      obtain ⟨hx,hw⟩ | ⟨e,hx,hw⟩ | ⟨domain,ctx,hx,hw⟩ := authorizing_cases env domains cache authz rest s
      · obtain ⟨s',ha,hl⟩ | ⟨s',e,ha,hl⟩ := ih s
        · exact Or.inl ⟨s',hw.trans ha,head (hx ▸ hl)⟩
        · exact Or.inr ⟨s',e,hw.trans ha,head (hx ▸ hl)⟩
      · exact Or.inr ⟨s,e,hw,head (hx ▸ refl)⟩
      · cases hr : authz.setReady with
        | false =>
          rw [hr] at hx hw
          exact Or.inr ⟨_,_,hw,head (hx ▸ head refl)⟩
        | true =>
          rw [hr] at hx hw
          obtain ⟨s',ha,hl⟩ | ⟨s',e,ha,hl⟩ := ih _
          · exact Or.inl ⟨s',hw.trans ha,head (hx ▸ head hl)⟩
          · exact Or.inr ⟨s',e,hw.trans ha,head (hx ▸ head hl)⟩

theorem pollUntilReady (i n : ℕ) (s : Challenges Ctx) :
    (EchTunnel.pollUntilReady env.refresh i n = .ok .ready ∧
      Leads env domains cache (.polling i n s) (.cleaning s.activeDomains s)) ∨
    ∃ e, EchTunnel.pollUntilReady env.refresh i n = .error e ∧
      Leads env domains cache (.polling i n s) (.returned ⟨s,cache,.error e⟩) := by
  induction n generalizing i with
  | zero => exact Or.inr ⟨_,rfl,head refl⟩
  | succ n ih =>
    rw [EchTunnel.pollUntilReady]
    cases hr : env.refresh i with
    | none => exact Or.inr ⟨_,rfl,head (by rw [step, hr]; exact refl)⟩
    | some status =>
      cases status with
      | ready => exact Or.inl ⟨rfl,head (by rw [step, hr]; exact refl)⟩
      | invalid => exact Or.inr ⟨_,rfl,head (by rw [step, hr]; exact refl)⟩
      | pending | processing | valid =>
        obtain ⟨hp,hl⟩ | ⟨e,hp,hl⟩ := ih (i+1)
        · exact Or.inl ⟨hp,head (by rw [step, hr]; exact hl)⟩
        · exact Or.inr ⟨e,hp,head (by rw [step, hr]; exact hl)⟩

theorem clean (ds : List String) (s : Challenges Ctx) :
    Leads env domains cache (.cleaning ds s)
      (.cleaning [] { s with store := ds.foldl ChallengeStore.remove s.store }) := by
  induction ds generalizing s with
  | nil => exact refl
  | cons d ds ih => exact head (ih _)

end Leads

/-- The steps add up to the call. -/
theorem leads_issue (email : String) (staging : Bool) (directoryUrl : Option String)
    (store : ChallengeStore Ctx) :
    Leads env domains cache (begin env domains email staging directoryUrl store cache)
      (.returned (issue env domains email staging directoryUrl store cache)) := by
  unfold begin issue
  cases env.builder with
  | false => exact Leads.refl
  | true =>
    cases env.createAccount ("mailto:" ++ email) (directoryUrl.getD (env.letsEncryptUrl staging)) with
    | false => exact Leads.refl
    | true =>
      simp only [not_true_eq_false, if_false]
      cases env.newOrder domains with
      | none => exact Leads.refl
      | some authzs =>
        obtain ⟨s,ha,hl⟩ | ⟨s,e,ha,hl⟩ := Leads.authorize env domains cache authzs ⟨store,[],[]⟩
        · simp only [ha]
          obtain ⟨hp,hl'⟩ | ⟨e,hp,hl'⟩ := Leads.pollUntilReady env domains cache 0 60 s
          · simp only [hp]
            exact hl.trans (hl'.trans ((Leads.clean env domains cache s.activeDomains s).trans (Leads.refl.head)))
          · simp only [hp]
            exact hl.trans hl'
        · simp only [ha]
          exact hl

end Issuing

/-- The challenge installed last for a domain is the one in the store. -/
def Challenges.Served {Ctx : Type*} (s : Challenges Ctx) : Prop :=
  ∀ before domain ctx after, s.installed = before ++ (domain,ctx) :: after →
    (∀ e ∈ after, e.1 ≠ domain) → s.store.get domain = some ctx

theorem Challenges.Served.install {Ctx : Type*} {s : Challenges Ctx} (h : s.Served) (domain : String)
    (ctx : Ctx) : Served { s with
      store := s.store.install domain ctx, installed := s.installed ++ [(domain,ctx)] } := by
  intro before d c after he hne
  simp only at he
  rw [ChallengeStore.get_install]
  cases after using List.reverseRecOn with
  | nil =>
    obtain ⟨_,hlast⟩ := List.append_inj' he rfl
    cases hlast
    exact if_pos rfl
  | append_singleton after e _ =>
    rw [← List.cons_append, ← List.append_assoc] at he
    obtain ⟨hold,hlast⟩ := List.append_inj' he rfl
    cases hlast
    have hd : domain ≠ d := hne (domain,ctx) (by simp)
    rw [if_neg hd.symm]
    exact h before d c after hold fun e he => hne e (by simp [he])

namespace Issuing
variable {Ctx : Type*} {env : AcmeEnv Ctx} {domains : List String} {cache : Cache} {x : Issuing Ctx}

theorem served_step (h : ∀ s ∈ x.awaiting, s.Served) :
    ∀ s ∈ (step env domains cache x).awaiting, s.Served := by
  cases x with
  | authorizing rest s =>
    have hs : s.Served := h s rfl
    cases rest with
    | nil => exact h
    | cons r rest =>
      cases r with
      | error e => exact fun s' hs' => by cases hs'
      | ok authz =>
        obtain ⟨hx,_⟩ | ⟨e,hx,_⟩ | ⟨domain,ctx,hx,_⟩ := authorizing_cases env domains cache authz rest s
        · rw [hx]
          exact h
        · rw [hx]
          exact fun s' hs' => by cases hs'
        · rw [hx]
          rintro s' ⟨⟩
          exact hs.install domain ctx
  | answering ready domain rest s =>
    have hs : s.Served := h s rfl
    cases ready with
    | false => exact fun s' hs' => by cases hs'
    | true =>
      rintro s' ⟨⟩
      exact hs
  | polling i n s =>
    have hs : s.Served := h s rfl
    cases n with
    | zero => exact fun s' hs' => by cases hs'
    | succ n =>
      rw [step]
      split
      · exact fun s' hs' => by cases hs'
      · exact fun s' hs' => by cases hs'
      · exact fun s' hs' => by cases hs'
      · rintro s' ⟨⟩
        exact hs
  | cleaning ds s =>
    cases ds with
    | nil => exact fun s' hs' => by cases hs'
    | cons d ds => exact fun s' hs' => by cases hs'
  | returned r => exact fun s' hs' => by cases hs'

theorem served_begin (env : AcmeEnv Ctx) (domains : List String) (email : String) (staging : Bool)
    (directoryUrl : Option String) (store : ChallengeStore Ctx) (cache : Cache) :
    ∀ s ∈ (begin env domains email staging directoryUrl store cache).awaiting, s.Served := by
  unfold begin
  cases env.builder with
  | false => exact fun s hs => by cases hs
  | true =>
    cases env.createAccount ("mailto:" ++ email) (directoryUrl.getD (env.letsEncryptUrl staging)) with
    | false => exact fun s hs => by cases hs
    | true =>
      simp only [not_true_eq_false, if_false]
      cases env.newOrder domains with
      | none => exact fun s hs => by cases hs
      | some authzs =>
        rintro s ⟨⟩ before domain ctx after he
        simp at he

end Issuing

/-- The ClientHello offers the protocols of `l`. -/
def ClientHello.Offers (c : ClientHello) (l : ClientOffer) : Prop :=
  ∃ e ∈ c.extensionList, e.extType = EXT_ALPN ∧ e.data = l.extData

/-- A handshake for which the callback selects a protocol is completed by the peer. -/
def BoringSsl.Completes {Ctx : Type*} (b : BoringSsl Ctx) (stream : Bytes) (c : ClientHello)
    (l : ClientOffer) : Prop :=
  ∀ callback sel, callback (b.servername c) l.wire = .ok sel →
    b.accept stream callback = .completed sel.certificate

section Validation
variable {Ctx : Type*} {b : BoringSsl Ctx} {cfg : ServerCfg} {challenges : ChallengeStore Ctx}
  {setContext : Ctx → Bool} {c : ClientHello} {l : ClientOffer}

theorem alpnSelect_challenge {domain : String} {ctx : Ctx} (hacme : ACME_ALPN ∈ l.names)
    (hget : challenges.get domain = some ctx) (hset : setContext ctx = true) :
    alpnSelect challenges setContext (some domain) l.wire = .ok ⟨ACME_ALPN,some ctx⟩ := by
  simp [alpnSelect, hacme, hget, hset]

/-- The gate lets the offer of `acme-tls/1` through once it has seen the whole ClientHello. -/
theorem validator_admitted (hl : c.Offers l) (hacme : ACME_ALPN ∈ l.names) {version : Bytes}
    (hv : version.length = 2) (more : Bytes) (a : Schedule (handshakeRecord version c.message ++ more))
    (ha : ∃ n ∈ a.lengths, 5+c.message.length ≤ n) :
    isEchOrAcmeHandshake (handshakeRecord version c.message ++ more) a.onTime = true := by
  obtain ⟨n,hn,hle⟩ := ha
  have hcap := (a.bounds n hn).2
  have hm : c.message.length < 65536 := by
    have : PEEK_CAP = 8192 := rfl
    omega
  have hlen : (handshakeRecord version c.message).length = 5+c.message.length := by
    simp [handshakeRecord, block, hv]
    omega
  have hadm : c.extensionList.any Extension.admits := by
    obtain ⟨e,he,ht,hd⟩ := hl
    rw [List.any_eq_true]
    refine ⟨e,he,?_⟩
    rw [Extension.admits, decide_eq_true_iff]
    exact Or.inr ⟨ht,by rwa [hd, l.alpnHasAcme_extData, decide_eq_true_iff]⟩
  rw [Schedule.onTime, admits_iff _ _ a.bounds]
  refine ⟨n,hn,?_⟩
  rw [List.take_append, List.take_of_length_le (by omega)]
  have hc := c.classify_eq hv [] (more.take (n - (handshakeRecord version c.message).length))
  rw [List.append_nil] at hc
  rw [hc hm, if_pos hadm]

/-- A client that does not offer `acme-tls/1` is not shown a challenge certificate. -/
theorem ordinary_unchallenged (hb : b.Documented) {stream : Bytes} (hc : Carries stream c)
    (hl : ∀ l, c.Offers l → ACME_ALPN ∉ l.names) (peeks : List Peek) (ctx : Ctx) :
    acceptTask b cfg challenges setContext stream peeks ≠ .tls (.completed (.challenge ctx)) := by
  unfold acceptTask
  split_ifs
  · simp
  · intro he
    have ha : b.accept stream (alpnSelect challenges setContext) = .completed (.challenge ctx) := by
      injection he
    obtain ⟨d,hd,_,⟨_,hcert⟩ | ⟨e,he,ht,o,ho,hsel⟩⟩ := hb _ _ _ ha
    · cases hcert
    · have hno : ACME_ALPN ∉ (AlpnIter.mk o.wire).protos := by
        rw [o.protos_wire]
        exact hl o ⟨e,by rwa [hc.unique hd],ht,ho⟩
      rw [alpnSelect_ordinary _ _ _ _ hno] at hsel
      split_ifs at hsel
      · cases hsel
      · cases hsel
      · cases hsel

end Validation
/-- While the order is open, whatever earlier orders have left in the store, a validator that asks for a
domain gets the challenge installed last for it, and nobody else gets a challenge. -/
theorem validation_served {Ctx : Type*} (env : AcmeEnv Ctx) (domains : List String) (email : String)
    (staging : Bool) (directoryUrl : Option String) (store : ChallengeStore Ctx) (cache : Cache) (n : ℕ)
    {s : Challenges Ctx} (hs : ((Issuing.step env domains cache)^[n]
      (Issuing.begin env domains email staging directoryUrl store cache)).awaiting = some s)
    (b : BoringSsl Ctx) (hb : b.Documented) (cfg : ServerCfg) (setContext : Ctx → Bool) :
    (∀ before domain ctx after, s.installed = before ++ (domain,ctx) :: after →
      (∀ e ∈ after, e.1 ≠ domain) → setContext ctx = true →
      ∀ (c : ClientHello) (l : ClientOffer), c.Offers l → ACME_ALPN ∈ l.names →
      b.servername c = some domain → ∀ version more : Bytes, version.length = 2 →
      b.Completes (handshakeRecord version c.message ++ more) c l →
      ∀ a : Schedule (handshakeRecord version c.message ++ more),
        (∃ n ∈ a.lengths, 5+c.message.length ≤ n) →
          acceptTask b cfg s.store setContext (handshakeRecord version c.message ++ more) a.onTime =
            .tls (.completed (.challenge ctx))) ∧
    ∀ (stream : Bytes) (c : ClientHello), Carries stream c → (∀ l, c.Offers l → ACME_ALPN ∉ l.names) →
      ∀ (peeks : List Peek) (ctx : Ctx),
        acceptTask b cfg s.store setContext stream peeks ≠ .tls (.completed (.challenge ctx)) := by
  refine ⟨?_,fun stream c hc hl peeks ctx => ordinary_unchallenged hb hc hl peeks ctx⟩
  intro before domain ctx after hin hlast hset c l hl hacme hname version more hv hdone a ha
  have hserved : s.Served := by
    have hrun : ∀ n, ∀ s ∈ ((Issuing.step env domains cache)^[n]
        (Issuing.begin env domains email staging directoryUrl store cache)).awaiting, s.Served := by
      intro n
      induction n with
      | zero => exact Issuing.served_begin env domains email staging directoryUrl store cache
      | succ n ih =>
        rw [Function.iterate_succ_apply']
        exact Issuing.served_step ih
    exact hrun n s hs
  have hget : s.store.get domain = some ctx := hserved before domain ctx after hin hlast
  rw [acceptTask, if_neg (by simp [validator_admitted hl hacme hv more a ha])]
  rw [hdone _ ⟨ACME_ALPN,some ctx⟩ (by rw [hname]; exact alpnSelect_challenge hacme hget hset)]
  rfl

/-- An ACME server that takes every answer. -/
def willingAcme : AcmeEnv Unit where
  letsEncryptUrl _ := "directory"
  builder := true
  createAccount _ _ := true
  newOrder domains := some (domains.map fun d =>
    .ok ⟨.pending,.dns d,some "token.thumbprint",fun _ _ => some (),true⟩)
  refresh _ := some .pending
  keyPair := none
  csrParams _ := true
  serializeRequest _ _ := none
  finalizeCsr _ := false
  certificate _ := none
  createDir := true
  certWrite := .refused
  keyWrite := .refused

theorem validatorSsl_completes : validatorSsl.Completes validatorStream validatorHello validatorOffer := by
  intro callback sel h
  have hc : callback (some "example.org") validatorOffer.wire = .ok sel := h
  simp [validatorSsl, hc]

/-- The validator comes while the order is polled. -/
theorem validation_served_polled :
    let s : Challenges Unit := ⟨ChallengeStore.new.install "example.org" (),["example.org"],
      [("example.org",())]⟩
    let a : Schedule (handshakeRecord [3,1] validatorHello.message ++ []) :=
      ⟨[5+validatorHello.message.length],by decide,by simp⟩
    acceptTask validatorSsl guardedCfg s.store (fun _ => true)
      (handshakeRecord [3,1] validatorHello.message ++ []) a.onTime = .tls (.completed (.challenge ())) := by
  intro s a
  have hs : ((Issuing.step willingAcme ["example.org"] .empty)^[5]
      (Issuing.begin willingAcme ["example.org"] "" false none .new .empty)).awaiting = some s := rfl
  refine (validation_served willingAcme ["example.org"] "" false none .new .empty 5 hs validatorSsl
    validatorSsl_documented guardedCfg (fun _ => true)).1 [] "example.org" () [] rfl (by simp) rfl
    validatorHello validatorOffer ⟨_,List.mem_singleton_self _,rfl,rfl⟩ (by decide) rfl [3,1] [] rfl ?_ a
    ⟨_,List.mem_singleton_self _,le_rfl⟩
  rw [List.append_nil]
  exact validatorSsl_completes

end EchTunnel
