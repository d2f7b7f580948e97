import EchTunnel.Acme.Cache
import EchTunnel.Library.Files
import EchTunnel.Library.Wire
import EchTunnel.Tls.ChallengeStore

/-! One run of `issue` of `acme.rs`, and the challenge entries it installs on the way. -/
namespace EchTunnel
open Wire

inductive AuthorizationStatus
  | pending
  | valid
  | invalid
  | revoked
  | expired
  | deactivated
  deriving Repr, DecidableEq

inductive OrderStatus
  | pending
  | ready
  | processing
  | valid
  | invalid
  deriving Repr, DecidableEq

inductive Identifier
  | dns (domain : String)
  | other (name : String)
  deriving Repr, DecidableEq

inductive AcmeError
  | builder
  | createAccount
  | newOrder
  | getAuthorization (e : String)
  | unexpectedIdentifier (other : Identifier)
  | noChallenge (domain : String)
  | challengeCtx
  | setReady
  | refreshOrder
  | orderInvalid
  | orderTimedOut
  | orderNotReady (status : OrderStatus)
  | generateKeypair
  | csrParams
  | serializeCsr
  | finalizeOrder
  | fetchCertificate
  | notAvailable
  | createCacheDir
  | writeCert
  | writeKey
  deriving Repr, DecidableEq

/-- An authorization as it is fetched, with the key authorization of its tls-alpn-01 challenge, if it
has one; and how the two steps come out that are taken for it. -/
structure Authz (Ctx : Type*) where
  status : AuthorizationStatus
  identifier : Identifier
  tlsAlpn01 : Option String
  buildChallengeCtx : String → String → Option Ctx
  setReady : Bool

/-- What the ACME server, the libraries and the disk answer in one run. The `i`th poll has its own
answer, `none` when it fails. -/
structure AcmeEnv (Ctx : Type*) where
  letsEncryptUrl : Bool → String
  builder : Bool
  createAccount : String → String → Bool
  /-- The authorizations of a new order, or the error that fetching one ends with. -/
  newOrder : List String → Option (List (Except String (Authz Ctx)))
  refresh : ℕ → Option OrderStatus
  /-- The PEM of the new private key. -/
  keyPair : Option String
  csrParams : List String → Bool
  serializeRequest : List String → String → Option Bytes
  finalizeCsr : Bytes → Bool
  certificate : ℕ → Option (Option String)
  createDir : Bool
  certWrite : Files.Write
  keyWrite : Files.Write

/-- `max_tries` polls from the `i`th on. -/
def pollUntilReady (refresh : ℕ → Option OrderStatus) (i : ℕ) : ℕ → Except AcmeError OrderStatus
  | 0 => .error .orderTimedOut
  | n+1 =>
    match refresh i with
    | none => .error .refreshOrder
    | some .ready => .ok .ready
    | some .invalid => .error .orderInvalid
    | some _ => pollUntilReady refresh (i+1) n

def pollUntilCertificate (certificate : ℕ → Option (Option String)) (i : ℕ) :
    ℕ → Except AcmeError String
  | 0 => .error .notAvailable
  | n+1 =>
    match certificate i with
    | none => .error .fetchCertificate
    | some (some chain) => .ok chain
    | some none => pollUntilCertificate certificate (i+1) n

/-- The state of the authorization loop. `installed` is a record of what the call has put into the
store; the code keeps `activeDomains` only. -/
structure Challenges (Ctx : Type*) where
  store : ChallengeStore Ctx
  activeDomains : List String
  installed : List (String × Ctx)

section Model
variable {Ctx : Type*}

/-- The authorization loop of `issue`. -/
def authorize : List (Except String (Authz Ctx)) → Challenges Ctx → Challenges Ctx × Except AcmeError Unit
  | [], s => (s,.ok ())
  | .error e :: _, s => (s,.error (.getAuthorization e))
  | .ok authz :: rest, s =>
    if authz.status ≠ .pending then authorize rest s
    else match authz.identifier with
    | .other name => (s,.error (.unexpectedIdentifier (.other name)))
    | .dns domain =>
      match authz.tlsAlpn01 with
      | none => (s,.error (.noChallenge domain))
      | some keyAuth =>
        match authz.buildChallengeCtx domain keyAuth with
        | none => (s,.error .challengeCtx)
        | some ctx =>
          let s := { s with
            store := s.store.install domain ctx, installed := s.installed ++ [(domain,ctx)] }
          if authz.setReady then authorize rest { s with activeDomains := s.activeDomains ++ [domain] }
          else (s,.error .setReady)

/-- A file after a write, and whether the write succeeded. -/
def writeText (old : Option String) (content : String) : Files.Write → Option String × Bool
  | .refused => (old,false)
  | .torn n => (some (torn content n),false)
  | .done => (some content,true)

variable (env : AcmeEnv Ctx)

/-- What `issue` does once the order is ready. -/
def issueCertificate (domains : List String) (cache : Cache) : Cache × Except AcmeError CertMaterial :=
  match env.keyPair with
  | none => (cache,.error .generateKeypair)
  | some keyPem =>
    if ¬ env.csrParams domains then (cache,.error .csrParams)
    else match env.serializeRequest domains keyPem with
    | none => (cache,.error .serializeCsr)
    | some csr =>
      if ¬ env.finalizeCsr csr then (cache,.error .finalizeOrder)
      else match pollUntilCertificate env.certificate 0 30 with
      | .error e => (cache,.error e)
      | .ok certPem =>
        if ¬ env.createDir then (cache,.error .createCacheDir)
        else match writeText cache.cert certPem env.certWrite with
        | (cert,false) => ({ cache with cert := cert },.error .writeCert)
        | (cert,true) =>
          match writeText cache.key keyPem env.keyWrite with
          | (key,false) => (⟨cert,key⟩,.error .writeKey)
          | (key,true) => (⟨cert,key⟩,.ok ⟨certPem,keyPem⟩)

/-- What a call of `issue` leaves, and what it returns. -/
structure Issued (Ctx : Type*) where
  challenges : Challenges Ctx
  cache : Cache
  result : Except AcmeError CertMaterial

def issue (domains : List String) (email : String) (staging : Bool) (directoryUrl : Option String)
    (store : ChallengeStore Ctx) (cache : Cache) : Issued Ctx :=
  let s : Challenges Ctx := ⟨store,[],[]⟩
  if ¬ env.builder then ⟨s,cache,.error .builder⟩
  else if ¬ env.createAccount ("mailto:" ++ email) (directoryUrl.getD (env.letsEncryptUrl staging)) then
    ⟨s,cache,.error .createAccount⟩
  else match env.newOrder domains with
  | none => ⟨s,cache,.error .newOrder⟩
  | some authzs =>
    match authorize authzs s with
    | (s,.error e) => ⟨s,cache,.error e⟩
    | (s,.ok ()) =>
      match pollUntilReady env.refresh 0 60 with
      | .error e => ⟨s,cache,.error e⟩
      | .ok status =>
        if status ≠ .ready then ⟨s,cache,.error (.orderNotReady status)⟩
        else
          let s := { s with store := s.activeDomains.foldl ChallengeStore.remove s.store }
          let (cache,result) := issueCertificate env domains cache
          ⟨s,cache,result⟩

/-- The entry that the loop installs for an authorization. -/
def Authz.entry (a : Authz Ctx) : Option (String × Ctx) :=
  if a.status ≠ .pending then none
  else match a.identifier, a.tlsAlpn01 with
  | .dns domain, some keyAuth => (a.buildChallengeCtx domain keyAuth).map (domain,·)
  | _, _ => none

/-- The loop ends, at the first pending authorization if not earlier, with nothing installed. -/
def InstallsNothing : List (Except String (Authz Ctx)) → Prop
  | [] => True
  | .error _ :: _ => True
  | .ok a :: rest => if a.status = .pending then a.entry = none else InstallsNothing rest

/-- Every authorization can be fetched, and those that are pending go through. -/
def AllReady (authzs : List (Except String (Authz Ctx))) : Prop :=
  ∀ r ∈ authzs, ∃ a, r = .ok a ∧ (a.status = .pending → a.entry ≠ none ∧ a.setReady = true)

/-- One of the polls finds the order ready, and those before it find it neither invalid nor fail. -/
def PollsReady (refresh : ℕ → Option OrderStatus) : Prop :=
  ∃ i < 60, refresh i = some .ready ∧ ∀ j < i, refresh j ≠ none ∧ refresh j ≠ some .invalid

/-- Whatever order is obtained, nothing is installed for it, or it becomes ready. -/
def AcmeEnv.Clean (domains : List String) (email : String) (staging : Bool)
    (directoryUrl : Option String) : Prop :=
  env.builder = true →
    env.createAccount ("mailto:" ++ email) (directoryUrl.getD (env.letsEncryptUrl staging)) = true →
      ∀ authzs, env.newOrder domains = some authzs →
        InstallsNothing authzs ∨ AllReady authzs ∧ PollsReady env.refresh

end Model

section Loop
variable {Ctx : Type*} {s : Challenges Ctx}

/-- What is in the store of what was installed. -/
def Challenges.Left (s : Challenges Ctx) (e : String × Ctx) : Prop :=
  e ∈ s.installed ∧ s.store.get e.1 = some e.2

/-- Everything that was installed will be removed. -/
def Challenges.Recorded (s : Challenges Ctx) : Prop := ∀ e ∈ s.installed, e.1 ∈ s.activeDomains

theorem Challenges.left_install (store : ChallengeStore Ctx) (active : List String)
    (installed : List (String × Ctx)) (e : String × Ctx) :
    Left ⟨store.install e.1 e.2,active,installed ++ [e]⟩ e := by
  simp [Left]

/-- What a turn of the loop does. -/
theorem authorize_cons (a : Authz Ctx) (rest : List (Except String (Authz Ctx))) (s : Challenges Ctx) :
    a.status ≠ .pending ∧ authorize (.ok a :: rest) s = authorize rest s ∨
    a.status = .pending ∧ a.entry = none ∧ (∃ e, authorize (.ok a :: rest) s = (s,.error e)) ∨
    a.status = .pending ∧ ∃ e, a.entry = some e ∧
      (a.setReady = true ∧ authorize (.ok a :: rest) s = authorize rest
          ⟨s.store.install e.1 e.2,s.activeDomains ++ [e.1],s.installed ++ [e]⟩ ∨
        a.setReady = false ∧ authorize (.ok a :: rest) s =
          (⟨s.store.install e.1 e.2,s.activeDomains,s.installed ++ [e]⟩,.error .setReady)) := by
  rw [authorize]
  unfold Authz.entry
  by_cases hp : a.status = .pending
  swap
  · exact Or.inl ⟨hp,if_pos hp⟩
  right
  simp only [hp, true_and]
  cases a.identifier with
  | other name => exact Or.inl ⟨rfl,_,rfl⟩
  | dns domain =>
    cases a.tlsAlpn01 with
    | none => exact Or.inl ⟨rfl,_,rfl⟩
    | some keyAuth =>
      cases hctx : a.buildChallengeCtx domain keyAuth with
      | none => exact Or.inl ⟨by simp [hctx],_,by simp [hctx]; rfl⟩
      | some ctx =>
        right
        refine ⟨(domain,ctx),by simp [hctx],?_⟩
        cases a.setReady with
        | true => exact Or.inl ⟨rfl,by simp [hctx]⟩
        | false => exact Or.inr ⟨rfl,by simp [hctx]⟩

theorem authorize_ok_iff (authzs : List (Except String (Authz Ctx))) (s : Challenges Ctx) :
    (authorize authzs s).2 = .ok () ↔ AllReady authzs := by
  induction authzs generalizing s with
  | nil => simp [authorize, AllReady]
  | cons r rest ih =>
    cases r with
    | error e => simp [authorize, AllReady]
    | ok a =>
      have hall : AllReady (.ok a :: rest) ↔
          (a.status = .pending → a.entry ≠ none ∧ a.setReady = true) ∧ AllReady rest := by
        simp [AllReady]
      rw [hall]
      obtain ⟨hp,he⟩ | ⟨hp,hn,e,he⟩ | ⟨hp,e,hn,⟨hr,he⟩ | ⟨hr,he⟩⟩ := authorize_cons a rest s
      · rw [he, ih]
        exact ⟨fun h => ⟨fun h' => absurd h' hp,h⟩,And.right⟩
      · rw [he]
        simp [hp, hn]
      · rw [he, ih]
        simp [hn, hr]
      · rw [he]
        simp [hp, hr]

theorem authorize_installed (authzs : List (Except String (Authz Ctx))) (s : Challenges Ctx) :
    (authorize authzs s).1.installed = [] ↔ s.installed = [] ∧ InstallsNothing authzs := by
  induction authzs generalizing s with
  | nil => simp [authorize, InstallsNothing]
  | cons r rest ih =>
    cases r with
    | error e => simp [authorize, InstallsNothing]
    | ok a =>
      rw [InstallsNothing]
      obtain ⟨hp,he⟩ | ⟨hp,hn,e,he⟩ | ⟨hp,e,hn,⟨hr,he⟩ | ⟨hr,he⟩⟩ := authorize_cons a rest s
      · rw [he, ih, if_neg hp]
      · rw [he, if_pos hp]
        simp [hn]
      · rw [he, ih, if_pos hp]
        simp [hn]
      · rw [he, if_pos hp]
        simp [hn]

/-- The last entry to be installed stays until something is removed. -/
theorem authorize_left (authzs : List (Except String (Authz Ctx))) (s : Challenges Ctx)
    (h : s.installed ≠ [] → ∃ e, s.Left e) (hne : (authorize authzs s).1.installed ≠ []) :
    ∃ e, (authorize authzs s).1.Left e := by
  induction authzs generalizing s with
  | nil => exact h hne
  | cons r rest ih =>
    cases r with
    | error e => exact h hne
    | ok a =>
      obtain ⟨hp,he⟩ | ⟨hp,hn,e,he⟩ | ⟨hp,e,hn,⟨hr,he⟩ | ⟨hr,he⟩⟩ := authorize_cons a rest s
      · rw [he] at hne ⊢
        exact ih s h hne
      · rw [he] at hne ⊢
        exact h hne
      · rw [he] at hne ⊢
        exact ih _ (fun _ => ⟨e,Challenges.left_install ..⟩) hne
      · rw [he]
        exact ⟨e,Challenges.left_install ..⟩

theorem authorize_recorded (authzs : List (Except String (Authz Ctx))) (s : Challenges Ctx)
    (h : s.Recorded) (hok : (authorize authzs s).2 = .ok ()) : (authorize authzs s).1.Recorded := by
  induction authzs generalizing s with
  | nil => exact h
  | cons r rest ih =>
    cases r with
    | error e => exact h
    | ok a =>
      obtain ⟨hp,he⟩ | ⟨hp,hn,e,he⟩ | ⟨hp,e,hn,⟨hr,he⟩ | ⟨hr,he⟩⟩ := authorize_cons a rest s
      · rw [he] at hok ⊢
        exact ih s h hok
      · rw [he]
        exact h
      · rw [he] at hok ⊢
        refine ih _ (fun x hx => ?_) hok
        simp only [List.mem_append, List.mem_singleton] at hx ⊢
        exact hx.imp (h x) (congrArg Prod.fst)
      · rw [he] at hok
        cases hok

theorem get_foldl_remove (ds : List String) (store : ChallengeStore Ctx) (d : String) :
    (ds.foldl ChallengeStore.remove store).get d = if d ∈ ds then none else store.get d := by
  induction ds generalizing store with
  | nil => simp
  | cons d' ds ih =>
    rw [List.foldl_cons, ih, ChallengeStore.get_remove]
    by_cases hd : d = d'
    · simp [hd]
    · simp [hd]

end Loop

theorem pollUntilReady_ok {refresh : ℕ → Option OrderStatus} {i n : ℕ} {status : OrderStatus}
    (h : pollUntilReady refresh i n = .ok status) : status = .ready := by
  induction n generalizing i with
  | zero => cases h
  | succ n ih =>
    rw [pollUntilReady] at h
    split at h
    · cases h
    · cases h
      rfl
    · cases h
    · exact ih h

theorem pollUntilReady_eq_ok_iff (refresh : ℕ → Option OrderStatus) (i n : ℕ) :
    pollUntilReady refresh i n = .ok .ready ↔
      ∃ k < n, refresh (k+i) = some .ready ∧
        ∀ j < k, refresh (j+i) ≠ none ∧ refresh (j+i) ≠ some .invalid := by
  induction n generalizing i with
  | zero => simp [pollUntilReady]
  | succ n ih =>
    rw [pollUntilReady, Nat.exists_lt_succ_left]
    simp only [Nat.forall_lt_succ_left, Nat.zero_add, Nat.add_right_comm _ 1 i, Nat.add_assoc _ i 1]
    cases hr : refresh i with
    | none => simp
    | some status =>
      cases status with
      | ready => simp
      | invalid => simp
      | _ => simp [ih]

theorem pollsReady_iff (refresh : ℕ → Option OrderStatus) :
    pollUntilReady refresh 0 60 = .ok .ready ↔ PollsReady refresh :=
  pollUntilReady_eq_ok_iff refresh 0 60

section Issue
variable {Ctx : Type*}

/-- Nothing that was installed is in the store. -/
def Challenges.Empty (s : Challenges Ctx) : Prop := ∀ e ∈ s.installed, s.store.get e.1 ≠ some e.2

theorem Challenges.empty_iff {s : Challenges Ctx} (h : s.installed ≠ [] → ∃ e, s.Left e) :
    s.Empty ↔ s.installed = [] := by
  constructor
  · intro he
    by_contra hne
    obtain ⟨e,hm,hg⟩ := h hne
    exact he e hm hg
  · intro hnil e hm
    rw [hnil] at hm
    cases hm

theorem Challenges.Recorded.empty {s : Challenges Ctx} (h : s.Recorded) :
    Empty { s with store := s.activeDomains.foldl ChallengeStore.remove s.store } := by
  intro e hm
  rw [get_foldl_remove, if_pos (h e hm)]
  exact nofun

/-- The store is left without the entries of the call exactly when none is installed, or the order
becomes ready: every other way out passes the clean-up by. -/
theorem issue_removes_challenges (env : AcmeEnv Ctx) (domains : List String) (email : String)
    (staging : Bool) (directoryUrl : Option String) (store : ChallengeStore Ctx) (cache : Cache) :
    (issue env domains email staging directoryUrl store cache).challenges.Empty ↔
      env.Clean domains email staging directoryUrl := by
  have hempty : (⟨store,[],[]⟩ : Challenges Ctx).Empty := fun _ hm => nomatch hm
  unfold issue AcmeEnv.Clean
  cases env.builder with
  | false => simp [hempty]
  | true =>
    cases env.createAccount ("mailto:" ++ email) (directoryUrl.getD (env.letsEncryptUrl staging)) with
    | false => simp [hempty]
    | true =>
      cases env.newOrder domains with
      | none => simp [hempty]
      | some authzs =>
        have hok := authorize_ok_iff authzs ⟨store,[],[]⟩
        have hinst := authorize_installed authzs ⟨store,[],[]⟩
        have hleft := authorize_left authzs ⟨store,[],[]⟩ (fun h => absurd rfl h)
        have hrec := authorize_recorded authzs ⟨store,[],[]⟩ (fun _ hm => nomatch hm)
        have hpoll := pollsReady_iff env.refresh
        simp only [true_and] at hinst
        simp only [not_true_eq_false, if_false, forall_const, Option.some.injEq, forall_eq', ← hinst, ← hok,
          ← hpoll]
        generalize authorize authzs ⟨store,[],[]⟩ = p at hleft hrec
        obtain ⟨s,r⟩ := p
        cases r with
        | error e => simp [Challenges.empty_iff hleft]
        | ok u =>
          cases hp : pollUntilReady env.refresh 0 60 with
          | error e => simp [Challenges.empty_iff hleft]
          | ok status =>
            obtain rfl := pollUntilReady_ok hp
            simp [(hrec rfl).empty]

/-- An ACME server that offers the challenge and does not take the answer. -/
def refusingAcme : AcmeEnv String where
  letsEncryptUrl _ := "directory"
  builder := true
  createAccount _ _ := true
  newOrder domains := some (domains.map fun d =>
    .ok ⟨.pending,.dns d,some "token.thumbprint",fun d keyAuth => some (d ++ keyAuth),false⟩)
  refresh _ := none
  keyPair := none
  csrParams _ := true
  serializeRequest _ _ := none
  finalizeCsr _ := false
  certificate _ := none
  createDir := true
  certWrite := .refused
  keyWrite := .refused

theorem issue_leaves_challenge :
    ¬ (issue refusingAcme ["a.example"] "" false none .new .empty).challenges.Empty := by
  intro h
  exact h ("a.example","a.exampletoken.thumbprint") (by decide) (by decide)

variable (env : AcmeEnv Ctx) (domains : List String) (cache : Cache)

/-- A cache and a result are those of a run that stopped somewhere, or of one that did not. -/
def Cache.Persists (cache cache' : Cache) (r : Except AcmeError CertMaterial) : Prop :=
  ∃ m stop, cache' = persist cache m stop ∧ ∀ m', r = .ok m' ↔ stop = none ∧ m' = m

theorem Cache.Persists.early (e : AcmeError) : cache.Persists cache (.error e) :=
  ⟨⟨"",""⟩,some .early,rfl,by simp⟩

theorem issueCertificate_persists :
    cache.Persists (issueCertificate env domains cache).1 (issueCertificate env domains cache).2 := by
  have hearly := Cache.Persists.early cache
  unfold issueCertificate
  cases env.keyPair with
  | none => exact hearly _
  | some keyPem =>
    cases env.csrParams domains with
    | false => exact hearly _
    | true =>
      cases hcsr : env.serializeRequest domains keyPem with
      | none => simpa [hcsr] using hearly .serializeCsr
      | some csr =>
        cases hfin : env.finalizeCsr csr with
        | false => simpa [hcsr, hfin] using hearly .finalizeOrder
        | true =>
          cases hcert : pollUntilCertificate env.certificate 0 30 with
          | error e => simpa [hcsr, hfin] using hearly e
          | ok certPem =>
            cases hdir : env.createDir with
            | false => simpa [hcsr, hfin] using hearly .createCacheDir
            | true =>
              simp only [hcsr, hfin, not_true_eq_false, if_false]
              cases hc : env.certWrite with
              | refused => exact hearly _
              | torn n => exact ⟨⟨certPem,keyPem⟩,some (.cert n),rfl,by simp [writeText]⟩
              | done =>
                cases hk : env.keyWrite with
                | refused => exact ⟨⟨certPem,keyPem⟩,some .between,rfl,by simp [writeText]⟩
                | torn n => exact ⟨⟨certPem,keyPem⟩,some (.key n),rfl,by simp [writeText]⟩
                | done => exact ⟨⟨certPem,keyPem⟩,none,rfl,by simp [writeText, eq_comm]⟩

/-- What the cache and the caller see of a run is where it stopped, and what it issued. -/
theorem issue_persists (email : String) (staging : Bool) (directoryUrl : Option String)
    (store : ChallengeStore Ctx) :
    cache.Persists (issue env domains email staging directoryUrl store cache).cache
      (issue env domains email staging directoryUrl store cache).result := by
  have hearly := Cache.Persists.early cache
  unfold issue
  cases env.builder with
  | false => exact hearly _
  | true =>
    cases env.createAccount ("mailto:" ++ email) (directoryUrl.getD (env.letsEncryptUrl staging)) with
    | false => exact hearly _
    | true =>
      cases env.newOrder domains with
      | none => exact hearly _
      | some authzs =>
        simp only [not_true_eq_false, if_false]
        generalize authorize authzs ⟨store,[],[]⟩ = p
        obtain ⟨s,r⟩ := p
        cases r with
        | error e => exact hearly _
        | ok u =>
          cases hp : pollUntilReady env.refresh 0 60 with
          | error e => exact hearly _
          | ok status =>
            obtain rfl := pollUntilReady_ok hp
            exact issueCertificate_persists env domains cache

end Issue
end EchTunnel
