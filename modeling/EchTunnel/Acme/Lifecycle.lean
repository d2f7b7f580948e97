import EchTunnel.Acme.Cache
import EchTunnel.Library.Run

/-! The life of the ACME certificate in `server.rs`: start-up, the first issuance, and the renewal
loop, which looks only at the disk. -/
namespace EchTunnel

/-- The task that looks after the certificate: it is issuing the first one, it sleeps until the next
daily check, or it has returned. -/
inductive AcmeTask
  | issuing
  | renewing
  | ended
  deriving Repr, DecidableEq

/-- A running server in ACME mode. `live` is the material behind the acceptor, if it is not the
bootstrap certificate. -/
structure AcmeServer where
  now : ℕ
  cache : Cache
  live : Option CertMaterial
  task : AcmeTask
  deriving Repr, DecidableEq

namespace AcmeServer

/-- What happens next: time passes, the first `issue` returns (where it stopped if it failed, its
material if not, and whether that can be installed), or a daily check is due, on which `cert.pem` may
be unreadable and what is issued can or cannot be swapped in. -/
inductive Act
  | wait (elapsed : ℕ)
  | first (m : CertMaterial) (stop : Option Stop) (installs : Bool)
  | tick (delay : ℕ) (readable : Bool) (m : CertMaterial) (stop : Option Stop) (builds : Bool)

variable (x : X509)

/-- Start-up: a usable pair from the cache is installed, or `run` fails; else a task is issuing. -/
def start (now : ℕ) (cache : Cache) (installs : Bool) : Option AcmeServer :=
  match loadCached x now cache with
  | some m => if installs then some ⟨now,cache,some m,.renewing⟩ else none
  | none => some ⟨now,cache,none,.issuing⟩

/-- The text of `cert.pem` as a check finds it. -/
def certPem (s : AcmeServer) (readable : Bool) : Option String := if readable then s.cache.cert else none

def step (s : AcmeServer) : Act → AcmeServer
  | .wait elapsed => { s with now := s.now + elapsed }
  | .first m stop installs =>
    match s.task with
    | .issuing =>
      let s := { s with cache := persist s.cache m stop }
      match stop with
      | some _ => { s with task := .ended }
      | none => if installs then { s with live := some m, task := .renewing } else { s with task := .ended }
    | _ => s
  | .tick delay readable m stop builds =>
    match s.task with
    | .renewing =>
      let s := { s with now := s.now + DAY + delay }
      match s.certPem readable with
      | none => s
      | some certPem =>
        if ¬ needsRenewal x s.now certPem then s
        else
          let s := { s with cache := persist s.cache m stop }
          if stop = none ∧ builds then { s with live := some m } else s
    | _ => s

/-- A step in which the program issues or installs a certificate. -/
def Tries (s : AcmeServer) : Act → Prop
  | .wait _ => False
  | .first .. => s.task = .issuing
  | .tick delay readable _ _ _ => s.task = .renewing ∧
      ∃ certPem ∈ s.certPem readable, needsRenewal x (s.now + DAY + delay) certPem = true

/-- The acceptor serves the bootstrap certificate, or one within the renewal window. -/
def Stale (s : AcmeServer) : Prop := ∀ m ∈ s.live, needsRenewal x s.now m.certPem = true

/-- Nothing will be done about a stale certificate, whatever happens. -/
def Stuck (s : AcmeServer) : Prop :=
  s.Stale x ∧ ∀ acts, Run.Meets (step x) (fun s a => ¬ s.Tries x a) s acts

/-- The first certificate is issued and installed. -/
def FirstSucceeds (s : AcmeServer) : Act → Prop
  | .first _ stop installs => s.task = .issuing → stop = none ∧ installs = true
  | _ => True

/-- The renewal loop has a file to look at, and the bootstrap certificate is on until the first
issuance is over. -/
structure Kept (s : AcmeServer) : Prop where
  cached : s.task = .renewing → s.cache.cert ≠ none
  bootstrap : s.task ≠ .renewing → s.live = none

variable {x} {s : AcmeServer}

theorem persist_cert {d : Cache} (h : d.cert ≠ none) (m : CertMaterial) (stop : Option Stop) :
    (persist d m stop).cert ≠ none := by
  cases stop with
  | none => exact nofun
  | some stop =>
    cases stop with
    | early => exact h
    | _ => exact nofun

theorem Kept.step (h : s.Kept) (a : Act) : (s.step x a).Kept := by
  cases a with
  | wait elapsed => exact ⟨h.cached,h.bootstrap⟩
  | first m stop installs =>
    rw [AcmeServer.step]
    split
    · rename_i ht
      have hl : s.live = none := h.bootstrap (by simp [ht])
      cases stop with
      | some stop => exact ⟨nofun,fun _ => hl⟩
      | none =>
        cases installs with
        | true => exact ⟨fun _ => nofun,fun hn => absurd rfl hn⟩
        | false => exact ⟨nofun,fun _ => hl⟩
    · exact h
  | tick delay readable m stop builds =>
    rw [AcmeServer.step]
    split
    · rename_i ht
      have hc := h.cached ht
      have hno : ∀ {P : Prop}, s.task ≠ .renewing → P := fun hn => absurd ht hn
      simp only
      split
      · exact ⟨fun _ => hc,hno⟩
      · split
        · exact ⟨fun _ => hc,hno⟩
        · split
          · exact ⟨fun _ => persist_cert hc m stop,hno⟩
          · exact ⟨fun _ => persist_cert hc m stop,hno⟩
    · exact h

theorem ended_step (h : s.task = .ended) (a : Act) : (s.step x a).task = .ended ∧ ¬ s.Tries x a := by
  cases a with
  | wait elapsed => exact ⟨h,id⟩
  | first m stop installs => simp [AcmeServer.step, Tries, h]
  | tick delay readable m stop builds => simp [AcmeServer.step, Tries, h]

theorem ended_run (h : s.task = .ended) (acts : List Act) :
    (Run.run (step x) s acts).task = .ended ∧
      Run.Meets (step x) (fun s a => ¬ s.Tries x a) s acts := by
  have hstep : ∀ (s : AcmeServer) a, s.task = .ended → (s.step x a).task = .ended :=
    fun s a hs => (ended_step hs a).1
  exact ⟨Run.induction hstep acts h,Run.Meets.imp (I := fun s => s.task = .ended)
    (fun s a hs _ => hstep s a hs) (fun s a hs _ => (ended_step hs a).2) h
    (Run.Meets.of_forall (fun _ _ => trivial) s acts)⟩

/-- Only the first issuance can put an end to the task, and it does when it fails. -/
theorem step_ended (h : s.task ≠ .ended) (a : Act) :
    (s.step x a).task = .ended ↔ ¬ s.FirstSucceeds a := by
  cases a with
  | wait elapsed => simpa [AcmeServer.step, FirstSucceeds] using h
  | first m stop installs =>
    cases ht : s.task with
    | issuing => cases stop <;> cases installs <;> simp [AcmeServer.step, FirstSucceeds, ht]
    | renewing => simp [AcmeServer.step, FirstSucceeds, ht]
    | ended => exact absurd ht h
  | tick delay readable m stop builds =>
    simp only [FirstSucceeds, not_true, iff_false]
    rw [AcmeServer.step]
    split
    · simp only
      split
      · exact h
      · split
        · exact h
        · split <;> exact h
    · exact h

theorem run_ended (acts : List Act) (h : s.task ≠ .ended) :
    (Run.run (step x) s acts).task = .ended ↔ ¬ Run.Meets (step x) FirstSucceeds s acts := by
  induction acts generalizing s with
  | nil => simpa [Run.Meets] using h
  | cons a acts ih =>
    rw [Run.run_cons, Run.Meets, not_and_or, ← step_ended (x := x) h a]
    by_cases hs : (s.step x a).task = .ended
    · simp only [hs, true_or, iff_true]
      exact (ended_run hs acts).1
    · rw [ih hs]
      simp [hs]

/-- While the loop runs, a check comes that tries, unless `cert.pem` cannot be read. -/
theorem ticks_try {certPem : String} {late : ℕ} (hc : s.cache.cert = some certPem)
    (ht : s.task = .renewing) (hlate : ∀ now, late ≤ now → needsRenewal x now certPem = true)
    {acts : List Act} (hacts : ∀ a ∈ acts, ∃ delay m stop builds, a = .tick delay true m stop builds)
    (hne : acts ≠ []) (hlen : late ≤ s.now + acts.length*DAY) :
    ¬ Run.Meets (step x) (fun s a => ¬ s.Tries x a) s acts := by
  induction acts generalizing s with
  | nil => exact absurd rfl hne
  | cons a acts ih =>
    obtain ⟨delay,m,stop,builds,rfl⟩ := hacts a List.mem_cons_self
    rintro ⟨hno,hrest⟩
    cases hr : needsRenewal x (s.now + DAY + delay) certPem with
    | true => exact hno ⟨ht,certPem,by simpa [AcmeServer.certPem] using hc,hr⟩
    | false =>
      have hstep : s.step x (.tick delay true m stop builds) = { s with now := s.now + DAY + delay } := by
        simp [AcmeServer.step, ht, AcmeServer.certPem, hc, hr]
      have hearly : s.now + DAY + delay < late := by
        by_contra hn
        rw [hlate _ (not_lt.mp hn)] at hr
        contradiction
      rw [hstep] at hrest
      rw [List.length_cons, Nat.succ_mul] at hlen
      refine ih (s := { s with now := s.now + DAY + delay }) hc ht
        (fun a ha => hacts a (List.mem_cons_of_mem _ ha)) ?_ ?_ hrest
      · rintro rfl
        simp only [List.length_nil, Nat.zero_mul] at hlen
        omega
      · simp only
        omega

/-- After start-up a retry is armed as long as the task has not ended. -/
theorem stuck_iff (h : s.Kept) : s.Stuck x ↔ s.task = .ended := by
  constructor
  · rintro ⟨-,hno⟩
    cases ht : s.task with
    | ended => rfl
    | issuing => exact absurd ht (hno [.first ⟨"",""⟩ none true]).1
    | renewing =>
      obtain ⟨certPem,hc⟩ := Option.ne_none_iff_exists'.mp (h.cached ht)
      obtain ⟨late,hlate⟩ := needsRenewal_late x certPem
      refine absurd (hno [.tick late true ⟨"",""⟩ none true]).1 (not_not.mpr ⟨ht,certPem,?_,?_⟩)
      · simpa [AcmeServer.certPem] using hc
      · exact hlate _ (by omega)
  · intro ht
    refine ⟨fun m hm => ?_,fun acts => (ended_run ht acts).2⟩
    rw [h.bootstrap (by simp [ht])] at hm
    contradiction

theorem start_kept {now : ℕ} {cache : Cache} {installs : Bool} (h : start x now cache installs = some s) :
    s.Kept ∧ s.task ≠ .ended := by
  unfold start at h
  split at h
  · rename_i m hm
    obtain ⟨_,⟨⟩⟩ := Option.ite_none_right_eq_some.mp h
    refine ⟨⟨fun _ hn => ?_,fun hn => absurd rfl hn⟩,nofun⟩
    simp only at hn
    unfold loadCached at hm
    rw [hn] at hm
    contradiction
  · cases h
    exact ⟨⟨nofun,fun _ => rfl⟩,nofun⟩

/-- A server in ACME mode gets stuck exactly if the first certificate it asks for is not issued or
cannot be installed. Otherwise it is still asking for it, or so many daily checks on which `cert.pem`
is readable do not go by without one that issues. -/
theorem acme_never_stuck (x : X509) (now : ℕ) (cache : Cache) (installs : Bool) (s₀ : AcmeServer)
    (h : start x now cache installs = some s₀) (acts : List Act) :
    let s := Run.run (step x) s₀ acts
    (¬ s.Stuck x ↔ Run.Meets (step x) FirstSucceeds s₀ acts) ∧
      (Run.Meets (step x) FirstSucceeds s₀ acts → s.task = .issuing ∨
        ∃ n, ∀ acts' : List Act, (∀ a ∈ acts', ∃ delay m stop builds, a = .tick delay true m stop builds) →
          n ≤ acts'.length → ¬ Run.Meets (step x) (fun s a => ¬ s.Tries x a) s acts') := by
  intro s
  obtain ⟨hkept,hrun⟩ := start_kept h
  have hstep : ∀ (s : AcmeServer) a, s.Kept → (s.step x a).Kept := fun s a hs => hs.step a
  have hs : s.Kept := Run.induction hstep acts hkept
  have hended : s.task = .ended ↔ ¬ Run.Meets (step x) FirstSucceeds s₀ acts := run_ended acts hrun
  refine ⟨by rw [stuck_iff hs, hended, not_not],fun hm => ?_⟩
  cases ht : s.task with
  | issuing => exact Or.inl rfl
  | ended => exact absurd hm (hended.mp ht)
  | renewing =>
    right
    obtain ⟨certPem,hc⟩ := Option.ne_none_iff_exists'.mp (hs.cached ht)
    obtain ⟨late,hlate⟩ := needsRenewal_late x certPem
    have hday : 1 ≤ DAY := by decide
    refine ⟨late + 1,fun acts' hacts hlen => ticks_try hc ht hlate hacts ?_ ?_⟩
    · rintro rfl
      simp at hlen
    · have := Nat.mul_le_mul hlen hday
      omega

/-- A first certificate, a day on which nothing is due, and years later a check that cannot read the
file and one that issues, but cannot swap in, a new one. -/
def renewed : List Act :=
  [.first ⟨"c0","k0"⟩ none true,.tick 0 true ⟨"c1","k1"⟩ (some .early) true,.wait (1000*DAY),
    .tick 0 false ⟨"c1","k1"⟩ none true,.tick 0 true ⟨"c1","k1"⟩ none false]

theorem acme_never_stuck_renewed :
    let s := Run.run (step .lasting) ⟨0,.empty,none,.issuing⟩ renewed
    (¬ s.Stuck .lasting ↔ Run.Meets (step .lasting) FirstSucceeds ⟨0,.empty,none,.issuing⟩ renewed) ∧
      (Run.Meets (step .lasting) FirstSucceeds ⟨0,.empty,none,.issuing⟩ renewed → s.task = .issuing ∨
        ∃ n, ∀ acts' : List Act, (∀ a ∈ acts', ∃ delay m stop builds, a = .tick delay true m stop builds) →
          n ≤ acts'.length → ¬ Run.Meets (step .lasting) (fun s a => ¬ s.Tries .lasting a) s acts') :=
  acme_never_stuck .lasting 0 .empty true _ rfl _

/-- The first order fails, and the bootstrap certificate stays for good. -/
theorem stuck_after_first_failure :
    ¬ ∀ (x : X509) (now : ℕ) (cache : Cache) (installs : Bool) (s₀ : AcmeServer),
      start x now cache installs = some s₀ → ∀ acts, ¬ (Run.run (step x) s₀ acts).Stuck x := by
  intro h
  have hno := h .lasting 0 .empty true ⟨0,.empty,none,.issuing⟩ rfl [.first ⟨"c0","k0"⟩ (some .early) true]
  refine hno ⟨fun m hm => ?_,fun acts => (ended_run rfl acts).2⟩
  cases hm

end AcmeServer
end EchTunnel
