import Mathlib.Data.List.Infix

/-! The certificate cache of `acme.rs`: two files that `issue` writes one after the other. -/
namespace EchTunnel

def RENEWAL_WINDOW_DAYS : ℕ := 30

/-- A day in seconds. -/
def DAY : ℕ := 24*60*60

/-- Certificate chain and private key as PEM texts. -/
structure CertMaterial where
  certPem : String
  keyPem : String
  deriving Repr, DecidableEq

/-- What BoringSSL reads from a PEM text and from the clock. A certificate is given by the second in
which it expires. -/
structure X509 where
  stackFromPem : String → Option (List ℕ)
  daysFromNow : ℕ → ℕ → Option ℕ
  daysFromNow_eq : ∀ {now days t}, daysFromNow now days = some t → t = now + days*DAY

/-- A text that does not parse needs renewal, too. -/
def needsRenewal (x : X509) (now : ℕ) (certPem : String) : Bool :=
  match x.stackFromPem certPem with
  | some (notAfter :: _) =>
    match x.daysFromNow now RENEWAL_WINDOW_DAYS with
    | some threshold => notAfter < threshold
    | none => true
  | _ => true

/-- Every certificate comes into the renewal window in the end. -/
theorem needsRenewal_late (x : X509) (certPem : String) :
    ∃ late, ∀ now, late ≤ now → needsRenewal x now certPem = true := by
  unfold needsRenewal
  split
  · rename_i notAfter _ _
    refine ⟨notAfter,fun now hn => ?_⟩
    split
    · rename_i threshold ht
      have hd : 0 < RENEWAL_WINDOW_DAYS*DAY := by decide
      have := x.daysFromNow_eq ht
      exact decide_eq_true (by omega)
    · rfl
  · exact ⟨0,fun _ _ => rfl⟩

/-- `cert.pem` and `key.pem`; `none` is a file that cannot be read as text. -/
structure Cache where
  cert : Option String
  key : Option String
  deriving Repr, DecidableEq

def Cache.empty : Cache := ⟨none,none⟩

def loadCached (x : X509) (now : ℕ) (d : Cache) : Option CertMaterial :=
  match d.cert, d.key with
  | some certPem, some keyPem => if needsRenewal x now certPem then none else some ⟨certPem,keyPem⟩
  | _, _ => none

/-- Where `issue` stops. It may fail, or the process may end, before it opens `cert.pem`; while it
writes a file, of which the first `n` characters are there then (PEM is ASCII); or between the files. -/
inductive Stop
  | early
  | cert (n : ℕ)
  | between
  | key (n : ℕ)
  deriving Repr, DecidableEq

/-- What a write that breaks off leaves. -/
def torn (s : String) (n : ℕ) : String := String.ofList (s.toList.take n)

/-- The cache after `issue` got to `stop`, or to its end. -/
def persist (d : Cache) (m : CertMaterial) : Option Stop → Cache
  | some .early => d
  | some (.cert n) => { d with cert := some (torn m.certPem n) }
  | some .between => { d with cert := some m.certPem }
  | some (.key n) => ⟨some m.certPem,some (torn m.keyPem n)⟩
  | none => ⟨some m.certPem,some m.keyPem⟩

/-- The cache that successful runs of `issue` leave. -/
def Cache.after (history : List CertMaterial) : Cache :=
  history.foldl (fun d m => persist d m none) .empty

/-- A new key, and a chain that is no continuation of an earlier one. -/
def CertMaterial.Fresh (m : CertMaterial) (history : List CertMaterial) : Prop :=
  ∀ m' ∈ history, m'.keyPem ≠ m.keyPem ∧ ¬ m'.certPem.toList <+: m.certPem.toList

instance (m : CertMaterial) (history : List CertMaterial) : Decidable (m.Fresh history) :=
  inferInstanceAs (Decidable (∀ m' ∈ history, _))

/-- The run does not stop while the files belong to different certificates, or the certificate there
is then one that `load_cached` rejects. -/
def Survives (x : X509) (now : ℕ) (history : List CertMaterial) (m : CertMaterial) :
    Option Stop → Prop
  | none | some .early => True
  | some (.cert n) => history = [] ∨ needsRenewal x now (torn m.certPem n) = true
  | some .between => history = [] ∨ needsRenewal x now m.certPem = true
  | some (.key n) => m.keyPem.toList.length ≤ n ∨ needsRenewal x now m.certPem = true

theorem torn_eq_self {s : String} {n : ℕ} : torn s n = s ↔ s.toList.length ≤ n := by
  rw [← String.toList_inj, torn, String.toList_ofList, List.take_eq_self_iff]

theorem prefix_of_torn (s : String) (n : ℕ) : (torn s n).toList <+: s.toList := by
  rw [torn, String.toList_ofList]
  exact List.take_prefix n s.toList

theorem Cache.after_concat (history : List CertMaterial) (m : CertMaterial) :
    after (history ++ [m]) = ⟨some m.certPem,some m.keyPem⟩ := by
  rw [after, List.foldl_append]
  rfl

/-- What the cache holds comes from the last run. -/
theorem Cache.after_cases (history : List CertMaterial) : history = [] ∧ after history = .empty ∨
    ∃ m ∈ history, after history = ⟨some m.certPem,some m.keyPem⟩ := by
  obtain rfl | ⟨history,m,rfl⟩ := history.eq_nil_or_concat
  · exact Or.inl ⟨rfl,rfl⟩
  · refine Or.inr ⟨m,by simp,?_⟩
    rw [List.concat_eq_append]
    exact after_concat history m

theorem forall_loadCached (x : X509) (now : ℕ) (certPem keyPem : String) (P : CertMaterial → Prop) :
    (∀ found ∈ loadCached x now ⟨some certPem,some keyPem⟩, P found) ↔
      needsRenewal x now certPem = true ∨ P ⟨certPem,keyPem⟩ := by
  rw [loadCached]
  cases hr : needsRenewal x now certPem with
  | true => simp [hr]
  | false => simp [hr]

theorem loadCached_no_key (x : X509) (now : ℕ) (cert : Option String) :
    loadCached x now ⟨cert,none⟩ = none := by
  cases cert <;> rfl

/-- A part of a fresh chain goes with no key but the one it was issued with, and that only whole. -/
theorem CertMaterial.Fresh.mem_iff {m : CertMaterial} {history : List CertMaterial}
    (h : m.Fresh history) {certPem keyPem : String} (hc : certPem.toList <+: m.certPem.toList) :
    (⟨certPem,keyPem⟩ : CertMaterial) ∈ m :: history ↔ certPem = m.certPem ∧ keyPem = m.keyPem := by
  rw [List.mem_cons]
  constructor
  · rintro (rfl | hm)
    · exact ⟨rfl,rfl⟩
    · exact absurd hc (h _ hm).2
  · rintro ⟨rfl,rfl⟩
    exact Or.inl rfl

/-- What `load_cached` finds was issued together, or it finds nothing, precisely if the run before it
stopped at none of the wrong moments. -/
theorem cache_survives (x : X509) (now : ℕ) (history : List CertMaterial) (m : CertMaterial)
    (hm : m.Fresh history) (stop : Option Stop) :
    (∀ found ∈ loadCached x now (persist (.after history) m stop), found ∈ m :: history) ↔
      Survives x now history m stop := by
  obtain ⟨rfl,he⟩ | ⟨m',hm',he⟩ := Cache.after_cases history
  · -- without a key nothing is found
    rw [he]
    cases stop with
    | none =>
      rw [persist, forall_loadCached]
      simp [Survives]
    | some stop =>
      cases stop with
      | early => simp [persist, Cache.empty, loadCached_no_key, Survives]
      | cert n => simp [persist, Cache.empty, loadCached_no_key, Survives]
      | between => simp [persist, Cache.empty, loadCached_no_key, Survives]
      | key n =>
        rw [persist, forall_loadCached, hm.mem_iff (List.prefix_refl _), torn_eq_self, Survives]
        tauto
  · have hne : history ≠ [] := List.ne_nil_of_mem hm'
    obtain ⟨hkey,hcert⟩ := hm m' hm'
    rw [he]
    cases stop with
    | none =>
      rw [persist, forall_loadCached]
      simp [Survives]
    | some stop =>
      cases stop with
      | early =>
        simp only [persist, forall_loadCached, Survives, iff_true]
        exact Or.inr (List.mem_cons_of_mem m hm')
      | cert n =>
        rw [persist, forall_loadCached, hm.mem_iff (prefix_of_torn _ n), Survives]
        simp [hkey, hne]
      | between =>
        rw [persist, forall_loadCached, hm.mem_iff (List.prefix_refl _), Survives]
        simp [hkey, hne]
      | key n =>
        rw [persist, forall_loadCached, hm.mem_iff (List.prefix_refl _), torn_eq_self, Survives]
        tauto

/-- A clock that is always right, and certificates that hold for long. -/
def X509.lasting : X509 where
  stackFromPem _ := some [1000*DAY]
  daysFromNow now days := some (now + days*DAY)
  daysFromNow_eq := by
    rintro now days t ⟨⟩
    rfl

theorem cache_survives_early :
    (∀ found ∈ loadCached .lasting 0 (persist (.after [⟨"c0","k0"⟩]) ⟨"c1","k1"⟩ (some .early)),
      found ∈ [⟨"c1","k1"⟩,⟨"c0","k0"⟩]) ↔
      Survives .lasting 0 [⟨"c0","k0"⟩] ⟨"c1","k1"⟩ (some .early) :=
  cache_survives .lasting 0 _ _ (by decide) _

/-- A renewal that stops between the files leaves the new certificate with the old key. -/
theorem mixed_pair :
    ¬ ∀ (x : X509) (now : ℕ) (history : List CertMaterial) (m : CertMaterial), m.Fresh history →
      ∀ stop, ∀ found ∈ loadCached x now (persist (.after history) m stop), found ∈ m :: history := by
  intro h
  have := h .lasting 0 [⟨"c0","k0"⟩] ⟨"c1","k1"⟩ (by decide) (some .between) ⟨"c1","k0"⟩ (by decide)
  revert this
  decide

end EchTunnel
