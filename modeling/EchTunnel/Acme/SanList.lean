import EchTunnel.Config.FromOptions

/-! The names an ACME order asks for, `compute_acme_domains` of `server.rs`. -/
namespace EchTunnel

def computeAcmeDomains (cfg : ServerCfg) : List String :=
  let out := [cfg.domain]
  if cfg.acmeCoverSan then
    match cfg.ech with
    | some ech => if ech.publicName ≠ "" ∧ ech.publicName ≠ cfg.domain then out ++ [ech.publicName] else out
    | none => out
  else out

/-- Two spellings of one DNS name: letter case and dots at the end do not matter. -/
def SameName (a b : String) : Prop :=
  Str.eqIgnoreAsciiCase (Str.trimEndMatches a '.') (Str.trimEndMatches b '.') = true

instance (a b : String) : Decidable (SameName a b) := inferInstanceAs (Decidable (_ = true))

theorem SameName.symm {a b : String} (h : SameName a b) : SameName b a := by
  simp only [SameName, Str.eqIgnoreAsciiCase, decide_eq_true_eq] at h ⊢
  exact h.symm

/-- The test of the configuration is about names. -/
theorem isDefaultCover_iff (name : String) :
    isDefaultCover name = true ↔ SameName name DEFAULT_ECH_PUBLIC_NAME := by
  have h : Str.trimEndMatches DEFAULT_ECH_PUBLIC_NAME '.' = DEFAULT_ECH_PUBLIC_NAME := by decide
  rw [isDefaultCover, SameName, h]

section Options
variable (o : PluginOptions)

/-- `acme_cover_san` says yes. -/
def CoverSanSet : Prop := ∃ v ∈ boolTrue, o.get "acme_cover_san" = some v

/-- The name that is on the outside of every handshake, where ECH is on. -/
def echPublicName : Option String :=
  (o.get "ech_key").map fun _ => (o.get "ech_public_name").getD DEFAULT_ECH_PUBLIC_NAME

/-- The options put the name in the order, next to the domain. -/
def ListsCover (domain name : String) : Prop :=
  echPublicName o = some name ∧ name ≠ "" ∧ name ≠ domain ∧
    (CoverSanSet o ∨ o.get "acme_cover_san" = none ∧ ¬ SameName name DEFAULT_ECH_PUBLIC_NAME)

/-- The order names the domain, then at most the public name, no name twice in whatever spelling, and the
default public name only where the options insist. -/
structure SanListSound (domains : List String) : Prop where
  head : domains.head? = o.get "domain"
  tail : domains.tail = [] ∨ ∃ name, echPublicName o = some name ∧ domains.tail = [name]
  distinct : domains.Pairwise fun d d' => ¬ SameName d d'
  cover : (∃ d ∈ domains.tail, SameName d DEFAULT_ECH_PUBLIC_NAME) → CoverSanSet o

end Options
variable {o : PluginOptions} {cfg : ServerCfg}

theorem echPublicName_eq (h : cfg.ReadFrom o) : echPublicName o = cfg.ech.map ServerEch.publicName := by
  rw [(buildServerEch_eq_ok.mp h.ech).2, Option.map_map]
  rfl

/-- The default is the same test, on the other side of the options. -/
theorem acmeCoverSan_iff (h : cfg.ReadFrom o) {ech : ServerEch} (he : cfg.ech = some ech) :
    cfg.acmeCoverSan = true ↔ CoverSanSet o ∨
      o.get "acme_cover_san" = none ∧ ¬ SameName ech.publicName DEFAULT_ECH_PUBLIC_NAME := by
  obtain ⟨b,hb,hc⟩ := h.acmeCoverSan
  rw [hc, he, Option.any_some, ← isDefaultCover_iff]
  obtain ⟨rfl,hn⟩ | ⟨rfl,v,hv,hn⟩ | ⟨rfl,v,hv,hn⟩ := parseBool_eq_ok hb
  · simp [CoverSanSet, hn]
  · simp [CoverSanSet, hn, hv]
  · have hv' : v ∉ boolTrue := by
      revert hv
      simp only [boolTrue, boolFalse, List.mem_cons, List.not_mem_nil, or_false]
      rintro (rfl | rfl | rfl | rfl | rfl) <;> decide +kernel
    simp [CoverSanSet, hn, hv']

theorem listsCover_iff (h : cfg.ReadFrom o) (name : String) : ListsCover o cfg.domain name ↔
    cfg.acmeCoverSan = true ∧ (∃ ech, cfg.ech = some ech ∧ ech.publicName = name) ∧ name ≠ "" ∧
      name ≠ cfg.domain := by
  rw [ListsCover, echPublicName_eq h, Option.map_eq_some_iff]
  constructor
  · rintro ⟨⟨ech,he,rfl⟩,hne,hnd,hc⟩
    exact ⟨(acmeCoverSan_iff h he).mpr hc,⟨ech,he,rfl⟩,hne,hnd⟩
  · rintro ⟨hc,⟨ech,he,rfl⟩,hne,hnd⟩
    exact ⟨⟨ech,he,rfl⟩,hne,hnd,(acmeCoverSan_iff h he).mp hc⟩

/-- The order names the domain, and the cover name where the options put it there. -/
theorem computeAcmeDomains_cases (h : cfg.ReadFrom o) :
    (∃ name, ListsCover o cfg.domain name ∧ computeAcmeDomains cfg = [cfg.domain,name]) ∨
      (∀ name, ¬ ListsCover o cfg.domain name) ∧ computeAcmeDomains cfg = [cfg.domain] := by
  simp only [listsCover_iff h]
  unfold computeAcmeDomains
  cases hc : cfg.acmeCoverSan with
  | false => exact Or.inr ⟨by simp,rfl⟩
  | true =>
    cases he : cfg.ech with
    | none => exact Or.inr ⟨by simp,rfl⟩
    | some ech =>
      by_cases hp : ech.publicName ≠ "" ∧ ech.publicName ≠ cfg.domain
      · exact Or.inl ⟨ech.publicName,⟨rfl,⟨ech,rfl,rfl⟩,hp⟩,by simp [hp]⟩
      · refine Or.inr ⟨?_,by simp [hp]⟩
        rintro _ ⟨-,⟨_,he',rfl⟩,hp'⟩
        cases he'
        exact hp hp'

/-- The order is sound exactly when the options do not put a second spelling of the domain into it. -/
theorem acme_domains_sound_iff {s : String} (h : ServerOptions s o cfg) :
    SanListSound o (computeAcmeDomains cfg) ↔
      ¬ ∃ domain name, o.get "domain" = some domain ∧ ListsCover o domain name ∧ SameName name domain := by
  have hdomain : o.get "domain" = some cfg.domain := (required_eq_ok.mp h.readFrom.domain).1
  simp only [hdomain, Option.some.injEq, exists_and_left, exists_eq_left']
  obtain ⟨name,hl,he⟩ | ⟨hl,he⟩ := computeAcmeDomains_cases h.readFrom
  · have hunique : ∀ name', ListsCover o cfg.domain name' → name' = name := fun name' h' =>
      Option.some.inj (h'.1.symm.trans hl.1)
    rw [he]
    constructor
    · rintro ⟨-,-,hd,-⟩ ⟨name',hl',hs⟩
      rw [hunique name' hl'] at hs
      exact (List.pairwise_cons.mp hd).1 name (by simp) hs.symm
    · intro hno
      refine ⟨hdomain.symm,Or.inr ⟨name,hl.1,rfl⟩,?_,?_⟩
      · simp only [List.pairwise_cons, List.mem_singleton, forall_eq, List.not_mem_nil, List.Pairwise.nil,
          and_true, false_imp_iff, implies_true]
        exact fun hs => hno ⟨name,hl,hs.symm⟩
      · rintro ⟨d,hd,hs⟩
        rw [List.tail_cons, List.mem_singleton] at hd
        subst hd
        exact hl.2.2.2.resolve_right fun h => h.2 hs
  · rw [he]
    refine iff_of_true ⟨hdomain.symm,Or.inl rfl,List.pairwise_singleton _ _,by simp⟩ ?_
    rintro ⟨name,hl',-⟩
    exact hl name hl'

theorem acme_domains_sound_iff_cover : ∃ o cfg,
    ServerOptions "mode=server;domain=t.x;path=/ws;acme_email=a@b.c;ech_key=/k;ech_public_name=front.x" o cfg ∧
      (SanListSound o (computeAcmeDomains cfg) ↔ ¬ ∃ domain name, o.get "domain" = some domain ∧
        ListsCover o domain name ∧ SameName name domain) := by
  have h : serverCfg "mode=server;domain=t.x;path=/ws;acme_email=a@b.c;ech_key=/k;ech_public_name=front.x" =
      some ⟨"t.x","/ws",false,.acme "a@b.c" false "/var/lib/ech-tls-tunnel/acme",some ⟨"front.x","/k"⟩,true,
        true,"nginx/1.24.0",false⟩ := by decide +kernel
  obtain ⟨o,ho⟩ := serverCfg_eq_some.mp h
  exact ⟨o,_,ho,acme_domains_sound_iff ho⟩

/-- One name in two spellings. -/
theorem acme_domains_twice : ∃ o cfg,
    ServerOptions "mode=server;domain=T.x;path=/ws;acme_email=a@b.c;ech_key=/k;ech_public_name=t.x" o cfg ∧
      computeAcmeDomains cfg = ["T.x","t.x"] ∧ ¬ SanListSound o (computeAcmeDomains cfg) := by
  have h : serverCfg "mode=server;domain=T.x;path=/ws;acme_email=a@b.c;ech_key=/k;ech_public_name=t.x" =
      some ⟨"T.x","/ws",false,.acme "a@b.c" false "/var/lib/ech-tls-tunnel/acme",some ⟨"t.x","/k"⟩,true,
        true,"nginx/1.24.0",false⟩ := by decide +kernel
  obtain ⟨o,ho⟩ := serverCfg_eq_some.mp h
  refine ⟨o,_,ho,rfl,fun hs => ?_⟩
  have hsame : SameName "T.x" "t.x" := by decide
  exact (List.pairwise_cons.mp hs.distinct).1 "t.x" (by decide) hsame

end EchTunnel
