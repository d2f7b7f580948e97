import EchTunnel.Config
import EchTunnel.Library.Str
import EchTunnel.Sip003.Options

/-! `from_options` of `config.rs`: the configuration a plugin-options string stands for. -/
namespace EchTunnel

inductive Mode
  | server
  | client
  deriving Repr, DecidableEq

inductive Config
  | server (cfg : ServerCfg)
  | client (cfg : ClientCfg)

/-- Why options are refused, with what the text of the error quotes. -/
inductive ConfigError
  | option (e : OptionError)
  | modeRequired
  | modeUnknown (value : String)
  | notBoolean (key value : String)
  | certAndAcme
  | certWithoutKey
  | keyWithoutCert
  | noCertificate
  | publicNameWithoutKey
  | echConfigTwice
  | caFileAndInsecure
  | unknownFingerprint (raw : String)
  | unknownTransport (value : String)
  deriving Repr, DecidableEq

def DEFAULT_ECH_PUBLIC_NAME : String := "cloudflare-ech.com"

/-- The spellings of `true` and of `false`. -/
def boolTrue : List String := ["true","1","yes","on"]
def boolFalse : List String := ["false","0","no","off",""]

inductive FingerprintParams
  | chrome
  | firefox
  | safari
  | ios
  | android
  | edge
  deriving Repr, DecidableEq

/-- `resolve` of `fingerprint.rs`; `random` is the byte it draws. -/
def resolveFingerprint (random : UInt8) (fp : String) : Option FingerprintParams :=
  if fp ∈ ["chrome","chrome120"] then some .chrome
  else if fp ∈ ["firefox","firefox120"] then some .firefox
  else if fp ∈ ["safari","safari16"] then some .safari
  else if fp ∈ ["ios","ios14"] then some .ios
  else if fp ∈ ["android","android11"] then some .android
  else if fp ∈ ["edge","edge85"] then some .edge
  else if fp = "random" then
    let n := random.toNat % 12
    some (if n ≤ 5 then .chrome else if n ≤ 8 then .safari else if n ≤ 10 then .ios else .firefox)
  else none

def PluginOptions.mode (o : PluginOptions) : Except ConfigError Mode :=
  match o.get "mode" with
  | some v => if v = "server" then .ok .server else if v = "client" then .ok .client
    else .error (.modeUnknown v)
  | none => .error .modeRequired

section Options
variable (o : PluginOptions)

def parseBool (key : String) : Except ConfigError (Option Bool) :=
  match o.get key with
  | none => .ok none
  | some v => if v ∈ boolTrue then .ok (some true) else if v ∈ boolFalse then .ok (some false)
    else .error (.notBoolean key v)

def buildServerTls : Except ConfigError ServerTls :=
  match o.get "cert", o.get "key", o.get "acme_email" with
  | some _, some _, some _ => .error .certAndAcme
  | some c, some k, none => .ok (.static c k)
  | some _, none, _ => .error .certWithoutKey
  | none, some _, _ => .error .keyWithoutCert
  | none, none, some email => do
    let cacheDir := (o.get "acme_cache").getD "/var/lib/ech-tls-tunnel/acme"
    let staging := (← parseBool o "acme_staging").getD false
    return .acme email staging cacheDir
  | none, none, none => .error .noCertificate

def buildServerEch : Except ConfigError (Option ServerEch) :=
  match o.get "ech_public_name", o.get "ech_key" with
  | none, none => .ok none
  | name, some key => .ok (some ⟨name.getD DEFAULT_ECH_PUBLIC_NAME,key⟩)
  | some _, none => .error .publicNameWithoutKey

def buildClientEch : Except ConfigError (Option ClientEch) :=
  match o.get "ech_config", o.get "ech_config_file" with
  | none, none => .ok none
  | some b64, none => .ok (some (.inline b64))
  | none, some path => .ok (some (.file path))
  | some _, some _ => .error .echConfigTwice

def buildClientTrust : Except ConfigError ClientTrust := do
  let insecure := (← parseBool o "insecure").getD false
  match o.get "ca_file", insecure with
  | some _, true => .error .caFileAndInsecure
  | some p, false => .ok (.caFile p)
  | none, true => .ok .insecureSkipVerify
  | none, false => .ok .systemRoots

def buildTransport : Except ConfigError Transport :=
  match o.get "transport" with
  | none => .ok .tcp
  | some v => if v ∈ ["","tcp"] then .ok .tcp else if v ∈ ["h3","http3","quic"] then .ok .h3
    else .error (.unknownTransport v)

/-- `resolve` draws a byte of its own here; whether it knows the name does not depend on it. -/
def buildFingerprint : Except ConfigError (Option String) :=
  match o.get "fingerprint" with
  | none => .ok none
  | some raw =>
    let normalized := Str.toAsciiLowercase (Str.trim raw)
    if normalized = "" then .ok none
    else if (resolveFingerprint 0 normalized).isNone then .error (.unknownFingerprint raw)
    else .ok (some normalized)

/-- The cover name that nobody is expected to own, in some spelling. -/
def isDefaultCover (publicName : String) : Bool :=
  Str.eqIgnoreAsciiCase (Str.trimEndMatches publicName '.') DEFAULT_ECH_PUBLIC_NAME

def ServerCfg.fromOptions : Except ConfigError ServerCfg := do
  let domain ← (required o.get "domain").mapError .option
  let path ← (EchTunnel.wsPath o.get).mapError .option
  let fastOpen := (← parseBool o "fast_open").getD false
  let tls ← buildServerTls o
  let ech ← buildServerEch o
  let acmeCoverSan := (← parseBool o "acme_cover_san").getD (!ech.any fun e => isDefaultCover e.publicName)
  let rejectNonEch := (← parseBool o "reject_non_ech").getD true
  let serverName := (o.get "server_name").getD "nginx/1.24.0"
  let http3 := (← parseBool o "http3").getD false
  return ⟨domain,path,fastOpen,tls,ech,acmeCoverSan,rejectNonEch,serverName,http3⟩

def ClientCfg.fromOptions : Except ConfigError ClientCfg := do
  let sni ← (required o.get "sni").mapError .option
  let path ← (EchTunnel.wsPath o.get).mapError .option
  let fastOpen := (← parseBool o "fast_open").getD false
  let ech ← buildClientEch o
  let trust ← buildClientTrust o
  let fingerprint ← buildFingerprint o
  let transport ← buildTransport o
  return ⟨sni,path,fastOpen,ech,trust,fingerprint,transport⟩

def Config.fromOptions : Except ConfigError Config := do
  match ← o.mode with
  | .server => return .server (← ServerCfg.fromOptions o)
  | .client => return .client (← ClientCfg.fromOptions o)

end Options

/-- The server configuration that a plugin-options string stands for. -/
def serverCfg (s : String) : Option ServerCfg :=
  match PluginOptions.parse s with
  | .error _ => none
  | .ok o =>
    match Config.fromOptions o with
    | .ok (.server cfg) => some cfg
    | _ => none

section Except
variable {ε ε' α β : Type} {x : Except ε α} {f : α → Except ε β}

theorem bind_eq_ok {b : β} : x >>= f = .ok b ↔ ∃ a, x = .ok a ∧ f a = .ok b := by
  cases x <;> simp [bind, Except.bind]

theorem bind_eq_error {e : ε} : x >>= f = .error e ↔ x = .error e ∨ ∃ a, x = .ok a ∧ f a = .error e := by
  cases x <;> simp [bind, Except.bind]

theorem mapError_eq_ok {g : ε → ε'} {a : α} : x.mapError g = .ok a ↔ x = .ok a := by
  cases x <;> simp [Except.mapError]

theorem mapError_eq_error {g : ε → ε'} {e : ε'} : x.mapError g = .error e ↔ ∃ e', x = .error e' ∧ g e' = e := by
  cases x <;> simp [Except.mapError]

end Except

variable {o : PluginOptions}

theorem required_eq (get : String → Option String) (key : String) : required get key =
    if (get key).getD "" = "" then .error (.required key) else .ok ((get key).getD "") := by
  unfold required
  cases get key with
  | none => rfl
  | some v => by_cases hv : v = "" <;> simp [hv, Option.filter_some]

theorem required_eq_ok {get : String → Option String} {key v : String} :
    required get key = .ok v ↔ get key = some v ∧ v ≠ "" := by
  rw [required_eq]
  cases get key with
  | none => simp
  | some w =>
    by_cases hw : w = ""
    · simp only [hw, Option.getD_some, if_true, reduceCtorEq, Option.some.injEq, false_iff, not_and,
        not_not]
      exact Eq.symm
    · simp only [Option.getD_some, hw, if_false, Except.ok.injEq, Option.some.injEq, iff_self_and]
      exact fun h => h ▸ hw

theorem parseBool_eq_ok {key : String} {b : Option Bool} (h : parseBool o key = .ok b) :
    b = none ∧ o.get key = none ∨ b = some true ∧ (∃ v ∈ boolTrue, o.get key = some v) ∨
      b = some false ∧ ∃ v ∈ boolFalse, o.get key = some v := by
  unfold parseBool at h
  cases hk : o.get key with
  | none =>
    simp only [hk, Except.ok.injEq] at h
    exact Or.inl ⟨h.symm,rfl⟩
  | some v =>
    simp only [hk] at h
    split_ifs at h with ht hf
    · cases h
      exact Or.inr (Or.inl ⟨rfl,v,ht,rfl⟩)
    · cases h
      exact Or.inr (Or.inr ⟨rfl,v,hf,rfl⟩)

theorem buildServerEch_eq_ok {ech : Option ServerEch} : buildServerEch o = .ok ech ↔
    (o.get "ech_key" = none → o.get "ech_public_name" = none) ∧
      ech = (o.get "ech_key").map fun key => ⟨(o.get "ech_public_name").getD DEFAULT_ECH_PUBLIC_NAME,key⟩ := by
  unfold buildServerEch
  cases o.get "ech_key" with
  | none => cases o.get "ech_public_name" <;> simp [eq_comm]
  | some key => simp [eq_comm]

/-- Where every field of an accepted configuration comes from. -/
structure ServerCfg.ReadFrom (cfg : ServerCfg) (o : PluginOptions) : Prop where
  domain : required o.get "domain" = .ok cfg.domain
  wsPath : EchTunnel.wsPath o.get = .ok cfg.wsPath
  fastOpen : ∃ b, parseBool o "fast_open" = .ok b ∧ cfg.fastOpen = b.getD false
  tls : buildServerTls o = .ok cfg.tls
  ech : buildServerEch o = .ok cfg.ech
  acmeCoverSan : ∃ b, parseBool o "acme_cover_san" = .ok b ∧
    cfg.acmeCoverSan = b.getD (!cfg.ech.any fun e => isDefaultCover e.publicName)
  rejectNonEch : ∃ b, parseBool o "reject_non_ech" = .ok b ∧ cfg.rejectNonEch = b.getD true
  serverName : cfg.serverName = (o.get "server_name").getD "nginx/1.24.0"
  http3 : ∃ b, parseBool o "http3" = .ok b ∧ cfg.http3 = b.getD false

theorem ServerCfg.fromOptions_eq_ok {cfg : ServerCfg} : fromOptions o = .ok cfg ↔ cfg.ReadFrom o := by
  constructor
  · intro h
    obtain ⟨domain,hd,h⟩ := bind_eq_ok.mp h
    obtain ⟨path,hp,h⟩ := bind_eq_ok.mp h
    obtain ⟨fastOpen,hf,h⟩ := bind_eq_ok.mp h
    obtain ⟨tls,ht,h⟩ := bind_eq_ok.mp h
    obtain ⟨ech,he,h⟩ := bind_eq_ok.mp h
    obtain ⟨cover,hc,h⟩ := bind_eq_ok.mp h
    obtain ⟨reject,hr,h⟩ := bind_eq_ok.mp h
    obtain ⟨http3,hh,h⟩ := bind_eq_ok.mp h
    cases h
    exact ⟨mapError_eq_ok.mp hd,mapError_eq_ok.mp hp,⟨fastOpen,hf,rfl⟩,ht,he,⟨cover,hc,rfl⟩,
      ⟨reject,hr,rfl⟩,rfl,⟨http3,hh,rfl⟩⟩
  · rintro ⟨hd,hp,⟨fastOpen,hf,ef⟩,ht,he,⟨cover,hc,ec⟩,⟨reject,hr,er⟩,es,⟨http3,hh,eh⟩⟩
    unfold fromOptions
    rw [hd, hp, hf, ht, he, hc, hr, hh]
    obtain ⟨_,_,_,_,_,_,_,_,_⟩ := cfg
    simp only at ef ec er es eh
    rw [ef, ec, er, es, eh]
    rfl

theorem Config.fromOptions_eq_server {cfg : ServerCfg} : fromOptions o = .ok (.server cfg) ↔
    o.mode = .ok .server ∧ cfg.ReadFrom o := by
  simp only [fromOptions, bind_eq_ok, ← ServerCfg.fromOptions_eq_ok]
  constructor
  · rintro ⟨mode,hm,h⟩
    cases mode with
    | server =>
      simp only [bind_eq_ok, pure, Except.pure, Except.ok.injEq, Config.server.injEq] at h
      obtain ⟨_,h,rfl⟩ := h
      exact ⟨hm,h⟩
    | client => simp [bind_eq_ok, pure, Except.pure] at h
  · rintro ⟨hm,h⟩
    exact ⟨.server,hm,by rw [h]; rfl⟩

/-- A string of options that is accepted as the configuration of a server. -/
structure ServerOptions (s : String) (o : PluginOptions) (cfg : ServerCfg) : Prop where
  parse : PluginOptions.parse s = .ok o
  fromOptions : Config.fromOptions o = .ok (.server cfg)

theorem ServerOptions.readFrom {s : String} {cfg : ServerCfg} (h : ServerOptions s o cfg) : cfg.ReadFrom o :=
  (Config.fromOptions_eq_server.mp h.fromOptions).2

theorem serverCfg_eq_some {s : String} {cfg : ServerCfg} : serverCfg s = some cfg ↔
    ∃ o, ServerOptions s o cfg := by
  unfold serverCfg
  cases hp : PluginOptions.parse s with
  | error e => exact ⟨by simp,fun ⟨_,h⟩ => by cases hp.symm.trans h.parse⟩
  | ok o =>
    have ho : (∃ o', ServerOptions s o' cfg) ↔ Config.fromOptions o = .ok (.server cfg) := by
      refine ⟨fun ⟨o',h⟩ => ?_,fun h => ⟨o,hp,h⟩⟩
      obtain rfl : o = o' := Except.ok.inj (hp.symm.trans h.parse)
      exact h.fromOptions
    rw [ho]
    simp only
    cases Config.fromOptions o with
    | error e => simp
    | ok cfg' => cases cfg' <;> simp

/-- What an error says of the options. -/
def ConfigError.Holds (o : PluginOptions) : ConfigError → Prop
  | .option (.required key) => (o.get key).getD "" = ""
  | .option (.leadingSlash path) => o.get "path" = some path ∧ path.toList.head? ≠ some '/'
  | .modeRequired => o.get "mode" = none
  | .modeUnknown v => o.get "mode" = some v ∧ v ≠ "server" ∧ v ≠ "client"
  | .notBoolean key v => o.get key = some v ∧ v ∉ boolTrue ∧ v ∉ boolFalse
  | .certAndAcme => o.get "cert" ≠ none ∧ o.get "key" ≠ none ∧ o.get "acme_email" ≠ none
  | .certWithoutKey => o.get "cert" ≠ none ∧ o.get "key" = none
  | .keyWithoutCert => o.get "cert" = none ∧ o.get "key" ≠ none
  | .noCertificate => o.get "cert" = none ∧ o.get "key" = none ∧ o.get "acme_email" = none
  | .publicNameWithoutKey => o.get "ech_public_name" ≠ none ∧ o.get "ech_key" = none
  | .echConfigTwice => o.get "ech_config" ≠ none ∧ o.get "ech_config_file" ≠ none
  | .caFileAndInsecure => o.get "ca_file" ≠ none ∧ parseBool o "insecure" = .ok (some true)
  | .unknownFingerprint raw => o.get "fingerprint" = some raw ∧
      ∀ random, resolveFingerprint random (Str.toAsciiLowercase (Str.trim raw)) = none
  | .unknownTransport v => o.get "transport" = some v ∧ v ∉ ["","tcp","h3","http3","quic"]

section Errors
variable {e : ConfigError}

theorem required_error {key : String} {e : OptionError} (h : required o.get key = .error e) :
    (ConfigError.option e).Holds o := by
  rw [required_eq] at h
  split_ifs at h with hk
  cases h
  exact hk

theorem wsPath_error {e : OptionError} (h : wsPath o.get = .error e) : (ConfigError.option e).Holds o := by
  unfold wsPath at h
  cases hr : required o.get "path" with
  | error e' =>
    simp only [hr, Except.error.injEq] at h
    exact h ▸ required_error hr
  | ok p =>
    simp only [hr] at h
    split_ifs at h with hp
    cases h
    exact ⟨(required_eq_ok.mp hr).1,hp⟩

theorem parseBool_error {key : String} (h : parseBool o key = .error e) : e.Holds o := by
  unfold parseBool at h
  cases hk : o.get key with
  | none => simp [hk] at h
  | some v =>
    simp only [hk] at h
    split_ifs at h with ht hf
    cases h
    exact ⟨hk,ht,hf⟩

theorem buildServerTls_error (h : buildServerTls o = .error e) : e.Holds o := by
  unfold buildServerTls at h
  cases hc : o.get "cert" <;> cases hk : o.get "key" <;> cases ha : o.get "acme_email" <;>
    simp only [hc, hk, ha, Except.error.injEq, reduceCtorEq] at h
  case none.none.some =>
    obtain h | ⟨_,-,h⟩ := bind_eq_error.mp h
    · exact parseBool_error h
    · cases h
  all_goals
    subst h
    simp [ConfigError.Holds, hc, hk, ha]

theorem buildServerEch_error (h : buildServerEch o = .error e) : e.Holds o := by
  unfold buildServerEch at h
  cases hn : o.get "ech_public_name" <;> cases hk : o.get "ech_key" <;>
    simp only [hn, hk, Except.error.injEq, reduceCtorEq] at h
  subst h
  simp [ConfigError.Holds, hn, hk]

theorem buildClientEch_error (h : buildClientEch o = .error e) : e.Holds o := by
  unfold buildClientEch at h
  cases hc : o.get "ech_config" <;> cases hf : o.get "ech_config_file" <;>
    simp only [hc, hf, Except.error.injEq, reduceCtorEq] at h
  subst h
  simp [ConfigError.Holds, hc, hf]

theorem buildClientTrust_error (h : buildClientTrust o = .error e) : e.Holds o := by
  obtain h | ⟨insecure,hi,h⟩ := bind_eq_error.mp h
  · exact parseBool_error h
  · cases hc : o.get "ca_file" with
    | none => cases hd : insecure.getD false <;> simp [hc, hd] at h
    | some p =>
      obtain _ | _ | _ := insecure
      · simp [hc] at h
      · simp [hc] at h
      · simp only [hc, Option.getD_some, Except.error.injEq] at h
        subst h
        simp [ConfigError.Holds, hc, hi]

theorem buildTransport_error (h : buildTransport o = .error e) : e.Holds o := by
  unfold buildTransport at h
  cases ht : o.get "transport" with
  | none => simp [ht] at h
  | some v =>
    simp only [ht] at h
    split_ifs at h with h₁ h₂
    cases h
    refine ⟨ht,fun hv => ?_⟩
    rw [show ["","tcp","h3","http3","quic"] = ["","tcp"] ++ ["h3","http3","quic"] from rfl] at hv
    exact (List.mem_append.mp hv).elim h₁ h₂

theorem resolveFingerprint_isNone (random random' : UInt8) (fp : String) :
    (resolveFingerprint random fp).isNone = (resolveFingerprint random' fp).isNone := by
  simp only [resolveFingerprint, apply_ite Option.isNone, Option.isNone_some, Option.isNone_none]

theorem buildFingerprint_error (h : buildFingerprint o = .error e) : e.Holds o := by
  unfold buildFingerprint at h
  cases hf : o.get "fingerprint" with
  | none => simp [hf] at h
  | some raw =>
    simp only [hf] at h
    split_ifs at h with h₁ h₂
    cases h
    refine ⟨hf,fun random => ?_⟩
    rw [← Option.isNone_iff_eq_none, resolveFingerprint_isNone random 0, h₂]

theorem mode_error (h : o.mode = .error e) : e.Holds o := by
  unfold PluginOptions.mode at h
  cases hm : o.get "mode" with
  | none =>
    simp only [hm, Except.error.injEq] at h
    exact h ▸ hm
  | some v =>
    simp only [hm] at h
    split_ifs at h with h₁ h₂
    cases h
    exact ⟨hm,h₁,h₂⟩

theorem ServerCfg.fromOptions_error (h : ServerCfg.fromOptions o = .error e) : e.Holds o := by
  obtain h | ⟨_,-,h⟩ := bind_eq_error.mp h
  · obtain ⟨_,hr,rfl⟩ := mapError_eq_error.mp h
    exact required_error hr
  obtain h | ⟨_,-,h⟩ := bind_eq_error.mp h
  · obtain ⟨_,hp,rfl⟩ := mapError_eq_error.mp h
    exact wsPath_error hp
  obtain h | ⟨_,-,h⟩ := bind_eq_error.mp h
  · exact parseBool_error h
  obtain h | ⟨_,-,h⟩ := bind_eq_error.mp h
  · exact buildServerTls_error h
  obtain h | ⟨_,-,h⟩ := bind_eq_error.mp h
  · exact buildServerEch_error h
  obtain h | ⟨_,-,h⟩ := bind_eq_error.mp h
  · exact parseBool_error h
  obtain h | ⟨_,-,h⟩ := bind_eq_error.mp h
  · exact parseBool_error h
  obtain h | ⟨_,-,h⟩ := bind_eq_error.mp h
  · exact parseBool_error h
  cases h

theorem ClientCfg.fromOptions_error (h : ClientCfg.fromOptions o = .error e) : e.Holds o := by
  obtain h | ⟨_,-,h⟩ := bind_eq_error.mp h
  · obtain ⟨_,hr,rfl⟩ := mapError_eq_error.mp h
    exact required_error hr
  obtain h | ⟨_,-,h⟩ := bind_eq_error.mp h
  · obtain ⟨_,hp,rfl⟩ := mapError_eq_error.mp h
    exact wsPath_error hp
  obtain h | ⟨_,-,h⟩ := bind_eq_error.mp h
  · exact parseBool_error h
  obtain h | ⟨_,-,h⟩ := bind_eq_error.mp h
  · exact buildClientEch_error h
  obtain h | ⟨_,-,h⟩ := bind_eq_error.mp h
  · exact buildClientTrust_error h
  obtain h | ⟨_,-,h⟩ := bind_eq_error.mp h
  · exact buildFingerprint_error h
  obtain h | ⟨_,-,h⟩ := bind_eq_error.mp h
  · exact buildTransport_error h
  cases h

/-- Options are refused only for what the error says of them. -/
theorem Config.fromOptions_error (h : Config.fromOptions o = .error e) : e.Holds o := by
  obtain h | ⟨mode,-,h⟩ := bind_eq_error.mp h
  · exact mode_error h
  · cases mode with
    | server =>
      obtain h | ⟨_,-,h⟩ := bind_eq_error.mp h
      · exact ServerCfg.fromOptions_error h
      · cases h
    | client =>
      obtain h | ⟨_,-,h⟩ := bind_eq_error.mp h
      · exact ClientCfg.fromOptions_error h
      · cases h

end Errors
end EchTunnel
