import EchTunnel.Sip003.Grammar
import EchTunnel.Sip003.Launch

/-! The configurations that `from_options` can give, and how each of them is written as the environment of
a plugin. -/
namespace EchTunnel
open NetAddr

def writeBool (b : Bool) : String := if b then "true" else "false"

def ServerTls.options : ServerTls → List (String × String)
  | .static certFile keyFile => [("cert",certFile),("key",keyFile)]
  | .acme email staging cacheDir =>
    [("acme_email",email),("acme_staging",writeBool staging),("acme_cache",cacheDir)]

def ServerEch.options (ech : ServerEch) : List (String × String) :=
  [("ech_public_name",ech.publicName),("ech_key",ech.keyFile)]

def ServerCfg.options (cfg : ServerCfg) : List (String × String) :=
  [("mode","server"),("domain",cfg.domain),("path",cfg.wsPath),("fast_open",writeBool cfg.fastOpen),
    ("acme_cover_san",writeBool cfg.acmeCoverSan),("reject_non_ech",writeBool cfg.rejectNonEch),
    ("server_name",cfg.serverName),("http3",writeBool cfg.http3)] ++
    cfg.tls.options ++ (cfg.ech.map ServerEch.options).getD []

def ClientEch.options : ClientEch → List (String × String)
  | .inline configList => [("ech_config",configList)]
  | .file path => [("ech_config_file",path)]

def ClientTrust.options : ClientTrust → List (String × String)
  | .systemRoots => []
  | .caFile path => [("ca_file",path)]
  | .insecureSkipVerify => [("insecure","true")]

def Transport.option : Transport → String
  | .tcp => "tcp"
  | .h3 => "h3"

def ClientCfg.options (cfg : ClientCfg) : List (String × String) :=
  [("mode","client"),("sni",cfg.sni),("path",cfg.wsPath),("fast_open",writeBool cfg.fastOpen),
    ("transport",cfg.transport.option)] ++
    (cfg.ech.map ClientEch.options).getD [] ++ cfg.trust.options ++
    (cfg.fingerprint.map fun fp => [("fingerprint",fp)]).getD []

def Config.options : Config → List (String × String)
  | .server cfg => cfg.options
  | .client cfg => cfg.options

structure ServerCfg.WellFormed (cfg : ServerCfg) : Prop where
  domain : cfg.domain ≠ ""
  wsPath : cfg.wsPath.toList.head? = some '/'

structure ClientCfg.WellFormed (cfg : ClientCfg) : Prop where
  sni : cfg.sni ≠ ""
  wsPath : cfg.wsPath.toList.head? = some '/'
  /-- `resolve` knows the profile, whatever it draws. -/
  fingerprint : ∀ fp ∈ cfg.fingerprint, ∀ r, (resolveFingerprint r fp).isSome

def Config.WellFormed : Config → Prop
  | .server cfg => cfg.WellFormed
  | .client cfg => cfg.WellFormed

section Accepted
variable {o : PluginOptions}

theorem required_ne_empty {key v : String} (h : required o.get key = .ok v) : v ≠ "" :=
  (required_eq_ok.mp h).2

theorem buildFingerprint_known {fp : Option String} (h : buildFingerprint o = .ok fp) :
    ∀ name ∈ fp, ∀ r, (resolveFingerprint r name).isSome := by
  unfold buildFingerprint at h
  cases hf : o.get "fingerprint" with
  | none =>
    simp only [hf, Except.ok.injEq] at h
    subst h
    simp
  | some raw =>
    simp only [hf] at h
    split_ifs at h with hempty hknown
    · simp only [Except.ok.injEq] at h
      subst h
      simp
    · simp only [Except.ok.injEq] at h
      subst h
      intro name hname r
      obtain rfl := Option.mem_some_iff.mp hname
      rw [← Option.not_isNone, resolveFingerprint_isNone r 0]
      rw [Bool.not_eq_true']
      exact Bool.eq_false_iff.mpr hknown

/-- What `from_options` accepts is well formed. -/
theorem Config.fromOptions_wellFormed {cfg : Config} (h : Config.fromOptions o = .ok cfg) :
    cfg.WellFormed := by
  obtain ⟨mode,-,h⟩ := bind_eq_ok.mp h
  cases mode with
  | server =>
    obtain ⟨s,hs,h⟩ := bind_eq_ok.mp h
    cases h
    have hread := ServerCfg.fromOptions_eq_ok.mp hs
    exact ⟨required_ne_empty hread.domain,wsPath_eq_ok hread.wsPath⟩
  | client =>
    obtain ⟨c,hc,h⟩ := bind_eq_ok.mp h
    cases h
    obtain ⟨sni,hsni,hc⟩ := bind_eq_ok.mp hc
    obtain ⟨path,hpath,hc⟩ := bind_eq_ok.mp hc
    obtain ⟨fastOpen,-,hc⟩ := bind_eq_ok.mp hc
    obtain ⟨ech,-,hc⟩ := bind_eq_ok.mp hc
    obtain ⟨trust,-,hc⟩ := bind_eq_ok.mp hc
    obtain ⟨fingerprint,hf,hc⟩ := bind_eq_ok.mp hc
    obtain ⟨transport,-,hc⟩ := bind_eq_ok.mp hc
    cases hc
    exact ⟨required_ne_empty (mapError_eq_ok.mp hsni),wsPath_eq_ok (mapError_eq_ok.mp hpath),
      buildFingerprint_known hf⟩

end Accepted

section Written
variable {o : PluginOptions}

theorem wsPath_of_get {p : String} (h : o.get "path" = some p) (hp : p.toList.head? = some '/') :
    wsPath o.get = .ok p := by
  have hne : p ≠ "" := by
    intro he
    subst he
    cases hp
  unfold wsPath
  rw [required_eq_ok.mpr ⟨h,hne⟩]
  exact if_pos hp

theorem parseBool_writeBool {key : String} {b : Bool} (h : o.get key = some (writeBool b)) :
    parseBool o key = .ok (some b) := by
  unfold parseBool
  rw [h]
  cases b
  · rfl
  · rfl

theorem PluginOptions.get_of_mem {pairs : List (String × String)} (hnd : (pairs.map Prod.fst).Nodup)
    {k v : String} (h : (k,v) ∈ pairs) : (ofPairs pairs).get k = some v := by
  obtain ⟨before,after,rfl⟩ := List.append_of_mem h
  rw [get_ofPairs, List.lookup_eq_some_iff]
  refine ⟨after.reverse,before.reverse,by simp,?_⟩
  intro p hp
  rw [List.map_append, List.map_cons] at hnd
  have hafter := (List.nodup_cons.mp hnd.of_append_right).1
  rw [bne_iff_ne]
  intro he
  exact hafter (List.mem_map.mpr ⟨p,List.mem_reverse.mp hp,he.symm⟩)

theorem PluginOptions.get_of_notMem {pairs : List (String × String)} {k : String}
    (h : k ∉ pairs.map Prod.fst) : (ofPairs pairs).get k = none := by
  rw [get_ofPairs, List.lookup_eq_none_iff]
  intro p hp
  rw [bne_iff_ne]
  intro he
  subst he
  exact h (List.mem_map_of_mem (List.mem_reverse.mp hp))

theorem parseBool_none {key : String} (h : o.get key = none) : parseBool o key = .ok none := by
  unfold parseBool
  rw [h]

theorem ServerCfg.nodup_options (cfg : ServerCfg) : (cfg.options.map Prod.fst).Nodup := by
  obtain ⟨domain,path,fastOpen,tls,ech,cover,reject,name,http3⟩ := cfg
  cases tls <;> cases ech <;> simp [options, ServerTls.options, ServerEch.options]

/-- The options of a well-formed server configuration are read as that configuration. -/
theorem ServerCfg.readFrom_options {cfg : ServerCfg} (hcfg : cfg.WellFormed) :
    cfg.ReadFrom (.ofPairs cfg.options) := by
  have hget : ∀ k v, (k,v) ∈ cfg.options → (PluginOptions.ofPairs cfg.options).get k = some v :=
    fun k v => PluginOptions.get_of_mem cfg.nodup_options
  have hno : ∀ k, k ∉ cfg.options.map Prod.fst → (PluginOptions.ofPairs cfg.options).get k = none :=
    fun k => PluginOptions.get_of_notMem
  have hbool : ∀ k b d, (k,writeBool b) ∈ cfg.options →
      ∃ b', parseBool (.ofPairs cfg.options) k = .ok b' ∧ b = b'.getD d :=
    fun k b d h => ⟨some b,parseBool_writeBool (hget k _ h),rfl⟩
  obtain ⟨domain,path,fastOpen,tls,ech,cover,reject,name,http3⟩ := cfg
  constructor
  · exact required_eq_ok.mpr ⟨hget "domain" _ (by simp [options]),hcfg.domain⟩
  · exact wsPath_of_get (hget "path" _ (by simp [options])) hcfg.wsPath
  · exact hbool _ _ _ (by simp [options])
  · unfold buildServerTls
    cases tls with
    | static certFile keyFile =>
      rw [hget "cert" certFile (by simp [options, ServerTls.options]),
        hget "key" keyFile (by simp [options, ServerTls.options]),
        hno "acme_email" (by cases ech <;> simp [options, ServerTls.options, ServerEch.options])]
    | acme email staging cacheDir =>
      rw [hno "cert" (by cases ech <;> simp [options, ServerTls.options, ServerEch.options]),
        hno "key" (by cases ech <;> simp [options, ServerTls.options, ServerEch.options]),
        hget "acme_email" email (by simp [options, ServerTls.options]),
        hget "acme_cache" cacheDir (by simp [options, ServerTls.options])]
      rw [parseBool_writeBool (hget "acme_staging" (writeBool staging) (by simp [options, ServerTls.options]))]
      rfl
  · rw [buildServerEch_eq_ok]
    cases ech with
    | none =>
      rw [hno "ech_public_name" (by cases tls <;> simp [options, ServerTls.options]),
        hno "ech_key" (by cases tls <;> simp [options, ServerTls.options])]
      exact ⟨fun _ => rfl,rfl⟩
    | some ech =>
      rw [hget "ech_public_name" ech.publicName (by simp [options, ServerEch.options]),
        hget "ech_key" ech.keyFile (by simp [options, ServerEch.options])]
      exact ⟨by simp,rfl⟩
  · exact hbool _ _ _ (by simp [options])
  · exact hbool _ _ _ (by simp [options])
  · rw [hget "server_name" name (by simp [options])]
    rfl
  · exact hbool _ _ _ (by simp [options])

theorem ClientCfg.nodup_options (cfg : ClientCfg) : (cfg.options.map Prod.fst).Nodup := by
  obtain ⟨sni,path,fastOpen,ech,trust,fingerprint,transport⟩ := cfg
  obtain _ | _ | _ := ech <;> cases trust <;> cases fingerprint <;>
    simp [options, ClientEch.options, ClientTrust.options]

def knownFingerprints : List String :=
  ["chrome","chrome120","firefox","firefox120","safari","safari16","ios","ios14","android","android11",
    "edge","edge85","random"]

theorem mem_knownFingerprints {r : UInt8} {fp : String} (h : (resolveFingerprint r fp).isSome) :
    fp ∈ knownFingerprints := by
  by_contra hno
  simp only [knownFingerprints, List.mem_cons, List.not_mem_nil, or_false, not_or] at hno
  simp [resolveFingerprint, hno] at h

/-- The names of the profiles are in the form that `build_fingerprint` gives them. -/
theorem knownFingerprints_normalized :
    ∀ fp ∈ knownFingerprints, fp ≠ "" ∧ Str.toAsciiLowercase (Str.trim fp) = fp := by
  decide

theorem buildFingerprint_of_get {fp : String} (h : o.get "fingerprint" = some fp)
    (hknown : ∀ r, (resolveFingerprint r fp).isSome) : buildFingerprint o = .ok (some fp) := by
  obtain ⟨hne,hnorm⟩ := knownFingerprints_normalized fp (mem_knownFingerprints (hknown 0))
  unfold buildFingerprint
  rw [h]
  simp only [hnorm]
  rw [if_neg hne, if_neg (by simp [Option.isSome_iff_ne_none.mp (hknown 0)])]

/-- The options of a well-formed client configuration are read as that configuration. -/
theorem ClientCfg.fromOptions_options {cfg : ClientCfg} (hcfg : cfg.WellFormed) :
    ClientCfg.fromOptions (.ofPairs cfg.options) = .ok cfg := by
  have hget : ∀ k v, (k,v) ∈ cfg.options → (PluginOptions.ofPairs cfg.options).get k = some v :=
    fun k v => PluginOptions.get_of_mem cfg.nodup_options
  have hno : ∀ k, k ∉ cfg.options.map Prod.fst → (PluginOptions.ofPairs cfg.options).get k = none :=
    fun k => PluginOptions.get_of_notMem
  obtain ⟨sni,path,fastOpen,ech,trust,fingerprint,transport⟩ := cfg
  generalize ho : PluginOptions.ofPairs (options ⟨sni,path,fastOpen,ech,trust,fingerprint,transport⟩) = o
    at hget hno ⊢
  have hsni : required o.get "sni" = .ok sni :=
    required_eq_ok.mpr ⟨hget "sni" _ (by simp [options]),hcfg.sni⟩
  have hpath : EchTunnel.wsPath o.get = .ok path :=
    wsPath_of_get (hget "path" _ (by simp [options])) hcfg.wsPath
  have hopen : parseBool o "fast_open" = .ok (some fastOpen) :=
    parseBool_writeBool (hget "fast_open" _ (by simp [options]))
  have hech : buildClientEch o = .ok ech := by
    unfold buildClientEch
    obtain _ | ⟨configList⟩ | ⟨file⟩ := ech
    · rw [hno "ech_config" (by cases trust <;> cases fingerprint <;> simp [options, ClientTrust.options]),
        hno "ech_config_file" (by cases trust <;> cases fingerprint <;> simp [options, ClientTrust.options])]
    · rw [hget "ech_config" configList (by simp [options, ClientEch.options]), hno "ech_config_file"
        (by cases trust <;> cases fingerprint <;> simp [options, ClientEch.options, ClientTrust.options])]
    · rw [hget "ech_config_file" file (by simp [options, ClientEch.options]), hno "ech_config"
        (by cases trust <;> cases fingerprint <;> simp [options, ClientEch.options, ClientTrust.options])]
  have htrust : buildClientTrust o = .ok trust := by
    unfold buildClientTrust
    cases trust with
    | systemRoots =>
      rw [hno "ca_file" (by obtain _ | _ | _ := ech <;> cases fingerprint <;>
          simp [options, ClientEch.options, ClientTrust.options]),
        parseBool_none (hno "insecure" (by obtain _ | _ | _ := ech <;> cases fingerprint <;>
          simp [options, ClientEch.options, ClientTrust.options]))]
      rfl
    | caFile file =>
      rw [hget "ca_file" file (by simp [options, ClientTrust.options]),
        parseBool_none (hno "insecure" (by obtain _ | _ | _ := ech <;> cases fingerprint <;>
          simp [options, ClientEch.options, ClientTrust.options]))]
      rfl
    | insecureSkipVerify =>
      have hinsecure : parseBool o "insecure" = .ok (some true) :=
        parseBool_writeBool (hget "insecure" "true" (by simp [options, ClientTrust.options]))
      rw [hno "ca_file" (by obtain _ | _ | _ := ech <;> cases fingerprint <;>
          simp [options, ClientEch.options, ClientTrust.options]), hinsecure]
      rfl
  have hfingerprint : buildFingerprint o = .ok fingerprint := by
    cases fingerprint with
    | none =>
      have hnone : o.get "fingerprint" = none := hno _ (by obtain _ | _ | _ := ech <;> cases trust <;>
        simp [options, ClientEch.options, ClientTrust.options])
      unfold buildFingerprint
      rw [hnone]
    | some fp => exact buildFingerprint_of_get (hget _ _ (by simp [options])) (hcfg.fingerprint fp rfl)
  have htransport : buildTransport o = .ok transport := by
    unfold buildTransport
    rw [hget "transport" transport.option (by simp [options])]
    cases transport
    · rfl
    · rfl
  rw [fromOptions, hsni, hpath, hopen, hech, htrust, hfingerprint, htransport]
  rfl

def Config.mode : Config → Mode
  | .server _ => .server
  | .client _ => .client

theorem Config.nodup_options (cfg : Config) : (cfg.options.map Prod.fst).Nodup := by
  cases cfg with
  | server s => exact s.nodup_options
  | client c => exact c.nodup_options

theorem Config.mode_options (cfg : Config) :
    (PluginOptions.ofPairs cfg.options).mode = .ok cfg.mode := by
  unfold PluginOptions.mode
  cases cfg with
  | server s =>
    have hmode : (PluginOptions.ofPairs (Config.server s).options).get "mode" = some "server" :=
      PluginOptions.get_of_mem s.nodup_options (by simp [ServerCfg.options])
    rw [hmode]
    rfl
  | client c =>
    have hmode : (PluginOptions.ofPairs (Config.client c).options).get "mode" = some "client" :=
      PluginOptions.get_of_mem c.nodup_options (by simp [ClientCfg.options])
    rw [hmode]
    rfl

/-- The options of a well-formed configuration are read as that configuration. -/
theorem Config.fromOptions_options {cfg : Config} (hcfg : cfg.WellFormed) :
    Config.fromOptions (.ofPairs cfg.options) = .ok cfg := by
  cases cfg with
  | server s =>
    exact Config.fromOptions_eq_server.mpr ⟨Config.mode_options (.server s),ServerCfg.readFrom_options hcfg⟩
  | client c =>
    refine bind_eq_ok.mpr ⟨.client,Config.mode_options (.client c),?_⟩
    exact bind_eq_ok.mpr ⟨c,ClientCfg.fromOptions_options hcfg,rfl⟩

theorem Config.key_ne_empty (cfg : Config) : ∀ p ∈ cfg.options, p.1 ≠ "" := by
  intro p hp he
  have hmem : "" ∈ cfg.options.map Prod.fst := List.mem_map.mpr ⟨p,hp,he⟩
  obtain ⟨_,_,_,tls,ech,_,_,_,_⟩ | ⟨_,_,_,ech,trust,fingerprint,_⟩ := cfg
  · cases tls <;> cases ech <;>
      simp [options, ServerCfg.options, ServerTls.options, ServerEch.options] at hmem
  · obtain _ | _ | _ := ech <;> cases trust <;> cases fingerprint <;>
      simp [options, ClientCfg.options, ClientEch.options, ClientTrust.options] at hmem

end Written

/-- The environment that `shadowsocks-rust` gives a plugin. -/
def writeEnv (remoteHost localHost : String) (remotePort localPort : Fin 65536) (cfg : Config)
    (key : String) : Option String :=
  [("SS_REMOTE_HOST",remoteHost),("SS_REMOTE_PORT",toString remotePort.val),("SS_LOCAL_HOST",localHost),
    ("SS_LOCAL_PORT",toString localPort.val),
    ("SS_PLUGIN_OPTIONS",writeOptions (cfg.options.map some))].lookup key

theorem writeEnv_readFrom (remoteHost localHost : String) (remotePort localPort : Fin 65536) (cfg : Config) :
    SipEnv.ReadFrom ⟨remoteHost,remotePort,localHost,localPort,.ofPairs cfg.options⟩
      (writeEnv remoteHost localHost remotePort localPort cfg) := by
  have hport : ∀ port : Fin 65536, parseU16 (toString port.val) = some port := by
    intro port
    rw [← parseU16_decimal port, decimal, ← Nat.toList_repr, String.ofList_toList]
    rfl
  constructor
  · rfl
  · exact hport remotePort
  · rfl
  · exact hport localPort
  · have hsome : (cfg.options.map some).reduceOption = cfg.options := by
      induction cfg.options with
      | nil => rfl
      | cons p pairs ih => rw [List.map_cons, List.reduceOption_cons_of_some, ih]
    change PluginOptions.parse (writeOptions (cfg.options.map some)) = _
    rw [parse_writeOptions, hsome]
    rw [hsome]
    exact cfg.key_ne_empty

/-- What a plugin is launched with is well formed, so that its fingerprint is a known one; and every
well-formed configuration, with every pair of hosts and ports, is what the environment that writes it
down launches, with the near side to listen on and the far side to dial. -/
theorem launch_round_trip :
    (∀ var l, launch var = .ok l → l.cfg.WellFormed) ∧
      ∀ cfg : Config, cfg.WellFormed → ∀ remoteHost localHost remotePort localPort,
        let e : SipEnv := ⟨remoteHost,remotePort,localHost,localPort,.ofPairs cfg.options⟩
        launch (writeEnv remoteHost localHost remotePort localPort cfg) =
          .ok ⟨(e.endpoints cfg.mode).1,(e.endpoints cfg.mode).2,cfg⟩ := by
  constructor
  · intro var l h
    obtain ⟨e,mode,cfg,-,-,hc,rfl⟩ := launch_eq_ok.mp h
    exact Config.fromOptions_wellFormed hc
  · intro cfg hcfg remoteHost localHost remotePort localPort
    exact launch_eq_ok.mpr ⟨_,cfg.mode,cfg,writeEnv_readFrom _ _ _ _ cfg,cfg.mode_options,
      Config.fromOptions_options hcfg,rfl⟩

end EchTunnel
