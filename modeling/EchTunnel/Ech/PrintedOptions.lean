import EchTunnel.Config.FromOptions
import EchTunnel.Ech.GenKeys
import EchTunnel.Library.Base64
import EchTunnel.Sip003.Paste

/-! The options that `ech-gen-keys` prints, put behind the options of a server and of a client. -/
namespace EchTunnel
open Wire PluginOptions

inductive ConfigListError
  | decode
  | read (path : String)
  deriving Repr, DecidableEq

section Load
variable (decodeB64 : String → Option Bytes)

/-- `decodeB64` stands for the decoder of the `base64` crate. -/
def decodeConfigListB64 (b64 : String) : Except ConfigListError Bytes :=
  match decodeB64 (Str.trim b64) with
  | none => .error .decode
  | some list => .ok list

def loadClientConfigList (files : String → Option Bytes) : ClientEch → Except ConfigListError Bytes
  | .inline b64 => decodeConfigListB64 decodeB64 b64
  | .file path =>
    match files path with
    | none => .error (.read path)
    | some list => .ok list

end Load

/-- The last lines of the output, with the two fragments it offers. -/
def PrintsFragments (lines : List String) (server client : String) : Prop :=
  ["Server plugin options:","    " ++ server,"Client plugin options:","    " ++ client] <:+ lines

/-- Behind the options of a server the fragment gives exactly this name and this key file. -/
def ServerReads (base fragment publicName keyFile : String) : Prop :=
  ∃ o, parse (paste base fragment) = .ok o ∧ buildServerEch o = .ok (some ⟨publicName,keyFile⟩)

/-- Behind the options of a client the fragment gives exactly this list. -/
def ClientReads (decodeB64 : String → Option Bytes) (files : String → Option Bytes)
    (base fragment : String) (list : Bytes) : Prop :=
  ∃ o ech, parse (paste base fragment) = .ok o ∧ buildClientEch o = .ok (some ech) ∧
    loadClientConfigList decodeB64 files ech = .ok list

section Run
variable {boring : Boring} {publicName out : String} {env : GenKeysEnv}
  {files files' : String → Option Bytes} {lines : List String}

/-- What a successful run leaves behind and prints. -/
theorem echGenKeys_eq_ok (h : echGenKeys boring publicName out env files = (files',.ok lines)) :
    publicName ≠ "" ∧ ∃ (key : EchServerKey) (cfg : Bytes), key.publicName = publicName ∧
      key.marshalConfig boring = .ok cfg ∧ cfg.length < 65536 ∧
      files' (listPath out) = some (toBe 2 cfg.length ++ cfg) ∧
      lines = genKeysLines publicName out (boring.encodeB64 (toBe 2 cfg.length ++ cfg)) := by
  unfold echGenKeys at h
  split at h
  · cases h
  split at h
  · cases h
  rename_i key hkey
  split at h
  · cases h
  split at h
  · cases h
  rename_i list hlist
  split at h
  · cases h
  rename_i files₂ hwritten
  obtain ⟨rfl,hlines⟩ := Prod.mk.inj h
  have hname : publicName ≠ "" := by
    rintro rfl
    simp [EchServerKey.generate] at hkey
  have hfile : files₂ (listPath out) = some list := by
    cases hw : env.listWrite with
    | done =>
      rw [hw] at hwritten
      rw [← (Prod.mk.inj hwritten).1]
      exact Function.update_self ..
    | refused => simp [hw, Files.write] at hwritten
    | torn n => simp [hw, Files.write] at hwritten
  unfold EchServerKey.marshalConfigList at hlist
  split at hlist
  · cases hlist
  rename_i cfg hcfg
  split_ifs at hlist with hlen
  cases hlist
  exact ⟨hname,key,cfg,EchServerKey.generate_ok hkey,hcfg,hlen,hfile,(Except.ok.inj hlines).symm⟩

theorem printsFragments_iff {b64 server client : String} :
    PrintsFragments (genKeysLines publicName out b64) server client ↔
      server = plainOptions [("ech_public_name",publicName),("ech_key",keyPath out)] ∧
        client = plainOptions [("ech_config",b64)] := by
  have hserver : "    ech_public_name=" ++ publicName ++ ";ech_key=" ++ keyPath out =
      "    " ++ plainOptions [("ech_public_name",publicName),("ech_key",keyPath out)] := by
    rw [← String.toList_inj]
    simp [plainOptions, plainPair]
  have hclient : "    ech_config=" ++ b64 = "    " ++ plainOptions [("ech_config",b64)] := by
    rw [← String.toList_inj]
    simp [plainOptions, plainPair]
  have hcancel : ∀ s t : String, "    " ++ s = "    " ++ t ↔ s = t := by
    intro s t
    rw [← String.toList_inj, String.toList_append, String.toList_append, List.append_cancel_left_eq,
      String.toList_inj]
  rw [PrintsFragments, genKeysLines, hserver, hclient, List.suffix_iff_eq_drop]
  simp [hcancel]

end Run

theorem keyPath_ne_empty (out : String) : keyPath out ≠ "" := by
  intro h
  have hl := congrArg (fun s => s.toList.length) h
  unfold keyPath joinPath at hl
  split_ifs at hl <;> simp at hl

/-- The name of the key file adds nothing that would need an escape. -/
theorem plainValue_keyPath {out : String} : PlainValue (keyPath out) ↔ PlainValue out := by
  have hname : PlainValue "ech.key" := by decide
  have hslash : PlainValue "/" := by decide
  unfold keyPath joinPath
  split_ifs
  · rw [plainValue_append, and_iff_left hname]
  · rw [plainValue_append, plainValue_append, and_iff_left hname, and_iff_left hslash]

section Server
variable {o : PluginOptions} {base publicName keyFile : String}

theorem buildServerEch_eq_some : buildServerEch o = .ok (some ⟨publicName,keyFile⟩) ↔
    o.get "ech_key" = some keyFile ∧
      (o.get "ech_public_name").getD DEFAULT_ECH_PUBLIC_NAME = publicName := by
  rw [buildServerEch_eq_ok]
  cases o.get "ech_key" with
  | none => simp
  | some key => simp [and_comm, eq_comm]

/-- The server reads back what is plain, and nothing else. -/
theorem serverReads_iff (hb : parse base = .ok o) (hd : ¬ Dangling base)
    (hname : o.get "ech_public_name" = none) (hkey : o.get "ech_key" = none)
    (hne : publicName ≠ "") (hne' : keyFile ≠ "") :
    ServerReads base (plainOptions [("ech_public_name",publicName),("ech_key",keyFile)]) publicName keyFile ↔
      PlainValue publicName ∧ PlainValue keyFile := by
  have hplain : PlainKey "ech_public_name" ∧ PlainKey "ech_key" := by decide
  have hread := parse_paste_iff hb hd (plainOptions [("ech_public_name",publicName),("ech_key",keyFile)])
    fun get => get "ech_key" = some keyFile ∧
      (get "ech_public_name").getD DEFAULT_ECH_PUBLIC_NAME = publicName
  simp only [ServerReads, buildServerEch_eq_some]
  rw [hread]
  simp only [hname, hkey, Option.or_none]
  constructor
  · rintro ⟨f,hf,hk,hn⟩
    obtain ⟨name,hget⟩ := Option.ne_none_iff_exists'.mp (get_plainOptions_head hplain.1 hf)
    rw [hget, Option.getD_some] at hn
    subst hn
    have hnodup : ([("ech_public_name",name),("ech_key",keyFile)].map Prod.fst).Nodup := by simp
    have hvalues : ∀ p ∈ [("ech_public_name",name),("ech_key",keyFile)], p.2 ≠ "" := by simp [hne, hne']
    have hgets : ∀ p ∈ [("ech_public_name",name),("ech_key",keyFile)], f.get p.1 = some p.2 := by
      simp [hget, hk]
    have h := plainValue_of_parse (List.cons_ne_nil _ _) hnodup hvalues hf hgets
    exact ⟨h _ List.mem_cons_self,h _ (List.mem_cons_of_mem _ List.mem_cons_self)⟩
  · rintro ⟨hn,hk⟩
    refine ⟨_,parse_plainOptions (by simp [hplain]) (by simp [hn, hk]),?_⟩
    rw [get_ofPairs, get_ofPairs]
    simp [List.lookup_cons]

end Server
section Client
variable {o : PluginOptions} {base b64 : String}

theorem buildClientEch_eq_some {ech : ClientEch} (hb : o.get "ech_config" = some b64) :
    buildClientEch o = .ok (some ech) ↔ o.get "ech_config_file" = none ∧ .inline b64 = ech := by
  unfold buildClientEch
  cases o.get "ech_config_file" <;> simp [hb]

/-- The client reads the list back, unless it has been told to read a file. -/
theorem clientReads_iff {decodeB64 : String → Option Bytes} (files : String → Option Bytes) {list : Bytes}
    (hb : parse base = .ok o) (hd : ¬ Dangling base) (hdecode : decodeB64 b64 = some list)
    (halphabet : ∀ c ∈ b64.toList, c ≠ ';' ∧ c ≠ '\\' ∧ Str.isWhitespace c = false) :
    ClientReads decodeB64 files base (plainOptions [("ech_config",b64)]) list ↔
      o.get "ech_config_file" = none := by
  have hplain : PlainKey "ech_config" := by decide
  have hvalue : PlainValue b64 := fun c hc => ⟨(halphabet c hc).1,(halphabet c hc).2.1⟩
  have hparse : parse (plainOptions [("ech_config",b64)]) = .ok (ofPairs [("ech_config",b64)]) :=
    parse_plainOptions (by simp [hplain]) (by simp [hvalue])
  have hload : loadClientConfigList decodeB64 files (.inline b64) = .ok list := by
    rw [loadClientConfigList, decodeConfigListB64, Str.trim_eq fun c hc => (halphabet c hc).2.2, hdecode]
  obtain ⟨o',ho',hget⟩ := (parse_paste_iff hb hd _ fun get =>
    get = fun k => ((ofPairs [("ech_config",b64)]).get k).or (o.get k)).mpr ⟨_,hparse,rfl⟩
  have hconfig : o'.get "ech_config" = some b64 := by
    simp [hget, get_ofPairs]
  have hfile : o'.get "ech_config_file" = o.get "ech_config_file" := by
    simp [hget, get_ofPairs]
  rw [ClientReads, ho', ← hfile]
  simp only [Except.ok.injEq, exists_and_left, exists_eq_left', buildClientEch_eq_some hconfig]
  constructor
  · rintro ⟨_,⟨h,-⟩,-⟩
    exact h
  · exact fun h => ⟨_,⟨h,rfl⟩,hload⟩

end Client

/-- What the command prints can be pasted into the options of a server and of a client exactly when
neither the name nor the directory has a character that the parser gives a meaning to, and the client is
not told to read a file as well. -/
theorem printed_options_paste_back_iff (boring : Boring) (decodeB64 : String → Option Bytes)
    (hdecode : ∀ bs, decodeB64 (boring.encodeB64 bs) = some bs)
    (halphabet : ∀ bs, ∀ c ∈ (boring.encodeB64 bs).toList, c ≠ ';' ∧ c ≠ '\\' ∧ Str.isWhitespace c = false)
    {publicName out : String} {env : GenKeysEnv} {files files' : String → Option Bytes} {lines : List String}
    (hrun : echGenKeys boring publicName out env files = (files',.ok lines)) {server client : String}
    (hprint : PrintsFragments lines server client) {base base' : String} {o o' : PluginOptions}
    (hbase : parse base = .ok o) (hend : ¬ Dangling base) (hname : o.get "ech_public_name" = none)
    (hkey : o.get "ech_key" = none) (hbase' : parse base' = .ok o') (hend' : ¬ Dangling base') :
    (ServerReads base server publicName (keyPath out) ∧
      ∃ (k : EchServerKey) (cfg : Bytes), k.publicName = publicName ∧ k.marshalConfig boring = .ok cfg ∧
        cfg.length < 65536 ∧ files' (listPath out) = some (toBe 2 cfg.length ++ cfg) ∧
        ClientReads decodeB64 files' base' client (toBe 2 cfg.length ++ cfg)) ↔
      PlainValue publicName ∧ PlainValue out ∧ o'.get "ech_config_file" = none := by
  obtain ⟨hne,k,cfg,hk,hcfg,hlen,hfile,rfl⟩ := echGenKeys_eq_ok hrun
  obtain ⟨rfl,rfl⟩ := printsFragments_iff.mp hprint
  have hclient := clientReads_iff files' hbase' hend' (hdecode (toBe 2 cfg.length ++ cfg))
    (halphabet _)
  rw [serverReads_iff hbase hend hname hkey hne (keyPath_ne_empty out), plainValue_keyPath, and_assoc]
  refine and_congr_right fun _ => and_congr_right fun _ => ⟨?_,fun h => ?_⟩
  · rintro ⟨_,cfg',-,-,-,hfile',h⟩
    rw [hfile, Option.some.injEq] at hfile'
    rw [← hfile'] at h
    exact hclient.mp h
  · exact ⟨k,cfg,hk,hcfg,hlen,hfile,hclient.mpr h⟩

/-- The same BoringSSL, with base64 in the standard alphabet. -/
def standardBoring : Boring := { zeroBoring with encodeB64 := fun bs => String.ofList (Base64.encode bs) }

def decodeStandard (s : String) : Option Bytes := Base64.decode s.toList

theorem decodeStandard_encode (bs : Bytes) : decodeStandard (standardBoring.encodeB64 bs) = some bs := by
  rw [decodeStandard, standardBoring, String.toList_ofList, Base64.decode_encode]

theorem standardBoring_alphabet (bs : Bytes) : ∀ c ∈ (standardBoring.encodeB64 bs).toList,
    c ≠ ';' ∧ c ≠ '\\' ∧ Str.isWhitespace c = false := by
  have hall : (Base64.alphabet.all fun c => c ≠ ';' ∧ c ≠ '\\' ∧ Str.isWhitespace c = false) = true := by
    decide
  intro c hc
  rw [standardBoring, String.toList_ofList] at hc
  exact of_decide_eq_true (List.all_eq_true.mp hall c (Base64.encode_mem bs c hc))

/-- A run whose writes succeed. -/
def zeroEnv : GenKeysEnv := ⟨true,some (Vector.replicate 32 0),7,.done,.done⟩

theorem standardBoring_run (out : String) : ∃ files' lines server client,
    echGenKeys standardBoring "a.example" out zeroEnv (fun _ => none) = (files',.ok lines) ∧
      PrintsFragments lines server client :=
  ⟨_,_,_,_,rfl,printsFragments_iff.mpr ⟨rfl,rfl⟩⟩

theorem parse_serverOptions : parse "mode=server;domain=t.x;path=/ws;cert=/c;key=/k" =
    .ok (ofPairs [("mode","server"),("domain","t.x"),("path","/ws"),("cert","/c"),("key","/k")]) := by
  have h : "mode=server;domain=t.x;path=/ws;cert=/c;key=/k" = plainOptions [("mode","server"),
      ("domain","t.x"),("path","/ws"),("cert","/c"),("key","/k")] := by decide
  rw [h, parse_plainOptions (by decide) (by decide)]

theorem parse_clientOptions : parse "mode=client;sni=t.x;path=/ws" =
    .ok (ofPairs [("mode","client"),("sni","t.x"),("path","/ws")]) := by
  have h : "mode=client;sni=t.x;path=/ws" = plainOptions [("mode","client"),("sni","t.x"),("path","/ws")] := by
    decide
  rw [h, parse_plainOptions (by decide) (by decide)]

theorem printed_options_paste_back_iff_dot : ∃ files' lines server client,
    echGenKeys standardBoring "a.example" "." zeroEnv (fun _ => none) = (files',.ok lines) ∧
      PrintsFragments lines server client ∧
      ServerReads "mode=server;domain=t.x;path=/ws;cert=/c;key=/k" server "a.example" (keyPath ".") ∧
      ∃ (k : EchServerKey) (cfg : Bytes), k.publicName = "a.example" ∧
        k.marshalConfig standardBoring = .ok cfg ∧ cfg.length < 65536 ∧
        files' (listPath ".") = some (toBe 2 cfg.length ++ cfg) ∧
        ClientReads decodeStandard files' "mode=client;sni=t.x;path=/ws" client (toBe 2 cfg.length ++ cfg) := by
  obtain ⟨files',lines,server,client,hrun,hprint⟩ := standardBoring_run "."
  refine ⟨files',lines,server,client,hrun,hprint,?_⟩
  exact (printed_options_paste_back_iff standardBoring decodeStandard decodeStandard_encode
    standardBoring_alphabet hrun hprint parse_serverOptions (by decide) (by decide)
    (by decide) parse_clientOptions (by decide)).mpr
      ⟨by decide,by decide,by decide⟩

/-- A path with a `;` in it is cut when it is pasted. -/
theorem printed_options_cut : ∃ files' lines server client o,
    echGenKeys standardBoring "a.example" "/a;b" zeroEnv (fun _ => none) = (files',.ok lines) ∧
      PrintsFragments lines server client ∧
      parse "mode=server;domain=t.x;path=/ws;cert=/c;key=/k" = .ok o ∧
      ¬ Dangling "mode=server;domain=t.x;path=/ws;cert=/c;key=/k" ∧
      o.get "ech_public_name" = none ∧ o.get "ech_key" = none ∧
      ¬ ServerReads "mode=server;domain=t.x;path=/ws;cert=/c;key=/k" server "a.example" (keyPath "/a;b") := by
  obtain ⟨files',lines,server,client,hrun,hprint⟩ := standardBoring_run "/a;b"
  have hend : ¬ Dangling "mode=server;domain=t.x;path=/ws;cert=/c;key=/k" := by decide
  refine ⟨files',lines,server,client,_,hrun,hprint,parse_serverOptions,hend,by decide,
    by decide,?_⟩
  obtain ⟨-,k,cfg,-,-,-,-,rfl⟩ := echGenKeys_eq_ok hrun
  obtain ⟨rfl,-⟩ := printsFragments_iff.mp hprint
  rw [serverReads_iff parse_serverOptions hend (by decide) (by decide) (by decide)
    (keyPath_ne_empty _)]
  decide

end EchTunnel
