import EchTunnel.Ech.KeyFile

/-! The `ech-gen-keys` command of `main.rs`: a key and the config list that belongs to it, written to two
files one after the other. -/
namespace EchTunnel
open Wire

def MAX_NAME_LENGTH : ℕ := 0

/-- What BoringSSL and the base64 encoder answer. -/
structure Boring where
  /-- `EVP_HPKE_KEY_init` takes the private key. -/
  hpkeKeyInit : Bytes → Bool
  /-- `SSL_marshal_ech_config`, which refuses names it considers invalid. -/
  marshalEchConfig : Byte → Bytes → String → ℕ → Option Bytes
  encodeB64 : Bytes → String

namespace EchServerKey

/-- `generate`; `drawn` is the private key if BoringSSL could make one, `configId` the random id. -/
def generate (publicName : String) (drawn : Option (Vector Byte X25519_PRIVATE_KEY_LEN))
    (configId : Byte) : Except EchError EchServerKey :=
  if publicName = "" then .error .emptyPublicName
  else match drawn with
    | none => .error .generate
    | some key => .ok ⟨configId,publicName,key.toList,key.length_toList⟩

variable (boring : Boring)

def marshalConfig (k : EchServerKey) : Except EchError Bytes :=
  if ¬ boring.hpkeKeyInit k.privateKey then .error .keyInit
  else if '\x00' ∈ k.publicName.toList then .error .publicNameHasNul
  else match boring.marshalEchConfig k.configId k.privateKey k.publicName MAX_NAME_LENGTH with
    | none => .error .marshal
    | some cfg => .ok cfg

/-- The config with its 16-bit length in front. -/
def marshalConfigList (k : EchServerKey) : Except EchError Bytes :=
  match k.marshalConfig boring with
  | .error e => .error e
  | .ok cfg => if cfg.length < 65536 then .ok (toBe 2 cfg.length ++ cfg) else .error .configTooLarge

end EchServerKey

/-- `Path::join` with a file name. -/
def joinPath (dir name : String) : String :=
  if dir = "" ∨ dir.toList.getLast? = some '/' then dir ++ name else dir ++ "/" ++ name

def keyPath (out : String) : String := joinPath out "ech.key"
def listPath (out : String) : String := joinPath out "ech.config_list"

/-- How the steps of the command that depend on its surroundings come out. -/
structure GenKeysEnv where
  createDir : Bool
  drawn : Option (Vector Byte X25519_PRIVATE_KEY_LEN)
  configId : Byte
  keyWrite : Files.Write
  listWrite : Files.Write

/-- What the command prints. -/
def genKeysLines (publicName out b64 : String) : List String :=
  ["Wrote " ++ keyPath out,"Wrote " ++ listPath out,"","ECHConfigList (base64):",b64,"",
    "Server plugin options:","    ech_public_name=" ++ publicName ++ ";ech_key=" ++ keyPath out,
    "Client plugin options:","    ech_config=" ++ b64]

/-- The files after the command, and the lines it prints or the error it ends with. -/
def echGenKeys (boring : Boring) (publicName out : String) (env : GenKeysEnv)
    (files : String → Option Bytes) : (String → Option Bytes) × Except EchError (List String) :=
  if ¬ env.createDir then (files,.error .createDir)
  else match EchServerKey.generate publicName env.drawn env.configId with
    | .error e => (files,.error e)
    | .ok key =>
      match key.writeTo files (keyPath out) env.keyWrite with
      | (files,.error e) => (files,.error e)
      | (files,.ok ()) =>
        match key.marshalConfigList boring with
        | .error e => (files,.error e)
        | .ok list =>
          match Files.write files (listPath out) list env.listWrite with
          | (files,false) => (files,.error (.writeFile (listPath out)))
          | (files,true) => (files,.ok (genKeysLines publicName out (boring.encodeB64 list)))

/-- The directory holds a key and the config list of that key. -/
def HoldsPair (boring : Boring) (out : String) (files : String → Option Bytes)
    (k : EchServerKey) : Prop :=
  ∃ buf list, k.buf = .ok buf ∧ k.marshalConfigList boring = .ok list ∧
    files (keyPath out) = some buf ∧ files (listPath out) = some list

/-- The directory holds what it held, or a key and its config list. -/
def AllOrNothing (boring : Boring) (out : String) (files files' : String → Option Bytes) : Prop :=
  files' (keyPath out) = files (keyPath out) ∧ files' (listPath out) = files (listPath out) ∨
    ∃ k, HoldsPair boring out files' k

/-- The command fails before it opens the key file, or the key file is written, the name marshals, and
the list is written too or is there already. -/
def GenKeysEnv.Safe (env : GenKeysEnv) (boring : Boring) (publicName out : String)
    (files : String → Option Bytes) : Prop :=
  env.createDir = false ∨
    ∀ key, EchServerKey.generate publicName env.drawn env.configId = .ok key →
      env.keyWrite = .refused ∨ 65535 < (utf8 publicName).length ∨
        env.keyWrite = .done ∧ ∃ list, key.marshalConfigList boring = .ok list ∧
          (env.listWrite = .done ∨ env.listWrite = .refused ∧ files (listPath out) = some list)

theorem keyPath_ne_listPath (out : String) : keyPath out ≠ listPath out := by
  intro h
  have hl := congrArg String.toList h
  unfold keyPath listPath joinPath at hl
  split_ifs at hl
  · rw [String.toList_append, String.toList_append] at hl
    exact absurd (List.append_cancel_left hl) (by decide)
  · simp only [String.toList_append] at hl
    exact absurd (List.append_cancel_left hl) (by decide)

namespace EchServerKey

theorem generate_ok {publicName : String} {drawn : Option (Vector Byte X25519_PRIVATE_KEY_LEN)}
    {configId : Byte} {key : EchServerKey} (h : generate publicName drawn configId = .ok key) :
    key.publicName = publicName := by
  unfold generate at h
  split_ifs at h
  cases drawn with
  | none => cases h
  | some _ => cases h; rfl

theorem buf_injective {k k' : EchServerKey} {b : Bytes} (h : k.buf = .ok b) (h' : k'.buf = .ok b) :
    k = k' := by
  have he := parse_eq_ok_iff.mpr h
  rw [parse_eq_ok_iff.mpr h'] at he
  cases he
  rfl

theorem buf_ne_nil {k : EchServerKey} {b : Bytes} (h : k.buf = .ok b) : b ≠ [] := by
  unfold buf at h
  simp only at h
  split_ifs at h
  cases h
  exact List.cons_ne_nil _ _

theorem buf_length {k : EchServerKey} {b : Bytes} (h : k.buf = .ok b) :
    b.length = 35 + fromBe ((b.drop 1).take 2) :=
  (parse_isOk_iff.mp ⟨k,parse_eq_ok_iff.mpr h⟩).1

/-- A key file that breaks off is no key file. -/
theorem buf_not_torn {k k' : EchServerKey} {b part : Bytes} (h : k.buf = .ok b) (hp : part <+: b)
    (hlt : part.length < b.length) : k'.buf ≠ .ok part := by
  intro h'
  obtain ⟨t,rfl⟩ := hp
  have hl := buf_length h
  have hl' := buf_length h'
  -- both begin with the length of the name
  have hhead : ((part ++ t).drop 1).take 2 = (part.drop 1).take 2 := by
    rw [List.drop_append_of_le_length (by omega), List.take_append_of_le_length]
    rw [List.length_drop]
    omega
  rw [hhead] at hl
  omega

theorem marshalConfigList_ne_nil {boring : Boring} {k : EchServerKey} {list : Bytes}
    (h : k.marshalConfigList boring = .ok list) : list ≠ [] := by
  unfold marshalConfigList at h
  split at h
  · cases h
  · split_ifs at h
    cases h
    exact List.cons_ne_nil _ _

end EchServerKey
open EchServerKey

section GenKeys
variable {boring : Boring} {publicName out : String} {env : GenKeysEnv}
  {files files' : String → Option Bytes}

/-- Where there is a key file afterwards, only a pair will do. -/
theorem allOrNothing_iff
    (hdir : (∃ k, HoldsPair boring out files k) ∨ files (keyPath out) = none ∧ files (listPath out) = none)
    {b : Bytes} (hb : files' (keyPath out) = some b) :
    AllOrNothing boring out files files' ↔ ∃ k, HoldsPair boring out files' k := by
  refine ⟨?_,Or.inr⟩
  rintro (⟨hk,hl⟩ | h)
  · obtain ⟨k,buf,list,hbuf,hlist,hk',hl'⟩ | ⟨hnone,-⟩ := hdir
    · exact ⟨k,buf,list,hbuf,hlist,hk.trans hk',hl.trans hl'⟩
    · rw [hk, hnone] at hb
      contradiction
  · exact h

theorem holdsPair_iff {k : EchServerKey} {b : Bytes} (hk : k.buf = .ok b)
    (hb : files' (keyPath out) = some b) : (∃ k', HoldsPair boring out files' k') ↔
      ∃ list, k.marshalConfigList boring = .ok list ∧ files' (listPath out) = some list := by
  constructor
  · rintro ⟨k',b',list,hk',hlist,hb',hl⟩
    rw [hb] at hb'
    cases hb'
    obtain rfl := buf_injective hk hk'
    exact ⟨list,hlist,hl⟩
  · rintro ⟨list,hlist,hl⟩
    exact ⟨k,b,list,hk,hlist,hb,hl⟩

theorem not_allOrNothing_torn
    (hdir : (∃ k, HoldsPair boring out files k) ∨ files (keyPath out) = none ∧ files (listPath out) = none)
    {key : EchServerKey} {buf : Bytes} (hbuf : key.buf = .ok buf) (n : ℕ) :
    ¬ AllOrNothing boring out files (Files.write files (keyPath out) buf (.torn n)).1 := by
  obtain ⟨part,hpart,hp,hlt⟩ := Files.write_torn files (keyPath out) buf n
  rw [allOrNothing_iff hdir hpart]
  rintro ⟨k,b,_,hk,-,hb,-⟩
  rw [hpart, Option.some.injEq] at hb
  exact buf_not_torn hbuf hp (hlt (buf_ne_nil hbuf)) (hb ▸ hk)

/-- What the write of the config list makes of a new key. -/
theorem allOrNothing_list
    (hdir : (∃ k, HoldsPair boring out files k) ∨ files (keyPath out) = none ∧ files (listPath out) = none)
    {key : EchServerKey} {buf list : Bytes} (hbuf : key.buf = .ok buf)
    (hlist : key.marshalConfigList boring = .ok list) (w : Files.Write) :
    AllOrNothing boring out files
        (Files.write (Function.update files (keyPath out) (some buf)) (listPath out) list w).1 ↔
      w = .done ∨ w = .refused ∧ files (listPath out) = some list := by
  have hne := keyPath_ne_listPath out
  have hkey : (Files.write (Function.update files (keyPath out) (some buf)) (listPath out) list w).1
      (keyPath out) = some buf := by
    rw [Files.write_of_ne hne, Function.update_self]
  rw [allOrNothing_iff hdir hkey, holdsPair_iff hbuf hkey]
  simp only [hlist, Except.ok.injEq, exists_eq_left']
  cases w with
  | refused =>
    have hold : (Files.write (Function.update files (keyPath out) (some buf)) (listPath out) list
        .refused).1 (listPath out) = files (listPath out) := Function.update_of_ne hne.symm _ _
    simp [hold]
  | torn n =>
    obtain ⟨part,hpart,-,hlt⟩ := Files.write_torn (Function.update files (keyPath out) (some buf))
      (listPath out) list n
    refine iff_of_false (fun h => ?_) (by simp)
    rw [hpart, Option.some.injEq] at h
    have := hlt (marshalConfigList_ne_nil hlist)
    rw [h] at this
    omega
  | done => simp

/-- The command is all or nothing exactly when it fails before it opens the key file or not at all
(a list that cannot be opened but is there already apart). -/
theorem gen_keys_all_or_nothing (boring : Boring) (publicName out : String) (env : GenKeysEnv)
    (files : String → Option Bytes)
    (hdir : (∃ k, HoldsPair boring out files k) ∨
      files (keyPath out) = none ∧ files (listPath out) = none) :
    AllOrNothing boring out files (echGenKeys boring publicName out env files).1 ↔
      env.Safe boring publicName out files := by
  have hsame : AllOrNothing boring out files files := Or.inl ⟨rfl,rfl⟩
  unfold echGenKeys GenKeysEnv.Safe
  cases hcreate : env.createDir with
  | false => simp [hsame]
  | true =>
    cases hgen : generate publicName env.drawn env.configId with
    | error e => simp [hsame]
    | ok key =>
      have hname := generate_ok hgen
      simp only [not_true_eq_false, if_false, Except.ok.injEq, forall_eq', Bool.true_eq_false, false_or]
      by_cases hlong : 65535 < (utf8 publicName).length
      · rw [← hname] at hlong
        simp only [writeTo_tooLong key files (keyPath out) hlong, ← hname, hlong, true_or, or_true,
          iff_true]
        exact hsame
      · obtain ⟨buf,hbuf⟩ : ∃ buf, key.buf = .ok buf := ⟨_,if_pos (by rw [hname]; omega)⟩
        cases hkw : env.keyWrite with
        | refused =>
          simp only [writeTo, hbuf, Files.write, true_or, iff_true]
          exact hsame
        | torn n =>
          simp only [writeTo, hbuf]
          refine iff_of_false (not_allOrNothing_torn hdir hbuf n) ?_
          simp [hlong]
        | done =>
          simp only [writeTo_done key files (keyPath out) hbuf]
          cases hlist : key.marshalConfigList boring with
          | error e =>
            refine iff_of_false (fun h => ?_) (by simp [hlong])
            rw [allOrNothing_iff hdir (Function.update_self ..),
              holdsPair_iff hbuf (Function.update_self ..), hlist] at h
            obtain ⟨_,h,-⟩ := h
            cases h
          | ok list =>
            have hiff := allOrNothing_list hdir hbuf hlist env.listWrite
            cases hw : env.listWrite <;> simp [hw, Files.write, hlong] at hiff ⊢ <;> exact hiff

/-- BoringSSL where the private key is all zeros, and on names with a blank. -/
def zeroBoring : Boring where
  hpkeKeyInit _ := true
  marshalEchConfig configId _ publicName maxLen :=
    if ' ' ∈ publicName.toList then none
    else some ([0xfe,0x0d] ++ block 2 ([configId,0,0x20] ++ block 2
      [0x2f,0xe5,0x7d,0xa3,0x47,0xcd,0x62,0x43,0x15,0x28,0xda,0xac,0x5f,0xbb,0x29,0x07,
        0x30,0xff,0xf6,0x84,0xaf,0xc4,0xcf,0xc2,0xed,0x90,0x99,0x5f,0x58,0xcb,0x3b,0x74] ++
      block 2 [0,1,0,1,0,1,0,3] ++ toBe 1 maxLen ++ block 1 (utf8 publicName) ++ [0,0]))
  encodeB64 _ := ""

def zeroKey : EchServerKey := ⟨7,"a.example",List.replicate 32 0,rfl⟩

/-- What the command has left in the working directory for this key. -/
def zeroFiles : String → Option Bytes :=
  (echGenKeys zeroBoring "a.example" "." ⟨true,some (Vector.replicate 32 0),7,.done,.done⟩ fun _ => none).1

theorem zeroFiles_holdsPair : HoldsPair zeroBoring "." zeroFiles zeroKey :=
  ⟨_,_,rfl,rfl,rfl,rfl⟩

theorem gen_keys_all_or_nothing_zero :
    AllOrNothing zeroBoring "." (fun _ => none) zeroFiles :=
  (gen_keys_all_or_nothing zeroBoring "a.example" "." ⟨true,some (Vector.replicate 32 0),7,.done,.done⟩
    (fun _ => none) (Or.inr ⟨rfl,rfl⟩)).mpr
      (Or.inr fun _ h => by cases h; exact Or.inr (Or.inr ⟨rfl,_,rfl,Or.inl rfl⟩))

/-- A name that BoringSSL refuses is found once the old key is gone. -/
theorem gen_keys_blank_in_name :
    HoldsPair zeroBoring "." zeroFiles zeroKey ∧
      ¬ AllOrNothing zeroBoring "." zeroFiles (echGenKeys zeroBoring "a b" "."
        ⟨true,some (Vector.replicate 32 1),8,.done,.done⟩ zeroFiles).1 := by
  refine ⟨zeroFiles_holdsPair,fun h => ?_⟩
  have hkey : EchServerKey.buf ⟨8,"a b",List.replicate 32 1,rfl⟩ = .ok _ := rfl
  rw [allOrNothing_iff (Or.inl ⟨_,zeroFiles_holdsPair⟩) (b := ([8,0,3,97,32,98] ++ List.replicate 32 1)) rfl,
    holdsPair_iff hkey rfl] at h
  obtain ⟨_,h,-⟩ := h
  cases h

end GenKeys
end EchTunnel
