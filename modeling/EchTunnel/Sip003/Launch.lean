import EchTunnel.Config.FromOptions
import EchTunnel.Library.NetAddr

/-! `SipEnv` of `sip003.rs` and the start of `main`: the addresses that a plugin listens on and dials, and
what becomes of the strings that carry them. -/
namespace EchTunnel
open NetAddr

/-- `str::parse::<u16>`. -/
def parseU16 (s : String) : Option (Fin 65536) :=
  let digits := if s.toList.head? = some '+' then s.toList.tail else s.toList
  parse (readNumber 65536 10 none true) digits

inductive SipError
  | missing (key : String)
  | notPort (key : String)
  | options (e : PluginOptionsError)
  deriving Repr, DecidableEq

structure SipEnv where
  remoteHost : String
  remotePort : Fin 65536
  localHost : String
  localPort : Fin 65536
  options : PluginOptions

/-- A bare IPv6 address gets brackets. -/
def joinHostPort (host : String) (port : Fin 65536) : String :=
  if (parse readIpv6Addr host.toList).isSome then "[" ++ host ++ "]:" ++ toString port.val
  else host ++ ":" ++ toString port.val

namespace SipEnv

def required (env : String → Option String) (key : String) : Except SipError String :=
  match env key with
  | some v => .ok v
  | none => .error (.missing key)

def requiredPort (env : String → Option String) (key : String) : Except SipError (Fin 65536) := do
  match parseU16 (← required env key) with
  | some port => return port
  | none => throw (.notPort key)

def pluginOptions (env : String → Option String) : Except SipError PluginOptions :=
  match env "SS_PLUGIN_OPTIONS" with
  | some s => (PluginOptions.parse s).mapError .options
  | none => .ok ⟨∅⟩

def fromMap (env : String → Option String) : Except SipError SipEnv := do
  let remoteHost ← required env "SS_REMOTE_HOST"
  let remotePort ← requiredPort env "SS_REMOTE_PORT"
  let localHost ← required env "SS_LOCAL_HOST"
  let localPort ← requiredPort env "SS_LOCAL_PORT"
  let options ← pluginOptions env
  return ⟨remoteHost,remotePort,localHost,localPort,options⟩

def envKeys : List String :=
  ["SS_REMOTE_HOST","SS_REMOTE_PORT","SS_LOCAL_HOST","SS_LOCAL_PORT","SS_PLUGIN_OPTIONS"]

/-- `var` is `std::env::var`. -/
def fromEnv (var : String → Option String) : Except SipError SipEnv :=
  fromMap fun key => if key ∈ envKeys then var key else none

/-- Where the plugin listens, and what it dials. -/
def endpoints (e : SipEnv) (mode : Mode) : String × String :=
  match mode with
  | .server => (joinHostPort e.remoteHost e.remotePort,joinHostPort e.localHost e.localPort)
  | .client => (joinHostPort e.localHost e.localPort,joinHostPort e.remoteHost e.remotePort)

end SipEnv

inductive LaunchError
  | sip (e : SipError)
  | config (e : ConfigError)
  deriving Repr, DecidableEq

deriving instance DecidableEq for Config

structure Launched where
  listen : String
  upstream : String
  cfg : Config
  deriving DecidableEq

/-- `main` without a subcommand, up to the call of `run`. -/
def launch (var : String → Option String) : Except LaunchError Launched := do
  let sip ← (SipEnv.fromEnv var).mapError .sip
  let mode ← sip.options.mode.mapError .config
  let cfg ← (Config.fromOptions sip.options).mapError .config
  let (listen,upstream) := sip.endpoints mode
  return ⟨listen,upstream,cfg⟩

/-- The address that `create_listener` binds; the UDP socket of `h3_server.rs` is bound to the same. -/
def listenAddr (addr : String) : Option NetAddr.SocketAddr := parseSocketAddr addr.toList

/-- What a string given to `connect` or `lookup_host` stands for. -/
inductive Target
  | addr (a : NetAddr.SocketAddr)
  | lookup (host : String) (port : Fin 65536)
  deriving Repr, DecidableEq

/-- `str::rsplit_once`. -/
def rsplitOnce (s : List Char) (delim : Char) : Option (List Char × List Char) :=
  if delim ∈ s then
    some ((s.reverse.dropWhile (· ≠ delim)).tail.reverse,(s.reverse.takeWhile (· ≠ delim)).reverse)
  else none

/-- `ToSocketAddrs` of `str`, up to the question for the addresses of a name. -/
def dialTarget (addr : String) : Option Target :=
  match parseSocketAddr addr.toList with
  | some a => some (.addr a)
  | none => do
    let (host,port) ← rsplitOnce addr.toList ':'
    let port ← parseU16 (String.ofList port)
    return .lookup (String.ofList host) port

/-- The address that a host stands for on its own, if it is no name. -/
def ipHost (host : String) : Option IpHost :=
  ((parse readIpv6Addr host.toList).map .ofIpv6).or (parseHost host.toList)

section Join
variable (host : String) (port : Fin 65536)

theorem toList_joinHostPort : (joinHostPort host port).toList =
    (if (parse readIpv6Addr host.toList).isSome then '[' :: (host.toList ++ [']']) else host.toList) ++
      ':' :: decimal port := by
  unfold joinHostPort
  split_ifs
  · simp [decimal]
  · simp [decimal]

/-- No host makes the joined string the address of another one, or moves its port. -/
theorem listenAddr_joinHostPort :
    listenAddr (joinHostPort host port) = (ipHost host).map (IpHost.withPort port) := by
  rw [listenAddr, toList_joinHostPort, parseSocketAddr_port, ipHost]
  cases h : parse readIpv6Addr host.toList with
  | none => simp
  | some ip => simp [parseHost_bracketed h]

theorem rsplitOnce_append {s t : List Char} {delim : Char} (ht : delim ∉ t) :
    rsplitOnce (s ++ delim :: t) delim = some (s,t) := by
  have hall : ∀ c ∈ t.reverse, decide (c ≠ delim) = true := by
    intro c hc
    refine decide_eq_true ?_
    intro he
    exact ht (he ▸ List.mem_reverse.mp hc)
  have hrev : (s ++ delim :: t).reverse = t.reverse ++ delim :: s.reverse := by simp
  rw [rsplitOnce, if_pos (by simp), hrev, List.dropWhile_append_of_pos hall,
    List.takeWhile_append_of_pos hall]
  simp

theorem parseU16_decimal : parseU16 (String.ofList (decimal port)) = some port := by
  have hplus : (decimal port).head? ≠ some '+' := by
    intro h
    have hdigit := decimal_isDigit (List.mem_of_mem_head? h)
    cases hdigit
  rw [parseU16, String.toList_ofList, if_neg hplus, parse_eq_some]
  exact readNumber_decimal port

/-- A name is looked up as it is, whatever it is made of. -/
theorem dialTarget_joinHostPort : dialTarget (joinHostPort host port) =
    some ((ipHost host).elim (.lookup host port) fun ip => .addr (ip.withPort port)) := by
  have hparse := listenAddr_joinHostPort host port
  rw [listenAddr] at hparse
  rw [dialTarget, hparse]
  cases hip : ipHost host with
  | some ip => rfl
  | none =>
    have hbare : (parse readIpv6Addr host.toList).isSome = false := by
      rw [ipHost, Option.or_eq_none_iff, Option.map_eq_none_iff] at hip
      rw [hip.1]
      rfl
    rw [toList_joinHostPort, hbare, if_neg (by decide), Option.map_none,
      rsplitOnce_append (notMem_decimal rfl port)]
    simp [parseU16_decimal, String.ofList_toList]

end Join

/-- What the environment says. -/
structure SipEnv.ReadFrom (e : SipEnv) (var : String → Option String) : Prop where
  remoteHost : var "SS_REMOTE_HOST" = some e.remoteHost
  remotePort : (var "SS_REMOTE_PORT").bind parseU16 = some e.remotePort
  localHost : var "SS_LOCAL_HOST" = some e.localHost
  localPort : (var "SS_LOCAL_PORT").bind parseU16 = some e.localPort
  options : PluginOptions.parse ((var "SS_PLUGIN_OPTIONS").getD "") = .ok e.options

namespace SipEnv
variable {env : String → Option String}

theorem required_eq_ok {key v : String} : required env key = .ok v ↔ env key = some v := by
  unfold required
  cases env key <;> simp

theorem requiredPort_eq_ok {key : String} {port : Fin 65536} :
    requiredPort env key = .ok port ↔ (env key).bind parseU16 = some port := by
  rw [requiredPort, bind_eq_ok]
  simp only [required_eq_ok]
  cases env key with
  | none => simp
  | some v =>
    simp only [Option.some.injEq, exists_eq_left', Option.bind_some]
    cases parseU16 v with
    | none => simp [throw, throwThe, MonadExceptOf.throw]
    | some p => simp [pure, Except.pure]

theorem pluginOptions_eq_ok {o : PluginOptions} :
    pluginOptions env = .ok o ↔ PluginOptions.parse ((env "SS_PLUGIN_OPTIONS").getD "") = .ok o := by
  cases hs : env "SS_PLUGIN_OPTIONS" with
  | none =>
    have hempty : PluginOptions.parse "" = .ok ⟨∅⟩ := rfl
    simp only [pluginOptions, hs, Option.getD_none, hempty, Except.ok.injEq]
  | some s =>
    simp only [pluginOptions, hs, Option.getD_some, mapError_eq_ok]

theorem fromMap_eq_ok {e : SipEnv} : fromMap env = .ok e ↔ e.ReadFrom env := by
  constructor
  · intro h
    obtain ⟨remoteHost,hrh,h⟩ := bind_eq_ok.mp h
    obtain ⟨remotePort,hrp,h⟩ := bind_eq_ok.mp h
    obtain ⟨localHost,hlh,h⟩ := bind_eq_ok.mp h
    obtain ⟨localPort,hlp,h⟩ := bind_eq_ok.mp h
    obtain ⟨options,ho,h⟩ := bind_eq_ok.mp h
    cases h
    exact ⟨required_eq_ok.mp hrh,requiredPort_eq_ok.mp hrp,required_eq_ok.mp hlh,requiredPort_eq_ok.mp hlp,
      pluginOptions_eq_ok.mp ho⟩
  · intro h
    rw [fromMap, required_eq_ok.mpr h.remoteHost, requiredPort_eq_ok.mpr h.remotePort,
      required_eq_ok.mpr h.localHost, requiredPort_eq_ok.mpr h.localPort, pluginOptions_eq_ok.mpr h.options]
    rfl

theorem fromEnv_eq_ok {var : String → Option String} {e : SipEnv} :
    fromEnv var = .ok e ↔ e.ReadFrom var := by
  have hkey : ∀ key ∈ envKeys, (if key ∈ envKeys then var key else none) = var key :=
    fun key hkey => if_pos hkey
  simp only [envKeys, List.forall_mem_cons] at hkey
  obtain ⟨hrh,hrp,hlh,hlp,ho,-⟩ := hkey
  rw [fromEnv, fromMap_eq_ok]
  constructor
  · rintro ⟨rh,rp,lh,lp,o⟩
    exact ⟨hrh.symm.trans rh,hrp ▸ rp,hlh.symm.trans lh,hlp ▸ lp,ho ▸ o⟩
  · rintro ⟨rh,rp,lh,lp,o⟩
    exact ⟨hrh.trans rh,hrp.symm ▸ rp,hlh.trans lh,hlp.symm ▸ lp,ho.symm ▸ o⟩

end SipEnv

theorem launch_eq_ok {var : String → Option String} {l : Launched} : launch var = .ok l ↔
    ∃ (e : SipEnv) (mode : Mode) (cfg : Config), e.ReadFrom var ∧ e.options.mode = .ok mode ∧ Config.fromOptions e.options = .ok cfg ∧
      l = ⟨(e.endpoints mode).1,(e.endpoints mode).2,cfg⟩ := by
  constructor
  · intro h
    obtain ⟨e,he,h⟩ := bind_eq_ok.mp h
    obtain ⟨mode,hm,h⟩ := bind_eq_ok.mp h
    obtain ⟨cfg,hc,h⟩ := bind_eq_ok.mp h
    cases h
    exact ⟨e,mode,cfg,SipEnv.fromEnv_eq_ok.mp (mapError_eq_ok.mp he),mapError_eq_ok.mp hm,
      mapError_eq_ok.mp hc,rfl⟩
  · rintro ⟨e,mode,cfg,he,hm,hc,rfl⟩
    rw [launch, SipEnv.fromEnv_eq_ok.mpr he]
    refine bind_eq_ok.mpr ⟨e,rfl,bind_eq_ok.mpr ⟨mode,mapError_eq_ok.mpr hm,?_⟩⟩
    exact bind_eq_ok.mpr ⟨cfg,mapError_eq_ok.mpr hc,rfl⟩

/-- The host and the port of the side that the plugin listens on, and of the side it dials. -/
def SipEnv.near (e : SipEnv) : Mode → String × Fin 65536
  | .server => (e.remoteHost,e.remotePort)
  | .client => (e.localHost,e.localPort)

def SipEnv.far (e : SipEnv) : Mode → String × Fin 65536
  | .server => (e.localHost,e.localPort)
  | .client => (e.remoteHost,e.remotePort)

/-- A plugin that starts plays the part that its options name. It listens on the address that the host of
its near side stands for, at that port, and on no other one; if the host is no address, it does not
listen. It dials the address that the host of its far side stands for, and else looks that host up as it
is written. -/
theorem launch_addresses {var : String → Option String} {l : Launched} (h : launch var = .ok l) :
    ∃ (e : SipEnv) (mode : Mode), e.ReadFrom var ∧ e.options.mode = .ok mode ∧
      (mode = .server ↔ ∃ cfg, l.cfg = .server cfg) ∧
      listenAddr l.listen = (ipHost (e.near mode).1).map (IpHost.withPort (e.near mode).2) ∧
      dialTarget l.upstream = some ((ipHost (e.far mode).1).elim
        (.lookup (e.far mode).1 (e.far mode).2) fun ip => .addr (ip.withPort (e.far mode).2)) := by
  obtain ⟨e,mode,cfg,he,hm,hc,rfl⟩ := launch_eq_ok.mp h
  refine ⟨e,mode,he,hm,?_,?_⟩
  · obtain ⟨mode',hm',hc⟩ := bind_eq_ok.mp hc
    obtain rfl : mode = mode' := Except.ok.inj (hm.symm.trans hm')
    cases mode with
    | server =>
      obtain ⟨s,-,hs⟩ := bind_eq_ok.mp hc
      cases hs
      exact iff_of_true rfl ⟨s,rfl⟩
    | client =>
      obtain ⟨c,-,hs⟩ := bind_eq_ok.mp hc
      cases hs
      exact iff_of_false (by decide) fun ⟨_,h⟩ => by cases h
  · cases mode with
    | server => exact ⟨listenAddr_joinHostPort _ _,dialTarget_joinHostPort _ _⟩
    | client => exact ⟨listenAddr_joinHostPort _ _,dialTarget_joinHostPort _ _⟩

/-- A server on all addresses, with the host that `shadowsocks-rust` exports for it. -/
def wildcardEnv (key : String) : Option String :=
  [("SS_REMOTE_HOST","::"),("SS_REMOTE_PORT","443"),("SS_LOCAL_HOST","localhost"),("SS_LOCAL_PORT","+9000"),
    ("SS_PLUGIN_OPTIONS","mode=server;domain=example.org;path=/ws;cert=c;key=k")].lookup key

theorem launch_addresses_wildcard : ∃ l, launch wildcardEnv = .ok l ∧
    ∃ (e : SipEnv) (mode : Mode), e.ReadFrom wildcardEnv ∧ e.options.mode = .ok mode ∧
      (mode = .server ↔ ∃ cfg, l.cfg = .server cfg) ∧
      listenAddr l.listen = (ipHost (e.near mode).1).map (IpHost.withPort (e.near mode).2) ∧
      dialTarget l.upstream = some ((ipHost (e.far mode).1).elim
        (.lookup (e.far mode).1 (e.far mode).2) fun ip => .addr (ip.withPort (e.far mode).2)) := by
  have h : launch wildcardEnv = .ok ⟨"[::]:443","localhost:9000",.server ⟨"example.org","/ws",false,
      .static "c" "k",none,true,true,"nginx/1.24.0",false⟩⟩ := by decide +kernel
  exact ⟨_,h,launch_addresses h⟩

end EchTunnel
