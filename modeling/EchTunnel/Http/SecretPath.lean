import Mathlib.Data.List.TakeWhile
import EchTunnel.H3.Client
import EchTunnel.Http.Request

/-! The secret path as the client sends it and as the two listeners check it. -/
namespace EchTunnel
open Wire

/-- What stands before the query, and before a fragment, which `http::Uri` drops. -/
def pathOf (pathAndQuery : String) : String :=
  String.ofList (pathAndQuery.toList.takeWhile fun c => c ≠ '?' ∧ c ≠ '#')

/-- A request target in its four forms, as `http::Uri` takes them apart. -/
inductive RequestTarget
  | origin (pathAndQuery : String) (rooted : pathAndQuery.toList.head? = some '/')
  | absolute (scheme host pathAndQuery : String) (named : scheme.toList.head? ≠ some '/')
  | authority (host : String) (named : host.toList.head? ≠ some '/')
  | asterisk

namespace RequestTarget

def text : RequestTarget → String
  | .origin pathAndQuery _ => pathAndQuery
  | .absolute scheme host pathAndQuery _ => scheme ++ "://" ++ host ++ pathAndQuery
  | .authority host _ => host
  | .asterisk => "*"

/-- `http::Uri::path()`. -/
def path : RequestTarget → String
  | .origin pathAndQuery _ => pathOf pathAndQuery
  | .absolute _ _ pathAndQuery _ => if pathOf pathAndQuery = "" then "/" else pathOf pathAndQuery
  | .authority .. => ""
  | .asterisk => "*"

end RequestTarget

/-- What ends the authority of a URL. -/
def isDelimiter (c : Char) : Bool := c = '/' || c = '?' || c = '#'

namespace Client

/-- The URL of the tunnel over TCP. -/
def url (cfg : ClientCfg) : String := "wss://" ++ cfg.sni ++ cfg.wsPath

/-- The request target of a URL: what follows the authority, without the fragment. -/
def requestTarget (url : String) : String :=
  let rest := (url.toList.drop "wss://".length).dropWhile fun c => !isDelimiter c
  let target := rest.takeWhile fun c => c ≠ '#'
  if target = [] then "/" else String.ofList target

/-- A request as `client_async` makes it, for a target with this path. -/
def upgradeRequest (host path : String) (key : Bytes) : HttpRequest where
  method := "GET"
  path := path
  headers := [header "host" host,header "connection" "Upgrade",header "upgrade" "websocket",
    header "sec-websocket-version" "13",⟨utf8 "sec-websocket-key",key⟩]

/-- The request of a client that dials over TCP. -/
def tcpRequest (cfg : ClientCfg) (key : Bytes) : HttpRequest :=
  upgradeRequest cfg.sni (pathOf (requestTarget (url cfg))) key

end Client

/-- The TCP listener opens a tunnel for the request. -/
def TcpAdmits (derive : Bytes → Bytes) (cfg : ServerCfg) (req : HttpRequest) : Prop :=
  ∃ response, handleRequest derive cfg req = some ⟨response,true⟩

/-- The HTTP/3 listener opens a tunnel for the headers, when they come in on the stream. -/
def H3Admits (env : ServerEnv) (cfg : ServerCfg) (c : Conn) (sid : ℕ) (list : List Header) : Prop :=
  ∃ s, (Server.handleHeaders env cfg [] c sid list).spawned = c.spawned ++ [s]

/-- A host name, as the option `sni` has to be one. -/
def HostName (sni : String) : Prop := ∀ c ∈ sni.toList, isDelimiter c = false

instance (sni : String) : Decidable (HostName sni) := List.decidableBAll _ _

section Listeners
variable {derive : Bytes → Bytes} {cfg : ServerCfg} {env : ServerEnv} {c : Conn} {sid : ℕ}

/-- A request made by the client's library lacks nothing but perhaps the right path. -/
theorem upgradeRequest_isTunnel (hd : ∀ key, (derive key).all HeaderValue.isValid)
    (host path : String) (key : Bytes) (p : String) :
    (Client.upgradeRequest host path key).IsTunnel derive p ↔ path = p := by
  have hup : isWsUpgrade (Client.upgradeRequest host path key) = true := by rfl
  have hkey : (Client.upgradeRequest host path key).get "sec-websocket-key" = some key := by rfl
  unfold HttpRequest.IsTunnel
  rw [hup, hkey, Option.bind_some, HeaderValue.fromStr, if_pos (hd key)]
  simp [Client.upgradeRequest]

theorem tcpAdmits_iff (hd : ∀ key, (derive key).all HeaderValue.isValid) (host path : String)
    (key : Bytes) :
    TcpAdmits derive cfg (Client.upgradeRequest host path key) ↔ path = cfg.wsPath := by
  rw [← upgradeRequest_isTunnel hd host path key]
  obtain ⟨ht,hr⟩ | ⟨ht,hr⟩ := handleRequest_spec derive cfg (Client.upgradeRequest host path key)
  · exact ⟨fun _ => ht,fun _ => hr⟩
  · refine ⟨?_,fun h => absurd h ht⟩
    rintro ⟨response,h⟩
    rw [hr, Option.map_eq_some_iff] at h
    obtain ⟨page,-,⟨⟩⟩ := h

theorem requestHeaders_isTunnel (ccfg : ClientCfg) :
    (Server.Request.ofHeaders (Client.requestHeaders ccfg)).isTunnel cfg ↔ ccfg.wsPath = cfg.wsPath := by
  have hr : Server.Request.ofHeaders (Client.requestHeaders ccfg) =
      ⟨utf8 "CONNECT",utf8 ccfg.wsPath,utf8 "websocket"⟩ := by rfl
  rw [hr, Server.Request.isTunnel]
  simp [utf8_injective.eq_iff]

theorem sendFake404_spawned (serverName : String) (c : Conn) (sid : ℕ) :
    (Server.sendFake404 env serverName c sid).spawned = c.spawned := by
  unfold Server.sendFake404
  simp only
  split_ifs
  · rfl
  · rfl

theorem h3Admits_iff (hs : ∀ resp, env.sendResponse c.quic sid resp false = true) (ccfg : ClientCfg) :
    H3Admits env cfg c sid (Client.requestHeaders ccfg) ↔ ccfg.wsPath = cfg.wsPath := by
  rw [← requestHeaders_isTunnel, H3Admits, Server.handleHeaders]
  split_ifs with ht
  · refine ⟨fun _ => ht,fun _ => ⟨.new [] sid (c.quic.length + 1),?_⟩⟩
    simp only [hs]
    rfl
  · simp [sendFake404_spawned, ht]

end Listeners

section Paths
open Client

theorem pathOf_eq_iff (target p : String) :
    pathOf target = p ↔ target.toList.takeWhile (fun c => c ≠ '?' ∧ c ≠ '#') = p.toList := by
  rw [pathOf, ← String.toList_inj, String.toList_ofList]

/-- A string is its own path unless it has a query or a fragment. -/
theorem takeWhile_eq_self_iff (l : List Char) :
    l.takeWhile (fun c => c ≠ '?' ∧ c ≠ '#') = l ↔ '?' ∉ l ∧ '#' ∉ l := by
  rw [List.takeWhile_eq_self_iff]
  constructor
  · intro h
    exact ⟨fun hm => by simpa using h _ hm,fun hm => by simpa using h _ hm⟩
  · rintro ⟨hq,hf⟩ c hc
    have h₁ : c ≠ '?' := fun he => hq (he ▸ hc)
    have h₂ : c ≠ '#' := fun he => hf (he ▸ hc)
    simp [h₁, h₂]

/-- A path is a target of its own, and no other form of target looks like one. -/
theorem RequestTarget.path_eq_of_text {target : RequestTarget} {p : String} (hp : p.toList.head? = some '/')
    (hclean : '?' ∉ p.toList ∧ '#' ∉ p.toList) (h : target.text = p) : target.path = p := by
  subst h
  cases target with
  | origin pathAndQuery rooted => exact (pathOf_eq_iff ..).mpr ((takeWhile_eq_self_iff _).mpr hclean)
  | absolute scheme host pathAndQuery named =>
    have hhead : (scheme.toList ++ "://".toList).head? = some '/' := by
      simpa [text] using hp
    cases hs : scheme.toList with
    | nil => simp [hs] at hhead
    | cons c rest => exact absurd (by simpa [hs] using hhead) named
  | authority host named => exact absurd hp named
  | asterisk => simp [text] at hp

/-- What the client asks for: its path, up to a fragment. -/
theorem requestTarget_url (cfg : ClientCfg) (hsni : HostName cfg.sni)
    (hp : cfg.wsPath.toList.head? = some '/') :
    (requestTarget (url cfg)).toList = cfg.wsPath.toList.takeWhile fun c => c ≠ '#' := by
  obtain ⟨rest,hrest⟩ : ∃ rest, cfg.wsPath.toList = '/' :: rest := List.head?_eq_some_iff.mp hp
  have hauth : ((url cfg).toList.drop "wss://".length).dropWhile (fun c => !isDelimiter c) =
      cfg.wsPath.toList := by
    have hurl : (url cfg).toList = "wss://".toList ++ (cfg.sni.toList ++ cfg.wsPath.toList) := by
      simp [url]
    rw [hurl, List.drop_left' String.length_toList, List.dropWhile_append_of_pos, hrest]
    · rfl
    · intro c hc
      simp [hsni c hc]
  rw [requestTarget, hauth, hrest]
  simp

/-- The path of what the client asks for is its option, if that has no query and no fragment. -/
theorem pathOf_requestTarget_iff (cfg : ClientCfg) (hsni : HostName cfg.sni)
    (hp : cfg.wsPath.toList.head? = some '/') :
    pathOf (requestTarget (url cfg)) = cfg.wsPath ↔
      '?' ∉ cfg.wsPath.toList ∧ '#' ∉ cfg.wsPath.toList := by
  have htake : (cfg.wsPath.toList.takeWhile fun c => c ≠ '#').takeWhile (fun c => c ≠ '?' ∧ c ≠ '#') =
      cfg.wsPath.toList.takeWhile fun c => c ≠ '?' ∧ c ≠ '#' := by
    rw [List.takeWhile_takeWhile]
    congr 1
    ext c
    simp
  rw [pathOf_eq_iff, requestTarget_url cfg hsni hp, htake, takeWhile_eq_self_iff]

end Paths

/-- The two listeners admit the requests of a client with their path, and answer alike on a target, when the
path has no query and no fragment and the target is no other spelling of the path. -/
theorem same_secret_path {derive : Bytes → Bytes} (hd : ∀ key, (derive key).all HeaderValue.isValid)
    {env : ServerEnv} {c : Conn} {sid : ℕ}
    (hs : ∀ resp, env.sendResponse c.quic sid resp false = true)
    {get : String → Option String} {ccfg : ClientCfg} {scfg : ServerCfg}
    (hc : wsPath get = .ok ccfg.wsPath) (hsame : scfg.wsPath = ccfg.wsPath)
    (hsni : HostName ccfg.sni) (key : Bytes) (target : RequestTarget) :
    (TcpAdmits derive scfg (Client.tcpRequest ccfg key) ∧
        H3Admits env scfg c sid (Client.requestHeaders ccfg) ∧
        (TcpAdmits derive scfg (Client.upgradeRequest ccfg.sni target.path key) ↔
          H3Admits env scfg c sid (Client.requestHeaders { ccfg with wsPath := target.text }))) ↔
      ('?' ∉ ccfg.wsPath.toList ∧ '#' ∉ ccfg.wsPath.toList) ∧
        (target.text ≠ ccfg.wsPath → target.path ≠ ccfg.wsPath) := by
  have hp := wsPath_eq_ok hc
  have hclient : TcpAdmits derive scfg (Client.tcpRequest ccfg key) ↔
      '?' ∉ ccfg.wsPath.toList ∧ '#' ∉ ccfg.wsPath.toList := by
    rw [Client.tcpRequest, tcpAdmits_iff hd, hsame]
    exact pathOf_requestTarget_iff ccfg hsni hp
  rw [hclient, h3Admits_iff hs, tcpAdmits_iff hd, h3Admits_iff hs, hsame]
  simp only [true_and]
  refine and_congr_right fun hclean => ?_
  constructor
  · exact fun h ht hpath => ht (h.mp hpath)
  · exact fun h => ⟨not_imp_not.mp h,RequestTarget.path_eq_of_text hp hclean⟩

/-- The accept key of a handshake whose key is the sample nonce. -/
def sampleAccept (_ : Bytes) : Bytes := utf8 "s3pPLMBiTxaQ9kYGzzhZRbK+xOo="

theorem sampleAccept_isValid (key : Bytes) : (sampleAccept key).all HeaderValue.isValid := by
  rw [sampleAccept]
  decide

/-- A connection on which nothing has happened. -/
def Conn.quiet : Conn := ⟨[],true,∅,[]⟩

theorem same_secret_path_plain :
    let ccfg := ClientCfg.plain
    let scfg := Listener.fresh.cfg
    let key := utf8 "dGhlIHNhbXBsZSBub25jZQ=="
    let target := RequestTarget.absolute "http" "example.com" "/other" (by decide)
    (TcpAdmits sampleAccept scfg (Client.tcpRequest ccfg key) ∧
        H3Admits .dialed scfg .quiet 0 (Client.requestHeaders ccfg) ∧
        (TcpAdmits sampleAccept scfg (Client.upgradeRequest ccfg.sni target.path key) ↔
          H3Admits .dialed scfg .quiet 0 (Client.requestHeaders { ccfg with wsPath := target.text }))) ↔
      ('?' ∉ ccfg.wsPath.toList ∧ '#' ∉ ccfg.wsPath.toList) ∧
        (target.text ≠ ccfg.wsPath → target.path ≠ ccfg.wsPath) :=
  same_secret_path sampleAccept_isValid (fun _ => rfl)
    (show wsPath (fun _ => some "/ws") = .ok ClientCfg.plain.wsPath by decide) rfl (by decide) _ _

/-- A path with a query: what the TCP listener compares with it has none. -/
theorem not_same_secret_path :
    ¬ ∀ ccfg : ClientCfg, ∀ scfg : ServerCfg, wsPath (fun _ => some ccfg.wsPath) = .ok ccfg.wsPath →
      scfg.wsPath = ccfg.wsPath → HostName ccfg.sni → ∀ key,
      TcpAdmits sampleAccept scfg (Client.tcpRequest ccfg key) ∧
        H3Admits .dialed scfg .quiet 0 (Client.requestHeaders ccfg) := by
  intro h
  obtain ⟨ht,-⟩ := h { ClientCfg.plain with wsPath := "/ws?k=1" }
    { Listener.fresh.cfg with wsPath := "/ws?k=1" } (by decide) rfl (by decide)
    (utf8 "dGhlIHNhbXBsZSBub25jZQ==")
  rw [Client.tcpRequest, tcpAdmits_iff sampleAccept_isValid] at ht
  revert ht
  decide

end EchTunnel
