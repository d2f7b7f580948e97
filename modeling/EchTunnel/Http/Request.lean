import EchTunnel.Config
import EchTunnel.H3.Server

/-! The HTTP/1.1 request handler of `server.rs`, and the page of `stealth.rs`. -/
namespace EchTunnel
open Wire

/-- A parsed request. `path` is `uri().path()`; the names of the headers are in lower case. -/
structure HttpRequest where
  method : String
  path : String
  headers : List Header
  deriving Repr, DecidableEq

structure HttpResponse where
  status : ℕ
  headers : List Header
  body : Bytes
  deriving Repr, DecidableEq

/-- What `handle_request` answers, and whether it spawns the task of a tunnel. -/
structure Reply where
  response : HttpResponse
  upgrade : Bool
  deriving Repr, DecidableEq

namespace HeaderValue

/-- The bytes a header value may hold. -/
def isValid (b : Byte) : Bool := (32 ≤ b && b != 127) || b == 9

/-- The bytes of a header value that can be read as a string. -/
def isVisibleAscii (b : Byte) : Bool := (32 ≤ b && b < 127) || b == 9

def fromStr (s : Bytes) : Option Bytes := if s.all isValid then some s else none

def toStr (v : Bytes) : Option Bytes := if v.all isVisibleAscii then some v else none

end HeaderValue

def toAsciiLowercase (b : Byte) : Byte := if 0x41 ≤ b ∧ b ≤ 0x5a then b + 0x20 else b

def eqIgnoreAsciiCase (a b : Bytes) : Bool := a.map toAsciiLowercase = b.map toAsciiLowercase

/-- The white space that a visible string can hold. -/
def isWhitespace (b : Byte) : Bool := b == 0x20 || b == 9

def trim (s : Bytes) : Bytes := ((s.dropWhile isWhitespace).reverse.dropWhile isWhitespace).reverse

/-- The first value of a header. -/
def HttpRequest.get (req : HttpRequest) (name : String) : Option Bytes :=
  (req.headers.find? fun h => h.name = utf8 name).map Header.value

def isWsUpgrade (req : HttpRequest) : Bool :=
  let upgradeMatch := ((req.get "upgrade").bind HeaderValue.toStr).any fun v =>
    eqIgnoreAsciiCase v (utf8 "websocket")
  let connectionMatch := ((req.get "connection").bind HeaderValue.toStr).any fun v =>
    (v.splitOn 0x2c).any fun p => eqIgnoreAsciiCase (trim p) (utf8 "upgrade")
  upgradeMatch && connectionMatch

/-- The page of `stealth.rs`. Building it panics on a server name that no header can hold. -/
def fake404 (serverName : String) : Option HttpResponse :=
  (HeaderValue.fromStr (utf8 serverName)).map fun server =>
    ⟨404,[⟨utf8 "server",server⟩,header "content-type" "text/html",
      header "content-length" (toString FAKE_404_BODY.length)],FAKE_404_BODY⟩

/-- The HTTP/1.1 handler; `none` is a panic. `derive` stands for `derive_accept_key`. -/
def handleRequest (derive : Bytes → Bytes) (cfg : ServerCfg) (req : HttpRequest) : Option Reply :=
  let notFound := (fake404 cfg.serverName).map fun page => ⟨page,false⟩
  if req.method ≠ "GET" ∨ req.path ≠ cfg.wsPath ∨ ¬ isWsUpgrade req then notFound
  else
    match req.get "sec-websocket-key" with
    | none => notFound
    | some key =>
      match HeaderValue.fromStr (derive key) with
      | none => notFound
      | some accept =>
        some ⟨⟨101,[header "upgrade" "websocket",header "connection" "Upgrade",
          ⟨utf8 "sec-websocket-accept",accept⟩],[]⟩,true⟩

/-- A complete request for a tunnel under the given path. -/
def HttpRequest.IsTunnel (derive : Bytes → Bytes) (req : HttpRequest) (wsPath : String) : Prop :=
  req.method = "GET" ∧ req.path = wsPath ∧ isWsUpgrade req = true ∧
    ((req.get "sec-websocket-key").bind fun key => HeaderValue.fromStr (derive key)).isSome = true

instance (derive : Bytes → Bytes) (req : HttpRequest) (wsPath : String) :
    Decidable (req.IsTunnel derive wsPath) := inferInstanceAs (Decidable (_ ∧ _ ∧ _ ∧ _))

/-- The handler opens a tunnel for exactly the complete requests; all others get the page. -/
theorem handleRequest_spec (derive : Bytes → Bytes) (cfg : ServerCfg) (req : HttpRequest) :
    (req.IsTunnel derive cfg.wsPath ∧
      ∃ response, handleRequest derive cfg req = some ⟨response,true⟩) ∨
    (¬ req.IsTunnel derive cfg.wsPath ∧
      handleRequest derive cfg req = (fake404 cfg.serverName).map fun page => ⟨page,false⟩) := by
  unfold handleRequest HttpRequest.IsTunnel
  split_ifs with h
  · right
    refine ⟨?_,rfl⟩
    rintro ⟨hm,hp,hu,-⟩
    exact h.elim (absurd hm) fun h => h.elim (absurd hp) (absurd hu)
  · simp only [not_or, not_not] at h
    obtain ⟨hm,hp,hu⟩ := h
    cases hk : req.get "sec-websocket-key" with
    | none =>
      right
      simp [hm, hp, hu]
    | some key =>
      cases hd : HeaderValue.fromStr (derive key) with
      | none =>
        right
        simp [hd]
      | some accept =>
        left
        simp [hm, hp, hu, hd]

end EchTunnel
