import Mathlib.Data.List.Basic

/-! The configuration records of `config.rs`, and its checks. Paths and option values are strings. -/
namespace EchTunnel

inductive ServerTls
  | static (certFile keyFile : String)
  | acme (email : String) (staging : Bool) (cacheDir : String)
  deriving Repr, DecidableEq

structure ServerEch where
  publicName : String
  keyFile : String
  deriving Repr, DecidableEq

structure ServerCfg where
  domain : String
  wsPath : String
  fastOpen : Bool
  tls : ServerTls
  ech : Option ServerEch
  acmeCoverSan : Bool
  rejectNonEch : Bool
  serverName : String
  http3 : Bool
  deriving Repr, DecidableEq

inductive ClientEch
  | inline (configList : String)
  | file (path : String)
  deriving Repr, DecidableEq

inductive ClientTrust
  | systemRoots
  | caFile (path : String)
  | insecureSkipVerify
  deriving Repr, DecidableEq

inductive Transport
  | tcp
  | h3
  deriving Repr, DecidableEq

structure ClientCfg where
  sni : String
  wsPath : String
  fastOpen : Bool
  ech : Option ClientEch
  trust : ClientTrust
  fingerprint : Option String
  transport : Transport
  deriving Repr, DecidableEq

/-- Why an option is refused, with what the text of the error quotes. -/
inductive OptionError
  | required (key : String)
  | leadingSlash (path : String)
  deriving Repr, DecidableEq

/-- A plugin option that must be there and must not be empty. `get` looks an option up. -/
def required (get : String → Option String) (key : String) : Except OptionError String :=
  match (get key).filter fun s => s ≠ "" with
  | some s => .ok s
  | none => .error (.required key)

def wsPath (get : String → Option String) : Except OptionError String :=
  match required get "path" with
  | .error e => .error e
  | .ok p => if p.toList.head? = some '/' then .ok p else .error (.leadingSlash p)

theorem wsPath_eq_ok {get : String → Option String} {p : String} (h : wsPath get = .ok p) :
    p.toList.head? = some '/' := by
  unfold wsPath at h
  cases hr : required get "path" with
  | error e => simp [hr] at h
  | ok q =>
    simp only [hr] at h
    split_ifs at h with hq
    cases h
    exact hq

end EchTunnel
