import EchTunnel.Library.Assoc

/-! The registry of TLS-ALPN-01 challenge contexts of `challenge.rs`. -/
namespace EchTunnel

/-- Contexts by domain; `Ctx` stands for `SslContext`. -/
structure ChallengeStore (Ctx : Type*) where
  inner : AList fun _ : String => Ctx

namespace ChallengeStore
variable {Ctx : Type*}

def new : ChallengeStore Ctx := ⟨∅⟩

def install (s : ChallengeStore Ctx) (domain : String) (ctx : Ctx) : ChallengeStore Ctx :=
  ⟨s.inner.insert domain ctx⟩

def remove (s : ChallengeStore Ctx) (domain : String) : ChallengeStore Ctx :=
  ⟨s.inner.erase domain⟩

def get (s : ChallengeStore Ctx) (domain : String) : Option Ctx := s.inner.lookup domain

@[simp] theorem get_new (d : String) : (new : ChallengeStore Ctx).get d = none := rfl

@[simp] theorem get_install (s : ChallengeStore Ctx) (d e : String) (ctx : Ctx) :
    (s.install d ctx).get e = if e = d then some ctx else s.get e := Assoc.lookup_insert _ _ _ _

@[simp] theorem get_remove (s : ChallengeStore Ctx) (d e : String) :
    (s.remove d).get e = if e = d then none else s.get e := Assoc.lookup_erase _ _ _

end ChallengeStore
end EchTunnel
