import EchTunnel.Config.FromOptions
import EchTunnel.Http.Request
import EchTunnel.Tls.Alpn
import Mathlib.Tactic.IntervalCases

/-! The HTTPS request path with every step that can panic left in: `none` is a panic. -/
namespace EchTunnel
open Wire

/-- The bytes that the `http` crate refuses in a header value. -/
def IsControl (b : Byte) : Prop := b < 32 ∧ b ≠ 9 ∨ b = 127

instance (b : Byte) : Decidable (IsControl b) := inferInstanceAs (Decidable (_ ∨ _))

namespace HttpResponse

/-- `Response::builder`, which fails on a header value with a control byte. -/
def build (status : ℕ) (headers : List Header) (body : Bytes) : Option HttpResponse :=
  if ∃ h ∈ headers, ∃ b ∈ h.value, IsControl b then none else some ⟨status,headers,body⟩

end HttpResponse

namespace Checked

/-- `AlpnIter::next` with its index and its slices. -/
def next (it : AlpnIter) : Option (Option (Bytes × AlpnIter)) :=
  if it.remaining = [] then some none else do
    let b ← it.remaining[0]?
    let len := b.toNat
    if len = 0 ∨ it.remaining.length < 1+len then return none
    let proto ← slice it.remaining 1 (1+len)
    let rest ← slice it.remaining (1+len) it.remaining.length
    return some (proto,⟨rest⟩)

/-- No index and no slice is out of range. -/
theorem next_eq (it : AlpnIter) : next it = some it.next := by
  obtain ⟨_ | ⟨b,tail⟩⟩ := it
  · rfl
  · unfold next AlpnIter.next
    simp only [reduceCtorEq, if_false, List.getElem?_cons_zero, Option.bind_eq_bind, Option.bind_some]
    split_ifs with h
    · rfl
    · simp only [not_or, List.length_cons] at h
      have hproto : slice (b :: tail) 1 (1+b.toNat) = some (tail.take b.toNat) := by
        refine slice_eq_some.mpr ⟨by omega,by simp only [List.length_cons]; omega,?_⟩
        simp
      have hrest : slice (b :: tail) (1+b.toNat) (b :: tail).length = some (tail.drop b.toNat) := by
        refine slice_eq_some.mpr ⟨by simp only [List.length_cons]; omega,le_rfl,?_⟩
        rw [List.take_of_length_le (by simp), Nat.add_comm, List.drop_succ_cons]
      rw [hproto, hrest]
      rfl

/-- The loop of the callback over the protocols offered. -/
def scan (o : AlpnOffer) (it : AlpnIter) : Option AlpnOffer :=
  match _h : next it with
  | none => none
  | some none => some o
  | some (some (proto,it')) => scan (o.see proto) it'
termination_by it.remaining.length
decreasing_by exact AlpnIter.next_lt (Option.some.inj ((next_eq it).symm.trans _h))

theorem scan_eq (o : AlpnOffer) (it : AlpnIter) : scan o it = some (it.protos.foldl AlpnOffer.see o) := by
  fun_induction scan o it with
  | case1 o it h => simp [next_eq] at h
  | case2 o it h =>
    rw [next_eq, Option.some.injEq] at h
    rw [AlpnIter.protos_none h]
    rfl
  | case3 o it proto it' h ih =>
    rw [next_eq, Option.some.injEq] at h
    rw [AlpnIter.protos_some h, ih]
    rfl

section Callback
variable {Ctx : Type*} (challenges : ChallengeStore Ctx) (setContext : Ctx → Bool)
  (sni : Option String) (clientProtos : Bytes)

/-- The callback `install_alpn_callback` registers. -/
def alpnSelect : Option (Except AlpnError (AlpnSelection Ctx)) :=
  (scan ⟨false,none,none⟩ ⟨clientProtos⟩).map fun o =>
    if o.offeredAcme then
      match sni.bind challenges.get with
      | some ctx => if setContext ctx then .ok ⟨ACME_ALPN,some ctx⟩ else .error .alertFatal
      | none => .error .alertFatal
    else
      match o.firstH2, o.firstH11 with
      | some p, _ => .ok ⟨p,none⟩
      | none, some p => .ok ⟨p,none⟩
      | none, none => .error .noAck

theorem alpnSelect_eq : alpnSelect challenges setContext sni clientProtos =
    some (EchTunnel.alpnSelect challenges setContext sni clientProtos) := by
  rw [alpnSelect, scan_eq]
  rfl

end Callback

/-- `fake_404` with the `unwrap` behind the builder. -/
def fake404 (serverName : String) : Option HttpResponse :=
  HttpResponse.build 404 [⟨utf8 "server",utf8 serverName⟩,header "content-type" "text/html",
    header "content-length" (toString FAKE_404_BODY.length)] FAKE_404_BODY

/-- `handle_request` with the `expect` behind the builder of the 101 response. -/
def handleRequest (derive : Bytes → Bytes) (cfg : ServerCfg) (req : HttpRequest) : Option Reply := do
  if req.method ≠ "GET" ∨ req.path ≠ cfg.wsPath ∨ ¬ isWsUpgrade req then
    return ⟨← fake404 cfg.serverName,false⟩
  match req.get "sec-websocket-key" with
  | none => return ⟨← fake404 cfg.serverName,false⟩
  | some key =>
    match HeaderValue.fromStr (derive key) with
    | none => return ⟨← fake404 cfg.serverName,false⟩
    | some accept =>
      let response ← HttpResponse.build 101 [header "upgrade" "websocket",header "connection" "Upgrade",
        ⟨utf8 "sec-websocket-accept",accept⟩] []
      return ⟨response,true⟩

theorem isValid_iff (b : Byte) : HeaderValue.isValid b = true ↔ ¬ IsControl b := by
  have h : (32 ≤ b) ↔ ¬ b < 32 := UInt8.not_lt.symm
  simp only [HeaderValue.isValid, IsControl, Bool.or_eq_true, Bool.and_eq_true, decide_eq_true_eq,
    bne_iff_ne, beq_iff_eq, h]
  by_cases hb : b = 9
  · subst hb
    decide
  · tauto

/-- What `HeaderValue::from_str` accepts is what the builder accepts. -/
theorem fromStr_eq (s : Bytes) : HeaderValue.fromStr s =
    if ∃ b ∈ s, IsControl b then none else some s := by
  have h : s.all HeaderValue.isValid = true ↔ ¬ ∃ b ∈ s, IsControl b := by
    simp [isValid_iff]
  unfold HeaderValue.fromStr
  split_ifs with h₁ h₂ h₂
  · exact absurd h₂ (h.mp h₁)
  · rfl
  · rfl
  · exact absurd (h.mpr h₂) h₁

/-- A number can stand in a header. -/
theorem not_isControl_toString (n : ℕ) : ¬ ∃ b ∈ utf8 (toString n), IsControl b := by
  rintro ⟨b,hb,hc⟩
  obtain ⟨c,hm,hb⟩ := List.mem_flatMap.mp hb
  have hd : c.isDigit = true := by
    rw [show toString n = n.repr from rfl, Nat.toList_repr] at hm
    exact Nat.isDigit_of_mem_toDigits (by decide) (by decide) hm
  have hr : 48 ≤ c.toNat ∧ c.toNat ≤ 57 := by simpa [Char.isDigit, UInt32.le_iff_toNat_le] using hd
  obtain ⟨h₁,h₂⟩ := hr
  rw [← Char.ofNat_toNat c] at hb
  generalize c.toNat = k at h₁ h₂ hb
  have hk : String.utf8EncodeChar (Char.ofNat k) = [UInt8.ofNat k] := by
    interval_cases k <;> rfl
  rw [hk, List.mem_singleton] at hb
  subst hb
  revert hc
  interval_cases k <;> decide

theorem fake404_eq (serverName : String) : fake404 serverName = EchTunnel.fake404 serverName := by
  have hlength := not_isControl_toString FAKE_404_BODY.length
  have htype : ¬ ∃ b ∈ utf8 "text/html", IsControl b := by decide
  unfold fake404 EchTunnel.fake404 HttpResponse.build
  generalize toString FAKE_404_BODY.length = length at hlength
  rw [fromStr_eq]
  simp only [List.mem_cons, List.not_mem_nil, or_false, exists_eq_or_imp, exists_eq_left, header, htype,
    hlength]
  split_ifs <;> rfl

/-- A value that `from_str` has accepted makes a response. -/
theorem build_switching_protocols {s accept : Bytes} (h : HeaderValue.fromStr s = some accept) :
    let headers := [header "upgrade" "websocket",header "connection" "Upgrade",
      ⟨utf8 "sec-websocket-accept",accept⟩]
    HttpResponse.build 101 headers [] = some ⟨101,headers,[]⟩ := by
  have hupgrade : ¬ ∃ b ∈ utf8 "websocket", IsControl b := by decide
  have hconnection : ¬ ∃ b ∈ utf8 "Upgrade", IsControl b := by decide
  have haccept : ¬ ∃ b ∈ accept, IsControl b := by
    rw [fromStr_eq] at h
    split_ifs at h with hc
    cases h
    exact hc
  refine if_neg ?_
  simp only [List.mem_cons, List.not_mem_nil, or_false, exists_eq_or_imp, exists_eq_left, header]
  simp only [hupgrade, hconnection, haccept, or_false, not_false_eq_true]

theorem handleRequest_eq (derive : Bytes → Bytes) (cfg : ServerCfg) (req : HttpRequest) :
    handleRequest derive cfg req = EchTunnel.handleRequest derive cfg req := by
  have hpage : (do return (⟨← fake404 cfg.serverName,false⟩ : Reply)) =
      (EchTunnel.fake404 cfg.serverName).map fun page => (⟨page,false⟩ : Reply) := by
    rw [fake404_eq]
    cases EchTunnel.fake404 cfg.serverName <;> rfl
  unfold handleRequest EchTunnel.handleRequest
  rw [hpage]
  split_ifs with h
  · rfl
  · cases hk : req.get "sec-websocket-key" with
    | none => rfl
    | some key =>
      cases hd : HeaderValue.fromStr (derive key) with
      | none => simp only [hd]
      | some accept => simp only [hd, build_switching_protocols hd]; rfl

theorem fake404_isSome_iff (serverName : String) :
    (fake404 serverName).isSome ↔ ¬ ∃ b ∈ utf8 serverName, IsControl b := by
  rw [fake404_eq, EchTunnel.fake404, Option.isSome_map, fromStr_eq]
  split_ifs with h <;> simp [h]

theorem handleRequest_isSome_iff (derive : Bytes → Bytes) (cfg : ServerCfg) (req : HttpRequest) :
    (handleRequest derive cfg req).isSome ↔
      (¬ ∃ b ∈ utf8 cfg.serverName, IsControl b) ∨ req.IsTunnel derive cfg.wsPath := by
  rw [handleRequest_eq, ← fake404_isSome_iff, fake404_eq]
  obtain ⟨ht,response,h⟩ | ⟨ht,h⟩ := handleRequest_spec derive cfg req
  · simp [h, ht]
  · simp [h, ht]

end Checked

/-- The value of `server_name`, if there is one, can stand in a header. -/
def CleanServerName (o : PluginOptions) : Prop :=
  ∀ v, o.get "server_name" = some v → ¬ ∃ b ∈ utf8 v, IsControl b

/-- The default server name passes the check that a given one may fail. -/
theorem serverName_clean_iff {cfg : ServerCfg} {o : PluginOptions} (h : cfg.ReadFrom o) :
    (¬ ∃ b ∈ utf8 cfg.serverName, IsControl b) ↔ CleanServerName o := by
  rw [h.serverName, CleanServerName]
  cases o.get "server_name" with
  | none =>
    have hdefault : ¬ ∃ b ∈ utf8 "nginx/1.24.0", IsControl b := by decide
    simpa using hdefault
  | some v => simp

section Path
variable {Ctx : Type*} {s : String} {o : PluginOptions} {cfg : ServerCfg}

/-- On accepted options the request path returns on every input exactly when the server name can stand
in a header; if it cannot, only the complete requests for the tunnel are answered. -/
theorem https_path_returns_iff (h : ServerOptions s o cfg) (challenges : ChallengeStore Ctx)
    (setContext : Ctx → Bool) (sni : Option String) (clientProtos : Bytes) (derive : Bytes → Bytes)
    (req : HttpRequest) :
    ((Checked.alpnSelect challenges setContext sni clientProtos).isSome ∧
        (Checked.handleRequest derive cfg req).isSome ∧ (Checked.fake404 cfg.serverName).isSome ↔
      CleanServerName o) ∧
    ((Checked.handleRequest derive cfg req).isSome ↔
      CleanServerName o ∨ req.IsTunnel derive cfg.wsPath) := by
  rw [Checked.alpnSelect_eq, Checked.handleRequest_isSome_iff, Checked.fake404_isSome_iff,
    serverName_clean_iff h.readFrom]
  simp only [Option.isSome_some, true_and, and_true]
  exact ⟨And.right,fun h => ⟨Or.inl h,h⟩⟩

end Path

/-- A request for the root, which no tunnel is behind. -/
def rootRequest : HttpRequest := ⟨"GET","/",[]⟩

theorem https_path_returns_iff_default : ∃ o cfg,
    ServerOptions "mode=server;domain=t.x;path=/ws;cert=/c;key=/k" o cfg ∧
      ((Checked.alpnSelect (ChallengeStore.new : ChallengeStore Unit) (fun _ => true) none [2,0x68,0x32]).isSome ∧
          (Checked.handleRequest id cfg rootRequest).isSome ∧ (Checked.fake404 cfg.serverName).isSome ↔
        CleanServerName o) ∧
      ((Checked.handleRequest id cfg rootRequest).isSome ↔
        CleanServerName o ∨ rootRequest.IsTunnel id cfg.wsPath) := by
  have h : serverCfg "mode=server;domain=t.x;path=/ws;cert=/c;key=/k" =
      some ⟨"t.x","/ws",false,.static "/c" "/k",none,true,true,"nginx/1.24.0",false⟩ := by decide +kernel
  obtain ⟨o,ha⟩ := serverCfg_eq_some.mp h
  exact ⟨o,_,ha,https_path_returns_iff ha ..⟩

/-- With a line feed in the server name every page is a panic. -/
theorem https_path_panics : ∃ o cfg,
    ServerOptions "mode=server;domain=t.x;path=/ws;cert=/c;key=/k;server_name=a\nb" o cfg ∧
      ¬ (Checked.handleRequest id cfg rootRequest).isSome ∧ ¬ (Checked.fake404 cfg.serverName).isSome := by
  have h : serverCfg "mode=server;domain=t.x;path=/ws;cert=/c;key=/k;server_name=a\nb" =
      some ⟨"t.x","/ws",false,.static "/c" "/k",none,true,true,"a\nb",false⟩ := by decide +kernel
  obtain ⟨o,ha⟩ := serverCfg_eq_some.mp h
  have hcontrol : ∃ b ∈ utf8 "a\nb", IsControl b := by decide
  refine ⟨o,_,ha,?_,fun h => (Checked.fake404_isSome_iff _).mp h hcontrol⟩
  rw [Checked.handleRequest_isSome_iff, not_or, not_not]
  exact ⟨hcontrol,by decide +kernel⟩

end EchTunnel
