import Mathlib.Data.Fintype.Basic

/-! The texts of IP and socket addresses, as Rust's `std::net` parses them. A reader that fails puts the
characters back that it has read. -/
namespace NetAddr

abbrev Parser := StateT (List Char) Option

/-- `char::to_digit`. -/
def toDigit (radix : ℕ) (c : Char) : Option ℕ :=
  (if '0' ≤ c ∧ c ≤ '9' then some (c.toNat - '0'.toNat)
  else if 'a' ≤ c ∧ c ≤ 'z' then some (10+(c.toNat - 'a'.toNat))
  else if 'A' ≤ c ∧ c ≤ 'Z' then some (10+(c.toNat - 'A'.toNat))
  else none).filter (· < radix)

/-- `parse_with`: nothing may be left over. -/
def parse {α : Type} (p : Parser α) (s : List Char) : Option α :=
  match p s with
  | some (a,[]) => some a
  | _ => none

def readGivenChar (target : Char) : Parser Unit
  | c :: s => if c = target then some ((),s) else none
  | [] => none

/-- The loop of `read_number`: what the digits so far stand for, and how many they are. With a limit on
their number the value is checked at the end, without one at every digit. -/
def readDigits (bound radix : ℕ) (maxDigits : Option ℕ) (result count : ℕ) :
    List Char → Option (ℕ × ℕ × List Char)
  | [] => some (result,count,[])
  | c :: s =>
    match toDigit radix c with
    | none => some (result,count,c :: s)
    | some digit =>
      if maxDigits.elim (decide (bound ≤ result*radix+digit)) fun n => decide (n < count+1) then none
      else readDigits bound radix maxDigits (result*radix+digit) (count+1) s

/-- `read_number`, for an integer type with the values below `bound`. -/
def readNumber (bound radix : ℕ) (maxDigits : Option ℕ) (allowZeroPrefix : Bool) : Parser (Fin bound) :=
  fun s =>
    let hasLeadingZero := s.head? == some '0'
    match readDigits bound radix maxDigits 0 0 s with
    | none => none
    | some (result,count,rest) =>
      if count = 0 then none
      else if !allowZeroPrefix && hasLeadingZero && decide (1 < count) then none
      else if h : result < bound then some (⟨result,h⟩,rest)
      else none

/-- The separator stands between two items, so not before the first. -/
def readSeparator {α : Type} (sep : Char) (index : ℕ) (inner : Parser α) : Parser α :=
  if 0 < index then do
    readGivenChar sep
    inner
  else inner

structure Ipv4Addr where
  a : Fin 256
  b : Fin 256
  c : Fin 256
  d : Fin 256
  deriving Repr, DecidableEq

structure Ipv6Addr where
  groups : List (Fin 65536)
  size : groups.length = 8
  deriving Repr, DecidableEq

inductive SocketAddr
  | v4 (ip : Ipv4Addr) (port : Fin 65536)
  | v6 (ip : Ipv6Addr) (port : Fin 65536) (flowinfo scopeId : Fin 4294967296)
  deriving Repr, DecidableEq

def readIpv4Addr : Parser Ipv4Addr := do
  let a ← readSeparator '.' 0 (readNumber 256 10 (some 3) false)
  let b ← readSeparator '.' 1 (readNumber 256 10 (some 3) false)
  let c ← readSeparator '.' 2 (readNumber 256 10 (some 3) false)
  let d ← readSeparator '.' 3 (readNumber 256 10 (some 3) false)
  return ⟨a,b,c,d⟩

/-- `u16::from_be_bytes`. -/
def fromBeBytes (one two : Fin 256) : Fin 65536 := ⟨256*one+two,by omega⟩

/-- The two groups of an embedded IPv4 address. -/
def Ipv4Addr.groups (ip : Ipv4Addr) : List (Fin 65536) := [fromBeBytes ip.a ip.b,fromBeBytes ip.c ip.d]

/-- An IPv4 address for the last two groups, if at least two are left. -/
def readEmbedded (i n : ℕ) : Parser {gs : List (Fin 65536) // gs.length ≤ n} :=
  if h : 2 ≤ n then do
    let ip ← readSeparator ':' i readIpv4Addr
    return ⟨ip.groups,h⟩
  else failure

/-- The loop of `read_groups` from group `i` on, with room for `n` more: the groups, and whether an
IPv4 address ends them. -/
def readGroups (i : ℕ) : (n : ℕ) → Parser ({gs : List (Fin 65536) // gs.length ≤ n} × Bool)
  | 0 => pure (⟨[],le_rfl⟩,false)
  | n+1 => do
    match ← optional (readEmbedded i (n+1)) with
    | some gs => return (gs,true)
    | none =>
      match ← optional (readSeparator ':' i (readNumber 65536 16 (some 4) true)) with
      | none => return (⟨[],Nat.zero_le _⟩,false)
      | some g =>
        let gs ← readGroups (i+1) n
        return (⟨g :: gs.1.1,by simpa using gs.1.2⟩,gs.2)

/-- Eight groups, or `::` in the place of the zeroes that are missing. -/
def readIpv6Addr : Parser Ipv6Addr := do
  let front ← readGroups 0 8
  let head := front.1.1
  if h : head.length = 8 then return ⟨head,h⟩
  else if front.2 then failure
  else
    readGivenChar ':'
    readGivenChar ':'
    let back ← readGroups 0 (8-(head.length+1))
    let tail := back.1.1
    return ⟨head ++ List.replicate (8-head.length-tail.length) 0 ++ tail,by
      have hhead : head.length ≤ 8 := front.1.2
      have htail : tail.length ≤ 8-(head.length+1) := back.1.2
      simp only [List.length_append, List.length_replicate]
      omega⟩

def readPort : Parser (Fin 65536) := do
  readGivenChar ':'
  readNumber 65536 10 none true

def readScopeId : Parser (Fin 4294967296) := do
  readGivenChar '%'
  readNumber 4294967296 10 none true

/-- An IPv6 address with its scope. -/
def readScoped : Parser (Ipv6Addr × Fin 4294967296) := do
  let ip ← readIpv6Addr
  let scopeId ← optional readScopeId
  return (ip,scopeId.getD 0)

def readClosed {α : Type} (inner : Parser α) (close : Char) : Parser α := do
  let a ← inner
  readGivenChar close
  return a

/-- What `read_socket_addr_v6` reads before the port. -/
def readBracketed : Parser (Ipv6Addr × Fin 4294967296) := do
  readGivenChar '['
  readClosed readScoped ']'

def readSocketAddrV4 : Parser SocketAddr := do
  let ip ← readIpv4Addr
  let port ← readPort
  return .v4 ip port

def readSocketAddrV6 : Parser SocketAddr := do
  let ip ← readBracketed
  let port ← readPort
  return .v6 ip.1 port 0 ip.2

def parseSocketAddr (s : List Char) : Option SocketAddr := parse (readSocketAddrV4 <|> readSocketAddrV6) s

/-- The host of a socket address. -/
inductive IpHost
  | v4 (ip : Ipv4Addr)
  | v6 (ip : Ipv6Addr) (scopeId : Fin 4294967296)
  deriving Repr, DecidableEq

/-- An address without a scope. -/
def IpHost.ofIpv6 (ip : Ipv6Addr) : IpHost := .v6 ip 0

def IpHost.withPort (port : Fin 65536) : IpHost → SocketAddr
  | .v4 ip => .v4 ip port
  | .v6 ip scopeId => .v6 ip port 0 scopeId

/-- The host that a text stands for in front of a port. -/
def parseHost (s : List Char) : Option IpHost :=
  ((parse readIpv4Addr s).map .v4).or ((parse readBracketed s).map fun ip => .v6 ip.1 ip.2)

/-- How an unsigned integer is displayed. -/
def decimal (n : ℕ) : List Char := Nat.toDigits 10 n

example : parseSocketAddr "[fe80::1%3]:443".toList =
    some (.v6 ⟨[0xfe80,0,0,0,0,0,0,1],rfl⟩ 443 0 3) := by decide +kernel

example : parse readIpv6Addr "::ffff:192.0.2.1".toList =
    some ⟨[0,0,0,0,0,0xffff,0xc000,0x201],rfl⟩ := by decide +kernel

section Stops
variable {α β : Type} {t : List Char}

/-- Before `t` the reader stops: it reads what stands before it as if nothing followed, and it gives
back an end of what it is given. -/
structure Stops (t : List Char) (p : Parser α) : Prop where
  suffix : ∀ {s a r}, p s = some (a,r) → r <:+ s
  append : ∀ s, p (s ++ t) = (p s).map fun x => (x.1,x.2 ++ t)

theorem Stops.pure (a : α) : Stops t (pure a : Parser α) where
  suffix h := by
    cases h
    exact List.suffix_rfl
  append _ := rfl

theorem Stops.failure : Stops t (failure : Parser α) where
  suffix h := by cases h
  append _ := rfl

theorem bind_apply (p : Parser α) (f : α → Parser β) (s : List Char) :
    (p >>= f) s = (p s).bind fun x => f x.1 x.2 := rfl

theorem Stops.bind {p : Parser α} {f : α → Parser β} (hp : Stops t p) (hf : ∀ a, Stops t (f a)) :
    Stops t (p >>= f) where
  suffix {s b r} h := by
    rw [bind_apply] at h
    obtain ⟨⟨a,r'⟩,hr',h⟩ := Option.bind_eq_some_iff.mp h
    exact ((hf a).suffix h).trans (hp.suffix hr')
  append s := by
    rw [bind_apply, bind_apply, hp.append]
    cases p s with
    | none => rfl
    | some x => exact (hf x.1).append x.2

theorem orElse_apply (p q : Parser α) (s : List Char) : (p <|> q) s = (p s).or (q s) := by
  change (p s <|> q s) = _
  cases p s <;> rfl

theorem Stops.orElse {p q : Parser α} (hp : Stops t p) (hq : Stops t q) : Stops t (p <|> q) where
  suffix {s a r} h := by
    rw [orElse_apply, Option.or_eq_some_iff] at h
    obtain h | ⟨-,h⟩ := h
    · exact hp.suffix h
    · exact hq.suffix h
  append s := by rw [orElse_apply, orElse_apply, hp.append, hq.append, Option.map_or]

theorem Stops.optional {p : Parser α} (hp : Stops t p) : Stops t (optional p) :=
  .orElse (.bind hp fun a => .pure (some a)) (.pure none)

theorem Stops.readGivenChar {c : Char} (hc : t.head? ≠ some c) : Stops t (readGivenChar c) where
  suffix {s a r} h := by
    cases s with
    | nil => cases h
    | cons c' s =>
      simp only [NetAddr.readGivenChar] at h
      split_ifs at h
      cases h
      exact List.suffix_cons c' _
  append s := by
    cases s with
    | nil =>
      cases t with
      | nil => rfl
      | cons c' t => exact if_neg fun h => hc (by rw [List.head?_cons, h])
    | cons c' s =>
      unfold NetAddr.readGivenChar
      simp only [List.cons_append]
      split_ifs
      · rfl
      · rfl

/-- Nothing that `t` starts with is a digit. -/
def NoDigit (radix : ℕ) (t : List Char) : Prop := ∀ c ∈ t.head?, toDigit radix c = none

theorem readDigits_append {bound radix : ℕ} {maxDigits : Option ℕ} (ht : NoDigit radix t)
    (result count : ℕ) (s : List Char) : readDigits bound radix maxDigits result count (s ++ t) =
      (readDigits bound radix maxDigits result count s).map fun x => (x.1,x.2.1,x.2.2 ++ t) := by
  induction s generalizing result count with
  | nil =>
    cases t with
    | nil => rfl
    | cons c t => simp [readDigits, ht c rfl]
  | cons c s ih =>
    rw [List.cons_append, readDigits, readDigits]
    cases toDigit radix c with
    | none => rfl
    | some digit =>
      simp only [ih]
      split_ifs
      · rfl
      · rfl

theorem readDigits_suffix {bound radix : ℕ} {maxDigits : Option ℕ} {result count : ℕ} {s : List Char}
    {x : ℕ × ℕ × List Char} (h : readDigits bound radix maxDigits result count s = some x) :
    x.2.2 <:+ s := by
  induction s generalizing result count with
  | nil =>
    cases h
    exact List.suffix_rfl
  | cons c s ih =>
    rw [readDigits] at h
    cases hc : toDigit radix c with
    | none =>
      simp only [hc, Option.some.injEq] at h
      subst h
      exact List.suffix_rfl
    | some digit =>
      simp only [hc] at h
      split_ifs at h
      exact (ih h).trans (List.suffix_cons c s)

theorem Stops.readNumber {bound radix : ℕ} {maxDigits : Option ℕ} {allowZeroPrefix : Bool}
    (ht : NoDigit radix t) : Stops t (readNumber bound radix maxDigits allowZeroPrefix) where
  suffix {s a r} h := by
    unfold NetAddr.readNumber at h
    cases hd : readDigits bound radix maxDigits 0 0 s with
    | none => simp [hd] at h
    | some x =>
      simp only [hd] at h
      split_ifs at h
      cases h
      exact readDigits_suffix hd
  append s := by
    unfold NetAddr.readNumber
    rw [readDigits_append ht]
    cases s with
    | nil => rfl
    | cons c s =>
      have hhead : ((c :: s) ++ t).head? = (c :: s).head? := rfl
      rw [hhead]
      cases readDigits bound radix maxDigits 0 0 (c :: s) with
      | none => rfl
      | some x =>
        simp only [Option.map_some]
        split_ifs
        · rfl
        · rfl
        · rfl
        · rfl

theorem Stops.readSeparator {sep : Char} {index : ℕ} {inner : Parser α} (hsep : t.head? ≠ some sep)
    (h : Stops t inner) : Stops t (readSeparator sep index inner) := by
  unfold NetAddr.readSeparator
  split_ifs
  · exact .bind (.readGivenChar hsep) fun _ => h
  · exact h

theorem Stops.readIpv4Addr (ht : NoDigit 10 t) (hdot : t.head? ≠ some '.') : Stops t readIpv4Addr := by
  have hoctet : ∀ i, Stops t (NetAddr.readSeparator '.' i (NetAddr.readNumber 256 10 (some 3) false)) :=
    fun i => .readSeparator hdot (.readNumber ht)
  exact .bind (hoctet 0) fun a => .bind (hoctet 1) fun b => .bind (hoctet 2) fun c =>
    .bind (hoctet 3) fun d => .pure _

/-- What does not go on with an IPv6 address. -/
structure NotIpv6 (t : List Char) : Prop where
  digit : NoDigit 16 t
  decimal : NoDigit 10 t
  dot : t.head? ≠ some '.'
  colon : t.head? ≠ some ':'

theorem Stops.readEmbedded (ht : NotIpv6 t) (i n : ℕ) : Stops t (readEmbedded i n) := by
  unfold NetAddr.readEmbedded
  split_ifs
  · exact .bind (.readSeparator ht.colon (.readIpv4Addr ht.decimal ht.dot)) fun ip => .pure _
  · exact .failure

theorem Stops.readGroups (ht : NotIpv6 t) (i n : ℕ) : Stops t (readGroups i n) := by
  induction n generalizing i with
  | zero => exact .pure _
  | succ n ih =>
    refine .bind (.optional (.readEmbedded ht i (n+1))) fun embedded => ?_
    cases embedded with
    | some gs => exact .pure _
    | none =>
      refine .bind (.optional (.readSeparator ht.colon (.readNumber ht.digit))) fun group => ?_
      cases group with
      | none => exact .pure _
      | some g => exact .bind (ih (i+1)) fun gs => .pure _

theorem Stops.readIpv6Addr (ht : NotIpv6 t) : Stops t readIpv6Addr := by
  refine .bind (.readGroups ht 0 8) fun front => ?_
  dsimp only
  split_ifs
  · exact .pure _
  · exact .failure
  · exact .bind (.readGivenChar ht.colon) fun _ => .bind (.readGivenChar ht.colon) fun _ =>
      .bind (.readGroups ht 0 _) fun _ => .pure _

end Stops

section Join
variable {α : Type}

theorem parse_eq_some {p : Parser α} {s : List Char} {a : α} : parse p s = some a ↔ p s = some (a,[]) := by
  unfold parse
  constructor
  · intro h
    split at h
    · cases h
      assumption
    · cases h
  · intro h
    rw [h]

theorem toDigit_of_isDigit {c : Char} (hc : c.isDigit) : toDigit 10 c = some (c.toNat - '0'.toNat) := by
  have hc : '0' ≤ c ∧ c ≤ '9' := by simpa [Char.isDigit, Char.le_def] using hc
  have hle : c.toNat ≤ '9'.toNat := hc.2
  have hlt : c.toNat - '0'.toNat < 10 := by
    change c.toNat ≤ 57 at hle
    change c.toNat-48 < 10
    omega
  rw [toDigit, if_pos hc, Option.filter_some, if_pos (decide_eq_true hlt)]

theorem readDigits_decimal {bound : ℕ} (cs : List Char) (hcs : ∀ c ∈ cs, c.isDigit) (init count : ℕ)
    (hb : Nat.ofDigitChars 10 cs init < bound) :
    readDigits bound 10 none init count cs = some (Nat.ofDigitChars 10 cs init,count+cs.length,[]) := by
  induction cs generalizing init count with
  | nil => simp [readDigits]
  | cons c cs ih =>
    obtain ⟨hc,hcs⟩ := List.forall_mem_cons.mp hcs
    rw [Nat.ofDigitChars_cons] at hb ⊢
    have hle : 10*init+(c.toNat - '0'.toNat) ≤ Nat.ofDigitChars 10 cs (10*init+(c.toNat - '0'.toNat)) := by
      rw [Nat.ofDigitChars_eq_ofDigitChars_zero]
      exact (Nat.le_mul_of_pos_left _ (Nat.pow_pos (by omega))).trans (Nat.le_add_right _ _)
    have hlt : ¬ bound ≤ 10*init+(c.toNat - '0'.toNat) := by omega
    simp only [readDigits, toDigit_of_isDigit hc, Nat.mul_comm init, Option.elim_none, hlt,
      decide_false, Bool.false_eq_true, if_false]
    rw [ih hcs _ _ hb, List.length_cons]
    congr 3
    omega

theorem decimal_isDigit {n : ℕ} {c : Char} (hc : c ∈ decimal n) : c.isDigit :=
  Nat.isDigit_of_mem_toDigits (by decide) (by decide) hc

/-- A number that is displayed is read back. -/
theorem readNumber_decimal {bound : ℕ} (n : Fin bound) :
    readNumber bound 10 none true (decimal n) = some (n,[]) := by
  have hn : Nat.ofDigitChars 10 (decimal n) 0 = n := Nat.ofDigitChars_ten_toDigits
  have hread := readDigits_decimal (decimal n) (fun c => decimal_isDigit) 0 0 (hn ▸ n.isLt)
  have hlen : 0+(decimal n).length ≠ 0 := by
    have := List.length_pos_of_ne_nil (Nat.toDigits_ne_nil (n := n) (b := 10))
    change 0 < (decimal n).length at this
    omega
  simp only [readNumber, hread, hn, hlen]
  simp

/-- The port goes to the last colon. -/
theorem parse_readPort (port : Fin 65536) (s : List Char) :
    parse readPort (s ++ ':' :: decimal port) = if s = [] then some port else none := by
  cases s with
  | nil =>
    rw [if_pos rfl, parse_eq_some]
    exact readNumber_decimal port
  | cons c s =>
    rw [if_neg (List.cons_ne_nil c s), Option.eq_none_iff_forall_ne_some]
    intro q hq
    rw [parse_eq_some, readPort, bind_apply] at hq
    obtain ⟨⟨_,r⟩,hc,hq⟩ := Option.bind_eq_some_iff.mp hq
    simp only [List.cons_append, readGivenChar] at hc
    split_ifs at hc
    cases hc
    have hstop : Stops (':' :: decimal port) (readNumber 65536 10 none true) := .readNumber (by
      intro c hc
      cases hc
      rfl)
    rw [hstop.append] at hq
    obtain ⟨x,-,hx⟩ := Option.map_eq_some_iff.mp hq
    simp at hx

theorem parse_bind {β : Type} (p : Parser α) (f : α → Parser β) (s : List Char) :
    parse (p >>= f) s = (p s).bind fun x => parse (f x.1) x.2 := by
  rw [parse, bind_apply]
  cases p s <;> rfl

theorem parse_return {β : Type} (p : Parser α) (f : α → β) (s : List Char) :
    parse (p >>= fun a => pure (f a)) s = (parse p s).map f := by
  rw [parse_bind, parse]
  cases p s with
  | none => rfl
  | some x =>
    obtain ⟨a,r⟩ := x
    cases r <;> rfl

/-- What is read before a port. -/
theorem Stops.parse_port {p : Parser α} {port : Fin 65536} (hp : Stops (':' :: decimal port) p)
    {β : Type} (f : α → Fin 65536 → β) (s : List Char) :
    parse (do let a ← p; let port ← readPort; return f a port) (s ++ ':' :: decimal port) =
      (parse p s).map fun a => f a port := by
  rw [parse_bind, hp.append]
  simp only [parse_return]
  cases hs : p s with
  | none => simp [parse, hs]
  | some x =>
    obtain ⟨a,r⟩ := x
    rw [Option.map_some, Option.bind_some, parse_readPort, parse, hs]
    cases r <;> rfl

theorem readClosed_append {c : Char} {p : Parser α} (hp : ∀ t, Stops (c :: t) p) {s : List Char}
    (hs : c ∉ s) (t : List Char) : readClosed p c (s ++ c :: t) = (parse p s).map fun a => (a,t) := by
  rw [readClosed, bind_apply, (hp t).append]
  cases hr : p s with
  | none => simp [parse, hr]
  | some x =>
    obtain ⟨a,r⟩ := x
    rw [Option.map_some, Option.bind_some, bind_apply, parse, hr]
    cases r with
    | nil =>
      simp only [List.nil_append, readGivenChar, if_true]
      rfl
    | cons d r =>
      have hd : d ≠ c := fun h => hs (((hp t).suffix hr).subset (h ▸ List.mem_cons_self))
      simp [readGivenChar, hd]

theorem readClosed_open {c : Char} {p : Parser α} (hp : ∀ t, Stops (c :: t) p) {s : List Char}
    (hs : c ∉ s) : readClosed p c s = none := by
  rw [readClosed, bind_apply]
  cases hr : p s with
  | none => rfl
  | some x =>
    obtain ⟨a,r⟩ := x
    rw [Option.bind_some, bind_apply]
    cases r with
    | nil => rfl
    | cons d r =>
      have hd : d ≠ c := fun h => hs (((hp []).suffix hr).subset (h ▸ List.mem_cons_self))
      simp [readGivenChar, hd]

/-- A reader that a character closes stops before everything that does not have the character. -/
theorem Stops.readClosed {c : Char} {p : Parser α} (hp : ∀ t, Stops (c :: t) p) {t : List Char}
    (ht : c ∉ t) : Stops t (readClosed p c) where
  suffix {s a r} h := by
    by_cases hs : c ∈ s
    · obtain ⟨g,k,rfl,hg⟩ := List.eq_append_cons_of_mem hs
      rw [readClosed_append hp hg] at h
      obtain ⟨b,-,hb⟩ := Option.map_eq_some_iff.mp h
      cases hb
      exact ⟨g ++ [c],by simp⟩
    · rw [readClosed_open hp hs] at h
      cases h
  append s := by
    by_cases hs : c ∈ s
    · obtain ⟨g,k,rfl,hg⟩ := List.eq_append_cons_of_mem hs
      rw [List.append_assoc, List.cons_append, readClosed_append hp hg, readClosed_append hp hg,
        Option.map_map]
      rfl
    · rw [readClosed_open hp hs, readClosed_open hp (by simp [hs, ht])]
      rfl

theorem notIpv6_bracket (t : List Char) : NotIpv6 (']' :: t) := by
  constructor
  · intro c hc
    cases hc
    rfl
  · intro c hc
    cases hc
    rfl
  · simp
  · simp

theorem Stops.readScoped (t : List Char) : Stops (']' :: t) readScoped :=
  .bind (.readIpv6Addr (notIpv6_bracket t)) fun _ => .bind (.optional (.bind (.readGivenChar (by simp))
    fun _ => .readNumber (notIpv6_bracket t).decimal)) fun _ => .pure _

theorem notMem_decimal {c : Char} (hc : c.isDigit = false) (n : ℕ) : c ∉ decimal n := fun h => by
  simp [decimal_isDigit h] at hc

theorem Stops.readBracketed (port : ℕ) : Stops (':' :: decimal port) readBracketed :=
  .bind (.readGivenChar (by simp)) fun _ => .readClosed readScoped
    (by simpa using notMem_decimal rfl port)

/-- What starts with a bracket starts with no octet, so that only one of the readers gets anywhere. -/
theorem parse_v4_or_v6 (s : List Char) : parseSocketAddr s =
    (parse readSocketAddrV4 s).or (parse readSocketAddrV6 s) := by
  have hor : readSocketAddrV4 s = none ∨ readSocketAddrV6 s = none := by
    cases s with
    | nil => exact Or.inl rfl
    | cons c s =>
      by_cases hc : c = '['
      · subst hc
        exact Or.inl rfl
      · refine Or.inr ?_
        rw [readSocketAddrV6, bind_apply, readBracketed, bind_apply]
        simp [readGivenChar, hc]
  rw [parseSocketAddr, parse, orElse_apply]
  obtain h | h := hor
  · simp [parse, h]
  · simp [parse, h]

theorem parseSocketAddr_port (s : List Char) (port : Fin 65536) :
    parseSocketAddr (s ++ ':' :: decimal port) = (parseHost s).map (IpHost.withPort port) := by
  have h4 : Stops (':' :: decimal port) readIpv4Addr := .readIpv4Addr (by
    intro c hc
    cases hc
    rfl) (by simp)
  rw [parse_v4_or_v6, readSocketAddrV4, h4.parse_port, readSocketAddrV6,
    (Stops.readBracketed port).parse_port, parseHost, Option.map_or, Option.map_map, Option.map_map]
  rfl

/-- Between brackets an IPv6 address is a host. -/
theorem parseHost_bracketed {s : List Char} {ip : Ipv6Addr} (h : parse readIpv6Addr s = some ip) :
    parseHost ('[' :: (s ++ [']'])) = some (.ofIpv6 ip) := by
  have hscoped : parse readScoped s = some (ip,0) := by
    rw [readScoped, parse_bind, parse_eq_some.mp h]
    rfl
  have hno : ']' ∉ s := by
    intro hmem
    obtain ⟨g,k,rfl,-⟩ := List.eq_append_cons_of_mem hmem
    have hread := parse_eq_some.mp h
    rw [(Stops.readIpv6Addr (notIpv6_bracket k)).append] at hread
    obtain ⟨x,-,hx⟩ := Option.map_eq_some_iff.mp hread
    simp at hx
  have hclosed : readBracketed ('[' :: (s ++ [']'])) = some ((ip,0),[]) := by
    change readClosed readScoped ']' (s ++ [']']) = _
    rw [readClosed_append Stops.readScoped hno, hscoped]
    rfl
  rw [parseHost, parse_eq_some.mpr hclosed]
  rfl

end Join
end NetAddr
