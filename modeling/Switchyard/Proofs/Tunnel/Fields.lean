import Switchyard.Proofs.Bytes
import Switchyard.Proofs.Text.Utf8
import Switchyard.Tunnel.Header

/-!
# Fields of a header

What each reader takes off the front of a message, as an equivalence: `bytes_eq_ok`, `byte_eq_ok`,
`uint16_eq_ok` and `host_eq_ok` give the bytes that make a reader succeed, and no other bytes do.
`bind_eq_ok` joins them along a header. The host that was read has a text; `Host.Spells` says which,
for each kind of host by itself.
-/

namespace Switchyard

/-! ### Hosts on the wire -/

namespace Host

/-- A header can carry the host: an address has as many octets as its kind, and the length of a name
fits a byte. -/
def Fits : Host → Prop
  | ipv4 octets => octets.length = 4
  | domain name => name.length ≤ 255
  | ipv6 octets => octets.length = 16

instance : DecidablePred Fits := fun
  | ipv4 octets => inferInstanceAs (Decidable (octets.length = 4))
  | domain name => inferInstanceAs (Decidable (name.length ≤ 255))
  | ipv6 octets => inferInstanceAs (Decidable (octets.length = 16))

/-- The bytes of the host behind the byte that announces its kind. -/
def address : Host → Bytes
  | ipv4 octets => octets
  | domain name => UInt8.ofNat name.length :: name
  | ipv6 octets => octets

/-- The text of a host: four decimal numbers between dots, the lenient reading of a name, or eight
hexadecimal groups between colons. -/
inductive Spells : Host → List Char → Prop
  | ipv4 (a b c d : UInt8) :
      Spells (.ipv4 [a, b, c, d])
        (Nat.toDigits 10 a.toNat ++ ['.'] ++ Nat.toDigits 10 b.toNat ++ ['.'] ++
          Nat.toDigits 10 c.toNat ++ ['.'] ++ Nat.toDigits 10 d.toNat)
  | domain {name : Bytes} {cs : List Char} : Utf8.Lossy name cs → Spells (.domain name) cs
  | ipv6 (groups : List UInt16) (length_eq : groups.length = 8) :
      Spells (.ipv6 (groups.flatMap fun g => Bytes.ofNat 2 g.toNat))
        (List.intercalate [':'] (groups.map fun g => Nat.toDigits 16 g.toNat))

theorem groups_flatMap (groups : List UInt16) :
    Host.groups (groups.flatMap fun g => Bytes.ofNat 2 g.toNat) = groups := by
  induction groups with
  | nil => rfl
  | cons g groups ih =>
    have hg := g.toNat_lt
    have hgroup :
        IpAddress.groupOf (UInt8.ofNat (g.toNat / 256)) (UInt8.ofNat g.toNat) = g := by
      rw [← UInt16.toNat_inj, IpAddress.groupOf, UInt16.toNat_ofNat', UInt8.toNat_ofNat',
        UInt8.toNat_ofNat']
      omega
    exact congrArg₂ List.cons hgroup ih

/-- Octets in pairs are groups. -/
theorem exists_flatMap_eq {n : Nat} {octets : Bytes} (h : octets.length = 2 * n) :
    ∃ groups : List UInt16,
      groups.length = n ∧ (groups.flatMap fun g => Bytes.ofNat 2 g.toNat) = octets := by
  induction n generalizing octets with
  | zero => exact ⟨[], rfl, (List.eq_nil_of_length_eq_zero h).symm⟩
  | succ n ih =>
    match octets, h with
    | hi :: lo :: rest, h =>
      obtain ⟨groups, hl, rfl⟩ := ih (Nat.add_right_cancel (m := 2) h)
      have hpair : Bytes.ofNat 2 (IpAddress.groupOf hi lo).toNat = [hi, lo] := by
        have hhi := hi.toNat_lt
        have hlo := lo.toNat_lt
        have hn : (IpAddress.groupOf hi lo).toNat = Bytes.toNat [hi, lo] := by
          show (UInt16.ofNat _).toNat = 256 * (256 * 0 + hi.toNat) + lo.toNat
          rw [UInt16.toNat_ofNat']
          omega
        rw [hn]
        exact Bytes.ofNat_toNat [hi, lo]
      refine ⟨IpAddress.groupOf hi lo :: groups, congrArg (· + 1) hl, ?_⟩
      rw [List.flatMap_cons, hpair]
      rfl

/-- A host that fits a header has one text. -/
theorem text_eq_iff {h : Host} (hf : h.Fits) {cs : List Char} : h.text = cs ↔ h.Spells cs := by
  cases h with
  | ipv4 octets =>
    match octets, hf with
    | [a, b, c, d], _ =>
      have hs : (Host.ipv4 [a, b, c, d]).Spells (Host.ipv4 [a, b, c, d]).text := by
        simpa [Host.text, IpAddress.dotted, Numeral.ofNat, List.intercalate] using
          Spells.ipv4 a b c d
      refine ⟨fun h => h ▸ hs, fun h => ?_⟩
      cases h
      simp [Host.text, IpAddress.dotted, Numeral.ofNat, List.intercalate]
  | domain name => exact Utf8.lossy_eq_iff.trans ⟨.domain, fun h => by cases h; assumption⟩
  | ipv6 octets =>
    obtain ⟨groups, hl, rfl⟩ := exists_flatMap_eq (n := 8) hf
    rw [Host.text, groups_flatMap]
    refine ⟨fun h => h ▸ .ipv6 groups hl, fun h => ?_⟩
    generalize e : (groups.flatMap fun g => Bytes.ofNat 2 g.toNat) = octets at h
    cases h with
    | ipv6 groups' =>
      rw [← groups_flatMap groups, e, groups_flatMap]
      rfl

end Host

namespace Header

/-! ### Single fields -/

section Fields

variable {α β : Type} {p q : Position}

theorem bind_eq_ok {r : Reader α} {k : α → Reader β} {b : β} :
    (r >>= k) p = .ok (b, q) ↔ ∃ a m, r p = .ok (a, m) ∧ k a m = .ok (b, q) := by
  show Except.bind (r p) (fun s => k s.1 s.2) = _ ↔ _
  cases r p with
  | error e => exact ⟨nofun, nofun⟩
  | ok s =>
    constructor
    · intro h
      exact ⟨s.1, s.2, rfl, h⟩
    · rintro ⟨a, m, he, h⟩
      cases he
      exact h

theorem bind_eq_error {r : Reader α} {k : α → Reader β} {e : Refusal} :
    (r >>= k) p = .error e ↔ r p = .error e ∨ ∃ a m, r p = .ok (a, m) ∧ k a m = .error e := by
  show Except.bind (r p) (fun s => k s.1 s.2) = _ ↔ _
  cases r p with
  | error e' =>
    constructor
    · intro h
      cases h
      exact .inl rfl
    · rintro (he | ⟨a, m, he, -⟩)
      · cases he
        rfl
      · cases he
  | ok s =>
    constructor
    · intro h
      exact .inr ⟨s.1, s.2, rfl, h⟩
    · rintro (he | ⟨a, m, he, h⟩)
      · cases he
      · cases he
        exact h

theorem exists_bind_eq_ok {r : Reader α} {k : α → Reader β} {b : β} {a : α} {m : Position}
    (h : r p = .ok (a, m)) (hk : ∃ q, k a m = .ok (b, q)) : ∃ q, (r >>= k) p = .ok (b, q) := by
  obtain ⟨q, hk⟩ := hk
  exact ⟨q, bind_eq_ok.2 ⟨a, m, h, hk⟩⟩

theorem pure_eq_ok {a b : α} : (pure a : Reader α) p = .ok (b, q) ↔ b = a ∧ q = p := by
  show Except.ok (a, p) = _ ↔ _
  simp [eq_comm]

theorem require_eq_ok {c : Bool} {r : Refusal} {u : Unit} :
    require c r p = .ok (u, q) ↔ c = true ∧ q = p := by
  cases c with
  | false => exact ⟨nofun, nofun⟩
  | true => exact pure_eq_ok.trans ⟨fun h => ⟨rfl, h.2⟩, fun h => ⟨rfl, h.2⟩⟩

theorem bytes_eq_ok {n : Nat} {bs : Bytes} :
    bytes n p = .ok (bs, q) ↔
      bs.length = n ∧ p.rest = bs ++ q.rest ∧ q.offset = p.offset + n := by
  obtain ⟨offset, rest⟩ := p
  obtain ⟨offset', rest'⟩ := q
  unfold bytes
  constructor
  · intro h
    split at h
    · next hn =>
      cases h
      exact ⟨List.length_take_of_le hn, (List.take_append_drop n rest).symm, rfl⟩
    · cases h
  · rintro ⟨rfl, hr, ho⟩
    simp only at hr ho
    subst hr ho
    simp

theorem byte_eq_ok {b : UInt8} :
    byte p = .ok (b, q) ↔ p.rest = b :: q.rest ∧ q.offset = p.offset + 1 := by
  obtain ⟨offset, rest⟩ := p
  obtain ⟨offset', rest'⟩ := q
  cases rest with
  | nil => simp [byte]
  | cons x rest => simp [byte, and_assoc, and_comm, eq_comm]

theorem uint16_eq_ok {n : UInt16} :
    uint16 p = .ok (n, q) ↔
      p.rest = Bytes.ofNat 2 n.toNat ++ q.rest ∧ q.offset = p.offset + 2 := by
  unfold uint16
  rw [bind_eq_ok]
  constructor
  · rintro ⟨bs, m, hb, hm⟩
    obtain ⟨rfl, rfl⟩ := pure_eq_ok.1 hm
    obtain ⟨hl, hr, ho⟩ := bytes_eq_ok.1 hb
    have hlt := Bytes.toNat_lt bs
    rw [hl] at hlt
    have hn : (UInt16.ofNat (Bytes.toNat bs)).toNat = Bytes.toNat bs := by
      rw [UInt16.toNat_ofNat']
      exact Nat.mod_eq_of_lt hlt
    rw [hn, Bytes.ofNat_toNat_of_length hl]
    exact ⟨hr, ho⟩
  · rintro ⟨hr, ho⟩
    refine ⟨_, q, bytes_eq_ok.2 ⟨Bytes.length_ofNat 2 _, hr, ho⟩, pure_eq_ok.2 ⟨?_, rfl⟩⟩
    rw [← UInt16.toNat_inj, UInt16.toNat_ofNat', Bytes.toNat_ofNat]
    have hn := n.toNat_lt
    rw [show Nat.pow 256 2 = 65536 from rfl]
    omega

/-- Two bytes write one number. -/
theorem uint16_bytes_inj {a b : UInt16} (h : Bytes.ofNat 2 a.toNat = Bytes.ofNat 2 b.toNat) :
    a = b := by
  have ha : uint16 ⟨0, Bytes.ofNat 2 a.toNat⟩ = .ok (a, ⟨2, []⟩) :=
    uint16_eq_ok.2 ⟨(List.append_nil _).symm, rfl⟩
  have hb : uint16 ⟨0, Bytes.ofNat 2 a.toNat⟩ = .ok (b, ⟨2, []⟩) :=
    uint16_eq_ok.2 ⟨h.trans (List.append_nil _).symm, rfl⟩
  exact (Prod.mk.inj (Except.ok.inj (ha.symm.trans hb))).1

theorem rest_eq_ok {bs : Bytes} :
    rest p = .ok (bs, q) ↔ p.rest = bs ∧ q = ⟨p.offset + bs.length, []⟩ := by
  unfold rest
  constructor
  · intro h
    cases h
    exact ⟨rfl, rfl⟩
  · rintro ⟨rfl, rfl⟩
    rfl

theorem run_eq_ok {r : Reader α} {message : Bytes} {a : α} :
    run r message = .ok a ↔ ∃ q, r (.start message) = .ok (a, q) := by
  unfold run
  cases r (.start message) with
  | error e => simp [Except.map]
  | ok s => simp [Except.map, Prod.ext_iff]

theorem run_eq_error {r : Reader α} {message : Bytes} {e : Refusal} :
    run r message = .error e ↔ r (.start message) = .error e := by
  unfold run
  cases r (.start message) with
  | error e' => simp [Except.map]
  | ok s => simp [Except.map]

end Fields

/-! ### Hosts -/

/-- The byte that announces a host. -/
def AddressKinds.byte (kinds : AddressKinds) : Host → UInt8
  | .ipv4 _ => kinds.ipv4
  | .domain _ => kinds.domain
  | .ipv6 _ => kinds.ipv6

/-- No byte announces two kinds. -/
def AddressKinds.Distinct (kinds : AddressKinds) : Prop :=
  kinds.ipv4 ≠ kinds.domain ∧ kinds.ipv4 ≠ kinds.ipv6 ∧ kinds.domain ≠ kinds.ipv6

theorem name_eq_ok {p q : Position} {h : Host} :
    (do return .domain (← bytes (← byte).toNat) : Reader Host) p = .ok (h, q) ↔
      ∃ name, h = .domain name ∧ h.Fits ∧ p.rest = h.address ++ q.rest ∧
        q.offset = p.offset + h.address.length := by
  constructor
  · intro hr
    obtain ⟨n, m, hb, hr⟩ := bind_eq_ok.1 hr
    obtain ⟨name, m', hn, hr⟩ := bind_eq_ok.1 hr
    obtain ⟨rfl, rfl⟩ := pure_eq_ok.1 hr
    obtain ⟨hb, hbo⟩ := byte_eq_ok.1 hb
    obtain ⟨hl, hn, hno⟩ := bytes_eq_ok.1 hn
    have hlt := n.toNat_lt
    have hlen : UInt8.ofNat name.length = n := by rw [hl, UInt8.ofNat_toNat]
    refine ⟨name, rfl, ?_, ?_, ?_⟩
    · show name.length ≤ 255
      omega
    · rw [hb, hn, Host.address, hlen]
      rfl
    · rw [hno, hbo, Host.address, List.length_cons, hl]
      omega
  · rintro ⟨name, rfl, hf, hr, ho⟩
    have hf : name.length ≤ 255 := hf
    have hlen : (UInt8.ofNat name.length).toNat = name.length := by
      rw [UInt8.toNat_ofNat']
      omega
    rw [bind_eq_ok]
    refine ⟨UInt8.ofNat name.length, ⟨p.offset + 1, name ++ q.rest⟩, byte_eq_ok.2 ⟨hr, rfl⟩, ?_⟩
    rw [bind_eq_ok]
    refine ⟨name, q, bytes_eq_ok.2 ⟨hlen.symm, rfl, ?_⟩, pure_eq_ok.2 ⟨rfl, rfl⟩⟩
    rw [ho, hlen, Host.address, List.length_cons]
    show _ = p.offset + 1 + name.length
    omega

theorem octets_eq_ok {n : Nat} {wrap : Bytes → Host} {p q : Position} {h : Host} :
    (do return wrap (← bytes n) : Reader Host) p = .ok (h, q) ↔
      ∃ octets, h = wrap octets ∧ octets.length = n ∧ p.rest = octets ++ q.rest ∧
        q.offset = p.offset + octets.length := by
  rw [bind_eq_ok]
  constructor
  · rintro ⟨octets, m, hb, hr⟩
    obtain ⟨rfl, rfl⟩ := pure_eq_ok.1 hr
    obtain ⟨hl, hb, ho⟩ := bytes_eq_ok.1 hb
    exact ⟨octets, rfl, hl, hb, hl ▸ ho⟩
  · rintro ⟨octets, rfl, rfl, hr, ho⟩
    exact ⟨octets, q, bytes_eq_ok.2 ⟨rfl, hr, ho⟩, pure_eq_ok.2 ⟨rfl, rfl⟩⟩

/-- A host is read exactly where its bytes stand and the byte before them announced its kind. -/
theorem host_eq_ok {kinds : AddressKinds} (hk : kinds.Distinct) {kind : UInt8} {p q : Position}
    {h : Host} :
    host kinds kind p = .ok (h, q) ↔
      kind = kinds.byte h ∧ h.Fits ∧ p.rest = h.address ++ q.rest ∧
        q.offset = p.offset + h.address.length := by
  obtain ⟨h12, h13, h23⟩ := hk
  unfold host
  -- One case for each byte that announces a kind; another kind of host would need two of them equal.
  split
  · next h4 =>
    rw [octets_eq_ok]
    constructor
    · rintro ⟨octets, rfl, hf⟩
      exact ⟨h4, hf⟩
    · rintro ⟨hb, hf⟩
      cases h with
      | ipv4 octets => exact ⟨octets, rfl, hf⟩
      | domain name => exact absurd (h4.symm.trans hb) h12
      | ipv6 octets => exact absurd (h4.symm.trans hb) h13
  split
  · next h4 hd =>
    rw [name_eq_ok]
    constructor
    · rintro ⟨name, rfl, hf⟩
      exact ⟨hd, hf⟩
    · rintro ⟨hb, hf⟩
      cases h with
      | ipv4 octets => exact absurd hb h4
      | domain name => exact ⟨name, rfl, hf⟩
      | ipv6 octets => exact absurd (hd.symm.trans hb) h23
  split
  · next h4 hd h6 =>
    rw [octets_eq_ok]
    constructor
    · rintro ⟨octets, rfl, hf⟩
      exact ⟨h6, hf⟩
    · rintro ⟨hb, hf⟩
      cases h with
      | ipv4 octets => exact absurd hb h4
      | domain name => exact absurd hb hd
      | ipv6 octets => exact ⟨octets, rfl, hf⟩
  · next h4 hd h6 =>
    refine ⟨nofun, ?_⟩
    rintro ⟨hb, -⟩
    cases h with
    | ipv4 octets => exact absurd hb h4
    | domain name => exact absurd hb hd
    | ipv6 octets => exact absurd hb h6

/-- Behind one kind byte there is one host. -/
theorem address_append_inj {kinds : AddressKinds} (hk : kinds.Distinct) {h h' : Host}
    {bs bs' : Bytes} (hf : h.Fits) (hf' : h'.Fits) (hkind : kinds.byte h = kinds.byte h')
    (e : h.address ++ bs = h'.address ++ bs') : h = h' ∧ bs = bs' := by
  -- The reader gives both of them from the same bytes.
  have hread : host kinds (kinds.byte h) ⟨0, h.address ++ bs⟩ = .ok (h, ⟨_, bs⟩) :=
    (host_eq_ok hk).2 ⟨rfl, hf, rfl, rfl⟩
  have hread' : host kinds (kinds.byte h) ⟨0, h.address ++ bs⟩ = .ok (h', ⟨_, bs'⟩) :=
    (host_eq_ok hk).2 ⟨hkind, hf', e, rfl⟩
  obtain ⟨rfl, hq⟩ := Prod.mk.inj (Except.ok.inj (hread.symm.trans hread'))
  exact ⟨rfl, (Position.mk.inj hq).2⟩

end Header

end Switchyard
