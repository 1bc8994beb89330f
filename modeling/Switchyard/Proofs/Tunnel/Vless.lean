import Switchyard.Proofs.Tunnel.Fields
import Switchyard.Tunnel.Vless

/-!
# The VLESS format

A VLESS message has one layout: the version, the user's UUID, a length byte and that many bytes of
add-ons, the command, the TCP number, and a host with the byte of its kind in front; what follows is
the payload. `parse_eq_ok` says that a message is accepted exactly when it is laid out so, and
`Layout.bytes_inj` that it can be in one way only.
-/

namespace Switchyard.Vless

open Header

/-- The parts of a message besides the user's UUID. -/
@[ext] structure Layout where
  version : UInt8
  addOns : Bytes
  length_addOns : addOns.length ≤ 255
  command : UInt8
  tcp : UInt16
  host : Host
  host_fits : host.Fits
  payload : Bytes

namespace Layout

variable (m : Layout) (id : Identity)

/-- The byte that announces the host. -/
def kind : UInt8 :=
  match m.host with
  | .ipv4 _ => 1
  | .domain _ => 2
  | .ipv6 _ => 3

/-- The message of the user. -/
def bytes : Bytes :=
  [m.version] ++ id.uuid ++ [UInt8.ofNat m.addOns.length] ++ m.addOns ++ [m.command] ++
    Bytes.ofNat 2 m.tcp.toNat ++ [m.kind] ++ m.host.address ++ m.payload

/-- What the message asks for. -/
def request : TunnelRequest where
  scheme := .vless
  host := m.host
  tcp := m.tcp
  payload := m.payload

theorem kind_eq : m.kind = kinds.byte m.host := by
  unfold kind
  cases m.host <;> rfl

theorem bytes_eq :
    m.bytes id = m.version :: (id.uuid ++ UInt8.ofNat m.addOns.length :: (m.addOns ++ m.command ::
      (Bytes.ofNat 2 m.tcp.toNat ++ m.kind :: (m.host.address ++ m.payload)))) := by
  simp [bytes]

end Layout

theorem kinds_distinct : kinds.Distinct := by
  unfold AddressKinds.Distinct
  decide

/-- A message is accepted exactly when it is laid out as one of the user. -/
theorem parse_eq_ok {id : Identity} {message : Bytes} {r : TunnelRequest} :
    parse id message = .ok r ↔ ∃ m : Layout, m.bytes id = message ∧ m.request = r := by
  unfold parse
  rw [run_eq_ok]
  constructor
  · rintro ⟨q, h⟩
    obtain ⟨version, p₁, h₁, h⟩ := bind_eq_ok.1 h
    obtain ⟨uuid, p₂, h₂, h⟩ := bind_eq_ok.1 h
    obtain ⟨_, p₃, h₃, h⟩ := bind_eq_ok.1 h
    obtain ⟨n, p₄, h₄, h⟩ := bind_eq_ok.1 h
    obtain ⟨addOns, p₅, h₅, h⟩ := bind_eq_ok.1 h
    obtain ⟨command, p₆, h₆, h⟩ := bind_eq_ok.1 h
    obtain ⟨tcp, p₇, h₇, h⟩ := bind_eq_ok.1 h
    obtain ⟨kind, p₈, h₈, h⟩ := bind_eq_ok.1 h
    obtain ⟨host, p₉, h₉, h⟩ := bind_eq_ok.1 h
    obtain ⟨payload, p₁₀, h₁₀, h⟩ := bind_eq_ok.1 h
    obtain ⟨rfl, -⟩ := pure_eq_ok.1 h
    -- What each field took off the front, from the first to the last.
    obtain ⟨e₁, -⟩ := byte_eq_ok.1 h₁
    obtain ⟨-, e₂, -⟩ := bytes_eq_ok.1 h₂
    obtain ⟨hid, rfl⟩ := require_eq_ok.1 h₃
    obtain ⟨e₄, -⟩ := byte_eq_ok.1 h₄
    obtain ⟨hn, e₅, -⟩ := bytes_eq_ok.1 h₅
    obtain ⟨e₆, -⟩ := byte_eq_ok.1 h₆
    obtain ⟨e₇, -⟩ := uint16_eq_ok.1 h₇
    obtain ⟨e₈, -⟩ := byte_eq_ok.1 h₈
    obtain ⟨hk, hf, e₉, -⟩ := (host_eq_ok kinds_distinct).1 h₉
    obtain ⟨e₁₀, -⟩ := rest_eq_ok.1 h₁₀
    have hid : uuid = id.uuid := eq_of_beq hid
    have hlt := n.toNat_lt
    refine ⟨⟨version, addOns, by omega, command, tcp, host, hf, payload⟩, ?_, rfl⟩
    have hlen : UInt8.ofNat addOns.length = n := by rw [hn, UInt8.ofNat_toNat]
    rw [Layout.bytes_eq, Layout.kind_eq, ← hk, hlen, ← hid, ← e₁₀, ← e₉, ← e₈, ← e₇, ← e₆, ← e₅,
      ← e₄, ← e₂, ← e₁]
    rfl
  · rintro ⟨m, rfl, rfl⟩
    have hlen : m.addOns.length = (UInt8.ofNat m.addOns.length).toNat := by
      have := m.length_addOns
      rw [UInt8.toNat_ofNat']
      omega
    rw [Layout.bytes_eq]
    -- Each reader finds its field at the front of what the ones before it have left.
    refine exists_bind_eq_ok (m := ⟨_, _⟩) (byte_eq_ok.2 ⟨rfl, rfl⟩) ?_
    refine exists_bind_eq_ok (m := ⟨_, _⟩) (bytes_eq_ok.2 ⟨id.length_uuid, rfl, rfl⟩) ?_
    refine exists_bind_eq_ok (a := ()) (require_eq_ok.2 ⟨beq_self_eq_true id.uuid, rfl⟩) ?_
    refine exists_bind_eq_ok (m := ⟨_, _⟩) (byte_eq_ok.2 ⟨rfl, rfl⟩) ?_
    refine exists_bind_eq_ok (m := ⟨_, _⟩) (bytes_eq_ok.2 ⟨hlen, rfl, rfl⟩) ?_
    refine exists_bind_eq_ok (m := ⟨_, _⟩) (byte_eq_ok.2 ⟨rfl, rfl⟩) ?_
    refine exists_bind_eq_ok (m := ⟨_, _⟩) (uint16_eq_ok.2 ⟨rfl, rfl⟩) ?_
    refine exists_bind_eq_ok (m := ⟨_, _⟩) (byte_eq_ok.2 ⟨rfl, rfl⟩) ?_
    refine exists_bind_eq_ok (m := ⟨_, _⟩)
      ((host_eq_ok kinds_distinct).2 ⟨m.kind_eq, m.host_fits, rfl, rfl⟩) ?_
    exact exists_bind_eq_ok (rest_eq_ok.2 ⟨rfl, rfl⟩) ⟨_, pure_eq_ok.2 ⟨rfl, rfl⟩⟩

/-- A message is laid out in one way only. -/
theorem Layout.bytes_inj {id : Identity} {m m' : Layout} (h : m.bytes id = m'.bytes id) :
    m = m' := by
  rw [Layout.bytes_eq, Layout.bytes_eq] at h
  obtain ⟨hversion, h⟩ := List.cons.inj h
  obtain ⟨-, h⟩ := List.append_inj h rfl
  obtain ⟨hn, h⟩ := List.cons.inj h
  -- The byte tells the length of the add-ons, since they are at most 255 bytes.
  have hl := m.length_addOns
  have hl' := m'.length_addOns
  have hlen : m.addOns.length = m'.addOns.length := by
    have := congrArg UInt8.toNat hn
    rw [UInt8.toNat_ofNat', UInt8.toNat_ofNat'] at this
    omega
  obtain ⟨haddOns, h⟩ := List.append_inj h hlen
  obtain ⟨hcommand, h⟩ := List.cons.inj h
  obtain ⟨htcp, h⟩ := List.append_inj h (by simp)
  obtain ⟨hkind, h⟩ := List.cons.inj h
  rw [m.kind_eq, m'.kind_eq] at hkind
  obtain ⟨hhost, hpayload⟩ := address_append_inj kinds_distinct m.host_fits m'.host_fits hkind h
  exact Layout.ext hversion haddOns hcommand (uint16_bytes_inj htcp) hhost hpayload

theorem encode_eq_bytes (id : Identity) (m : Layout) :
    encode id m.version m.addOns m.command m.host m.tcp m.payload = m.bytes id := by
  have hhost : encodeHost m.host = m.kind :: m.host.address := by
    rw [m.kind_eq]
    cases m.host <;> rfl
  rw [Layout.bytes_eq, encode, hhost]
  simp

/-- The format. A message is accepted exactly when it is laid out as one of the user, and then the
request holds the TCP number, the host with its text, and the payload. The layout is unique, and
what `encode` writes is read back. -/
theorem parse_iff_layout (id : Identity) :
    (∀ message r, parse id message = .ok r ↔ ∃ m : Layout, m.bytes id = message ∧ m.request = r) ∧
    (∀ m m' : Layout, m.bytes id = m'.bytes id → m = m') ∧
    (∀ (m : Layout) (cs : List Char), m.request.host.text = cs ↔ m.host.Spells cs) ∧
    ∀ (version : UInt8) (addOns : Bytes) (command : UInt8) (host : Host) (tcp : UInt16)
      (payload : Bytes), addOns.length ≤ 255 → host.Fits →
      parse id (encode id version addOns command host tcp payload) =
        .ok ⟨.vless, host, tcp, payload⟩ := by
  refine ⟨fun message r => parse_eq_ok, fun m m' h => Layout.bytes_inj h,
    fun m cs => Host.text_eq_iff m.host_fits, ?_⟩
  intro version addOns command host tcp payload hl hf
  have he := encode_eq_bytes id ⟨version, addOns, hl, command, tcp, host, hf, payload⟩
  exact parse_eq_ok.2 ⟨_, he.symm, rfl⟩

end Switchyard.Vless
