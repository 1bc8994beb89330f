import Switchyard.Proofs.Identity
import Switchyard.Proofs.Tunnel.Fields
import Switchyard.Tunnel.Trojan

/-!
# The Trojan format

A Trojan message is the password, an optional line end, the command 1, a host with the byte of its
kind in front, the TCP number, and a tail. One line end at the front of the tail is not payload.
`parse_eq_ok` says that a message is accepted exactly when it is laid out so, and `Layout.bytes_inj`
that it can be in one way only. A payload that begins with a line end is read back if another one
was written in front of it, and only then.
-/

namespace Switchyard.Trojan

open Header

/-- The parts of a message besides the user's password. -/
@[ext] structure Layout where
  /-- A line end follows the password. -/
  separated : Bool
  host : Host
  host_fits : host.Fits
  tcp : UInt16
  /-- The bytes behind the TCP number. -/
  tail : Bytes

/-- A message behind its first line end. -/
def afterLineEnd : Bytes → Bytes
  | 0x0D :: 0x0A :: rest => rest
  | bs => bs

namespace Layout

variable (m : Layout) (id : Identity)

/-- The byte that announces the host. -/
def kind : UInt8 :=
  match m.host with
  | .ipv4 _ => 1
  | .domain _ => 3
  | .ipv6 _ => 4

/-- The line end behind the password, if there is one. -/
def separator : Bytes :=
  if m.separated then [0x0D, 0x0A] else []

/-- The message of the user. -/
def bytes : Bytes :=
  Bytes.ofText id.password ++ m.separator ++ [1] ++ [m.kind] ++ m.host.address ++
    Bytes.ofNat 2 m.tcp.toNat ++ m.tail

/-- What the message asks for. -/
def request : TunnelRequest where
  scheme := .trojan
  host := m.host
  tcp := m.tcp
  payload := afterLineEnd m.tail

theorem kind_eq : m.kind = kinds.byte m.host := by
  unfold kind
  cases m.host <;> rfl

theorem bytes_eq :
    m.bytes id = Bytes.ofText id.password ++ (m.separator ++ 1 :: m.kind ::
      (m.host.address ++ (Bytes.ofNat 2 m.tcp.toNat ++ m.tail))) := by
  simp [bytes]

theorem minimumLength_le : minimumLength ≤ (m.bytes id).length := by
  have hp := id.length_ofText_password
  rw [bytes_eq, List.length_append, List.length_append, List.length_cons, List.length_cons, hp,
    minimumLength]
  omega

end Layout

theorem kinds_distinct : kinds.Distinct := by
  unfold AddressKinds.Distinct
  decide

theorem afterLineEnd_of_not {bs : Bytes} (h : ∀ rest, bs ≠ 0x0D :: 0x0A :: rest) :
    afterLineEnd bs = bs := by
  unfold afterLineEnd
  split
  · next rest => exact absurd rfl (h rest)
  · rfl

/-- Skipping never fails. -/
theorem skipLineEnd_eq (p : Position) :
    ∃ offset, skipLineEnd p = .ok ((), ⟨offset, afterLineEnd p.rest⟩) := by
  unfold skipLineEnd
  split
  · next rest h =>
    rw [h]
    exact ⟨p.offset + 2, rfl⟩
  · next h =>
    rw [afterLineEnd_of_not h]
    exact ⟨p.offset, rfl⟩

theorem exists_separator (bs : Bytes) :
    ∃ separated : Bool, bs = (if separated then [0x0D, 0x0A] else []) ++ afterLineEnd bs := by
  unfold afterLineEnd
  split
  · exact ⟨true, rfl⟩
  · exact ⟨false, rfl⟩

/-- The command is no line end, so nothing but the separator is skipped in front of it. -/
theorem Layout.afterLineEnd_separator (m : Layout) (bs : Bytes) :
    afterLineEnd (m.separator ++ 1 :: bs) = 1 :: bs := by
  unfold Layout.separator
  cases m.separated <;> rfl

/-- The fields of a message follow one another exactly when it is laid out as one of the user. -/
theorem run_request_eq_ok {id : Identity} {message : Bytes} {r : TunnelRequest} :
    run (request id) message = .ok r ↔ ∃ m : Layout, m.bytes id = message ∧ m.request = r := by
  rw [run_eq_ok]
  constructor
  · rintro ⟨q, h⟩
    obtain ⟨password, p₁, h₁, h⟩ := bind_eq_ok.1 h
    obtain ⟨_, p₂, h₂, h⟩ := bind_eq_ok.1 h
    obtain ⟨_, p₃, h₃, h⟩ := bind_eq_ok.1 h
    obtain ⟨command, p₄, h₄, h⟩ := bind_eq_ok.1 h
    obtain ⟨_, p₅, h₅, h⟩ := bind_eq_ok.1 h
    obtain ⟨kind, p₆, h₆, h⟩ := bind_eq_ok.1 h
    obtain ⟨host, p₇, h₇, h⟩ := bind_eq_ok.1 h
    obtain ⟨tcp, p₈, h₈, h⟩ := bind_eq_ok.1 h
    obtain ⟨_, p₉, h₉, h⟩ := bind_eq_ok.1 h
    obtain ⟨payload, p₁₀, h₁₀, h⟩ := bind_eq_ok.1 h
    obtain ⟨rfl, -⟩ := pure_eq_ok.1 h
    -- What each field took off the front, from the first to the last.
    obtain ⟨-, e₁, -⟩ := bytes_eq_ok.1 h₁
    obtain ⟨hid, rfl⟩ := require_eq_ok.1 h₂
    obtain ⟨_, hs⟩ := skipLineEnd_eq p₂
    obtain ⟨rfl⟩ := (Prod.mk.inj (Except.ok.inj (hs.symm.trans h₃))).2
    obtain ⟨separated, hsep⟩ := exists_separator p₂.rest
    obtain ⟨e₄, -⟩ := byte_eq_ok.1 h₄
    obtain ⟨hc, rfl⟩ := require_eq_ok.1 h₅
    obtain ⟨e₆, -⟩ := byte_eq_ok.1 h₆
    obtain ⟨hk, hf, e₇, -⟩ := (host_eq_ok kinds_distinct).1 h₇
    obtain ⟨e₈, -⟩ := uint16_eq_ok.1 h₈
    -- What follows the number is a tail, with or without a line end in front.
    obtain ⟨_, ht⟩ := skipLineEnd_eq p₈
    obtain ⟨rfl⟩ := (Prod.mk.inj (Except.ok.inj (ht.symm.trans h₉))).2
    obtain ⟨rfl, -⟩ := rest_eq_ok.1 h₁₀
    have hid : password = Bytes.ofText id.password := eq_of_beq hid
    have hc : command = 1 := eq_of_beq hc
    refine ⟨⟨separated, host, hf, tcp, p₈.rest⟩, ?_, rfl⟩
    rw [Layout.bytes_eq, Layout.kind_eq, ← hk, ← hc, ← e₈, ← e₇, ← e₆, ← hid]
    show _ = (Position.start message).rest
    rw [e₁, hsep, ← e₄]
    rfl
  · rintro ⟨m, rfl, rfl⟩
    rw [Layout.bytes_eq]
    refine exists_bind_eq_ok (m := ⟨_, _⟩)
      (bytes_eq_ok.2 ⟨id.length_ofText_password, rfl, rfl⟩) ?_
    refine exists_bind_eq_ok (a := ()) (require_eq_ok.2 ⟨beq_self_eq_true _, rfl⟩) ?_
    obtain ⟨_, hs⟩ := skipLineEnd_eq ⟨_, m.separator ++ 1 :: m.kind ::
      (m.host.address ++ (Bytes.ofNat 2 m.tcp.toNat ++ m.tail))⟩
    refine exists_bind_eq_ok hs ?_
    rw [m.afterLineEnd_separator]
    refine exists_bind_eq_ok (m := ⟨_, _⟩) (byte_eq_ok.2 ⟨rfl, rfl⟩) ?_
    refine exists_bind_eq_ok (a := ()) (require_eq_ok.2 ⟨rfl, rfl⟩) ?_
    refine exists_bind_eq_ok (m := ⟨_, _⟩) (byte_eq_ok.2 ⟨rfl, rfl⟩) ?_
    refine exists_bind_eq_ok (m := ⟨_, _⟩)
      ((host_eq_ok kinds_distinct).2 ⟨m.kind_eq, m.host_fits, rfl, rfl⟩) ?_
    refine exists_bind_eq_ok (m := ⟨_, _⟩) (uint16_eq_ok.2 ⟨rfl, rfl⟩) ?_
    obtain ⟨_, ht⟩ := skipLineEnd_eq ⟨_, m.tail⟩
    refine exists_bind_eq_ok ht ?_
    exact exists_bind_eq_ok (rest_eq_ok.2 ⟨rfl, rfl⟩) ⟨_, pure_eq_ok.2 ⟨rfl, rfl⟩⟩

/-- A message is accepted exactly when it is laid out as one of the user. -/
theorem parse_eq_ok {id : Identity} {message : Bytes} {r : TunnelRequest} :
    parse id message = .ok r ↔ ∃ m : Layout, m.bytes id = message ∧ m.request = r := by
  unfold parse
  split
  · next hshort =>
    -- No layout is that short.
    refine ⟨nofun, ?_⟩
    rintro ⟨m, rfl, -⟩
    exact absurd hshort (Nat.not_lt_of_le (m.minimumLength_le id))
  · exact run_request_eq_ok

/-! ### One layout for each message -/

theorem afterLineEnd_append (rest : Bytes) : afterLineEnd (lineEnd ++ rest) = rest := rfl

theorem afterLineEnd_of_not_prefix {bs : Bytes} (h : ¬ lineEnd <+: bs) : afterLineEnd bs = bs :=
  afterLineEnd_of_not fun rest hbs => h ⟨rest, hbs.symm⟩

/-- Nothing but a line end is taken off, so what is left of a tail tells whether it had one. -/
theorem afterLineEnd_eq_self_iff {bs : Bytes} : afterLineEnd bs = bs ↔ ¬ lineEnd <+: bs := by
  refine ⟨?_, afterLineEnd_of_not_prefix⟩
  rintro h ⟨rest, rfl⟩
  have hl := congrArg List.length h
  rw [afterLineEnd_append, List.length_append] at hl
  exact absurd hl (by simp [lineEnd])

/-- The command behind it tells where the separator ends. -/
theorem Layout.separator_append_inj {m m' : Layout} {bs bs' : Bytes}
    (h : m.separator ++ 1 :: bs = m'.separator ++ 1 :: bs') :
    m.separated = m'.separated ∧ bs = bs' := by
  have hbs := congrArg afterLineEnd h
  rw [m.afterLineEnd_separator, m'.afterLineEnd_separator] at hbs
  obtain rfl := (List.cons.inj hbs).2
  have hl := congrArg List.length (List.append_cancel_right h)
  unfold Layout.separator at hl
  refine ⟨?_, rfl⟩
  cases hm : m.separated <;> cases hm' : m'.separated <;> simp_all

/-- A message is laid out in one way only. -/
theorem Layout.bytes_inj {id : Identity} {m m' : Layout} (h : m.bytes id = m'.bytes id) :
    m = m' := by
  rw [Layout.bytes_eq, Layout.bytes_eq] at h
  obtain ⟨-, h⟩ := List.append_inj h rfl
  obtain ⟨hseparated, h⟩ := Layout.separator_append_inj h
  obtain ⟨hkind, h⟩ := List.cons.inj h
  rw [m.kind_eq, m'.kind_eq] at hkind
  obtain ⟨hhost, h⟩ := address_append_inj kinds_distinct m.host_fits m'.host_fits hkind h
  obtain ⟨htcp, htail⟩ := List.append_inj h (by simp)
  exact Layout.ext hseparated hhost (uint16_bytes_inj htcp) htail

/-! ### Round trips -/

theorem encode_eq_bytes (id : Identity) (m : Layout) (second : Bool) (payload : Bytes)
    (htail : m.tail = (if second then lineEnd else []) ++ payload) :
    encode id m.separated second m.host m.tcp payload = m.bytes id := by
  have hhost : encodeHost m.host = m.kind :: m.host.address := by
    rw [m.kind_eq]
    cases m.host <;> rfl
  rw [Layout.bytes_eq, encode, hhost, htail]
  simp [Layout.separator, lineEnd, connectCommand]

/-- What was written is read back up to a line end at the front of what follows the number. -/
theorem parse_encode (id : Identity) (first second : Bool) {host : Host} (hf : host.Fits)
    (tcp : UInt16) (payload : Bytes) :
    parse id (encode id first second host tcp payload) =
      .ok ⟨.trojan, host, tcp,
        afterLineEnd ((if second then lineEnd else []) ++ payload)⟩ := by
  let m : Layout := ⟨first, host, hf, tcp, (if second then lineEnd else []) ++ payload⟩
  exact parse_eq_ok.2 ⟨m, (encode_eq_bytes id m second payload rfl).symm, rfl⟩

/-- The format. A message is accepted exactly when it is laid out as one of the user, and then the
request holds the host with its text, the TCP number, and the tail without a line end at its front.
The layout is unique, and no layout is shorter than the minimum. With the line end behind the number
every payload is read back, without it those that do not begin with one. -/
theorem accepts_iff_layout (id : Identity) :
    (∀ message r, parse id message = .ok r ↔ ∃ m : Layout, m.bytes id = message ∧ m.request = r) ∧
    (Bytes.ofText id.password).length = 56 ∧
    (∀ m m' : Layout, m.bytes id = m'.bytes id → m = m') ∧
    (∀ (m : Layout) (cs : List Char), m.request.host.text = cs ↔ m.host.Spells cs) ∧
    (∀ m : Layout, (∀ rest, m.tail = lineEnd ++ rest → m.request.payload = rest) ∧
      (¬ lineEnd <+: m.tail → m.request.payload = m.tail)) ∧
    (∀ (first : Bool) (host : Host) (tcp : UInt16) (payload : Bytes), host.Fits →
      parse id (encode id first true host tcp payload) = .ok ⟨.trojan, host, tcp, payload⟩ ∧
      (parse id (encode id first false host tcp payload) = .ok ⟨.trojan, host, tcp, payload⟩ ↔
        ¬ lineEnd <+: payload)) ∧
    (∀ m : Layout, minimumLength ≤ (m.bytes id).length) ∧
    ∀ message r, run (request id) message = .ok r ↔ parse id message = .ok r := by
  refine ⟨fun message r => parse_eq_ok, id.length_ofText_password,
    fun m m' h => Layout.bytes_inj h, fun m cs => Host.text_eq_iff m.host_fits, ?_, ?_,
    fun m => m.minimumLength_le id, fun message r => run_request_eq_ok.trans parse_eq_ok.symm⟩
  · intro m
    refine ⟨fun rest htail => ?_, afterLineEnd_of_not_prefix⟩
    show afterLineEnd m.tail = rest
    rw [htail, afterLineEnd_append]
  · intro first host tcp payload hf
    refine ⟨parse_encode id first true hf tcp payload, ?_⟩
    rw [parse_encode id first false hf, ← afterLineEnd_eq_self_iff]
    simp

end Switchyard.Trojan
