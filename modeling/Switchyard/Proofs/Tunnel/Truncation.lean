import Switchyard.Proofs.Tunnel.Slices
import Switchyard.Proofs.Tunnel.Trojan
import Switchyard.Proofs.Tunnel.Vless

/-!
# Messages that are cut short

A message may be a beginning of a longer one. When bytes are missing, the refusal says where the field
begins, how many bytes it has and how many of them are there, and any other refusal stays what it is
whatever follows (`Foresees`). So each beginning of a header is refused for missing bytes, and what
follows an accepted message is payload.

Both hold field by field (`CarefulAt`, `SteadyAt`). The line end behind a Trojan password is the one
field that more bytes might change: a carriage return at the end of a message may be half of one. The
minimum length of a Trojan message sees to it that two bytes are there to tell.
-/

namespace Switchyard

/-- The refusal says that bytes are missing. -/
def Refusal.isTruncated : Refusal → Bool
  | truncated _ _ _ => true
  | _ => false

/-- The result is a refusal for missing bytes. -/
def Truncates {α : Type} (result : Except Refusal α) : Prop :=
  ∃ offset need left, result = .error (.truncated offset need left)

/-- What the refusals of a parser say about longer messages. -/
structure Foresees {α : Type} (parse : Bytes → Except Refusal α) : Prop where
  /-- A field of `need` bytes begins at `offset`, and the message ends `left` bytes behind that. As
  long as not all of the field is there, bytes are missing. -/
  missing {message : Bytes} {offset need left : Nat} :
    parse message = .error (.truncated offset need left) →
      offset + left = message.length ∧ left < need ∧
        ∀ more : Bytes, more.length < need - left → Truncates (parse (message ++ more))
  /-- No other refusal is taken back. -/
  final {message : Bytes} {e : Refusal} : parse message = .error e → e.isTruncated = false →
    ∀ more, parse (message ++ more) = .error e

namespace Header

/-- The position with more bytes at the end of the message. -/
def Position.extend (p : Position) (more : Bytes) : Position :=
  ⟨p.offset, p.rest ++ more⟩

/-- The length of the message. -/
def Position.total (p : Position) : Nat :=
  p.offset + p.rest.length

section Fields

variable {α β : Type} {p q : Position}

/-- What the refusals of a reader at a position say about longer messages. -/
structure CarefulAt (r : Reader α) (p : Position) : Prop where
  missing {offset need left : Nat} : r p = .error (.truncated offset need left) →
    offset + left = p.total ∧ left < need ∧
      ∀ more : Bytes, more.length < need - left → Truncates (r (p.extend more))
  final {e : Refusal} : r p = .error e → e.isTruncated = false →
    ∀ more, r (p.extend more) = .error e

/-- Besides, what is read at the position does not depend on what stands behind it. -/
structure SteadyAt (r : Reader α) (p : Position) : Prop extends CarefulAt r p where
  total {a : α} {q : Position} : r p = .ok (a, q) → q.total = p.total
  extend {a : α} {q : Position} : r p = .ok (a, q) →
    ∀ more, r (p.extend more) = .ok (a, q.extend more)

/-! ### One field after the other -/

theorem bind_of_ok {r : Reader α} {k : α → Reader β} {a : α} (h : r p = .ok (a, q)) :
    (r >>= k) p = k a q := by
  show Except.bind (r p) (fun s => k s.1 s.2) = _
  rw [h]
  rfl

theorem truncates_bind {r : Reader α} (k : α → Reader β) (h : Truncates (r p)) :
    Truncates ((r >>= k) p) := by
  obtain ⟨offset, need, left, h⟩ := h
  exact ⟨offset, need, left, bind_eq_error.2 (.inl h)⟩

/-- Whatever comes behind a field that is read is read from there, also in a longer message. -/
theorem SteadyAt.bind_careful {r : Reader α} {k : α → Reader β} (h : SteadyAt r p)
    (hk : ∀ {a q}, r p = .ok (a, q) → CarefulAt (k a) q) : CarefulAt (r >>= k) p where
  missing hb := by
    rcases bind_eq_error.1 hb with hr | ⟨a, q, hr, hk'⟩
    · obtain ⟨hsum, hlt, hmore⟩ := h.missing hr
      exact ⟨hsum, hlt, fun more hl => truncates_bind k (hmore more hl)⟩
    · obtain ⟨hsum, hlt, hmore⟩ := (hk hr).missing hk'
      refine ⟨hsum.trans (h.total hr), hlt, fun more hl => ?_⟩
      rw [bind_of_ok (h.extend hr more)]
      exact hmore more hl
  final hb he more := by
    rcases bind_eq_error.1 hb with hr | ⟨a, q, hr, hk'⟩
    · exact bind_eq_error.2 (.inl (h.final hr he more))
    · rw [bind_of_ok (h.extend hr more)]
      exact (hk hr).final hk' he more

theorem SteadyAt.bind {r : Reader α} {k : α → Reader β} (h : SteadyAt r p)
    (hk : ∀ {a q}, r p = .ok (a, q) → SteadyAt (k a) q) : SteadyAt (r >>= k) p where
  toCarefulAt := h.bind_careful fun hr => (hk hr).toCarefulAt
  total hb := by
    obtain ⟨a, m, hr, hk'⟩ := bind_eq_ok.1 hb
    exact ((hk hr).total hk').trans (h.total hr)
  extend hb more := by
    obtain ⟨a, m, hr, hk'⟩ := bind_eq_ok.1 hb
    rw [bind_of_ok (h.extend hr more)]
    exact (hk hr).extend hk' more

/-- A reader that does not refuse is careful. -/
theorem carefulAt_of_ok {r : Reader α} {x : α × Position} (h : r p = .ok x) : CarefulAt r p where
  missing he := by
    rw [h] at he
    cases he
  final he := by
    rw [h] at he
    cases he

/-! ### The fields -/

theorem steadyAt_pure (a : α) (p : Position) : SteadyAt (pure a) p where
  toCarefulAt := carefulAt_of_ok rfl
  total h := by
    obtain ⟨-, rfl⟩ := pure_eq_ok.1 h
    rfl
  extend h more := by
    obtain ⟨rfl, rfl⟩ := pure_eq_ok.1 h
    rfl

theorem steadyAt_throw {e : Refusal} (he : e.isTruncated = false) (p : Position) :
    SteadyAt (throw e : Reader α) p where
  missing h := by
    cases h
    cases he
  final h _ _ := by
    cases h
    rfl
  total h := by cases h
  extend h := by cases h

theorem steadyAt_require {c : Bool} {e : Refusal} (he : e.isTruncated = false) (p : Position) :
    SteadyAt (require c e) p := by
  cases c with
  | true => exact steadyAt_pure () p
  | false => exact steadyAt_throw he p

theorem steadyAt_bytes (n : Nat) (p : Position) : SteadyAt (bytes n) p where
  missing {offset need left} h := by
    unfold bytes at h
    split at h
    · cases h
    · next hn =>
      cases h
      refine ⟨rfl, by omega, fun more hl => ?_⟩
      have hshort : ¬ n ≤ (p.extend more).rest.length := by
        rw [Position.extend, List.length_append]
        omega
      exact ⟨_, _, _, if_neg hshort⟩
  final h he := by
    unfold bytes at h
    split at h
    · cases h
    · cases h
      cases he
  total h := by
    obtain ⟨hl, hr, ho⟩ := bytes_eq_ok.1 h
    rw [Position.total, Position.total, hr, ho, List.length_append, hl]
    omega
  extend {bs q} h more := by
    obtain ⟨hl, hr, ho⟩ := bytes_eq_ok.1 h
    refine bytes_eq_ok.2 ⟨hl, ?_, ho⟩
    rw [Position.extend, hr, List.append_assoc]
    rfl

theorem steadyAt_byte (p : Position) : SteadyAt byte p := by
  rw [byte_eq]
  exact (steadyAt_bytes 1 p).bind fun _ => steadyAt_pure _ _

theorem steadyAt_uint16 (p : Position) : SteadyAt uint16 p :=
  (steadyAt_bytes 2 p).bind fun _ => steadyAt_pure _ _

theorem steadyAt_host (kinds : AddressKinds) (kind : UInt8) (p : Position) :
    SteadyAt (host kinds kind) p := by
  unfold host
  split
  · exact (steadyAt_bytes 4 p).bind fun _ => steadyAt_pure _ _
  split
  · exact (steadyAt_byte p).bind fun _ => (steadyAt_bytes _ _).bind fun _ => steadyAt_pure _ _
  split
  · exact (steadyAt_bytes 16 p).bind fun _ => steadyAt_pure _ _
  · exact steadyAt_throw rfl p

theorem carefulAt_rest (f : Bytes → α) (p : Position) :
    CarefulAt (do return f (← rest)) p :=
  carefulAt_of_ok (x := (f p.rest, _)) (bind_eq_ok.2 ⟨p.rest, _, rfl, rfl⟩)

/-- Two bytes tell whether they are a line end. -/
theorem steadyAt_skipLineEnd (h : 2 ≤ p.rest.length) : SteadyAt skipLineEnd p := by
  obtain ⟨offset, bs⟩ := p
  match bs, h with
  | b :: c :: bs, _ =>
    by_cases hend : b = 0x0D ∧ c = 0x0A
    · obtain ⟨rfl, rfl⟩ := hend
      have hskip (bs : Bytes) :
          skipLineEnd ⟨offset, 0x0D :: 0x0A :: bs⟩ = .ok ((), ⟨offset + 2, bs⟩) := rfl
      refine ⟨carefulAt_of_ok (hskip bs), fun h => ?_, fun h more => ?_⟩
      · cases h
        simp only [Position.total, List.length_cons]
        omega
      · cases h
        exact hskip (bs ++ more)
    · have hkeep (bs : Bytes) :
          skipLineEnd ⟨offset, b :: c :: bs⟩ = .ok ((), ⟨offset, b :: c :: bs⟩) := by
        unfold skipLineEnd
        split
        · next heq =>
          cases heq
          exact absurd ⟨rfl, rfl⟩ hend
        · rfl
      refine ⟨carefulAt_of_ok (hkeep bs), fun h => ?_, fun h more => ?_⟩
      · rw [hkeep] at h
        cases h
        rfl
      · rw [hkeep] at h
        cases h
        exact hkeep (bs ++ more)

/-! ### Whole messages -/

theorem CarefulAt.run_missing {r : Reader α} {message : Bytes} (h : CarefulAt r (.start message))
    {offset need left : Nat} (hrun : run r message = .error (.truncated offset need left)) :
    offset + left = message.length ∧ left < need ∧
      ∀ more : Bytes, more.length < need - left → Truncates (run r (message ++ more)) := by
  obtain ⟨hsum, hlt, hmore⟩ := h.missing (run_eq_error.1 hrun)
  refine ⟨hsum.trans (Nat.zero_add _), hlt, fun more hl => ?_⟩
  obtain ⟨o, n, l, he⟩ := hmore more hl
  exact ⟨o, n, l, run_eq_error.2 he⟩

theorem CarefulAt.run_final {r : Reader α} {message : Bytes} (h : CarefulAt r (.start message))
    {e : Refusal} (hrun : run r message = .error e) (he : e.isTruncated = false) (more : Bytes) :
    run r (message ++ more) = .error e :=
  run_eq_error.2 (h.final (run_eq_error.1 hrun) he more)

end Fields

end Header

open Header

/-- Where no beginning of a header is accepted, each lacks bytes. -/
theorem Foresees.truncates_beginning {α : Type} {parse : Bytes → Except Refusal α}
    (h : Foresees parse) {header part : Bytes} {a : α} (hwhole : parse header = .ok a)
    (hnone : ∀ part more a, parse part = .ok a → part ++ more = header → more = [])
    (hp : part <+: header) (hne : part ≠ header) : Truncates (parse part) := by
  obtain ⟨more, hmore⟩ := hp
  cases hpart : parse part with
  | ok a =>
    rw [hnone part more a hpart hmore, List.append_nil] at hmore
    exact absurd hmore hne
  | error e =>
    cases e with
    | truncated offset need left => exact ⟨offset, need, left, rfl⟩
    | _ =>
      rw [← hmore, h.final hpart rfl more] at hwhole
      cases hwhole

/-! ### VLESS -/

namespace Vless

theorem carefulAt_request (id : Identity) (p : Position) : CarefulAt (request id) p := by
  refine (steadyAt_byte _).bind_careful fun _ => ?_
  refine (steadyAt_bytes _ _).bind_careful fun _ => ?_
  refine (steadyAt_require rfl _).bind_careful fun _ => ?_
  refine (steadyAt_byte _).bind_careful fun _ => ?_
  refine (steadyAt_bytes _ _).bind_careful fun _ => ?_
  refine (steadyAt_byte _).bind_careful fun _ => ?_
  refine (steadyAt_uint16 _).bind_careful fun _ => ?_
  refine (steadyAt_byte _).bind_careful fun _ => ?_
  refine (steadyAt_host _ _ _).bind_careful fun _ => ?_
  exact carefulAt_rest _ _

theorem foresees_parse (id : Identity) : Foresees (parse id) where
  missing h := (carefulAt_request id _).run_missing h
  final h he := (carefulAt_request id _).run_final h he

variable (id : Identity)

/-- A message up to the end of the address. -/
def Layout.header (m : Layout) : Bytes :=
  [m.version] ++ id.uuid ++ [UInt8.ofNat m.addOns.length] ++ m.addOns ++ [m.command] ++
    Bytes.ofNat 2 m.tcp.toNat ++ [m.kind] ++ m.host.address

/-- The same message with another payload. -/
def Layout.withPayload (m : Layout) (payload : Bytes) : Layout :=
  { m with payload }

theorem Layout.bytes_eq_header (m : Layout) : m.bytes id = m.header id ++ m.payload := rfl

theorem Layout.bytes_withPayload (m : Layout) (payload : Bytes) :
    (m.withPayload payload).bytes id = m.header id ++ payload := rfl

theorem parse_header_append (m : Layout) (payload : Bytes) :
    parse id (m.header id ++ payload) = .ok { m.request with payload } :=
  parse_eq_ok.2 ⟨m.withPayload payload, m.bytes_withPayload id payload, rfl⟩

/-- No beginning of a header is a message. -/
theorem truncates_of_prefix (m : Layout) {part : Bytes} (hp : part <+: m.header id)
    (hne : part ≠ m.header id) : Truncates (parse id part) := by
  have hwhole := parse_header_append id m []
  rw [List.append_nil] at hwhole
  refine (foresees_parse id).truncates_beginning hwhole (fun part more r hr hmore => ?_) hp hne
  obtain ⟨m', hm', -⟩ := parse_eq_ok.1 hr
  -- It would be laid out as the header is, with nothing behind it.
  have hbytes : (m'.withPayload (m'.payload ++ more)).bytes id = (m.withPayload []).bytes id := by
    rw [Layout.bytes_withPayload, Layout.bytes_withPayload, List.append_nil, ← List.append_assoc,
      ← Layout.bytes_eq_header, hm', hmore]
  have hnil : m'.payload ++ more = [] := congrArg Layout.payload (Layout.bytes_inj hbytes)
  exact (List.append_eq_nil_iff.1 hnil).2

end Vless

/-! ### Trojan -/

namespace Trojan

/-- The minimum leaves two bytes behind the password. -/
theorem carefulAt_request (id : Identity) {message : Bytes}
    (h : minimumLength ≤ message.length) : CarefulAt (request id) (.start message) := by
  refine (steadyAt_bytes _ _).bind_careful fun {password q} hp => ?_
  have htwo : 2 ≤ q.rest.length := by
    obtain ⟨hl, hr, -⟩ := bytes_eq_ok.1 hp
    have hlen := congrArg List.length hr
    rw [List.length_append, hl] at hlen
    have hmin : Identity.passwordLength + 2 ≤ (Position.start message).rest.length := h
    omega
  refine (steadyAt_require rfl _).bind_careful fun {_ q'} hq => ?_
  obtain ⟨-, rfl⟩ := require_eq_ok.1 hq
  refine (steadyAt_skipLineEnd htwo).bind_careful fun _ => ?_
  refine (steadyAt_byte _).bind_careful fun _ => ?_
  refine (steadyAt_require rfl _).bind_careful fun _ => ?_
  refine (steadyAt_byte _).bind_careful fun _ => ?_
  refine (steadyAt_host _ _ _).bind_careful fun _ => ?_
  refine (steadyAt_uint16 _).bind_careful fun {tcp q} _ => ?_
  -- What is left is the tail, and no tail is refused.
  obtain ⟨offset, hs⟩ := skipLineEnd_eq q
  exact carefulAt_of_ok (bind_eq_ok.2 ⟨_, _, hs, bind_eq_ok.2 ⟨_, _, rfl, rfl⟩⟩)

theorem parse_of_minimum (id : Identity) {message : Bytes} (h : minimumLength ≤ message.length) :
    parse id message = run (request id) message :=
  if_neg (Nat.not_lt_of_le h)

theorem parse_of_short (id : Identity) {message : Bytes} (h : message.length < minimumLength) :
    parse id message = .error (.truncated 0 minimumLength message.length) :=
  if_pos h

theorem foresees_parse (id : Identity) : Foresees (parse id) where
  missing {message offset need left} h := by
    rcases Nat.lt_or_ge message.length minimumLength with hshort | hmin
    · rw [parse_of_short id hshort] at h
      cases h
      refine ⟨Nat.zero_add _, hshort, fun more hl => ?_⟩
      have hstill : (message ++ more).length < minimumLength := by
        rw [List.length_append]
        omega
      exact ⟨_, _, _, parse_of_short id hstill⟩
    · rw [parse_of_minimum id hmin] at h
      obtain ⟨hsum, hlt, hmore⟩ := (carefulAt_request id hmin).run_missing h
      refine ⟨hsum, hlt, fun more hl => ?_⟩
      rw [parse_of_minimum id (by rw [List.length_append]; omega)]
      exact hmore more hl
  final {message e} h he more := by
    rcases Nat.lt_or_ge message.length minimumLength with hshort | hmin
    · rw [parse_of_short id hshort] at h
      cases h
      cases he
    · rw [parse_of_minimum id hmin] at h
      rw [parse_of_minimum id (by rw [List.length_append]; omega)]
      exact (carefulAt_request id hmin).run_final h he more

variable (id : Identity)

/-- A message up to the end of the TCP number. -/
def Layout.header (m : Layout) : Bytes :=
  Bytes.ofText id.password ++ m.separator ++ [1] ++ [m.kind] ++ m.host.address ++
    Bytes.ofNat 2 m.tcp.toNat

/-- The same message with another tail. -/
def Layout.withTail (m : Layout) (tail : Bytes) : Layout :=
  { m with tail }

theorem Layout.bytes_eq_header (m : Layout) : m.bytes id = m.header id ++ m.tail := rfl

theorem Layout.bytes_withTail (m : Layout) (tail : Bytes) :
    (m.withTail tail).bytes id = m.header id ++ tail := rfl

theorem parse_header_append (m : Layout) (tail : Bytes) :
    parse id (m.header id ++ tail) = .ok { m.request with payload := afterLineEnd tail } :=
  parse_eq_ok.2 ⟨m.withTail tail, m.bytes_withTail id tail, rfl⟩

/-- No beginning of a header is a message. -/
theorem truncates_of_prefix (m : Layout) {part : Bytes} (hp : part <+: m.header id)
    (hne : part ≠ m.header id) : Truncates (parse id part) := by
  have hwhole := parse_header_append id m []
  rw [List.append_nil] at hwhole
  refine (foresees_parse id).truncates_beginning hwhole (fun part more r hr hmore => ?_) hp hne
  obtain ⟨m', hm', -⟩ := parse_eq_ok.1 hr
  have hbytes : (m'.withTail (m'.tail ++ more)).bytes id = (m.withTail []).bytes id := by
    rw [Layout.bytes_withTail, Layout.bytes_withTail, List.append_nil, ← List.append_assoc,
      ← Layout.bytes_eq_header, hm', hmore]
  have hnil : m'.tail ++ more = [] := congrArg Layout.tail (Layout.bytes_inj hbytes)
  exact (List.append_eq_nil_iff.1 hnil).2

end Trojan

/-- Refusals are exact and final in both schemes. An accepted message is a header and what follows it:
with more bytes at the end it asks for the same, and they are payload, but for a line end at the front
of what follows a Trojan header. Every beginning of a header is refused for missing bytes. And read by
slices, no message leads to a slice or a byte that it does not have. -/
theorem refusals_foresee (id : Identity) :
    Foresees (Vless.parse id) ∧ Foresees (Trojan.parse id) ∧
    (∀ message r, Vless.parse id message = .ok r →
      ∃ m : Vless.Layout, message = m.header id ++ m.payload ∧ r = m.request ∧
        (∀ more, Vless.parse id (message ++ more) = .ok { r with payload := r.payload ++ more }) ∧
        ∀ part, part <+: m.header id → part ≠ m.header id → Truncates (Vless.parse id part)) ∧
    (∀ message r, Trojan.parse id message = .ok r →
      ∃ m : Trojan.Layout, message = m.header id ++ m.tail ∧ r = m.request ∧
        (∀ more, Trojan.parse id (message ++ more) =
          .ok { r with payload := Trojan.afterLineEnd (m.tail ++ more) }) ∧
        ∀ part, part <+: m.header id → part ≠ m.header id → Truncates (Trojan.parse id part)) ∧
    ∀ message, Vless.sliced id message = some (Vless.parse id message) ∧
      Trojan.sliced id message = some (Trojan.parse id message) := by
  refine ⟨Vless.foresees_parse id, Trojan.foresees_parse id, fun message r h => ?_,
    fun message r h => ?_, fun message => ⟨Vless.sliced_eq id message, Trojan.sliced_eq id message⟩⟩
  · obtain ⟨m, rfl, rfl⟩ := Vless.parse_eq_ok.1 h
    refine ⟨m, m.bytes_eq_header id, rfl, fun more => ?_, fun part hp hne =>
      Vless.truncates_of_prefix id m hp hne⟩
    rw [Vless.Layout.bytes_eq_header, List.append_assoc]
    exact Vless.parse_header_append id m (m.payload ++ more)
  · obtain ⟨m, rfl, rfl⟩ := Trojan.parse_eq_ok.1 h
    refine ⟨m, m.bytes_eq_header id, rfl, fun more => ?_, fun part hp hne =>
      Trojan.truncates_of_prefix id m hp hne⟩
    rw [Trojan.Layout.bytes_eq_header, List.append_assoc]
    exact Trojan.parse_header_append id m (m.tail ++ more)

end Switchyard
