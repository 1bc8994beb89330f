import Switchyard.Proofs.Tunnel.Fields
import Switchyard.Tunnel.Trojan
import Switchyard.Tunnel.Vless

/-!
# Reading by slices

A message may also be read where it stands: a cursor keeps the whole message and the number of bytes
read, and every part is a slice of the message, every byte one at an index. A slice that reaches beyond
the message does not exist, nor does a byte at such an index, and then there is no result at all.
`Vless.sliced_eq` and `Trojan.sliced_eq` say that it never comes to that: read by slices, every
message gives the result it gives otherwise. What carries this is that the cursor never leaves the
message (`Position.PartOf`).
-/

namespace Switchyard

namespace Header

/-- A message and the number of its bytes that have been read. -/
structure Cursor where
  message : Bytes
  offset : Nat

/-- The bytes from `first` up to `last`, if the message has such a part. -/
def slice? (message : Bytes) (first last : Nat) : Option Bytes :=
  if first ≤ last ∧ last ≤ message.length then some ((message.drop first).take (last - first))
  else none

/-- Reads a field by slices; none if a slice or a byte does not exist. -/
abbrev Slicer (α : Type) := StateT Cursor (ExceptT Refusal Option) α

namespace Slicer

/-- The next `n` bytes. -/
def bytes (n : Nat) : Slicer Bytes := fun c =>
  let last := c.offset + n
  if last ≤ c.message.length then
    (slice? c.message c.offset last).map fun bs => .ok (bs, { c with offset := last })
  else some (.error (.truncated c.offset n (c.message.length - c.offset)))

/-- The byte at an index. -/
def at? (bs : Bytes) (i : Nat) : Slicer UInt8 := fun c =>
  bs[i]?.map fun b => .ok (b, c)

/-- The next byte. -/
def byte : Slicer UInt8 := do
  at? (← bytes 1) 0

/-- The number in base 256 that the next two bytes write. -/
def uint16 : Slicer UInt16 := do
  let bs ← bytes 2
  return UInt16.ofNat (256 * (← at? bs 0).toNat + (← at? bs 1).toNat)

/-- Ends the reading with a refusal unless the condition holds. -/
def require (condition : Bool) (r : Refusal) : Slicer Unit :=
  if condition then pure () else throwThe Refusal r

/-- Skips one line end, if one comes next. -/
def skipLineEnd : Slicer Unit := fun c =>
  (slice? c.message c.offset c.message.length).map fun rest =>
    .ok ((), if lineEnd.isPrefixOf rest then { c with offset := c.offset + lineEnd.length } else c)

/-- The bytes at the indices below `n`. -/
def each (bs : Bytes) : Nat → Slicer Bytes
  | 0 => pure []
  | n + 1 => do
    return (← each bs n) ++ [← at? bs n]

/-- A host of the kind that `kind` announces. -/
def host (kinds : AddressKinds) (kind : UInt8) : Slicer Host :=
  if kind = kinds.ipv4 then do
    return .ipv4 (← each (← bytes 4) 4)
  else if kind = kinds.domain then do
    return .domain (← bytes (← byte).toNat)
  else if kind = kinds.ipv6 then do
    return .ipv6 (← each (← bytes 16) 16)
  else throwThe Refusal (.addressKind kind)

/-- All bytes that are left. -/
def rest : Slicer Bytes := fun c =>
  (slice? c.message c.offset c.message.length).map fun bs =>
    .ok (bs, { c with offset := c.message.length })

/-- What a slicer makes of a message. -/
def run {α : Type} (slicer : Slicer α) (message : Bytes) : Option (Except Refusal α) :=
  Option.map (Except.map Prod.fst) (slicer ⟨message, 0⟩)

end Slicer

/-! ### Inside the message -/

/-- The position is one in the message, and not behind its end. -/
structure Position.PartOf (p : Position) (message : Bytes) : Prop where
  offset_le : p.offset ≤ message.length
  rest_eq : p.rest = message.drop p.offset

/-- Wherever a reader is in a message, the slicer gives its result, and a field that is read does not
lead out of the message. -/
structure Follows {α : Type} (s : Slicer α) (r : Reader α) : Prop where
  ok {message : Bytes} {p q : Position} {a : α} : p.PartOf message → r p = .ok (a, q) →
    s ⟨message, p.offset⟩ = some (.ok (a, ⟨message, q.offset⟩)) ∧ q.PartOf message
  error {message : Bytes} {p : Position} {e : Refusal} : p.PartOf message → r p = .error e →
    s ⟨message, p.offset⟩ = some (.error e)

section Follows

variable {α β : Type} {message : Bytes} {p q : Position}

theorem Position.partOf_start (message : Bytes) : (Position.start message).PartOf message :=
  ⟨Nat.zero_le _, rfl⟩

theorem Position.PartOf.length_rest (h : p.PartOf message) :
    p.rest.length = message.length - p.offset := by
  rw [h.rest_eq, List.length_drop]

/-- Reading on from a position stays in the message, since a reader does not take more than is left. -/
theorem Position.PartOf.advance (h : p.PartOf message) {front : Bytes} (hr : p.rest = front ++ q.rest)
    (ho : q.offset = p.offset + front.length) : q.PartOf message := by
  have hl := h.length_rest
  have hle := h.offset_le
  rw [hr, List.length_append] at hl
  refine ⟨by omega, ?_⟩
  rw [ho, ← List.drop_drop, ← h.rest_eq, hr, List.drop_left]

namespace Slicer

theorem bind_of_ok {s : Slicer α} {k : α → Slicer β} {c c' : Cursor} {a : α}
    (h : s c = some (.ok (a, c'))) : (s >>= k) c = k a c' := by
  show Option.bind (s c) _ = _
  rw [h]
  rfl

theorem bind_of_error {s : Slicer α} {k : α → Slicer β} {c : Cursor} {e : Refusal}
    (h : s c = some (.error e)) : (s >>= k) c = some (.error e) := by
  show Option.bind (s c) _ = _
  rw [h]
  rfl

end Slicer

theorem Follows.bind {s : Slicer α} {r : Reader α} {k : α → Slicer β} {l : α → Reader β}
    (h : Follows s r) (hk : ∀ {p q a}, r p = .ok (a, q) → Follows (k a) (l a)) :
    Follows (s >>= k) (r >>= l) where
  ok hp hb := by
    obtain ⟨a, m, hr, hl⟩ := bind_eq_ok.1 hb
    obtain ⟨hs, hm⟩ := h.ok hp hr
    rw [Slicer.bind_of_ok hs]
    exact (hk hr).ok hm hl
  error hp hb := by
    rcases bind_eq_error.1 hb with hr | ⟨a, m, hr, hl⟩
    · exact Slicer.bind_of_error (h.error hp hr)
    · obtain ⟨hs, hm⟩ := h.ok hp hr
      rw [Slicer.bind_of_ok hs]
      exact (hk hr).error hm hl

theorem follows_pure (a : α) : Follows (pure a) (pure a) where
  ok hp h := by
    obtain ⟨rfl, rfl⟩ := pure_eq_ok.1 h
    exact ⟨rfl, hp⟩
  error _ h := by cases h

theorem follows_throw (e : Refusal) : Follows (throwThe Refusal e) (throw e : Reader α) where
  ok _ h := by cases h
  error _ h := by
    cases h
    rfl

theorem follows_require (c : Bool) (e : Refusal) : Follows (Slicer.require c e) (require c e) := by
  cases c with
  | true => exact follows_pure ()
  | false => exact follows_throw e

/-! ### Field by field -/

/-- What is left is a slice. -/
theorem slice?_rest (h : p.PartOf message) :
    slice? message p.offset message.length = some p.rest := by
  rw [slice?, if_pos ⟨h.offset_le, Nat.le_refl _⟩, h.rest_eq, ← List.length_drop, List.take_length]

theorem follows_bytes (n : Nat) : Follows (Slicer.bytes n) (bytes n) where
  ok {message p q bs} hp h := by
    obtain ⟨hl, hr, ho⟩ := bytes_eq_ok.1 h
    have hq : q.PartOf message := hp.advance hr (hl ▸ ho)
    have hle : p.offset + n ≤ message.length := ho ▸ hq.offset_le
    refine ⟨?_, hq⟩
    have hslice : slice? message p.offset (p.offset + n) = some bs := by
      rw [slice?, if_pos ⟨Nat.le_add_right _ _, hle⟩, ← hp.rest_eq, hr, Nat.add_sub_cancel_left,
        List.take_left' hl]
    simp only [Slicer.bytes]
    rw [if_pos hle, hslice, ho]
    rfl
  error {message p e} hp h := by
    have hl := hp.length_rest
    have hle := hp.offset_le
    unfold bytes at h
    split at h
    · cases h
    · cases h
      simp only [Slicer.bytes]
      rw [if_neg (by omega), hl]

/-- A byte that a slice has is read without a move. -/
theorem follows_at {bs : Bytes} {i : Nat} {b : UInt8} (h : bs[i]? = some b) :
    Follows (Slicer.at? bs i) (pure b) where
  ok hp hb := by
    obtain ⟨rfl, rfl⟩ := pure_eq_ok.1 hb
    rw [Slicer.at?, h]
    exact ⟨rfl, hp⟩
  error _ hb := by cases hb

theorem follows_each {bs : Bytes} {n : Nat} (h : n ≤ bs.length) :
    Follows (Slicer.each bs n) (pure (bs.take n)) := by
  induction n with
  | zero => exact follows_pure []
  | succ n ih =>
    have hlast : bs[n]? = some bs[n] := List.getElem?_eq_getElem h
    have htake : bs.take (n + 1) = bs.take n ++ [bs[n]] := by
      rw [List.take_add_one, hlast, Option.toList_some]
    rw [htake]
    -- The indices before the last one, then the last one.
    refine Follows.bind (r := pure (bs.take n)) (l := fun front => pure (front ++ [bs[n]]))
      (ih (Nat.le_of_succ_le h)) fun _ => ?_
    refine Follows.bind (r := pure bs[n]) (l := fun b => pure (_ ++ [b])) (follows_at hlast) fun _ => ?_
    exact follows_pure _

/-- A byte is a field of length one. -/
theorem byte_eq : byte = do return (← bytes 1).headD 0 := by
  funext p
  obtain ⟨offset, rest⟩ := p
  cases rest with
  | nil => rfl
  | cons b rest =>
    have hread : bytes 1 ⟨offset, b :: rest⟩ = .ok ([b], ⟨offset + 1, rest⟩) :=
      bytes_eq_ok.2 ⟨rfl, rfl, rfl⟩
    exact (bind_eq_ok.2 ⟨[b], _, hread, rfl⟩).symm

theorem follows_byte : Follows Slicer.byte byte := by
  rw [byte_eq]
  refine (follows_bytes 1).bind fun {p q bs} h => ?_
  obtain ⟨hl, -, -⟩ := bytes_eq_ok.1 h
  match bs, hl with
  | [b], _ => exact follows_at rfl

theorem follows_uint16 : Follows Slicer.uint16 uint16 := by
  refine (follows_bytes 2).bind fun {p q bs} h => ?_
  obtain ⟨hl, -, -⟩ := bytes_eq_ok.1 h
  match bs, hl with
  | [hi, lo], _ =>
    have hvalue : Bytes.toNat [hi, lo] = 256 * hi.toNat + lo.toNat := by
      simp [Bytes.toNat]
    rw [hvalue]
    exact follows_pure _

/-- A line end is skipped where the slice of what is left begins with one. -/
theorem follows_skipLineEnd : Follows Slicer.skipLineEnd skipLineEnd where
  ok {message p q u} hp h := by
    unfold skipLineEnd at h
    simp only [Slicer.skipLineEnd, slice?_rest hp, Option.map_some]
    split at h
    · next rest hr =>
      cases h
      have hfront : lineEnd.isPrefixOf p.rest = true := by
        rw [hr]
        rfl
      rw [if_pos hfront]
      have hsplit : p.rest = lineEnd ++ rest := hr
      exact ⟨rfl, hp.advance hsplit rfl⟩
    · next hr =>
      cases h
      have hfront : ¬ lineEnd.isPrefixOf p.rest = true := by
        rintro hfront
        obtain ⟨rest, hrest⟩ := List.isPrefixOf_iff_prefix.1 hfront
        exact hr rest hrest.symm
      rw [if_neg hfront]
      exact ⟨rfl, hp⟩
  error _ h := by
    unfold skipLineEnd at h
    split at h <;> cases h

theorem follows_rest : Follows Slicer.rest rest where
  ok {message p q bs} hp h := by
    cases h
    have hend : p.offset + p.rest.length = message.length := by
      have hle := hp.offset_le
      rw [hp.length_rest]
      omega
    simp only [Slicer.rest, slice?_rest hp, Option.map_some, hend]
    exact ⟨trivial, Nat.le_refl _, List.drop_length.symm⟩
  error _ h := by cases h

theorem follows_octets (n : Nat) (wrap : Bytes → Host) :
    Follows (do return wrap (← Slicer.each (← Slicer.bytes n) n)) (do return wrap (← bytes n)) := by
  refine (follows_bytes n).bind fun {p q bs} h => ?_
  obtain ⟨rfl, -, -⟩ := bytes_eq_ok.1 h
  have heach := follows_each (Nat.le_refl bs.length)
  rw [List.take_length] at heach
  exact heach.bind (l := fun bs => pure (wrap bs)) fun _ => follows_pure _

theorem follows_host (kinds : AddressKinds) (kind : UInt8) :
    Follows (Slicer.host kinds kind) (host kinds kind) := by
  unfold Slicer.host host
  split
  · exact follows_octets 4 .ipv4
  split
  · exact follows_byte.bind fun _ => (follows_bytes _).bind fun _ => follows_pure _
  split
  · exact follows_octets 16 .ipv6
  · exact follows_throw _

/-- Nothing is out of reach: the slicer has a result, and it is the reader's. -/
theorem Follows.run_eq {s : Slicer α} {r : Reader α} (h : Follows s r) (message : Bytes) :
    s.run message = some (run r message) := by
  have hstart := Position.partOf_start message
  unfold Slicer.run run
  cases hr : r (.start message) with
  | ok x =>
    have hs : s ⟨message, 0⟩ = some (.ok (x.1, ⟨message, x.2.offset⟩)) := (h.ok hstart hr).1
    rw [hs]
    rfl
  | error e =>
    have hs : s ⟨message, 0⟩ = some (.error e) := h.error hstart hr
    rw [hs]
    rfl

end Follows

end Header

open Header

/-! ### Both schemes -/

/-- Reads a VLESS message of the user by slices. -/
def Vless.slicedRequest (id : Identity) : Slicer TunnelRequest := do
  let _version ← Slicer.byte
  let uuid ← Slicer.bytes 16
  Slicer.require (uuid == id.uuid) .unknownUser
  let addOns ← Slicer.byte
  let _ ← Slicer.bytes addOns.toNat
  let _command ← Slicer.byte
  let tcp ← Slicer.uint16
  let kind ← Slicer.byte
  let host ← Slicer.host kinds kind
  return ⟨.vless, host, tcp, ← Slicer.rest⟩

/-- What a message asks for as VLESS, read by slices. -/
def Vless.sliced (id : Identity) (message : Bytes) : Option (Except Refusal TunnelRequest) :=
  (slicedRequest id).run message

/-- Reads a Trojan message of the user by slices. -/
def Trojan.slicedRequest (id : Identity) : Slicer TunnelRequest := do
  let password ← Slicer.bytes Identity.passwordLength
  Slicer.require (password == Bytes.ofText id.password) .wrongPassword
  Slicer.skipLineEnd
  let command ← Slicer.byte
  Slicer.require (command == connectCommand) (.command command)
  let kind ← Slicer.byte
  let host ← Slicer.host kinds kind
  let tcp ← Slicer.uint16
  Slicer.skipLineEnd
  return ⟨.trojan, host, tcp, ← Slicer.rest⟩

/-- What a message asks for as Trojan, read by slices. -/
def Trojan.sliced (id : Identity) (message : Bytes) : Option (Except Refusal TunnelRequest) :=
  if message.length < minimumLength then
    some (.error (.truncated 0 minimumLength message.length))
  else (slicedRequest id).run message

theorem Vless.sliced_eq (id : Identity) (message : Bytes) :
    sliced id message = some (parse id message) := by
  refine Follows.run_eq ?_ message
  refine follows_byte.bind fun _ => ?_
  refine (follows_bytes 16).bind fun _ => ?_
  refine (follows_require _ _).bind fun _ => ?_
  refine follows_byte.bind fun _ => ?_
  refine (follows_bytes _).bind fun _ => ?_
  refine follows_byte.bind fun _ => ?_
  refine follows_uint16.bind fun _ => ?_
  refine follows_byte.bind fun _ => ?_
  refine (follows_host _ _).bind fun _ => ?_
  exact follows_rest.bind fun _ => follows_pure _

theorem Trojan.sliced_eq (id : Identity) (message : Bytes) :
    sliced id message = some (parse id message) := by
  unfold sliced parse
  split
  · rfl
  refine Follows.run_eq ?_ message
  refine (follows_bytes _).bind fun _ => ?_
  refine (follows_require _ _).bind fun _ => ?_
  refine follows_skipLineEnd.bind fun _ => ?_
  refine follows_byte.bind fun _ => ?_
  refine (follows_require _ _).bind fun _ => ?_
  refine follows_byte.bind fun _ => ?_
  refine (follows_host _ _).bind fun _ => ?_
  refine follows_uint16.bind fun _ => ?_
  refine follows_skipLineEnd.bind fun _ => ?_
  exact follows_rest.bind fun _ => follows_pure _

end Switchyard
