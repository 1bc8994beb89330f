import Switchyard.Proofs.Tunnel.Trojan
import Switchyard.Proofs.Tunnel.Vless
import Switchyard.Tunnel.Authenticate

/-!
# Who is let in

A message is accepted for one of two reasons, and no message for both: it carries the user's UUID
where VLESS has it, behind version zero, or it begins with the user's password. Since the password is
text, its first byte is not zero, and the order in which the schemes are tried does not matter.
-/

namespace Switchyard

/-- The message is a VLESS message of version zero of the user, and asks for `r`. -/
structure FitsVless (id : Identity) (message : Bytes) (r : TunnelRequest) : Prop where
  long : 17 < message.length
  version : message.head? = some 0
  uuid : (message.drop 1).take 16 = id.uuid
  layout : ∃ m : Vless.Layout, m.bytes id = message ∧ m.request = r

/-- The message is a Trojan message of the user, and asks for `r`. -/
structure FitsTrojan (id : Identity) (message : Bytes) (r : TunnelRequest) : Prop where
  password : message.take 56 = Bytes.ofText id.password
  layout : ∃ m : Trojan.Layout, m.bytes id = message ∧ m.request = r

/-- The schemes tried in the other order. -/
def authenticateTrojanFirst (id : Identity) (message : Bytes) : Option TunnelRequest :=
  let asVless :=
    if Vless.prologueLength < message.length ∧ message.head? = some 0 then
      (Vless.parse id message).toOption
    else none
  (Trojan.parse id message).toOption.or asVless

variable {id : Identity} {message : Bytes} {r r' : TunnelRequest}

theorem fitsVless_iff :
    FitsVless id message r ↔
      (17 < message.length ∧ message.head? = some 0) ∧ Vless.parse id message = .ok r := by
  constructor
  · rintro ⟨hl, hv, -, hm⟩
    exact ⟨⟨hl, hv⟩, Vless.parse_eq_ok.2 hm⟩
  · rintro ⟨⟨hl, hv⟩, h⟩
    obtain ⟨m, hm, hr⟩ := Vless.parse_eq_ok.1 h
    refine ⟨hl, hv, ?_, m, hm, hr⟩
    rw [← hm, Vless.Layout.bytes_eq, List.drop_succ_cons, List.drop_zero,
      List.take_left' id.length_uuid]

theorem fitsTrojan_iff : FitsTrojan id message r ↔ Trojan.parse id message = .ok r := by
  constructor
  · rintro ⟨-, hm⟩
    exact Trojan.parse_eq_ok.2 hm
  · intro h
    obtain ⟨m, hm, hr⟩ := Trojan.parse_eq_ok.1 h
    refine ⟨?_, m, hm, hr⟩
    rw [← hm, Trojan.Layout.bytes_eq]
    exact List.take_left' id.length_ofText_password

/-- No message carries both credentials: one begins with a zero byte, the other with a digit. -/
theorem FitsVless.not_fitsTrojan (h : FitsVless id message r) : ¬ FitsTrojan id message r' := by
  rintro ⟨-, m, rfl, -⟩
  have hv := h.version
  rw [Trojan.Layout.bytes_eq] at hv
  exact id.head?_password_append _ hv

theorem toOption_eq_some {x : Except Refusal TunnelRequest} : x.toOption = some r ↔ x = .ok r := by
  cases x <;> simp [Except.toOption]

/-- Either credential is enough. -/
theorem authenticate_eq_some :
    authenticate id message = some r ↔ FitsVless id message r ∨ FitsTrojan id message r := by
  unfold authenticate
  rw [fitsVless_iff]
  split
  · next hg =>
    rw [Option.or_eq_some_iff, toOption_eq_some, toOption_eq_some, ← fitsTrojan_iff]
    constructor
    · rintro (h | ⟨-, h⟩)
      · exact .inl ⟨hg, h⟩
      · exact .inr h
    · rintro (⟨-, h⟩ | h)
      · exact .inl h
      · refine .inr ⟨?_, h⟩
        -- A VLESS message would carry both credentials.
        cases hp : Vless.parse id message with
        | error e => rfl
        | ok r' => exact absurd h (fitsVless_iff.2 ⟨hg, hp⟩).not_fitsTrojan
  · next hg =>
    rw [toOption_eq_some, ← fitsTrojan_iff]
    exact ⟨.inr, fun h => h.resolve_left fun hv => hg hv.1⟩

theorem authenticateTrojanFirst_eq :
    authenticateTrojanFirst id message = authenticate id message := by
  apply Option.ext
  intro r
  rw [authenticate_eq_some, fitsVless_iff, authenticateTrojanFirst, Option.or_eq_some_iff,
    toOption_eq_some, ← fitsTrojan_iff]
  constructor
  · rintro (h | ⟨-, h⟩)
    · exact .inr h
    · split at h
      · next hg => exact .inl ⟨hg, toOption_eq_some.1 h⟩
      · cases h
  · rintro (⟨hg, h⟩ | h)
    · refine .inr ⟨?_, ?_⟩
      · -- So would a Trojan message.
        cases hp : Trojan.parse id message with
        | error e => rfl
        | ok r' =>
          exact absurd (fitsTrojan_iff.2 hp) (fitsVless_iff.2 ⟨hg, h⟩).not_fitsTrojan
      · exact (if_pos hg).trans (toOption_eq_some.2 h)
    · exact .inl h

/-- What is answered tells the schemes apart. -/
theorem reply_of_authenticate {version : UInt8} {rest : Bytes}
    (h : authenticate id (version :: rest) = some r) :
    r.scheme = .vless ∧ r.reply version = some [0, 0] ∨
      r.scheme = .trojan ∧ r.reply version = none := by
  rcases authenticate_eq_some.1 h with h | h
  · obtain ⟨m, -, rfl⟩ := h.layout
    obtain rfl := Option.some.inj h.version
    exact .inl ⟨rfl, rfl⟩
  · obtain ⟨m, -, rfl⟩ := h.layout
    exact .inr ⟨rfl, rfl⟩

/-- Authentication is sound, complete and unambiguous. -/
theorem authenticate_iff (id : Identity) (message : Bytes) :
    (∀ r, authenticate id message = some r ↔
      (FitsVless id message r ∧ ¬ ∃ r', FitsTrojan id message r') ∨
      (FitsTrojan id message r ∧ ¬ ∃ r', FitsVless id message r')) ∧
    (¬ ∃ r r', FitsVless id message r ∧ FitsTrojan id message r') ∧
    (∀ r, FitsVless id message r → Vless.parse id message = .ok r) ∧
    (∀ r, FitsTrojan id message r → Trojan.parse id message = .ok r) ∧
    (message.take 56 ≠ Bytes.ofText id.password → (message.drop 1).take 16 ≠ id.uuid →
      authenticate id message = none) ∧
    authenticateTrojanFirst id message = authenticate id message ∧
    ∀ version rest r, message = version :: rest → authenticate id message = some r →
      r.scheme = .vless ∧ r.reply version = some [0, 0] ∨
        r.scheme = .trojan ∧ r.reply version = none := by
  refine ⟨?_, ?_, fun r h => (fitsVless_iff.1 h).2, fun r h => fitsTrojan_iff.1 h, ?_,
    authenticateTrojanFirst_eq, ?_⟩
  · intro r
    rw [authenticate_eq_some]
    constructor
    · rintro (h | h)
      · exact .inl ⟨h, fun ⟨r', h'⟩ => h.not_fitsTrojan h'⟩
      · exact .inr ⟨h, fun ⟨r', h'⟩ => h'.not_fitsTrojan h⟩
    · rintro (⟨h, -⟩ | ⟨h, -⟩)
      · exact .inl h
      · exact .inr h
  · rintro ⟨r, r', h, h'⟩
    exact h.not_fitsTrojan h'
  · intro hp hu
    by_contra hne
    obtain ⟨r, hr⟩ := Option.ne_none_iff_exists'.1 hne
    rcases authenticate_eq_some.1 hr with h | h
    · exact hu h.uuid
    · exact hp h.password
  · rintro version rest r rfl h
    exact reply_of_authenticate h

end Switchyard
