import Switchyard.Proofs.Config.Making
import Switchyard.Proofs.Text.Base64
import Switchyard.Proofs.Tunnel.Authenticate
import Switchyard.Proofs.Uuid
import Switchyard.Subscription

/-!
# What a client makes of its subscription

A client knows of the user what the links name: the text before the first `@`. From this text alone
it makes its messages, as a VLESS client from the bytes of the UUID and as a Trojan client from the
digest of the text. Both are let in (`authenticate_vlessMessage`, `authenticate_trojanMessage`), since
the links name the configured text as the identity holds it.
-/

namespace Switchyard

/-! ### The client -/

namespace Subscription

/-- The text behind the first `://`. -/
def afterScheme? : List Char → Option (List Char)
  | ':' :: '/' :: '/' :: rest => some rest
  | _ :: rest => afterScheme? rest
  | [] => none

/-- The user that a link names: the text from there to the first `@`. -/
def userOf? (link : List Char) : Option (List Char) :=
  (afterScheme? link).bind fun rest =>
    if '@' ∈ rest then some (rest.takeWhile (· ≠ '@')) else none

end Subscription

/-- The message of a client that has the bytes of a UUID. -/
def Vless.clientMessage (uuid addOns : Bytes) (command : UInt8) (host : Host) (tcp : UInt16)
    (payload : Bytes) : Bytes :=
  0 :: uuid ++ UInt8.ofNat addOns.length :: addOns ++ command ::
    Bytes.ofNat 2 tcp.toNat ++ encodeHost host ++ payload

/-- The message of a client that has a text as its password. The line end in front of the command
may be missing, that in front of the payload may not. -/
def Trojan.clientMessage (secret : List Char) (separated : Bool) (host : Host) (tcp : UInt16)
    (payload : Bytes) : Bytes :=
  Bytes.ofText (Hex.encode (Sha224.digest (Bytes.ofText secret))) ++
    (if separated then Header.lineEnd else []) ++ connectCommand :: encodeHost host ++
      Bytes.ofNat 2 tcp.toNat ++ Header.lineEnd ++ payload

section Messages

variable (id : Identity) {host : Host} (hf : host.Fits) (tcp : UInt16) (payload : Bytes)

include hf

theorem authenticate_vlessMessage {addOns : Bytes} (hlen : addOns.length ≤ 255) (command : UInt8) :
    authenticate id (Vless.clientMessage id.uuid addOns command host tcp payload) =
      some ⟨.vless, host, tcp, payload⟩ := by
  let m : Vless.Layout := ⟨0, addOns, hlen, command, tcp, host, hf, payload⟩
  have hbytes : Vless.clientMessage id.uuid addOns command host tcp payload = m.bytes id :=
    Vless.encode_eq_bytes id m
  have hlong : 17 < (m.bytes id).length := by
    rw [Vless.Layout.bytes_eq, List.length_cons, List.length_append, id.length_uuid,
      List.length_cons]
    omega
  rw [hbytes]
  refine authenticate_eq_some.2 (.inl (fitsVless_iff.2 ⟨⟨hlong, ?_⟩, ?_⟩))
  · rw [Vless.Layout.bytes_eq]
    rfl
  · exact Vless.parse_eq_ok.2 ⟨m, rfl, rfl⟩

theorem authenticate_trojanMessage (separated : Bool) :
    authenticate id (Trojan.clientMessage id.text separated host tcp payload) =
      some ⟨.trojan, host, tcp, payload⟩ := by
  have hparse := Trojan.parse_encode id separated true hf tcp payload
  exact authenticate_eq_some.2 (.inr (fitsTrojan_iff.2 hparse))

end Messages

namespace Subscription

/-! ### The links -/

theorem afterScheme?_append {scheme rest : List Char} (h : ':' ∉ scheme) :
    afterScheme? (scheme ++ ':' :: '/' :: '/' :: rest) = some rest := by
  induction scheme with
  | nil => rfl
  | cons c scheme ih =>
    obtain ⟨hc, hscheme⟩ := not_or.1 (mt List.mem_cons.2 h)
    rw [List.cons_append, afterScheme?]
    · exact ih hscheme
    · rintro _ rfl
      exact absurd rfl hc

theorem userOf?_append (scheme : List Char) {user rest : List Char} (hs : ':' ∉ scheme)
    (hu : '@' ∉ user) :
    userOf? (scheme ++ ':' :: '/' :: '/' :: (user ++ '@' :: rest)) = some user := by
  have hkept : ∀ c ∈ user, decide (c ≠ '@') = true := fun c hc =>
    decide_eq_true (ne_of_mem_of_not_mem hc hu)
  rw [userOf?, afterScheme?_append hs, Option.bind_some, if_pos (by simp),
    List.takeWhile_append_of_pos hkept]
  simp

variable (c : Config)

theorem at_not_mem_user : '@' ∉ user c :=
  Uuid.at_not_mem c.identity.uuid_eq

theorem userOf?_vlessLink (label : List Char) : userOf? (vlessLink c label) = some (user c) := by
  have hscheme : "vless://".toList = ['v', 'l', 'e', 's', 's'] ++ [':', '/', '/'] := rfl
  unfold vlessLink authority
  rw [hscheme]
  simp only [List.append_assoc, List.cons_append, List.nil_append]
  exact userOf?_append ['v', 'l', 'e', 's', 's'] (by decide) (at_not_mem_user c)

theorem userOf?_trojanLink (label : List Char) : userOf? (trojanLink c label) = some (user c) := by
  have hscheme : "trojan://".toList = ['t', 'r', 'o', 'j', 'a', 'n'] ++ [':', '/', '/'] := rfl
  unfold trojanLink authority
  rw [hscheme]
  simp only [List.append_assoc, List.cons_append, List.nil_append]
  exact userOf?_append ['t', 'r', 'o', 'j', 'a', 'n'] (by decide) (at_not_mem_user c)

end Subscription

theorem Identity.text_of_parse? {configured : List Char} {id : Identity}
    (h : parse? configured = some id) : id.text = Text.trim configured := by
  unfold parse? at h
  split at h
  · cases h
    rfl
  · cases h

/-- The user of a configuration is the text that is set, without white space around it. -/
theorem Config.text_of_make {s : Settings} {properties : Option Bytes} {c : Config}
    (h : make s properties = .ok c) : c.identity.text = Text.trim s.uuid :=
  Identity.text_of_parse? (make_eq_ok.1 h).identity

namespace Subscription

/-- Whatever spelling of the UUID is configured: both links name it as it is written, and whoever
makes messages from what the links name is let in, in either scheme. -/
theorem links_let_in {s : Settings} {properties : Option Bytes} {c : Config}
    (h : Config.make s properties = .ok c) :
    ∃ u uuid digits, u = Text.trim s.uuid ∧ Uuid.parse? u = some uuid ∧
      Uuid.Spells digits u ∧ Uuid.parseDigits? digits = some uuid ∧
      (∀ label, userOf? (vlessLink c label) = some u ∧ userOf? (trojanLink c label) = some u) ∧
      (∀ provider,
        let text := Bytes.ofText (vlessLink c (label c.name provider) ++
          '\n' :: trojanLink c (label c.name provider))
        body c provider = Base64.encode text ++ ['\n'] ∧
          Base64.decode? (Base64.encode text) = some text) ∧
      ∀ host tcp payload, host.Fits →
        (∀ addOns command, addOns.length ≤ 255 →
          authenticate c.identity (Vless.clientMessage uuid addOns command host tcp payload) =
            some ⟨.vless, host, tcp, payload⟩) ∧
        ∀ separated,
          authenticate c.identity (Trojan.clientMessage u separated host tcp payload) =
            some ⟨.trojan, host, tcp, payload⟩ := by
  have huuid := c.identity.uuid_eq
  obtain ⟨digits, hdigits, hspells⟩ := Uuid.parse?_eq_some_iff.1 huuid
  refine ⟨user c, c.identity.uuid, digits, Config.text_of_make h, huuid, hspells, hdigits,
    fun label => ⟨userOf?_vlessLink c label, userOf?_trojanLink c label⟩,
    fun provider => ⟨rfl, Base64.decode?_encode _⟩,
    fun host tcp payload hf => ⟨fun addOns command hlen => ?_, fun separated => ?_⟩⟩
  · exact authenticate_vlessMessage c.identity hf tcp payload hlen command
  · exact authenticate_trojanMessage c.identity hf tcp payload separated

/-- So it is with a name in capitals and white space, and all other settings left to be default. -/
theorem links_let_in_of_name :
    ∃ s c, Settings.ofValues? (fun
        | .uuid => some "\tURN:UUID:b64c9a01-3f09-4dea-A0F1-DC85E5A3AC19 ".toList
        | _ => none) = some s ∧
      Config.make s none = .ok c ∧ ∃ u uuid,
        userOf? (vlessLink c []) = some u ∧ userOf? (trojanLink c []) = some u ∧
          Uuid.parse? u = some uuid ∧
          authenticate c.identity (Vless.clientMessage uuid [] 1 (.domain [0x61]) 80 [0x62]) =
            some ⟨.vless, .domain [0x61], 80, [0x62]⟩ := by
  obtain ⟨s, hs⟩ : ∃ s, Settings.ofValues? (fun
      | .uuid => some "\tURN:UUID:b64c9a01-3f09-4dea-A0F1-DC85E5A3AC19 ".toList
      | _ => none) = some s := ⟨_, rfl⟩
  obtain ⟨c, hc⟩ : ∃ c, Config.make s none = .ok c := by
    cases hs
    exact ⟨_, rfl⟩
  obtain ⟨u, uuid, -, -, huuid, -, -, hlinks, -, hlet⟩ := links_let_in hc
  exact ⟨s, c, hs, hc, u, uuid, (hlinks []).1, (hlinks []).2, huuid,
    (hlet _ 80 _ (by decide)).1 [] 1 (by decide)⟩

end Subscription

end Switchyard
