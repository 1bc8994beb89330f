import Switchyard.Proofs.Address
import Switchyard.Proofs.Session.Protocol

/-!
# The destination of a session

A host that came as the bytes of an address is written out, and the text is read again when it is
dialed. The two agree on every address (`Host.Denotes.parse?`), so such a host is dialed as the
address that it was on the wire, and no lookup learns of it. A host that came as a name is looked up
once, unless the name itself reads as an address.
-/

namespace Switchyard

/-! ### The address of a host -/

/-- The address whose bytes the host came as. -/
inductive Host.Denotes : Host → IpAddress → Prop
  | ipv4 (octets : List UInt8) (length_eq : octets.length = 4) :
      Denotes (.ipv4 octets) (.v4 octets length_eq)
  | ipv6 (groups : List UInt16) (length_eq : groups.length = 8) :
      Denotes (.ipv6 (groups.flatMap IpAddress.groupOctets)) (.v6 groups length_eq)

namespace Host

variable {h h' : Host} {a : IpAddress}

/-- Every host that a header carries is a name or denotes an address. -/
theorem exists_denotes (hf : h.Fits) (hname : ∀ name, h ≠ .domain name) : ∃ a, h.Denotes a := by
  cases h with
  | ipv4 octets => exact ⟨_, .ipv4 octets hf⟩
  | domain name => exact absurd rfl (hname name)
  | ipv6 octets =>
    obtain ⟨groups, hl, rfl⟩ := exists_flatMap_eq (n := 8) hf
    exact ⟨_, .ipv6 groups hl⟩

namespace Denotes

theorem bytes_eq (hd : h.Denotes a) : a.bytes = h.address := by
  cases hd <;> rfl

/-- What is written for an address is read as that address. -/
theorem parse? (hd : h.Denotes a) : IpAddress.parse? h.text = some a := by
  cases hd with
  | ipv4 octets hl => exact IpAddress.parse?_dotted hl
  | ipv6 groups hl =>
    have htext : (Host.ipv6 (groups.flatMap IpAddress.groupOctets)).text =
        IpAddress.colonSeparated groups :=
      congrArg IpAddress.colonSeparated (groups_flatMap groups)
    rw [htext]
    exact IpAddress.parse?_colonSeparated hl

theorem unique (hd : h.Denotes a) (hd' : h'.Denotes a) : h = h' := by
  cases hd <;> cases hd' <;> rfl

/-- Addresses of one text are one address. -/
theorem eq_of_text {a' : IpAddress} (hd : h.Denotes a) (hd' : h'.Denotes a')
    (ht : h.text = h'.text) : h = h' := by
  have ha : some a = some a' := by rw [← hd.parse?, ← hd'.parse?, ht]
  cases ha
  exact hd.unique hd'

end Denotes

end Host

/-- The host of an accepted message fits the header that carried it. -/
theorem TunnelRequest.host_fits {id : Identity} {message : Bytes} {r : TunnelRequest}
    (h : Vless.parse id message = .ok r ∨ Trojan.parse id message = .ok r) : r.host.Fits := by
  rcases h with h | h
  · obtain ⟨m, -, rfl⟩ := Vless.parse_eq_ok.1 h
    exact m.host_fits
  · obtain ⟨m, -, rfl⟩ := Trojan.parse_eq_ok.1 h
    exact m.host_fits

/-! ### Dialing a text -/

namespace Network

variable {net : Network} {timeout : UInt64} {text : List Char} {a : IpAddress}

/-- A text is dialed as this address, whatever a lookup would have given for it. -/
structure GoesTo (net : Network) (timeout : UInt64) (text : List Char) (a : IpAddress) : Prop where
  read : IpAddress.parse? text = some a
  literal : IpAddress.isLiteral text = true
  target : net.target text = text
  connects : ∀ tcp remote, net.connect text tcp = .connected remote →
    (net.dial timeout text tcp).result = .ok remote
  lookups : ∀ tcp, (net.dial timeout text tcp).lookups = []
  unasked : ∀ resolve tcp,
    { net with resolve }.dial timeout text tcp = net.dial timeout text tcp

theorem isLiteral_eq_false_iff : IpAddress.isLiteral text = false ↔ IpAddress.parse? text = none := by
  rw [IpAddress.isLiteral, Option.isSome_eq_false_iff, Option.isNone_iff_eq_none]

theorem lookups_dial (net : Network) (timeout : UInt64) (text : List Char) (tcp : UInt16) :
    (net.dial timeout text tcp).lookups = if IpAddress.isLiteral text then [] else [text] :=
  rfl

theorem goesTo (net : Network) (timeout : UInt64) (h : IpAddress.parse? text = some a) :
    net.GoesTo timeout text a := by
  have hliteral := IpAddress.isLiteral_of_parse? h
  have htarget (net : Network) : net.target text = text := if_pos hliteral
  refine ⟨h, hliteral, htarget net, fun tcp remote hr => ?_, fun tcp => if_pos hliteral,
    fun resolve tcp => ?_⟩
  · rw [dial, htarget, hr]
  · simp only [dial, htarget]

theorem lookups_dial_eq_singleton_iff {tcp : UInt16} :
    (net.dial timeout text tcp).lookups = [text] ↔ IpAddress.parse? text = none := by
  rw [lookups_dial, ← isLiteral_eq_false_iff]
  cases IpAddress.isLiteral text <;> simp

theorem lookups_dial_eq_nil_iff {tcp : UInt16} :
    (net.dial timeout text tcp).lookups = [] ↔ ∃ a, IpAddress.parse? text = some a := by
  rw [lookups_dial, ← Option.isSome_iff_exists, ← IpAddress.isLiteral]
  cases IpAddress.isLiteral text <;> simp

end Network

/-! ### What a session dials -/

namespace Session

open Calls

variable {id : Identity} {timeout : UInt64} {net : Network} {s : Session} {bs : Bytes}
  {request : TunnelRequest} {after : List Call}

/-- Behind the user's first message a session greets, and goes to the destination. -/
theorem Follows.exists_prefix (h : Follows id net (.message (.binary bs)) after s)
    (ha : authenticate id bs = some request) :
    ∃ greeting : List Call, lookups greeting = [] ∧
      (∀ target tcp, .dial target tcp ∉ greeting) ∧ after <+: greeting ++ visit net request := by
  cases hs : request.scheme with
  | vless =>
    rcases h.of_vless ha hs with hp | ⟨e, c, rfl, -⟩
    · exact ⟨[.send (.binary [0, 0]) (.ok ()), .settle], rfl, by simp, hp⟩
    · exact ⟨[.send (.binary [0, 0]) (.error e)], rfl, by simp, List.prefix_append _ _⟩
  | trojan => exact ⟨[], rfl, by simp, h.of_trojan ha hs⟩

/-- All that a session has looked up is what its request needs, and once it has dialed, that is what
it has looked up and where it went. -/
theorem Follows.destination (h : Follows id net (.message (.binary bs)) after s)
    (ha : authenticate id bs = some request) :
    lookups after <+: names request ∧
      ∀ target tcp, .dial target tcp ∈ after →
        target = net.target request.host.text ∧ tcp = request.tcp ∧
          lookups after = names request := by
  obtain ⟨greeting, hnone, hundialed, hp⟩ := h.exists_prefix ha
  refine ⟨?_, fun target tcp hmem => ?_⟩
  · have hlookups := hp.filterMap Call.name?
    rwa [← lookups, ← lookups, lookups_append, hnone, lookups_visit] at hlookups
  · -- The dialing is the last call that there can be.
    rw [visit, ← List.append_assoc, List.prefix_concat_iff] at hp
    rcases hp with rfl | hp
    · simp only [List.mem_append, List.mem_singleton, hundialed, List.mem_map, false_or] at hmem
      rcases hmem with ⟨name, -, hname⟩ | hdial
      · cases hname
      · cases hdial
        refine ⟨rfl, rfl, ?_⟩
        rw [List.append_assoc, ← visit, lookups_append, hnone, lookups_visit, List.nil_append]
    · have hbefore := hp.subset hmem
      simp only [List.mem_append, hundialed, List.mem_map, false_or] at hbefore
      obtain ⟨name, -, hname⟩ := hbefore
      cases hname

/-- The record of a session that has pulled the user's first message. -/
theorem Stands.destination {c : Channel} {calls before : List Call}
    (h : Stands id net c calls s) (heq : calls = before ++ .pull (.message (.binary bs)) :: after)
    (ha : authenticate id bs = some request) :
    lookups calls <+: names request ∧
      ∀ target tcp, .dial target tcp ∈ calls →
        target = net.target request.host.text ∧ tcp = request.tcp ∧
          lookups calls = names request := by
  obtain ⟨hbefore, -, hf⟩ := h.before_pull heq
  obtain ⟨-, hf⟩ := hf rfl
  obtain ⟨hp, hdial⟩ := hf.destination ha
  have hlookups : lookups calls = lookups after := by
    rw [heq, hbefore, lookups_append, lookups_map_pull, lookups_cons]
    rfl
  rw [hlookups]
  refine ⟨hp, fun target tcp hmem => hdial target tcp ?_⟩
  rw [heq, hbefore, List.mem_append, List.mem_cons] at hmem
  rcases hmem with hmem | hmem | hmem
  · simp at hmem
  · cases hmem
  · exact hmem

end Session

open Session Calls in
/-- Addresses survive their way through text. The host of an accepted message that came as the bytes
of an address has a text that reads as the address with those bytes, so it is dialed as that address
and never looked up; two such hosts with one text are one. A host that came as a name is looked up
once, by its text and if and only if that does not read as an address. A session whose first message
is accepted dials nothing else and looks up nothing else, however channel and network behave. -/
theorem Network.reaches_host (id : Identity) (timeout : UInt64) (net : Network) :
    (∀ message r, Vless.parse id message = .ok r ∨ Trojan.parse id message = .ok r →
      ∀ octets, r.host = .ipv4 octets ∨ r.host = .ipv6 octets →
        ∃ a, r.host.Denotes a ∧ a.bytes = octets ∧ net.GoesTo timeout r.host.text a) ∧
    (∀ message r, Vless.parse id message = .ok r ∨ Trojan.parse id message = .ok r →
      ∀ id' message' r', Vless.parse id' message' = .ok r' ∨ Trojan.parse id' message' = .ok r' →
        (∀ name, r.host ≠ .domain name) → (∀ name, r'.host ≠ .domain name) →
        r.host ≠ r'.host → r.host.text ≠ r'.host.text) ∧
    (∀ message r, Vless.parse id message = .ok r ∨ Trojan.parse id message = .ok r →
      ∀ name, r.host = .domain name →
        Utf8.Lossy name r.host.text ∧
        (∀ tcp, (net.dial timeout r.host.text tcp).lookups = [r.host.text] ↔
          IpAddress.parse? r.host.text = none) ∧
        (∀ tcp, (net.dial timeout r.host.text tcp).lookups = [] ↔
          ∃ a, IpAddress.parse? r.host.text = some a) ∧
        (IpAddress.parse? r.host.text = none →
          net.target r.host.text = net.resolve r.host.text) ∧
        ∀ a, IpAddress.parse? r.host.text = some a → net.GoesTo timeout r.host.text a) ∧
    ∀ channel moves,
      let t := (Trail.start channel).run id timeout net moves
      ∀ bs request, .pull (.message (.binary bs)) ∈ t.calls → authenticate id bs = some request →
        lookups t.calls <+: (net.dial timeout request.host.text request.tcp).lookups ∧
        ∀ target tcp, .dial target tcp ∈ t.calls →
          target = net.target request.host.text ∧ tcp = request.tcp ∧
            lookups t.calls = (net.dial timeout request.host.text request.tcp).lookups := by
  refine ⟨fun message r hr octets ho => ?_, fun message r hr id' message' r' hr' hn hn' hne ht => ?_,
    fun message r hr name hname => ?_, fun channel moves => ?_⟩
  · have hname : ∀ name, r.host ≠ .domain name := by
      rintro name hname
      rcases ho with ho | ho <;> cases ho.symm.trans hname
    have hoctets : r.host.address = octets := by
      rcases ho with ho | ho <;> rw [ho] <;> rfl
    obtain ⟨a, ha⟩ := Host.exists_denotes (TunnelRequest.host_fits hr) hname
    exact ⟨a, ha, ha.bytes_eq.trans hoctets, goesTo net timeout ha.parse?⟩
  · obtain ⟨a, ha⟩ := Host.exists_denotes (TunnelRequest.host_fits hr) hn
    obtain ⟨a', ha'⟩ := Host.exists_denotes (TunnelRequest.host_fits hr') hn'
    exact hne (ha.eq_of_text ha' ht)
  · refine ⟨?_, fun tcp => lookups_dial_eq_singleton_iff, fun tcp => lookups_dial_eq_nil_iff,
      fun h => ?_, fun a ha => goesTo net timeout ha⟩
    · rw [hname]
      exact Utf8.lossy_isLossy name
    · rw [target, isLiteral_eq_false_iff.2 h]
      rfl
  · intro t bs request hmem ha
    obtain ⟨c, -, hs⟩ : ∃ c, Kept channel (moves.flatMap Session.Move.arrivals) t c ∧
      Stands id net c t.calls t.session := exists_stands_run channel moves
    obtain ⟨before, after, heq⟩ := List.append_of_mem hmem
    exact hs.destination heq ha

end Switchyard
