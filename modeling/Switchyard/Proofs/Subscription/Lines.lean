import Switchyard.Lookup.Provider
import Switchyard.Proofs.Config.DefaultPath
import Switchyard.Proofs.Config.Making
import Switchyard.Proofs.Subscription
import Switchyard.Proofs.Text.Plain
import Switchyard.Proofs.Text.Split

/-!
# The lines of a subscription

A subscription is two links, each on its line, and what ends in a link is the label. The rest of a
link is one line if the settings are (`newline_notMem_vlessLink`), so the lines of a subscription are
the two links up to the label's first line, each with the other lines of the label behind it
(`splitAll_links`). Labels come from a service. Only spaces in the provider's name are replaced in
them, so they have the line ends that the service has put into its texts (`newline_mem_label_iff`).
-/

namespace Switchyard

/-! ### Texts without line ends -/

/-- What links are made of, as far as it is set and is a text, is on one line. -/
structure Settings.OneLine (s : Settings) : Prop where
  domain : '\n' ∉ s.domain
  wsPath : ∀ path ∈ s.wsPath, '\n' ∉ path
  name : '\n' ∉ s.name
  cdnHost : '\n' ∉ s.cdnHost

theorem Numeral.newline_notMem_ofNat (n : Nat) : '\n' ∉ ofNat n := fun h =>
  absurd (isDigit_of_mem_ofNat h) (by decide)

theorem Base64.newline_notMem_encode (bs : Bytes) : '\n' ∉ encode bs := fun h =>
  absurd (mem_of_mem_encode h) (by decide)

namespace Subscription

/-! ### Two links -/

theorem vlessLink_eq (c : Config) (label : List Char) :
    vlessLink c label = vlessLink c [] ++ label := by
  unfold vlessLink options
  simp only [List.append_assoc, List.cons_append, List.nil_append]

theorem trojanLink_eq (c : Config) (label : List Char) :
    trojanLink c label = trojanLink c [] ++ label := by
  unfold trojanLink options
  simp only [List.append_assoc, List.cons_append, List.nil_append]

theorem label_eq (name provider : List Char) : label name provider = label name [] ++ provider := by
  unfold label
  split <;> simp

section Made

variable {s : Settings} {properties : Option Bytes} {c : Config}
  (h : Config.MadeFrom s properties c) (hs : s.OneLine)
include h hs

theorem newline_notMem_wsPath : '\n' ∉ c.wsPath := by
  rw [h.wsPath]
  cases hpath : Config.nonBlank s.wsPath with
  | none => exact Config.newline_notMem_defaultWsPath s.uuid
  | some path => exact hs.wsPath path (Option.mem_filter_iff.1 hpath).1

theorem newline_notMem_authority : '\n' ∉ authority c := by
  have huser : '\n' ∉ user c := Uuid.newline_not_mem c.identity.uuid_eq
  have hhost : '\n' ∉ c.cdnHost := h.cdnHost ▸ hs.cdnHost
  have htcp := Numeral.newline_notMem_ofNat c.cdnTcp.toNat
  unfold authority
  simp only [List.mem_append, List.mem_cons, huser, hhost, htcp]
  decide

theorem newline_notMem_options : '\n' ∉ options c [] := by
  have hdomain : '\n' ∉ c.domain := h.domain ▸ hs.domain
  have hpath := newline_notMem_wsPath h hs
  unfold options
  simp only [List.mem_append, List.mem_cons, hdomain, hpath]
  decide

theorem newline_notMem_vlessLink : '\n' ∉ vlessLink c [] := by
  have hauthority := newline_notMem_authority h hs
  have hoptions := newline_notMem_options h hs
  unfold vlessLink
  simp only [List.mem_append, hauthority, hoptions]
  decide

theorem newline_notMem_trojanLink : '\n' ∉ trojanLink c [] := by
  have hauthority := newline_notMem_authority h hs
  have hoptions := newline_notMem_options h hs
  unfold trojanLink
  simp only [List.mem_append, List.mem_cons, hauthority, hoptions]
  decide

theorem newline_notMem_label : '\n' ∉ label c.name [] := by
  have hname : '\n' ∉ c.name := h.name ▸ hs.name
  unfold label
  split
  · simp
  · simp [hname]

/-- The other lines of the label stand behind each of the links. -/
theorem splitAll_links {provider l : List Char} {ls : List (List Char)}
    (hprovider : Text.splitAll (· == '\n') provider = l :: ls) :
    Text.splitAll (· == '\n') (links c provider) =
      vlessLink c (label c.name l) :: ls ++ trojanLink c (label c.name l) :: ls := by
  have hlabel : Text.splitAll (· == '\n') (label c.name provider) = label c.name l :: ls := by
    rw [label_eq, label_eq c.name l]
    exact Text.splitAll_append_of_notMem (newline_notMem_label h hs) hprovider
  unfold links
  dsimp only
  rw [Text.splitAll_append_cons (p := (· == '\n')) rfl, vlessLink_eq, trojanLink_eq,
    Text.splitAll_append_of_notMem (newline_notMem_vlessLink h hs) hlabel,
    Text.splitAll_append_of_notMem (newline_notMem_trojanLink h hs) hlabel, ← vlessLink_eq,
    ← trojanLink_eq]

theorem splitAll_links_eq_pair_iff {provider : List Char} :
    Text.splitAll (· == '\n') (links c provider) =
        [vlessLink c (label c.name provider), trojanLink c (label c.name provider)] ↔
      '\n' ∉ provider := by
  constructor
  · intro hpair
    obtain ⟨l, ls, hl⟩ := List.exists_cons_of_ne_nil (Text.splitAll_ne_nil (· == '\n') provider)
    have hlength := congrArg List.length (hpair.symm.trans (splitAll_links h hs hl))
    -- There is no room for other lines.
    obtain rfl : ls = [] := by
      rw [List.length_append, List.length_cons, List.length_cons] at hlength
      refine List.eq_nil_of_length_eq_zero ?_
      simp only [List.length_cons, List.length_nil] at hlength
      omega
    have hjoined := Text.intercalate_splitAll '\n' provider
    rw [hl, List.intercalate_singleton] at hjoined
    rw [← Text.splitAll_eq_singleton_iff, hl, hjoined]
  · intro hfree
    exact splitAll_links h hs (Text.splitAll_eq_singleton_iff.2 hfree)

end Made

/-- What a client reads: the body without its last character, as base64 and then as UTF-8. -/
def readBody? (body : List Char) : Option (List Char) :=
  (Base64.decode? body.dropLast).bind Utf8.decode?

theorem readBody?_body (c : Config) (provider : List Char) :
    readBody? (body c provider) = some (links c provider) := by
  rw [readBody?, body, List.dropLast_concat, Base64.decode?_encode]
  exact Utf8.decode?_ofText _

end Subscription

/-! ### Labels -/

namespace Provider

theorem newline_mem_joined_iff {name : List Char} : '\n' ∈ joined name ↔ '\n' ∈ name := by
  rw [joined, List.mem_map]
  constructor
  · rintro ⟨c, hc, hline⟩
    split at hline
    · cases hline
    · exact hline ▸ hc
  · exact fun h => ⟨'\n', h, rfl⟩

/-- A label has the line ends of the texts that the service gave. -/
theorem newline_mem_label_iff (p : Provider) :
    '\n' ∈ p.label ↔ (∃ country ∈ p.country, '\n' ∈ country) ∨ ∃ name ∈ p.name, '\n' ∈ name := by
  have hcountry : '\n' ∈ p.country.getD unknownCountry ↔ ∃ country ∈ p.country, '\n' ∈ country := by
    cases p.country with
    | none => simpa using show '\n' ∉ unknownCountry by decide
    | some country => simp
  have hname : '\n' ∈ (p.name.map joined).getD unknownLabel ↔ ∃ name ∈ p.name, '\n' ∈ name := by
    cases p.name with
    | none => simpa using show '\n' ∉ unknownLabel by decide
    | some name => simpa using newline_mem_joined_iff
  rw [label, List.mem_append, List.mem_cons, hcountry, hname]
  simp

end Provider

namespace Subscription

/-- With nothing set the settings are on one line each. -/
theorem exists_oneLine_default :
    ∃ s c, Settings.ofValues? (fun _ => none) = some s ∧ Config.make s none = .ok c ∧ s.OneLine ∧
      c.name = "limbo".toList := by
  obtain ⟨s, hs⟩ : ∃ s, Settings.ofValues? (fun _ => none) = some s := ⟨_, rfl⟩
  obtain ⟨c, hc⟩ : ∃ c, Config.make s none = .ok c := by
    cases hs
    exact ⟨_, rfl⟩
  refine ⟨s, c, hs, hc, ?_, ?_⟩
  · cases hs
    exact ⟨by decide, nofun, by decide, by decide⟩
  · rw [(Config.make_eq_ok.1 hc).name]
    cases hs
    rfl

/-- What a client reads from its subscription, if the settings are on one line each. It is two links
exactly if the label is on one line, as it is while nothing is known of the provider. The other lines
of a label come twice, each as a line of its own behind a link; and a label has other lines exactly if
the service has put a line end into the country or into the provider's name. -/
theorem lines_of_provider {s : Settings} {properties : Option Bytes} {c : Config}
    (h : Config.make s properties = .ok c) (hs : s.OneLine) :
    (∀ provider, readBody? (body c provider) = some (links c provider) ∧
      ∃ code, body c provider = code ++ ['\n'] ∧ '\n' ∉ code) ∧
    (∀ provider l ls, Text.splitAll (· == '\n') provider = l :: ls →
      Text.splitAll (· == '\n') (links c provider) =
        vlessLink c (label c.name l) :: ls ++ trojanLink c (label c.name l) :: ls) ∧
    (∀ provider, Text.splitAll (· == '\n') (links c provider) =
        [vlessLink c (label c.name provider), trojanLink c (label c.name provider)] ↔
      '\n' ∉ provider) ∧
    '\n' ∉ Provider.unknownLabel ∧
    ∀ answer p, Provider.parse? answer = some p →
      (Text.splitAll (· == '\n') (links c p.label) =
          [vlessLink c (label c.name p.label), trojanLink c (label c.name p.label)] ↔
        (∀ country ∈ p.country, '\n' ∉ country) ∧ ∀ name ∈ p.name, '\n' ∉ name) := by
  have hmade := Config.make_eq_ok.1 h
  refine ⟨fun provider => ⟨readBody?_body c provider, _, rfl, Base64.newline_notMem_encode _⟩,
    fun provider l ls => splitAll_links hmade hs,
    fun provider => splitAll_links_eq_pair_iff hmade hs, by decide, fun answer p _ => ?_⟩
  rw [splitAll_links_eq_pair_iff hmade hs, Provider.newline_mem_label_iff]
  simp

/-- So it is with the default settings and a provider whose name has a space in it. -/
theorem lines_of_provider_of_space :
    ∃ s c p, Settings.ofValues? (fun _ => none) = some s ∧ Config.make s none = .ok c ∧
      Provider.parse? "\x7b\"country_code\":\"DE\",\"isp\":\"a b\"\x7d".toList = some p ∧
      Text.splitAll (· == '\n') (links c p.label) =
        [vlessLink c (label c.name p.label), trojanLink c (label c.name p.label)] := by
  obtain ⟨s, c, hs, hc, hline, -⟩ := exists_oneLine_default
  have hp : Provider.parse? "\x7b\"country_code\":\"DE\",\"isp\":\"a b\"\x7d".toList =
      some ⟨some "DE".toList, some "a b".toList⟩ := by
    decide +kernel
  refine ⟨s, c, _, hs, hc, hp, ?_⟩
  exact ((lines_of_provider hc hline).2.2.2.2 _ _ hp).2 ⟨by simp, by simp⟩

/-- A service that writes a line end into the name adds a link of its own, twice. -/
theorem link_of_service :
    ∃ s c p, Settings.ofValues? (fun _ => none) = some s ∧ Config.make s none = .ok c ∧ s.OneLine ∧
      Provider.parse? "\x7b\"isp\":\"a\\nvless://b@c:1\"\x7d".toList = some p ∧
      Text.splitAll (· == '\n') (links c p.label) =
        [vlessLink c "limbo-XX-a".toList, "vless://b@c:1".toList,
          trojanLink c "limbo-XX-a".toList, "vless://b@c:1".toList] := by
  obtain ⟨s, c, hs, hc, hline, hname⟩ := exists_oneLine_default
  have hp : Provider.parse? "\x7b\"isp\":\"a\\nvless://b@c:1\"\x7d".toList =
      some ⟨none, some "a\nvless://b@c:1".toList⟩ := by
    decide +kernel
  have hlabel : Text.splitAll (· == '\n')
      (Provider.label ⟨none, some "a\nvless://b@c:1".toList⟩) =
        ["XX-a".toList, "vless://b@c:1".toList] := by
    decide +kernel
  refine ⟨s, c, _, hs, hc, hline, hp, ?_⟩
  rw [splitAll_links (Config.make_eq_ok.1 hc) hline hlabel, hname]
  rfl

end Subscription

end Switchyard
