import Switchyard.Config.Basic

/-!
# What a configuration is made of

`make_eq_ok` says of each part of a configuration which settings it comes from. Settings are refused
only for the text of the user and for the fallback.
-/

namespace Switchyard.Config

/-- The configuration that belongs to these settings, part by part. -/
structure MadeFrom (s : Settings) (properties : Option Bytes) (c : Config) : Prop where
  identity : Identity.parse? s.uuid = some c.identity
  domain : c.domain = s.domain
  wsPath : c.wsPath = (nonBlank s.wsPath).getD (defaultWsPath s.uuid)
  subPath : c.subPath = s.subPath.dropWhile (· == '/')
  name : c.name = s.name
  listenIp : c.listenIp = s.listenIp
  listenTcp : c.listenTcp = Properties.resolve (nonBlank s.listenTcp) properties
  cdnHost : c.cdnHost = s.cdnHost
  cdnTcp : c.cdnTcp = s.cdnTcp
  fallback : c.fallback = nonBlank s.fallback
  isEndpoint_fallback : ∀ value ∈ nonBlank s.fallback, isEndpoint value = true
  connectTimeout : c.connectTimeout = max s.connectTimeout 1
  sniffTimeout : c.sniffTimeout = if s.sniffTimeout = 0 then none else some s.sniffTimeout
  dohUrl : c.dohUrl = s.dohUrl
  geoipUrl : c.geoipUrl = s.geoipUrl

variable {s : Settings} {properties : Option Bytes} {c c' : Config}

/-- Nothing else can belong to the settings. -/
theorem MadeFrom.unique (h : MadeFrom s properties c) (h' : MadeFrom s properties c') : c = c' := by
  have hidentity : c.identity = c'.identity := by
    have hsome := h.identity.symm.trans h'.identity
    exact Option.some.inj hsome
  obtain ⟨-, h₂, h₃, h₄, h₅, h₆, h₇, h₈, h₉, h₁₀, -, h₁₁, h₁₂, h₁₃, h₁₄⟩ := h
  obtain ⟨-, h₂', h₃', h₄', h₅', h₆', h₇', h₈', h₉', h₁₀', -, h₁₁', h₁₂', h₁₃', h₁₄'⟩ := h'
  cases c
  cases c'
  simp_all

theorem MadeFrom.of_make (h : make s properties = .ok c) : MadeFrom s properties c := by
  unfold make at h
  split at h
  · cases h
  · next identity hidentity =>
    dsimp only at h
    split at h
    · next value hvalue =>
      split at h
      · next hendpoint =>
        cases h
        refine ⟨hidentity, rfl, rfl, rfl, rfl, rfl, rfl, rfl, rfl, rfl, ?_, rfl, rfl, rfl, rfl⟩
        rintro value' hvalue'
        cases hvalue.symm.trans hvalue'
        exact hendpoint
      · cases h
    · next hnone =>
      cases h
      refine ⟨hidentity, rfl, rfl, rfl, rfl, rfl, rfl, rfl, rfl, rfl, ?_, rfl, rfl, rfl, rfl⟩
      rintro value hvalue
      cases hnone.symm.trans hvalue

theorem make_eq_ok : make s properties = .ok c ↔ MadeFrom s properties c := by
  refine ⟨.of_make, fun h => ?_⟩
  obtain ⟨c', hc'⟩ : ∃ c', make s properties = .ok c' := by
    unfold make
    split
    · next hnone => cases hnone.symm.trans h.identity
    · dsimp only
      split
      · next value hvalue =>
        rw [if_pos (h.isEndpoint_fallback value hvalue)]
        exact ⟨_, rfl⟩
      · exact ⟨_, rfl⟩
  rw [hc', h.unique (.of_make hc')]

theorem load_eq_ok {properties : Option Bytes} {settings : Except UsageError Settings}
    {run : Bool × Config} (h : load settings properties = .ok run) :
    ∃ s, settings = .ok s ∧ make s properties = .ok run.2 := by
  unfold load at h
  split at h
  · cases h
  · next s =>
    split at h
    · cases h
    · next hc =>
      cases h
      exact ⟨s, rfl, hc⟩

end Switchyard.Config
