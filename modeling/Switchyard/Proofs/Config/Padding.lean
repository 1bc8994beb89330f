import Switchyard.Proofs.Config.DefaultPath
import Switchyard.Proofs.Config.Making
import Switchyard.Proofs.Subscription
import Switchyard.Proofs.Text.Blank

/-!
# White space around the user's UUID

The identity is made from the trimmed text and the default path from the text as it is set. So white
space around the text changes nothing but that path, and what an error quotes: `make_padded` gives the
one outcome from the other. Since the path shows the first eight characters, white space behind the
text does not matter at all, and in front of it always does.
-/

namespace Switchyard

/-- The settings with something put around the text of the user. -/
def Settings.padded (s : Settings) (front back : List Char) : Settings :=
  { s with uuid := front ++ s.uuid ++ back }

/-- The error with something put around the text of the user, where that is what it quotes. -/
def ConfigError.padded (front back : List Char) : ConfigError → ConfigError
  | invalidUuid value => invalidUuid (front ++ value ++ back)
  | invalidFallback value => invalidFallback value

theorem ConfigError.subject_padded {front back : List Char}
    (hfront : ∀ b ∈ front, Text.isBlank b = true) (hback : ∀ b ∈ back, Text.isBlank b = true)
    (e : ConfigError) : (e.padded front back).subject = e.subject := by
  cases e with
  | invalidUuid value => exact Text.trim_append hfront hback value
  | invalidFallback value => rfl

theorem Identity.parse?_of_trim_eq {cs cs' : List Char} (h : Text.trim cs = Text.trim cs') :
    parse? cs = parse? cs' := by
  unfold parse?
  rw [h]

namespace Subscription

variable (c : Config) (path label : List Char)

/-- A link shows the path. -/
theorem vlessLink_path_inj :
    vlessLink { c with wsPath := path } label = vlessLink c label ↔ path = c.wsPath := by
  refine ⟨fun h => ?_, fun h => h ▸ rfl⟩
  have hoptions : options { c with wsPath := path } label = options c label :=
    List.append_cancel_left h
  exact List.append_cancel_left (List.append_cancel_right hoptions)

theorem trojanLink_path_inj :
    trojanLink { c with wsPath := path } label = trojanLink c label ↔ path = c.wsPath := by
  refine ⟨fun h => ?_, fun h => h ▸ rfl⟩
  have hoptions : options { c with wsPath := path } label = options c label :=
    (List.cons.inj (List.append_cancel_left h)).2
  exact List.append_cancel_left (List.append_cancel_right hoptions)

end Subscription

namespace Config

variable {s : Settings} {properties : Option Bytes} {c : Config} {front back : List Char}

/-- White space around the text of the user goes into the default path, or into an error that quotes
the text, and nowhere else. -/
theorem make_padded (s : Settings) (properties : Option Bytes)
    (hfront : ∀ b ∈ front, Text.isBlank b = true) (hback : ∀ b ∈ back, Text.isBlank b = true) :
    make (s.padded front back) properties =
      match make s properties with
      | .error e => .error (e.padded front back)
      | .ok c => .ok { c with
          wsPath := (nonBlank s.wsPath).getD (defaultWsPath (front ++ s.uuid ++ back)) } := by
  have hidentity : Identity.parse? (s.padded front back).uuid = Identity.parse? s.uuid :=
    Identity.parse?_of_trim_eq (Text.trim_append hfront hback s.uuid)
  unfold make
  rw [hidentity]
  cases Identity.parse? s.uuid with
  | none => rfl
  | some identity =>
    dsimp only [Settings.padded]
    cases nonBlank s.fallback with
    | none => rfl
    | some value =>
      dsimp only
      split <;> rfl

/-- White space around the text of the user is no reason to refuse settings, and no remedy. -/
theorem make_padded_eq_error (s : Settings) (properties : Option Bytes)
    (hfront : ∀ b ∈ front, Text.isBlank b = true) (hback : ∀ b ∈ back, Text.isBlank b = true)
    (e : ConfigError) :
    make (s.padded front back) properties = .error e ↔
      ∃ e₀, make s properties = .error e₀ ∧ e = e₀.padded front back ∧ e.subject = e₀.subject := by
  rw [make_padded s properties hfront hback]
  cases make s properties with
  | error e₀ =>
    have hsubject := e₀.subject_padded hfront hback
    constructor
    · intro h
      cases h
      exact ⟨e₀, rfl, rfl, hsubject⟩
    · rintro ⟨_, ⟨⟩, rfl, -⟩
      rfl
  | ok c =>
    constructor
    · intro h
      cases h
    · rintro ⟨_, ⟨⟩, -⟩

/-! ### Which characters the path shows -/

/-- The text of the user is long enough for the path. -/
theorem tokenLength_le (h : make s properties = .ok c) :
    tokenLength ≤ (Text.trim s.uuid).length := by
  have hlen := Uuid.length_le_of_parse? c.identity.uuid_eq
  rw [text_of_make h] at hlen
  unfold tokenLength
  omega

theorem take_padded (h : make s properties = .ok c) (front back : List Char) :
    (front ++ s.uuid ++ back).take tokenLength = (front ++ s.uuid).take tokenLength := by
  have hlen := (tokenLength_le h).trans (Text.length_trim_le s.uuid)
  exact List.take_append_of_le_length (by rw [List.length_append]; omega)

/-- Without white space at the front the path shows the beginning of the user's text. -/
theorem take_padded_eq_take_text_iff (h : make s properties = .ok c)
    (hfront : ∀ b ∈ front, Text.isBlank b = true) :
    (front ++ s.uuid).take tokenLength = c.identity.text.take tokenLength ↔
      ∀ b ∈ (front ++ s.uuid).head?, Text.isBlank b = false := by
  have htrim : Text.trim (front ++ s.uuid) = Text.trim s.uuid := by
    rw [← List.append_nil (front ++ s.uuid)]
    exact Text.trim_append hfront (by simp) s.uuid
  rw [text_of_make h, ← htrim]
  exact Text.take_eq_take_trim_iff (by decide) (htrim.symm ▸ tokenLength_le h)

/-- White space in front of a text without any is seen. -/
theorem take_padded_eq_take_iff (h : make s properties = .ok c)
    (hfront : ∀ b ∈ front, Text.isBlank b = true) (hu : ∀ b ∈ s.uuid.head?, Text.isBlank b = false) :
    (front ++ s.uuid).take tokenLength = s.uuid.take tokenLength ↔ front = [] := by
  have hnil : ∀ b ∈ ([] : List Char), Text.isBlank b = true := by simp
  have htext := (take_padded_eq_take_text_iff h hnil).2 hu
  rw [List.nil_append] at htext
  rw [htext, take_padded_eq_take_text_iff h hfront]
  cases front with
  | nil => simpa using hu
  | cons b front =>
    have hblank := hfront b List.mem_cons_self
    simp [hblank]

/-! ### Two runs -/

theorem path_inj {path : List Char} : { c with wsPath := path } = c ↔ path = c.wsPath :=
  ⟨fun h => congrArg wsPath h, fun h => h ▸ rfl⟩

/-- White space around the text of the user is irrelevant but for the default path. Settings are
refused for the same reason as without it, in an error that quotes the text as it is set; otherwise
the two configurations differ in the path at most, and do not exactly if one is set or the first eight
characters stay as they are. -/
theorem make_of_padded (s : Settings) (properties : Option Bytes) {front back : List Char}
    (hfront : ∀ b ∈ front, Text.isBlank b = true) (hback : ∀ b ∈ back, Text.isBlank b = true) :
    (∀ e, make (s.padded front back) properties = .error e ↔
      ∃ e₀, make s properties = .error e₀ ∧ e = e₀.padded front back ∧ e.subject = e₀.subject) ∧
    ∀ c, make s properties = .ok c → ∃ c', make (s.padded front back) properties = .ok c' ∧
      { c' with wsPath := c.wsPath } = c ∧
      (c' = c ↔ nonBlank s.wsPath ≠ none ∨
        (front ++ s.uuid).take tokenLength = s.uuid.take tokenLength) ∧
      ((∀ b ∈ s.uuid.head?, Text.isBlank b = false) →
        (c' = c ↔ nonBlank s.wsPath ≠ none ∨ front = [])) ∧
      (nonBlank s.wsPath = none →
        (c'.wsPath = defaultWsPath c'.identity.text ↔
          ∀ b ∈ (front ++ s.uuid).head?, Text.isBlank b = false)) ∧
      ∀ label,
        (Subscription.vlessLink c' label = Subscription.vlessLink c label ↔ c' = c) ∧
        (Subscription.trojanLink c' label = Subscription.trojanLink c label ↔ c' = c) := by
  have hmake := make_padded s properties hfront hback
  refine ⟨make_padded_eq_error s properties hfront hback, fun c h => ?_⟩
  rw [h] at hmake
  have hpath := (make_eq_ok.1 h).wsPath
  have hsame : (nonBlank s.wsPath).getD (defaultWsPath (front ++ s.uuid ++ back)) = c.wsPath ↔
      nonBlank s.wsPath ≠ none ∨
        (front ++ s.uuid).take tokenLength = s.uuid.take tokenLength := by
    rw [hpath]
    cases nonBlank s.wsPath with
    | none =>
      rw [Option.getD_none, Option.getD_none, defaultWsPath_inj, take_padded h]
      simp
    | some path => simp
  refine ⟨_, hmake, rfl, path_inj.trans hsame, fun hu => ?_, fun hnone => ?_, fun label => ?_⟩
  · rw [path_inj, hsame, take_padded_eq_take_iff h hfront hu]
  · dsimp only
    rw [hnone, Option.getD_none, defaultWsPath_inj, take_padded h]
    exact take_padded_eq_take_text_iff h hfront
  · rw [Subscription.vlessLink_path_inj, Subscription.trojanLink_path_inj, path_inj]
    exact ⟨Iff.rfl, Iff.rfl⟩

/-- So it is with a space in front of the default text and a line end behind it. -/
theorem make_of_padded_default :
    ∃ s c c', Settings.ofValues? (fun _ => none) = some s ∧ make s none = .ok c ∧
      make (s.padded [' '] ['\n']) none = .ok c' ∧ c' ≠ c := by
  obtain ⟨s, hs⟩ : ∃ s, Settings.ofValues? (fun _ => none) = some s := ⟨_, rfl⟩
  obtain ⟨c, hc⟩ : ∃ c, make s none = .ok c := by
    cases hs
    exact ⟨_, rfl⟩
  have hfront : ∀ b ∈ [' '], Text.isBlank b = true := List.forall_mem_singleton.2 rfl
  have hback : ∀ b ∈ ['\n'], Text.isBlank b = true := List.forall_mem_singleton.2 rfl
  obtain ⟨c', hc', -, -, hsame, -⟩ := (make_of_padded s none hfront hback).2 c hc
  refine ⟨s, c, c', hs, hc, hc', ?_⟩
  have hhead : ∀ b ∈ s.uuid.head?, Text.isBlank b = false := by
    cases hs
    rintro b ⟨⟩
    rfl
  have hunset : nonBlank s.wsPath = none := by
    cases hs
    rfl
  rw [Ne, hsame hhead, hunset]
  simp

/-- One space in front of the text gives the same user another path and other links. -/
theorem path_of_leading_space :
    ∃ s c c', Settings.ofValues? (fun _ => none) = some s ∧ make s none = .ok c ∧
      make (s.padded [' '] []) none = .ok c' ∧ Text.isBlank ' ' = true ∧
      c'.identity = c.identity ∧
      c.wsPath = "api%2Fv1%2Fuser%3Ftoken%3Db64c9a01%26lang%3Den".toList ∧
      c'.wsPath = "api%2Fv1%2Fuser%3Ftoken%3D+b64c9a0%26lang%3Den".toList ∧
      defaultWsPath c'.identity.text = c.wsPath ∧
      Subscription.vlessLink c' [] ≠ Subscription.vlessLink c [] := by
  obtain ⟨s, hs⟩ : ∃ s, Settings.ofValues? (fun _ => none) = some s := ⟨_, rfl⟩
  cases hs
  refine ⟨_, _, _, rfl, rfl, rfl, rfl, rfl, rfl, rfl, rfl, ?_⟩
  decide +kernel

end Config

end Switchyard
