import Switchyard.Proofs.Config.Making

/-!
# Empty variables

A variable that is set to the empty text counts as unset only for the settings without a default. For
the others it is a value: it is refused where a switch, an address or a number is wanted, and otherwise
the text is empty in the configuration (`load_emptied`).
-/

namespace Switchyard

/-- The environment with one value, or none, for the variables of some settings. -/
def Settings.Environment.override (env : Settings.Environment) (which : Setting → Bool)
    (value : Option (List Char)) : Settings.Environment := fun name =>
  if Setting.all.any fun s => which s && s.variableName.toList == name then value else env name

namespace Setting

theorem mem_all (s : Setting) : s ∈ all := by
  cases s <;> decide

theorem variableName_inj {s t : Setting} (h : s.variableName.toList = t.variableName.toList) :
    s = t := by
  revert h
  cases s <;> cases t <;> decide

theorem override_variableName (env : Settings.Environment) (which : Setting → Bool)
    (value : Option (List Char)) (s : Setting) :
    env.override which value s.variableName.toList =
      if which s then value else env s.variableName.toList := by
  have hany : (all.any fun t => which t && t.variableName.toList == s.variableName.toList) =
      which s := by
    rw [Bool.eq_iff_iff, List.any_eq_true]
    constructor
    · rintro ⟨t, -, ht⟩
      obtain ⟨hwhich, hname⟩ := Bool.and_eq_true_iff.1 ht
      exact variableName_inj (beq_iff_eq.1 hname) ▸ hwhich
    · intro h
      exact ⟨s, mem_all s, by simp [h]⟩
  rw [Settings.Environment.override, hany]

/-- Has no default; then an empty text is none. -/
def isOptional (s : Setting) : Bool :=
  s.default = ""

theorem accepts_nil {s : Setting} (h : s.isOptional = true) : s.accepts [] = true := by
  revert h
  cases s <;> decide

end Setting

namespace Settings

variable {which : Setting → Bool} {v : Setting → Option (List Char)} {s : Settings}

/-- The settings with nothing in some of the texts. -/
def blanked (s : Settings) (which : Setting → Bool) : Settings :=
  let keep (t : Setting) (cs : List Char) : List Char := if which t then [] else cs
  { s with
    domain := keep .domain s.domain
    wsPath := if which .wsPath then some [] else s.wsPath
    subPath := keep .subPath s.subPath
    name := keep .name s.name
    listenTcp := if which .listenTcp then some [] else s.listenTcp
    cdnHost := keep .cdnHost s.cdnHost
    fallback := if which .fallback then some [] else s.fallback
    dohUrl := keep .dohUrl s.dohUrl
    geoipUrl := keep .geoipUrl s.geoipUrl }

/-- Values of which some are empty, or are not there. -/
abbrev valuesWith (v : Setting → Option (List Char)) (which : Setting → Bool)
    (value : Option (List Char)) (s : Setting) : Option (List Char) :=
  if which s then value else v s

/-- The settings that belong to these values, part by part. -/
structure ReadFrom (v : Setting → Option (List Char)) (s : Settings) : Prop where
  enabled : Setting.switch? ((v .enabled).getD Setting.enabled.default.toList) = some s.enabled
  uuid : s.uuid = (v .uuid).getD Setting.uuid.default.toList
  domain : s.domain = (v .domain).getD Setting.domain.default.toList
  wsPath : s.wsPath = v .wsPath
  subPath : s.subPath = (v .subPath).getD Setting.subPath.default.toList
  name : s.name = (v .name).getD Setting.name.default.toList
  listenTcp : s.listenTcp = v .listenTcp
  listenIp : IpAddress.parse? ((v .listenIp).getD Setting.listenIp.default.toList) = some s.listenIp
  cdnHost : s.cdnHost = (v .cdnHost).getD Setting.cdnHost.default.toList
  cdnTcp : Setting.tcp? ((v .cdnTcp).getD Setting.cdnTcp.default.toList) = some s.cdnTcp
  fallback : s.fallback = v .fallback
  connectTimeout : Setting.seconds? ((v .connectTimeout).getD Setting.connectTimeout.default.toList) =
    some s.connectTimeout
  sniffTimeout : Setting.seconds? ((v .sniffTimeout).getD Setting.sniffTimeout.default.toList) =
    some s.sniffTimeout
  dohUrl : s.dohUrl = (v .dohUrl).getD Setting.dohUrl.default.toList
  geoipUrl : s.geoipUrl = (v .geoipUrl).getD Setting.geoipUrl.default.toList

theorem ofValues?_eq_some : ofValues? v = some s ↔ ReadFrom v s := by
  constructor
  · intro h
    simp only [ofValues?, Option.bind_eq_bind, Option.pure_def, Option.bind_eq_some_iff,
      Option.some.injEq] at h
    obtain ⟨enabled, h₁, ip, h₂, tcp, h₃, connect, h₄, sniff, h₅, rfl⟩ := h
    exact ⟨h₁, rfl, rfl, rfl, rfl, rfl, rfl, h₂, rfl, h₃, rfl, h₄, h₅, rfl, rfl⟩
  · intro h
    simp only [ofValues?, Option.bind_eq_bind, Option.pure_def, h.enabled, h.listenIp, h.cdnTcp,
      h.connectTimeout, h.sniffTimeout, Option.bind_some, ← h.uuid, ← h.domain, ← h.wsPath, ← h.subPath,
      ← h.name, ← h.listenTcp, ← h.cdnHost, ← h.fallback, ← h.dohUrl, ← h.geoipUrl]

theorem ofValues?_of_refused {t : Setting} (ht : which t = true) (hrefused : t.accepts [] = false) :
    ofValues? (valuesWith v which (some [])) = none := by
  refine Option.eq_none_iff_forall_ne_some.2 fun s hs => ?_
  have hread := ofValues?_eq_some.1 hs
  have hvalue : valuesWith v which (some []) t = some [] := if_pos ht
  cases t <;> cases hrefused
  · exact absurd hread.enabled (by rw [hvalue]; nofun)
  · exact absurd hread.listenIp (by rw [hvalue]; nofun)
  · exact absurd hread.cdnTcp (by rw [hvalue]; nofun)
  · exact absurd hread.connectTimeout (by rw [hvalue]; nofun)
  · exact absurd hread.sniffTimeout (by rw [hvalue]; nofun)

theorem ofValues?_emptied (haccepts : ∀ t, which t = true → t.accepts [] = true)
    (huser : which .uuid = false) :
    ofValues? (valuesWith v which (some [])) =
      (ofValues? (valuesWith v which none)).map (·.blanked which) := by
  have hkept {t : Setting} (ht : t.accepts [] = false) : which t = false :=
    Bool.eq_false_iff.2 fun h => by simp [haccepts t h] at ht
  have hfixed : which .enabled = false ∧ which .listenIp = false ∧ which .cdnTcp = false ∧
      which .connectTimeout = false ∧ which .sniffTimeout = false :=
    ⟨hkept rfl, hkept rfl, hkept rfl, hkept rfl, hkept rfl⟩
  obtain ⟨h₁, h₂, h₃, h₄, h₅⟩ := hfixed
  simp only [ofValues?, valuesWith, huser, h₁, h₂, h₃, h₄, h₅, Option.bind_eq_bind, Option.pure_def,
    Bool.false_eq_true, if_false]
  -- What is read as a switch, an address or a number is the same on both sides.
  rcases Setting.switch? _ with - | enabled
  · rfl
  rcases IpAddress.parse? _ with - | ip
  · rfl
  rcases Setting.tcp? _ with - | tcp
  · rfl
  rcases Setting.seconds? ((v .connectTimeout).getD _) with - | connect
  · rfl
  rcases Setting.seconds? _ with - | sniff
  · rfl
  have htext (t : Setting) : (if which t then some [] else v t).getD t.default.toList =
      if which t then [] else (if which t then none else v t).getD t.default.toList := by
    cases which t <;> rfl
  have hoption (t : Setting) : (if which t then some [] else v t) =
      if which t then some [] else if which t then none else v t := by
    cases which t <;> rfl
  simp only [Option.bind_some, Option.map_some, blanked, ← htext, ← hoption]

end Settings

namespace Config

variable {which : Setting → Bool} {s : Settings} {c : Config}

/-- The configuration with nothing in some of the texts that are taken over from settings with a
default. -/
def blanked (c : Config) (which : Setting → Bool) : Config :=
  let keep (t : Setting) (cs : List Char) : List Char := if which t then [] else cs
  { c with
    domain := keep .domain c.domain
    subPath := keep .subPath c.subPath
    name := keep .name c.name
    cdnHost := keep .cdnHost c.cdnHost
    dohUrl := keep .dohUrl c.dohUrl
    geoipUrl := keep .geoipUrl c.geoipUrl }

/-- An empty text is none where there need not be one. -/
theorem make_blanked (properties : Option Bytes) (hpath : which .wsPath = true → s.wsPath = none)
    (htcp : which .listenTcp = true → s.listenTcp = none)
    (hfallback : which .fallback = true → s.fallback = none) :
    make (s.blanked which) properties = (make s properties).map (·.blanked which) := by
  have hblank (t : Setting) (value : Option (List Char)) (h : which t = true → value = none) :
      nonBlank (if which t then some [] else value) = nonBlank value := by
    cases ht : which t with
    | false => rfl
    | true => rw [h ht]; rfl
  have hslash (cs : List Char) : (if which .subPath then [] else cs).dropWhile (· == '/') =
      if which .subPath then [] else cs.dropWhile (· == '/') := by
    cases which .subPath <;> rfl
  unfold make
  dsimp only [Settings.blanked]
  rw [hblank _ _ hpath, hblank _ _ htcp, hblank _ _ hfallback, hslash]
  cases Identity.parse? s.uuid with
  | none => rfl
  | some identity =>
    dsimp only
    cases nonBlank s.fallback with
    | none => rfl
    | some value =>
      dsimp only
      split <;> rfl

theorem load_blanked (properties : Option Bytes) (hpath : which .wsPath = true → s.wsPath = none)
    (htcp : which .listenTcp = true → s.listenTcp = none)
    (hfallback : which .fallback = true → s.fallback = none) :
    load (.ok (s.blanked which)) properties =
      (load (.ok s) properties).map fun (enabled, c) => (enabled, c.blanked which) := by
  simp only [load, make_blanked properties hpath htcp hfallback]
  cases make s properties <;> rfl

/-! ### Two runs -/

/-- A configuration whose texts include defaults is seen to change when these are taken out. -/
theorem blanked_eq_iff {v : Setting → Option (List Char)} {properties : Option Bytes}
    (hs : Settings.ReadFrom (Settings.valuesWith v which none) s) (hc : MadeFrom s properties c)
    (haccepts : ∀ t, which t = true → t.accepts [] = true) (huser : which .uuid = false) :
    c.blanked which = c ↔ ∀ t, which t = true → t.isOptional = true := by
  have hdefault {t : Setting} (ht : which t = true) :
      (Settings.valuesWith v which none t).getD t.default.toList = t.default.toList := by
    rw [Settings.valuesWith, if_pos ht, Option.getD_none]
  constructor
  · intro h t ht
    have hparts : (if which .domain then [] else c.domain) = c.domain ∧
        (if which .subPath then [] else c.subPath) = c.subPath ∧
        (if which .name then [] else c.name) = c.name ∧
        (if which .cdnHost then [] else c.cdnHost) = c.cdnHost ∧
        (if which .dohUrl then [] else c.dohUrl) = c.dohUrl ∧
        (if which .geoipUrl then [] else c.geoipUrl) = c.geoipUrl :=
      ⟨congrArg domain h, congrArg subPath h, congrArg name h, congrArg cdnHost h,
        congrArg dohUrl h, congrArg geoipUrl h⟩
    cases t with
    | wsPath | listenTcp | fallback => rfl
    | enabled | listenIp | cdnTcp | connectTimeout | sniffTimeout => exact absurd (haccepts _ ht) nofun
    | uuid => exact absurd ht (Bool.eq_false_iff.1 huser)
    | subPath =>
      rw [if_pos ht, hc.subPath, hs.subPath, hdefault ht] at hparts
      exact absurd hparts.2.1 (by decide)
    | domain | name | cdnHost | dohUrl | geoipUrl =>
      -- None of these defaults is empty.
      rw [hc.domain, hc.name, hc.cdnHost, hc.dohUrl, hc.geoipUrl, hs.domain, hs.name, hs.cdnHost,
        hs.dohUrl, hs.geoipUrl, hdefault ht, if_pos ht] at hparts
      simp [Setting.default] at hparts
  · intro h
    have hfalse {t : Setting} (ht : t.isOptional = false) : which t = false :=
      Bool.eq_false_iff.2 fun hwhich => by simp [h t hwhich] at ht
    have hnone : which .domain = false ∧ which .subPath = false ∧ which .name = false ∧
        which .cdnHost = false ∧ which .dohUrl = false ∧ which .geoipUrl = false :=
      ⟨hfalse rfl, hfalse rfl, hfalse rfl, hfalse rfl, hfalse rfl, hfalse rfl⟩
    simp [blanked, hnone]

variable {args : List (List Char)} {env : Settings.Environment} {properties : Option Bytes}
  {given : CommandLine.Assignments}

/-- The settings that these variables decide, since the command line leaves them to the environment. -/
def decides (which : Setting → Bool) (given : CommandLine.Assignments) (t : Setting) : Bool :=
  which t && (given.get? t).isNone

/-- The settings that values amount to, or the word that one of them does not suit. -/
def ofValues (v : Setting → Option (List Char)) : Except UsageError Settings :=
  match Settings.ofValues? v with
  | some s => .ok s
  | none => .error .unsuitableValue

theorem read_override (hgiven : CommandLine.read args = .ok given) (env : Settings.Environment)
    (which : Setting → Bool) (value : Option (List Char)) :
    Settings.read args (env.override which value) =
      ofValues (Settings.valuesWith (fun t => (given.get? t).or (env t.variableName.toList))
        (decides which given) value) := by
  have hvalues : (fun t => (given.get? t).or (env.override which value t.variableName.toList)) =
      Settings.valuesWith (fun t => (given.get? t).or (env t.variableName.toList))
        (decides which given) value := by
    funext t
    rw [Setting.override_variableName, Settings.valuesWith, decides]
    cases given.get? t <;> cases which t <;> rfl
  rw [Settings.read, hgiven, ← hvalues]
  rfl

/-- Empty texts that can be values come into the configuration. -/
theorem load_emptied_of_accepts {v : Setting → Option (List Char)}
    (haccepts : ∀ t, which t = true → t.accepts [] = true) (huser : which .uuid = false) :
    load (ofValues (Settings.valuesWith v which (some []))) properties =
      (load (ofValues (Settings.valuesWith v which none)) properties).map
        fun (enabled, c) => (enabled, c.blanked which) := by
  rw [ofValues, ofValues, Settings.ofValues?_emptied haccepts huser]
  cases hs : Settings.ofValues? (Settings.valuesWith v which none) with
  | none => rfl
  | some s =>
    have hread := Settings.ofValues?_eq_some.1 hs
    refine load_blanked properties (fun h => ?_) (fun h => ?_) fun h => ?_
    · rw [hread.wsPath, Settings.valuesWith, if_pos h]
    · rw [hread.listenTcp, Settings.valuesWith, if_pos h]
    · rw [hread.fallback, Settings.valuesWith, if_pos h]

/-- **Empty variables.** What becomes of a run when some of the variables of its environment, not that of
the user, are empty instead of unset. An empty switch, address or number is refused; otherwise the run
is the one without these variables, but for the texts of settings with a default, which are empty. Only
variables that the command line leaves to the environment count. -/
theorem load_emptied (args : List (List Char)) (env : Settings.Environment)
    (properties : Option Bytes) {which : Setting → Bool} (huser : which .uuid = false) :
    let emptied := load (Settings.read args (env.override which (some []))) properties
    let unset := load (Settings.read args (env.override which none)) properties
    (∀ e, CommandLine.read args = .error e → emptied = unset) ∧
    ∀ given, CommandLine.read args = .ok given →
      ((∃ t, decides which given t = true ∧ t.accepts [] = false) →
        emptied = .error (.usage .unsuitableValue)) ∧
      ((∀ t, decides which given t = true → t.accepts [] = true) →
        emptied = unset.map fun (enabled, c) => (enabled, c.blanked (decides which given))) ∧
      ∀ run, unset = .ok run →
        (emptied = unset ↔ ∀ t, decides which given t = true → t.isOptional = true) := by
  dsimp only
  refine ⟨fun e he => ?_, fun given hgiven => ?_⟩
  · simp only [Settings.read, he]
    rfl
  · have huser' : decides which given .uuid = false := by
      rw [decides, huser, Bool.false_and]
    rw [read_override hgiven, read_override hgiven]
    generalize (fun t : Setting => (given.get? t).or (env t.variableName.toList)) = v
    have hrefused : (∃ t, decides which given t = true ∧ t.accepts [] = false) →
        load (ofValues (Settings.valuesWith v (decides which given) (some []))) properties =
          .error (.usage .unsuitableValue) := by
      rintro ⟨t, ht, hrefused⟩
      rw [ofValues, Settings.ofValues?_of_refused ht hrefused]
      rfl
    refine ⟨hrefused, fun haccepts => load_emptied_of_accepts haccepts huser', ?_⟩
    rintro ⟨enabled, c⟩ hrun
    by_cases haccepts : ∀ t, decides which given t = true → t.accepts [] = true
    · obtain ⟨s, hs, hc⟩ := load_eq_ok hrun
      have hread : Settings.ReadFrom (Settings.valuesWith v (decides which given) none) s := by
        unfold ofValues at hs
        split at hs
        · next hs' =>
          cases hs
          exact Settings.ofValues?_eq_some.1 hs'
        · cases hs
      rw [load_emptied_of_accepts haccepts huser', hrun,
        ← blanked_eq_iff hread (make_eq_ok.1 hc) haccepts huser']
      simp [Except.map]
    · -- An empty value is refused, and its setting has a default.
      obtain ⟨t, ht⟩ := Classical.not_forall.1 haccepts
      obtain ⟨ht, hno⟩ := Classical.not_imp.1 ht
      have hno' : t.accepts [] = false := Bool.eq_false_iff.2 hno
      rw [hrefused ⟨t, ht, hno'⟩, hrun]
      exact iff_of_false (by rintro ⟨⟩) fun h => hno (Setting.accepts_nil (h t ht))

/-- With the name given on the command line, empty variables for the name, the number to listen at and
the domain take the domain away and change nothing else. -/
theorem load_emptied_of_domain :
    let args := ["--name".toList, "n".toList]
    let which (t : Setting) : Bool := t = .name ∨ t = .listenTcp ∨ t = .domain
    ∃ c, load (Settings.read args (Settings.Environment.override (fun _ => none) which none)) none =
        .ok (true, c) ∧ c.domain = Setting.domain.default.toList ∧
      load (Settings.read args (Settings.Environment.override (fun _ => none) which (some []))) none =
        .ok (true, { c with domain := [] }) := by
  dsimp only
  obtain ⟨given, hgiven, hname⟩ : ∃ given, CommandLine.read ["--name".toList, "n".toList] = .ok given ∧
      given = [(.name, "n".toList)] := ⟨_, rfl, rfl⟩
  have h := ((@load_emptied ["--name".toList, "n".toList] (fun _ => none) none
    (fun t => t = .name ∨ t = .listenTcp ∨ t = .domain) (by decide)).2 given hgiven).2.1
  subst hname
  obtain ⟨c, hc, hdomain⟩ : ∃ c, load (Settings.read ["--name".toList, "n".toList]
      (Settings.Environment.override (fun _ => none)
        (fun t => t = .name ∨ t = .listenTcp ∨ t = .domain) none)) none = .ok (true, c) ∧
      c.domain = Setting.domain.default.toList := ⟨_, rfl, rfl⟩
  refine ⟨c, hc, hdomain, ?_⟩
  rw [h (fun t ht => ?_), hc]
  · rfl
  · cases t <;> first | rfl | cases ht

/-- An empty number for the links is refused, and an empty domain is taken into them, where without
these variables the run has a number and a domain. -/
theorem empty_cdnTcp_refused :
    let run (t : Setting) (value : Option (List Char)) := load (Settings.read []
      (Settings.Environment.override (fun _ => none) (fun t' => t' = t) value)) none
    run .cdnTcp (some []) = .error (.usage .unsuitableValue) ∧
    (∃ c, run .cdnTcp none = .ok (true, c) ∧ c.cdnTcp = 443 ∧
      run .domain none = .ok (true, c) ∧ c.domain = "www.abc123.com".toList ∧
      run .domain (some []) = .ok (true, { c with domain := [] })) ∧
    run .cdnTcp (some []) ≠ run .cdnTcp none := by
  refine ⟨rfl, ⟨_, rfl, rfl, rfl, rfl, rfl⟩, nofun⟩

end Config

end Switchyard
