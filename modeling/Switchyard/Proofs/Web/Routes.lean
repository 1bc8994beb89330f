import Switchyard.Proofs.Config.Making
import Switchyard.Proofs.Connection.Exchange

/-!
# Which page a target gets

The page for a request that asks for no channel is decided by the target in its request line, byte for
byte, up to a fragment: the root is denied, the configured path of the subscription gets it, and nothing
else is found (`Page.routes`). So a subscription at the root, or at a path that no request line can name
without a fragment, is never served (`Page.reachable_iff`).
-/

namespace Switchyard

namespace Http

/-! ### Targets in request lines -/

/-- The request line at the front of the bytes, behind empty lines, names this target. -/
def Names (bs target : Bytes) : Prop :=
  ∃ empties method behind, bs = empties ++ (method ++ space :: (target ++ space :: behind)) ∧
    (∀ b ∈ empties, b = lineFeed ∨ b = carriageReturn) ∧
    (method ≠ [] ∧ ∀ b ∈ method, isTokenByte b = true) ∧
    target ≠ [] ∧ ∀ b ∈ target, isTargetByte b = true

variable {p : UInt8 → Bool} {stop : UInt8} {bs w rest : Bytes}

theorem word_append (hstop : p stop = false) (hne : w ≠ []) (hw : ∀ b ∈ w, p b = true) (rest : Bytes) :
    word p stop (w ++ stop :: rest) = .done w rest := by
  have hdrop : (w ++ stop :: rest).dropWhile p = stop :: rest := by
    rw [List.dropWhile_append_of_pos hw]
    exact List.dropWhile_cons_of_neg (by simp [hstop])
  have htake : (w ++ stop :: rest).takeWhile p = w := by
    rw [List.takeWhile_append_of_pos hw, List.takeWhile_cons_of_neg (by simp [hstop]), List.append_nil]
  simp only [word, hdrop, htake, hne, ne_eq, not_false_eq_true, and_self, if_true]

theorem eq_of_word_eq_done (h : word p stop bs = .done w rest) :
    bs = w ++ stop :: rest ∧ w ≠ [] ∧ ∀ b ∈ w, p b = true := by
  unfold word at h
  dsimp only at h
  split at h
  · cases h
  · next b behind hb =>
    split at h
    · next hstop =>
      cases h
      refine ⟨?_, hstop.2, fun b hb => List.mem_takeWhile_imp hb⟩
      rw [← hstop.1, ← hb, List.takeWhile_append_dropWhile]
    · cases h

/-- A request line names one target. -/
theorem Names.unique {t t' : Bytes} (h : Names bs t) (h' : Names bs t') : t = t' := by
  obtain ⟨empties, method, behind, rfl, hempties, ⟨hne, hmethod⟩, htne, ht⟩ := h
  obtain ⟨empties', method', behind', heq, hempties', ⟨hne', hmethod'⟩, htne', ht'⟩ := h'
  let isEmpty (b : UInt8) : Bool := b = lineFeed ∨ b = carriageReturn
  -- The empty lines are what a method cannot begin with.
  have hskip {empties method behind : Bytes} (hempties : ∀ b ∈ empties, b = lineFeed ∨ b = carriageReturn)
      (hne : method ≠ []) (hmethod : ∀ b ∈ method, isTokenByte b = true) :
      (empties ++ (method ++ behind)).dropWhile isEmpty = method ++ behind := by
    rw [List.dropWhile_append_of_pos fun b hb => decide_eq_true (hempties b hb)]
    obtain ⟨b, method, rfl⟩ := List.exists_cons_of_ne_nil hne
    have hb := hmethod b List.mem_cons_self
    refine List.dropWhile_cons_of_neg fun hempty => ?_
    rcases of_decide_eq_true hempty with rfl | rfl <;> cases hb
  have hline := congrArg (List.dropWhile isEmpty) heq
  rw [hskip hempties hne hmethod, hskip hempties' hne' hmethod'] at hline
  have hword := congrArg (word isTokenByte space) hline
  rw [word_append (by decide) hne hmethod, word_append (by decide) hne' hmethod'] at hword
  obtain ⟨-, hrest⟩ := Scan.done.inj hword
  have htarget := congrArg (word isTargetByte space) hrest
  rw [word_append (by decide) htne ht, word_append (by decide) htne' ht'] at htarget
  exact (Scan.done.inj htarget).1

theorem eq_of_skipEmptyLines (h : skipEmptyLines bs = .done () rest) :
    ∃ empties, bs = empties ++ rest ∧ ∀ b ∈ empties, b = lineFeed ∨ b = carriageReturn := by
  fun_induction skipEmptyLines bs with
  | case1 | case2 | case6 => cases h
  | case3 | case7 =>
    cases h
    exact ⟨[], rfl, fun _ hb => absurd hb List.not_mem_nil⟩
  | case4 c bs ih =>
    obtain ⟨empties, hbs, hempties⟩ := ih h
    exact ⟨lineFeed :: empties, congrArg (lineFeed :: ·) hbs,
      List.forall_mem_cons.2 ⟨.inl rfl, hempties⟩⟩
  | case5 bs _ ih =>
    obtain ⟨empties, rfl, hempties⟩ := ih h
    exact ⟨carriageReturn :: lineFeed :: empties, rfl,
      List.forall_mem_cons.2 ⟨.inr rfl, List.forall_mem_cons.2 ⟨.inl rfl, hempties⟩⟩⟩

theorem target_eq_done {t : Bytes} (h : target bs = .done t rest) :
    word isTargetByte space bs = .done t rest := by
  obtain ⟨t', behind, hword, hdone⟩ := eq_done_of_bind h
  split at hdone
  · cases hdone
    exact hword
  · cases hdone

theorem checked_eq_done {h h' : RequestHead} (hh : checked h bs = .done h' rest) :
    h' = h ∧ h.target.length ≤ maxTarget := by
  unfold checked at hh
  split at hh
  · cases hh
  · next hle =>
    split at hh
    · cases hh
    · cases hh
      exact ⟨rfl, Nat.le_of_not_lt hle⟩

/-- The target of a head stands in its request line as it is, and is not too long. -/
theorem names_of_head {h : RequestHead} (hh : head bs = .done h rest) :
    Names bs h.target ∧ h.target.length ≤ maxTarget := by
  obtain ⟨_, line, hskip, hh⟩ := eq_done_of_bind hh
  obtain ⟨⟨method, t, v⟩, behind, hline, hh⟩ := eq_done_of_bind hh
  obtain ⟨fs, behind', -, hchecked⟩ := eq_done_of_bind hh
  obtain ⟨m, more, hmethod, hline⟩ := eq_done_of_bind hline
  obtain ⟨t', more', htarget, hline⟩ := eq_done_of_bind hline
  obtain ⟨v', more'', -, hline⟩ := eq_done_of_bind hline
  obtain ⟨_, more''', -, hline⟩ := eq_done_of_bind hline
  cases hline
  obtain ⟨rfl, hle⟩ := checked_eq_done hchecked
  obtain ⟨empties, rfl, hempties⟩ := eq_of_skipEmptyLines hskip
  obtain ⟨rfl, hne, htokens⟩ := eq_of_word_eq_done hmethod
  obtain ⟨rfl, htne, ht⟩ := eq_of_word_eq_done (target_eq_done htarget)
  exact ⟨⟨empties, m, more', rfl, hempties, ⟨hne, htokens⟩, htne, ht⟩, hle⟩

end Http

/-- What is known of the target of a request. -/
theorem Request.names_of_read {bs rest : Bytes} {r : Request} (h : read bs = .request r rest) :
    ∃ t, Http.Names bs t ∧ Target.ofBytes? t = some r.target ∧ t.length ≤ Http.maxTarget := by
  unfold read at h
  split at h
  · next head behind hhead =>
    split at h
    · next r' hr =>
      cases h
      obtain ⟨hnames, hle⟩ := Http.names_of_head hhead
      refine ⟨head.target, hnames, ?_, hle⟩
      unfold ofHead at hr
      split at hr
      · cases hr
      · next target htarget =>
        obtain ⟨framing, -, hr⟩ := eq_ok_of_bind hr
        cases hr
        exact htarget
    · cases h
  · cases h
  · cases h

/-! ### Fragments -/

namespace Target

/-- The byte in front of a fragment. -/
def hash : UInt8 := 0x23

/-- The target is this path, or this path with a fragment. -/
def IsOf (t path : Bytes) : Prop :=
  hash ∉ path ∧ (t = path ∨ ∃ fragment, t = path ++ hash :: fragment)

theorem isOneOf_iff {c : Char} {b : UInt8} {s : String} (hs : s.toList = [c]) :
    isOneOf s b = true ↔ b.toNat = c.toNat := by
  rw [isOneOf, hs, List.any_cons, List.any_nil, Bool.or_false, beq_iff_eq]
  exact eq_comm

theorem isOneOf_hash {b : UInt8} : isOneOf "#" b = true ↔ b = hash :=
  (isOneOf_iff rfl).trans (UInt8.toNat_inj (b := hash))

theorem isOneOf_slash {b : UInt8} : isOneOf "/" b = true ↔ b = 0x2F :=
  (isOneOf_iff rfl).trans (UInt8.toNat_inj (b := 0x2F))

variable {t path : Bytes}

theorem IsOf.withoutFragment_eq (h : IsOf t path) : withoutFragment t = path := by
  obtain ⟨hfree, htarget⟩ := h
  have hpath : ∀ b ∈ path, (!isOneOf "#" b) = true := fun b hb => by
    rw [Bool.not_eq_true', Bool.eq_false_iff, Ne, isOneOf_hash]
    exact ne_of_mem_of_not_mem hb hfree
  unfold withoutFragment
  rcases htarget with rfl | ⟨fragment, rfl⟩
  · exact List.takeWhile_eq_self_iff.2 hpath
  · rw [List.takeWhile_append_of_pos hpath, List.takeWhile_cons_of_neg (by decide), List.append_nil]

theorem isOf_withoutFragment (t : Bytes) : IsOf t (withoutFragment t) := by
  have hkeep (b : UInt8) : (!isOneOf "#" b) = true ↔ b ≠ hash := by
    rw [Bool.not_eq_true', Bool.eq_false_iff, Ne, isOneOf_hash]
  refine ⟨fun h => ?_, ?_⟩
  · have hhash := List.mem_takeWhile_imp (p := fun b => !isOneOf "#" b) h
    exact (hkeep hash).1 hhash rfl
  · have hsplit := (List.takeWhile_append_dropWhile (p := fun b => !isOneOf "#" b) (l := t)).symm
    cases hrest : t.dropWhile fun b => !isOneOf "#" b with
    | nil =>
      rw [hrest, List.append_nil] at hsplit
      exact .inl hsplit
    | cons b fragment =>
      have hb : ¬ (!isOneOf "#" b) = true := by
        have hhead := List.head?_dropWhile_not (fun b => !isOneOf "#" b) t
        rw [hrest] at hhead
        exact Bool.eq_false_iff.1 hhead
      obtain rfl : b = hash := Decidable.not_not.1 (mt (hkeep b).2 hb)
      rw [hrest] at hsplit
      exact .inr ⟨fragment, hsplit⟩

/-- A request line can name this path. -/
structure IsAllowed (path : Bytes) : Prop where
  isTargetByte : ∀ b ∈ path, Http.isTargetByte b = true
  length_le : path.length ≤ Http.maxTarget
  isPathAndQuery : isPathAndQuery path = true

instance (path : Bytes) : Decidable (IsAllowed path) :=
  decidable_of_iff (path.all Http.isTargetByte = true ∧ path.length ≤ Http.maxTarget ∧
      Target.isPathAndQuery path = true)
    ⟨fun h => ⟨List.all_eq_true.1 h.1, h.2.1, h.2.2⟩,
      fun h => ⟨List.all_eq_true.2 h.isTargetByte, h.length_le, h.isPathAndQuery⟩⟩

/-- It can, and the path has no fragment. -/
structure IsBare (path : Bytes) : Prop extends IsAllowed path where
  hash_notMem : hash ∉ path

theorem IsBare.withoutFragment_eq (h : IsBare path) : withoutFragment path = path :=
  IsOf.withoutFragment_eq ⟨h.hash_notMem, .inl rfl⟩

/-- A path is one without the fragment behind it. -/
theorem isPathAndQuery_of_isOf (h : IsOf t path) (ht : Target.isPathAndQuery t = true) :
    Target.isPathAndQuery path = true := by
  obtain ⟨hfree, rfl | ⟨fragment, rfl⟩⟩ := h
  · exact ht
  · have hnot {b : UInt8} (hb : b ∈ path) : isOneOf "#" b = false :=
      Bool.eq_false_iff.2 fun hhash => hfree (isOneOf_hash.1 hhash ▸ hb)
    unfold Target.isPathAndQuery at ht ⊢
    rw [List.dropWhile_append] at ht
    cases hrest : path.dropWhile isPathByte with
    | nil => rfl
    | cons b rest =>
      have hmem : ∀ d ∈ b :: rest, d ∈ path := fun d hd =>
        (List.dropWhile_sublist isPathByte).subset (hrest ▸ hd)
      rw [hrest] at ht
      simp only [List.isEmpty_cons, Bool.false_eq_true, if_false, List.cons_append,
        hnot (hmem b List.mem_cons_self), Bool.false_or, Bool.and_eq_true] at ht ⊢
      refine ⟨ht.1, ?_⟩
      have hquery := ht.2
      rw [List.dropWhile_append] at hquery
      cases hbehind : rest.dropWhile isQueryByte with
      | nil => rfl
      | cons d more =>
        have hd : d ∈ rest := (List.dropWhile_sublist isQueryByte).subset
          (hbehind ▸ List.mem_cons_self)
        rw [hbehind] at hquery
        exact absurd hquery (by simp [isEmptyOrFragment, hnot (hmem d (List.mem_cons_of_mem b hd))])

theorem IsOf.subset (h : IsOf t path) : ∀ b ∈ path, b ∈ t := by
  obtain ⟨-, rfl | ⟨fragment, rfl⟩⟩ := h
  · exact fun _ hb => hb
  · exact fun _ hb => List.mem_append_left _ hb

theorem IsOf.length_le (h : IsOf t path) : path.length ≤ t.length := by
  obtain ⟨-, rfl | ⟨fragment, rfl⟩⟩ := h
  · exact Nat.le_refl _
  · rw [List.length_append]
    exact Nat.le_add_right _ _

/-- A target that begins with a path is one. -/
theorem isPathAndQuery_of_ofBytes? {target : Target} (h : IsOf t (0x2F :: path))
    (ht : ofBytes? t = some target) : Target.isPathAndQuery t = true := by
  obtain ⟨bs, rfl⟩ : ∃ bs, t = 0x2F :: bs := by
    obtain ⟨-, rfl | ⟨fragment, rfl⟩⟩ := h
    · exact ⟨_, rfl⟩
    · exact ⟨_, rfl⟩
  unfold ofBytes? at ht
  dsimp only at ht
  rw [if_pos (isOneOf_slash.2 rfl)] at ht
  split at ht
  · next hpath => exact hpath
  · cases ht

end Target

/-! ### Pages -/

namespace Request

/-- A request with nothing but a request line. -/
def lineOf (path : Bytes) : Bytes :=
  Bytes.ofString "GET" ++ space :: (path ++ space :: Bytes.ofString "HTTP/1.1\r\n\r\n")

theorem isToken_get : Bytes.ofString "GET" ≠ [] ∧
    ∀ b ∈ Bytes.ofString "GET", Http.isTokenByte b = true := by
  decide +kernel

theorem names_lineOf {path : Bytes} (hne : path ≠ []) (h : Target.IsAllowed path) :
    Http.Names (lineOf path) path :=
  ⟨[], Bytes.ofString "GET", Bytes.ofString "HTTP/1.1\r\n\r\n", rfl, nofun, isToken_get, hne,
    h.isTargetByte⟩

theorem read_lineOf {cs : List Char} (h : Target.IsAllowed (Bytes.ofText ('/' :: cs))) :
    ∃ r, read (lineOf (Bytes.ofText ('/' :: cs))) = .request r [] ∧ r.asksForWebSocket = false ∧
      r.target = .path (Target.withoutFragment (Bytes.ofText ('/' :: cs))) := by
  have hutf8 := congrArg Option.isSome (Utf8.decode?_ofText ('/' :: cs))
  rw [show Bytes.ofText ('/' :: cs) = 0x2F :: Bytes.ofText cs from rfl] at h hutf8 ⊢
  generalize Bytes.ofText cs = bs at h hutf8 ⊢
  let head : RequestHead := ⟨"GET".toList, 0x2F :: bs, .http11, []⟩
  have hline : Http.requestLine (lineOf (0x2F :: bs)) =
      .done ("GET".toList, 0x2F :: bs, .http11) [carriageReturn, lineFeed] := by
    have hmethod : Http.word Http.isTokenByte space (Bytes.ofString "GET" ++ space ::
        ((0x2F :: bs) ++ space :: Bytes.ofString "HTTP/1.1\r\n\r\n")) = .done (Bytes.ofString "GET")
          ((0x2F :: bs) ++ space :: Bytes.ofString "HTTP/1.1\r\n\r\n") :=
      Http.word_append (by decide) isToken_get.1 isToken_get.2 _
    have htarget : Http.target ((0x2F :: bs) ++ space :: Bytes.ofString "HTTP/1.1\r\n\r\n") =
        .done (0x2F :: bs) (Bytes.ofString "HTTP/1.1\r\n\r\n") := by
      rw [Http.target, Http.word_append (by decide) (List.cons_ne_nil _ _) h.isTargetByte]
      exact if_pos hutf8
    rw [Http.requestLine, lineOf, hmethod]
    show Scan.bind (Http.target _) _ = _
    rw [htarget]
    rfl
  have hskip : Http.skipEmptyLines (lineOf (0x2F :: bs)) = .done () (lineOf (0x2F :: bs)) := rfl
  have hhead : Http.head (lineOf (0x2F :: bs)) = .done head [] := by
    rw [Http.head, hskip]
    show Scan.bind (Http.requestLine _) _ = _
    rw [hline]
    show Http.checked head [] = _
    rw [Http.checked, if_neg (Nat.not_lt.2 h.length_le)]
    rfl
  have htarget : Target.ofBytes? head.target =
      some (.path (Target.withoutFragment (0x2F :: bs))) := if_pos h.isPathAndQuery
  let r : Request := ⟨"GET".toList, .path (Target.withoutFragment (0x2F :: bs)), .http11, [], .empty,
    head.isKept⟩
  have hof : ofHead head = .ok r := by
    rw [ofHead, htarget]
    rfl
  refine ⟨r, ?_, rfl, rfl⟩
  rw [read, hhead]
  dsimp only
  rw [hof]

end Request

namespace Page

variable {c : Config} {provider : List Char} {t : Bytes} {target : Target}

theorem subscriptionPath_eq (c : Config) : subscriptionPath c = 0x2F :: Bytes.ofText c.subPath := rfl

/-- A target that is no path does not begin as one. -/
theorem ofTarget_eq (h : Target.ofBytes? t = some target) :
    ofTarget c provider target =
      if Target.withoutFragment t = rootPath then denied
      else if Target.withoutFragment t = subscriptionPath c then subscription c provider
      else missing := by
  unfold Target.ofBytes? at h
  split at h
  · cases h
  · next b bs =>
    split at h
    · split at h
      · cases h
        rfl
      · cases h
    · next hslash =>
      have hother : ofTarget c provider target = missing := by
        repeat' split at h
        all_goals cases h
        all_goals rfl
      have hnot (rest : Bytes) : Target.withoutFragment (b :: bs) ≠ 0x2F :: rest := by
        intro heq
        unfold Target.withoutFragment at heq
        rw [List.takeWhile_cons] at heq
        split at heq
        · exact hslash (Target.isOneOf_slash.2 (List.cons.inj heq).1)
        · cases heq
      have hroot : Target.withoutFragment (b :: bs) ≠ rootPath := hnot []
      rw [hother, subscriptionPath_eq, if_neg hroot, if_neg (hnot _)]

/-- A page is the last answer on its connection. Only a success in answer to CONNECT is not written. -/
theorem answer_eq {site : Request → WebAnswer} {r : Request} {page : Response}
    (hsite : site r = .page page) (hclose : .close ∈ page.connection) (talk : Conversation) :
    talk.answer site r =
      if r.method = "CONNECT".toList ∧ page.status = .ok then ([], .ended)
      else ((page.adapt r.version talk.persistent).bytes r.version r.method, .ended) := by
  have hlast := Response.isLast_of_close
    (Response.mem_connection_adapt hclose r.version talk.persistent) talk.persistent
  have hwritable : (page.adapt r.version talk.persistent).isWritable r.method =
      !decide (r.method = "CONNECT".toList ∧ page.status = .ok) := by
    rw [Response.isWritable, Response.status_adapt, Bool.decide_and]
  simp only [Conversation.answer, hsite, WebAnswer.response, WebAnswer.opens, hwritable, hlast,
    if_true, Bool.not_eq_true', decide_eq_false_iff_not, ite_not]

/-- What a request for a page is answered with. -/
theorem ofRequest_eq (c : Config) (provider : List Char) {bs rest : Bytes} {r : Request}
    (hread : Request.read bs = .request r rest) (hasks : r.asksForWebSocket = false) :
    ∃ t, Http.Names bs t ∧ t.length ≤ Http.maxTarget ∧ Target.ofBytes? t = some r.target ∧
      WebAnswer.ofRequest c provider r = .page (
        if Target.withoutFragment t = rootPath then denied
        else if Target.withoutFragment t = subscriptionPath c then subscription c provider
        else missing) := by
  obtain ⟨t, hnames, htarget, hle⟩ := Request.names_of_read hread
  refine ⟨t, hnames, hle, htarget, ?_⟩
  rw [WebAnswer.ofRequest, hasks, ← ofTarget_eq htarget]
  rfl

theorem ofRequest_lineOf {cs : List Char} (provider : List Char)
    (h : Target.IsAllowed (Bytes.ofText ('/' :: cs))) :
    ∃ r, Request.read (Request.lineOf (Bytes.ofText ('/' :: cs))) = .request r [] ∧
      r.asksForWebSocket = false ∧ WebAnswer.ofRequest c provider r =
        .page (ofTarget c provider (.path (Target.withoutFragment (Bytes.ofText ('/' :: cs))))) := by
  obtain ⟨r, hread, hasks, htarget⟩ := Request.read_lineOf h
  refine ⟨r, hread, hasks, ?_⟩
  rw [WebAnswer.ofRequest, hasks, htarget]
  rfl

theorem subscriptionPath_eq_rootPath (c : Config) : subscriptionPath c = rootPath ↔ c.subPath = [] := by
  refine ⟨fun h => ?_, fun h => by rw [subscriptionPath, h]; rfl⟩
  have hcs := congrArg Utf8.decode? h
  rw [subscriptionPath, rootPath, Utf8.decode?_ofText, Utf8.decode?_ofText] at hcs
  exact (List.cons.inj (Option.some.inj hcs)).2

/-- The subscription is reached exactly when its path is not the root's and can be named. -/
theorem reachable_iff : (∃ bs r rest page, Request.read bs = .request r rest ∧
      r.asksForWebSocket = false ∧ WebAnswer.ofRequest c provider r = .page page ∧
      page.status = .ok) ↔
    c.subPath ≠ [] ∧ Target.IsBare (subscriptionPath c) := by
  constructor
  · rintro ⟨bs, r, rest, page, hread, hasks, hpage, hok⟩
    obtain ⟨t, ⟨_, _, _, -, -, -, -, ht⟩, hle, htarget, hanswer⟩ :=
      ofRequest_eq c provider hread hasks
    cases hanswer.symm.trans hpage
    split at hok
    · cases hok
    · next hroot =>
      split at hok
      · next hsub =>
        have hof := hsub ▸ Target.isOf_withoutFragment t
        refine ⟨fun hnil => hroot (hsub.trans ((subscriptionPath_eq_rootPath c).2 hnil)),
          ⟨fun b hb => ht b (hof.subset b hb), hof.length_le.trans hle, ?_⟩, hof.1⟩
        refine Target.isPathAndQuery_of_isOf hof ?_
        rw [subscriptionPath_eq] at hof
        exact Target.isPathAndQuery_of_ofBytes? hof htarget
      · cases hok
  · rintro ⟨hne, hbare⟩
    obtain ⟨r, hread, hasks, hanswer⟩ := ofRequest_lineOf (c := c) provider hbare.toIsAllowed
    refine ⟨_, r, [], subscription c provider, hread, hasks, hanswer.trans ?_, rfl⟩
    have hpath : Target.withoutFragment (Bytes.ofText ('/' :: c.subPath)) = subscriptionPath c :=
      hbare.withoutFragment_eq
    have hroot : subscriptionPath c ≠ rootPath := mt (subscriptionPath_eq_rootPath c).1 hne
    rw [hpath, ofTarget, if_neg hroot, if_pos rfl]

/-- **Routes.** A request that asks for no channel is answered by the one target `t` in its request line,
or rather by what stands before a fragment in it: the root is denied, the path that is configured gets
the subscription unless that is the root, and nothing else is found. So the subscription is served to
anyone only if its path is not the root, and if a request line can name it and it has no fragment. -/
theorem routes {s : Settings} {properties : Option Bytes} (hmake : Config.make s properties = .ok c)
    (provider : List Char) :
    let sub := s.subPath.dropWhile (· == '/')
    (∀ bs r rest, Request.read bs = .request r rest → r.asksForWebSocket = false →
      ∃ t path page, Http.Names bs t ∧ (∀ t', Http.Names bs t' → t' = t) ∧ Target.IsOf t path ∧
        WebAnswer.ofRequest c provider r = .page page ∧
        (path = Bytes.ofText ['/'] → page.status = .forbidden) ∧
        (path = Bytes.ofText ('/' :: sub) → sub ≠ [] →
          page.status = .ok ∧ page.body = Bytes.ofText (Subscription.body c provider)) ∧
        (path ≠ Bytes.ofText ['/'] → path ≠ Bytes.ofText ('/' :: sub) → page.status = .notFound) ∧
        ∀ (site : Request → WebAnswer) (talk : Conversation), site r = .page page →
          talk.answer site r =
            if r.method = "CONNECT".toList ∧ page.status = .ok then ([], .ended)
            else ((page.adapt r.version talk.persistent).bytes r.version r.method, .ended)) ∧
    ((∃ bs r rest page, Request.read bs = .request r rest ∧ r.asksForWebSocket = false ∧
        WebAnswer.ofRequest c provider r = .page page ∧ page.status = .ok) ↔
      sub ≠ [] ∧ Target.IsBare (Bytes.ofText ('/' :: sub))) := by
  have hsub : s.subPath.dropWhile (· == '/') = c.subPath := (Config.make_eq_ok.1 hmake).subPath.symm
  dsimp only
  rw [hsub]
  refine ⟨fun bs r rest hread hasks => ?_, reachable_iff⟩
  obtain ⟨t, hnames, -, -, hanswer⟩ := ofRequest_eq c provider hread hasks
  refine ⟨t, _, _, hnames, fun t' h' => h'.unique hnames, Target.isOf_withoutFragment t, hanswer,
    fun (hroot : _ = rootPath) => ?_, fun (hpath : _ = subscriptionPath c) hne => ?_,
    fun (hroot : _ ≠ rootPath) (hpath : _ ≠ subscriptionPath c) => ?_, fun site talk hsite => ?_⟩
  · rw [if_pos hroot]
    rfl
  · have hroot : subscriptionPath c ≠ rootPath := mt (subscriptionPath_eq_rootPath c).1 hne
    rw [hpath, if_neg hroot, if_pos rfl]
    exact ⟨rfl, rfl⟩
  · rw [if_neg hroot, if_neg hpath]
    rfl
  · refine answer_eq hsite ?_ talk
    repeat' split
    all_goals exact List.mem_singleton_self _

/-- With nothing set, the path that is the default gets the subscription. -/
theorem routes_of_default :
    let path := Bytes.ofText ('/' :: "dc85e5a3ac19/sub".toList)
    ∃ s c, Settings.ofValues? (fun _ => none) = some s ∧ Config.make s none = .ok c ∧
      ∃ r page, Request.read (Request.lineOf path) = .request r [] ∧
        WebAnswer.ofRequest c [] r = .page page ∧ page.status = .ok ∧
        page.body = Bytes.ofText (Subscription.body c []) := by
  dsimp only
  obtain ⟨s, hs⟩ : ∃ s, Settings.ofValues? (fun _ => none) = some s := ⟨_, rfl⟩
  obtain ⟨c, hc⟩ : ∃ c, Config.make s none = .ok c := by
    cases hs
    exact ⟨_, rfl⟩
  have hsub : s.subPath.dropWhile (· == '/') = "dc85e5a3ac19/sub".toList := by
    cases hs
    rfl
  have hallowed : Target.IsAllowed (Bytes.ofText ('/' :: "dc85e5a3ac19/sub".toList)) := by
    decide +kernel
  obtain ⟨r, hread, hasks, -⟩ := ofRequest_lineOf (c := c) [] hallowed
  obtain ⟨t, path, page, -, hunique, hpath, hpage, -, hok, -⟩ := (routes hc []).1 _ r [] hread hasks
  obtain rfl := hunique _ (Request.names_lineOf nofun hallowed)
  rw [hsub] at hok
  obtain ⟨hstatus, hbody⟩ := hok (hpath.withoutFragment_eq.symm.trans rfl) (by decide)
  exact ⟨s, c, hs, hc, r, page, hread, hpage, hstatus, hbody⟩

/-- A subscription at the root is denied, though its path is the target as it was received. With nothing
set, the path of the subscription with a fragment gets the subscription, and the root with a fragment is
denied, though the target is neither. -/
theorem subscription_at_root_denied :
    let answers (c : Config) (t : String) (status : Status) := ∃ r page,
      Http.Names (Request.lineOf (Bytes.ofText t.toList)) (Bytes.ofText t.toList) ∧
        Request.read (Request.lineOf (Bytes.ofText t.toList)) = .request r [] ∧
        r.asksForWebSocket = false ∧ WebAnswer.ofRequest c [] r = .page page ∧ page.status = status
    (∃ s c, Settings.ofValues? (fun t => if t = .subPath then some "/".toList else none) = some s ∧
      Config.make s none = .ok c ∧ '/' :: c.subPath = "/".toList ∧ answers c "/" .forbidden) ∧
    ∃ s c, Settings.ofValues? (fun _ => none) = some s ∧ Config.make s none = .ok c ∧
      '/' :: c.subPath = "/dc85e5a3ac19/sub".toList ∧
      answers c "/dc85e5a3ac19/sub#x" .ok ∧ answers c "/#x" .forbidden := by
  have hanswers {c : Config} (cs : List Char) (status : Status)
      (h : Target.IsAllowed (Bytes.ofText ('/' :: cs)))
      (hstatus : (ofTarget c [] (.path (Target.withoutFragment (Bytes.ofText ('/' :: cs))))).status =
        status) : ∃ r page,
      Http.Names (Request.lineOf (Bytes.ofText ('/' :: cs))) (Bytes.ofText ('/' :: cs)) ∧
        Request.read (Request.lineOf (Bytes.ofText ('/' :: cs))) = .request r [] ∧
        r.asksForWebSocket = false ∧ WebAnswer.ofRequest c [] r = .page page ∧
        page.status = status := by
    obtain ⟨r, hread, hasks, hanswer⟩ := ofRequest_lineOf (c := c) [] h
    exact ⟨r, _, Request.names_lineOf nofun h, hread, hasks, hanswer, hstatus⟩
  refine ⟨⟨_, _, rfl, rfl, rfl, ?_⟩, _, _, rfl, rfl, rfl, ?_, ?_⟩
  · exact hanswers [] _ (by decide +kernel) rfl
  · exact hanswers "dc85e5a3ac19/sub#x".toList _ (by decide +kernel) rfl
  · exact hanswers "#x".toList _ (by decide +kernel) rfl

end Page

end Switchyard
