import Switchyard.Proofs.Deflate.Grammar

/-!
# Trees of canonical codes

`CodeTree.ofLengths` lays codes out from left to right, and the standard numbers them. Both come to the
same: the bits of a symbol's code lead to its leaf (`path_ofLengths`). What carries the proof is the
space that the codes before a symbol take: it is where the symbol stands in the tree, and what its
number is made of.
-/

namespace Switchyard.Deflate

/-! ### Bits of numbers -/

@[simp] theorem length_numberBits (k n : Nat) : (numberBits k n).length = k := by
  simp [numberBits]

@[simp] theorem length_codeBits (k n : Nat) : (codeBits k n).length = k := by
  simp [codeBits]

theorem numberBits_concat (k n : Nat) :
    numberBits (k + 1) n = numberBits k n ++ [n.testBit k] := by
  simp [numberBits, List.range_succ]

theorem codeBits_succ (k n : Nat) : codeBits (k + 1) n = n.testBit k :: codeBits k n := by
  rw [codeBits, numberBits_concat, List.reverse_append]
  rfl

theorem codeBits_of_lt {k n : Nat} (h : n < 2 ^ k) :
    codeBits (k + 1) n = false :: codeBits k n := by
  rw [codeBits_succ, Nat.testBit_lt_two_pow h]

theorem codeBits_add {k n : Nat} (h : n < 2 ^ k) :
    codeBits (k + 1) (2 ^ k + n) = true :: codeBits k n := by
  have hlow : codeBits k (2 ^ k + n) = codeBits k n := by
    simp only [codeBits, numberBits, List.reverse_inj]
    refine List.map_congr_left fun i hi => ?_
    exact Nat.testBit_two_pow_add_gt (List.mem_range.1 hi) n
  rw [codeBits_succ, hlow, Nat.testBit_two_pow_add_eq, Nat.testBit_lt_two_pow h]
  rfl

namespace CodeTree

/-- The bits lead from the root to the leaf of the symbol. -/
inductive Path : CodeTree → List Bool → Nat → Prop where
  | leaf (s : Nat) : Path (leaf s) [] s
  | zero {zero one : CodeTree} {bits : List Bool} {s : Nat} (h : Path zero bits s) :
      Path (node zero one) (false :: bits) s
  | one {zero one : CodeTree} {bits : List Bool} {s : Nat} (h : Path one bits s) :
      Path (node zero one) (true :: bits) s

/-- The space that codes take, in units of the longest ones. -/
def weight (ps : List (Nat × Nat)) : Nat :=
  (ps.map fun p => 2 ^ (15 - p.1)).sum

@[simp] theorem weight_nil : weight [] = 0 := rfl

@[simp] theorem weight_cons (p : Nat × Nat) (ps : List (Nat × Nat)) :
    weight (p :: ps) = 2 ^ (15 - p.1) + weight ps := rfl

@[simp] theorem weight_append (ps qs : List (Nat × Nat)) :
    weight (ps ++ qs) = weight ps + weight qs := by
  simp [weight]

/-! ### Laying out codes -/

/-- The symbols that a subtree at a depth took, those that are left, and where the ones it took are:
each at the place that is given by the space of those before it. A subtree leaves symbols only when it
is full. -/
structure Filled (depth : Nat) (ps : List (Nat × Nat)) (t : CodeTree) (rest : List (Nat × Nat))
    (taken : List (Nat × Nat)) : Prop where
  split : ps = taken ++ rest
  full : rest ≠ [] → weight taken = 2 ^ (15 - depth)
  fits : weight taken ≤ 2 ^ (15 - depth)
  path {before after : List (Nat × Nat)} {l s : Nat} : taken = before ++ (l, s) :: after →
    Path t (codeBits (l - depth) (weight before / 2 ^ (15 - l))) s

theorem filled_nil (depth : Nat) : Filled depth [] empty [] [] where
  split := rfl
  full h := absurd rfl h
  fits := Nat.zero_le _
  path h := by simp at h

theorem filled_leaf (l s : Nat) (rest : List (Nat × Nat)) :
    Filled l ((l, s) :: rest) (leaf s) rest [(l, s)] where
  split := rfl
  full _ := rfl
  fits := Nat.le_refl _
  path {before after l' s'} h := by
    match before, h with
    | [], h =>
      obtain ⟨hp, -⟩ := List.cons.inj h
      obtain ⟨rfl, rfl⟩ := Prod.mk.inj hp
      rw [Nat.sub_self]
      exact .leaf s
    | _ :: before, h => simp at h

/-- How many units of a code fit into a subtree. -/
theorem pow_eq_units {depth l : Nat} (hl : depth ≤ l) (hl15 : l ≤ 15) :
    2 ^ (15 - depth) = 2 ^ (15 - l) * 2 ^ (l - depth) := by
  rw [← Nat.pow_add]
  congr 1
  omega

/-- The place of a code has as many bits as the code has below the subtree. -/
theorem Filled.place_lt {depth l s : Nat} {ps rest taken before after : List (Nat × Nat)}
    {t : CodeTree} (h : Filled depth ps t rest taken) (hl : depth ≤ l) (hl15 : l ≤ 15)
    (htaken : taken = before ++ (l, s) :: after) :
    weight before / 2 ^ (15 - l) < 2 ^ (l - depth) := by
  have hfits := h.fits
  have hpos : 0 < 2 ^ (15 - l) := Nat.two_pow_pos _
  rw [htaken, weight_append, weight_cons, pow_eq_units hl hl15] at hfits
  apply Nat.div_lt_of_lt_mul
  dsimp only at hfits
  omega

/-- Where one of the symbols that two subtrees took is. -/
theorem append_eq_append_cons {taken taken' before after : List (Nat × Nat)} {p : Nat × Nat}
    (h : taken ++ taken' = before ++ p :: after) :
    (∃ more, taken = before ++ p :: more) ∨
      ∃ front, before = taken ++ front ∧ taken' = front ++ p :: after := by
  rcases List.append_eq_append_iff.1 h with ⟨front, hbefore, htaken'⟩ | ⟨front, htaken, hafter⟩
  · exact .inr ⟨front, hbefore, htaken'⟩
  · cases front with
    | nil => exact .inr ⟨[], by rw [List.append_nil, htaken, List.append_nil], hafter.symm⟩
    | cons q front =>
      obtain ⟨rfl, -⟩ := List.cons.inj hafter
      exact .inl ⟨front, htaken⟩

/-- Two subtrees side by side, the second one filled with what the first one left. -/
theorem filled_node {depth : Nat} {ps rest rest' taken taken' : List (Nat × Nat)}
    {zero one : CodeTree} (hdepth : depth < 15) (hlong : ∀ p ∈ ps, depth < p.1 ∧ p.1 ≤ 15)
    (h : Filled (depth + 1) ps zero rest taken) (h' : Filled (depth + 1) rest one rest' taken') :
    Filled depth ps (node zero one) rest' (taken ++ taken') := by
  have hhalf : 2 ^ (15 - depth) = 2 ^ (15 - (depth + 1)) + 2 ^ (15 - (depth + 1)) := by
    rw [show 15 - depth = 15 - (depth + 1) + 1 by omega, Nat.pow_succ]
    omega
  refine ⟨?_, ?_, ?_, ?_⟩
  · rw [h.split, List.append_assoc, ← h'.split]
  · intro hrest
    have hne : rest ≠ [] := by
      rw [h'.split]
      exact fun hnil => hrest (List.append_eq_nil_iff.1 hnil).2
    rw [weight_append, h.full hne, h'.full hrest, hhalf]
  · rw [weight_append, hhalf]
    exact Nat.add_le_add h.fits h'.fits
  · intro before after l s hsplit
    have hmem : (l, s) ∈ ps := by
      rw [h.split, h'.split, ← List.append_assoc, hsplit]
      simp
    obtain ⟨hl, hl15⟩ := hlong _ hmem
    have hbits : l - depth = l - (depth + 1) + 1 := by
      simp only at hl
      omega
    rw [hbits]
    rcases append_eq_append_cons hsplit with ⟨more, htaken⟩ | ⟨front, rfl, htaken⟩
    · rw [codeBits_of_lt (h.place_lt hl hl15 htaken)]
      exact .zero (h.path htaken)
    · -- The first half is full, so its space is the upper bit of the place.
      have hfull := h.full (by rw [h'.split, htaken]; simp)
      rw [weight_append, hfull, pow_eq_units hl hl15, Nat.mul_add_div (Nat.two_pow_pos _),
        codeBits_add (h'.place_lt hl hl15 htaken)]
      exact .one (h'.path htaken)

/-- The lengths grow along the symbols. -/
abbrev Sorted (ps : List (Nat × Nat)) : Prop :=
  ps.Pairwise fun p q => p.1 ≤ q.1

theorem exists_filled (height depth : Nat) (ps : List (Nat × Nat)) (hheight : height + depth = 15)
    (hsorted : Sorted ps) (hlong : ∀ p ∈ ps, depth ≤ p.1 ∧ p.1 ≤ 15) :
    ∃ taken, Filled depth ps (fill height depth ps).1 (fill height depth ps).2 taken := by
  induction height generalizing depth ps with
  | zero =>
    match ps with
    | [] => exact ⟨[], filled_nil depth⟩
    | (l, s) :: rest =>
      have hl := hlong (l, s) List.mem_cons_self
      obtain rfl : l = depth := by simp only at hl; omega
      rw [fill, if_pos rfl]
      exact ⟨_, filled_leaf l s rest⟩
  | succ height ih =>
    match ps with
    | [] => exact ⟨[], filled_nil depth⟩
    | (l, s) :: rest =>
      by_cases hl : l = depth
      · subst hl
        rw [fill, if_pos rfl]
        exact ⟨_, filled_leaf l s rest⟩
      · rw [fill, if_neg hl]
        -- The first code is longer than the depth, so all of them are.
        have hall : ∀ p ∈ (l, s) :: rest, depth + 1 ≤ p.1 ∧ p.1 ≤ 15 := by
          intro p hp
          have hfirst := hlong (l, s) List.mem_cons_self
          refine ⟨?_, (hlong p hp).2⟩
          rcases List.mem_cons.1 hp with rfl | hp
          · simp only at hfirst ⊢
            omega
          · have := List.rel_of_pairwise_cons hsorted hp
            simp only at hfirst this ⊢
            omega
        obtain ⟨taken, h⟩ := ih (depth + 1) ((l, s) :: rest) (by omega) hsorted hall
        have hsuffix := h.split
        have hsorted' : Sorted (fill height (depth + 1) ((l, s) :: rest)).2 :=
          (List.pairwise_append.1 (hsuffix ▸ hsorted)).2.1
        obtain ⟨taken', h'⟩ := ih (depth + 1) (fill height (depth + 1) ((l, s) :: rest)).2 (by omega)
          hsorted' fun p hp => hall p (hsuffix ▸ List.mem_append_right _ hp)
        exact ⟨_, filled_node (by omega) hall h h'⟩

/-! ### The order of codes -/

section Order

variable {lengths : List Nat}

/-- The symbols whose codes have a length, from the first symbol on. -/
def ofLength (lengths : List Nat) (l : Nat) : List (Nat × Nat) :=
  (used lengths).filter fun p => p.1 == l

theorem ofLength_eq {l : Nat} (hl : l ≠ 0) :
    ofLength lengths l = lengths.zipIdx.filter fun p => p.1 == l := by
  unfold ofLength used
  rw [List.filter_filter]
  refine List.filter_congr fun p _ => ?_
  by_cases hp : p.1 = l
  · simp [hp, hl]
  · simp [hp]

theorem length_filter_zipIdx (lengths : List Nat) (k l : Nat) :
    ((lengths.zipIdx k).filter fun p => p.1 == l).length = lengths.count l := by
  induction lengths generalizing k with
  | nil => rfl
  | cons x xs ih =>
    rw [List.zipIdx_cons, List.filter_cons, List.count_cons]
    split <;> simp_all

theorem weight_of_forall {ps : List (Nat × Nat)} {l : Nat} (h : ∀ p ∈ ps, p.1 = l) :
    weight ps = ps.length * 2 ^ (15 - l) := by
  induction ps with
  | nil => simp
  | cons p ps ih =>
    rw [weight_cons, h p List.mem_cons_self, ih fun q hq => h q (List.mem_cons_of_mem _ hq),
      List.length_cons, Nat.succ_mul, Nat.add_comm]

theorem weight_filter_zipIdx (lengths : List Nat) (k l : Nat) :
    weight ((lengths.zipIdx k).filter fun p => p.1 == l) = lengths.count l * 2 ^ (15 - l) := by
  rw [weight_of_forall fun p hp => beq_iff_eq.1 (List.mem_filter.1 hp).2, length_filter_zipIdx]

/-- The space of all codes up to a length is what the first code behind them counts. -/
theorem weight_upTo {n : Nat} (hn : n < 15) :
    weight ((List.range' 1 n).flatMap (ofLength lengths)) =
      firstCode lengths (n + 1) * 2 ^ (15 - (n + 1)) := by
  induction n with
  | zero => simp [firstCode, codeCount]
  | succ n ih =>
    have hdouble : 2 ^ (15 - (n + 1)) = 2 * 2 ^ (15 - (n + 1 + 1)) := by
      rw [← Nat.pow_succ']
      congr 1
      omega
    have hcode : firstCode lengths (n + 1 + 1) =
        2 * (firstCode lengths (n + 1) + lengths.count (n + 1)) := by
      rw [firstCode, codeCount, if_neg (Nat.succ_ne_zero n)]
    rw [List.range'_1_concat, List.flatMap_append, weight_append, ih (by omega),
      List.flatMap_singleton, Nat.add_comm 1 n, ofLength_eq (Nat.succ_ne_zero n),
      weight_filter_zipIdx, ← Nat.add_mul, hcode, hdouble, ← Nat.mul_assoc, Nat.mul_comm 2]

/-- A symbol in the order of codes, and the space of those before it. -/
theorem ordered_split {s l : Nat} (hs : lengths[s]? = some l) (hl : l ≠ 0) (hl15 : l ≤ 15) :
    ∃ before after, ordered lengths = before ++ (l, s) :: after ∧
      weight before = (firstCode lengths l + (lengths.take s).count l) * 2 ^ (15 - l) := by
  obtain ⟨hlt, hget⟩ := List.getElem?_eq_some_iff.1 hs
  have hlengths : lengths = lengths.take s ++ l :: lengths.drop (s + 1) := by
    rw [← hget, ← List.drop_eq_getElem_cons hlt, List.take_append_drop]
  have hrange : List.range' 1 15 = List.range' 1 (l - 1) ++ l :: List.range' (l + 1) (15 - l) := by
    have hcons : l :: List.range' (l + 1) (15 - l) = List.range' l (15 - l + 1) := rfl
    rw [hcons, show l = 1 + (l - 1) by omega, Nat.add_sub_cancel_left, List.range'_append_1]
    congr 1
    omega
  -- Among the codes of one length, those of the earlier symbols come first.
  have hmiddle : ofLength lengths l =
      ((lengths.take s).zipIdx.filter fun p => p.1 == l) ++ (l, s) ::
        ((lengths.drop (s + 1)).zipIdx (s + 1)).filter fun p => p.1 == l := by
    have hlen : (lengths.take s).length = s := List.length_take_of_le (Nat.le_of_lt hlt)
    rw [ofLength_eq hl]
    conv => lhs; rw [hlengths]
    rw [List.zipIdx_append, List.filter_append, List.zipIdx_cons, List.filter_cons_of_pos (by simp),
      hlen, Nat.zero_add]
  have hordered : ordered lengths = (List.range' 1 (l - 1)).flatMap (ofLength lengths) ++
      (ofLength lengths l ++ (List.range' (l + 1) (15 - l)).flatMap (ofLength lengths)) := by
    show (List.range' 1 15).flatMap (ofLength lengths) = _
    rw [hrange, List.flatMap_append, List.flatMap_cons]
  rw [hmiddle, List.append_assoc, ← List.append_assoc, List.cons_append] at hordered
  refine ⟨_, _, hordered, ?_⟩
  · rw [weight_append, weight_upTo (by omega), weight_filter_zipIdx, Nat.sub_add_cancel (by omega),
      ← Nat.add_mul]

/-- The order of codes has the symbols that have a code. -/
theorem ordered_perm (h : ∀ l ∈ lengths, l ≤ 15) : (ordered lengths).Perm (used lengths) := by
  have key : ∀ (ls : List Nat) (ps : List (Nat × Nat)), (∀ p ∈ ps, p.1 ∈ ls) → ls.Nodup →
      (ls.flatMap fun l => ps.filter fun p => p.1 == l).Perm ps := by
    intro ls
    induction ls with
    | nil =>
      intro ps hps _
      rw [List.eq_nil_iff_forall_not_mem.2 fun p hp => absurd (hps p hp) List.not_mem_nil]
      exact .refl _
    | cons l ls ih =>
      intro ps hps hnodup
      obtain ⟨hl, hls⟩ := List.nodup_cons.1 hnodup
      -- The symbols of the other lengths are the ones that the filter for `l` leaves out.
      have hothers : (ls.flatMap fun k => ps.filter fun p => p.1 == k) =
          ls.flatMap fun k => (ps.filter fun p => !(p.1 == l)).filter fun p => p.1 == k := by
        rw [List.flatMap_def, List.flatMap_def]
        refine congrArg List.flatten (List.map_congr_left fun k hk => ?_)
        have hkl : k ≠ l := fun hkl => hl (hkl ▸ hk)
        rw [List.filter_filter]
        refine List.filter_congr fun p _ => ?_
        by_cases hp : p.1 = k
        · simp [hp, hkl]
        · simp [hp]
      rw [List.flatMap_cons, hothers]
      refine (List.Perm.append_left _ (ih _ ?_ hls)).trans (List.filter_append_perm _ ps)
      intro p hp
      obtain ⟨hp, hne⟩ := List.mem_filter.1 hp
      exact (List.mem_cons.1 (hps p hp)).resolve_left (by simpa using hne)
  refine key _ _ (fun p hp => ?_) List.nodup_range'
  obtain ⟨hmem, hne⟩ := List.mem_filter.1 hp
  have hle := h p.1 (List.fst_mem_of_mem_zipIdx hmem)
  have hne : p.1 ≠ 0 := by simpa using hne
  rw [List.mem_range'_1]
  show 1 ≤ p.1 ∧ p.1 < 1 + 15
  omega

theorem weight_used (lengths : List Nat) : weight (used lengths) = space lengths := by
  have hused : (used lengths).map Prod.fst = lengths.filter (· ≠ 0) := by
    have hmap := List.filter_map (f := Prod.fst) (l := lengths.zipIdx) (p := fun l => decide (l ≠ 0))
    rw [List.zipIdx_map_fst] at hmap
    exact hmap.symm
  rw [space, ← hused, List.map_map]
  rfl

theorem weight_ordered (h : ∀ l ∈ lengths, l ≤ 15) : weight (ordered lengths) = space lengths := by
  rw [← weight_used]
  exact ((ordered_perm h).map _).sum_nat

/-- The lengths are in order. -/
theorem sorted_ordered : Sorted (ordered lengths) := by
  have hfst : ∀ l, ∀ p ∈ ofLength lengths l, p.1 = l :=
    fun l p hp => beq_iff_eq.1 (List.mem_filter.1 hp).2
  refine List.pairwise_flatMap.2 ⟨fun l _ => ?_, ?_⟩
  · refine List.pairwise_of_forall_mem_list fun p hp q hq => ?_
    exact Nat.le_of_eq ((hfst l p hp).trans (hfst l q hq).symm)
  · have hrange : (List.range' 1 maxLength).Pairwise (· < ·) := List.pairwise_lt_range'
    refine hrange.imp fun {k l} hkl p hp q hq => ?_
    rw [hfst k p hp, hfst l q hq]
    exact Nat.le_of_lt hkl

/-- **The tree has the canonical codes**: the bits of a symbol's code lead to its leaf, unless there
are more codes than fit. -/
theorem path_ofLengths (hle : ∀ l ∈ lengths, l ≤ 15) (hfit : space lengths ≤ 2 ^ 15) {s : Nat}
    {bits : List Bool} (h : HasCode lengths s bits) : Path (ofLengths lengths) bits s := by
  obtain ⟨l, hs, hl, rfl⟩ := h
  have hl15 : l ≤ 15 := hle l (List.mem_of_getElem? hs)
  have hrange : ∀ p ∈ ordered lengths, 0 ≤ p.1 ∧ p.1 ≤ 15 := by
    intro p hp
    obtain ⟨l, hl, hp⟩ := List.mem_flatMap.1 hp
    have hfst : p.1 = l := beq_iff_eq.1 (List.mem_filter.1 hp).2
    have hlt := (List.mem_range'_1.1 hl).2
    rw [hfst]
    exact ⟨Nat.zero_le l, Nat.le_of_lt_succ hlt⟩
  obtain ⟨taken, hfilled⟩ := exists_filled 15 0 (ordered lengths) rfl sorted_ordered hrange
  have hrest : (fill 15 0 (ordered lengths)).2 = [] := by
    refine Decidable.byContradiction fun hne => ?_
    -- Symbols would be left although the tree is full.
    have hfull := hfilled.full hne
    have hweight := weight_ordered hle
    rw [hfilled.split, weight_append, hfull] at hweight
    obtain ⟨p, ps, hp⟩ := List.exists_cons_of_ne_nil hne
    have hpos := Nat.two_pow_pos (15 - p.1)
    rw [hp, weight_cons] at hweight
    omega
  obtain ⟨before, after, hordered, hweight⟩ := ordered_split hs hl hl15
  have htaken : taken = before ++ (l, s) :: after := by
    rw [← hordered]
    conv => rhs; rw [hfilled.split, hrest, List.append_nil]
  have hpath := hfilled.path htaken
  rwa [hweight, Nat.mul_div_cancel _ (Nat.two_pow_pos _), Nat.sub_zero] at hpath

end Order

end CodeTree

/-! ### Codes that may be used -/

section Usable

open CodeTree

variable {lengths : List Nat}

theorem taken_eq (lengths : List Nat) : taken lengths = space lengths := by
  have hfold : ∀ (ps : List (Nat × Nat)) (n : Nat),
      ps.foldl (fun n p => n + 1 <<< (CodeTree.maxLength - p.1)) n = n + weight ps := by
    intro ps
    induction ps with
    | nil => exact fun n => rfl
    | cons p ps ih =>
      intro n
      rw [List.foldl_cons, ih, weight_cons, Nat.one_shiftLeft, Nat.add_assoc]
      rfl
  rw [taken, hfold, Nat.zero_add, weight_used]

theorem completeTree?_eq (h : IsFull lengths) :
    completeTree? lengths = some (.ofLengths lengths) := by
  have hcomplete : isComplete lengths = true := by
    rw [isComplete, taken_eq, h.space_eq]
    rfl
  rw [completeTree?, if_pos hcomplete]

theorem IsFull.path (h : IsFull lengths) {s : Nat} {bits : List Bool} (hc : HasCode lengths s bits) :
    Path (.ofLengths lengths) bits s :=
  path_ofLengths h.le (Nat.le_of_eq h.space_eq) hc

/-- Codes of one bit take half of the space each. -/
theorem space_of_short (h : ∀ l ∈ lengths, l ≤ 1) : space lengths = lengths.count 1 * 2 ^ 14 := by
  induction lengths with
  | nil => rfl
  | cons l ls ih =>
    have hl := h l List.mem_cons_self
    have ih := ih fun k hk => h k (List.mem_cons_of_mem _ hk)
    rcases Nat.le_one_iff_eq_zero_or_eq_one.1 hl with rfl | rfl
    · rw [List.count_cons_of_ne (by decide)]
      exact ih
    · show 2 ^ 14 + space ls = _
      rw [ih, List.count_cons_self]
      omega

theorem IsUsable.bounds (h : IsUsable lengths) :
    (∀ l ∈ lengths, l ≤ 15) ∧ space lengths ≤ 2 ^ 15 := by
  rcases h with h | ⟨hshort, hone⟩
  · exact ⟨h.le, Nat.le_of_eq h.space_eq⟩
  · refine ⟨fun l hl => Nat.le_trans (hshort l hl) (by decide), ?_⟩
    rw [space_of_short hshort]
    omega

theorem IsUsable.path (h : IsUsable lengths) {s : Nat} {bits : List Bool}
    (hc : HasCode lengths s bits) : Path (.ofLengths lengths) bits s :=
  path_ofLengths h.bounds.1 h.bounds.2 hc

theorem tree?_eq (h : IsUsable lengths) : tree? lengths = some (.ofLengths lengths) := by
  have htree : isComplete lengths ∨ isShort lengths := by
    rcases h with h | ⟨hshort, hone⟩
    · left
      rw [isComplete, taken_eq, h.space_eq]
      rfl
    · right
      have hfit : taken lengths ≤ 1 <<< CodeTree.maxLength := by
        rw [taken_eq, space_of_short hshort]
        show _ ≤ 1 <<< 15
        omega
      rw [isShort, Bool.and_eq_true]
      refine ⟨List.all_eq_true.2 fun l hl => ?_, decide_eq_true hfit⟩
      exact decide_eq_true (hshort l hl)
  rw [tree?, if_pos htree]

theorem codes_ofLengths?_eq {literals distances : List Nat} (hl : IsUsable literals)
    (hd : IsUsable distances) :
    Codes.ofLengths? literals distances = some ⟨.ofLengths literals, .ofLengths distances⟩ := by
  rw [Codes.ofLengths?, tree?_eq hl, tree?_eq hd]
  rfl

theorem space_append (ks ls : List Nat) : space (ks ++ ls) = space ks + space ls := by
  simp [space]

theorem space_replicate (n : Nat) {l : Nat} (hl : l ≠ 0) :
    space (List.replicate n l) = n * 2 ^ (15 - l) := by
  simp [space, hl]

theorem isFull_fixedLiterals : IsFull fixedLiterals where
  le l hl := by
    simp only [fixedLiterals, List.mem_append, List.mem_replicate] at hl
    omega
  space_eq := by
    have hsum : 144 * 2 ^ (15 - 8) + 112 * 2 ^ (15 - 9) + 24 * 2 ^ (15 - 7) + 8 * 2 ^ (15 - 8) =
        2 ^ 15 := by decide
    rw [← hsum]
    simp only [fixedLiterals, space_append]
    rw [space_replicate _ (by decide), space_replicate _ (by decide), space_replicate _ (by decide),
      space_replicate _ (by decide)]

theorem isFull_fixedDistances : IsFull fixedDistances where
  le l hl := by
    simp only [fixedDistances, List.mem_replicate] at hl
    omega
  space_eq := by
    have hsum : 32 * 2 ^ (15 - 5) = 2 ^ 15 := by decide
    rw [← hsum, fixedDistances, space_replicate _ (by decide)]

end Usable

end Switchyard.Deflate
