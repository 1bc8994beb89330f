import Mathlib.Data.List.Basic
import Mathlib.Data.List.Induction
import Switchyard.Proofs.Session.Opening
import Switchyard.Session.Roster

/-!
# How many slots are taken

Guards are created, release their slots and are dropped, and sessions go on, in any order. What was
done tells who still has a slot (`Roster.Holds`): whoever has taken one that was not released or
dropped since, if it is not a session that has ended. A move adds one to the count if it takes a
slot, takes one away if it ends such a hold, and otherwise leaves it alone; so the count is always
what it was at first and the number of those that hold a slot (`Roster.Kept`).
-/

namespace Switchyard

/-! ### Flags -/

namespace Tally

/-- The count stands for the flags that are set, above what was counted before. -/
def Counts (active : UInt64) (t : Tally) : Prop :=
  t.active = active + UInt64.ofNat (t.slots.count true)

variable {active : UInt64} {t : Tally}

theorem Counts.take (h : t.Counts active) : t.take.Counts active := by
  unfold Counts at h ⊢
  simp only [Tally.take, List.count_append, List.count_singleton_self, h, UInt64.ofNat_add,
    UInt64.add_assoc]
  rfl

theorem slots_giveBack (t : Tally) (i : Nat) : (t.giveBack i).slots = t.slots.set i false := by
  unfold giveBack
  split
  · rfl
  · next h =>
    -- The flag is not set, or there is none.
    refine List.ext_getElem? fun j => ?_
    rw [List.getElem?_set]
    split
    · next hij =>
      subst hij
      split
      · next hlt =>
        rw [List.getElem?_eq_getElem hlt] at h ⊢
        simpa using h
      · next hlt => exact List.getElem?_eq_none (Nat.not_lt.1 hlt)
    · rfl

theorem count_set_false {slots : List Bool} {i : Nat} (h : slots[i]? = some true) :
    (slots.set i false).count true + 1 = slots.count true := by
  obtain ⟨hlt, hi⟩ := List.getElem?_eq_some_iff.1 h
  have hpos : 0 < slots.count true := List.count_pos_iff.2 (hi ▸ List.getElem_mem hlt)
  rw [List.count_set hlt, hi]
  simp only [BEq.rfl, if_true]
  simp
  omega

theorem Counts.giveBack (h : t.Counts active) (i : Nat) : (t.giveBack i).Counts active := by
  by_cases hi : t.slots[i]? = some true
  · unfold Counts at h ⊢
    have hcount := count_set_false hi
    rw [slots_giveBack, Tally.giveBack, if_pos hi, h, ← hcount, UInt64.ofNat_add,
      ← UInt64.add_assoc]
    exact UInt64.add_sub_cancel _ _
  · rwa [Tally.giveBack, if_neg hi]

end Tally

/-! ### Sessions -/

namespace Session

/-- A session makes a move. -/
def go (id : Identity) (timeout : UInt64) (net : Network) (m : Move) (s : Session) : Session :=
  match m with
  | .act t => s.turn id timeout net t
  | .change w => s.change w

/-- A session that has ended stays as it is. -/
theorem go_of_isEnded {s : Session} (h : s.isEnded = true) (id : Identity) (timeout : UInt64)
    (net : Network) (m : Move) : s.go id timeout net m = s := by
  cases s with
  | ended c lookups remote result =>
    cases m with
    | act t => cases t <;> rfl
    | change w => rfl
  | _ => cases h

end Session

/-! ### Moves -/

/-- A guard or a session is created, a guard releases its slot, what has a slot is dropped, or a
session goes on or has the world around it changed. -/
inductive RosterMove where
  | guard
  | enter (c : Channel)
  | release (i : Nat)
  | drop (i : Nat)
  | go (i : Nat) (net : Network) (m : Session.Move)

namespace RosterMove

/-- The move takes the next slot. -/
def takes : RosterMove → Bool
  | guard | enter _ => true
  | release _ | drop _ | go .. => false

/-- The move releases or drops the guard of slot `i`. -/
def letsGo (i : Nat) : RosterMove → Bool
  | release j | drop j => j == i
  | guard | enter _ | go .. => false

/-- What the session in slot `i` does by the move, and what the network then is. -/
def own? (i : Nat) : RosterMove → Option (Network × Session.Move)
  | go j net m => if j = i then some (net, m) else none
  | guard | enter _ | release _ | drop _ => none

/-- How many slots are taken by moves. -/
def taken (moves : List RosterMove) : Nat :=
  moves.countP takes

/-- Slot `i` was taken, and its guard was neither released nor dropped after that. -/
def Unreleased (moves : List RosterMove) (i : Nat) : Prop :=
  ∃ before m after, moves = before ++ m :: after ∧ m.takes = true ∧ taken before = i ∧
    ∀ x ∈ after, x.letsGo i = false

theorem taken_concat (moves : List RosterMove) (m : RosterMove) :
    taken (moves ++ [m]) = taken moves + if m.takes then 1 else 0 := by
  rw [taken, List.countP_append, List.countP_singleton]
  rfl

theorem Unreleased.lt {moves : List RosterMove} {i : Nat} (h : Unreleased moves i) :
    i < taken moves := by
  obtain ⟨before, m, after, rfl, hm, rfl, -⟩ := h
  simp only [taken, List.countP_append, List.countP_cons, hm, if_true]
  omega

theorem unreleased_concat {moves : List RosterMove} {m : RosterMove} {i : Nat} :
    Unreleased (moves ++ [m]) i ↔
      (m.takes = true ∧ i = taken moves) ∨ (Unreleased moves i ∧ m.letsGo i = false) := by
  constructor
  · rintro ⟨before, x, after, heq, hx, rfl, hafter⟩
    rcases List.eq_nil_or_concat after with rfl | ⟨after, y, rfl⟩
    · obtain ⟨rfl, h⟩ := List.append_inj' heq rfl
      cases h
      exact .inl ⟨hx, rfl⟩
    · have heq' : moves ++ [m] = (before ++ x :: after) ++ [y] := by rw [heq]; simp
      obtain ⟨rfl, h⟩ := List.append_inj' heq' rfl
      cases h
      exact .inr ⟨⟨before, x, after, rfl, hx, rfl, fun z hz => hafter z (by simp [hz])⟩,
        hafter m (by simp)⟩
  · rintro (⟨hm, rfl⟩ | ⟨⟨before, x, after, rfl, hx, rfl, hafter⟩, hm⟩)
    · exact ⟨moves, m, [], rfl, hm, rfl, nofun⟩
    · refine ⟨before, x, after ++ [m], by simp, hx, rfl, fun y hy => ?_⟩
      rcases List.mem_append.1 hy with hy | hy
      · exact hafter y hy
      · rwa [List.mem_singleton.1 hy]

end RosterMove

namespace Roster

open RosterMove

variable (id : Identity) (timeout : UInt64)

/-- The session in slot `i` makes a move. -/
def go (net : Network) (m : Session.Move) (i : Nat) (r : Roster) : Roster :=
  match r.holders[i]? with
  | some (.session s) => r.settle i (s.go id timeout net m)
  | _ => r

/-- To act is to be given a turn. -/
theorem go_act (net : Network) (t : Session.Task) (i : Nat) (r : Roster) :
    r.go id timeout net (.act t) i = r.turn id timeout net t i := rfl

def move (m : RosterMove) (r : Roster) : Roster :=
  match m with
  | .guard => r.guard
  | .enter c => r.enter c
  | .release i => r.release i
  | .drop i => r.drop i
  | .go i net m => r.go id timeout net m i

def run (moves : List RosterMove) (r : Roster) : Roster :=
  moves.foldl (fun r m => r.move id timeout m) r

theorem run_append (ms ms' : List RosterMove) (r : Roster) :
    r.run id timeout (ms ++ ms') = (r.run id timeout ms).run id timeout ms' := List.foldl_append

/-- Slot `i` is held after these moves: it was taken, its guard was neither released nor dropped
since, and if a session has taken it, that has not ended. -/
def Holds (r : Roster) (moves : List RosterMove) (i : Nat) : Prop :=
  Unreleased moves i ∧ ∀ s, r.holders[i]? = some (.session s) → s.isEnded = false

variable {r : Roster} {moves : List RosterMove} {active : UInt64}

/-! ### What a move does to the count -/

theorem tally_settle (r : Roster) (i : Nat) (s : Session) :
    (r.settle i s).tally = if s.isEnded then r.tally.giveBack i else r.tally := by
  unfold settle
  split <;> rfl

theorem holders_settle (r : Roster) (i : Nat) (s : Session) :
    (r.settle i s).holders = r.holders.set i (.session s) := by
  unfold settle
  split <;> rfl

/-- A move takes a slot, or gives one back, or leaves all slots alone. -/
theorem tally_move (m : RosterMove) (r : Roster) :
    (m.takes = true ∧ (r.move id timeout m).tally = r.tally.take) ∨
      (m.takes = false ∧ ((r.move id timeout m).tally = r.tally ∨
        ∃ i, (r.move id timeout m).tally = r.tally.giveBack i)) := by
  cases m with
  | guard | enter => exact .inl ⟨rfl, rfl⟩
  | release i | drop i => exact .inr ⟨rfl, .inr ⟨i, rfl⟩⟩
  | go i net m =>
    refine .inr ⟨rfl, ?_⟩
    simp only [move, go]
    split
    · rw [tally_settle]
      split
      · exact .inr ⟨i, rfl⟩
      · exact .inl rfl
    · exact .inl rfl

/-! ### What the flags say -/

/-- The count agrees with the flags, and the flags with what was done. -/
structure Kept (active : UInt64) (moves : List RosterMove) (r : Roster) : Prop where
  counts : r.tally.Counts active
  length_holders : r.holders.length = taken moves
  length_slots : r.tally.slots.length = taken moves
  slot_iff (i : Nat) : r.tally.slots[i]? = some true ↔ r.Holds moves i

theorem kept_start (active : UInt64) : (start active).Kept active [] where
  counts := (UInt64.add_zero active).symm
  length_holders := rfl
  length_slots := rfl
  slot_iff i := by
    constructor
    · intro h
      cases h
    · rintro ⟨⟨before, m, after, h, -⟩, -⟩
      simp at h

/-- Whoever takes the next slot has it. -/
theorem Kept.take (h : r.Kept active moves) {m : RosterMove} (hm : m.takes = true) {holder : Holder}
    (hholder : ∀ s, holder = .session s → s.isEnded = false)
    (hgo : ∀ i, m.letsGo i = false) :
    Kept active (moves ++ [m]) ⟨r.holders ++ [holder], r.tally.take⟩ where
  counts := h.counts.take
  length_holders := by simp [h.length_holders, taken_concat, hm]
  length_slots := by simp [Tally.take, h.length_slots, taken_concat, hm]
  slot_iff i := by
    rw [Holds, unreleased_concat, Tally.take]
    simp only [hm, hgo, true_and, and_true]
    rcases Nat.lt_trichotomy i (taken moves) with hlt | rfl | hgt
    · -- An earlier slot stays as it is.
      rw [List.getElem?_append_left (h.length_slots ▸ hlt),
        List.getElem?_append_left (h.length_holders ▸ hlt), h.slot_iff, Holds]
      simp [Nat.ne_of_lt hlt]
    · simp only [true_or, true_and]
      rw [← h.length_slots, List.getElem?_concat_length, h.length_slots, ← h.length_holders,
        List.getElem?_concat_length]
      simpa using hholder
    · -- There is no such slot.
      have hslots : (r.tally.slots ++ [true]).length ≤ i := by
        rw [List.length_append, h.length_slots]
        exact hgt
      rw [List.getElem?_eq_none hslots]
      refine iff_of_false (by simp) fun hi => ?_
      rcases hi.1 with rfl | hun
      · exact absurd hgt (Nat.lt_irrefl _)
      · exact absurd hun.lt (Nat.lt_asymm hgt)

/-- A slot whose guard is told to release it, or is dropped, is not held any more. -/
theorem Kept.letGo (h : r.Kept active moves) {m : RosterMove} {i : Nat} (hm : m.takes = false)
    (hgo : ∀ j, m.letsGo j = (i == j)) {holders : List Holder}
    (hlength : holders.length = r.holders.length)
    (hholders : ∀ j, j ≠ i → holders[j]? = r.holders[j]?) :
    Kept active (moves ++ [m]) ⟨holders, r.tally.giveBack i⟩ where
  counts := h.counts.giveBack i
  length_holders := by simp [hlength, h.length_holders, taken_concat, hm]
  length_slots := by simp [Tally.slots_giveBack, h.length_slots, taken_concat, hm]
  slot_iff j := by
    rw [Holds, unreleased_concat, Tally.slots_giveBack]
    simp only [hm, hgo, Bool.false_eq_true, false_and, false_or]
    by_cases hij : j = i
    · subst hij
      simp [List.getElem?_set]
    · rw [List.getElem?_set_ne (Ne.symm hij), hholders j hij, h.slot_iff, Holds]
      simp [Ne.symm hij]

/-- A session that goes on has its slot until it has ended. -/
theorem Kept.settle (h : r.Kept active moves) {m : RosterMove} {i : Nat} {s s' : Session}
    (hm : m.takes = false) (hgo : ∀ j, m.letsGo j = false)
    (hs : r.holders[i]? = some (.session s)) (hended : s.isEnded = true → s'.isEnded = true) :
    (r.settle i s').Kept active (moves ++ [m]) where
  counts := by
    rw [tally_settle]
    split
    · exact h.counts.giveBack i
    · exact h.counts
  length_holders := by simp [holders_settle, h.length_holders, taken_concat, hm]
  length_slots := by
    rw [tally_settle]
    split <;> simp [Tally.slots_giveBack, h.length_slots, taken_concat, hm]
  slot_iff j := by
    obtain ⟨hlt, -⟩ := List.getElem?_eq_some_iff.1 hs
    have hslot := h.slot_iff j
    rw [Holds, unreleased_concat, tally_settle, holders_settle]
    rw [Holds] at hslot
    simp only [hm, hgo, Bool.false_eq_true, false_and, false_or, and_true]
    by_cases hij : j = i
    · subst hij
      rw [hs] at hslot
      rw [List.getElem?_set_self hlt]
      cases hs' : s'.isEnded with
      | true => simp [Tally.slots_giveBack, List.getElem?_set, hs']
      | false =>
        have hopen : s.isEnded = false := by
          rw [← Bool.not_eq_true]
          intro hend
          rw [hended hend] at hs'
          cases hs'
        simpa [hs', hopen] using hslot
    · rw [List.getElem?_set_ne (Ne.symm hij), ← hslot]
      split
      · rw [Tally.slots_giveBack, List.getElem?_set_ne (Ne.symm hij)]
      · rfl

/-- A move that finds no session where it should go on with one. -/
theorem Kept.idle (h : r.Kept active moves) {m : RosterMove} (hm : m.takes = false)
    (hgo : ∀ j, m.letsGo j = false) : r.Kept active (moves ++ [m]) where
  counts := h.counts
  length_holders := by simp [h.length_holders, taken_concat, hm]
  length_slots := by simp [h.length_slots, taken_concat, hm]
  slot_iff i := by
    rw [h.slot_iff, Holds, Holds, unreleased_concat]
    simp [hm, hgo]

theorem Kept.move (id : Identity) (timeout : UInt64) (h : r.Kept active moves) (m : RosterMove) :
    (r.move id timeout m).Kept active (moves ++ [m]) := by
  cases m with
  | guard =>
    have hgo (i : Nat) : RosterMove.guard.letsGo i = false := rfl
    have hopen (s : Session) (hs : Holder.guard = .session s) : s.isEnded = false := by cases hs
    exact h.take rfl hopen hgo
  | enter c =>
    have hgo (i : Nat) : (RosterMove.enter c).letsGo i = false := rfl
    have hopen (s : Session) (hs : Holder.session (.awaiting c) = .session s) :
        s.isEnded = false := by
      cases hs
      rfl
    exact h.take rfl hopen hgo
  | release i => exact h.letGo rfl (fun _ => rfl) rfl fun _ _ => rfl
  | drop i =>
    exact h.letGo rfl (fun _ => rfl) (by simp) fun j hj =>
      List.getElem?_set_ne (Ne.symm hj)
  | go i net m =>
    simp only [Roster.move, go]
    split
    · next s hs =>
      refine h.settle rfl (fun _ => rfl) hs fun hend => ?_
      rwa [Session.go_of_isEnded hend]
    · exact h.idle rfl fun _ => rfl

theorem kept_run (active : UInt64) (moves : List RosterMove) :
    ((start active).run id timeout moves).Kept active moves := by
  induction moves using List.reverseRecOn with
  | nil => exact kept_start active
  | append_singleton moves m ih =>
    rw [run_append]
    exact ih.move id timeout m

/-- The slots that are held can be listed, and counted. -/
theorem Kept.exists_held (h : r.Kept active moves) :
    ∃ held : List Nat, held.Nodup ∧ (∀ i, i ∈ held ↔ r.Holds moves i) ∧
      held.length ≤ taken moves ∧ r.tally.active = active + UInt64.ofNat held.length := by
  refine ⟨r.tally.slots.idxsOf true, List.nodup_idxsOf, fun i => ?_, ?_, ?_⟩
  · rw [← h.slot_iff, List.mem_idxsOf_iff_exists_getElem_pos, List.getElem?_eq_some_iff]
    simp
  · rw [List.length_idxsOf, ← h.length_slots]
    exact List.count_le_length
  · rw [List.length_idxsOf]
    exact h.counts

/-! ### What a move does to who holds a slot -/

/-- One slot more is held. -/
def Gains (r r' : Roster) (moves moves' : List RosterMove) (i : Nat) : Prop :=
  r'.tally.active = r.tally.active + 1 ∧ ¬ r.Holds moves i ∧ r'.Holds moves' i ∧
    ∀ j, j ≠ i → (r'.Holds moves' j ↔ r.Holds moves j)

/-- One slot less is held. -/
def Loses (r r' : Roster) (moves moves' : List RosterMove) (i : Nat) : Prop :=
  r'.tally.active + 1 = r.tally.active ∧ r.Holds moves i ∧ ¬ r'.Holds moves' i ∧
    ∀ j, j ≠ i → (r'.Holds moves' j ↔ r.Holds moves j)

/-- The same slots are held. -/
def Stays (r r' : Roster) (moves moves' : List RosterMove) : Prop :=
  r'.tally.active = r.tally.active ∧ ∀ i, r'.Holds moves' i ↔ r.Holds moves i

theorem Kept.gains (h : r.Kept active moves) {m : RosterMove} (hm : m.takes = true) :
    r.Gains (r.move id timeout m) moves (moves ++ [m]) (taken moves) := by
  have h' := h.move id timeout m
  obtain ⟨-, htally⟩ | ⟨hfalse, -⟩ := tally_move id timeout m r
  · have hslots := congrArg Tally.slots htally
    simp only [Tally.take] at hslots
    refine ⟨by rw [htally]; rfl, ?_, ?_, fun j hj => ?_⟩
    · rw [← h.slot_iff, ← h.length_slots]
      simp
    · rw [← h'.slot_iff, hslots, ← h.length_slots]
      simp
    · rw [← h.slot_iff, ← h'.slot_iff, hslots, List.getElem?_append]
      split
      · rfl
      · next hle =>
        rw [h.length_slots] at hle ⊢
        have hne : j - taken moves ≠ 0 := by omega
        rw [List.getElem?_eq_none (by simp; omega), List.getElem?_eq_none]
        rw [h.length_slots]
        omega
  · rw [hm] at hfalse
    cases hfalse

theorem Kept.loses_or_stays (h : r.Kept active moves) {m : RosterMove} (hm : m.takes = false) :
    r.Stays (r.move id timeout m) moves (moves ++ [m]) ∨
      ∃ i, r.Loses (r.move id timeout m) moves (moves ++ [m]) i := by
  have h' := h.move id timeout m
  have hstays (htally : (r.move id timeout m).tally = r.tally) :
      r.Stays (r.move id timeout m) moves (moves ++ [m]) :=
    ⟨by rw [htally], fun i => by rw [← h.slot_iff, ← h'.slot_iff, htally]⟩
  obtain ⟨htrue, -⟩ | ⟨-, htally | ⟨i, htally⟩⟩ := tally_move id timeout m r
  · rw [hm] at htrue
    cases htrue
  · exact .inl (hstays htally)
  · by_cases hi : r.tally.slots[i]? = some true
    · have hslots := congrArg Tally.slots htally
      rw [Tally.slots_giveBack] at hslots
      refine .inr ⟨i, ?_, (h.slot_iff i).1 hi, ?_, fun j hj => ?_⟩
      · rw [htally, Tally.giveBack, if_pos hi]
        exact UInt64.sub_add_cancel _ _
      · rw [← h'.slot_iff, hslots]
        simp [List.getElem?_set]
      · rw [← h.slot_iff, ← h'.slot_iff, hslots, List.getElem?_set_ne (Ne.symm hj)]
    · refine .inl (hstays ?_)
      rw [htally, Tally.giveBack, if_neg hi]

/-- A slot that was let go is not held again. -/
theorem Kept.not_holds_move (h : r.Kept active moves) {i : Nat} (hlt : i < taken moves)
    (hi : ¬ r.Holds moves i) (m : RosterMove) :
    ¬ (r.move id timeout m).Holds (moves ++ [m]) i := by
  cases hm : m.takes with
  | true =>
    obtain ⟨-, -, -, hothers⟩ := h.gains id timeout hm
    rwa [hothers i (Nat.ne_of_lt hlt)]
  | false =>
    obtain ⟨-, hsame⟩ | ⟨j, -, hj, -, hothers⟩ := h.loses_or_stays id timeout hm
    · rwa [hsame]
    · have hne : i ≠ j := fun hij => hi (hij ▸ hj)
      rwa [hothers i hne]

theorem not_holds_run {i : Nat} (hlt : i < taken moves)
    (hi : ¬ ((start active).run id timeout moves).Holds moves i) (more : List RosterMove) :
    ¬ ((start active).run id timeout (moves ++ more)).Holds (moves ++ more) i := by
  induction more using List.reverseRecOn with
  | nil => rwa [List.append_nil]
  | append_singleton more m ih =>
    rw [← List.append_assoc, run_append]
    have hle : taken moves ≤ taken (moves ++ more) := by
      rw [taken, taken, List.countP_append]
      exact Nat.le_add_right _ _
    exact (kept_run id timeout active _).not_holds_move id timeout (Nat.lt_of_lt_of_le hlt hle) ih m

/-! ### A session in its slot -/

/-- The session that has gone on by its own moves. -/
def goAll (id : Identity) (timeout : UInt64) (own : List (Network × Session.Move)) (s : Session) :
    Session :=
  own.foldl (fun s p => s.go id timeout p.1 p.2) s

/-- What others do leaves a session as it is, and in its slot. -/
theorem session_move {i : Nat} {s : Session} (hs : r.holders[i]? = some (.session s))
    {m : RosterMove} (hm : m.letsGo i = false) :
    (r.move id timeout m).holders[i]? =
      some (.session (goAll id timeout (m.own? i).toList s)) := by
  obtain ⟨hlt, -⟩ := List.getElem?_eq_some_iff.1 hs
  cases m with
  | guard | enter c => exact (List.getElem?_append_left hlt).trans hs
  | release j => exact hs
  | drop j => exact (List.getElem?_set_ne (by simpa [letsGo] using hm)).trans hs
  | go j net m =>
    simp only [move, go, own?]
    by_cases hji : j = i
    · subst hji
      rw [hs, if_pos rfl]
      dsimp only
      rw [holders_settle, List.getElem?_set_self hlt]
      rfl
    · rw [if_neg hji]
      split
      · rw [holders_settle, List.getElem?_set_ne hji]
        exact hs
      · exact hs

theorem session_run {i : Nat} {s : Session} (hs : r.holders[i]? = some (.session s))
    (after : List RosterMove) (hafter : ∀ x ∈ after, x.letsGo i = false) :
    (r.run id timeout after).holders[i]? =
      some (.session (goAll id timeout (after.filterMap (own? i)) s)) := by
  induction after generalizing r s with
  | nil => exact hs
  | cons m after ih =>
    have hm := session_move id timeout hs (hafter m List.mem_cons_self)
    have hrun := ih hm fun x hx => hafter x (List.mem_cons_of_mem m hx)
    rw [List.filterMap_cons]
    cases ho : m.own? i with
    | none =>
      rw [ho] at hrun
      exact hrun
    | some p =>
      rw [ho] at hrun
      exact hrun

/-- A session has its slot, as long as nobody else lets go of it, exactly until it has ended. -/
theorem holds_session (before after : List RosterMove) (c : Channel)
    (hafter : ∀ x ∈ after, x.letsGo (taken before) = false) :
    let moves := before ++ .enter c :: after
    let r := (start active).run id timeout moves
    let s := goAll id timeout (after.filterMap (own? (taken before))) (.awaiting c)
    r.holders[taken before]? = some (.session s) ∧
      (r.Holds moves (taken before) ↔ s.isEnded = false) := by
  intro moves r s
  have hbefore := kept_run id timeout active before
  have hentered : (((start active).run id timeout before).enter c).holders[taken before]? =
      some (.session (.awaiting c)) := by
    rw [← hbefore.length_holders]
    exact List.getElem?_concat_length
  have hs : r.holders[taken before]? = some (.session s) := by
    have hrun := session_run id timeout hentered after hafter
    rwa [← show r = (((start active).run id timeout before).enter c).run id timeout after from
      run_append id timeout before _ _] at hrun
  refine ⟨hs, ?_⟩
  have hun : Unreleased moves (taken before) := ⟨before, .enter c, after, rfl, rfl, rfl, hafter⟩
  rw [Holds, hs]
  constructor
  · rintro ⟨-, hopen⟩
    exact hopen s rfl
  · intro hopen
    refine ⟨hun, fun s' hs' => ?_⟩
    cases hs'
    exact hopen

/-- At every point of every run of guards and sessions, in whatever order they are created, released,
dropped and go on: the count of slots is what it was at first and the number of those that hold one.
Whoever is created holds one slot more, any other move is the end of one hold at most, and what does
not hold a slot never does again. A session that nobody else ends holds its slot until it has ended. -/
theorem counts_held_slots (id : Identity) (timeout active : UInt64) (moves : List RosterMove) :
    let r := (start active).run id timeout moves
    (∃ held : List Nat, held.Nodup ∧ (∀ i, i ∈ held ↔ r.Holds moves i) ∧
        held.length ≤ taken moves ∧ r.tally.active = active + UInt64.ofNat held.length ∧
        (active.toNat + held.length < UInt64.size →
          r.tally.active.toNat = active.toNat + held.length)) ∧
      ((∀ i, ¬ r.Holds moves i) → r.tally.active = active) ∧
      (∀ m, m.takes = true → r.Gains (r.move id timeout m) moves (moves ++ [m]) (taken moves)) ∧
      (∀ m, m.takes = false → r.Stays (r.move id timeout m) moves (moves ++ [m]) ∨
        ∃ i, r.Loses (r.move id timeout m) moves (moves ++ [m]) i) ∧
      (∀ i, ¬ r.Holds moves i →
        (r.release i).tally = r.tally ∧ (r.drop i).tally = r.tally ∧
          (i < taken moves → ∀ more, ¬ ((start active).run id timeout (moves ++ more)).Holds
            (moves ++ more) i)) ∧
      ∀ before c after, moves = before ++ .enter c :: after →
        (∀ x ∈ after, x.letsGo (taken before) = false) →
        let s := goAll id timeout (after.filterMap (own? (taken before))) (.awaiting c)
        r.holders[taken before]? = some (.session s) ∧
          (r.Holds moves (taken before) ↔ s.isEnded = false) := by
  intro r
  have h : r.Kept active moves := kept_run id timeout active moves
  obtain ⟨held, hnodup, hheld, hle, hactive⟩ := h.exists_held
  refine ⟨⟨held, hnodup, hheld, hle, hactive, fun hlt => ?_⟩, fun hnone => ?_,
    fun m hm => h.gains id timeout hm, fun m hm => h.loses_or_stays id timeout hm,
    fun i hi => ?_, fun before c after hmoves hafter => ?_⟩
  · rw [hactive, UInt64.toNat_add, UInt64.toNat_ofNat_of_lt' (by omega)]
    exact Nat.mod_eq_of_lt hlt
  · obtain rfl : held = [] := List.eq_nil_iff_forall_not_mem.2 fun i hi => hnone i ((hheld i).1 hi)
    rw [hactive]
    exact UInt64.add_zero active
  · have hgone : r.tally.giveBack i = r.tally := by
      rw [Tally.giveBack, if_neg (mt (h.slot_iff i).1 hi)]
    exact ⟨hgone, hgone, fun hlt more => not_holds_run id timeout hlt hi more⟩
  · subst hmoves
    exact holds_session id timeout before after c hafter

end Roster

end Switchyard
