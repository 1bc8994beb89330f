import Switchyard.Proofs.Deflate.Flow
import Switchyard.Proofs.Deflate.Limit

/-!
# Where a decoder is in a stream

What pages and buffers do to a stream. `Decoder.Stands` says where in a `Flow` a decoder is: the bytes
that the flow has given are those that the decoder has written and those that wait for a new page.
Decoding keeps to the flow (`Decoder.Stands.run`), and so does filling a buffer (`stands_fill`). An
inflater that has delivered all that its stream has given has only one form (`Stands.eq_ofFlow`).
-/

namespace Switchyard.Deflate

/-! ### Pages -/

namespace Page

/-- The page is where a flow is: what it has written, behind `done`, is what the flow has given. -/
structure IsAt (p : Page) (done : Bytes) (f : Flow) : Prop where
  phase_eq : p.phase = f.phase
  window_eq : p.window = .of f.history
  given_eq : done ++ p.written.reverse = f.given
  room_mod : (p.room + f.history.length) % pageSize = 0
  sound : p.phase.IsSound

/-- The page is where a flow is, but for bytes that wait. -/
structure Stands (p : Page) (done : Bytes) (f : Flow) : Prop where
  exists_isAt : ∃ g, p.IsAt done g ∧ g.emit p.waiting = f
  fits : ∀ e, p.waiting = some e → e.Fits p.phase

variable {p : Page} {done : Bytes} {f : Flow} {bits : List Bool}

theorem IsAt.put (h : p.IsAt done f) (hroom : p.room ≠ 0) (b : UInt8) :
    (p.put b).IsAt done (f.put b) where
  phase_eq := h.phase_eq
  window_eq := by
    rw [Page.put, Flow.put, Window.of_concat, h.window_eq]
  given_eq := by
    rw [Page.put, Flow.put, List.reverse_cons, ← List.append_assoc, h.given_eq]
  room_mod := by
    have hmod := h.room_mod
    rw [Page.put, Flow.put, List.length_append, List.length_singleton]
    dsimp only
    rw [Nat.add_comm f.history.length, ← Nat.add_assoc, Nat.sub_add_cancel (Nat.pos_of_ne_zero hroom),
      hmod]
  sound := h.sound

theorem Stands.of_isAt (h : p.IsAt done f) (hnone : p.waiting = none) : p.Stands done f where
  exists_isAt := ⟨f, h, by rw [hnone]; rfl⟩
  fits e he := by
    rw [hnone] at he
    cases he

theorem Stands.isAt (h : p.Stands done f) (hnone : p.waiting = none) : p.IsAt done f := by
  obtain ⟨g, hg, hemit⟩ := h.exists_isAt
  rw [hnone] at hemit
  exact hemit ▸ hg

/-- The bytes of a copy that find no room wait. -/
theorem Stands.copy (h : p.IsAt done f) {n distance : Nat}
    (hfits : (Emission.copy n distance).Fits p.phase) :
    (p.copy distance n).Stands done (f.copy distance n) := by
  have hnear := hfits.near n distance rfl
  induction n generalizing p f with
  | zero => exact .of_isAt ⟨h.phase_eq, h.window_eq, h.given_eq, h.room_mod, h.sound⟩ rfl
  | succ n ih =>
    rw [Page.copy]
    split
    · refine ⟨⟨f, ⟨h.phase_eq, h.window_eq, h.given_eq, h.room_mod, h.sound⟩, rfl⟩, fun e he => ?_⟩
      cases he
      exact hfits
    · next hroom =>
      have hback : p.window.back distance = Flow.back f.history distance := by
        rw [h.window_eq, Window.back_of f.history hnear]
      have hless : (Emission.copy n distance).Fits p.phase :=
        ⟨hfits.elements, fun _ _ heq => by cases heq; exact hnear⟩
      rw [hback]
      exact ih (h.put hroom _) hless

/-- Bytes that wait are written as far as they fit. -/
theorem Stands.settle (h : p.IsAt done f) (hfits : ∀ e, p.waiting = some e → e.Fits p.phase) :
    p.settle.Stands done (f.emit p.waiting) := by
  unfold Page.settle
  split
  · next hnone =>
    rw [hnone]
    exact .of_isAt h hnone
  · next b hsome =>
    split
    · exact ⟨⟨f, h, rfl⟩, hfits⟩
    · next hroom =>
      rw [hsome]
      have hput := h.put hroom b
      exact .of_isAt ⟨hput.phase_eq, hput.window_eq, hput.given_eq, hput.room_mod, hput.sound⟩ rfl
  · next n distance hsome =>
    rw [hsome]
    exact Stands.copy h (hfits _ hsome)

/-- A bit is read when nothing waits. -/
theorem Stands.step (h : p.Stands done f) (hnone : p.waiting = none) (bit : Bool) :
    (p.step bit).Stands done (f.step bit) := by
  obtain ⟨hphase, hwindow, hgiven, hroom, hsound⟩ := h.isAt hnone
  have hstep := Phase.fits_step hsound bit
  rw [Flow.step, ← hphase]
  exact Stands.settle (p := { p with phase := (p.phase.step bit).1, waiting := (p.phase.step bit).2 })
    ⟨rfl, hwindow, hgiven, hroom, hstep.sound⟩ hstep.fits

theorem Stands.readBits (h : p.Stands done f) (bits : List Bool) :
    ∃ g, (p.readBits bits).1.Stands done g ∧ g.readBits (p.readBits bits).2 = f.readBits bits := by
  induction bits generalizing p f with
  | nil => exact ⟨f, h, rfl⟩
  | cons bit bits ih =>
    rw [Page.readBits]
    split
    · exact ⟨f, h, rfl⟩
    · next hwaiting =>
      have hnone : p.waiting = none := by simpa using hwaiting
      have hstep := h.step hnone bit
      have hphase : (p.step bit).phase = (f.phase.step bit).1 := by
        rw [← (h.isAt hnone).phase_eq]
        exact phase_settle _
      rw [Flow.readBits_cons, ← hphase]
      dsimp only
      split
      · exact ⟨f.step bit, hstep, rfl⟩
      · exact ih hstep

/-- Bytes are read until nothing more can be read. What is left is read by the flow as well. -/
theorem Stands.readBytes (h : p.Stands done f) (hidle : p.waiting = none → bits = [])
    (input : Bytes) :
    let r := p.readBytes bits input
    ∃ g, r.1.Stands done g ∧
      (g.readBits r.2.1).fresh.read r.2.2 = (f.readBits bits).fresh.read input := by
  fun_induction Page.readBytes p bits input generalizing f with
  | case1 p bits => exact ⟨f, h, rfl⟩
  | case2 p bits b bs hhalted => exact ⟨f, h, rfl⟩
  | case3 p bits b bs hhalted last count hphase hroom => exact ⟨f, h, rfl⟩
  | case4 p bits b bs hhalted last count hphase hroom ih =>
    obtain ⟨hnone, -⟩ := of_not_isHalted hhalted
    have hat := h.isAt hnone
    have hstored : f.phase = .stored last count := hat.phase_eq ▸ hphase
    have hnext : Page.Stands { p.put b with phase := .afterStored last count } done
        { f.put b with phase := .afterStored last count } := by
      have hput := hat.put hroom b
      exact .of_isAt ⟨rfl, hput.window_eq, hput.given_eq, hput.room_mod,
        Phase.isSound_afterStored last count⟩ hnone
    obtain ⟨g, hg, hread⟩ := ih hnext fun _ => rfl
    refine ⟨g, hg, hread.trans ?_⟩
    have hended : f.phase ≠ .ended := by
      intro hended
      rw [hstored] at hended
      cases hended
    rw [hidle hnone, Flow.readBits, Flow.readBits, Flow.fresh_of_ne hended, Flow.read_cons,
      Flow.readByte_of_stored hstored]
  | case5 p bits b bs hhalted p' bits' hread hstored ih =>
    obtain ⟨hnone, hfinal⟩ := of_not_isHalted hhalted
    have hphase := (h.isAt hnone).phase_eq
    obtain ⟨g, hg, hbits⟩ := h.readBits (byteBits b)
    have hidle' := p.idle_readBits (byteBits b)
    rw [hread] at hg hbits hidle'
    obtain ⟨g', hg', hread'⟩ := ih hg hidle'
    refine ⟨g', hg', hread'.trans ?_⟩
    have hended : f.phase ≠ .ended := by
      intro hended
      rw [hphase, hended] at hfinal
      cases hfinal
    have hnotStored : ∀ last count, f.phase ≠ .stored last count := by
      intro last count heq
      exact hstored last count (hphase.trans heq)
    rw [hbits, hidle hnone, Flow.readBits, Flow.fresh_of_ne hended, Flow.read_cons,
      Flow.readByte_of_ne_stored hnotStored]

theorem phase_readBits_failed (h : p.phase = .failed) (bits : List Bool) :
    (p.readBits bits).1.phase = .failed := by
  induction bits generalizing p with
  | nil => exact h
  | cons bit bits ih =>
    have hstep : (p.step bit).phase = .failed := by
      rw [Page.step, phase_settle, h]
      rfl
    rw [Page.readBits]
    split
    · exact h
    · dsimp only
      split
      · exact hstep
      · exact ih hstep

theorem readBytes_of_isHalted (h : p.isHalted = true) (bits : List Bool) (input : Bytes) :
    (p.readBytes bits input).1 = p := by
  cases input with
  | nil => rfl
  | cons b bs => rw [Page.readBytes, if_pos h]

theorem readBytes_of_stored {last : Bool} {count : Nat} (hphase : p.phase = .stored last count)
    (hnone : p.waiting = none) (hroom : p.room ≠ 0) (bits : List Bool) (b : UInt8) (bs : Bytes) :
    p.readBytes bits (b :: bs) = { p.put b with phase := .afterStored last count }.readBytes [] bs := by
  have hgoes : p.isHalted = false := by
    rw [isHalted, hnone, hphase]
    rfl
  rw [readBytes, if_neg (Bool.eq_false_iff.1 hgoes), hphase]
  exact if_neg hroom

/-- A stored block is copied to the page, if it has room. -/
theorem readBytes_block {last : Bool} {bs : Bytes} (hphase : p.phase = .stored last bs.length)
    (hnone : p.waiting = none) (hbs : bs ≠ []) (hroom : bs.length ≤ p.room) (rest : Bytes) :
    p.readBytes [] (bs ++ rest) =
      Page.readBytes ⟨.afterBlock last, none, bs.foldl Window.push p.window, p.room - bs.length,
        bs.reverse ++ p.written⟩ [] rest := by
  induction bs generalizing p with
  | nil => exact absurd rfl hbs
  | cons b bs ih =>
    rw [List.length_cons] at hphase hroom ⊢
    rw [List.cons_append, readBytes_of_stored hphase hnone (by omega)]
    cases bs with
    | nil =>
      rw [List.nil_append, put, hnone]
      rfl
    | cons c cs =>
      have hnext := ih (p := { p.put b with phase := .stored last (c :: cs).length }) rfl hnone
        (List.cons_ne_nil c cs) (Nat.le_sub_one_of_lt hroom)
      refine hnext.trans ?_
      simp only [put, List.foldl_cons, List.reverse_cons, List.append_assoc, List.cons_append,
        List.nil_append, Nat.sub_sub, Nat.add_comm 1]

end Page

/-! ### Runs of the decoder -/

theorem Window.pageRoom_of (history : Bytes) :
    (Window.of history).pageRoom = pageSize - history.length % pageSize := by
  rw [pageRoom, (size_of history).2]

theorem Window.pageRoom_mod (history : Bytes) :
    ((Window.of history).pageRoom + history.length) % pageSize = 0 := by
  rw [pageRoom_of, pageSize]
  omega

namespace Decoder

/-- The decoder is where a flow is, when the bytes that wait are given and the last byte is read to its
end. It has written what is in `done`. Bytes wait only at the end of a page. -/
structure Stands (d : Decoder) (done : Bytes) (f : Flow) : Prop where
  exists_isAt : ∃ g, d.page.IsAt done g ∧ ((g.emit d.waiting).readBits d.bits).fresh = f
  fits : ∀ e, d.waiting = some e → e.Fits d.phase
  idle : d.waiting = none → d.bits = []
  asks (distance : Nat) : d.waiting ≠ some (.copy 0 distance)
  full : d.waiting.isSome = true → d.window.pageRoom = pageSize

variable {d : Decoder} {done : Bytes} {f : Flow}

/-- Bytes wait only within a block with codes. -/
theorem Stands.waiting_eq (h : d.Stands done f) (hfinal : d.phase.isFinal = true) :
    d.waiting = none := by
  cases hwaiting : d.waiting with
  | none => rfl
  | some e =>
    obtain ⟨last, codes, heq⟩ := (h.fits e hwaiting).elements
    rw [heq] at hfinal
    cases hfinal

/-- Where nothing waits, the flow is at the end of a byte. -/
theorem Stands.isAt (h : d.Stands done f) (hnone : d.waiting = none) :
    ∃ g, d.page.IsAt done g ∧ g.fresh = f := by
  obtain ⟨g, hat, hresume⟩ := h.exists_isAt
  rw [hnone, h.idle hnone] at hresume
  exact ⟨g, hat, hresume⟩

theorem phase_run_failed (h : d.phase = .failed) (input : Bytes) :
    (d.run input).decoder.phase = .failed := by
  have hsettle : d.page.settle.phase = .failed := (Page.phase_settle _).trans h
  have hbits := Page.phase_readBits_failed hsettle d.bits
  have hhalted : (d.page.settle.readBits d.bits).1.isHalted = true := by
    rw [Page.isHalted, hbits]
    exact Bool.or_true _
  have hpage := Page.readBytes_of_isHalted hhalted (d.page.settle.readBits d.bits).2 input
  exact (congrArg Page.phase hpage).trans hbits

/-- Bytes that were written long ago do not matter. -/
theorem Stands.behind {more : Bytes} (h : d.Stands (done ++ more) f) :
    ∃ g, f = g.after done ∧ d.Stands more g := by
  obtain ⟨g, hat, hresume⟩ := h.exists_isAt
  have hgiven : done ++ more = g.given := (List.append_nil _).symm.trans hat.given_eq
  have hg : g = Flow.after { g with given := more } done := by rw [Flow.after, hgiven]
  rw [hg, Flow.after_emit, Flow.after_readBits, Flow.after_fresh] at hresume
  exact ⟨_, hresume.symm,
    ⟨⟨{ g with given := more }, ⟨hat.phase_eq, hat.window_eq, List.append_nil _, hat.room_mod,
      hat.sound⟩, rfl⟩, h.fits, h.idle, h.asks, h.full⟩⟩

/-- A run writes what the flow gives next. -/
theorem Stands.run (h : d.Stands done f) (input : Bytes) :
    ∃ g, (d.run input).decoder.Stands (done ++ (d.run input).written) g ∧
      g.read (d.run input).rest = f.read input := by
  obtain ⟨g, hat, hresume⟩ := h.exists_isAt
  obtain ⟨g₁, hstands₁, hbits⟩ := (Page.Stands.settle hat h.fits).readBits d.bits
  have hidle := Page.idle_readBits d.page.settle d.bits
  obtain ⟨g₂, hstands₂, hread⟩ := hstands₁.readBytes hidle input
  have hfills := d.fills_readBits.readBytes (d.page.settle.readBits d.bits).2 input
  obtain ⟨hidle', -, hasks⟩ := d.fills_run input
  obtain ⟨k, hk, hemit⟩ := hstands₂.exists_isAt
  have hsame : (d.run input).decoder.window = .of k.history := hk.window_eq
  refine ⟨(g₂.readBits (d.run input).decoder.bits).fresh,
    ⟨⟨k, ⟨hk.phase_eq, hsame, ?_, ?_, hk.sound⟩, congrArg (fun f : Flow => (f.readBits _).fresh) hemit⟩,
      hstands₂.fits, hidle', hasks, fun hsome => ?_⟩, ?_⟩
  · exact (List.append_nil _).trans hk.given_eq
  · show ((d.run input).decoder.window.pageRoom + k.history.length) % pageSize = 0
    rw [hsame]
    exact Window.pageRoom_mod k.history
  · have hmod := hk.room_mod
    rw [hfills.full hsome, Nat.zero_add] at hmod
    rw [hsame, Window.pageRoom_of, hmod, Nat.sub_zero]
  · refine hread.trans ?_
    rw [hbits, ← hresume]
    rfl

/-- Bytes that wait are given next. -/
theorem Stands.given_eq_concat (h : d.Stands done f) {b : UInt8}
    (hsome : d.waiting = some (.literal b)) (hbits : d.bits = []) : f.given = done ++ [b] := by
  obtain ⟨g, hat, rfl⟩ := h.exists_isAt
  have hgiven : done = g.given := (List.append_nil _).symm.trans hat.given_eq
  rw [hsome, hbits, hgiven, Flow.fresh]
  split <;> rfl

end Decoder

end Switchyard.Deflate

namespace Switchyard.Inflater

open Deflate

/-! ### Filling a buffer -/

/-- The inflater is where a flow is, when also the bytes that found no room are given. What it has
delivered is in `done`. -/
def Stands (i : Inflater) (done : Bytes) (f : Flow) : Prop :=
  i.decoder.Stands (done ++ i.undelivered) f

variable {d : Decoder} {i : Inflater} {done input : Bytes} {f : Flow}

theorem stands_run (h : d.Stands done f) (input : Bytes) (room : Nat) :
    ∃ g, Stands ⟨(d.run input).decoder, (d.run input).written.drop room⟩
        (done ++ (d.run input).written.take room) g ∧ g.read (d.run input).rest = f.read input := by
  obtain ⟨g, hg, hread⟩ := h.run input
  refine ⟨g, ?_, hread⟩
  rw [Stands, List.append_assoc, List.take_append_drop]
  exact hg

theorem stands_decode (d : Decoder) (input : Bytes) (room : Nat) (done : Bytes) (f : Flow)
    (h : d.Stands done f) :
    ∃ g, (decode d input room).inflater.Stands (done ++ (decode d input room).delivered) g ∧
      g.read (decode d input room).rest = f.read input := by
  revert done f
  fun_induction decode d input room with
  | case1 d input room run => exact fun done f h => stands_run h input room
  | case2 d input room run delivered undelivered left hstop hlt more ih =>
    intro done f h
    simp only [not_or, ne_eq, Decidable.not_not] at hstop
    obtain ⟨-, -, hdelivered, -⟩ := hstop
    -- Everything was delivered, so another run goes on behind it.
    obtain ⟨g, hg, hread⟩ := stands_run h input room
    change Stands ⟨run.decoder, undelivered⟩ (done ++ delivered) g at hg
    rw [hdelivered, Stands, List.append_nil] at hg
    obtain ⟨k, hk, hread'⟩ := ih _ _ hg
    rw [List.append_assoc] at hk
    exact ⟨k, hk, hread'.trans hread⟩
  | case3 d input room run => exact fun done f h => stands_run h input room

theorem stands_fill (h : i.Stands done f) (halive : i.hasFailed = false) (input : Bytes)
    (room : Nat) :
    ∃ g, (i.fill input room).inflater.Stands (done ++ (i.fill input room).delivered) g ∧
      g.read (i.fill input room).rest = f.read input := by
  unfold fill
  split
  · refine ⟨f, ?_, rfl⟩
    rw [Stands, List.append_assoc, List.take_append_drop]
    exact h
  · next hnone =>
    have hnil : i.undelivered = [] :=
      Decidable.byContradiction fun hne => hnone ⟨hne, Bool.eq_false_iff.1 halive⟩
    rw [Stands, hnil, List.append_nil] at h
    exact stands_decode i.decoder input room done f h

/-! ### Where an inflater is -/

/-- The inflater of a stream of which all bytes are delivered. -/
def ofFlow (f : Flow) : Inflater :=
  ⟨⟨f.phase, [], none, .of f.history⟩, []⟩

theorem stands_ofFlow (hsound : f.phase.IsSound) (hended : f.phase ≠ .ended) :
    (ofFlow f).Stands f.given f where
  exists_isAt := ⟨f, ⟨rfl, rfl, by simp [ofFlow, Decoder.page], Window.pageRoom_mod _, hsound⟩,
    Flow.fresh_of_ne hended⟩
  fits := nofun
  idle _ := rfl
  asks := nofun
  full := nofun

theorem stands_start : start.Stands [] .start :=
  stands_ofFlow (f := .start) trivial nofun

/-- Bytes that were delivered long ago do not matter. -/
theorem Stands.behind (h : i.Stands done f) : ∃ g, f = g.after done ∧ i.Stands [] g :=
  Decoder.Stands.behind h

/-- What was delivered was given, and what found no room as well. -/
theorem Stands.given_prefix (h : i.Stands done f) : done ++ i.undelivered <+: f.given := by
  have hdecoder : i.decoder.Stands ((done ++ i.undelivered) ++ []) f := by
    rw [List.append_nil]
    exact h
  obtain ⟨g, rfl, -⟩ := hdecoder.behind
  exact List.prefix_append _ _

/-- Where a stream has ended, a new one begins. -/
theorem Stands.restart (h : i.Stands done f) (hended : i.hasEnded = true) :
    start.Stands done f := by
  rw [hasEnded, Bool.and_eq_true, beq_iff_eq, List.isEmpty_iff] at hended
  obtain ⟨hphase, hundelivered⟩ := hended
  have hnone : i.decoder.waiting = none := Decoder.Stands.waiting_eq h (by rw [hphase]; rfl)
  obtain ⟨g, hat, rfl⟩ := Decoder.Stands.isAt h hnone
  have hg : g.phase = .ended := hat.phase_eq ▸ hphase
  have hgiven : done = g.given := by
    have heq := hat.given_eq
    rw [hundelivered] at heq
    simpa [Decoder.page] using heq
  rw [Flow.fresh, if_pos hg, hgiven]
  have hstart : Phase.start ≠ .ended := by decide
  exact stands_ofFlow (f := ⟨.start, [], g.given⟩) trivial hstart

theorem Stands.phase_eq_failed (h : i.Stands done f) (hfailed : i.hasFailed = true) :
    f.phase = .failed := by
  rw [hasFailed, beq_iff_eq] at hfailed
  have hnone : i.decoder.waiting = none := Decoder.Stands.waiting_eq h (by rw [hfailed]; rfl)
  obtain ⟨g, hat, rfl⟩ := Decoder.Stands.isAt h hnone
  have hg : g.phase = .failed := hat.phase_eq ▸ hfailed
  rw [Flow.fresh_of_ne (by rw [hg]; decide), hg]

/-- Nothing more is given where nothing waits. -/
theorem Stands.given_eq_nil (h : i.Stands [] f) (hundelivered : i.undelivered = [])
    (hnone : i.decoder.waiting = none) : f.given = [] := by
  obtain ⟨g, hat, rfl⟩ := Decoder.Stands.isAt h hnone
  have hgiven : [] = g.given := by
    have heq := hat.given_eq
    rw [hundelivered] at heq
    exact heq
  rw [Flow.fresh]
  split
  · exact hgiven.symm
  · exact hgiven.symm

/-- Bytes that wait will be given. -/
theorem Stands.given_ne_nil (h : i.Stands [] f) (hsome : i.decoder.waiting ≠ none) :
    f.given ≠ [] := by
  obtain ⟨g, -, rfl⟩ := h.exists_isAt
  obtain ⟨e, he⟩ := Option.ne_none_iff_exists'.1 hsome
  have hgiven : (g.emit (some e)).given ≠ [] := g.given_emit_ne_nil fun distance heq =>
    h.asks distance (heq ▸ he)
  rw [he]
  intro hnil
  have hprefix := Flow.given_readBits_prefix (g.emit (some e)) i.decoder.bits
  rw [hnil, List.prefix_nil] at hprefix
  exact hgiven hprefix

/-- An inflater whose stream has given no more than it delivered has only one form. -/
theorem Stands.eq_ofFlow (h : i.Stands [] f) (hgiven : f.given = []) (hended : i.hasEnded = false) :
    i = ofFlow f := by
  have hundelivered : i.undelivered = [] := by
    have hprefix := h.given_prefix
    rw [hgiven, List.nil_append, List.prefix_nil] at hprefix
    exact hprefix
  have hnone : i.decoder.waiting = none :=
    Decidable.byContradiction fun hsome => h.given_ne_nil hsome hgiven
  obtain ⟨g, hat, rfl⟩ := Decoder.Stands.isAt h hnone
  have hphase : g.phase ≠ .ended := by
    intro hg
    have hphase := hat.phase_eq
    change i.decoder.phase = _ at hphase
    rw [hasEnded, hphase, hg, hundelivered] at hended
    cases hended
  have hidle := h.idle hnone
  have hwindow := hat.window_eq
  have hstate := hat.phase_eq
  rw [Flow.fresh_of_ne hphase]
  obtain ⟨⟨phase, bits, waiting, window⟩, undelivered⟩ := i
  simp only at hnone hidle hundelivered
  change window = _ at hwindow
  change phase = _ at hstate
  rw [hnone, hidle, hundelivered, hwindow, hstate, ofFlow]

end Switchyard.Inflater
