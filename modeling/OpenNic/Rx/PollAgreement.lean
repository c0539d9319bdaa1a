import OpenNic.Qdma.Queue
import OpenNic.Tx.Conservation
import OpenNic.Rx.VfDriver
import OpenNic.Rx.PfDriver

namespace OpenNic

/-- What a receive poll is about: the indices of the rings, the slots and lengths of the
    packets that have gone to the stack, and the values written to the doorbell. -/
structure RxView where
  descClean : Nat
  descUse : Nat
  cmplClean : Nat
  delivered : List (Nat × Nat)
  rung : List Nat

def RxQueue.view (q : RxQueue) : RxView where
  descClean := q.descRing.nextToClean
  descUse := q.descRing.nextToUse
  cmplClean := q.cmplRing.nextToClean
  delivered := q.given.map fun d => (d.slot, d.len)
  rung := q.rung

namespace RxView

/-- One packet, on rings of `R` descriptors and `R'` completions. -/
def packet (R R' len : Nat) (v : RxView) : RxView :=
  let clean := (v.descClean + 1) % R
  let use := (v.descUse + onicRxDescStep) % R
  let low := Cyclic.dist R clean v.descUse < onicRxDescStep / 2
  { descClean := clean
    descUse := if low then use else v.descUse
    cmplClean := (v.cmplClean + 1) % R'
    delivered := v.delivered ++ [(v.descClean, len)]
    rung := if low then v.rung ++ [use] else v.rung }

theorem packet_low {R R' len : Nat} {v : RxView}
    (low : Cyclic.dist R ((v.descClean + 1) % R) v.descUse < onicRxDescStep / 2) :
    v.packet R R' len = ⟨(v.descClean + 1) % R, (v.descUse + onicRxDescStep) % R, (v.cmplClean + 1) % R',
      v.delivered ++ [(v.descClean, len)], v.rung ++ [(v.descUse + onicRxDescStep) % R]⟩ := by
  simp only [packet, low, if_true]

theorem packet_enough {R R' len : Nat} {v : RxView}
    (enough : ¬ Cyclic.dist R ((v.descClean + 1) % R) v.descUse < onicRxDescStep / 2) :
    v.packet R R' len = ⟨(v.descClean + 1) % R, v.descUse, (v.cmplClean + 1) % R',
      v.delivered ++ [(v.descClean, len)], v.rung⟩ := by
  simp only [packet, enough, if_false]

/-- Packets up to `pidx`, at most `left` of them, counted from `work`. -/
def drain (R R' pidx : Nat) (len : Nat → Nat) : Nat → Nat → RxView → Nat × RxView
  | 0, work, v => (work, v)
  | left + 1, work, v =>
    if v.cmplClean = pidx then (work, v)
    else drain R R' pidx len left (work + 1) (v.packet R R' (len v.cmplClean))

end RxView

/-- Rings of `R` descriptors and `R'` completions with a page in every slot. -/
structure RxReady (R R' : Nat) (q : RxQueue) : Prop where
  descCount : q.descRing.count = R + 1
  cmplCount : q.cmplRing.count = R' + 1
  descClean : q.descRing.nextToClean < R
  descUse : q.descRing.nextToUse < R
  cmplClean : q.cmplRing.nextToClean < R'
  slots : ∀ i < R, ∃ pg, q.buffer i = ⟨some pg, xdpPacketHeadroom⟩

/-- The length in an entry of the completion ring. -/
def RxQueue.entryLen (q : RxQueue) (i : Nat) : Nat := (qdmaUnpackC2hCmpl (q.cmplRing.desc i)).pktLen

section

variable {R R' : Nat} {q : RxQueue}

theorem RxReady.descReal (ready : RxReady R R' q) : q.descRing.realCount = R := by
  rw [RxRing.realCount, ready.descCount, Nat.add_sub_cancel]

theorem RxReady.cmplReal (ready : RxReady R R' q) : q.cmplRing.realCount = R' := by
  rw [RxRing.realCount, ready.cmplCount, Nat.add_sub_cancel]

/-- Wrapping by comparison is wrapping by the modulus. -/
theorem clean_eq {ring : RxRing} (real : ring.realCount = R) (small : R < 65536) (clean : ring.nextToClean < R) :
    onicVfRingIncrementCleanRx ring = { ring with nextToClean := (ring.nextToClean + 1) % R } := by
  have fits : (ring.nextToClean + 1) % 65536 = ring.nextToClean + 1 := Nat.mod_eq_of_lt (by omega)
  rw [onicVfRingIncrementCleanRx, fits, real]
  split
  · rename_i last
    rw [last, Nat.mod_self]
  · rw [Nat.mod_eq_of_lt (by omega)]

/-- The descriptor credit after a packet. -/
def RxQueue.credit (R : Nat) (q : RxQueue) : RxQueue :=
  if Cyclic.dist R q.descRing.nextToClean q.descRing.nextToUse < onicRxDescStep / 2 then
    q.setRxHead ((q.descRing.nextToUse + onicRxDescStep) % R)
  else q

theorem refillCredit_eq (real : q.descRing.realCount = R) (clean : q.descRing.nextToClean < R) (small : R < 65536) :
    q.refillCredit = q.credit R := by
  have unused : q.unused = Cyclic.dist R q.descRing.nextToClean q.descRing.nextToUse := by
    rw [RxQueue.unused, real, Cyclic.dist]
    exact Nat.mod_eq_of_lt ((Nat.mod_lt _ (by omega)).trans small)
  rw [RxQueue.refillCredit, RxQueue.credit, unused, real]
  by_cases low : Cyclic.dist R q.descRing.nextToClean q.descRing.nextToUse < onicRxDescStep / 2
  · exact (if_neg (Nat.not_le.mpr low)).trans (if_pos low).symm
  · exact (if_pos (Nat.not_lt.mp low)).trans (if_neg low).symm

theorem highWatermark_eq (real : q.descRing.realCount = R) (clean : q.descRing.nextToClean < R)
    (use : q.descRing.nextToUse < R) :
    q.onicRxHighWatermark = decide (Cyclic.dist R q.descRing.nextToClean q.descRing.nextToUse < onicRxDescStep / 2) := by
  rw [RxQueue.onicRxHighWatermark, real, Cyclic.dist_of_lt clean use]
  by_cases behind : q.descRing.nextToUse < q.descRing.nextToClean
  · rw [if_pos behind, if_pos behind, decide_eq_decide]
    omega
  · rw [if_neg behind, if_neg behind, decide_eq_decide]
    omega

theorem onicRxRefill_eq (real : q.descRing.realCount = R) (use : q.descRing.nextToUse < R)
    (small : R + onicRxDescStep < 65536) :
    q.onicRxRefill = q.setRxHead ((q.descRing.nextToUse + onicRxDescStep) % R) := by
  have fits : (q.descRing.nextToUse + onicRxDescStep) % 65536 = q.descRing.nextToUse + onicRxDescStep :=
    Nat.mod_eq_of_lt (by omega)
  rw [RxQueue.onicRxRefill, real, fits]

/-- A packet is delivered and both rings have gone on; the credit is still to be looked at. -/
structure RxMoved (R R' len : Nat) (q q' : RxQueue) : Prop where
  descCount : q'.descRing.count = q.descRing.count
  cmplCount : q'.cmplRing.count = q.cmplRing.count
  descClean : q'.descRing.nextToClean = (q.descRing.nextToClean + 1) % R
  descUse : q'.descRing.nextToUse = q.descRing.nextToUse
  cmplClean : q'.cmplRing.nextToClean = (q.cmplRing.nextToClean + 1) % R'
  desc : q'.cmplRing.desc = q.cmplRing.desc
  buffer : ∃ newPg, q'.buffer = Function.update q.buffer q.descRing.nextToClean ⟨some newPg, xdpPacketHeadroom⟩
  given : ∃ pg, q'.given = q.given ++ [⟨q.descRing.nextToClean, pg, len⟩]
  rung : q'.rung = q.rung

/-- What one packet changes of the view, of the rings and of the slots, whichever poll it is of. -/
structure RxRound (R R' len : Nat) (q q' : RxQueue) : Prop where
  ready : RxReady R R' q'
  view : q'.view = q.view.packet R R' len
  desc : q'.cmplRing.desc = q.cmplRing.desc

theorem credit_ready (ready : RxReady R R' q) : RxReady R R' (q.credit R) := by
  rw [RxQueue.credit]
  split
  · exact {
      descCount := ready.descCount
      cmplCount := ready.cmplCount
      descClean := ready.descClean
      descUse := Nat.mod_lt _ (Nat.zero_lt_of_lt ready.descClean)
      cmplClean := ready.cmplClean
      slots := ready.slots }
  · exact ready

theorem RxMoved.ready {q' : RxQueue} {len : Nat} (moved : RxMoved R R' len q q') (ready : RxReady R R' q) : RxReady R R' q' where
  descCount := moved.descCount.trans ready.descCount
  cmplCount := moved.cmplCount.trans ready.cmplCount
  descClean := by
    rw [moved.descClean]
    exact Nat.mod_lt _ (Nat.zero_lt_of_lt ready.descClean)
  descUse := by
    rw [moved.descUse]
    exact ready.descUse
  cmplClean := by
    rw [moved.cmplClean]
    exact Nat.mod_lt _ (Nat.zero_lt_of_lt ready.cmplClean)
  slots := by
    intro i small
    obtain ⟨newPg, buffer⟩ := moved.buffer
    rw [buffer, Function.update_apply]
    split
    · exact ⟨newPg, rfl⟩
    · exact ready.slots i small

theorem RxMoved.round {q' : RxQueue} {len : Nat} (moved : RxMoved R R' len q q') (ready : RxReady R R' q) :
    RxRound R R' len q (q'.credit R) where
  ready := credit_ready (moved.ready ready)
  view := by
    obtain ⟨pg, given⟩ := moved.given
    have delivered : q'.given.map (fun d => (d.slot, d.len)) =
        q.given.map (fun d => (d.slot, d.len)) ++ [(q.descRing.nextToClean, len)] := by
      rw [given, List.map_append]
      rfl
    have before : q'.view = { q.view with
        descClean := (q.descRing.nextToClean + 1) % R
        cmplClean := (q.cmplRing.nextToClean + 1) % R'
        delivered := q.view.delivered ++ [(q.descRing.nextToClean, len)] } := by
      simp only [RxQueue.view, moved.descClean, moved.descUse, moved.cmplClean, delivered, moved.rung]
    rw [RxQueue.credit, moved.descClean, moved.descUse]
    by_cases low : Cyclic.dist R ((q.descRing.nextToClean + 1) % R) q.descRing.nextToUse < onicRxDescStep / 2
    · have after : (q'.setRxHead ((q.descRing.nextToUse + onicRxDescStep) % R)).view = { q'.view with
          descUse := (q.descRing.nextToUse + onicRxDescStep) % R
          rung := q'.rung ++ [(q.descRing.nextToUse + onicRxDescStep) % R] } := rfl
      rw [if_pos low, after, before, moved.rung]
      exact (RxView.packet_low (v := q.view) low).symm
    · rw [if_neg low, before]
      exact (RxView.packet_enough (v := q.view) low).symm
  desc := by
    rw [RxQueue.credit]
    split <;> exact moved.desc

theorem vf_round (ready : RxReady R R' q) (small : R < 65536) (small' : R' < 65536) (len : Nat) (newPg : RxPage) :
    RxRound R R' len q (q.deliver len newPg).refillCredit := by
  have real : (q.descRing.setDesc q.descRing.nextToClean newPg.dstAddr).realCount = R := ready.descReal
  have desc : (q.deliver len newPg).descRing = { q.descRing.setDesc q.descRing.nextToClean newPg.dstAddr with
      nextToClean := (q.descRing.nextToClean + 1) % R } := clean_eq real small ready.descClean
  have cmpl : ∃ color, (q.deliver len newPg).cmplRing = { q.cmplRing with
      nextToClean := (q.cmplRing.nextToClean + 1) % R', color := color } := by
    have next := clean_eq ready.cmplReal small' ready.cmplClean
    rw [RxQueue.deliver, next]
    by_cases wraps : (q.cmplRing.nextToClean + 1) % R' = 0
    · exact ⟨_, if_pos wraps⟩
    · exact ⟨_, if_neg wraps⟩
  obtain ⟨color, cmpl⟩ := cmpl
  have moved : RxMoved R R' len q (q.deliver len newPg) := {
    descCount := by rw [desc]; rfl
    cmplCount := by rw [cmpl]
    descClean := by rw [desc]
    descUse := by rw [desc]; rfl
    cmplClean := by rw [cmpl]
    desc := by rw [cmpl]
    buffer := ⟨newPg, rfl⟩
    given := ⟨_, rfl⟩
    rung := rfl }
  have after := moved.ready ready
  rw [refillCredit_eq after.descReal after.descClean small]
  exact moved.round ready

theorem credit_cmplRing : (q.credit R).cmplRing = q.cmplRing := by
  rw [RxQueue.credit]
  split <;> rfl

theorem credit_setCmplRing (ring : RxRing) :
    { q.credit R with cmplRing := ring } = ({ q with cmplRing := ring } : RxQueue).credit R := by
  simp only [RxQueue.credit]
  split <;> rfl

theorem RxQueue.onicRxAdvance_eq (real : q.descRing.realCount = R) (cmplReal : q.cmplRing.realCount = R')
    (clean : q.descRing.nextToClean < R) (use : q.descRing.nextToUse < R) (small : R + onicRxDescStep < 65536)
    (cmpl : C2hCmpl) : ∃ color, q.onicRxAdvance cmpl =
      ({ q with
        descRing := { q.descRing with nextToClean := (q.descRing.nextToClean + 1) % R }
        cmplRing := { q.cmplRing with nextToClean := (q.cmplRing.nextToClean + 1) % R', color := color } } : RxQueue).credit R := by
  let tail : RxQueue := { q with descRing := { q.descRing with nextToClean := (q.descRing.nextToClean + 1) % R } }
  have desc : ({ q with descRing := q.descRing.onicRingIncrementTail } : RxQueue) = tail := by
    rw [RxRing.onicRingIncrementTail, real]
  have credit : (if tail.onicRxHighWatermark then tail.onicRxRefill else tail) = tail.credit R := by
    have inside : tail.descRing.nextToClean < R := Nat.mod_lt _ (Nat.zero_lt_of_lt clean)
    have watermark : tail.onicRxHighWatermark = _ := highWatermark_eq real inside use
    have refill : tail.onicRxRefill = _ := onicRxRefill_eq real use small
    rw [watermark, refill, RxQueue.credit]
    simp only [decide_eq_true_eq]
  have cmplRing : (tail.credit R).cmplRing = q.cmplRing := credit_cmplRing
  have increment : q.cmplRing.onicRingIncrementTail = { q.cmplRing with nextToClean := (q.cmplRing.nextToClean + 1) % R' } := by
    rw [RxRing.onicRingIncrementTail, cmplReal]
  rw [RxQueue.onicRxAdvance, desc]
  simp only [credit, cmplRing, increment]
  split
  · exact ⟨_, credit_setCmplRing _⟩
  · exact ⟨q.cmplRing.color, credit_setCmplRing _⟩

/-- What the poll of the PF does to the queue with one packet. -/
def RxQueue.pfPacket (pg newPg : RxPage) (cmpl : C2hCmpl) (q : RxQueue) : RxQueue :=
  (({ q with given := q.given ++ [⟨q.descRing.nextToClean, some pg, cmpl.pktLen⟩] } : RxQueue).onicRxPageRefill
    newPg).onicRxAdvance cmpl

theorem pf_round (ready : RxReady R R' q) (small : R + onicRxDescStep < 65536) (pg newPg : RxPage) (cmpl : C2hCmpl) :
    RxRound R R' cmpl.pktLen q (q.pfPacket pg newPg cmpl) := by
  obtain ⟨color, advance⟩ := RxQueue.onicRxAdvance_eq (q := ({ q with
      given := q.given ++ [⟨q.descRing.nextToClean, some pg, cmpl.pktLen⟩] } : RxQueue).onicRxPageRefill newPg)
    ready.descReal ready.cmplReal ready.descClean ready.descUse small cmpl
  rw [RxQueue.pfPacket, advance]
  exact RxMoved.round {
    descCount := rfl
    cmplCount := rfl
    descClean := rfl
    descUse := rfl
    cmplClean := rfl
    desc := rfl
    buffer := ⟨newPg, rfl⟩
    given := ⟨_, rfl⟩
    rung := rfl } ready

/-- Every allocation succeeds. -/
abbrev RxInput.Granted := { input : RxInput // input.page.isSome ∧ input.buildSkb = true }

instance : Nonempty RxInput.Granted := ⟨⟨some 0, true, true⟩, rfl, rfl⟩

/-- Every allocation succeeds, and there is no XDP program. -/
abbrev PfRxInput.Granted :=
  { input : PfRxInput // input.page.isSome ∧ input.xdp.prog = none ∧ input.xdp.buildSkb = true }

instance : Nonempty PfRxInput.Granted :=
  ⟨⟨some 0, ⟨none, none, 0, true, 0, ⟨0, none, false⟩⟩⟩, rfl, rfl, rfl⟩

/-- The completions up to `pidx`, as far as `budget` goes, have the colour of their lap and
    no error, and a length that fits behind the headroom. -/
def RxExpected (R' pidx budget : Nat) (q : RxQueue) : Prop :=
  ∀ k < budget, (∀ j ≤ k, (q.cmplRing.nextToClean + j) % R' ≠ pidx) →
    let cmpl := qdmaUnpackC2hCmpl (q.cmplRing.desc ((q.cmplRing.nextToClean + k) % R'))
    cmpl.color = q.cmplRing.color ^^^ BitVec.ofNat 8 ((q.cmplRing.nextToClean + k) / R' % 2) ∧
      cmpl.err = 0 ∧ 0 < cmpl.pktLen ∧ cmpl.pktLen ≤ pageSize - xdpPacketHeadroom

theorem RxExpected.valid {pidx left : Nat} (expected : RxExpected R' pidx (left + 1) q) (ready : RxReady R R' q)
    (more : q.cmplRing.nextToClean ≠ pidx) :
    ¬ (qdmaUnpackC2hCmpl (q.cmplRing.desc q.cmplRing.nextToClean)).Invalid q.cmplRing.color
      (q.buffer q.descRing.nextToClean) := by
  have here : q.cmplRing.nextToClean % R' = q.cmplRing.nextToClean := Nat.mod_eq_of_lt ready.cmplClean
  have lap : q.cmplRing.nextToClean / R' = 0 := Nat.div_eq_of_lt ready.cmplClean
  have now := expected 0 (Nat.succ_pos left) fun j first => by
    rw [Nat.le_zero.mp first, Nat.add_zero, here]
    exact more
  rw [Nat.add_zero, here, lap] at now
  obtain ⟨color, err, some, fits⟩ := now
  obtain ⟨pg, slot⟩ := ready.slots _ ready.descClean
  rw [slot]
  rintro (other | error | empty | large)
  · exact other (by simpa using color)
  · exact error err
  · omega
  · exact absurd fits (Nat.not_le.mpr large)

theorem parity_xor (m n : Nat) :
    BitVec.ofNat 8 (m % 2) ^^^ BitVec.ofNat 8 (n % 2) = BitVec.ofNat 8 ((m + n) % 2) := by
  rw [Nat.add_mod]
  rcases Nat.mod_two_eq_zero_or_one m with even | odd <;> rcases Nat.mod_two_eq_zero_or_one n with even' | odd'
  · rw [even, even']
    decide
  · rw [even, odd']
    decide
  · rw [odd, even']
    decide
  · rw [odd, odd']
    decide

theorem RxExpected.next {pidx left : Nat} {q' : RxQueue} (expected : RxExpected R' pidx (left + 1) q) (ready : RxReady R R' q)
    (more : q.cmplRing.nextToClean ≠ pidx) (clean : q'.cmplRing.nextToClean = (q.cmplRing.nextToClean + 1) % R')
    (desc : q'.cmplRing.desc = q.cmplRing.desc)
    (color : q'.cmplRing.color = q.cmplRing.color ^^^ BitVec.ofNat 8 ((q.cmplRing.nextToClean + 1) / R' % 2)) :
    RxExpected R' pidx left q' := by
  intro k small before
  have same (j : Nat) : (q'.cmplRing.nextToClean + j) % R' = (q.cmplRing.nextToClean + (j + 1)) % R' := by
    rw [clean, Nat.mod_add_mod, Nat.add_assoc, Nat.add_comm 1 j]
  have now := expected (k + 1) (by omega) fun j le => by
    cases j with
    | zero =>
      rw [Nat.add_zero, Nat.mod_eq_of_lt ready.cmplClean]
      exact more
    | succ j =>
      rw [← same]
      exact before j (by omega)
  have lap : (q.cmplRing.nextToClean + (k + 1)) / R' =
      (q.cmplRing.nextToClean + 1) / R' + (q'.cmplRing.nextToClean + k) / R' := by
    have split := Nat.div_add_mod (q.cmplRing.nextToClean + 1) R'
    rw [clean, ← Nat.mul_add_div (Nat.zero_lt_of_lt ready.cmplClean)]
    congr 1
    omega
  rw [lap, ← parity_xor, ← BitVec.xor_assoc, ← color] at now
  rw [desc, same]
  exact now

theorem vf_round_color (ready : RxReady R R' q) (small' : R' < 65536) (len : Nat) (newPg : RxPage) :
    (q.deliver len newPg).refillCredit.cmplRing.color =
      q.cmplRing.color ^^^ BitVec.ofNat 8 ((q.cmplRing.nextToClean + 1) / R' % 2) := by
  have kept : (q.deliver len newPg).refillCredit.cmplRing = (q.deliver len newPg).cmplRing := by
    rw [RxQueue.refillCredit]
    split <;> rfl
  rw [kept, RxQueue.deliver, clean_eq ready.cmplReal small' ready.cmplClean]
  have inside := ready.cmplClean
  by_cases wraps : q.cmplRing.nextToClean + 1 = R'
  · have lap : (q.cmplRing.nextToClean + 1) / R' = 1 := by
      rw [wraps]
      exact Nat.div_self (by omega)
    have first : (q.cmplRing.nextToClean + 1) % R' = 0 := by rw [wraps, Nat.mod_self]
    simp only [first, if_true, lap]
    rfl
  · have lap : (q.cmplRing.nextToClean + 1) / R' = 0 := Nat.div_eq_of_lt (by omega)
    have later : (q.cmplRing.nextToClean + 1) % R' = q.cmplRing.nextToClean + 1 := Nat.mod_eq_of_lt (by omega)
    simp [later, lap]

theorem vf_loop {pidx left work r : Nat} {q' : RxQueue} (ready : RxReady R R' q) (small : R < 65536) (small' : R' < 65536)
    (expected : RxExpected R' pidx left q)
    (ran : Program.Exec ((onicVfRxLoop pidx left work).comap (Subtype.val : RxInput.Granted → RxInput)) q r q') :
    (r, q'.view) = q.view.drain R R' pidx q.entryLen left work := by
  induction left generalizing work q with
  | zero =>
    obtain ⟨rfl, rfl⟩ := Program.exec_done.mp ran
    rfl
  | succ left ih =>
    rw [onicVfRxLoop, Program.comap_bind, Program.exec_bind] at ran
    obtain ⟨clean, _, looked, ran⟩ := ran
    obtain ⟨rfl, same⟩ := Program.exec_comap_read.mp looked
    rw [same] at ran
    by_cases last : q.cmplRing.nextToClean = pidx
    · rw [if_pos last] at ran
      obtain ⟨rfl, rfl⟩ := Program.exec_done.mp ran
      exact (if_pos last).symm
    · rw [if_neg last, Program.comap_bind, Program.exec_bind] at ran
      obtain ⟨cmpl, _, looked, ran⟩ := ran
      obtain ⟨rfl, same⟩ := Program.exec_comap_read.mp looked
      rw [same, Program.comap_bind, Program.exec_bind] at ran
      obtain ⟨invalid, _, looked, ran⟩ := ran
      obtain ⟨rfl, same⟩ := Program.exec_comap_read.mp looked
      rw [same, decide_eq_false (expected.valid ready last), if_neg Bool.false_ne_true, Program.comap_bind,
        Program.exec_bind] at ran
      obtain ⟨page, taken, alloc, ran⟩ := ran
      obtain ⟨⟨input, granted, built⟩, alloc⟩ := Program.exec_comap_access.mp alloc
      obtain ⟨dma, given⟩ := Option.isSome_iff_exists.mp granted
      simp only [given, Option.some.injEq, Prod.mk.injEq] at alloc
      obtain ⟨rfl, rfl⟩ := alloc
      simp only at ran
      rw [Program.comap_bind, Program.exec_bind] at ran
      obtain ⟨skb, _, build, ran⟩ := ran
      obtain ⟨⟨input, granted, built⟩, build⟩ := Program.exec_comap_access.mp build
      simp only [built, Option.some.injEq, Prod.mk.injEq] at build
      obtain ⟨rfl, same⟩ := build
      rw [if_pos rfl, ← same, Program.comap_bind, Program.exec_bind] at ran
      obtain ⟨_, mid, deliver, ran⟩ := ran
      obtain rfl := Program.exec_comap_modify.mp deliver
      rw [Program.comap_bind, Program.exec_bind] at ran
      obtain ⟨_, after, credit, ran⟩ := ran
      obtain rfl := Program.exec_comap_modify.mp credit
      let took : RxQueue := { q with taken := q.taken + 1 }
      have tookReady : RxReady R R' took :=
        ⟨ready.descCount, ready.cmplCount, ready.descClean, ready.descUse, ready.cmplClean, ready.slots⟩
      have round := vf_round tookReady small small' (q.entryLen q.cmplRing.nextToClean) ⟨q.taken, dma⟩
      have color := vf_round_color tookReady small' (q.entryLen q.cmplRing.nextToClean) ⟨q.taken, dma⟩
      have clean := congrArg RxView.cmplClean round.view
      have rest := ih round.ready (expected.next ready last clean round.desc color) ran
      have lens : (took.deliver (q.entryLen q.cmplRing.nextToClean) ⟨q.taken, dma⟩).refillCredit.entryLen = q.entryLen := by
        funext i
        rw [RxQueue.entryLen, round.desc]
        rfl
      rw [rest, lens, round.view]
      exact (if_neg last).symm

/-- Without a program the packet's page goes to the stack. -/
theorem onicRxPacket_passes {t : Nat} {buff : XdpBuff} {xdp xdp' : XdpRx} {goesOn : Bool}
    (ran : Program.Exec ((onicRxPacket t buff).comap fun i : PfRxInput.Granted => i.1.xdp) xdp goesOn xdp') :
    goesOn = true ∧ xdp'.stack = xdp.stack ++ [buff.page] := by
  rw [onicRxPacket, onicRunXdp, Program.bind_assoc, Program.comap_bind, Program.exec_bind] at ran
  obtain ⟨prog, _, looked, ran⟩ := ran
  obtain ⟨⟨input, page, none, built⟩, looked⟩ := Program.exec_comap_access.mp looked
  simp only [none, Option.some.injEq, Prod.mk.injEq] at looked
  obtain ⟨rfl, same⟩ := looked
  rw [← same] at ran
  have skb : Program.Exec ((onicRxSkb buff).comap fun i : PfRxInput.Granted => i.1.xdp) xdp goesOn xdp' := ran
  rw [onicRxSkb, Program.comap_bind, Program.exec_bind] at skb
  obtain ⟨built, _, looked, ran⟩ := skb
  obtain ⟨⟨input, page, none, granted⟩, looked⟩ := Program.exec_comap_access.mp looked
  simp only [granted, Option.some.injEq, Prod.mk.injEq] at looked
  obtain ⟨rfl, same⟩ := looked
  rw [← same, if_pos rfl, Program.comap_bind, Program.exec_bind] at ran
  obtain ⟨rv, stacked, gro, ran⟩ := ran
  obtain ⟨⟨input, page, none, granted⟩, gro⟩ := Program.exec_comap_access.mp gro
  simp only [Option.some.injEq, Prod.mk.injEq] at gro
  obtain ⟨rfl, rfl⟩ := gro
  rw [if_neg (by omega)] at ran
  obtain ⟨rfl, rfl⟩ := Program.exec_done.mp ran
  exact ⟨rfl, rfl⟩

theorem xdp_lens : Program.Lens PfRxPoll.xdp PfRxPoll.setXdp where
  get_set _ _ := rfl
  set_get _ := rfl
  set_set _ _ _ := rfl

/-- What a round can do. -/
theorem onicRxRound_exec {κ : Type} [Nonempty κ] {f : κ → PfRxInput} {t : Nat} {cmpl : C2hCmpl} {s s' : PfRxPoll}
    {goesOn : Bool} (ran : Program.Exec ((onicRxRound t cmpl).comap f) s goesOn s') :
    ∃ pg xdp, (s.q.buffer s.q.descRing.nextToClean).pg = some pg ∧
      Program.Exec ((onicRxPacket t ⟨pg.id, pg.dma⟩).comap fun k => (f k).xdp) s.xdp goesOn xdp ∧
      let noted := (s.setXdp xdp).note s.q.descRing.nextToClean pg cmpl.pktLen s.xdp.stack.length
      (goesOn = false ∧ s' = noted ∨
        goesOn = true ∧ ∃ k dma, (f k).page = some dma ∧
          s' = noted.setQ ((noted.q.onicRxPageRefill ⟨noted.q.taken, dma⟩).onicRxAdvance cmpl)) := by
  rw [onicRxRound, Program.comap_bind, Program.exec_bind] at ran
  obtain ⟨clean, _, looked, ran⟩ := ran
  obtain ⟨rfl, same⟩ := Program.exec_comap_read.mp looked
  rw [same, Program.comap_bind, Program.exec_bind] at ran
  obtain ⟨pg, _, looked, ran⟩ := ran
  obtain ⟨_, looked⟩ := Program.exec_comap_access.mp looked
  obtain ⟨here, slot, found⟩ := Option.map_eq_some_iff.mp looked
  obtain ⟨rfl, same⟩ := Prod.mk.inj found
  rw [← same, Program.comap_bind, Program.exec_bind] at ran
  obtain ⟨before, _, looked, ran⟩ := ran
  obtain ⟨rfl, same⟩ := Program.exec_comap_read.mp looked
  rw [same, Program.comap_bind, Program.exec_bind] at ran
  obtain ⟨more, mid, packet, ran⟩ := ran
  rw [Program.comap_lift, Program.comap_comap, Program.exec_lift xdp_lens] at packet
  obtain ⟨packet, frame⟩ := packet
  rw [Program.comap_bind, Program.exec_bind] at ran
  obtain ⟨_, noted, note, ran⟩ := ran
  obtain rfl := Program.exec_comap_modify.mp note
  cases more with
  | false =>
    obtain ⟨rfl, rfl⟩ := Program.exec_done.mp ran
    exact ⟨here, mid.xdp, slot, packet, .inl ⟨rfl, by rw [← frame]⟩⟩
  | true =>
    rw [if_pos rfl, Program.comap_bind, Program.exec_bind] at ran
    obtain ⟨_, refilled, refill, ran⟩ := ran
    obtain ⟨k, refill⟩ := Program.exec_comap_access.mp refill
    obtain ⟨dma, given, same⟩ := Option.map_eq_some_iff.mp refill
    obtain ⟨-, rfl⟩ := Prod.mk.inj same
    rw [Program.comap_bind, Program.exec_bind] at ran
    obtain ⟨_, advanced, advance, ran⟩ := ran
    obtain rfl := Program.exec_comap_modify.mp advance
    obtain ⟨rfl, rfl⟩ := Program.exec_done.mp ran
    exact ⟨here, mid.xdp, slot, packet, .inr ⟨rfl, k, dma, given, by rw [← frame]; rfl⟩⟩

theorem onicRxRound_packet {t : Nat} {cmpl : C2hCmpl} {s s' : PfRxPoll} {goesOn : Bool}
    (ran : Program.Exec ((onicRxRound t cmpl).comap (Subtype.val : PfRxInput.Granted → PfRxInput)) s goesOn s') :
    goesOn = true ∧ ∃ pg newPg, s'.q = s.q.pfPacket pg newPg cmpl := by
  obtain ⟨pg, xdp, slot, packet, next⟩ := onicRxRound_exec ran
  obtain ⟨rfl, stack⟩ := onicRxPacket_passes packet
  have longer : s.xdp.stack.length < (s.setXdp xdp).xdp.stack.length := by
    rw [show (s.setXdp xdp).xdp.stack = _ from stack, List.length_append]
    exact Nat.lt_succ_self _
  rcases next with ⟨stops, -⟩ | ⟨-, k, dma, given, after⟩
  · cases stops
  · refine ⟨rfl, pg, ⟨s.q.taken, dma⟩, ?_⟩
    rw [after, PfRxPoll.note, if_pos longer]
    rfl

theorem readCmpl_eq {s s' : PfRxPoll} {cmpl : C2hCmpl}
    (ran : Program.Exec (onicRxReadCmpl.comap (Subtype.val : PfRxInput.Granted → PfRxInput)) s cmpl s') :
    cmpl = qdmaUnpackC2hCmpl (s.q.cmplRing.desc s.q.cmplRing.nextToClean) ∧ s' = s :=
  Program.exec_comap_read.mp ran

theorem pf_loop {t pidx left work : Nat} {r : Nat × Bool} {cmpl : C2hCmpl} {s s' : PfRxPoll} (ready : RxReady R R' s.q)
    (small : R + onicRxDescStep < 65536) (is : cmpl = qdmaUnpackC2hCmpl (s.q.cmplRing.desc s.q.cmplRing.nextToClean))
    (ran : Program.Exec ((onicRxLoop t pidx left cmpl work).comap (Subtype.val : PfRxInput.Granted → PfRxInput)) s r s') :
    (r.1, s'.q.view) = s.q.view.drain R R' pidx s.q.entryLen (left + 1) work := by
  induction left generalizing work s cmpl with
  | zero =>
    rw [onicRxLoop, Program.comap_bind, Program.exec_bind] at ran
    obtain ⟨clean, _, looked, ran⟩ := ran
    obtain ⟨rfl, same⟩ := Program.exec_comap_read.mp looked
    rw [same] at ran
    by_cases last : s.q.cmplRing.nextToClean = pidx
    · rw [if_pos last] at ran
      obtain ⟨rfl, rfl⟩ := Program.exec_done.mp ran
      exact (if_pos last).symm
    · rw [if_neg last, Program.comap_bind, Program.exec_bind] at ran
      obtain ⟨goesOn, mid, body, ran⟩ := ran
      obtain ⟨rfl, pg, newPg, after⟩ := onicRxRound_packet body
      have round := pf_round ready small pg newPg cmpl
      rw [if_pos rfl] at ran
      obtain ⟨rfl, rfl⟩ := Program.exec_done.mp ran
      rw [after, round.view, is]
      exact (if_neg last).symm
  | succ left ih =>
    rw [onicRxLoop, Program.comap_bind, Program.exec_bind] at ran
    obtain ⟨clean, _, looked, ran⟩ := ran
    obtain ⟨rfl, same⟩ := Program.exec_comap_read.mp looked
    rw [same] at ran
    by_cases last : s.q.cmplRing.nextToClean = pidx
    · rw [if_pos last] at ran
      obtain ⟨rfl, rfl⟩ := Program.exec_done.mp ran
      exact (if_pos last).symm
    · rw [if_neg last, Program.comap_bind, Program.exec_bind] at ran
      obtain ⟨goesOn, mid, body, ran⟩ := ran
      obtain ⟨rfl, pg, newPg, after⟩ := onicRxRound_packet body
      have round := pf_round ready small pg newPg cmpl
      rw [← after] at round
      rw [if_pos rfl, Program.comap_bind, Program.exec_bind] at ran
      obtain ⟨next, _, looked, ran⟩ := ran
      obtain ⟨next_is, same⟩ := readCmpl_eq looked
      rw [same] at ran
      have rest := ih round.ready next_is ran
      have lens : mid.q.entryLen = s.q.entryLen := by
        funext i
        rw [RxQueue.entryLen, round.desc]
        rfl
      rw [rest, lens, round.view, is]
      exact (if_neg last).symm

theorem vf_poll {budget r : Nat} {q' : RxQueue} (ready : RxReady R R' q) (small : R < 65536) (small' : R' < 65536)
    (expected : RxExpected R' (qdmaUnpackC2hCmplStatPidx q.cmplRing.wb) budget q)
    (ran : Program.Exec ((onicVfRxPoll budget).comap (Subtype.val : RxInput.Granted → RxInput)) q r q') :
    (r, q'.view) = q.view.drain R R' (qdmaUnpackC2hCmplStatPidx q.cmplRing.wb) q.entryLen budget 0 := by
  rw [onicVfRxPoll, Program.comap_bind, Program.exec_bind] at ran
  obtain ⟨pidx, _, looked, ran⟩ := ran
  obtain ⟨rfl, same⟩ := Program.exec_comap_read.mp looked
  rw [same, Program.comap_bind, Program.exec_bind] at ran
  obtain ⟨work, mid, loop, ran⟩ := ran
  have drained := vf_loop ready small small' expected loop
  suffices same : r = work ∧ q'.view = mid.view by
    rw [same.1, same.2]
    exact drained
  split at ran
  · rw [Program.comap_bind, Program.exec_bind] at ran
    obtain ⟨complete, _, looked, ran⟩ := ran
    obtain ⟨_, looked⟩ := Program.exec_comap_access.mp looked
    simp only [Option.some.injEq, Prod.mk.injEq] at looked
    rw [← looked.2, Program.comap_bind, Program.exec_bind] at ran
    obtain ⟨_, _, tail, ran⟩ := ran
    obtain rfl := Program.exec_comap_modify.mp tail
    obtain ⟨rfl, rfl⟩ := Program.exec_done.mp ran
    exact ⟨rfl, rfl⟩
  · rw [Program.comap_bind, Program.exec_bind] at ran
    obtain ⟨_, _, tail, ran⟩ := ran
    obtain rfl := Program.exec_comap_modify.mp tail
    obtain ⟨rfl, rfl⟩ := Program.exec_done.mp ran
    exact ⟨rfl, rfl⟩

theorem pf_poll {t budget r : Nat} {s s' : PfRxPoll} (ready : RxReady R R' s.q) (small : R + onicRxDescStep < 65536)
    (some : 1 ≤ budget)
    (ran : Program.Exec ((onicRxPoll t budget).comap (Subtype.val : PfRxInput.Granted → PfRxInput)) s r s') :
    (r, s'.q.view) = s.q.view.drain R R' (qdmaUnpackC2hCmplStatPidx s.q.cmplRing.wb) s.q.entryLen budget 0 := by
  rw [onicRxPoll, Program.comap_bind, Program.exec_bind] at ran
  obtain ⟨cmpl, _, looked, ran⟩ := ran
  obtain ⟨is, same⟩ := readCmpl_eq looked
  rw [same, Program.comap_bind, Program.exec_bind] at ran
  obtain ⟨pidx, _, looked, ran⟩ := ran
  obtain ⟨rfl, same⟩ := Program.exec_comap_read.mp looked
  rw [same, Program.comap_bind, Program.exec_bind] at ran
  obtain ⟨⟨work, outOfBudget⟩, mid, loop, ran⟩ := ran
  have drained := pf_loop ready small is loop
  rw [Nat.sub_add_cancel some] at drained
  suffices same : r = work ∧ s'.q.view = mid.q.view by
    rw [same.1, same.2]
    exact drained
  simp only at ran
  split at ran
  · obtain ⟨rfl, rfl⟩ := Program.exec_done.mp ran
    exact ⟨rfl, rfl⟩
  · rw [Program.comap_bind, Program.exec_bind] at ran
    obtain ⟨_, _, tail, ran⟩ := ran
    obtain rfl := Program.exec_comap_modify.mp tail
    obtain ⟨rfl, rfl⟩ := Program.exec_done.mp ran
    refine ⟨rfl, ?_⟩
    split <;> rfl

theorem onicVfRxLoop_enabled (pidx left work : Nat) : (onicVfRxLoop pidx left work).Enabled := by
  induction left generalizing work with
  | zero => exact True.intro
  | succ left ih =>
    rw [onicVfRxLoop]
    refine .bind (.read _) fun clean => ?_
    split
    · exact True.intro
    · refine .bind (.read _) fun cmpl => .bind (.read _) fun invalid => ?_
      split
      · exact True.intro
      · refine .bind (.access fun input q => ?_) fun page => ?_
        · cases input.page <;> simp
        · cases page with
          | none => exact True.intro
          | some newPg =>
            refine .bind (.access fun _ _ => rfl) fun built => ?_
            split
            · exact .bind (.modify _) fun _ => .bind (.modify _) fun _ => ih (work + 1)
            · exact .bind (.modify _) fun _ => True.intro

theorem onicVfRxPoll_enabled (budget : Nat) : (onicVfRxPoll budget).Enabled := by
  rw [onicVfRxPoll]
  refine .bind (.read _) fun pidx => .bind (onicVfRxLoop_enabled pidx budget 0) fun work => ?_
  split
  · exact .bind (.access fun _ _ => rfl) fun _ => .bind (.modify _) fun _ => True.intro
  · exact .bind (.modify _) fun _ => True.intro

def PfRxInput.granted : PfRxInput.Granted := ⟨⟨some 0, ⟨none, none, 0, true, 0, ⟨0, none, false⟩⟩⟩, rfl, rfl, rfl⟩

theorem onicRxRound_finishes {s : PfRxPoll} (ready : RxReady R R' s.q) (t : Nat) (cmpl : C2hCmpl) :
    ((onicRxRound t cmpl).comap (Subtype.val : PfRxInput.Granted → PfRxInput)).Finishes s := by
  obtain ⟨pg, slot⟩ := ready.slots _ ready.descClean
  have here : (s.q.buffer s.q.descRing.nextToClean).pg = some pg := by rw [slot]
  have packet : Program.Exec ((onicRxPacket t ⟨pg.id, pg.dma⟩).comap fun i : PfRxInput.Granted => i.1.xdp) s.xdp true
      { s.xdp with stack := s.xdp.stack ++ [pg.id] } := .of_eval (i := PfRxInput.granted) rfl
  rw [onicRxRound, Program.comap_bind]
  refine .bind (Program.exec_comap_read.mpr ⟨rfl, rfl⟩) ?_
  rw [Program.comap_bind]
  refine .bind (Program.exec_comap_access.mpr ⟨PfRxInput.granted, by rw [here]; rfl⟩) ?_
  rw [Program.comap_bind]
  refine .bind (Program.exec_comap_read.mpr ⟨rfl, rfl⟩) ?_
  rw [Program.comap_bind, Program.comap_lift, Program.comap_comap]
  have lifted : Program.Exec (((onicRxPacket t ⟨pg.id, pg.dma⟩).comap fun i : PfRxInput.Granted => i.1.xdp).lift
      PfRxPoll.xdp PfRxPoll.setXdp) s true (s.setXdp { s.xdp with stack := s.xdp.stack ++ [pg.id] }) :=
    (Program.exec_lift xdp_lens).mpr ⟨packet, rfl⟩
  refine .bind lifted ?_
  rw [Program.comap_bind]
  refine .bind (Program.exec_comap_modify (u := ()).mpr rfl) ?_
  rw [if_pos rfl, Program.comap_bind]
  refine .bind (Program.exec_comap_access.mpr ⟨PfRxInput.granted, rfl⟩) ?_
  rw [Program.comap_bind]
  exact .bind (Program.exec_comap_modify (u := ()).mpr rfl) (.done _ _)

theorem onicRxLoop_finishes {t pidx left : Nat} {s : PfRxPoll} (ready : RxReady R R' s.q) (small : R + onicRxDescStep < 65536)
    (cmpl : C2hCmpl) (work : Nat) :
    ((onicRxLoop t pidx left cmpl work).comap (Subtype.val : PfRxInput.Granted → PfRxInput)).Finishes s := by
  induction left generalizing work s cmpl with
  | zero =>
    rw [onicRxLoop, Program.comap_bind]
    refine .bind (Program.exec_comap_read.mpr ⟨rfl, rfl⟩) ?_
    split
    · exact .done _ _
    · obtain ⟨goesOn, mid, body⟩ := onicRxRound_finishes ready t cmpl
      rw [Program.comap_bind]
      refine .bind body ?_
      split <;> exact .done _ _
  | succ left ih =>
    rw [onicRxLoop, Program.comap_bind]
    refine .bind (Program.exec_comap_read.mpr ⟨rfl, rfl⟩) ?_
    split
    · exact .done _ _
    · obtain ⟨goesOn, mid, body⟩ := onicRxRound_finishes ready t cmpl
      obtain ⟨rfl, pg, newPg, after⟩ := onicRxRound_packet body
      have round := pf_round ready small pg newPg cmpl
      rw [← after] at round
      rw [Program.comap_bind]
      refine .bind body ?_
      rw [if_pos rfl, Program.comap_bind]
      exact .bind (Program.exec_comap_read.mpr ⟨rfl, rfl⟩) (ih round.ready _ (work + 1))

theorem onicRxPoll_finishes {s : PfRxPoll} (ready : RxReady R R' s.q) (small : R + onicRxDescStep < 65536) (t budget : Nat) :
    ((onicRxPoll t budget).comap (Subtype.val : PfRxInput.Granted → PfRxInput)).Finishes s := by
  rw [onicRxPoll, Program.comap_bind]
  refine .bind (Program.exec_comap_read.mpr ⟨rfl, rfl⟩) ?_
  rw [Program.comap_bind]
  refine .bind (Program.exec_comap_read.mpr ⟨rfl, rfl⟩) ?_
  obtain ⟨⟨work, outOfBudget⟩, mid, loop⟩ := onicRxLoop_finishes (t := t) ready small _ _
  rw [Program.comap_bind]
  refine .bind loop ?_
  cases outOfBudget with
  | true => exact .done _ _
  | false =>
    simp only [Bool.false_eq_true, if_false]
    rw [Program.comap_bind]
    exact .bind (Program.exec_comap_modify (u := ()).mpr rfl) (.done _ _)

end

/-- Ring counts of the pool. -/
theorem rngcntPool_small {count : Nat} (mem : count ∈ rngcntPool) : 1 < count ∧ count ≤ 16384 := by
  rw [rngcntPool] at mem
  simp only [List.mem_cons, List.not_mem_nil, or_false] at mem
  omega

/-- The state that both polls start from. -/
structure RxStart (budget : Nat) (q : RxQueue) : Prop where
  descPool : q.descRing.count ∈ rngcntPool
  cmplPool : q.cmplRing.count ∈ rngcntPool
  descClean : q.descRing.nextToClean < q.descRing.count - 1
  descUse : q.descRing.nextToUse < q.descRing.count - 1
  cmplClean : q.cmplRing.nextToClean < q.cmplRing.count - 1
  slots : ∀ i < q.descRing.count - 1, ∃ pg, q.buffer i = ⟨some pg, xdpPacketHeadroom⟩
  expected : RxExpected (q.cmplRing.count - 1) (qdmaUnpackC2hCmplStatPidx q.cmplRing.wb) budget q

/-- Both polls come to their end and agree on the packets, the indices, the work and the doorbells. -/
theorem rx_polls_agree {q : RxQueue} {budget : Nat} (start : RxStart budget q) (some : 1 ≤ budget) (xdp : XdpRx) (t : Nat) :
    ((onicRxPoll t budget).comap (Subtype.val : PfRxInput.Granted → PfRxInput)).Finishes ⟨q, xdp⟩ ∧
    ((onicVfRxPoll budget).comap (Subtype.val : RxInput.Granted → RxInput)).Finishes q ∧
    ∀ work s work' q',
      Program.Exec ((onicRxPoll t budget).comap (Subtype.val : PfRxInput.Granted → PfRxInput)) ⟨q, xdp⟩ work s →
      Program.Exec ((onicVfRxPoll budget).comap (Subtype.val : RxInput.Granted → RxInput)) q work' q' →
      work = work' ∧ s.q.view = q'.view := by
  have desc := rngcntPool_small start.descPool
  have cmpl := rngcntPool_small start.cmplPool
  have ready : RxReady (q.descRing.count - 1) (q.cmplRing.count - 1) q := {
    descCount := by omega
    cmplCount := by omega
    descClean := start.descClean
    descUse := start.descUse
    cmplClean := start.cmplClean
    slots := start.slots }
  have small : q.descRing.count - 1 + onicRxDescStep < 65536 := by
    rw [onicRxDescStep]
    omega
  refine ⟨onicRxPoll_finishes ready small t budget, ((onicVfRxPoll_enabled budget).comap _).finishes q, ?_⟩
  intro work s work' q' pf vf
  have left := pf_poll ready small some pf
  have right := vf_poll ready (by omega) (by omega) start.expected vf
  exact Prod.mk.inj (left.trans right.symm)

/-- The last entry of one lap and the first of the next hold packets of 64 and 128 bytes. -/
def rxAcrossWrap : RxQueue where
  descRing := ⟨64, fun _ => 0, 5, 62, 0⟩
  cmplRing := ⟨64, fun i => if i = 62 then 0x4000000002 else if i = 63 then 1 else 0x8000000000, 0, 62, 1⟩
  buffer := fun i => ⟨some ⟨i, BitVec.ofNat 64 (pageSize * i)⟩, xdpPacketHeadroom⟩
  pidx := 5
  cidx := (62, true)
  taken := 63
  given := []
  returned := []
  rung := []

theorem rx_polls_agree_across_wrap : ∃ work s q',
    Program.Exec ((onicRxPoll 0 64).comap (Subtype.val : PfRxInput.Granted → PfRxInput))
      ⟨rxAcrossWrap, ⟨false, TxQueue.initial 4096, [], [], [], 0, 0, 0, 0, 0, 0⟩⟩ work s ∧
    Program.Exec ((onicVfRxPoll 64).comap (Subtype.val : RxInput.Granted → RxInput)) rxAcrossWrap work q' ∧
    s.q.view = q'.view ∧ q'.view.delivered = [(62, 64), (0, 128)] := by
  have expected : RxExpected 63 1 64 rxAcrossWrap := by
    intro k _ before
    match k with
    | 0 => decide
    | 1 => decide
    | k + 2 => exact absurd rfl (before 2 (by omega))
  have start : RxStart 64 rxAcrossWrap :=
    ⟨by decide, by decide, by decide, by decide, by decide, fun i _ => ⟨_, rfl⟩, expected⟩
  obtain ⟨⟨work, s, pf⟩, ⟨work', q', vf⟩, agree⟩ := rx_polls_agree start (by decide)
    ⟨false, TxQueue.initial 4096, [], [], [], 0, 0, 0, 0, 0, 0⟩ 0
  obtain ⟨rfl, same⟩ := agree work s work' q' pf vf
  have ready : RxReady 63 63 rxAcrossWrap := ⟨rfl, rfl, by decide, by decide, by decide, fun i _ => ⟨_, rfl⟩⟩
  have drained := congrArg (fun r => r.2.delivered) (vf_poll ready (by decide) (by decide) expected vf)
  exact ⟨work, s, q', pf, vf, same, drained.trans (by decide)⟩

end OpenNic
