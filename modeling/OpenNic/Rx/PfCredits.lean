import OpenNic.Common.Credits
import OpenNic.Rx.PfRuns

namespace OpenNic

/-- What `onic_init_rx_queue` does to the rings and buffers of a queue whose rings have these counts. -/
def onicInitRxQueueRingsOf (descCount cmplCount : Nat) : Program RxQueue (Option (BitVec 64)) Int := do
  .modify fun q => { q with descRing := ⟨descCount, fun _ => 0, 0, 0, 0⟩ }
  let rv ← .untilErr onicInitRxPage 0 (descCount - 1)
  if rv ≠ 0 then .done rv
  else
    .fold (fun i _ => onicInitRxDesc i) 0 (descCount - 1) ()
    .modify fun q => { q with cmplRing := ⟨cmplCount, fun _ => 0, 0, 0, 1⟩ }
    .modify fun q => { q.setRxHead onicRxDescStep with cidx := (0, true) }
    .done 0

theorem onicInitRxQueueRings_eq : onicInitRxQueueRings = onicInitRxQueueRingsOf onicRxRingCount onicRxRingCount := rfl

/-- The descriptors that the doorbell has told the hardware of. -/
def RxQueue.told (q : RxQueue) : Nat := Cyclic.told q.descRing.realCount 0 q.rung

/-- The completions that the status tells of and that are still to be received. -/
def RxQueue.pending (q : RxQueue) : Nat :=
  Cyclic.dist q.cmplRing.realCount q.cmplRing.nextToClean (qdmaUnpackC2hCmplStatPidx q.cmplRing.wb)

/-- A receive queue of the PF from its start on: the hardware has consumed `c` descriptors, never more
    than it has been told of, and `n` of their packets have been received. Whatever the transmit queue,
    the programs and the counters do meanwhile is `others`. -/
inductive PfRxReceives (descCount cmplCount : Nat) : Nat → Nat → PfRxPoll → Prop
  | init {q : RxQueue} {xdp : XdpRx} (ran : Program.Exec (onicInitRxQueueRingsOf descCount cmplCount) .kzalloc 0 q) :
      PfRxReceives descCount cmplCount 0 0 ⟨q, xdp⟩
  | hardware {c c' n : Nat} {s : PfRxPoll} (desc : Nat → BitVec 64) (run : PfRxReceives descCount cmplCount c n s)
      (further : c ≤ c') (published : c' ≤ s.q.told) :
      PfRxReceives descCount cmplCount c' n (s.setQ { s.q with cmplRing := { s.q.cmplRing with desc := desc } })
  | round {c n t : Nat} {s s' : PfRxPoll} {cmpl : C2hCmpl} {goesOn : Bool} (run : PfRxReceives descCount cmplCount c n s)
      (completed : n < c) (ran : Program.Exec (onicRxRound t cmpl) s goesOn s') :
      PfRxReceives descCount cmplCount c (if goesOn then n + 1 else n) s'
  | arm {c n : Nat} {s : PfRxPoll} (cidx : Nat × Bool) (run : PfRxReceives descCount cmplCount c n s) :
      PfRxReceives descCount cmplCount c n (s.setQ { s.q with cidx := cidx })
  | others {c n : Nat} {s : PfRxPoll} (xdp : XdpRx) (run : PfRxReceives descCount cmplCount c n s) :
      PfRxReceives descCount cmplCount c n (s.setXdp xdp)

/-- The rings of a queue of which `n` packets have been received: between half a step and one and a half
    of descriptors are outstanding. -/
structure PfRxCredited (R R' n : Nat) (q : RxQueue) : Prop where
  descCount : q.descRing.count = R + 1
  cmplCount : q.cmplRing.count = R' + 1
  credits : Cyclic.Credits R q.rung q.descRing.nextToUse q.descRing.nextToClean n
  low : onicRxDescStep / 2 ≤ Cyclic.dist R q.descRing.nextToClean q.descRing.nextToUse
  high : Cyclic.dist R q.descRing.nextToClean q.descRing.nextToUse < onicRxDescStep / 2 + onicRxDescStep

section

variable {R R' c n : Nat} {q q' : RxQueue} {s s' : PfRxPoll}

namespace PfRxCredited

theorem descReal (credited : PfRxCredited R R' n q) : q.descRing.realCount = R := by
  rw [RxRing.realCount, credited.descCount, Nat.add_sub_cancel]

theorem cmplReal (credited : PfRxCredited R R' n q) : q.cmplRing.realCount = R' := by
  rw [RxRing.realCount, credited.cmplCount, Nat.add_sub_cancel]

theorem told (credited : PfRxCredited R R' n q) :
    q.told = n + Cyclic.dist R q.descRing.nextToClean q.descRing.nextToUse := by
  rw [RxQueue.told, credited.descReal]
  exact credited.credits.outstanding

/-- What is not of the descriptor ring may change. -/
theorem of_same (credited : PfRxCredited R R' n q) (desc : q'.descRing.count = q.descRing.count)
    (cmpl : q'.cmplRing.count = q.cmplRing.count) (use : q'.descRing.nextToUse = q.descRing.nextToUse)
    (clean : q'.descRing.nextToClean = q.descRing.nextToClean) (rung : q'.rung = q.rung) : PfRxCredited R R' n q' where
  descCount := desc.trans credited.descCount
  cmplCount := cmpl.trans credited.cmplCount
  credits := by
    rw [use, clean, rung]
    exact credited.credits
  low := by
    rw [use, clean]
    exact credited.low
  high := by
    rw [use, clean]
    exact credited.high

/-- One packet: the tail goes on by one, and the head by a step where less than half of one is left. -/
theorem advance (credited : PfRxCredited R R' n q) (room : onicRxDescStep / 2 + onicRxDescStep ≤ R)
    (small : R + onicRxDescStep < 65536) (cmpl : C2hCmpl) : PfRxCredited R R' (n + 1) (q.onicRxAdvance cmpl) := by
  have clean := credited.credits.clean_lt
  have low := credited.low
  have high := credited.high
  have half : onicRxDescStep / 2 = 128 := rfl
  have whole : onicRxDescStep = 256 := rfl
  obtain ⟨color, is⟩ := RxQueue.onicRxAdvance_eq credited.descReal credited.cmplReal clean credited.credits.use_lt small cmpl
  rw [is]
  have received := credited.credits.receive (by omega)
  have fewer := credited.credits.dist_receive (by omega)
  rw [RxQueue.credit]
  split
  · rename_i less
    have near : Cyclic.dist R ((q.descRing.nextToClean + 1) % R) q.descRing.nextToUse < onicRxDescStep / 2 := less
    have fits : Cyclic.dist R ((q.descRing.nextToClean + 1) % R) q.descRing.nextToUse + onicRxDescStep < R := by omega
    have more := received.dist_refill fits
    refine ⟨credited.descCount, credited.cmplCount, received.refill fits, ?_, ?_⟩
    · exact more ▸ (show onicRxDescStep / 2 ≤ onicRxDescStep by decide).trans (Nat.le_add_left _ _)
    · exact more ▸ Nat.add_lt_add_right near onicRxDescStep
  · rename_i enough
    have near : Cyclic.dist R ((q.descRing.nextToClean + 1) % R) q.descRing.nextToUse <
        onicRxDescStep / 2 + onicRxDescStep := by omega
    exact ⟨credited.descCount, credited.cmplCount, received, Nat.not_lt.mp enough, near⟩

/-- A round ends the poll and leaves the descriptor ring, or it puts a new page in the slot and goes on. -/
theorem round_cases (credited : PfRxCredited R R' n s.q) {t : Nat} {cmpl : C2hCmpl} {goesOn : Bool}
    (ran : Program.Exec (onicRxRound t cmpl) s goesOn s') :
    goesOn = false ∧ PfRxCredited R R' n s'.q ∧ s'.q.told = s.q.told ∨
      goesOn = true ∧ ∃ refilled, PfRxCredited R R' n refilled ∧ refilled.told = s.q.told ∧
        s'.q = refilled.onicRxAdvance cmpl := by
  have input : Nonempty PfRxInput := ⟨PfRxInput.granted.1⟩
  rw [← Program.comap_id (onicRxRound t cmpl)] at ran
  obtain ⟨pg, xdp, -, -, next⟩ := onicRxRound_exec ran
  obtain ⟨given, noted⟩ := note_keeps s.q.descRing.nextToClean pg cmpl.pktLen s.xdp.stack.length (s.setXdp xdp)
  simp only [noted] at next
  rcases next with ⟨rfl, rfl⟩ | ⟨rfl, k, dma, -, rfl⟩
  · exact .inl ⟨rfl, credited.of_same rfl rfl rfl rfl rfl, rfl⟩
  · let refilled := ({ s.q with given := given } : RxQueue).onicRxPageRefill ⟨s.q.taken, dma⟩
    have same : PfRxCredited R R' n refilled := credited.of_same rfl rfl rfl rfl rfl
    exact .inr ⟨rfl, refilled, same, rfl, rfl⟩

theorem round (credited : PfRxCredited R R' n s.q) (room : onicRxDescStep / 2 + onicRxDescStep ≤ R)
    (small : R + onicRxDescStep < 65536) {t : Nat} {cmpl : C2hCmpl} {goesOn : Bool}
    (ran : Program.Exec (onicRxRound t cmpl) s goesOn s') : PfRxCredited R R' (if goesOn then n + 1 else n) s'.q := by
  rcases credited.round_cases ran with ⟨rfl, kept, -⟩ | ⟨rfl, refilled, kept, -, is⟩
  · exact kept
  · rw [is]
    exact kept.advance room small cmpl

end PfRxCredited

/-- What filling the rings leaves as it is. -/
structure RingsKept (q q' : RxQueue) : Prop where
  count : q'.descRing.count = q.descRing.count
  clean : q'.descRing.nextToClean = q.descRing.nextToClean
  rung : q'.rung = q.rung

theorem RingsKept.refl (q : RxQueue) : RingsKept q q := ⟨rfl, rfl, rfl⟩

theorem RingsKept.trans (a b c : RxQueue) (h : RingsKept a b) (h' : RingsKept b c) : RingsKept a c :=
  ⟨h'.count.trans h.count, h'.clean.trans h.clean, h'.rung.trans h.rung⟩

theorem onicInitRxPage_rings (i : Nat) : (onicInitRxPage i).Steps RingsKept := by
  apply Program.Steps.bind (.access ?_)
  · intro page
    cases page with
    | none => trivial
    | some dma => exact .bind (.modify fun q => ⟨rfl, rfl, rfl⟩) fun _ => trivial
  · intro _ q page q' looked
    cases looked
    exact .refl q

theorem onicInitRxDesc_rings (i : Nat) : (onicInitRxDesc i).Steps RingsKept := by
  apply Program.Steps.modify
  intro q
  split <;> exact ⟨rfl, rfl, rfl⟩

/-- What the set-up that succeeds leaves of a queue that is otherwise as `kzalloc` has made it. -/
theorem onicInitRxQueueRingsOf_exec {descCount cmplCount : Nat}
    (ran : Program.Exec (onicInitRxQueueRingsOf descCount cmplCount) .kzalloc 0 q) :
    ∃ filled, RingsKept { RxQueue.kzalloc with descRing := ⟨descCount, fun _ => 0, 0, 0, 0⟩ } filled ∧
      q = { ({ filled with cmplRing := ⟨cmplCount, fun _ => 0, 0, 0, 1⟩ } : RxQueue).setRxHead onicRxDescStep with cidx := (0, true) } := by
  have input : Nonempty (Option (BitVec 64)) := ⟨none⟩
  obtain ⟨_, ringed, ring, ran⟩ := Program.exec_bind.mp ran
  obtain rfl := Program.exec_modify.mp ring
  obtain ⟨rv, paged, pages, ran⟩ := Program.exec_bind.mp ran
  by_cases failed : rv ≠ 0
  · rw [if_pos failed] at ran
    exact absurd (Program.exec_done.mp ran).1.symm failed
  · rw [if_neg failed] at ran
    obtain ⟨_, addressed, descs, ran⟩ := Program.exec_bind.mp ran
    obtain ⟨_, _, cmpl, ran⟩ := Program.exec_bind.mp ran
    obtain rfl := Program.exec_modify.mp cmpl
    obtain ⟨_, _, head, ran⟩ := Program.exec_bind.mp ran
    obtain rfl := Program.exec_modify.mp head
    have filled := (Program.Steps.untilErr onicInitRxPage_rings _ _).exec RingsKept.refl RingsKept.trans pages
    have described := (Program.Steps.fold (fun i _ => onicInitRxDesc_rings i) _ _ _).exec RingsKept.refl RingsKept.trans descs
    exact ⟨addressed, RingsKept.trans _ _ _ filled described, (Program.exec_done.mp ran).2⟩

/-- The queue starts with one step of descriptors. -/
theorem onicInitRxQueueRingsOf_credited (room : onicRxDescStep < R)
    (ran : Program.Exec (onicInitRxQueueRingsOf (R + 1) (R' + 1)) .kzalloc 0 q) : PfRxCredited R R' 0 q := by
  obtain ⟨filled, kept, rfl⟩ := onicInitRxQueueRingsOf_exec ran
  have clean : filled.descRing.nextToClean = 0 := kept.clean
  have rung : filled.rung = [] := kept.rung
  have fits : Cyclic.dist R 0 0 + onicRxDescStep < R := by rwa [Cyclic.dist_self, Nat.zero_add]
  have started := Cyclic.Credits.start (R := R) (by omega)
  have credits := started.refill fits
  have far := started.dist_refill fits
  rw [Nat.zero_add, Nat.mod_eq_of_lt room] at credits far
  rw [Cyclic.dist_self, Nat.zero_add] at far
  refine ⟨kept.count, rfl, ?_, ?_, ?_⟩
  · simp only [RxQueue.setRxHead, clean, rung]
    exact credits
  · simp only [RxQueue.setRxHead, clean, far]
    omega
  · simp only [RxQueue.setRxHead, clean, far]
    decide

theorem onicInitRxQueueRingsOf_cmplClean {descCount cmplCount : Nat}
    (ran : Program.Exec (onicInitRxQueueRingsOf descCount cmplCount) .kzalloc 0 q) : q.cmplRing.nextToClean = 0 := by
  obtain ⟨filled, -, rfl⟩ := onicInitRxQueueRingsOf_exec ran
  rfl

theorem PfRxCredited.told_le (credited : PfRxCredited R R' n q) (small : R + onicRxDescStep < 65536) (cmpl : C2hCmpl) :
    q.told ≤ (q.onicRxAdvance cmpl).told := by
  obtain ⟨color, is⟩ := RxQueue.onicRxAdvance_eq credited.descReal credited.cmplReal credited.credits.clean_lt
    credited.credits.use_lt small cmpl
  rw [is, RxQueue.credit]
  split
  · rw [RxQueue.told, RxQueue.told, RxQueue.setRxHead]
    simp only
    rw [Cyclic.told_concat]
    exact Nat.le_add_right _ _
  · exact Nat.le_refl _

theorem PfRxCredited.round_told (credited : PfRxCredited R R' n s.q) (small : R + onicRxDescStep < 65536) {t : Nat}
    {cmpl : C2hCmpl} {goesOn : Bool} (ran : Program.Exec (onicRxRound t cmpl) s goesOn s') : s.q.told ≤ s'.q.told := by
  rcases credited.round_cases ran with ⟨rfl, -, same⟩ | ⟨rfl, refilled, kept, same, is⟩
  · exact same.ge
  · rw [is, ← same]
    exact kept.told_le small cmpl

/-- The induction is on the run; a packet is received only once its descriptor is consumed. -/
theorem PfRxReceives.credited (room : onicRxDescStep / 2 + onicRxDescStep ≤ R) (small : R + onicRxDescStep < 65536)
    (run : PfRxReceives (R + 1) (R' + 1) c n s) : PfRxCredited R R' n s.q ∧ n ≤ c ∧ c ≤ s.q.told := by
  have step : onicRxDescStep < R := by
    have half : onicRxDescStep / 2 = 128 := rfl
    omega
  induction run with
  | init ran =>
    exact ⟨onicInitRxQueueRingsOf_credited step ran, Nat.le_refl _, Nat.zero_le _⟩
  | hardware desc run further published ih =>
    rcases ih with ⟨credited, received, -⟩
    exact ⟨credited.of_same rfl rfl rfl rfl rfl, received.trans further, published⟩
  | @round c n t s s' cmpl goesOn run completed ran ih =>
    rcases ih with ⟨credited, -, published⟩
    refine ⟨credited.round room small ran, ?_, published.trans (credited.round_told small ran)⟩
    cases goesOn with
    | true => exact completed
    | false => exact Nat.le_of_lt completed
  | arm cidx run ih =>
    rcases ih with ⟨credited, consumed⟩
    exact ⟨credited.of_same rfl rfl rfl rfl rfl, consumed⟩
  | others xdp run ih => exact ih

theorem PfRxReceives.cmplClean (room : onicRxDescStep / 2 + onicRxDescStep ≤ R) (small : R + onicRxDescStep < 65536)
    (some : 0 < R') (run : PfRxReceives (R + 1) (R' + 1) c n s) : s.q.cmplRing.nextToClean < R' := by
  induction run with
  | init ran =>
    have start := onicInitRxQueueRingsOf_cmplClean ran
    rw [start]
    exact some
  | hardware desc run further published ih => exact ih
  | round run completed ran ih =>
    have input : Nonempty PfRxInput := ⟨PfRxInput.granted.1⟩
    have turned := onicRxRound_turned (Program.comap_id (onicRxRound _ _) ▸ ran)
    rw [turned.clean, (run.credited room small).1.cmplReal]
    split
    · exact Nat.mod_lt _ some
    · exact ih
  | arm cidx run ih => exact ih
  | others xdp run ih => exact ih

/-- The loop of a poll is a run of such rounds where the status tells only of what the hardware has
    consumed. The induction is on the budget that is left. -/
theorem PfRxReceives.loop {t pidx left work : Nat} {cmpl : C2hCmpl} {r : Nat × Bool}
    (room : onicRxDescStep / 2 + onicRxDescStep ≤ R) (small : R + onicRxDescStep < 65536) (known : pidx < R')
    (run : PfRxReceives (R + 1) (R' + 1) c n s) (tells : n + Cyclic.dist R' s.q.cmplRing.nextToClean pidx ≤ c)
    (ran : Program.Exec (onicRxLoop t pidx left cmpl work) s r s') :
    ∃ n', n ≤ n' ∧ PfRxReceives (R + 1) (R' + 1) c n' s' := by
  have input : Nonempty PfRxInput := ⟨PfRxInput.granted.1⟩
  have some : 0 < R' := Nat.zero_lt_of_lt known
  have next {s mid : PfRxPoll} {n : Nat} {cmpl : C2hCmpl} {goesOn : Bool} (run : PfRxReceives (R + 1) (R' + 1) c n s)
      (tells : n + Cyclic.dist R' s.q.cmplRing.nextToClean pidx ≤ c) (more : s.q.cmplRing.nextToClean ≠ pidx)
      (round : Program.Exec (onicRxRound t cmpl) s goesOn mid) :
      PfRxReceives (R + 1) (R' + 1) c (if goesOn then n + 1 else n) mid ∧
        (goesOn = true → n + 1 + Cyclic.dist R' mid.q.cmplRing.nextToClean pidx ≤ c) := by
    have clean := run.cmplClean room small some
    have apart := Cyclic.dist_of_lt clean known
    have pending : 0 < Cyclic.dist R' s.q.cmplRing.nextToClean pidx := by
      rw [apart]
      split <;> omega
    refine ⟨run.round (by omega) round, ?_⟩
    rintro rfl
    have turned := onicRxRound_turned (Program.comap_id (onicRxRound t cmpl) ▸ round)
    have fewer := Cyclic.dist_next clean known more
    rw [turned.clean, if_pos rfl, (run.credited room small).1.cmplReal]
    omega
  induction left generalizing work s cmpl n with
  | zero =>
    rw [onicRxLoop, Program.exec_bind] at ran
    obtain ⟨clean, _, looked, ran⟩ := ran
    rcases Program.exec_read.mp looked with ⟨rfl, same⟩
    rw [same] at ran
    by_cases last : s.q.cmplRing.nextToClean = pidx
    · rw [if_pos last] at ran
      rw [(Program.exec_done.mp ran).2]
      exact ⟨n, Nat.le_refl _, run⟩
    · rw [if_neg last, Program.exec_bind] at ran
      obtain ⟨goesOn, mid, round, ran⟩ := ran
      have after := (next run tells last round).1
      cases goesOn <;> rw [(Program.exec_done.mp ran).2]
      · exact ⟨n, Nat.le_refl _, after⟩
      · exact ⟨n + 1, Nat.le_succ _, after⟩
  | succ left ih =>
    rw [onicRxLoop, Program.exec_bind] at ran
    obtain ⟨clean, _, looked, ran⟩ := ran
    rcases Program.exec_read.mp looked with ⟨rfl, same⟩
    rw [same] at ran
    by_cases last : s.q.cmplRing.nextToClean = pidx
    · rw [if_pos last] at ran
      rw [(Program.exec_done.mp ran).2]
      exact ⟨n, Nat.le_refl _, run⟩
    · rw [if_neg last, Program.exec_bind] at ran
      obtain ⟨goesOn, mid, round, ran⟩ := ran
      have after := next run tells last round
      cases goesOn with
      | true =>
        rw [if_pos rfl, Program.exec_bind] at ran
        obtain ⟨cmpl', _, looked, ran⟩ := ran
        rcases Program.exec_read.mp looked with ⟨rfl, same⟩
        rw [same] at ran
        obtain ⟨n', further, last⟩ := ih after.1 (after.2 rfl) ran
        exact ⟨n', (Nat.le_succ n).trans further, last⟩
      | false =>
        rw [(Program.exec_done.mp ran).2]
        exact ⟨n, Nat.le_refl _, after.1⟩

/-- A poll is a run of rounds. -/
theorem PfRxReceives.poll {t budget work : Nat} (room : onicRxDescStep / 2 + onicRxDescStep ≤ R)
    (small : R + onicRxDescStep < 65536) (run : PfRxReceives (R + 1) (R' + 1) c n s)
    (known : qdmaUnpackC2hCmplStatPidx s.q.cmplRing.wb < R') (tells : n + s.q.pending ≤ c)
    (ran : Program.Exec (onicRxPoll t budget) s work s') : ∃ n', n ≤ n' ∧ PfRxReceives (R + 1) (R' + 1) c n' s' := by
  have input : Nonempty PfRxInput := ⟨PfRxInput.granted.1⟩
  rw [RxQueue.pending, (run.credited room small).1.cmplReal] at tells
  rw [onicRxPoll, Program.exec_bind] at ran
  obtain ⟨cmpl, _, looked, ran⟩ := ran
  rcases Program.exec_read.mp looked with ⟨rfl, same⟩
  rw [same, Program.exec_bind] at ran
  obtain ⟨pidx, _, looked, ran⟩ := ran
  rcases Program.exec_read.mp looked with ⟨rfl, same⟩
  rw [same, Program.exec_bind] at ran
  obtain ⟨⟨done, outOfBudget⟩, mid, loop, ran⟩ := ran
  obtain ⟨n', further, after⟩ := run.loop room small known tells loop
  refine ⟨n', further, ?_⟩
  cases outOfBudget with
  | true =>
    rw [(Program.exec_done.mp ran).2]
    exact after
  | false =>
    simp only [Bool.false_eq_true, if_false] at ran
    obtain ⟨_, _, tail, ran⟩ := Program.exec_bind.mp ran
    obtain rfl := Program.exec_modify.mp tail
    rw [(Program.exec_done.mp ran).2]
    split
    · exact after.arm _
    · exact after

end

/-- The descriptors of a queue after `n` packets, of which the hardware has consumed `c`. -/
structure RxAccounted (R n c : Nat) (q : RxQueue) : Prop where
  outstanding : q.told = n + Cyclic.dist R q.descRing.nextToClean q.descRing.nextToUse
  low : 128 ≤ Cyclic.dist R q.descRing.nextToClean q.descRing.nextToUse
  high : Cyclic.dist R q.descRing.nextToClean q.descRing.nextToUse ≤ 383
  use : q.descRing.nextToUse < R
  clean : q.descRing.nextToClean < R
  consumed : n ≤ c ∧ c ≤ q.told
  /-- The slot of a published descriptor is not published again before it has been consumed. -/
  once : ∀ k k', k < k' → k' < q.told → k % R = k' % R → k < n

theorem pf_rx_credits {R R' c n : Nat} {s : PfRxPoll} (low : 384 ≤ R) (high : R ≤ 16383)
    (run : PfRxReceives (R + 1) (R' + 1) c n s) : RxAccounted R n c s.q := by
  have half : onicRxDescStep / 2 = 128 := rfl
  have whole : onicRxDescStep = 256 := rfl
  obtain ⟨credited, received, published⟩ := run.credited (by omega) (by omega)
  have least := credited.low
  have most := credited.high
  have told := credited.descReal
  refine ⟨credited.told, by omega, by omega, credited.credits.use_lt, credited.credits.clean_lt, ⟨received, published⟩, ?_⟩
  intro k k' later within same
  rw [RxQueue.told, told] at within
  exact credited.credits.once later within same

/-- A queue of 1024 descriptors after its first packet. -/
theorem pf_rx_credits_one_packet : ∃ s, PfRxReceives 1024 1024 1 1 s ∧ RxAccounted 1023 1 1 s.q := by
  obtain ⟨q, ran, -, -⟩ := pfRxStarts
  let s : PfRxPoll := ⟨q, ⟨false, TxQueue.initial 4096, [], [], [], 0, 0, 0, 0, 0, 0⟩⟩
  have started : PfRxReceives 1024 1024 0 0 s := .init ran
  have kept : PfRxKept 1023 1023 s := (PfRxRuns.init ran rfl).kept
  have posted : 1 ≤ s.q.told := by
    have credited : PfRxCredited 1023 1023 0 s.q := onicInitRxQueueRingsOf_credited (by decide) ran
    have least := credited.low
    have half : onicRxDescStep / 2 = 128 := rfl
    rw [credited.told]
    omega
  have consumed := started.hardware s.q.cmplRing.desc (Nat.zero_le 1) posted
  obtain ⟨s', round, -⟩ := onicRxRound_builds kept.ready 0 ⟨1, 0, 64⟩
  have received : PfRxReceives 1024 1024 1 1 s' := consumed.round Nat.one_pos round
  exact ⟨s', received, pf_rx_credits (by decide) (by decide) received⟩

end OpenNic
