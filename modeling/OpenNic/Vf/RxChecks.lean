import OpenNic.Rx.PollAgreement
import OpenNic.Vf.RxPages

namespace OpenNic

/-- Both rings have gone on by the number of entries that the poll has returned, and that is
    not none. -/
structure VfRxAdvances (work : Nat) (q q' : RxQueue) : Prop where
  some : 0 < work
  cmpl : q'.cmplRing.nextToClean = (q.cmplRing.nextToClean + work) % vfRxSlots
  desc : q'.descRing.nextToClean = (q.descRing.nextToClean + work) % vfRxSlots

/-- The rings of `q'` are `k` entries further than those of `q`. -/
structure RxForward (k : Nat) (q q' : RxQueue) : Prop where
  cmpl : q'.cmplRing.nextToClean = (q.cmplRing.nextToClean + k) % vfRxSlots
  desc : q'.descRing.nextToClean = (q.descRing.nextToClean + k) % vfRxSlots

section

variable {q q' : RxQueue}

theorem RxForward.refl (full : RxFull q) : RxForward 0 q q := by
  refine ⟨?_, ?_⟩
  · exact (Nat.mod_eq_of_lt full.cmplClean).symm
  · exact (Nat.mod_eq_of_lt full.clean).symm

theorem RxForward.trans {i k : Nat} {mid : RxQueue} (first : RxForward i q mid) (second : RxForward k mid q') :
    RxForward (i + k) q q' := by
  refine ⟨?_, ?_⟩
  · rw [second.cmpl, first.cmpl, Nat.mod_add_mod, Nat.add_assoc]
  · rw [second.desc, first.desc, Nat.mod_add_mod, Nat.add_assoc]

/-- One packet. -/
theorem RxFull.forward (full : RxFull q) (len : Nat) (pg : RxPage) (taken : Nat) :
    RxForward 1 q (({ q with taken := taken } : RxQueue).deliver len pg).refillCredit := by
  have real : (q.descRing.setDesc q.descRing.nextToClean pg.dstAddr).realCount = vfRxSlots := full.descReal
  let delivered := ({ q with taken := taken } : RxQueue).deliver len pg
  have credit : delivered.refillCredit.cmplRing = delivered.cmplRing ∧
      delivered.refillCredit.descRing.nextToClean = delivered.descRing.nextToClean := by
    unfold RxQueue.refillCredit
    split
    · exact ⟨rfl, rfl⟩
    · exact ⟨rfl, rfl⟩
  rcases deliver_cmplRing { q with taken := taken } len pg with ⟨color, cmpl⟩
  refine ⟨?_, ?_⟩
  · rw [credit.1, cmpl]
    exact incrementClean_lt full.cmplReal full.cmplClean
  · rw [credit.2]
    exact incrementClean_lt real full.clean

/-- What one round of the loop does when every allocation succeeds. -/
inductive VfRound (pidx left work : Nat) (q : RxQueue) (w : Nat) (q' : RxQueue) : Prop
  | drained (last : q.cmplRing.nextToClean = pidx) (work_eq : w = work) (same : q' = q)
  | invalid (more : q.cmplRing.nextToClean ≠ pidx)
      (bad : (qdmaUnpackC2hCmpl (q.cmplRing.desc q.cmplRing.nextToClean)).Invalid q.cmplRing.color
        (q.buffer q.descRing.nextToClean)) (work_eq : w = work) (same : q' = q)
  | packet (more : q.cmplRing.nextToClean ≠ pidx)
      (good : ¬ (qdmaUnpackC2hCmpl (q.cmplRing.desc q.cmplRing.nextToClean)).Invalid q.cmplRing.color
        (q.buffer q.descRing.nextToClean)) (len : Nat) (pg : RxPage)
      (rest : Program.Exec ((onicVfRxLoop pidx left (work + 1)).comap (Subtype.val : RxInput.Granted → RxInput))
        (({ q with taken := q.taken + 1 } : RxQueue).deliver len pg).refillCredit w q')

theorem vf_round_cases {pidx left work w : Nat}
    (ran : Program.Exec ((onicVfRxLoop pidx (left + 1) work).comap (Subtype.val : RxInput.Granted → RxInput)) q w q') :
    VfRound pidx left work q w q' := by
  rw [onicVfRxLoop, Program.comap_bind, Program.exec_bind] at ran
  rcases ran with ⟨clean, _, looked, ran⟩
  rcases Program.exec_comap_read.mp looked with ⟨rfl, same⟩
  rw [same] at ran
  by_cases last : q.cmplRing.nextToClean = pidx
  · rw [if_pos last] at ran
    rcases Program.exec_done.mp ran with ⟨work_eq, same⟩
    exact .drained last work_eq same
  · rw [if_neg last, Program.comap_bind, Program.exec_bind] at ran
    rcases ran with ⟨cmpl, _, looked, ran⟩
    rcases Program.exec_comap_read.mp looked with ⟨rfl, same⟩
    rw [same, Program.comap_bind, Program.exec_bind] at ran
    rcases ran with ⟨invalid, _, looked, ran⟩
    rcases Program.exec_comap_read.mp looked with ⟨rfl, same⟩
    rw [same] at ran
    by_cases bad : (qdmaUnpackC2hCmpl (q.cmplRing.desc q.cmplRing.nextToClean)).Invalid q.cmplRing.color
        (q.buffer q.descRing.nextToClean)
    · rw [decide_eq_true bad, if_pos rfl] at ran
      rcases Program.exec_done.mp ran with ⟨work_eq, same⟩
      exact .invalid last bad work_eq same
    · rw [decide_eq_false bad, if_neg Bool.false_ne_true, Program.comap_bind, Program.exec_bind] at ran
      rcases ran with ⟨page, taken, alloc, ran⟩
      rcases Program.exec_comap_access.mp alloc with ⟨⟨input, granted, built⟩, alloc⟩
      rcases Option.isSome_iff_exists.mp granted with ⟨dma, given⟩
      simp only [given, Option.some.injEq, Prod.mk.injEq] at alloc
      rcases alloc with ⟨rfl, rfl⟩
      simp only at ran
      rw [Program.comap_bind, Program.exec_bind] at ran
      rcases ran with ⟨skb, _, looked, ran⟩
      rcases Program.exec_comap_access.mp looked with ⟨⟨input, granted, built⟩, looked⟩
      simp only [built, Option.some.injEq, Prod.mk.injEq] at looked
      rcases looked with ⟨rfl, rfl⟩
      rw [if_pos rfl, Program.comap_bind, Program.exec_bind] at ran
      rcases ran with ⟨_, delivered, moved, ran⟩
      rw [Program.exec_comap_modify.mp moved, Program.comap_bind, Program.exec_bind] at ran
      rcases ran with ⟨_, refilled, credit, ran⟩
      rw [Program.exec_comap_modify.mp credit] at ran
      exact .packet last bad _ _ ran

/-- The induction is on the budget that is left. -/
theorem vf_loop_forward {pidx left work w : Nat} (full : RxFull q)
    (ran : Program.Exec ((onicVfRxLoop pidx left work).comap (Subtype.val : RxInput.Granted → RxInput)) q w q') :
    ∃ k, w = work + k ∧ RxForward k q q' := by
  induction left generalizing work q with
  | zero =>
    rcases Program.exec_done.mp ran with ⟨rfl, rfl⟩
    exact ⟨0, rfl, .refl full⟩
  | succ left ih =>
    cases vf_round_cases ran with
    | drained _ work_eq same =>
      rw [same]
      exact ⟨0, work_eq, .refl full⟩
    | invalid _ _ work_eq same =>
      rw [same]
      exact ⟨0, work_eq, .refl full⟩
    | packet _ _ len pg rest =>
      have taken : RxFull { q with taken := q.taken + 1 } := full.same rfl rfl rfl rfl
      rcases ih (taken.deliver len pg).refillCredit rest with ⟨k, work_eq, forward⟩
      exact ⟨1 + k, by omega, (full.forward len pg _).trans forward⟩

/-- The end of a poll leaves the indices where they are. -/
theorem vf_poll_rings {budget w : Nat}
    (ran : Program.Exec ((onicVfRxPoll budget).comap (Subtype.val : RxInput.Granted → RxInput)) q w q') :
    ∃ mid, Program.Exec ((onicVfRxLoop (qdmaUnpackC2hCmplStatPidx q.cmplRing.wb) budget 0).comap
        (Subtype.val : RxInput.Granted → RxInput)) q w mid ∧
      q'.cmplRing = mid.cmplRing ∧ q'.descRing = mid.descRing := by
  rw [onicVfRxPoll, Program.comap_bind, Program.exec_bind] at ran
  rcases ran with ⟨pidx, _, looked, ran⟩
  rcases Program.exec_comap_read.mp looked with ⟨rfl, same⟩
  rw [same, Program.comap_bind, Program.exec_bind] at ran
  rcases ran with ⟨work, mid, loop, ran⟩
  refine ⟨mid, ?_⟩
  split at ran
  · rw [Program.comap_bind, Program.exec_bind] at ran
    rcases ran with ⟨complete, _, looked, ran⟩
    rcases Program.exec_comap_access.mp looked with ⟨input, looked⟩
    simp only [Option.some.injEq, Prod.mk.injEq] at looked
    rcases looked with ⟨rfl, rfl⟩
    rw [Program.comap_bind, Program.exec_bind] at ran
    rcases ran with ⟨_, last, tail, ran⟩
    rcases Program.exec_done.mp ran with ⟨rfl, rfl⟩
    have armed := Program.exec_comap_modify.mp tail
    rw [armed]
    exact ⟨loop, rfl, rfl⟩
  · rw [Program.comap_bind, Program.exec_bind] at ran
    rcases ran with ⟨_, last, tail, ran⟩
    rcases Program.exec_done.mp ran with ⟨rfl, rfl⟩
    have armed := Program.exec_comap_modify.mp tail
    rw [armed]
    exact ⟨loop, rfl, rfl⟩

/-- An entry of the expected colour is not accepted if it has an error, no length, or a length that
    does not fit behind the headroom. -/
theorem invalid_iff {cmpl : C2hCmpl} {color : BitVec 8} (pg : Option RxPage) (same : cmpl.color = color) :
    ¬ cmpl.Invalid color ⟨pg, xdpPacketHeadroom⟩ ↔
      cmpl.err = 0 ∧ 0 < cmpl.pktLen ∧ cmpl.pktLen ≤ pageSize - xdpPacketHeadroom := by
  unfold C2hCmpl.Invalid
  constructor
  · intro good
    have positive : cmpl.pktLen ≠ 0 := fun zero => good (.inr (.inr (.inl zero)))
    have fits : ¬ cmpl.pktLen > pageSize - xdpPacketHeadroom := fun long => good (.inr (.inr (.inr long)))
    have noErr : cmpl.err = 0 := by
      by_contra err
      exact good (.inr (.inl err))
    exact ⟨noErr, by omega, by omega⟩
  · rintro ⟨noErr, positive, fits⟩ (other | err | zero | long)
    · exact other same
    · exact err noErr
    · omega
    · have bound : cmpl.pktLen > pageSize - xdpPacketHeadroom := long
      omega

theorem vf_poll_advances (full : RxFull q) {budget w : Nat} (positive : 0 < budget)
    (pending : q.cmplRing.nextToClean ≠ qdmaUnpackC2hCmplStatPidx q.cmplRing.wb)
    (color : (qdmaUnpackC2hCmpl (q.cmplRing.desc q.cmplRing.nextToClean)).color = q.cmplRing.color)
    (ran : Program.Exec ((onicVfRxPoll budget).comap (Subtype.val : RxInput.Granted → RxInput)) q w q') :
    VfRxAdvances w q q' ↔
      (qdmaUnpackC2hCmpl (q.cmplRing.desc q.cmplRing.nextToClean)).err = 0 ∧
        0 < (qdmaUnpackC2hCmpl (q.cmplRing.desc q.cmplRing.nextToClean)).pktLen ∧
        (qdmaUnpackC2hCmpl (q.cmplRing.desc q.cmplRing.nextToClean)).pktLen ≤ pageSize - xdpPacketHeadroom := by
  rcases full.slots _ full.clean with ⟨pg, slot, -⟩
  rcases vf_poll_rings ran with ⟨mid, loop, cmplRing, descRing⟩
  rcases Nat.exists_eq_add_of_lt positive with ⟨left, rfl⟩
  rw [Nat.zero_add] at loop
  have accepts : ¬ (qdmaUnpackC2hCmpl (q.cmplRing.desc q.cmplRing.nextToClean)).Invalid q.cmplRing.color
      ⟨some pg, xdpPacketHeadroom⟩ ↔ _ := invalid_iff (some pg) color
  rw [← slot] at accepts
  rw [← accepts]
  cases vf_round_cases loop with
  | drained last _ _ => exact absurd last pending
  | invalid _ bad work_eq _ =>
    constructor
    · intro advances
      have moved := advances.some
      omega
    · intro good
      exact absurd bad good
  | packet _ good len pg rest =>
    have taken : RxFull { q with taken := q.taken + 1 } := full.same rfl rfl rfl rfl
    rcases vf_loop_forward (taken.deliver len pg).refillCredit rest with ⟨k, work_eq, forward⟩
    have all := (full.forward len pg (q.taken + 1)).trans forward
    have work_all : w = 1 + k := by omega
    rw [← work_all] at all
    have advances : VfRxAdvances w q q' := ⟨by omega, by rw [cmplRing, all.cmpl], by rw [descRing, all.desc]⟩
    exact ⟨fun _ => good, fun _ => advances⟩

end

/-- A poll that gets every page and skb passes a pending entry if and only if the entry has no error
    and a length that fits behind the headroom. -/
theorem vf_rx_progress {priv : VfQueues} {qid : Nat} {s : VfNetdev} (closed : s.queue (.rx qid) = none)
    (before : ∀ id, RxSettled (s.ring id)) {P : Pool Unit VfNetdev VfInput}
    (reach : Pool.Reach (rxRingRules priv qid) (fun _ => True) (Pool.start s) P) {id budget w : Nat} {q q' : RxQueue}
    (here : P.state.queue (.rx qid) = some id) (elsewhere : P.state.point = .elsewhere) (ring : P.state.ring id = q)
    (positive : 0 < budget) (pending : q.cmplRing.nextToClean ≠ qdmaUnpackC2hCmplStatPidx q.cmplRing.wb)
    (color : (qdmaUnpackC2hCmpl (q.cmplRing.desc q.cmplRing.nextToClean)).color = q.cmplRing.color)
    (ran : Program.Exec ((onicVfRxPoll budget).comap (Subtype.val : RxInput.Granted → RxInput)) q w q') :
    VfRxAdvances w q q' ↔
      (qdmaUnpackC2hCmpl (q.cmplRing.desc q.cmplRing.nextToClean)).err = 0 ∧
        0 < (qdmaUnpackC2hCmpl (q.cmplRing.desc q.cmplRing.nextToClean)).pktLen ∧
        (qdmaUnpackC2hCmpl (q.cmplRing.desc q.cmplRing.nextToClean)).pktLen ≤ pageSize - xdpPacketHeadroom := by
  rcases (rx_ring_reach closed before reach).1 id here elsewhere with ⟨full, -⟩
  rw [ring] at full
  exact vf_poll_advances full positive pending color ran

/-- A completion of 64 bytes, with or without the error bit, and the status behind it. -/
def oneCompletion (word : BitVec 64) (i : Nat) : BitVec 64 := if i = 0 then word else 1

theorem oneCompletion_pending {q : RxQueue} {word : BitVec 64} (count : q.cmplRing.count = onicVfCmplRingCount)
    (desc : q.cmplRing.desc = oneCompletion word) (clean : q.cmplRing.nextToClean = 0) :
    q.cmplRing.nextToClean ≠ qdmaUnpackC2hCmplStatPidx q.cmplRing.wb := by
  have status : oneCompletion word (onicVfCmplRingCount - 1) = 1 := rfl
  rw [RxRing.wb, RxRing.realCount, desc, clean, count, status]
  decide

theorem vf_rx_progress_one_packet : ∃ (P : Pool Unit VfNetdev VfInput) (w : Nat) (q' : RxQueue),
    P.state.queue (.rx 0) = some 0 ∧ VfRxAdvances w (P.state.ring 0) q' := by
  rcases vfRxRing_received (oneCompletion 0x4000000002) with ⟨P, reach, here, elsewhere, count, desc, clean, color⟩
  rcases ((onicVfRxPoll_enabled 1).comap (Subtype.val : RxInput.Granted → RxInput)).finishes (P.state.ring 0) with
    ⟨w, q', ran⟩
  have pending := oneCompletion_pending count desc clean
  have same : (qdmaUnpackC2hCmpl ((P.state.ring 0).cmplRing.desc (P.state.ring 0).cmplRing.nextToClean)).color =
      (P.state.ring 0).cmplRing.color := by
    rw [desc, clean, color]
    decide
  refine ⟨P, w, q', here, ?_⟩
  rw [vf_rx_progress rfl (fun _ => rxSettled_zeroed) reach here elsewhere rfl Nat.one_pos pending same ran, desc, clean]
  decide

/-- The poll stays at a completion that has an error. -/
theorem vf_rx_progress_errored : ∃ (P : Pool Unit VfNetdev VfInput) (w : Nat) (q' : RxQueue),
    Pool.Reach (rxRingRules ⟨1, 1, 1, onicVfQIrqInit 1⟩ 0) (fun _ => True) (Pool.start .probed) P ∧
    P.state.queue (.rx 0) = some 0 ∧ P.state.point = .elsewhere ∧
    (P.state.ring 0).cmplRing.nextToClean ≠ qdmaUnpackC2hCmplStatPidx (P.state.ring 0).cmplRing.wb ∧
    (qdmaUnpackC2hCmpl ((P.state.ring 0).cmplRing.desc (P.state.ring 0).cmplRing.nextToClean)).color =
      (P.state.ring 0).cmplRing.color ∧
    Program.Exec ((onicVfRxPoll 1).comap (Subtype.val : RxInput.Granted → RxInput)) (P.state.ring 0) w q' ∧
    ¬ VfRxAdvances w (P.state.ring 0) q' := by
  rcases vfRxRing_received (oneCompletion 0x4000000006) with ⟨P, reach, here, elsewhere, count, desc, clean, color⟩
  rcases ((onicVfRxPoll_enabled 1).comap (Subtype.val : RxInput.Granted → RxInput)).finishes (P.state.ring 0) with
    ⟨w, q', ran⟩
  have pending := oneCompletion_pending count desc clean
  have same : (qdmaUnpackC2hCmpl ((P.state.ring 0).cmplRing.desc (P.state.ring 0).cmplRing.nextToClean)).color =
      (P.state.ring 0).cmplRing.color := by
    rw [desc, clean, color]
    decide
  rcases (rx_ring_reach rfl (fun _ => rxSettled_zeroed) reach).1 0 here elsewhere with ⟨full, -⟩
  refine ⟨P, w, q', reach, here, elsewhere, pending, same, ran, ?_⟩
  rw [vf_poll_advances full Nat.one_pos pending same ran, desc, clean]
  decide

/-- A packet that fits into one buffer of the size that the VF asks for, and behind the headroom of its
    page before the `skb_shared_info` at the end. -/
structure RxDeliverable (sharedInfo offset len : Nat) : Prop where
  oneDescriptor : ∀ size, c2hBufszPool[onicVfRxBufszIdx.toNat]? = some size → len ≤ size
  inSkb : offset + len ≤ pageSize - sharedInfo

theorem accepted_deliverable {sharedInfo : Nat} (room : sharedInfo ≤ 1792) (cmpl : C2hCmpl) (color : BitVec 8)
    (pg : Option RxPage) :
    (¬ cmpl.Invalid color ⟨pg, xdpPacketHeadroom⟩ → RxDeliverable sharedInfo xdpPacketHeadroom cmpl.pktLen) ↔
    ¬ (cmpl.color = color ∧ cmpl.err = 0 ∧ 2048 < cmpl.pktLen ∧ cmpl.pktLen ≤ pageSize - xdpPacketHeadroom) := by
  have size : c2hBufszPool[onicVfRxBufszIdx.toNat]? = some 2048 := by decide
  constructor
  · rintro delivers ⟨same, noErr, long, fits⟩
    have accepted := (invalid_iff pg same).mpr ⟨noErr, by omega, fits⟩
    have short := (delivers accepted).oneDescriptor 2048 size
    omega
  · intro short accepted
    have same : cmpl.color = color := by
      by_contra other
      exact accepted (.inl other)
    rcases (invalid_iff pg same).mp accepted with ⟨noErr, positive, fits⟩
    have small : cmpl.pktLen ≤ 2048 := by
      by_contra long
      exact short ⟨same, noErr, by omega, fits⟩
    refine ⟨fun bytes is => ?_, ?_⟩
    · rw [size] at is
      cases is
      exact small
    · rw [xdpPacketHeadroom, pageSize]
      omega

/-- Of the completions that the poll accepts those of at most 2048 bytes are deliverable; `sharedInfo` is
    the aligned size of `struct skb_shared_info`. -/
theorem vf_rx_lengths {sharedInfo : Nat} (room : sharedInfo ≤ 1792) {priv : VfQueues} {qid : Nat} {s : VfNetdev}
    (closed : s.queue (.rx qid) = none) (before : ∀ id, RxSettled (s.ring id)) {P : Pool Unit VfNetdev VfInput}
    (reach : Pool.Reach (rxRingRules priv qid) (fun _ => True) (Pool.start s) P) {id : Nat}
    (here : P.state.queue (.rx qid) = some id) (elsewhere : P.state.point = .elsewhere) {i : Nat}
    (slot : i < (P.state.ring id).descRing.count - 1) (cmpl : C2hCmpl) (color : BitVec 8) :
    (¬ cmpl.Invalid color ((P.state.ring id).buffer i) →
      RxDeliverable sharedInfo ((P.state.ring id).buffer i).offset cmpl.pktLen) ↔
    ¬ (cmpl.color = color ∧ cmpl.err = 0 ∧ 2048 < cmpl.pktLen ∧ cmpl.pktLen ≤ pageSize - xdpPacketHeadroom) := by
  rcases (rx_ring_reach closed before reach).1 id here elsewhere with ⟨full, -⟩
  rw [full.count] at slot
  rcases full.slots i slot with ⟨pg, buffer, -⟩
  rw [buffer]
  exact accepted_deliverable room cmpl color (some pg)

theorem vf_rx_lengths_one_slot : ∃ P : Pool Unit VfNetdev VfInput, P.state.queue (.rx 0) = some 0 ∧
    RxDeliverable 320 ((P.state.ring 0).buffer 5).offset 1514 := by
  rcases vfRxRing_received (oneCompletion 0) with ⟨P, reach, here, elsewhere, -⟩
  rcases (rx_ring_reach rfl (fun _ => rxSettled_zeroed) reach).1 0 here elsewhere with ⟨full, -⟩
  rcases full.slots 5 (by decide) with ⟨pg, buffer, -⟩
  have slot : 5 < (P.state.ring 0).descRing.count - 1 := by
    rw [full.count]
    decide
  refine ⟨P, here, ?_⟩
  refine (vf_rx_lengths (by decide) rfl (fun _ => rxSettled_zeroed) reach here elsewhere slot ⟨1, 0, 1514⟩ 1).mpr ?_ ?_
  · decide
  · rw [buffer]
    exact (invalid_iff (some pg) rfl).mpr (by decide)

/-- A packet of 3000 bytes is accepted although a buffer has 2048. -/
theorem vf_rx_lengths_long : ∃ P : Pool Unit VfNetdev VfInput,
    Pool.Reach (rxRingRules ⟨1, 1, 1, onicVfQIrqInit 1⟩ 0) (fun _ => True) (Pool.start .probed) P ∧
    P.state.queue (.rx 0) = some 0 ∧ P.state.point = .elsewhere ∧
    ¬ C2hCmpl.Invalid ⟨1, 0, 3000⟩ 1 ((P.state.ring 0).buffer 0) ∧
    ¬ RxDeliverable 320 ((P.state.ring 0).buffer 0).offset 3000 := by
  rcases vfRxRing_received (oneCompletion 0) with ⟨P, reach, here, elsewhere, -⟩
  rcases (rx_ring_reach rfl (fun _ => rxSettled_zeroed) reach).1 0 here elsewhere with ⟨full, -⟩
  rcases full.slots 0 (by decide) with ⟨pg, buffer, -⟩
  have accepted : ¬ C2hCmpl.Invalid ⟨1, 0, 3000⟩ 1 ((P.state.ring 0).buffer 0) := by
    rw [buffer]
    exact (invalid_iff (some pg) rfl).mpr (by decide)
  refine ⟨P, reach, here, elsewhere, accepted, ?_⟩
  intro deliverable
  have short := deliverable.oneDescriptor 2048 (by decide)
  omega

end OpenNic
