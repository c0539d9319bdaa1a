import OpenNic.Rx.PfPages

namespace OpenNic

/-- The queue after `i` pages are in their slots. -/
structure PagesFilled (i : Nat) (q : RxQueue) : Prop where
  taken : q.taken = i
  descRing : q.descRing = ⟨onicRxRingCount, fun _ => 0, 0, 0, 0⟩
  slots : ∀ j < i, ∃ dma, q.buffer j = ⟨some ⟨j, dma⟩, xdpPacketHeadroom⟩

/-- The queue after `i` descriptors have their addresses. -/
structure DescsFilled (R i : Nat) (q : RxQueue) : Prop where
  taken : q.taken = R
  descRing : ∃ desc, q.descRing = ⟨onicRxRingCount, desc, 0, 0, 0⟩
  slots : ∀ j < R, ∃ dma, q.buffer j = ⟨some ⟨j, dma⟩, xdpPacketHeadroom⟩
  descs : ∀ j < i, ∀ pg, (q.buffer j).pg = some pg → q.descRing.desc j = pg.dstAddr

section

variable {q q' : RxQueue} {i R : Nat}

theorem onicInitRxPage_filled (ran : Program.Exec (onicInitRxPage i) q 0 q') (filled : PagesFilled i q) :
    PagesFilled (i + 1) q' := by
  obtain ⟨page, _, looked, ran⟩ := Program.exec_bind.mp ran
  obtain ⟨input, looked⟩ := Program.exec_access.mp looked
  obtain ⟨-, same⟩ := Prod.mk.inj (Option.some.inj looked)
  rw [← same] at ran
  cases page with
  | none => exact absurd (Program.exec_done.mp ran).1 (by decide)
  | some dma =>
    obtain ⟨_, mid, put, ran⟩ := Program.exec_bind.mp ran
    obtain rfl := Program.exec_modify.mp put
    rw [(Program.exec_done.mp ran).2]
    refine ⟨congrArg (· + 1) filled.taken, filled.descRing, fun j small => ?_⟩
    simp only [Function.update_apply]
    split
    · rename_i here
      rw [filled.taken, here]
      exact ⟨dma, rfl⟩
    · exact filled.slots j (by omega)

theorem onicInitRxDesc_filled {u : Unit} (ran : Program.Exec (onicInitRxDesc i) q u q') (small : i < R)
    (filled : DescsFilled R i q) : DescsFilled R (i + 1) q' := by
  obtain rfl := Program.exec_modify.mp ran
  obtain ⟨desc, ring⟩ := filled.descRing
  obtain ⟨dma, slot⟩ := filled.slots i small
  simp only [slot]
  refine ⟨filled.taken, ⟨_, by rw [ring]; rfl⟩, filled.slots, fun j lt pg here => ?_⟩
  simp only [RxRing.setDesc, Function.update_apply]
  split
  · rename_i at_
    rw [at_, slot] at here
    cases here
    rfl
  · exact filled.descs j (by omega) pg here

/-- The queue once its rings are set up. -/
def RxQueue.withHead (q : RxQueue) : RxQueue :=
  { ({ q with cmplRing := ⟨onicRxRingCount, fun _ => 0, 0, 0, 1⟩ } : RxQueue).setRxHead onicRxDescStep with cidx := (0, true) }

theorem onicInitRxQueueRings_exec (ran : Program.Exec onicInitRxQueueRings .kzalloc 0 q) :
    ∃ filled, DescsFilled (onicRxRingCount - 1) (onicRxRingCount - 1) filled ∧ q = filled.withHead := by
  have input : Nonempty (Option (BitVec 64)) := ⟨none⟩
  obtain ⟨_, ringed, ring, ran⟩ := Program.exec_bind.mp ran
  obtain rfl := Program.exec_modify.mp ring
  obtain ⟨rv, paged, pages, ran⟩ := Program.exec_bind.mp ran
  by_cases failed : rv ≠ 0
  · rw [if_pos failed] at ran
    exact absurd (Program.exec_done.mp ran).1.symm failed
  · rw [if_neg failed] at ran
    rw [not_ne_iff.mp failed] at pages
    have filled := pages.untilErr (I := PagesFilled) (fun i a b _ _ filled round => onicInitRxPage_filled round filled)
      ⟨rfl, rfl, fun j lt => absurd lt (Nat.not_lt_zero j)⟩
    rw [Nat.zero_add] at filled
    obtain ⟨_, addressed, descs, ran⟩ := Program.exec_bind.mp ran
    have described := descs.fold (I := fun i _ q => DescsFilled (onicRxRingCount - 1) i q)
      (fun i _ a _ b _ high filled round => onicInitRxDesc_filled round (by omega) filled)
      ⟨filled.taken, ⟨_, filled.descRing⟩, filled.slots, fun j lt => absurd lt (Nat.not_lt_zero j)⟩
    rw [Nat.zero_add] at described
    obtain ⟨_, _, cmpl, ran⟩ := Program.exec_bind.mp ran
    obtain rfl := Program.exec_modify.mp cmpl
    obtain ⟨_, _, head, ran⟩ := Program.exec_bind.mp ran
    obtain rfl := Program.exec_modify.mp head
    exact ⟨addressed, described, (Program.exec_done.mp ran).2⟩

theorem DescsFilled.clean (filled : DescsFilled R i q) : q.withHead.descRing.nextToClean = 0 := by
  obtain ⟨desc, same⟩ := filled.descRing
  rw [RxQueue.withHead, RxQueue.setRxHead, same]

theorem DescsFilled.kept {xdp : XdpRx} (filled : DescsFilled (onicRxRingCount - 1) (onicRxRingCount - 1) q)
    (fresh : xdp.away = []) : PfRxKept (onicRxRingCount - 1) (onicRxRingCount - 1) ⟨q.withHead, xdp⟩ := by
  obtain ⟨desc, same⟩ := filled.descRing
  have page (i : Nat) (small : i < onicRxRingCount - 1) : ∃ dma, q.buffer i = ⟨some ⟨i, dma⟩, xdpPacketHeadroom⟩ ∧
      q.descRing.desc i = RxPage.dstAddr ⟨i, dma⟩ := by
    obtain ⟨dma, slot⟩ := filled.slots i small
    exact ⟨dma, slot, filled.descs i small _ (by rw [slot])⟩
  have ring : q.withHead.descRing = ⟨onicRxRingCount, desc, onicRxDescStep, 0, 0⟩ := by
    rw [RxQueue.withHead, RxQueue.setRxHead, same]
  constructor
  · constructor
    · rw [ring]
      rfl
    · rfl
    · rw [ring]
      exact show 0 < onicRxRingCount - 1 by decide
    · rw [ring]
      exact show onicRxDescStep < onicRxRingCount - 1 by decide
    · exact show 0 < onicRxRingCount - 1 by decide
    · intro i small
      obtain ⟨dma, slot, -⟩ := page i small
      exact ⟨_, slot⟩
  · constructor
    · intro i small
      obtain ⟨dma, slot, desc⟩ := page i small
      rw [fresh]
      exact ⟨_, slot, desc, filled.taken ▸ small, List.not_mem_nil⟩
    · intro i small j small' equal
      obtain ⟨dma, slot, -⟩ := page i small
      obtain ⟨dma', slot', -⟩ := page j small'
      simpa [RxQueue.withHead, RxQueue.setRxHead, slot, slot'] using equal
    · rw [fresh]
      exact fun p mem => absurd mem List.not_mem_nil
  · rw [ring]
    exact show onicRxDescStep / 2 ≤ Cyclic.dist (onicRxRingCount - 1) 0 onicRxDescStep by decide

end

/-- The states between the polls of a receive queue of the PF: the hardware writes completions, and the
    transmit queue, its clean and the counters go on, while no other page of the queue goes away. -/
inductive PfRxRuns : PfRxPoll → Prop
  | init {q : RxQueue} {xdp : XdpRx} (ran : Program.Exec onicInitRxQueueRings .kzalloc 0 q) (fresh : xdp.away = []) :
      PfRxRuns ⟨q, xdp⟩
  | poll {s s' : PfRxPoll} {t budget work : Nat} (run : PfRxRuns s)
      (ran : Program.Exec (onicRxPollOrNull t budget) s (some work) s') : PfRxRuns s'
  | completions {s : PfRxPoll} (desc : Nat → BitVec 64) (run : PfRxRuns s) :
      PfRxRuns (s.setQ { s.q with cmplRing := { s.q.cmplRing with desc := desc } })
  | others {s : PfRxPoll} {xdp : XdpRx} (run : PfRxRuns s) (same : xdp.away = s.xdp.away) : PfRxRuns (s.setXdp xdp)

theorem PfRxRuns.kept {s : PfRxPoll} (run : PfRxRuns s) :
    PfRxKept (onicRxRingCount - 1) (onicRxRingCount - 1) s := by
  have input : Nonempty PfRxInput := ⟨PfRxInput.granted.1⟩
  induction run with
  | init ran fresh =>
    obtain ⟨filled, described, rfl⟩ := onicInitRxQueueRings_exec ran
    exact described.kept fresh
  | poll run ran kept =>
    rw [← Program.comap_id (onicRxPollOrNull _ _)] at ran
    rcases onicRxPollOrNull_exec kept (by decide) (by decide) ran with ⟨work, -, poll⟩ | ⟨none, -⟩
    · exact onicRxPoll_kept kept (by decide) (by decide) poll
    · cases none
  | completions desc run kept =>
    have ready := kept.ready
    exact ⟨⟨ready.descCount, ready.cmplCount, ready.descClean, ready.descUse, ready.cmplClean, ready.slots⟩,
      kept.held.of_same rfl rfl rfl rfl, kept.posted⟩
  | others run same kept => exact ⟨kept.ready, kept.held.of_same rfl rfl rfl same, kept.posted⟩

/-- The pool has a page whenever it is asked. -/
abbrev PfRxInput.Supplied := { input : PfRxInput // input.page.isSome }

instance : Nonempty PfRxInput.Supplied := ⟨⟨PfRxInput.granted.1, rfl⟩⟩

/-- As long as no refill finds the pool empty, every slot holds a page and no poll uses a NULL page. -/
theorem pf_rx_slots_held {s : PfRxPoll} (run : PfRxRuns s) :
    SlotsHeld (onicRxRingCount - 1) s.q s.xdp.away ∧ ∀ t budget r s',
      Program.Exec ((onicRxPollOrNull t budget).comap (Subtype.val : PfRxInput.Supplied → PfRxInput)) s r s' →
      r.isSome := by
  refine ⟨run.kept.held, fun t budget r s' ran => ?_⟩
  rcases onicRxPollOrNull_exec run.kept (by decide) (by decide) ran with ⟨work, rfl, -⟩ | ⟨-, ⟨input, given⟩, empty⟩
  · rfl
  · have empty : input.page = none := empty
    rw [empty] at given
    cases given

section

variable {R R' t budget : Nat} {s : PfRxPoll}

/-- Where the pool is empty, the first packet of a poll leaves its slot without a page. -/
theorem onicRxPollOrNull_null (ready : RxReady R R' s.q)
    (pending : s.q.cmplRing.nextToClean ≠ qdmaUnpackC2hCmplStatPidx s.q.cmplRing.wb) :
    ∃ s', Program.Exec (onicRxPollOrNull t budget) s none s' ∧ (s'.q.buffer s.q.descRing.nextToClean).pg = none := by
  let input : PfRxInput := { PfRxInput.granted.1 with page := none }
  obtain ⟨pg, slot⟩ := ready.slots _ ready.descClean
  have packet : (onicRxPacket t ⟨pg.id, pg.dma⟩).eval input.xdp s.xdp =
      some (true, { s.xdp with stack := s.xdp.stack ++ [pg.id] }) := rfl
  have round (cmpl : C2hCmpl) : ∃ s', (onicRxRoundOrNull t cmpl).eval input s = some (none, s') ∧
      (s'.q.buffer s.q.descRing.nextToClean).pg = none := by
    rw [onicRxRoundOrNull]
    simp only [Program.eval_bind, Program.eval_read, Option.bind_some, slot, Program.eval_lift xdp_lens,
      Program.eval_comap, packet, Option.map_some, Program.eval_modify, if_true, onicRxPageRefillOrNull,
      Program.eval_access]
    obtain ⟨given, noted⟩ := note_keeps s.q.descRing.nextToClean pg cmpl.pktLen s.xdp.stack.length
      (s.setXdp { s.xdp with stack := s.xdp.stack ++ [pg.id] })
    refine ⟨_, rfl, ?_⟩
    rw [noted]
    simp [PfRxPoll.setQ, PfRxPoll.setXdp]
  obtain ⟨s', ran, null⟩ := round (qdmaUnpackC2hCmpl (s.q.cmplRing.desc s.q.cmplRing.nextToClean))
  refine ⟨s', .of_eval (i := input) ?_, null⟩
  have loop (left : Nat) : (onicRxLoopOrNull t (qdmaUnpackC2hCmplStatPidx s.q.cmplRing.wb) left
      (qdmaUnpackC2hCmpl (s.q.cmplRing.desc s.q.cmplRing.nextToClean)) 0).eval input s = some (none, s') := by
    cases left <;> simp only [onicRxLoopOrNull, Program.eval_bind, Program.eval_read, Option.bind_some, if_neg pending, ran,
      Program.eval_done]
  simp only [onicRxPollOrNull, onicRxReadCmpl, Program.eval_bind, Program.eval_read, Option.bind_some, loop, Program.eval_done]

end

theorem pfRxStarts : ∃ q, Program.Exec onicInitRxQueueRings .kzalloc 0 q ∧
    q.cmplRing = ⟨onicRxRingCount, fun _ => 0, 0, 0, 1⟩ ∧ q.descRing.nextToClean = 0 := by
  have input : Nonempty (Option (BitVec 64)) := ⟨none⟩
  have page (i : Nat) (s : RxQueue) : ∃ s', Program.Exec (onicInitRxPage i) s 0 s' := ⟨_, .of_eval (i := some 0) rfl⟩
  obtain ⟨paged, pages⟩ := Program.Exec.untilErr_ok page 0 (onicRxRingCount - 1)
    { RxQueue.kzalloc with descRing := ⟨onicRxRingCount, fun _ => 0, 0, 0, 0⟩ }
  have enabled : (Program.fold (fun i _ => onicInitRxDesc i) 0 (onicRxRingCount - 1) ()).Enabled :=
    .fold (fun i _ => .modify _) _ _ _
  obtain ⟨_, addressed, descs⟩ := enabled.finishes paged
  have head : Program.Exec (Program.modify (fun q : RxQueue => { q.setRxHead onicRxDescStep with cidx := (0, true) }) :
      Program RxQueue (Option (BitVec 64)) Unit)
      { addressed with cmplRing := ⟨onicRxRingCount, fun _ => 0, 0, 0, 1⟩ } () addressed.withHead := Program.exec_modify.mpr rfl
  have ran : Program.Exec onicInitRxQueueRings .kzalloc 0 addressed.withHead :=
    (Program.exec_modify (u := ()).mpr rfl).bind (pages.bind
      (descs.bind ((Program.exec_modify (u := ()).mpr rfl).bind (head.bind (.done 0 _)))))
  obtain ⟨filled, described, same⟩ := onicInitRxQueueRings_exec ran
  refine ⟨addressed.withHead, ran, rfl, ?_⟩
  rw [same]
  exact described.clean

/-- A queue after its start with one packet of 64 bytes completed. -/
theorem pfRxOnePacket : ∃ s, PfRxRuns s ∧ s.q.cmplRing.nextToClean ≠ qdmaUnpackC2hCmplStatPidx s.q.cmplRing.wb := by
  obtain ⟨q, ran, cmplRing, -⟩ := pfRxStarts
  have started : PfRxRuns ⟨q, ⟨false, TxQueue.initial 4096, [], [], [], 0, 0, 0, 0, 0, 0⟩⟩ := .init ran rfl
  refine ⟨_, .completions (fun i => if i = onicRxRingCount - 1 then 1 else 0x4000000002) started, ?_⟩
  simp only [PfRxPoll.setQ, RxRing.wb, RxRing.realCount, cmplRing, if_true]
  decide

theorem pf_rx_slots_held_one_packet : ∃ s, PfRxRuns s ∧ SlotsHeld (onicRxRingCount - 1) s.q s.xdp.away := by
  obtain ⟨s, run, -⟩ := pfRxOnePacket
  exact ⟨s, run, (pf_rx_slots_held run).1⟩

/-- The pool is empty when the first packet's slot is refilled. -/
theorem pf_rx_refill_uses_null : ∃ s s', PfRxRuns s ∧ Program.Exec (onicRxPollOrNull 0 64) s none s' ∧
    (s'.q.buffer s.q.descRing.nextToClean).pg = none := by
  obtain ⟨s, run, pending⟩ := pfRxOnePacket
  obtain ⟨s', ran, null⟩ := onicRxPollOrNull_null run.kept.ready pending
  exact ⟨s, s', run, ran, null⟩

/-- The hardware may write to the buffer of slot `i`. -/
def RxQueue.Posted (q : RxQueue) (i : Nat) : Prop :=
  i < q.descRing.realCount ∧ Cyclic.Between q.descRing.realCount q.descRing.nextToClean q.descRing.nextToUse i

/-- `size` bytes from the address in descriptor `i` on lie in the page of its slot. -/
def RxQueue.Inside (q : RxQueue) (size i : Nat) : Prop :=
  ∃ pg, (q.buffer i).pg = some pg ∧ pg.dma.toNat ≤ (q.descRing.desc i).toNat ∧
    (q.descRing.desc i).toNat + size ≤ pg.dma.toNat + pageSize

/-- What the hardware may write through a posted descriptor stays in the page of its slot. -/
def PfRxPoll.WritesInside (s : PfRxPoll) : Prop :=
  ∀ i, s.q.Posted i → ∀ size, c2hBufszPool[onicRxBufszIdx.toNat]? = some size → s.q.Inside size i

/-- What the poll builds an skb around ends before the `skb_shared_info`, whose aligned size is
    `sharedInfo`. -/
def PfRxPoll.SkbsFit (sharedInfo : Nat) (s : PfRxPoll) : Prop :=
  ∀ t cmpl goesOn s', Program.Exec (onicRxRound t cmpl) s goesOn s' → s.xdp.stack.length < s'.xdp.stack.length →
    xdpPacketHeadroom + cmpl.pktLen ≤ pageSize - sharedInfo

section

variable {R R' : Nat} {s : PfRxPoll}

/-- A buffer of 4096 bytes that starts behind the headroom ends in the next page. -/
theorem not_inside (pg : RxPage) {i : Nat} (slot : (s.q.buffer i).pg = some pg) (desc : s.q.descRing.desc i = pg.dstAddr) :
    ¬ s.q.Inside 4096 i := by
  rintro ⟨pg', here, first, last⟩
  rw [slot] at here
  cases here
  rw [desc, RxPage.dstAddr, BitVec.toNat_add, xdpPacketHeadroom, pageSize] at last
  rw [desc, RxPage.dstAddr, BitVec.toNat_add, xdpPacketHeadroom] at first
  have bound := pg.dma.isLt
  have offset : (BitVec.ofNat 64 256).toNat = 256 := rfl
  rw [offset] at first last
  by_cases wraps : pg.dma.toNat + 256 < 2 ^ 64
  · rw [Nat.mod_eq_of_lt wraps] at last
    omega
  · rw [Nat.mod_eq_sub_mod (by omega), Nat.mod_eq_of_lt (by omega)] at first
    omega

theorem PfRxKept.overruns (kept : PfRxKept R R' s) {i : Nat} (posted : s.q.Posted i) : ¬ s.q.Inside 4096 i := by
  rcases posted with ⟨inside, -⟩
  rw [kept.ready.descReal] at inside
  rcases kept.held.held i inside with ⟨pg, slot, desc, -⟩
  exact not_inside pg (by rw [slot]) desc

theorem PfRxKept.some_posted (kept : PfRxKept R R' s) : s.q.Posted s.q.descRing.nextToClean := by
  have clean := kept.ready.descClean
  have posted := kept.posted
  have here : Cyclic.dist R s.q.descRing.nextToClean s.q.descRing.nextToClean = 0 := by
    rw [Cyclic.dist_of_lt clean clean, if_neg (Nat.lt_irrefl _), Nat.sub_self]
  rw [RxQueue.Posted, kept.ready.descReal, Cyclic.Between, here]
  have step : onicRxDescStep / 2 = 128 := rfl
  exact ⟨clean, by omega⟩

theorem PfRxKept.not_writesInside (kept : PfRxKept R R' s) : ¬ s.WritesInside :=
  fun inside => kept.overruns kept.some_posted (inside _ kept.some_posted 4096 rfl)

/-- Without a program the poll builds an skb around a packet of any length. -/
theorem onicRxRound_builds (ready : RxReady R R' s.q) (t : Nat) (cmpl : C2hCmpl) : ∃ s',
    Program.Exec (onicRxRound t cmpl) s true s' ∧ s.xdp.stack.length < s'.xdp.stack.length := by
  obtain ⟨pg, slot⟩ := ready.slots _ ready.descClean
  let passed : XdpRx := { s.xdp with stack := s.xdp.stack ++ [pg.id] }
  have packet : (onicRxPacket t ⟨pg.id, pg.dma⟩).eval PfRxInput.granted.1.xdp s.xdp = some (true, passed) := rfl
  obtain ⟨given, noted⟩ := note_keeps s.q.descRing.nextToClean pg cmpl.pktLen s.xdp.stack.length (s.setXdp passed)
  have ran : ∃ q', (onicRxRound t cmpl).eval PfRxInput.granted.1 s = some (true, ⟨q', passed⟩) := by
    rw [onicRxRound]
    simp only [Program.eval_bind, Program.eval_read, Program.eval_access, Option.bind_some, slot,
      Program.eval_lift xdp_lens, Program.eval_comap, packet, Option.map_some, Program.eval_modify, if_true, noted]
    exact ⟨_, rfl⟩
  obtain ⟨q', ran⟩ := ran
  refine ⟨_, .of_eval ran, ?_⟩
  simp [passed]

theorem PfRxKept.not_skbsFit (kept : PfRxKept R R' s) (sharedInfo : Nat) : ¬ s.SkbsFit sharedInfo := by
  intro fit
  obtain ⟨s', ran, longer⟩ := onicRxRound_builds kept.ready 0 ⟨1, 0, pageSize⟩
  have fits : xdpPacketHeadroom + pageSize ≤ pageSize - sharedInfo := fit 0 ⟨1, 0, pageSize⟩ true s' ran longer
  rw [xdpPacketHeadroom, pageSize] at fits
  omega

end

/-- Always some posted descriptor lets the hardware write past the end of its page, and the length of a
    packet is not looked at. -/
theorem pf_rx_extents {s : PfRxPoll} (run : PfRxRuns s) (sharedInfo : Nat) :
    ¬ s.WritesInside ∧ ¬ s.SkbsFit sharedInfo :=
  ⟨run.kept.not_writesInside, run.kept.not_skbsFit sharedInfo⟩

theorem pf_rx_extents_one_packet : ∃ s, PfRxRuns s ∧ ¬ s.WritesInside ∧ ¬ s.SkbsFit 320 := by
  obtain ⟨s, run, -⟩ := pfRxOnePacket
  exact ⟨s, run, pf_rx_extents run 320⟩

/-- The first descriptor of a new queue. -/
theorem pf_rx_buffer_overruns_page : ∃ s, PfRxRuns s ∧ s.q.Posted 0 ∧ ¬ s.q.Inside 4096 0 ∧
    ¬ (s.WritesInside ∧ s.SkbsFit 320) := by
  obtain ⟨q, ran, cmplRing, clean⟩ := pfRxStarts
  have run : PfRxRuns ⟨q, ⟨false, TxQueue.initial 4096, [], [], [], 0, 0, 0, 0, 0, 0⟩⟩ := .init ran rfl
  have posted := run.kept.some_posted
  rw [clean] at posted
  exact ⟨_, run, posted, run.kept.overruns posted, fun both => run.kept.not_writesInside both.1⟩

end OpenNic
