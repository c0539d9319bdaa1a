import OpenNic.Rx.PfNapi
import OpenNic.Tx.PfClean

namespace OpenNic

/-- The pages of the queue that are no longer the driver's: with the pool, a target of redirects,
    the stack or the transmit ring. -/
def XdpRx.away (s : XdpRx) : List Nat :=
  s.recycled ++ s.redirected ++ s.stack ++ s.tx.head.accepted.filterMap TxFrame.xdpf?

/-- No page goes away but this one. -/
def XdpRx.Adds (page : Nat) (s s' : XdpRx) : Prop := ∀ p ∈ s'.away, p ∈ s.away ∨ p = page

namespace XdpRx.Adds

variable {page : Nat} {a b c : XdpRx}

theorem refl (s : XdpRx) : XdpRx.Adds page s s := fun _ mem => .inl mem

theorem trans (a b c : XdpRx) (h : XdpRx.Adds page a b) (h' : XdpRx.Adds page b c) : XdpRx.Adds page a c := by
  intro p mem
  rcases h' p mem with old | new
  · exact h p old
  · exact .inr new

theorem of_same (same : b.away = a.away) : XdpRx.Adds page a b := fun _ mem => .inl (same ▸ mem)

end XdpRx.Adds

section

variable {t : Nat} {buff : XdpBuff}

/-- No frame is accepted but this one. -/
def TxQueue.AcceptsOnly (xdpf : Nat) (q q' : TxQueue) : Prop :=
  ∀ p ∈ q'.head.accepted.filterMap TxFrame.xdpf?, p ∈ q.head.accepted.filterMap TxFrame.xdpf? ∨ p = xdpf

theorem acceptsOnly_of_same {xdpf : Nat} {q q' : TxQueue} (same : q'.head.accepted = q.head.accepted) :
    q.AcceptsOnly xdpf q' := by
  intro p mem
  rw [same] at mem
  exact .inl mem

theorem onicXmitXdpRing_accepts (xdpf : XdpFrame) :
    (onicXmitXdpRing t xdpf false).Steps (TxQueue.AcceptsOnly xdpf.id) := by
  have clean : (onicTxClean t).Steps (TxQueue.AcceptsOnly xdpf.id) := by
    refine Program.Steps.mono (onicTxClean_keeps t) fun q q' keeps => ?_
    exact acceptsOnly_of_same (congrArg TxHead.accepted keeps.head)
  refine clean.bind fun _ => Program.Steps.bind (.read (fun q => acceptsOnly_of_same rfl) _) fun full => ?_
  cases full with
  | true => exact True.intro
  | false =>
    have store : (TxAccess.store ⟨.xdpf, xdpf.id,
        xdpf.pageDma + BitVec.ofNat 64 sizeofXdpFrame + BitVec.ofNat 64 xdpf.headroom, xdpf.len⟩).Steps
        (TxQueue.AcceptsOnly xdpf.id) := by
      refine .modify fun q p mem => ?_
      rw [List.filterMap_append, List.mem_append] at mem
      rcases mem with old | new
      · exact .inl old
      · exact .inr (by simpa [TxFrame.xdpf?] using new)
    exact store.bind fun _ => Program.Steps.bind (.modify fun q => acceptsOnly_of_same rfl) fun _ =>
      Program.Steps.bind (.modify fun q => acceptsOnly_of_same rfl) fun _ => True.intro

theorem onicXdpXmitBack_accepts (xdpf : XdpFrame) :
    (onicXdpXmitBack t xdpf).Steps (TxQueue.AcceptsOnly xdpf.id) := by
  have lock : (TxAccess.lock t).Steps (TxQueue.AcceptsOnly xdpf.id) := by
    refine .access fun _ q before q' taken => ?_
    split at taken <;> cases taken
    exact acceptsOnly_of_same rfl
  exact lock.bind fun _ => (onicXmitXdpRing_accepts xdpf).bind fun _ =>
    Program.Steps.bind (.modify fun q => acceptsOnly_of_same rfl) fun _ =>
      Program.Steps.bind (.modify fun q => acceptsOnly_of_same rfl) fun _ => .done _

theorem adds_look {α : Type} (f : XdpInput → α) :
    (Program.access fun input s => some (f input, s) : Program XdpRx XdpInput α).Steps (XdpRx.Adds buff.page) := by
  refine .access fun input s a s' taken => ?_
  obtain ⟨-, rfl⟩ := Prod.mk.inj (Option.some.inj taken)
  exact .refl s

theorem onicXdpXmitBackBuff_adds : (onicXdpXmitBackBuff t buff).Steps (XdpRx.Adds buff.page) := by
  refine (adds_look _).bind fun converted => ?_
  cases converted with
  | none => exact Program.Steps.bind (.modify fun s => .of_same rfl) fun _ => .done _
  | some size =>
    refine Program.Steps.bind (.read XdpRx.Adds.refl _) fun there => ?_
    cases there with
    | false => exact Program.Steps.bind (.modify fun s => .of_same rfl) fun _ => .done _
    | true =>
      have sent : (((onicXdpXmitBack t ⟨buff.page, size.1, size.2, buff.pageDma⟩).comap XdpInput.tx).lift XdpRx.tx
          XdpRx.setTx).Steps (XdpRx.Adds buff.page) := by
        refine ((onicXdpXmitBack_accepts _).comap _).lift fun s q accepts p mem => ?_
        rw [XdpRx.away, List.mem_append] at mem ⊢
        rcases mem with old | stored
        · exact .inl (.inl old)
        · rcases accepts p stored with old | new
          · exact .inl (.inr old)
          · exact .inr new
      exact sent.bind fun _ => Program.Steps.bind (.modify fun s => .of_same rfl) fun _ => .done _

theorem onicXdpOutFailure_adds : (onicXdpOutFailure buff).Steps (XdpRx.Adds buff.page) := by
  refine Program.Steps.bind (.modify fun s p mem => ?_) fun _ => .done _
  simp only [XdpRx.away, List.mem_append, List.mem_singleton] at mem ⊢
  tauto

theorem onicRunXdp_adds : (onicRunXdp t buff).Steps (XdpRx.Adds buff.page) := by
  refine (adds_look _).bind fun prog => ?_
  cases prog with
  | none => exact .done _
  | some act =>
    by_cases pass : act = xdpPass
    · simp only [if_pos pass]
      exact Program.Steps.bind (.modify fun s => .of_same rfl) fun _ => .done _
    · simp only [if_neg pass]
      by_cases send : act = xdpTx
      · simp only [if_pos send]
        refine onicXdpXmitBackBuff_adds.bind fun result => ?_
        split
        · exact onicXdpOutFailure_adds
        · exact .done _
      · simp only [if_neg send]
        by_cases redirect : act = xdpRedirect
        · simp only [if_pos redirect]
          refine Program.Steps.bind (.access fun input s err s' taken => ?_) fun err => ?_
          · obtain ⟨-, rfl⟩ := Prod.mk.inj (Option.some.inj taken)
            split
            · intro p mem
              simp only [XdpRx.away, List.mem_append, List.mem_singleton] at mem ⊢
              tauto
            · exact .refl s
          · split
            · exact onicXdpOutFailure_adds
            · exact Program.Steps.bind (.modify fun s => .of_same rfl) fun _ => .done _
        · simp only [if_neg redirect]
          exact onicXdpOutFailure_adds

theorem onicRxSkb_adds : (onicRxSkb buff).Steps (XdpRx.Adds buff.page) := by
  refine (adds_look _).bind fun built => ?_
  split
  · refine Program.Steps.bind (.access fun input s rv s' taken => ?_) fun rv => ?_
    · obtain ⟨-, rfl⟩ := Prod.mk.inj (Option.some.inj taken)
      intro p mem
      simp only [XdpRx.away, List.mem_append, List.mem_singleton] at mem ⊢
      tauto
    · split <;> exact .done _
  · exact .done _

/-- A packet gives no page away but its own. -/
theorem onicRxPacket_adds : (onicRxPacket t buff).Steps (XdpRx.Adds buff.page) := by
  refine onicRunXdp_adds.bind fun res => ?_
  split
  · dsimp only
    split
    · refine Program.Steps.bind (.modify fun s => .of_same rfl) fun _ => ?_
      split
      · exact onicRxSkb_adds
      · exact .done _
    · split
      · exact onicRxSkb_adds
      · exact .done _
  · exact .done _

end

section

variable {κ : Type} [Nonempty κ] {f : κ → PfRxInput} {t : Nat} {s s' : PfRxPoll}

/-- A round of the poll, or a NULL page: in the slot, or from the pool. -/
theorem onicRxRoundOrNull_exec {cmpl : C2hCmpl} {r : Option Bool}
    (ran : Program.Exec ((onicRxRoundOrNull t cmpl).comap f) s r s') :
    (∃ goesOn, r = some goesOn ∧ Program.Exec ((onicRxRound t cmpl).comap f) s goesOn s') ∨
      r = none ∧ ((s.q.buffer s.q.descRing.nextToClean).pg = none ∨ ∃ k, (f k).page = none) := by
  rw [onicRxRoundOrNull, Program.comap_bind, Program.exec_bind] at ran
  obtain ⟨slot, _, looked, ran⟩ := ran
  obtain ⟨rfl, same⟩ := Program.exec_comap_read.mp looked
  rw [same, Program.comap_bind, Program.exec_bind] at ran
  obtain ⟨page, _, looked, ran⟩ := ran
  obtain ⟨here, same⟩ := Program.exec_comap_read.mp looked
  rw [same] at ran
  cases page with
  | none =>
    obtain ⟨rfl, -⟩ := Program.exec_done.mp ran
    exact .inr ⟨rfl, .inl here.symm⟩
  | some pg =>
    simp only at ran
    rw [Program.comap_bind, Program.exec_bind] at ran
    obtain ⟨before, _, looked, ran⟩ := ran
    obtain ⟨rfl, same⟩ := Program.exec_comap_read.mp looked
    rw [same, Program.comap_bind, Program.exec_bind] at ran
    obtain ⟨goesOn, mid, packet, ran⟩ := ran
    rw [Program.comap_bind, Program.exec_bind] at ran
    obtain ⟨_, noted, note, ran⟩ := ran
    have start {b : Bool} (rest : Program.Exec ((if goesOn = true then do
        Program.access fun (input : PfRxInput) s =>
          input.page.map fun dma => ((), s.setQ (s.q.onicRxPageRefill ⟨s.q.taken, dma⟩))
        Program.modify fun s => s.setQ (s.q.onicRxAdvance cmpl)
        .done true
        else .done false : Program PfRxPoll PfRxInput Bool).comap f) noted b s') :
        Program.Exec ((onicRxRound t cmpl).comap f) s b s' := by
      rw [onicRxRound, Program.comap_bind]
      refine (Program.exec_comap_read.mpr ⟨rfl, rfl⟩).bind ?_
      rw [Program.comap_bind]
      refine (Program.exec_comap_access.mpr ⟨Classical.ofNonempty, by rw [← here]; rfl⟩).bind ?_
      rw [Program.comap_bind]
      refine (Program.exec_comap_read.mpr ⟨rfl, rfl⟩).bind ?_
      rw [Program.comap_bind]
      refine packet.bind ?_
      rw [Program.comap_bind]
      exact note.bind rest
    cases goesOn with
    | false =>
      obtain ⟨rfl, rfl⟩ := Program.exec_done.mp ran
      exact .inl ⟨false, rfl, start (.done _ _)⟩
    | true =>
      rw [if_pos rfl, onicRxPageRefillOrNull, Program.bind_assoc, Program.comap_bind, Program.exec_bind] at ran
      obtain ⟨page, _, looked, ran⟩ := ran
      obtain ⟨k, looked⟩ := Program.exec_comap_access.mp looked
      obtain ⟨given, same⟩ := Prod.mk.inj (Option.some.inj looked)
      rw [← same] at ran
      cases page with
      | none =>
        simp only at ran
        rw [Program.bind_assoc, Program.comap_bind, Program.exec_bind] at ran
        obtain ⟨_, _, _, ran⟩ := ran
        obtain ⟨rfl, -⟩ := Program.exec_done.mp ran
        exact .inr ⟨rfl, .inr ⟨k, given⟩⟩
      | some dma =>
        simp only at ran
        rw [Program.bind_assoc, Program.comap_bind, Program.exec_bind] at ran
        obtain ⟨_, refilled, refill, ran⟩ := ran
        obtain rfl := Program.exec_comap_modify.mp refill
        rw [Program.bind_done, if_pos rfl, Program.comap_bind, Program.exec_bind] at ran
        obtain ⟨_, advanced, advance, ran⟩ := ran
        obtain ⟨rfl, rfl⟩ := Program.exec_done.mp ran
        refine .inl ⟨true, rfl, start ?_⟩
        rw [if_pos rfl, Program.comap_bind]
        refine (Program.exec_comap_access (a := ()).mpr ⟨k, by rw [given]; rfl⟩).bind ?_
        rw [Program.comap_bind]
        exact advance.bind (.done _ _)

end

/-- Every slot holds a page of its own that is the driver's, with its address in the descriptor. -/
structure SlotsHeld (R : Nat) (q : RxQueue) (away : List Nat) : Prop where
  held : ∀ i < R, ∃ pg, q.buffer i = ⟨some pg, xdpPacketHeadroom⟩ ∧ q.descRing.desc i = pg.dstAddr ∧
    pg.id < q.taken ∧ pg.id ∉ away
  apart : ∀ i < R, ∀ j < R, (q.buffer i).pg.map RxPage.id = (q.buffer j).pg.map RxPage.id → i = j
  away_lt : ∀ p ∈ away, p < q.taken

namespace SlotsHeld

variable {R : Nat} {q q' : RxQueue} {away away' : List Nat}

theorem of_same (held : SlotsHeld R q away) (buffer : q'.buffer = q.buffer) (desc : q'.descRing.desc = q.descRing.desc)
    (taken : q'.taken = q.taken) (same : away' = away) : SlotsHeld R q' away' where
  held := by
    rw [buffer, desc, taken, same]
    exact held.held
  apart := by
    rw [buffer]
    exact held.apart
  away_lt := by
    rw [taken, same]
    exact held.away_lt

/-- The page of the slot goes away and a new one takes its place. -/
theorem refill (held : SlotsHeld R q away) (inside : q.descRing.nextToClean < R) {pg : RxPage}
    (here : (q.buffer q.descRing.nextToClean).pg = some pg) (adds : ∀ p ∈ away', p ∈ away ∨ p = pg.id) (dma : BitVec 64) :
    SlotsHeld R (q.onicRxPageRefill ⟨q.taken, dma⟩) away' := by
  have young : pg.id < q.taken := by
    rcases held.held _ inside with ⟨pg', slot, -, young, -⟩
    rw [slot] at here
    cases here
    exact young
  have new : ∀ p ∈ away', p < q.taken := by
    intro p mem
    rcases adds p mem with old | rfl
    · exact held.away_lt p old
    · exact young
  have other {i : Nat} (small : i < R) (ne : i ≠ q.descRing.nextToClean) {pg' : RxPage}
      (slot : (q.buffer i).pg = some pg') : pg'.id ≠ pg.id := fun same =>
    ne (held.apart i small _ inside (by rw [slot, here, Option.map_some, Option.map_some, same]))
  have fresh {i : Nat} (small : i < R) : (q.buffer i).pg.map RxPage.id ≠ some q.taken := by
    rcases held.held i small with ⟨pg', slot, -, young, -⟩
    rw [slot]
    simp only [Option.map_some, ne_eq, Option.some.injEq]
    omega
  constructor
  · intro i small
    simp only [RxQueue.onicRxPageRefill, RxRing.setDesc, Function.update_apply]
    by_cases at_ : i = q.descRing.nextToClean
    · rw [if_pos at_, if_pos at_]
      exact ⟨_, rfl, rfl, Nat.lt_succ_self _, fun mem => Nat.lt_irrefl _ (new _ mem)⟩
    · rw [if_neg at_, if_neg at_]
      rcases held.held i small with ⟨pg', slot, desc, young, mine⟩
      refine ⟨pg', slot, desc, Nat.lt_succ_of_lt young, fun mem => ?_⟩
      rcases adds _ mem with old | same
      · exact mine old
      · exact other small at_ (by rw [slot]) same
  · intro i small j small'
    simp only [RxQueue.onicRxPageRefill, Function.update_apply]
    split <;> split
    · rename_i first second
      exact fun _ => first.trans second.symm
    · exact fun same => absurd same.symm (fresh small')
    · exact fun same => absurd same (fresh small)
    · exact held.apart i small j small'
  · exact fun p mem => Nat.lt_succ_of_lt (new p mem)

end SlotsHeld

theorem onicRxAdvance_slots (q : RxQueue) (cmpl : C2hCmpl) : (q.onicRxAdvance cmpl).buffer = q.buffer ∧
    (q.onicRxAdvance cmpl).descRing.desc = q.descRing.desc ∧ (q.onicRxAdvance cmpl).taken = q.taken := by
  simp only [RxQueue.onicRxAdvance]
  split <;> split <;> exact ⟨rfl, rfl, rfl⟩

/-- What holds between two polls: the rings are in order, the slots hold their pages, and at least half
    a step of descriptors is posted. -/
structure PfRxKept (R R' : Nat) (s : PfRxPoll) : Prop where
  ready : RxReady R R' s.q
  held : SlotsHeld R s.q s.xdp.away
  posted : onicRxDescStep / 2 ≤ Cyclic.dist R s.q.descRing.nextToClean s.q.descRing.nextToUse

section

variable {κ : Type} [Nonempty κ] {f : κ → PfRxInput} {R R' t : Nat} {s s' : PfRxPoll}

theorem credit_posted {q : RxQueue} (room : onicRxDescStep / 2 + onicRxDescStep ≤ R) (clean : q.descRing.nextToClean < R) :
    onicRxDescStep / 2 ≤ Cyclic.dist R (q.credit R).descRing.nextToClean (q.credit R).descRing.nextToUse := by
  rw [RxQueue.credit]
  split
  · rename_i low
    have moved := Cyclic.dist_add clean q.descRing.nextToUse onicRxDescStep
    have fits : (Cyclic.dist R q.descRing.nextToClean q.descRing.nextToUse + onicRxDescStep) % R =
        Cyclic.dist R q.descRing.nextToClean q.descRing.nextToUse + onicRxDescStep := Nat.mod_eq_of_lt (by omega)
    rw [fits] at moved
    rw [RxQueue.setRxHead, moved]
    omega
  · rename_i enough
    exact Nat.not_lt.mp enough

theorem advance_kept {q : RxQueue} {away : List Nat} (cmpl : C2hCmpl) (ready : RxReady R R' q) (held : SlotsHeld R q away)
    (room : onicRxDescStep / 2 + onicRxDescStep ≤ R) (small : R + onicRxDescStep < 65536) :
    RxReady R R' (q.onicRxAdvance cmpl) ∧ SlotsHeld R (q.onicRxAdvance cmpl) away ∧
      onicRxDescStep / 2 ≤ Cyclic.dist R (q.onicRxAdvance cmpl).descRing.nextToClean (q.onicRxAdvance cmpl).descRing.nextToUse := by
  rcases onicRxAdvance_slots q cmpl with ⟨buffer, desc, taken⟩
  refine ⟨?_, held.of_same buffer desc taken rfl, ?_⟩
  all_goals
    obtain ⟨color, advance⟩ := RxQueue.onicRxAdvance_eq ready.descReal ready.cmplReal ready.descClean ready.descUse small cmpl
    rw [advance]
  · exact credit_ready {
      descCount := ready.descCount
      cmplCount := ready.cmplCount
      descClean := Nat.mod_lt _ (Nat.zero_lt_of_lt ready.descClean)
      descUse := ready.descUse
      cmplClean := Nat.mod_lt _ (Nat.zero_lt_of_lt ready.cmplClean)
      slots := ready.slots }
  · exact credit_posted room (Nat.mod_lt _ (Nat.zero_lt_of_lt ready.descClean))

theorem note_keeps (slot : Nat) (pg : RxPage) (len before : Nat) (s : PfRxPoll) :
    ∃ given, s.note slot pg len before = s.setQ { s.q with given := given } := by
  rw [PfRxPoll.note]
  split
  · exact ⟨_, rfl⟩
  · exact ⟨s.q.given, rfl⟩

theorem onicRxRound_kept {cmpl : C2hCmpl} {goesOn : Bool} (kept : PfRxKept R R' s)
    (room : onicRxDescStep / 2 + onicRxDescStep ≤ R) (small : R + onicRxDescStep < 65536)
    (ran : Program.Exec ((onicRxRound t cmpl).comap f) s goesOn s') : PfRxKept R R' s' := by
  obtain ⟨pg, xdp, here, packet, next⟩ := onicRxRound_exec ran
  obtain ⟨given, noted⟩ := note_keeps s.q.descRing.nextToClean pg cmpl.pktLen s.xdp.stack.length (s.setXdp xdp)
  simp only [noted] at next
  have ready := kept.ready
  rcases next with ⟨rfl, rfl⟩ | ⟨rfl, k, dma, -, rfl⟩
  · obtain ⟨-, -, -, stops⟩ := onicRxPacket_cases packet
    obtain ⟨n, same⟩ := stops rfl
    have away : xdp.away = s.xdp.away := by rw [same]; rfl
    exact ⟨⟨ready.descCount, ready.cmplCount, ready.descClean, ready.descUse, ready.cmplClean, ready.slots⟩,
      kept.held.of_same rfl rfl rfl away, kept.posted⟩
  · have adds : XdpRx.Adds pg.id s.xdp xdp := (onicRxPacket_adds.comap _).exec XdpRx.Adds.refl XdpRx.Adds.trans packet
    have held := kept.held.refill ready.descClean here adds dma
    let refilled := ({ s.q with given := given } : RxQueue).onicRxPageRefill ⟨s.q.taken, dma⟩
    have after : RxReady R R' refilled := {
      descCount := ready.descCount
      cmplCount := ready.cmplCount
      descClean := ready.descClean
      descUse := ready.descUse
      cmplClean := ready.cmplClean
      slots := by
        intro i inside
        rcases held.held i inside with ⟨pg, slot, -⟩
        exact ⟨pg, slot⟩ }
    have stored : SlotsHeld R refilled xdp.away := held.of_same rfl rfl rfl rfl
    rcases advance_kept cmpl after stored room small with ⟨ready', held', posted⟩
    exact ⟨ready', held', posted⟩

theorem onicRxLoop_kept {pidx left work : Nat} {cmpl : C2hCmpl} {r : Nat × Bool} (kept : PfRxKept R R' s)
    (room : onicRxDescStep / 2 + onicRxDescStep ≤ R) (small : R + onicRxDescStep < 65536)
    (ran : Program.Exec ((onicRxLoop t pidx left cmpl work).comap f) s r s') : PfRxKept R R' s' := by
  induction left generalizing work s cmpl with
  | zero =>
    rw [onicRxLoop, Program.comap_bind, Program.exec_bind] at ran
    obtain ⟨clean, _, looked, ran⟩ := ran
    obtain ⟨rfl, same⟩ := Program.exec_comap_read.mp looked
    rw [same] at ran
    by_cases last : s.q.cmplRing.nextToClean = pidx
    · rw [if_pos last] at ran
      rw [(Program.exec_done.mp ran).2]
      exact kept
    · rw [if_neg last, Program.comap_bind, Program.exec_bind] at ran
      obtain ⟨goesOn, mid, body, ran⟩ := ran
      have after := onicRxRound_kept kept room small body
      cases goesOn <;> rw [(Program.exec_done.mp ran).2] <;> exact after
  | succ left ih =>
    rw [onicRxLoop, Program.comap_bind, Program.exec_bind] at ran
    obtain ⟨clean, _, looked, ran⟩ := ran
    obtain ⟨rfl, same⟩ := Program.exec_comap_read.mp looked
    rw [same] at ran
    by_cases last : s.q.cmplRing.nextToClean = pidx
    · rw [if_pos last] at ran
      rw [(Program.exec_done.mp ran).2]
      exact kept
    · rw [if_neg last, Program.comap_bind, Program.exec_bind] at ran
      obtain ⟨goesOn, mid, body, ran⟩ := ran
      have after := onicRxRound_kept kept room small body
      cases goesOn with
      | true =>
        rw [if_pos rfl, Program.comap_bind, Program.exec_bind] at ran
        obtain ⟨next, _, looked, ran⟩ := ran
        obtain ⟨rfl, same⟩ := Program.exec_comap_read.mp looked
        rw [same] at ran
        exact ih after ran
      | false =>
        rw [(Program.exec_done.mp ran).2]
        exact after

theorem onicRxPoll_kept {budget r : Nat} (kept : PfRxKept R R' s) (room : onicRxDescStep / 2 + onicRxDescStep ≤ R)
    (small : R + onicRxDescStep < 65536) (ran : Program.Exec ((onicRxPoll t budget).comap f) s r s') :
    PfRxKept R R' s' := by
  rw [onicRxPoll, Program.comap_bind, Program.exec_bind] at ran
  obtain ⟨cmpl, _, looked, ran⟩ := ran
  obtain ⟨rfl, same⟩ := Program.exec_comap_read.mp looked
  rw [same, Program.comap_bind, Program.exec_bind] at ran
  obtain ⟨pidx, _, looked, ran⟩ := ran
  obtain ⟨rfl, same⟩ := Program.exec_comap_read.mp looked
  rw [same, Program.comap_bind, Program.exec_bind] at ran
  obtain ⟨⟨work, outOfBudget⟩, mid, loop, ran⟩ := ran
  have after := onicRxLoop_kept kept room small loop
  cases outOfBudget with
  | true =>
    rw [(Program.exec_done.mp ran).2]
    exact after
  | false =>
    simp only [Bool.false_eq_true, if_false] at ran
    rw [Program.comap_bind, Program.exec_bind] at ran
    obtain ⟨_, _, tail, ran⟩ := ran
    obtain rfl := Program.exec_comap_modify.mp tail
    obtain ⟨rfl, rfl⟩ := Program.exec_done.mp ran
    split
    · have ready := after.ready
      exact ⟨⟨ready.descCount, ready.cmplCount, ready.descClean, ready.descUse, ready.cmplClean, ready.slots⟩,
        after.held.of_same rfl rfl rfl rfl, after.posted⟩
    · exact after

/-- The loop, or a NULL page, which only an empty pool can bring about. -/
theorem onicRxLoopOrNull_exec {pidx left work : Nat} {cmpl : C2hCmpl} {r : Option (Nat × Bool)} (kept : PfRxKept R R' s)
    (room : onicRxDescStep / 2 + onicRxDescStep ≤ R) (small : R + onicRxDescStep < 65536)
    (ran : Program.Exec ((onicRxLoopOrNull t pidx left cmpl work).comap f) s r s') :
    (∃ ended, r = some ended ∧ Program.Exec ((onicRxLoop t pidx left cmpl work).comap f) s ended s') ∨
      r = none ∧ ∃ k, (f k).page = none := by
  have missing {s : PfRxPoll} (kept : PfRxKept R R' s)
      (null : (s.q.buffer s.q.descRing.nextToClean).pg = none ∨ ∃ k, (f k).page = none) : ∃ k, (f k).page = none := by
    rcases null with empty | pool
    · obtain ⟨pg, slot⟩ := kept.ready.slots _ kept.ready.descClean
      rw [slot] at empty
      cases empty
    · exact pool
  induction left generalizing work s cmpl with
  | zero =>
    rw [onicRxLoopOrNull, Program.comap_bind, Program.exec_bind] at ran
    rw [onicRxLoop, Program.comap_bind]
    obtain ⟨clean, _, looked, ran⟩ := ran
    obtain ⟨rfl, same⟩ := Program.exec_comap_read.mp looked
    rw [same] at ran
    by_cases last : s.q.cmplRing.nextToClean = pidx
    · rw [if_pos last] at ran
      obtain ⟨rfl, rfl⟩ := Program.exec_done.mp ran
      refine .inl ⟨_, rfl, (Program.exec_comap_read.mpr ⟨rfl, rfl⟩).bind ?_⟩
      rw [if_pos last]
      exact .done _ _
    · rw [if_neg last, Program.comap_bind, Program.exec_bind] at ran
      obtain ⟨went, mid, body, ran⟩ := ran
      rcases onicRxRoundOrNull_exec body with ⟨goesOn, rfl, round⟩ | ⟨rfl, null⟩
      · have next : ∃ ended, r = some ended ∧ ended = (if goesOn then (work + 1, true) else (work, false)) ∧ s' = mid := by
          cases goesOn <;> exact ⟨_, (Program.exec_done.mp ran).1, rfl, (Program.exec_done.mp ran).2⟩
        obtain ⟨_, rfl, rfl, rfl⟩ := next
        refine .inl ⟨_, rfl, (Program.exec_comap_read.mpr ⟨rfl, rfl⟩).bind ?_⟩
        rw [if_neg last, Program.comap_bind]
        refine round.bind ?_
        cases goesOn <;> exact .done _ _
      · obtain ⟨rfl, -⟩ := Program.exec_done.mp ran
        exact .inr ⟨rfl, missing kept null⟩
  | succ left ih =>
    rw [onicRxLoopOrNull, Program.comap_bind, Program.exec_bind] at ran
    rw [onicRxLoop, Program.comap_bind]
    obtain ⟨clean, _, looked, ran⟩ := ran
    obtain ⟨rfl, same⟩ := Program.exec_comap_read.mp looked
    rw [same] at ran
    by_cases last : s.q.cmplRing.nextToClean = pidx
    · rw [if_pos last] at ran
      obtain ⟨rfl, rfl⟩ := Program.exec_done.mp ran
      refine .inl ⟨_, rfl, (Program.exec_comap_read.mpr ⟨rfl, rfl⟩).bind ?_⟩
      rw [if_pos last]
      exact .done _ _
    · rw [if_neg last, Program.comap_bind, Program.exec_bind] at ran
      obtain ⟨went, mid, body, ran⟩ := ran
      rcases onicRxRoundOrNull_exec body with ⟨goesOn, rfl, round⟩ | ⟨rfl, null⟩
      · have whole {ended : Nat × Bool} (rest : Program.Exec ((if goesOn = true then do
            let cmpl ← onicRxReadCmpl
            onicRxLoop t pidx left cmpl (work + 1)
            else .done (work, false) : Program PfRxPoll PfRxInput (Nat × Bool)).comap f) mid ended s') :
            Program.Exec ((Program.read fun s => s.q.cmplRing.nextToClean).comap f >>= fun a =>
              (if a = pidx then .done (work, false)
              else do
                if ← onicRxRound t cmpl then
                  let cmpl ← onicRxReadCmpl
                  onicRxLoop t pidx left cmpl (work + 1)
                else .done (work, false) : Program PfRxPoll PfRxInput (Nat × Bool)).comap f) s ended s' := by
          refine (Program.exec_comap_read.mpr ⟨rfl, rfl⟩).bind ?_
          rw [if_neg last, Program.comap_bind]
          exact round.bind rest
        cases goesOn with
        | true =>
          simp only at ran
          rw [Program.comap_bind, Program.exec_bind] at ran
          obtain ⟨next, _, looked, ran⟩ := ran
          obtain ⟨rfl, same⟩ := Program.exec_comap_read.mp looked
          rw [same] at ran
          rcases ih (onicRxRound_kept kept room small round) ran with ⟨ended, rfl, loop⟩ | null
          · refine .inl ⟨ended, rfl, whole ?_⟩
            rw [if_pos rfl, Program.comap_bind]
            exact (Program.exec_comap_read.mpr ⟨rfl, rfl⟩).bind loop
          · exact .inr null
        | false =>
          obtain ⟨rfl, rfl⟩ := Program.exec_done.mp ran
          exact .inl ⟨_, rfl, whole (.done _ _)⟩
      · obtain ⟨rfl, -⟩ := Program.exec_done.mp ran
        exact .inr ⟨rfl, missing kept null⟩

theorem onicRxPollOrNull_exec {budget : Nat} {r : Option Nat} (kept : PfRxKept R R' s)
    (room : onicRxDescStep / 2 + onicRxDescStep ≤ R) (small : R + onicRxDescStep < 65536)
    (ran : Program.Exec ((onicRxPollOrNull t budget).comap f) s r s') :
    (∃ work, r = some work ∧ Program.Exec ((onicRxPoll t budget).comap f) s work s') ∨
      r = none ∧ ∃ k, (f k).page = none := by
  rw [onicRxPollOrNull, Program.comap_bind, Program.exec_bind] at ran
  obtain ⟨cmpl, _, looked, ran⟩ := ran
  obtain ⟨rfl, same⟩ := Program.exec_comap_read.mp looked
  rw [same, Program.comap_bind, Program.exec_bind] at ran
  obtain ⟨pidx, _, looked, ran⟩ := ran
  obtain ⟨rfl, same⟩ := Program.exec_comap_read.mp looked
  rw [same, Program.comap_bind, Program.exec_bind] at ran
  obtain ⟨ended, mid, loop, ran⟩ := ran
  rcases onicRxLoopOrNull_exec kept room small loop with ⟨⟨work, outOfBudget⟩, rfl, plain⟩ | ⟨rfl, null⟩
  · rw [onicRxPoll, Program.comap_bind]
    cases outOfBudget with
    | true =>
      obtain ⟨rfl, rfl⟩ := Program.exec_done.mp ran
      refine .inl ⟨work, rfl, (Program.exec_comap_read.mpr ⟨rfl, rfl⟩).bind ?_⟩
      rw [Program.comap_bind]
      refine (Program.exec_comap_read.mpr ⟨rfl, rfl⟩).bind ?_
      rw [Program.comap_bind]
      exact plain.bind (.done _ _)
    | false =>
      simp only at ran
      rw [Program.comap_bind, Program.exec_bind] at ran
      obtain ⟨_, _, tail, ran⟩ := ran
      obtain ⟨rfl, rfl⟩ := Program.exec_done.mp ran
      refine .inl ⟨work, rfl, (Program.exec_comap_read.mpr ⟨rfl, rfl⟩).bind ?_⟩
      rw [Program.comap_bind]
      refine (Program.exec_comap_read.mpr ⟨rfl, rfl⟩).bind ?_
      rw [Program.comap_bind]
      refine plain.bind ?_
      simp only [Bool.false_eq_true, if_false]
      rw [Program.comap_bind]
      exact tail.bind (.done _ _)
  · obtain ⟨rfl, -⟩ := Program.exec_done.mp ran
    exact .inr ⟨rfl, null⟩

end

end OpenNic
